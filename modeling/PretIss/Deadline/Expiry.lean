import PretIss.DoubleWord.Flag
import PretIss.Library.Countdown
import PretIss.Thread.Program

/-! An expired timer. The timers are counted down for ever, in every round, and nothing
stops them at the least number: a timer that nobody loads comes round to the greatest
one, and is no longer expired. -/

namespace PretIss

open ExceptStage (reachesCommit squashes)

variable {id : ThreadId} {σ : Type} {timer : Fin numDeadlineTimers}

namespace Pass

variable {p : Pass id σ}

structure StaysOut (p : Pass id σ) (timer : Fin numDeadlineTimers) : Prop where
  before : (p.start.specRegs.dt timer).toInt ≤ 0
  within : -(2 ^ 31) ≤ (p.start.specRegs.dt timer - 1).toInt - 1
  through : p.reaches timer = true → p.reloads timer = true
  after : p.loads timer = false → (p.finished.specRegs.dt timer).toInt ≤ 0

/-- The countdown, or the test for a miss after it, goes below the least word. -/
def Overruns (p : Pass id σ) (timer : Fin numDeadlineTimers) : Prop :=
  (p.start.specRegs.dt timer).toInt = -(2 ^ 31) + 1 ∨
    ((p.start.specRegs.dt timer).toInt = -(2 ^ 31) ∧ p.loads timer = false)

theorem Valid.dt_unloaded (valid : p.Valid) (coherent : p.start.Coherent)
    (unloaded : p.loads timer = false) :
    p.finished.specRegs.dt timer = p.start.specRegs.dt timer - 1 := by
  rw [(valid.finishes coherent).dt, unloaded]
  rfl

theorem Valid.reloads_of_reaches (valid : p.Valid) (coherent : p.start.Coherent)
    (reached : p.reaches timer = true) (loads : p.loads timer = true) :
    p.reloads timer = true := by
  obtain ⟨through, _⟩ | ⟨_, never, _⟩ := valid.reaches_cases coherent reached
  · exact through
  · simp [Pass.loads, never] at loads

theorem Valid.staysOut_iff (valid : p.Valid) (coherent : p.start.Coherent)
    (expired : (p.start.specRegs.dt timer).toInt ≤ 0) :
    p.StaysOut timer ↔ ¬ p.Overruns timer := by
  have low := BitVec.le_two_mul_toInt (x := p.start.specRegs.dt timer)
  by_cases least : (p.start.specRegs.dt timer).toInt = -(2 ^ 31)
  · -- the countdown wraps to the greatest word
    have wraps : (p.start.specRegs.dt timer - 1).toInt = 2 ^ 31 - 1 := by
      have same : p.start.specRegs.dt timer = BitVec.intMin 32 := BitVec.eq_of_toInt_eq least
      rw [same]
      decide
    constructor
    · rintro stays (next | ⟨_, unloaded⟩)
      · omega
      · have after := stays.after unloaded
        rw [valid.dt_unloaded coherent unloaded, wraps] at after
        omega
    · intro never
      have loads : p.loads timer = true := by
        by_contra unloaded
        exact never (Or.inr ⟨least, by simpa using unloaded⟩)
      refine ⟨expired, by omega, fun reached => ?_, fun unloaded => ?_⟩
      · exact valid.reloads_of_reaches coherent reached loads
      · rw [loads] at unloaded
        cases unloaded
  · have ticks : (p.start.specRegs.dt timer - 1).toInt = (p.start.specRegs.dt timer).toInt - 1 := by
      apply Countdown.toInt_tick
      omega
    constructor
    · rintro stays (next | ⟨same, _⟩)
      · have within := stays.within
        omega
      · exact least same
    · intro never
      have above : (p.start.specRegs.dt timer).toInt ≠ -(2 ^ 31) + 1 := fun next =>
        never (Or.inl next)
      refine ⟨expired, by omega, fun reached => ?_, fun unloaded => ?_⟩
      · have out : (p.start.specRegs.dt timer - 1).sle 0 = true := by
          rw [BitVec.sle_iff_toInt_le, ticks, show (0 : Word).toInt = 0 from rfl]
          omega
        rw [valid.reloads_eq coherent.enabled reached, out, Bool.true_or]
      · rw [valid.dt_unloaded coherent unloaded, ticks]
        omega

end Pass

namespace Run

/-- Once a timer has run out it stays so until it is loaded, and no deadline instruction
waits for it. -/
def StaysExpired (run : Run id σ) (timer : Fin numDeadlineTimers) : Prop :=
  ∀ n m, n ≤ m → m < run.length → ((run.entry n).start.specRegs.dt timer).toInt ≤ 0 →
    (∀ k, n ≤ k → k < m → (run.entry k).loads timer = false) → (run.entry m).StaysOut timer

/-- An expired timer stays expired if and only if no round counts it below the least
word. -/
theorem stays_expired_iff (run : Run id σ) (timer : Fin numDeadlineTimers) :
    run.StaysExpired timer ↔ ∀ m, m < run.length → ¬ (run.entry m).Overruns timer := by
  constructor
  · intro stays m bound overruns
    have expired : ((run.entry m).start.specRegs.dt timer).toInt ≤ 0 := by
      obtain next | ⟨least, _⟩ := overruns <;> omega
    have out := stays m m le_rfl bound expired fun k low high => by omega
    exact ((run.valid m bound).staysOut_iff (run.coherent bound) expired).mp out overruns
  · intro never n m later bound expired unloaded
    induction m, later using Nat.le_induction with
    | base =>
        exact ((run.valid n bound).staysOut_iff (run.coherent bound) expired).mpr (never n bound)
    | succ m later ih =>
        have out := ih (by omega) fun k low high => unloaded k low (by omega)
        have still : ((run.entry (m + 1)).start.specRegs.dt timer).toInt ≤ 0 := by
          rw [run.linked m bound]
          exact out.after (unloaded m later (by omega))
        exact ((run.valid (m + 1) bound).staysOut_iff (run.coherent bound) still).mpr
          (never (m + 1) bound)

end Run

namespace ExceptStage

theorem incPc_returns (ht : HwThread id) : ∃ ht', incPc ht = .ok ht' := by
  suffices takes : ∀ ht : HwThread id, ∃ ht', takeBranch ht = .ok ht' by
    obtain ⟨taken, takes⟩ := takes (nextPc (writeIcc ht))
    exact ⟨linkAddress taken, Transition.bind_eq_ok.mpr ⟨taken, takes, rfl⟩⟩
  intro ht
  unfold takeBranch
  split
  · rename_i taken
    have target : ∃ offset, addrCalc ht = .ok offset := by
      unfold addrCalc
      cases branch : ht.inst.branch with
      | true => exact ⟨_, rfl⟩
      | false =>
          cases call : ht.inst.call with
          | true => exact ⟨_, rfl⟩
          | false => simp [branchCheck, branch, call] at taken
    obtain ⟨offset, target⟩ := target
    rw [target]
    simp only [bind, Except.bind]
    split <;> exact ⟨_, rfl⟩
  · split
    · exact ⟨_, rfl⟩
    · split <;> exact ⟨_, rfl⟩

theorem commit_returns {ht : HwThread id} (goes : squashes ht = false)
    (select : ht.inst.selectSpecialRegister = none) (syncNotStalled : Bool) (dma : Dma) :
    ∃ ht' dma', commit ht syncNotStalled dma = .ok (ht', dma') := by
  have advances : ∃ moved, advance (untrapped ht) true syncNotStalled = .ok moved := by
    unfold advance
    split
    · exact incPc_returns _
    · exact ⟨_, rfl⟩
  obtain ⟨moved, advances⟩ := advances
  have plain : moved.inst.selectSpecialRegister = none := by
    rw [← select]
    change (unmoved moved).inst.selectSpecialRegister = (unmoved (untrapped ht)).inst.selectSpecialRegister
    rw [(advance_unmoved advances).1]
  have writes : ∃ written, writeRegs moved = .ok written := by
    unfold writeRegs
    rw [plain]
    split <;> exact ⟨_, rfl⟩
  obtain ⟨written, writes⟩ := writes
  have still : written.inst.selectSpecialRegister = none := by
    rw [writeRegs_frame writes]
    exact plain
  have special : ∃ dma', writeSpecialRegs written dma = .ok (written, dma') := by
    unfold writeSpecialRegs
    rw [still]
    split <;> exact ⟨_, rfl⟩
  obtain ⟨dma', special⟩ := special
  exact ⟨_, _, commit_eq_ok.mpr
    ⟨_, _, _, _, _, handleExceptions_eq goes, advances, writes, special, rfl⟩⟩

end ExceptStage

def loopWord : Word := 0x30800000

structure HwThread.Idle (ht : HwThread id) : Prop where
  enabled : ht.enabled = true
  memoryStalled : ht.memoryStalled = false
  deadlineStalled : ht.deadlineStalled = false
  dbWordStalled : ht.dbWordStalled = false
  trapped : ht.trapped = .normal
  statuses : ∀ timer, ht.specRegs.dtStatus timer = .unset

theorem HwThread.idle_reset (pc : Word) (windowReg : Fin (16 * registerWindows) → Word) :
    (HwThread.reset id pc windowReg).Idle :=
  ⟨rfl, rfl, rfl, rfl, rfl, fun _ => rfl⟩

theorem HwThread.Idle.free {ht : HwThread id} (idle : ht.Idle) : Fetch.isHeld ht = false := by
  simp [Fetch.isHeld, idle.memoryStalled, idle.deadlineStalled, HwThread.isTrapped, idle.trapped,
    ExceptionState.isTrapped]

theorem HwThread.Idle.coherent {ht : HwThread id} (idle : ht.Idle) : ht.Coherent where
  enabled := idle.enabled
  fetched := fun held => by simp [idle.free] at held
  latch := fun held => by simp [idle.free] at held
  memory := fun stalled => by simp [idle.memoryStalled] at stalled
  deadline := fun stalled => by simp [idle.deadlineStalled] at stalled

def Round.looping : Round Unit := .ofProgram (fun _ => loopWord) false .create

/-- The thread that the branch is decoded in. -/
def HwThread.branching (ht : HwThread id) : HwThread id :=
  { Fetch.receive (Fetch.countDown ht) loopWord false with inst := Instruction.ofWord loopWord }

theorem HwThread.Idle.calm {ht : HwThread id} (idle : ht.Idle) :
    Regacc.checkDeadline ht.branching = ht.branching := by
  have unset : ht.branching.specRegs.missedDeadline = none := by
    rw [SpecialReg.missed_none_iff]
    intro timer missed
    change ht.specRegs.decrementDeadlineTimers.dtStatus timer = .missed at missed
    simp [SpecialReg.decrementDeadlineTimers, idle.statuses] at missed
  simp [Regacc.checkDeadline, unset]

theorem HwThread.branching_executes (ht : HwThread id) {α : Type} (view : HwThread id → α)
    (blind : ∀ ht : HwThread id, view ht.control = view ht) :
    view (Execute.behavior (Regacc.operands ht.branching)) = view (Regacc.operands ht.branching) :=
  HwThread.of_control view blind (Execute.control_behavior _)

theorem HwThread.Idle.returns {ht : HwThread id} (idle : ht.Idle) :
    ∃ p, Round.looping.pass ht = .ok p := by
  have fetches : Fetch.behavior Round.looping.instructionMemory ht () =
      .ok (Fetch.receive (Fetch.countDown ht) loopWord false, ()) := by
    simp only [Fetch.behavior, idle.enabled, not_true_eq_false, if_false, idle.free,
      Bool.false_eq_true]
    rfl
  have runs : (Fetch.receive (Fetch.countDown ht) loopWord false).isNotValid = false ∧
      ht.branching.isNotValid = false := by
    constructor <;> change (!ht.enabled || false) = false <;> rw [idle.enabled] <;> rfl
  have decodes : Decode.behavior (Fetch.receive (Fetch.countDown ht) loopWord false) =
      ht.branching := by
    unfold Decode.behavior
    rw [runs.1]
    rfl
  have plain : (Instruction.ofWord loopWord).selectSpecialRegister ≠ some .dt := by decide
  have accesses : Regacc.behavior ht.branching = .ok (Regacc.operands ht.branching) := by
    refine (Regacc.behavior_eq_ok runs.2).mpr
      ⟨ht.branching, Regacc.deadlineInstruction_of_ne plain, ?_⟩
    rw [idle.calm, Regacc.operands_eq]
  generalize executed : Execute.behavior (Regacc.operands ht.branching) = e
  have view : ∀ {α : Type} (f : HwThread id → α), (∀ ht : HwThread id, f ht.control = f ht) →
      f e = f (Regacc.operands ht.branching) := fun f blind => executed ▸ ht.branching_executes f blind
  have granted : e.memoryStalled = false := by
    rw [← executed, Execute.memoryStalled_behavior]
    exact idle.memoryStalled
  have passes : Mem.behavior Round.looping.dataMem e () = .ok (e, ()) := by
    have reads := view (fun ht => ht.inst.readMemory) fun _ => rfl
    have writes := view (fun ht => ht.inst.writeMemory) fun _ => rfl
    change e.inst.readMemory = false at reads
    change e.inst.writeMemory = false at writes
    simp [Mem.behavior, reads, writes]
  have select := view (fun ht => ht.inst.selectSpecialRegister) fun _ => rfl
  have sync := view (fun ht => ht.inst.syncInstruction) fun _ => rfl
  have normal := (view HwThread.trapped fun _ => rfl).trans idle.trapped
  change e.inst.selectSpecialRegister = none at select
  change e.inst.syncInstruction = false at sync
  obtain ⟨last, dma, commits⟩ := @ExceptStage.commit_returns _ (ExceptStage.arrive e)
    (by simp [squashes, HwThread.isTrapped, normal, ExceptionState.isTrapped]) (by simpa using select)
    true Round.looping.dma
  have ends : ExceptStage.behavior e Round.looping.syncTable Round.looping.dma =
      .ok (last, Round.looping.syncTable, dma) :=
    (ExceptStage.behavior_of_free ((view HwThread.enabled fun _ => rfl).trans idle.enabled)
      (view HwThread.fetchStalled fun _ => rfl)
      ((view HwThread.deadlineStalled fun _ => rfl).trans idle.deadlineStalled) granted).mpr
      ⟨true, by simp [ExceptStage.checkSync, sync], commits⟩
  simp only [Round.pass, Transition.bind_eq_ok, Prod.exists, pure, Except.pure, Except.ok.injEq]
  refine ⟨_, _, (), fetches, Regacc.operands ht.branching, ?_, e, (), ?_, last,
    Round.looping.syncTable, dma, ends, rfl⟩
  · exact (congrArg Regacc.behavior decodes).trans accesses
  · exact (congrArg (fun ht => Mem.behavior Round.looping.dataMem ht ()) executed).trans passes

theorem HwThread.Idle.latch {p : Pass id Unit} (valid : p.Valid) (round : p.round = .looping)
    (idle : p.start.Idle) :
    p.runs = true ∧ p.word = loopWord ∧ p.decoded.inst.selectSpecialRegister = none := by
  have enabled := idle.coherent.enabled
  obtain ⟨_, control, same, _, ⟨held, _⟩ | ⟨_, bits, stall, reads, rfl⟩⟩ := valid.fetch_cases enabled
  · rw [idle.free] at held
    cases held
  rw [round] at reads
  obtain ⟨_, rfl, rfl⟩ : () = p.fetchMemory ∧ loopWord = bits ∧ false = stall := by
    simpa using Except.ok.inj reads
  have fetched : p.fetched.fetchStalled = false :=
    HwThread.of_control HwThread.fetchStalled (fun _ => rfl) control
  have latch : p.decoded.inst = Instruction.ofWord loopWord := by
    rw [valid.decoded_inst enabled fetched, same]
    rfl
  have plain : (Instruction.ofWord loopWord).selectSpecialRegister = none := by decide
  exact ⟨by simp [Pass.runs, fetched], by rw [Pass.word, latch, Instruction.inst_ofWord],
    by rw [latch, plain]⟩

/-- A pass of the branch leaves the thread idle and its timers unloaded. -/
theorem HwThread.Idle.step {p : Pass id Unit} (valid : p.Valid) (round : p.round = .looping)
    (idle : p.start.Idle) : p.finished.Idle ∧ ∀ timer, p.loads timer = false := by
  have coherent := idle.coherent
  obtain ⟨present, word, select⟩ := HwThread.Idle.latch valid round idle
  have arrives := valid.arrives coherent.enabled
  have view : ∀ {α : Type} (f : Instruction → α), (∀ i : Instruction, f i.operation = f i) →
      f p.arrived.inst = f (Instruction.ofWord loopWord) := fun f blind =>
    word ▸ Instruction.of_operation f blind (valid.arrived_operation coherent present)
  have plain : (Instruction.ofWord loopWord).selectSpecialRegister = none ∧
      (Instruction.ofWord loopWord).readMemory = false ∧
      (Instruction.ofWord loopWord).writeMemory = false ∧
      (Instruction.ofWord loopWord).isRett = false ∧ ¬ IsDoubleWord loopWord := by decide
  obtain ⟨selects, reads, writes, rett, single⟩ := plain
  have waits : ∀ timer, p.reloads timer = false := fun timer => by
    simp [Pass.reloads, Regacc.reloads, Regacc.isDeadline, select]
  have statuses : ∀ timer, p.status timer = .unset := fun timer => by
    simp [Pass.status, waits, SpecialReg.decrementDeadlineTimers, idle.statuses]
  obtain ⟨memory, deadline⟩ := valid.arrived_stalls coherent present
  rw [view Instruction.readMemory fun _ => rfl, view Instruction.writeMemory fun _ => rfl, reads,
    writes] at memory
  rw [view Instruction.selectSpecialRegister fun _ => rfl, selects] at deadline
  have granted : p.arrived.memoryStalled = false :=
    Bool.eq_false_iff.mpr fun stalled => by simpa using memory stalled
  have through : p.arrived.deadlineStalled = false :=
    Bool.eq_false_iff.mpr fun stalled => by simpa using deadline stalled
  have fetched : p.arrived.fetchStalled = false := by
    rw [arrives.fetchStalled]
    simpa [Pass.runs] using present
  have normal : p.arrived.trapped = .normal := by
    obtain ⟨pending, _⟩ | ⟨_, _, same, _⟩ | ⟨_, timer, missed, _⟩ :=
      valid.arrived_trap coherent.enabled present
    · simp [HwThread.isTrapped, idle.trapped, ExceptionState.isTrapped] at pending
    · rw [same, idle.trapped]
    · rw [statuses] at missed
      cases missed
  have goes : squashes p.arrived = false := by
    simp [squashes, HwThread.isTrapped, normal, ExceptionState.isTrapped]
  have reaches : reachesCommit p.arrived = true := by
    simp [reachesCommit, arrives.enabled, fetched, through, granted]
  have commits : p.commits = true := by simp [Pass.commits, reaches, goes]
  have finishes := valid.finishes coherent
  obtain ⟨enabled, _, sameMemory, sameDeadline, _⟩ := valid.finished_latch coherent.enabled
  refine ⟨⟨enabled, sameMemory.trans granted, sameDeadline.trans through, ?_, ?_, fun timer => ?_⟩,
    fun timer => ?_⟩
  · rw [valid.flag_finished coherent present, word, if_neg single, idle.dbWordStalled,
      Bool.false_and]
  · obtain ⟨_, _, never⟩ | ⟨_, _, ends, _⟩ | ⟨returns, _⟩ := finishes.trap
    · rw [reaches] at never
      cases never
    · exact ends commits
    · rw [view Instruction.isRett fun _ => rfl, rett] at returns
      cases returns
  · rw [finishes.dtStatus, statuses]
    exact ite_self _
  · have never : p.arrived.inst.selectSpecialRegister = none :=
      (view Instruction.selectSpecialRegister fun _ => rfl).trans selects
    simp [Pass.loads, ExceptStage.setsTimer, never]

namespace Run

theorem exists_looping (length : Nat) :
    ∃ run : Run 0 Unit, run.length = length ∧
      (∀ n, n < length → ∀ timer, (run.entry n).loads timer = false) ∧
      ∀ timer, (run.entry 0).start.specRegs.dt timer = 0 := by
  obtain ⟨h, size, start, idle⟩ := @Timeline.exists_of_progress _ _ Pass.start Pass.finished
    (fun p : Pass 0 Unit => p.Valid ∧ p.round = .looping) HwThread.Idle
    (fun ht idle => by
      obtain ⟨p, passes⟩ := idle.returns
      obtain ⟨round, rfl, valid⟩ := Round.pass_eq_ok.mp passes
      exact ⟨p, rfl, ⟨valid, round⟩, (HwThread.Idle.step valid round idle).1⟩)
    (.reset 0 0 fun _ => 0) (HwThread.idle_reset 0 fun _ => 0) length
  refine ⟨⟨⟨h.length, h.entry, fun n bound => (h.valid n bound).1, h.linked⟩, 0, fun _ => 0, start⟩,
    size, fun n bound timer => ?_, fun timer => ?_⟩
  · obtain ⟨valid, round⟩ := h.valid n (by omega)
    exact (HwThread.Idle.step valid round (idle n)).2 timer
  · change (h.entry 0).start.specRegs.dt timer = 0
    rw [start]
    rfl

theorem unloaded_counts (run : Run id σ) (unloaded : ∀ n, n < run.length →
      (run.entry n).loads timer = false) {n : Nat} (bound : n < run.length) :
    (run.entry n).start.specRegs.dt timer =
      Countdown.after ((run.entry 0).start.specRegs.dt timer) n := by
  induction n with
  | zero => rw [Countdown.after_zero]
  | succ n ih =>
      have inside : n < run.length := by omega
      rw [run.linked n bound, Countdown.after_succ, ← ih inside]
      exact (run.valid n inside).dt_unloaded (run.coherent inside) (unloaded n inside)

/-- A timer that has run out at reset, and is never loaded, runs again after half the
range of the words. -/
theorem expired_returns :
    ∃ run : Run 0 Unit, (∀ n, n < run.length → (run.entry n).loads 0 = false) ∧
      ((run.entry 0).start.specRegs.dt 0).toInt = 0 ∧
      ((run.entry (2 ^ 31 + 1)).start.specRegs.dt 0).toInt = 2 ^ 31 - 1 ∧
      ¬ run.StaysExpired 0 := by
  obtain ⟨run, length, unloaded, zero⟩ := exists_looping (2 ^ 31 + 2)
  rw [← length] at unloaded
  have late : ((run.entry (2 ^ 31 + 1)).start.specRegs.dt 0).toInt = 2 ^ 31 - 1 := by
    rw [run.unloaded_counts (fun n bound => unloaded n bound 0) (by omega), zero]
    decide
  have first : ((run.entry 0).start.specRegs.dt 0).toInt = 0 := by
    rw [zero]
    decide
  refine ⟨run, fun n bound => unloaded n bound 0, first, late, fun stays => ?_⟩
  have still := (stays 0 (2 ^ 31 + 1) (by omega) (by omega) (by omega)
    fun k _ high => unloaded k (by omega) 0).before
  omega

end Run

end PretIss
