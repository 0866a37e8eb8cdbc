import PretIss.Thread.Access
import PretIss.Thread.Program
import PretIss.Trap.Squash

/-! The return from trap. It is meant to run with traps disabled, as the entry of a trap
should leave them; but no entry disables them, and a return that finds them enabled
raises a trap of its own each time the last stage meets it, for ever. -/

namespace PretIss

open ExceptStage (reachesCommit squashes npc)

variable {id : ThreadId} {σ : Type}

namespace ExceptStage

theorem moveWindow_settings (ht : HwThread id) (increment : BitVec 16) :
    (ht.moveWindow increment).specRegs.settings = ht.specRegs.settings := rfl

theorem handleExceptions_settings {ht ht' : HwThread id} {handled : Bool}
    (runs : handleExceptions ht = .ok (ht', handled)) :
    ht'.inst.operation = ht.inst.operation ∧ ht'.specRegs.settings = ht.specRegs.settings ∧
      (squashes ht = false → ht'.specRegs.currWp = ht.specRegs.currWp) := by
  obtain ⟨_, _, rfl⟩ | ⟨stops, _, ⟨_, rfl⟩ | ⟨_, rfl⟩ | ⟨_, rfl⟩⟩ := handleExceptions_cases runs
  · exact ⟨rfl, rfl, fun _ => rfl⟩
  · rw [firstPass_eq]
    exact ⟨rfl, moveWindow_settings (unwritten ht) (-1), fun goes => by simp [stops] at goes⟩
  · exact ⟨rfl, rfl, fun goes => by simp [stops] at goes⟩
  · exact ⟨rfl, rfl, fun _ => rfl⟩

theorem commit_settings {ht ht' : HwThread id} {syncNotStalled : Bool} {dma dma' : Dma}
    (stops : squashes ht = true) (runs : commit ht syncNotStalled dma = .ok (ht', dma')) :
    ht'.specRegs.settings = ht.specRegs.settings := by
  obtain ⟨_, squashed, written, first, third, rfl⟩ := commit_squashed stops runs
  have handles := (handleExceptions_settings first).2.1
  have stored : written.specRegs = squashed.specRegs := by rw [writeRegs_frame third]
  have et : written.specRegs.et = true := by
    simp only [squashes, Bool.and_eq_true] at stops
    calc written.specRegs.et = squashed.specRegs.settings.et := by rw [stored]; rfl
      _ = ht.specRegs.settings.et := by rw [handles]
      _ = true := stops.2
  obtain ⟨state, trapType, retired, _⟩ := retire_of_et et
  rw [retired, ← handles, ← stored]

/-- A return from trap that finds traps enabled raises one, in whichever pass. -/
theorem commit_rett {ht ht' : HwThread id} {syncNotStalled : Bool} {dma dma' : Dma}
    (et : ht.specRegs.et = true) (rett : ht.inst.isRett = true)
    (select : ht.inst.selectSpecialRegister = none)
    (runs : commit ht syncNotStalled dma = .ok (ht', dma')) :
    ht'.trapped = .trapped ∧ ht'.specRegs.et = true ∧
      (squashes ht = false → ht'.trapType = (if ht.specRegs.s then 0x02 else 0x03) ∧
        ht'.specRegs.currWp = ht.specRegs.currWp) := by
  obtain ⟨squashed, handled, moved, written, last, first, second, third, fourth, rfl⟩ :=
    commit_eq_ok.mp runs
  obtain ⟨operation, settings, window⟩ := handleExceptions_settings first
  have kept : ∀ {α : Type} (view : HwThread id → α), (∀ ht : HwThread id, view (unmoved ht) = view ht) →
      (∀ (ht : HwThread id) regs, view { ht with regs := regs } = view ht) →
      view written = view squashed := by
    intro α view still blind
    rw [writeRegs_frame third, blind, ← still moved, (advance_unmoved second).1, still]
  have unwritten : last = written := by
    have none : written.inst.selectSpecialRegister = none := by
      rw [kept (fun ht => ht.inst.selectSpecialRegister) (fun _ => rfl) fun _ _ => rfl, ← select]
      exact Instruction.of_operation Instruction.selectSpecialRegister (fun _ => rfl) operation
    simp only [writeSpecialRegs, none, ite_self, Except.ok.injEq, Prod.mk.injEq] at fourth
    exact fourth.1.symm
  have returns : last.inst.isRett = true := by
    rw [unwritten, kept (fun ht => ht.inst.isRett) (fun _ => rfl) fun _ _ => rfl, ← rett]
    exact Instruction.of_operation Instruction.isRett (fun _ => rfl) operation
  have enabled : last.specRegs.et = true := by
    calc last.specRegs.et = squashed.specRegs.settings.et := by
          rw [unwritten]
          exact kept (fun ht => ht.specRegs.et) (fun _ => rfl) fun _ _ => rfl
      _ = ht.specRegs.settings.et := by rw [settings]
      _ = true := et
  have supervisor : last.specRegs.s = ht.specRegs.s := by
    calc last.specRegs.s = squashed.specRegs.settings.s := by
          rw [unwritten]
          exact kept (fun ht => ht.specRegs.s) (fun _ => rfl) fun _ _ => rfl
      _ = ht.specRegs.settings.s := by rw [settings]
      _ = ht.specRegs.s := rfl
  have pointer : last.specRegs.currWp = squashed.specRegs.currWp := by
    rw [unwritten]
    exact kept (fun ht => ht.specRegs.currWp) (fun _ => rfl) fun _ _ => rfl
  rw [← supervisor]
  simp only [retire, returnFromTrap, returns, enabled, if_true]
  cases last.specRegs.s with
  | true => exact ⟨rfl, enabled, fun goes => ⟨rfl, pointer.trans (window goes)⟩⟩
  | false => exact ⟨rfl, enabled, fun goes => ⟨rfl, pointer.trans (window goes)⟩⟩

end ExceptStage

structure HwThread.Refaults (ht : HwThread id) : Prop where
  trapped : ht.trapped = .trapped
  et : ht.specRegs.et = true
  rett : (Instruction.ofWord ht.inst.inst).isRett = true

namespace Pass

variable {p : Pass id σ}

theorem Valid.squashed_settings (valid : p.Valid) (coherent : p.start.Coherent)
    (squashed : p.isSquashed = true) :
    p.finished.specRegs.settings = p.start.specRegs.settings := by
  have both := squashed
  simp only [isSquashed, Bool.and_eq_true] at both
  have present := runs_of_reachesCommit (valid.arrives coherent.enabled) both.1
  obtain ⟨ht, _, finished, committed⟩ := valid.squashed squashed
  have stops : squashes (ExceptStage.arrive p.arrived) = true := by
    simpa [squashes, HwThread.isTrapped] using both.2
  calc p.finished.specRegs.settings = ht.specRegs.settings := by
        rw [finished]
        exact p.round.after_eq .except (fun ht => ht.specRegs.settings) (fun _ => rfl) ht
    _ = p.arrived.specRegs.settings := by
        rw [ExceptStage.commit_settings stops committed, ExceptStage.arrive_specRegs]
    _ = p.start.specRegs.settings := (valid.carries coherent present).settings

theorem Valid.rett_reaches (valid : p.Valid) (coherent : p.start.Coherent)
    (present : p.runs = true) (rett : (Instruction.ofWord p.word).isRett = true) :
    reachesCommit p.arrived = true := by
  apply valid.reaches_of_other coherent present
  · rw [asked, Instruction.ofWord_rett rett]
    exact fun select : none = some SregMux.dt => by cases select
  · rw [IsAccess, Instruction.ofWord_rett rett]
    exact fun accesses => accesses.elim Bool.false_ne_true Bool.false_ne_true

/-- With traps enabled it raises one; unless it was squashed, it has moved the window. -/
theorem Valid.rett_faults (valid : p.Valid) (coherent : p.start.Coherent)
    (present : p.runs = true) (rett : (Instruction.ofWord p.word).isRett = true)
    (et : p.start.specRegs.et = true) :
    p.finished.Refaults ∧
      (p.arrived.isTrapped = false →
        p.finished.trapType = (if p.start.specRegs.s then 0x02 else 0x03) ∧
        p.finished.specRegs.currWp = (p.start.specRegs.currWp + 1) % registerWindows) := by
  have reaches := valid.rett_reaches coherent present rett
  have carries := valid.carries coherent present
  simp only [reachesCommit, Bool.and_eq_true, Bool.not_eq_true'] at reaches
  obtain ⟨⟨⟨enabled, fetch⟩, dead⟩, memory⟩ := reaches
  obtain ⟨ht, runs, finished⟩ := valid.except
  obtain ⟨syncNotStalled, _, committed⟩ :=
    (ExceptStage.behavior_of_free enabled fetch dead memory).mp runs
  have view : ∀ {α : Type} (f : HwThread id → α), (∀ ht : HwThread id, f ht.pllTick = f ht) →
      f p.finished = f ht := by
    intro α f blind
    rw [finished]
    exact p.round.after_eq .except f blind ht
  have latch : ∀ {α : Type} (f : Instruction → α), (∀ i : Instruction, f i.operation = f i) →
      f (ExceptStage.arrive p.arrived).inst = f (Instruction.ofWord p.word) := by
    intro α f blind
    rw [ExceptStage.arrive_inst]
    exact Instruction.of_operation f blind carries.operation
  have supervisor : p.arrived.specRegs.s = p.start.specRegs.s := by
    calc p.arrived.specRegs.s = p.arrived.specRegs.settings.s := rfl
      _ = p.start.specRegs.settings.s := by rw [carries.settings]
      _ = p.start.specRegs.s := rfl
  obtain ⟨trapped, still, calm⟩ :=
    ExceptStage.commit_rett
      (by rw [ExceptStage.arrive_specRegs, (valid.arrives coherent.enabled).et, et])
      ((latch Instruction.isRett fun _ => rfl).trans rett)
      (by
        rw [latch Instruction.selectSpecialRegister fun _ => rfl, Instruction.ofWord_rett rett]
        rfl)
      committed
  refine ⟨⟨?_, ?_, ?_⟩, fun free => ?_⟩
  · exact (view HwThread.trapped fun _ => rfl).trans trapped
  · exact (view (fun ht => ht.specRegs.et) fun _ => rfl).trans still
  · rw [valid.finished_word coherent present]
    exact rett
  · obtain ⟨type, window⟩ := calm (by
      simpa [squashes, HwThread.isTrapped] using fun pending => by
        rw [HwThread.isTrapped, pending] at free
        cases free)
    rw [ExceptStage.arrive_specRegs] at type window
    refine ⟨?_, ?_⟩
    · rw [view HwThread.trapType fun _ => rfl, type, supervisor]
    · rw [view (fun ht => ht.specRegs.currWp) fun _ => rfl, window, carries.currWp,
        Instruction.ofWord_rett rett]

theorem Valid.refaults (valid : p.Valid) (coherent : p.start.Coherent)
    (again : p.start.Refaults) : p.finished.Refaults := by
  have held : Fetch.isHeld p.start = true := by
    simp [Fetch.isHeld, HwThread.isTrapped, again.trapped, ExceptionState.isTrapped]
  obtain ⟨present, word⟩ := valid.held_word coherent held
  exact (valid.rett_faults coherent present (by rw [Pass.word, word]; exact again.rett) again.et).1

/-- The thread is left as it was found, but for the trap that is raised. -/
structure Untouched (p : Pass id σ) : Prop where
  trapped : p.finished.trapped = .trapped
  trapType : p.finished.trapType = if p.start.specRegs.s then 0x02 else 0x03
  currWp : p.finished.specRegs.currWp = p.start.specRegs.currWp
  pc : p.finished.pc = p.start.pc
  branchSlot : p.finished.branchSlot = p.start.branchSlot
  s : p.finished.specRegs.s = p.start.specRegs.s
  ps : p.finished.specRegs.ps = p.start.specRegs.ps
  regs : p.finished.regs = p.start.regs

/-- The trap that the first pass raised is entered when the last ends. -/
structure EntersOnce (first last : Pass id σ) : Prop where
  returns : last.finished.trapped = .normal
  pc : last.finished.pc =
    first.start.specRegs.tbr ||| (first.finished.trapType.signExtend 32 <<< 4)
  saves : last.finished.readReg 17 = first.start.pc

theorem window_succ_ne (w : BitVec 16) : (w + 1) % registerWindows ≠ w := by
  have windows : (registerWindows : BitVec 16).toNat = 32 := by decide
  have one : (1 : BitVec 16).toNat = 1 := by decide
  intro same
  have same := congrArg BitVec.toNat same
  rw [BitVec.toNat_umod, windows, BitVec.toNat_add, one] at same
  have bound := w.isLt
  omega

end Pass

namespace History

variable (h : History id σ)

theorem coherent (start : (h.entry 0).start.Coherent) {n : Nat} (bound : n < h.length) :
    (h.entry n).start.Coherent :=
  h.invariant (fun _ ht => ht.Coherent) start
    (fun n bound coherent => (h.valid n bound).coherent_finished coherent) bound

theorem refaults_forever (start : (h.entry 0).start.Coherent) {n m : Nat}
    (faults : (h.entry n).finished.Refaults) (later : n < m) (bound : m < h.length) :
    (h.entry m).finished.Refaults := by
  have begins : (h.entry m).start.Refaults :=
    h.invariant_from (fun _ ht => ht.Refaults) (n + 1) (by rwa [h.linked n (by omega)])
      (fun k _ inside => (h.valid k inside).refaults (h.coherent start inside)) later bound
  exact (h.valid m bound).refaults (h.coherent start bound) begins

/-- A return from trap runs with traps enabled, and two passes follow it. -/
structure Faults : Prop where
  coherent : (h.entry 0).start.Coherent
  present : (h.entry 0).runs = true
  rett : (Instruction.ofWord (h.entry 0).word).isRett = true
  et : (h.entry 0).start.specRegs.et = true
  calm : (h.entry 0).arrived.isTrapped = false
  long : 2 < h.length

/-- A return from trap that faults has moved the window, and its trap is never
entered. -/
theorem faults_not_atomic (faults : Faults h) :
    ¬ (h.entry 0).Untouched ∧ ¬ Pass.EntersOnce (h.entry 0) (h.entry 2) := by
  have long := faults.long
  obtain ⟨again, moved⟩ := (h.valid 0 (by omega)).rett_faults faults.coherent faults.present
    faults.rett faults.et
  constructor
  · intro untouched
    have window := (moved faults.calm).2
    rw [untouched.currWp] at window
    exact Pass.window_succ_ne _ window.symm
  · intro enters
    have never := (h.refaults_forever faults.coherent again (by omega) long).trapped
    rw [enters.returns] at never
    cases never

end History

def rettWord : Word := 2#2 ++ 0#5 ++ 0x39#6 ++ 18#5 ++ 1#1 ++ 0#13

def returning : List (Round Unit) :=
  let round := Round.ofProgram (fun _ => rettWord) false .create
  [round, round, round]

theorem faults_not_atomic_reset :
    ∃ run : Run 0 Unit, History.Faults run.toTimeline ∧ ¬ (run.entry 0).Untouched ∧
      ¬ Pass.EntersOnce (run.entry 0) (run.entry 2) := by
  obtain ⟨run, holds⟩ := Run.exists_of_check
    (fun length (entry : Nat → Pass 0 Unit) =>
      length == 3 && (entry 0).runs && (Instruction.ofWord (entry 0).word).isRett &&
        (entry 0).start.specRegs.et && !(entry 0).arrived.isTrapped)
    returning (by decide +kernel)
  simp only [Bool.and_eq_true, Bool.not_eq_true', beq_iff_eq] at holds
  obtain ⟨⟨⟨⟨length, present⟩, rett⟩, et⟩, calm⟩ := holds
  have faults : History.Faults run.toTimeline := ⟨run.coherent (by omega), present, rett, et, calm, by omega⟩
  exact ⟨run, faults, History.faults_not_atomic run.toTimeline faults⟩

/-- The return from trap has moved to window 1, and two passes later its trap pends. -/
theorem returning_faults :
    ∃ run : Run 0 Unit, History.Faults run.toTimeline ∧ ¬ (run.entry 0).Untouched ∧
      ¬ Pass.EntersOnce (run.entry 0) (run.entry 2) ∧
      (run.entry 0).start.specRegs.currWp = 0 ∧ (run.entry 0).finished.specRegs.currWp = 1 ∧
      (run.entry 2).finished.trapped = .trapped := by
  obtain ⟨run, holds⟩ := Run.exists_of_check
    (fun length (entry : Nat → Pass 0 Unit) =>
      length == 3 && (entry 0).runs && (Instruction.ofWord (entry 0).word).isRett &&
        (entry 0).start.specRegs.et && !(entry 0).arrived.isTrapped &&
        (entry 0).start.specRegs.currWp == 0 && (entry 0).finished.specRegs.currWp == 1 &&
        (entry 2).finished.trapped == .trapped)
    returning (by decide +kernel)
  simp only [Bool.and_eq_true, Bool.not_eq_true', beq_iff_eq] at holds
  obtain ⟨⟨⟨⟨⟨⟨⟨length, present⟩, rett⟩, et⟩, calm⟩, before⟩, after⟩, pends⟩ := holds
  refine ⟨run, ⟨run.coherent (by omega), present, rett, et, calm, by omega⟩, fun untouched => ?_,
    fun enters => ?_, before, after, pends⟩
  · have same := untouched.currWp
    rw [before, after] at same
    exact absurd same (by decide)
  · rw [enters.returns] at pends
    cases pends

namespace History

variable (h : History id σ)

/-- Two passes take a trap that is none of a timer. -/
structure Enters : Prop where
  coherent : (h.entry 0).start.Coherent
  et : (h.entry 0).start.specRegs.et = true
  pending : (h.entry 0).arrived.trapped = .trapped
  trapType : (h.entry 0).arrived.trapType.toInt < 0x70 ∨ 0x7F < (h.entry 0).arrived.trapType.toInt
  squashed : (h.entry 0).isSquashed = true ∧ (h.entry 1).isSquashed = true
  long : 1 < h.length

end History

namespace SpecialReg

def privilege (r : SpecialReg) : Bool × Bool × Bool × BitVec 16 := (r.s, r.ps, r.et, r.currWp)

end SpecialReg

def Instruction.JumpsTo (i : Instruction) (r : Nat) : Prop :=
  i.jump = true ∧ i.rs1 = r ∧ (if i.useImm then i.imm = 0 else i.rs2 = 0)

instance (i : Instruction) (r : Nat) : Decidable (i.JumpsTo r) :=
  inferInstanceAs (Decidable (_ ∧ _ ∧ _))

namespace History

variable (h : History id σ)

/-- The handler of the trap leaves the privileges and the saved addresses alone, and
ends with a jump to the first address and a return from trap to the second. Between
these, fetches may stall. -/
structure Handles (jump rett : Nat) : Prop where
  order : 1 < jump ∧ jump < rett ∧ rett < h.length
  privilege : ∀ n, jump ≤ n → n ≤ rett →
    (h.entry n).start.specRegs.privilege = (h.entry 1).finished.specRegs.privilege
  saved : ∀ r, r = 17 ∨ r = 18 → (h.entry jump).start.readReg r = (h.entry 1).finished.readReg r
  jumps : (h.entry jump).commits = true ∧
    (Instruction.ofWord (h.entry jump).word).JumpsTo 17 ∧
    (Instruction.ofWord (h.entry jump).word).isRett = false
  stalls : ∀ n, jump < n → n < rett → (h.entry n).runs = false
  returns : (h.entry rett).runs = true ∧
    (Instruction.ofWord (h.entry rett).word).JumpsTo 18 ∧
    (Instruction.ofWord (h.entry rett).word).isRett = true

/-- The entry saves the privilege and disables traps. -/
structure Privileges : Prop where
  ps : (h.entry 1).finished.specRegs.ps = (h.entry 0).start.specRegs.s
  s : (h.entry 1).finished.specRegs.s = true
  et : (h.entry 1).finished.specRegs.et = false

/-- The thread resumes where it was interrupted. -/
structure Resumes (rett : Nat) : Prop where
  trapped : (h.entry rett).finished.trapped = .normal
  currWp : (h.entry rett).finished.specRegs.currWp = (h.entry 0).start.specRegs.currWp
  s : (h.entry rett).finished.specRegs.s = (h.entry 0).start.specRegs.s
  et : (h.entry rett).finished.specRegs.et = true
  pc : (h.entry rett).finished.pc = (h.entry 0).start.pc
  npc : npc (h.entry rett).finished = npc (h.entry 0).start

/-- The entry of a trap leaves traps enabled, so that no return from it resumes. -/
theorem enters_not_inverse (enters : Enters h) :
    ¬ h.Privileges ∧ ∀ jump rett, h.Handles jump rett → ¬ h.Resumes rett := by
  obtain ⟨coherent, et, _, _, ⟨first, second⟩, long⟩ := enters
  have entered := (h.valid 1 long).squashed_settings (h.coherent coherent long) second
  have opened := (h.valid 0 (by omega)).squashed_settings coherent first
  have still : (h.entry 1).finished.specRegs.et = true := by
    calc (h.entry 1).finished.specRegs.et = (h.entry 1).start.specRegs.settings.et := by
          rw [← entered]
          rfl
      _ = (h.entry 0).start.specRegs.settings.et := by rw [h.linked 0 long, opened]
      _ = true := et
  refine ⟨fun privileges => ?_, fun jump rett handles resumes => ?_⟩
  · rw [privileges.et] at still
    cases still
  · obtain ⟨_, before, bound⟩ := handles.order
    have enabled : (h.entry rett).start.specRegs.et = true := by
      rw [← still]
      exact congrArg (fun fields => fields.2.2.1) (handles.privilege rett (by omega) le_rfl)
    have faults := ((h.valid rett bound).rett_faults (h.coherent coherent bound)
      handles.returns.1 handles.returns.2.2 enabled).1.trapped
    rw [resumes.trapped] at faults
    cases faults

end History

def jmplWord : Word := 2#2 ++ 0#5 ++ 0x38#6 ++ 17#5 ++ 1#1 ++ 0#13

def overflowed : HwThread 0 :=
  { HwThread.reset 0 0x100 (fun _ => 0) with
    trapped := .trapped, trapType := 5, inst := Instruction.ofWord nopWord }

theorem coherent_overflowed : overflowed.Coherent where
  enabled := rfl
  fetched := fun _ => rfl
  latch := fun _ => ⟨by rw [overflowed, Instruction.inst_ofWord], fun asks => by
    rwa [overflowed, Instruction.inst_ofWord]⟩
  memory := fun stalled => by simp [overflowed, HwThread.reset, HwThread.create] at stalled
  deadline := fun stalled => by simp [overflowed, HwThread.reset, HwThread.create] at stalled

def handled : List (Round Unit) :=
  let program := fun pc : Word =>
    if pc = 0x70 then jmplWord else if pc = 0x74 then rettWord else nopWord
  let round := Round.ofProgram program false .create
  [round, round, round, round]

namespace History

/-- What a history must pass to show a trap and its handler. -/
def handledTest (length : Nat) (entry : Nat → Pass 0 Unit) : Bool :=
  length == 4 && (entry 0).arrived.trapped == .trapped &&
    decide ((entry 0).arrived.trapType.toInt < 0x70) && (entry 0).isSquashed &&
    (entry 1).isSquashed &&
    (entry 2).start.specRegs.privilege == (entry 1).finished.specRegs.privilege &&
    (entry 3).start.specRegs.privilege == (entry 1).finished.specRegs.privilege &&
    (entry 2).start.readReg 17 == (entry 1).finished.readReg 17 &&
    (entry 2).start.readReg 18 == (entry 1).finished.readReg 18 && (entry 2).commits &&
    (entry 2).word == jmplWord && (entry 3).runs && (entry 3).word == rettWord

theorem handled_of_test {h : History 0 Unit} (start : (h.entry 0).start = overflowed)
    (passed : handledTest h.length h.entry = true) : h.Enters ∧ h.Handles 2 3 := by
  simp only [handledTest, Bool.and_eq_true, beq_iff_eq, decide_eq_true_eq] at passed
  obtain ⟨⟨⟨⟨⟨⟨⟨⟨⟨⟨⟨⟨length, pending⟩, type⟩, first⟩, second⟩, jumpStarts⟩, returnStarts⟩, r17⟩, r18⟩,
    commits⟩, jump⟩, present⟩, rett⟩ := passed
  refine ⟨⟨start ▸ coherent_overflowed, start ▸ rfl, pending, Or.inl type, ⟨first, second⟩, by omega⟩,
    ⟨⟨by decide, by decide, by omega⟩, fun n low high => ?_, ?_, ⟨commits, ?_, ?_⟩,
      fun n low high => by omega, present, ?_, ?_⟩⟩
  · obtain rfl | rfl : n = 2 ∨ n = 3 := by omega
    · exact jumpStarts
    · exact returnStarts
  · rintro r (rfl | rfl)
    · exact r17
    · exact r18
  · rw [jump]
    decide
  · rw [jump]
    rfl
  · rw [rett]
    decide
  · rw [rett]
    rfl

theorem enters_not_inverse_overflow :
    ∃ h : History 0 Unit, h.Enters ∧ h.Handles 2 3 ∧ ¬ h.Privileges ∧ ¬ h.Resumes 3 := by
  obtain ⟨h, start, passed⟩ := exists_of_check overflowed handledTest handled (by decide +kernel)
  obtain ⟨enters, handles⟩ := handled_of_test start passed
  obtain ⟨never, stays⟩ := h.enters_not_inverse enters
  exact ⟨h, enters, handles, never, stays 2 3 handles⟩

/-- Traps are enabled when the handler starts, and the return from it raises another. -/
theorem overflow_faults :
    ∃ h : History 0 Unit, h.Enters ∧ h.Handles 2 3 ∧ ¬ h.Privileges ∧ ¬ h.Resumes 3 ∧
      (h.entry 1).finished.specRegs.et = true ∧ (h.entry 3).finished.trapped = .trapped := by
  obtain ⟨h, start, passed⟩ := exists_of_check overflowed
    (fun length entry => handledTest length entry && (entry 1).finished.specRegs.et &&
      (entry 3).finished.trapped == .trapped) handled (by decide +kernel)
  simp only [Bool.and_eq_true, beq_iff_eq] at passed
  obtain ⟨⟨passed, et⟩, trapped⟩ := passed
  obtain ⟨enters, handles⟩ := handled_of_test start passed
  refine ⟨h, enters, handles, fun privileges => ?_, fun resumes => ?_, et, trapped⟩
  · rw [privileges.et] at et
    cases et
  · rw [resumes.trapped] at trapped
    cases trapped

end History

end PretIss
