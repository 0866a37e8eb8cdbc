import PretIss.Thread.Program
import PretIss.Thread.Straight
import PretIss.Trap.Squash

/-! The flag of a double word. A load or a store of two words runs twice, and every pass
of it turns the flag over, whether or not the pass commits. The two passes of a trap
therefore restore the flag: set, if the trap arrives between the halves. -/

namespace PretIss

open ExceptStage (reachesCommit squashes takesTrap)

variable {id : ThreadId} {σ : Type}

/-- The words of loads and stores of two words. -/
def IsDoubleWord (w : Word) : Prop := (Instruction.ofWord w).dbWordInstruction = true

instance (w : Word) : Decidable (IsDoubleWord w) := inferInstanceAs (Decidable (_ = _))

theorem IsDoubleWord.straight {w : Word} (double : IsDoubleWord w) :
    (Instruction.ofWord w).Straight := by
  obtain same | same := Instruction.ofWord_dbWord double <;> rw [same] <;>
    exact ⟨rfl, rfl, rfl, rfl, rfl, rfl, rfl⟩

namespace ExceptStage

theorem commit_ends {ht ht' : HwThread id} {syncNotStalled : Bool} {dma dma' : Dma}
    (stops : squashes ht = true) (plain : ht.inst.isRett = false)
    (runs : commit ht syncNotStalled dma = .ok (ht', dma')) (ends : ht'.trapped = .normal) :
    takesTrap ht = true := by
  obtain ⟨_, squashed, written, first, third, rfl⟩ := commit_squashed stops runs
  have operation := (handleExceptions_squashed stops first).2.1
  have trapped : (retire written).trapped = squashed.trapped := by
    have same : written.inst.isRett = false := by
      rw [writeRegs_frame third, ← plain]
      exact Instruction.of_operation Instruction.isRett (fun _ => rfl) operation
    rw [← show written.trapped = squashed.trapped by rw [writeRegs_frame third]]
    simp [retire, same]
  rw [trapped] at ends
  obtain ⟨goes, _⟩ | ⟨_, _, ⟨_, rfl⟩ | ⟨second, _⟩ | ⟨error, rfl⟩⟩ := handleExceptions_cases first
  · rw [stops] at goes
    cases goes
  · rw [firstPass_eq] at ends
    cases ends
  · simp [takesTrap, stops, second]
  · rw [unwritten, error] at ends
    cases ends

end ExceptStage

namespace Pass

variable {p : Pass id σ}

theorem Valid.flag_finished (valid : p.Valid) (coherent : p.start.Coherent)
    (present : p.runs = true) :
    p.finished.dbWordStalled =
      if IsDoubleWord p.word then !p.start.dbWordStalled
      else (p.start.dbWordStalled && p.arrived.deadlineStalled) := by
  have decoded := valid.decoded_latch coherent (by simpa [runs] using present)
  obtain ⟨waited, accessed⟩ := valid.accesses coherent.enabled present
  have flag : waited.dbWordStalled = p.start.dbWordStalled := accessed.waits.dbWordStalled.trans
    ((valid.ready coherent.enabled).unchanged HwThread.dbWordStalled (fun _ => rfl) (fun _ => rfl))
  rw [valid.flag_last coherent present, ExceptStage.arrive_dbWordStalled, accessed.dbWordStalled,
    accessed.dbWord, decoded.dbWord, Regacc.secondHalf, flag, accessed.deadlineStalled]
  by_cases double : IsDoubleWord p.word
  · have through : waited.deadlineStalled = false := by
      rw [← accessed.deadlineStalled]
      apply Bool.eq_false_iff.mpr
      intro stalled
      have select := (valid.arrived_stalls coherent present).2 stalled
      have operation : p.arrived.inst.operation = (Instruction.ofWord p.word).operation :=
        valid.arrived_operation coherent present
      rw [Instruction.of_operation Instruction.selectSpecialRegister (fun _ => rfl) operation,
        double.straight.select] at select
      cases select
    rw [if_pos double, through, show (Instruction.ofWord p.decoded.inst.inst).dbWordInstruction = true
      from double]
    simp
  · rw [if_neg double, show (Instruction.ofWord p.decoded.inst.inst).dbWordInstruction = false
      from Bool.eq_false_iff.mpr double]
    simp

/-- The first half of a double word commits. -/
def firstHalf (p : Pass id σ) : Prop :=
  IsDoubleWord p.word ∧ p.start.dbWordStalled = false ∧ p.commits = true

instance (p : Pass id σ) : Decidable p.firstHalf := inferInstanceAs (Decidable (_ ∧ _ ∧ _))

/-- The last pass of a trap that squashes a double word begins with the flag clear. -/
def Splits (p : Pass id σ) : Prop :=
  IsDoubleWord p.word ∧ p.start.dbWordStalled = false ∧ reachesCommit p.arrived = true ∧
    takesTrap p.arrived = true

instance (p : Pass id σ) : Decidable p.Splits := inferInstanceAs (Decidable (_ ∧ _ ∧ _ ∧ _))

theorem Valid.operands_of_clear (valid : p.Valid) (enabled : p.start.enabled = true)
    (present : p.runs = true) (clear : p.start.dbWordStalled = false) :
    p.accessed.inst.rd = p.decoded.inst.rd ∧
      p.accessed.inst.op1Value = p.decoded.readReg p.decoded.inst.rs1 := by
  have ready := valid.ready enabled
  obtain ⟨ht, reads, accessed⟩ := valid.regacc
  have latch : p.accessed.inst = ht.inst := by rw [accessed, Round.inst_after]
  rw [latch]
  obtain ⟨skipped, _⟩ | ⟨_, waited, _, waits, rfl⟩ := Regacc.behavior_cases reads
  · simp only [HwThread.isNotValid, ready.fetchStalled, Bool.or_eq_true, Bool.not_eq_true'] at skipped
    rw [ready.unchanged HwThread.enabled (fun _ => rfl) (fun _ => rfl), enabled] at skipped
    simp [runs] at present
    simp [present] at skipped
  · have flag : waited.dbWordStalled = false := waits.dbWordStalled.trans
      ((ready.unchanged HwThread.dbWordStalled (fun _ => rfl) (fun _ => rfl)).trans clear)
    have checked : (Regacc.operands (Regacc.checkDeadline waited)).inst =
        (Regacc.operands waited).inst :=
      Regacc.checkDeadline_unchanged (fun ht => (Regacc.operands ht).inst) (fun _ _ _ => rfl) waited
    have half : Regacc.secondHalf waited = false := by simp [Regacc.secondHalf, flag]
    rw [checked]
    constructor
    · calc (Regacc.operands waited).inst.rd = waited.inst.rd := by
            simp [Regacc.operands, Regacc.destination, half]
        _ = p.decoded.inst.rd := by rw [waits.operation]
    · calc (Regacc.operands waited).inst.op1Value = waited.readReg waited.inst.rs1 := by
            simp [Regacc.operands, half]
        _ = p.decoded.readReg p.decoded.inst.rs1 := by
            rw [HwThread.readReg, HwThread.readReg, waits.regs, waits.specRegs, waits.operation]

theorem Valid.absent_counters (valid : p.Valid) (coherent : p.start.Coherent)
    (absent : p.runs = false) :
    p.finished.pc = p.start.pc ∧ p.finished.fetchStalled = true ∧
      p.finished.dbWordStalled = p.start.dbWordStalled := by
  have arrives := valid.arrives coherent.enabled
  have fetch : p.arrived.fetchStalled = true := by
    rw [arrives.fetchStalled]
    simpa [runs] using absent
  refine ⟨?_, (valid.finished_latch coherent.enabled).2.1.trans fetch,
    (valid.absent coherent absent).2.2.2.2.2.2.2⟩
  rw [← (valid.carried coherent.enabled).1]
  obtain ⟨ht, control, _, ⟨_, same, _⟩ | ⟨never, _⟩ | ⟨reaches, _⟩⟩ :=
    valid.finish_cases arrives.enabled
  · exact HwThread.of_control HwThread.pc (fun _ => rfl) (control.trans same)
  · rw [fetch] at never
    cases never
  · simp [reachesCommit, fetch] at reaches

/-- A pass that leaves the flag set leaves the thread held by a double word, or is its
first half, unless a trap splits it. -/
theorem Valid.flagged_finished (valid : p.Valid) (coherent : p.start.Coherent)
    (present : p.runs = true) (double : IsDoubleWord p.word) (clear : p.start.dbWordStalled = false)
    (whole : ¬ p.Splits) :
    (Fetch.isHeld p.finished = true ∧ IsDoubleWord p.finished.inst.inst) ∨
      (Fetch.isHeld p.finished = false ∧ p.firstHalf ∧ p.finished.pc = p.start.pc) := by
  have arrives := valid.arrives coherent.enabled
  cases held : Fetch.isHeld p.finished with
  | true =>
      left
      rw [valid.finished_word coherent present]
      exact ⟨rfl, double⟩
  | false =>
      right
      simp only [Fetch.isHeld, Bool.or_eq_false_iff] at held
      obtain ⟨⟨memory, deadline⟩, free⟩ := held
      obtain ⟨_, _, sameMemory, sameDeadline, _⟩ := valid.finished_latch coherent.enabled
      have fetch : p.arrived.fetchStalled = false := by
        rw [arrives.fetchStalled]
        simpa [runs] using present
      have reaches : reachesCommit p.arrived = true := by
        simp [reachesCommit, arrives.enabled, fetch, ← sameMemory, ← sameDeadline, memory, deadline]
      have goes : squashes p.arrived = false := by
        apply Bool.eq_false_iff.mpr
        intro stops
        apply whole
        refine ⟨double, clear, reaches, ?_⟩
        obtain ⟨ht, syncNotStalled, finished, committed⟩ :=
          valid.squashed (by simp [isSquashed, reaches, stops])
        have ends : ht.trapped = .normal := by
          rw [← (ExceptionState.isTrapped_eq_false _).mp free]
          symm
          rw [finished]
          exact p.round.after_eq .except HwThread.trapped (fun _ => rfl) ht
        have plain : (ExceptStage.arrive p.arrived).inst.isRett = false := by
          rw [ExceptStage.arrive_inst]
          exact (double.straight.of_operation (valid.arrived_operation coherent present)).isRett
        have same := ExceptStage.commit_ends
          (by simpa [squashes, HwThread.isTrapped] using stops) plain committed ends
        simpa [takesTrap, squashes, HwThread.isTrapped] using same
      have commits : p.commits = true := by simp [Pass.commits, reaches, goes]
      refine ⟨rfl, ⟨double, clear, commits⟩, ?_⟩
      have flag : (ExceptStage.arrive p.arrived).dbWordStalled = true := by
        have turned := valid.flag_finished coherent present
        rw [if_pos double, clear] at turned
        rw [(valid.straight coherent commits double.straight).1] at turned
        rw [p.round.after_eq .except HwThread.dbWordStalled (fun _ => rfl),
          ExceptStage.retired_unchanged HwThread.dbWordStalled fun _ _ _ _ _ _ _ => rfl] at turned
        exact turned
      calc p.finished.pc = (ExceptStage.retired (ExceptStage.arrive p.arrived)).pc := by
            rw [(valid.straight coherent commits double.straight).1]
            exact p.round.after_eq .except HwThread.pc (fun _ => rfl) _
        _ = p.arrived.pc := by
            rw [(ExceptStage.retired_half flag).1]
            exact ExceptStage.arrive_unchanged HwThread.pc (fun _ _ _ => rfl) p.arrived
        _ = p.start.pc := (valid.carried coherent.enabled).1

end Pass

namespace Run

/-- The word of a double word is still there when its second half is fetched. -/
def Refetches (run : Run id σ) : Prop :=
  ∀ m n, m < n → n < run.length → (run.entry m).firstHalf →
    (∀ k, m < k → k < n → (run.entry k).runs = false) → (run.entry n).runs = true →
    (run.entry n).word = (run.entry m).word

/-- A thread about to fetch has the flag set only after the first half of the double word
that it fetches, and no other instruction is taken for a second half. -/
structure Marks (run : Run id σ) (n : Nat) : Prop where
  between : Fetch.isHeld (run.entry n).start = false → (run.entry n).start.fetchStalled = false →
    (run.entry n).start.dbWordStalled = true →
    ∃ m, n = m + 1 ∧ (run.entry m).firstHalf ∧ (run.entry n).start.pc = (run.entry m).start.pc ∧
      ((run.entry n).runs = true → (run.entry n).word = (run.entry m).word)
  others : (run.entry n).runs = true → ¬ IsDoubleWord (run.entry n).word →
    (run.entry n).accessed.inst.rd = (run.entry n).decoded.inst.rd ∧
      (run.entry n).accessed.inst.op1Value =
        (run.entry n).decoded.readReg (run.entry n).decoded.inst.rs1

def Awaits (run : Run id σ) (n : Nat) (ht : HwThread id) : Prop :=
  ht.dbWordStalled = true →
    (Fetch.isHeld ht = true ∧ IsDoubleWord ht.inst.inst) ∨
      (Fetch.isHeld ht = false ∧ ∃ m, m < n ∧ (run.entry m).firstHalf ∧
        ht.pc = (run.entry m).start.pc ∧
        (∀ k, m < k → k < n → (run.entry k).runs = false) ∧ (m + 1 < n → ht.fetchStalled = true))

variable {run : Run id σ} {n : Nat}

theorem Awaits.double (awaits : run.Awaits n (run.entry n).start) (refetches : run.Refetches)
    (bound : n < run.length) (present : (run.entry n).runs = true)
    (flag : (run.entry n).start.dbWordStalled = true) : IsDoubleWord (run.entry n).word := by
  obtain ⟨held, double⟩ | ⟨_, m, before, first, _, gap, _⟩ := awaits flag
  · rw [Pass.word, ((run.valid n bound).held_word (run.coherent bound) held).2]
    exact double
  · rw [refetches m n before bound first gap present]
    exact first.1

theorem Awaits.step (awaits : run.Awaits n (run.entry n).start) (refetches : run.Refetches)
    (bound : n < run.length) (whole : ¬ (run.entry n).Splits) :
    run.Awaits (n + 1) (run.entry n).finished := by
  intro flag
  have valid := run.valid n bound
  have coherent := run.coherent bound
  cases present : (run.entry n).runs with
  | false =>
      right
      obtain ⟨pc, stalled, same⟩ := valid.absent_counters coherent present
      obtain ⟨free, frees, _⟩ := valid.absent coherent present
      obtain ⟨held, _⟩ | ⟨_, m, before, first, place, gap, _⟩ := awaits (same.symm.trans flag)
      · rw [free] at held
        cases held
      · refine ⟨frees, m, by omega, first, pc.trans place, fun k low high => ?_, fun _ => stalled⟩
        obtain inside | rfl : k < n ∨ k = n := by omega
        · exact gap k low inside
        · exact present
  | true =>
      have turned := valid.flag_finished coherent present
      rw [flag] at turned
      by_cases double : IsDoubleWord (run.entry n).word
      · rw [if_pos double] at turned
        have clear : (run.entry n).start.dbWordStalled = false := by simpa using turned.symm
        obtain held | ⟨free, first, pc⟩ :=
          valid.flagged_finished coherent present double clear whole
        · exact Or.inl held
        · exact Or.inr ⟨free, n, by omega, first, pc, fun k low high => by omega,
            fun later => by omega⟩
      · rw [if_neg double] at turned
        have set : (run.entry n).start.dbWordStalled = true := by
          simp only [Bool.true_eq, Bool.and_eq_true] at turned
          exact turned.1
        exact absurd (awaits.double refetches bound present set) double

theorem awaits_of_whole (run : Run id σ) (refetches : run.Refetches)
    (whole : ∀ k, k + 1 < run.length → ¬ (run.entry k).Splits) {n : Nat} (bound : n < run.length) :
    run.Awaits n (run.entry n).start := by
  induction n with
  | zero =>
      intro flag
      obtain ⟨pc, windowReg, same⟩ := run.reset
      rw [same] at flag
      cases flag
  | succ n ih =>
      rw [run.linked n bound]
      exact (ih (by omega)).step refetches (by omega) (whole n bound)

theorem Awaits.marks (awaits : run.Awaits n (run.entry n).start) (refetches : run.Refetches)
    (bound : n < run.length) : run.Marks n := by
  refine ⟨fun free granted flag => ?_, fun present other => ?_⟩
  · obtain ⟨held, _⟩ | ⟨_, m, before, first, pc, gap, stalled⟩ := awaits flag
    · rw [free] at held
      cases held
    · have last : n = m + 1 := by
        by_contra later
        rw [stalled (by omega)] at granted
        cases granted
      exact ⟨m, last, first, pc, refetches m n before bound first gap⟩
  · refine (run.valid n bound).operands_of_clear (run.coherent bound).enabled present ?_
    apply Bool.eq_false_iff.mpr
    intro flag
    exact other (awaits.double refetches bound present flag)

theorem unmarked_of_splits (run : Run id σ) (bound : n + 1 < run.length)
    (splits : (run.entry n).Splits) : ¬ run.Marks (n + 1) := by
  obtain ⟨double, clear, reaches, takes⟩ := splits
  have valid := run.valid n (by omega)
  have coherent := run.coherent (show n < run.length by omega)
  have present := Pass.runs_of_reachesCommit (valid.arrives coherent.enabled) reaches
  have flag := valid.flag_finished coherent present
  rw [if_pos double, clear] at flag
  have normal : (run.entry n).finished.trapped = .normal := by
    obtain ⟨_, _, never⟩ | ⟨_, _, _, ends⟩ | ⟨rett, _⟩ := (valid.finishes coherent).trap
    · rw [reaches] at never
      cases never
    · exact ends takes
    · rw [(double.straight.of_operation (valid.arrived_operation coherent present)).isRett] at rett
      cases rett
  obtain ⟨_, fetch, memory, deadline, _⟩ := valid.finished_latch coherent.enabled
  simp only [reachesCommit, Bool.and_eq_true, Bool.not_eq_true'] at reaches
  obtain ⟨⟨⟨_, fetched⟩, through⟩, granted⟩ := reaches
  intro marks
  rw [← run.linked n bound] at flag normal fetch memory deadline
  obtain ⟨m, same, first, _⟩ := marks.between
    (by simp [Fetch.isHeld, memory, granted, deadline, through, HwThread.isTrapped, normal,
      ExceptionState.isTrapped])
    (fetch.trans fetched) flag
  obtain rfl : n = m := by omega
  have commits := first.2.2
  simp only [Pass.commits, Bool.and_eq_true, Bool.not_eq_true'] at commits
  simp [takesTrap, commits.2] at takes

/-- In a run in which no double word is changed between its halves, the flag is set
between the halves of double words only if and only if no trap splits one. -/
theorem marks_iff (run : Run id σ) (refetches : run.Refetches) :
    (∀ n, n < run.length → run.Marks n) ↔ ∀ n, n + 1 < run.length → ¬ (run.entry n).Splits := by
  constructor
  · intro marks n bound splits
    exact run.unmarked_of_splits bound splits (marks (n + 1) bound)
  · intro whole n bound
    exact (run.awaits_of_whole refetches whole bound).marks refetches bound

def splitting (value : BitVec 13) : List (Round Unit) :=
  let program := fun pc : Word =>
    if pc = 0 then deadWord 0 2 value
    else if pc = 4 then 3#2 ++ 2#5 ++ 0x03#6 ++ 0#5 ++ 1#1 ++ 0#13
    else nopWord
  let round := Round.ofProgram program false .create
  [round, round, round, round, round]

theorem refetches_of_next (run : Run id σ)
    (next : ∀ m, m < run.length → (run.entry m).firstHalf → m + 1 < run.length →
      (run.entry (m + 1)).runs = true ∧ (run.entry (m + 1)).word = (run.entry m).word) :
    run.Refetches := by
  intro m n before bound first gap present
  obtain ⟨follows, word⟩ := next m (by omega) first (by omega)
  obtain rfl | later : n = m + 1 ∨ m + 1 < n := by omega
  · exact word
  · rw [gap (m + 1) (by omega) later] at follows
    cases follows

theorem marks_iff_whole :
    ∃ run : Run 0 Unit, (run.entry 1).firstHalf ∧ (run.entry 2).start.dbWordStalled = true ∧
      ∀ n, n < 5 → run.Marks n := by
  obtain ⟨run, holds⟩ := Run.exists_of_check
    (fun length (entry : Nat → Pass 0 Unit) =>
      length == 5 && decide (entry 1).firstHalf && (entry 2).start.dbWordStalled &&
        decide (∀ m, m < length → (entry m).firstHalf → m + 1 < length →
          (entry (m + 1)).runs = true ∧ (entry (m + 1)).word = (entry m).word) &&
        decide (∀ n, n < length → ¬ (entry n).Splits))
    (splitting 3) (by decide +kernel)
  simp only [Bool.and_eq_true, beq_iff_eq, decide_eq_true_eq] at holds
  obtain ⟨⟨⟨⟨length, first⟩, flag⟩, next⟩, whole⟩ := holds
  have marks := (run.marks_iff (run.refetches_of_next next)).mpr
    fun n bound => whole n (by omega)
  exact ⟨run, first, flag, fun n bound => marks n (by omega)⟩

/-- The trap arrives between the halves, and the first instruction of its handler is
taken for a second half. -/
theorem handler_shifted :
    ∃ run : Run 0 Unit, run.length = 5 ∧ run.Refetches ∧ ¬ run.Marks 4 ∧
      ¬ IsDoubleWord (run.entry 4).word ∧
      (run.entry 4).accessed.inst.rd = (run.entry 4).decoded.inst.rd + 1 := by
  obtain ⟨run, holds⟩ := Run.exists_of_check
    (fun length (entry : Nat → Pass 0 Unit) =>
      length == 5 &&
        decide (∀ m, m < length → (entry m).firstHalf → m + 1 < length →
          (entry (m + 1)).runs = true ∧ (entry (m + 1)).word = (entry m).word) &&
        (entry 4).runs && !decide (IsDoubleWord (entry 4).word) &&
        (entry 4).accessed.inst.rd == (entry 4).decoded.inst.rd + 1)
    (splitting 2) (by decide +kernel)
  simp only [Bool.and_eq_true, Bool.not_eq_true', beq_iff_eq, decide_eq_true_eq,
    decide_eq_false_iff_not] at holds
  obtain ⟨⟨⟨⟨length, next⟩, present⟩, single⟩, shifted⟩ := holds
  refine ⟨run, length, run.refetches_of_next next, fun marks => ?_, single, shifted⟩
  have same := (marks.others present single).1
  omega

end Run

end PretIss
