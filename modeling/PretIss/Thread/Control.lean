import PretIss.Thread.Pass
import PretIss.Thread.Latch
import PretIss.Stage.Request

/-! What each stage can do to a thread. The stages between register access and
commit, and the PLL clock, only compute: they leave alone everything that decides
whether and how the instruction commits. -/

namespace PretIss

variable {id : ThreadId} {σ : Type}

namespace HwThread

/-- The thread without its counters and without what the computing stages write: the
results in the latch, the Y register, the PLL timers, and the stall of the data
memory. -/
def control (ht : HwThread id) : HwThread id :=
  { ht with
    cntCycles := 0
    cntInstr := 0
    memoryStalled := false
    inst :=
      { ht.inst with
        aluResult := 0, icc := 0, op1Value := 0, op2Value := 0, op3Value := 0 }
    specRegs := { ht.specRegs with y := 0, plldt := fun _ => 0, pllLoad := fun _ => 0 } }

/-- The thread without its latch as well. -/
def state (ht : HwThread id) : HwThread id := { ht.control with inst := .nop, fetchStalled := false }

theorem of_control {α : Type} {ht ht' : HwThread id} (view : HwThread id → α)
    (blind : ∀ ht : HwThread id, view ht.control = view ht) (same : ht'.control = ht.control) :
    view ht' = view ht := by
  rw [← blind ht', same, blind]

theorem of_state {α : Type} {ht ht' : HwThread id} (view : HwThread id → α)
    (blind : ∀ ht : HwThread id, view ht.state = view ht) (same : ht'.state = ht.state) :
    view ht' = view ht := by
  rw [← blind ht', same, blind]

theorem operation_control (ht : HwThread id) :
    ht.control.inst.operation = ht.inst.operation := by
  simp only [control, Instruction.operation, Instruction.meaning]

theorem control_pllTick (ht : HwThread id) : ht.pllTick.control = ht.control := rfl

end HwThread

namespace Round

theorem after_eq {α : Type} (round : Round σ) (stage : Stage) (view : HwThread id → α)
    (blind : ∀ ht : HwThread id, view ht.pllTick = view ht) (ht : HwThread id) :
    view (round.after stage ht) = view ht := by
  unfold after
  induction round.ticks stage generalizing ht with
  | zero => rfl
  | succ n ih => rw [Function.iterate_succ_apply, ih, blind]

@[simp] theorem control_after (round : Round σ) (stage : Stage) (ht : HwThread id) :
    (round.after stage ht).control = ht.control :=
  after_eq round stage _ HwThread.control_pllTick ht

@[simp] theorem state_after (round : Round σ) (stage : Stage) (ht : HwThread id) :
    (round.after stage ht).state = ht.state :=
  after_eq round stage HwThread.state
    (fun _ => by simp only [HwThread.state, HwThread.control_pllTick]) ht

@[simp] theorem fetchStalled_after (round : Round σ) (stage : Stage) (ht : HwThread id) :
    (round.after stage ht).fetchStalled = ht.fetchStalled :=
  after_eq round stage HwThread.fetchStalled (fun _ => rfl) ht

@[simp] theorem inst_after (round : Round σ) (stage : Stage) (ht : HwThread id) :
    (round.after stage ht).inst = ht.inst :=
  after_eq round stage HwThread.inst (fun _ => rfl) ht

@[simp] theorem memoryStalled_after (round : Round σ) (stage : Stage) (ht : HwThread id) :
    (round.after stage ht).memoryStalled = ht.memoryStalled :=
  after_eq round stage HwThread.memoryStalled (fun _ => rfl) ht

end Round

theorem Fetch.behavior_cases {instructionMemory : FetchStageIf σ} {ht ht' : HwThread id}
    {memory memory' : σ} (enabled : ht.enabled = true)
    (runs : behavior instructionMemory ht memory = .ok (ht', memory')) :
    (isHeld ht = true ∧ ht' = countDown ht ∧ memory' = memory) ∨
      (isHeld ht = false ∧ ∃ bits stall,
        instructionMemory.readInst memory id ht.pc = .ok (memory', bits, stall) ∧
          ht' = receive (countDown ht) bits stall) := by
  simp only [behavior, enabled, not_true_eq_false, if_false] at runs
  split at runs
  · rename_i held
    simp only [Except.ok.injEq, Prod.mk.injEq] at runs
    exact Or.inl ⟨held, runs.1.symm, runs.2.symm⟩
  · rename_i free
    obtain ⟨⟨middle, bits, stall⟩, reads, runs⟩ := Transition.bind_eq_ok.mp runs
    simp only at runs
    split at runs
    · cases runs
    · simp only [Except.ok.injEq, Prod.mk.injEq, pure, Except.pure] at runs
      obtain ⟨rfl, rfl⟩ := runs
      exact Or.inr ⟨by simpa using free, bits, stall, reads, rfl⟩

theorem Execute.control_behavior (ht : HwThread id) :
    (Execute.behavior ht).control = ht.control := by
  simp only [behavior, performAluOperations]
  split
  · rfl
  · split
    · split <;> split <;> rfl
    · split <;> rfl

theorem Execute.memoryStalled_behavior (ht : HwThread id) :
    (Execute.behavior ht).memoryStalled = ht.memoryStalled := by
  simp only [behavior, performAluOperations]
  split
  · rfl
  · split
    · split <;> split <;> rfl
    · split <;> rfl

theorem Mem.store_stall {dataMem : MemStageIf σ} {ht ht' : HwThread id} {memory memory' : σ}
    (runs : store dataMem ht memory = .ok (ht', memory')) :
    ∃ stall, ht' = { ht with memoryStalled := stall } := by
  simp only [store] at runs
  split at runs
  · obtain ⟨_, _, runs⟩ := Transition.bind_eq_ok.mp runs
    obtain ⟨_, _, runs⟩ := Transition.bind_eq_ok.mp runs
    obtain ⟨⟨_, stall⟩, _, runs⟩ := Transition.bind_eq_ok.mp runs
    simp only [pure, Except.pure, Except.ok.injEq, Prod.mk.injEq] at runs
    exact ⟨stall, runs.1.symm⟩
  · obtain ⟨_, _, runs⟩ := Transition.bind_eq_ok.mp runs
    obtain ⟨⟨_, stall⟩, _, runs⟩ := Transition.bind_eq_ok.mp runs
    simp only [pure, Except.pure, Except.ok.injEq, Prod.mk.injEq] at runs
    exact ⟨stall, runs.1.symm⟩

theorem Mem.control_behavior {dataMem : MemStageIf σ} {ht ht' : HwThread id} {memory memory' : σ}
    (runs : behavior dataMem ht memory = .ok (ht', memory')) :
    ht'.control = ht.control ∧
      (ht.inst.readMemory = false → ht.inst.writeMemory = false →
        ht'.memoryStalled = ht.memoryStalled) := by
  simp only [behavior] at runs
  split at runs
  · simp only [Except.ok.injEq, Prod.mk.injEq] at runs
    obtain ⟨rfl, rfl⟩ := runs
    exact ⟨rfl, fun _ _ => rfl⟩
  · split at runs
    · rename_i reads
      obtain ⟨⟨middle, rawData, stall⟩, answer, runs⟩ := Transition.bind_eq_ok.mp runs
      refine ⟨?_, fun no => absurd reads (by simp [no])⟩
      simp only [pure, Except.pure] at runs
      split at runs
      · simp only [Except.ok.injEq, Prod.mk.injEq] at runs
        obtain ⟨rfl, rfl⟩ := runs
        rfl
      · simp only [Except.ok.injEq, Prod.mk.injEq] at runs
        obtain ⟨rfl, rfl⟩ := runs
        simp only [HwThread.control, Instruction.readData]
        split <;> rfl
    · split at runs
      · rename_i writes
        refine ⟨?_, fun _ no => absurd writes (by simp [no])⟩
        obtain ⟨stall, rfl⟩ := store_stall runs
        rfl
      · simp only [Except.ok.injEq, Prod.mk.injEq] at runs
        obtain ⟨rfl, rfl⟩ := runs
        exact ⟨rfl, fun _ _ => rfl⟩

namespace Regacc

def isDeadline (ht : HwThread id) (timer : Fin numDeadlineTimers) : Bool :=
  ht.inst.selectSpecialRegister == some .dt && ht.inst.rd == timer.val

def reloads (ht : HwThread id) (timer : Fin numDeadlineTimers) : Bool :=
  isDeadline ht timer && ((ht.specRegs.dt timer).sle 0 || deadload ht.inst)

theorem behavior_eq_ok {ht ht' : HwThread id} (valid : ht.isNotValid = false) :
    behavior ht = .ok ht' ↔ ∃ waited, deadlineInstruction ht = .ok waited ∧
      ht' = thirdOperand (immediateInstruction (doubleWordInstruction (checkDeadline waited))) := by
  simp only [behavior, valid, Bool.false_eq_true, if_false, Transition.bind_eq_ok, pure,
    Except.pure, Except.ok.injEq]
  constructor <;> rintro ⟨waited, first, rfl⟩ <;> exact ⟨waited, first, rfl⟩

theorem deadlineInstruction_of_ne {ht : HwThread id}
    (other : ht.inst.selectSpecialRegister ≠ some .dt) : deadlineInstruction ht = .ok ht := by
  simp [deadlineInstruction, other]

theorem deadlineInstruction_of_deadline {ht : HwThread id} {timer : Fin numDeadlineTimers}
    (deadline : isDeadline ht timer = true) :
    deadlineInstruction ht = .ok (destinationRegularDeadlines ht timer) := by
  simp only [isDeadline, Bool.and_eq_true, beq_iff_eq] at deadline
  obtain ⟨select, rd⟩ := deadline
  simp only [deadlineInstruction, select, rd, timer.isLt, if_true, dif_pos, Fin.eta]

/-- What waiting leaves alone. -/
structure Waits (ht waited : HwThread id) : Prop where
  enabled : waited.enabled = ht.enabled
  fetchStalled : waited.fetchStalled = ht.fetchStalled
  memoryStalled : waited.memoryStalled = ht.memoryStalled
  dbWordStalled : waited.dbWordStalled = ht.dbWordStalled
  trapped : waited.trapped = ht.trapped
  trapType : waited.trapType = ht.trapType
  pc : waited.pc = ht.pc
  branchSlot : waited.branchSlot = ht.branchSlot
  regs : waited.regs = ht.regs
  operation : waited.inst =
    { ht.inst with writeSpecialRegisters := waited.inst.writeSpecialRegisters }
  specRegs : waited.specRegs =
    { ht.specRegs with
      pllLoaded := waited.specRegs.pllLoaded, dtStatus := waited.specRegs.dtStatus }

theorem waits_deadlineInstruction {ht waited : HwThread id}
    (runs : deadlineInstruction ht = .ok waited) : Waits ht waited := by
  simp only [deadlineInstruction, destinationRegularDeadlines,
    destinationPhaselockloopDeadlines] at runs
  split at runs
  · split at runs
    · obtain rfl := Except.ok.inj runs
      split <;> constructor <;> rfl
    · obtain ⟨load, _, runs⟩ := Transition.bind_eq_ok.mp runs
      split at runs
      · obtain rfl := Except.ok.inj runs
        constructor <;> rfl
      · split at runs <;> obtain rfl := Except.ok.inj runs <;> constructor <;> rfl
  · obtain rfl := Except.ok.inj runs
    constructor <;> rfl

/-- The status of a timer is written by the deadline instruction it lets through. -/
theorem status_deadlineInstruction {ht waited : HwThread id}
    (runs : deadlineInstruction ht = .ok waited) (timer : Fin numDeadlineTimers) :
    waited.specRegs.dtStatus timer =
      if reloads ht timer then if deadbranch ht.inst then .set else .unset
      else ht.specRegs.dtStatus timer := by
  by_cases select : ht.inst.selectSpecialRegister = some .dt
  · by_cases regular : ht.inst.rd < numDeadlineTimers
    · simp only [deadlineInstruction, select, regular, if_true, dif_pos, Except.ok.injEq] at runs
      subst runs
      by_cases own : timer = ⟨ht.inst.rd, regular⟩
      · subst own
        simp only [destinationRegularDeadlines, reloads, isDeadline, select, beq_self_eq_true,
          Bool.true_and, Bool.or_eq_true]
        split
        · exact Function.update_self _ _ _
        · rfl
      · have other : ht.inst.rd ≠ timer.val := fun same => own (Fin.ext same.symm)
        simp only [destinationRegularDeadlines, reloads, isDeadline, beq_eq_false_iff_ne.mpr other,
          Bool.and_false, Bool.false_and, Bool.false_eq_true, if_false]
        split
        · exact Function.update_of_ne own _ _
        · rfl
    · have other : (ht.inst.rd == timer.val) = false := by
        have bound := timer.isLt
        exact beq_eq_false_iff_ne.mpr (by omega)
      simp only [deadlineInstruction, select, regular, if_true, dif_neg, not_false_eq_true,
        destinationPhaselockloopDeadlines] at runs
      obtain ⟨load, _, runs⟩ := Transition.bind_eq_ok.mp runs
      simp only [reloads, isDeadline, other, Bool.and_false, Bool.false_and, Bool.false_eq_true,
        if_false]
      split at runs
      · obtain rfl := Except.ok.inj runs
        rfl
      · split at runs <;> obtain rfl := Except.ok.inj runs <;> rfl
  · rw [deadlineInstruction_of_ne select] at runs
    obtain rfl := Except.ok.inj runs
    simp [reloads, isDeadline, select]

def secondHalf (ht : HwThread id) : Bool := ht.dbWordStalled && !ht.deadlineStalled

def destination (ht : HwThread id) : Nat :=
  if secondHalf ht then ht.inst.rd + 1 else ht.inst.rd

/-- The thread with its operands read. -/
def operands (ht : HwThread id) : HwThread id :=
  { ht with
    dbWordStalled := ht.dbWordStalled && ht.deadlineStalled
    inst :=
      { ht.inst with
        rd := destination ht
        op1Value := ht.readReg ht.inst.rs1 + if secondHalf ht then 4 else 0
        op2Value := if ht.inst.useImm then ht.inst.imm else ht.readReg ht.inst.rs2
        op3Value := ht.readReg (destination ht)
        dbWordInstruction := ht.inst.dbWordInstruction && !secondHalf ht }
    specRegs :=
      { ht.specRegs with
        currWp := (ht.specRegs.currWp + ht.inst.incrementWindowPointer) % registerWindows } }

theorem operands_eq (ht : HwThread id) :
    thirdOperand (immediateInstruction (doubleWordInstruction ht)) = operands ht := by
  obtain ⟨cntCycles, cntInstr, inst, regs, specRegs, enabled, branchSlot, dbWordStalled,
    deadlineStalled, memoryStalled, fetchStalled, pc, state, trapType⟩ := ht
  cases dbWordStalled <;> cases deadlineStalled <;>
    simp [thirdOperand, immediateInstruction, doubleWordInstruction, operands, destination,
      secondHalf, HwThread.moveWindow, HwThread.readReg]

theorem behavior_cases {ht ht' : HwThread id} (runs : behavior ht = .ok ht') :
    (ht.isNotValid = true ∧ ht' = ht) ∨
      (ht.isNotValid = false ∧ ∃ waited, deadlineInstruction ht = .ok waited ∧
        Waits ht waited ∧ ht' = operands (checkDeadline waited)) := by
  cases valid : ht.isNotValid with
  | true =>
      simp only [behavior, valid, if_true, Except.ok.injEq] at runs
      exact Or.inl ⟨rfl, runs.symm⟩
  | false =>
      obtain ⟨waited, waits, rfl⟩ := (behavior_eq_ok valid).mp runs
      exact Or.inr ⟨rfl, waited, waits, waits_deadlineInstruction waits, operands_eq _⟩

theorem checkDeadline_unchanged {α : Type} (view : HwThread id → α)
    (blind : ∀ (ht : HwThread id) state trapType,
      view { ht with trapped := state, trapType := trapType } = view ht) (ht : HwThread id) :
    view (checkDeadline ht) = view ht := by
  simp only [checkDeadline]
  split
  · split
    · rfl
    · exact blind ht _ _
  · rfl

theorem checkDeadline_cases (ht : HwThread id) :
    checkDeadline ht = ht ∨
      (ht.isTrapped = false ∧ ∃ timer, ht.specRegs.missedDeadline = some timer ∧
        checkDeadline ht =
          { ht with trapped := .trapped, trapType := 0x70 + BitVec.ofNat 16 timer.val }) := by
  simp only [checkDeadline]
  split
  · rename_i timer missed
    cases pending : ht.isTrapped with
    | true => simp
    | false => exact Or.inr ⟨rfl, timer, missed, by simp⟩
  · exact Or.inl rfl

end Regacc

end PretIss
