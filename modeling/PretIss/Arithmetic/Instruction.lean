import PretIss.Thread.Straight
import PretIss.Transfer.Passes

/-! An arithmetic instruction from its fetch to its commit: the operands that the
execute stage finds in the latch, and what of its result reaches the registers. -/

namespace PretIss

variable {id : ThreadId} {σ : Type}

def Sparc.IsArithmetic (w : Word) (op3 : Op3Arithmetic) : Prop :=
  op w = 2 ∧ Op3Arithmetic.ofCode (Sparc.op3 w).toNat = some op3

theorem Sparc.decodeOperation_arithmetic {w : Word} {op3 : Op3Arithmetic}
    (arithmetic : IsArithmetic w op3) :
    (fields w).decodeOperation = (fields w).decodeArithmetic (some op3) := by
  have op1 : (fields w).op1 = (op w).toNat := op1_eq w
  have code3 : (fields w).op3 = (Sparc.op3 w).toNat := field_eq w 0x01F80000 19 6 rfl
  rw [Instruction.decodeOperation, op1, code3, arithmetic.1, arithmetic.2]
  rfl

def Op3Arithmetic.setsFlags : Op3Arithmetic → Bool
  | .addcc | .addxcc | .subcc | .subxcc | .andcc | .andncc | .orcc | .orncc | .xorcc | .xnorcc
  | .mulscc => true
  | _ => false

structure Instruction.Computes (i : Instruction) : Prop where
  straight : i.Straight
  writeIcc : i.writeIcc = true
  readMemory : i.readMemory = false
  writeMemory : i.writeMemory = false
  dbWord : i.dbWordInstruction = false

theorem Sparc.computes_fields (w : Word) {op3 : Op3Arithmetic} (sets : op3.setsFlags = true) :
    ((fields w).decodeArithmetic (some op3)).Computes := by
  cases op3 <;>
    first
      | exact ⟨⟨rfl, rfl, rfl, rfl, rfl, rfl, rfl⟩, rfl, rfl, rfl, rfl⟩
      | cases sets

theorem Sparc.computes_ofWord {w : Word} {op3 : Op3Arithmetic} (arithmetic : IsArithmetic w op3)
    (sets : op3.setsFlags = true) : (Instruction.ofWord w).Computes := by
  have computes := computes_fields w sets
  rw [← decodeOperation_arithmetic arithmetic] at computes
  obtain same | same := Instruction.decode_eq (Instruction.nop.setInst w) <;>
    rw [Instruction.ofWord, same]
  · exact computes
  · obtain ⟨straight, writeIcc, reads, writes, single⟩ := computes
    exact ⟨straight.of_operation rfl, writeIcc, reads, writes, single⟩

theorem Sparc.writeRegisters_ofWord {w : Word} {op3 : Op3Arithmetic}
    (arithmetic : IsArithmetic w op3) (sets : op3.setsFlags = true) :
    (Instruction.ofWord w).writeRegisters = !decide ((fields w).rd = 0) := by
  have target : ((fields w).decodeArithmetic (some op3)).rd = (fields w).rd ∧
      ((fields w).decodeArithmetic (some op3)).writeRegisters = true := by
    cases op3 <;> first | exact ⟨rfl, rfl⟩ | cases sets
  rw [← decodeOperation_arithmetic arithmetic] at target
  change (if (fields w).decodeOperation.rd = 0 then
    { (fields w).decodeOperation with writeRegisters := false }
    else (fields w).decodeOperation).writeRegisters = _
  rw [target.1]
  split
  · rename_i none
    simp [none]
  · rename_i some
    simp [target.2, some]

namespace Pass

open ExceptStage (reachesCommit squashes)

variable {p : Pass id σ} {op3 : Op3Arithmetic}

/-- The operands of the execute stage, what the latch holds as the instruction commits,
and the register that it belongs to. -/
def operand1 (p : Pass id σ) : Word := p.accessed.inst.op1Value

def operand2 (p : Pass id σ) : Word := p.accessed.inst.op2Value

def source1 (p : Pass id σ) : Word := p.start.readReg (Sparc.fields p.word).rs1

def source2 (p : Pass id σ) : Word :=
  if (Sparc.fields p.word).useImm then (Sparc.fields p.word).imm
  else p.start.readReg (Sparc.fields p.word).rs2

def result (p : Pass id σ) : Word := p.arrived.inst.aluResult

def destination (p : Pass id σ) : Nat := p.arrived.inst.rd

/-- An arithmetic instruction is fetched in this pass and commits in it. -/
structure Executes (p : Pass id σ) (op3 : Op3Arithmetic) : Prop where
  valid : p.Valid
  coherent : p.start.Coherent
  free : Fetch.isHeld p.start = false
  word : Sparc.IsArithmetic p.word op3
  commits : p.commits = true

theorem Valid.arrived_of_register (valid : p.Valid) (reads : p.accessed.inst.readMemory = false)
    (writes : p.accessed.inst.writeMemory = false) :
    p.memory = p.round.memory ∧ p.arrived =
      p.round.after .mem (p.round.after .execute (Execute.behavior p.accessed)) := by
  obtain ⟨ht, runs, arrived⟩ := valid.mem
  have control : p.executed.control = p.accessed.control := by
    rw [valid.execute, Round.control_after, Execute.control_behavior]
  have noRead : p.executed.inst.readMemory = false :=
    (HwThread.of_control (fun ht => ht.inst.readMemory) (fun _ => rfl) control).trans reads
  have noWrite : p.executed.inst.writeMemory = false :=
    (HwThread.of_control (fun ht => ht.inst.writeMemory) (fun _ => rfl) control).trans writes
  simp only [Mem.behavior, noRead, noWrite, Bool.false_eq_true, if_false, ite_self,
    Except.ok.injEq, Prod.mk.injEq] at runs
  rw [arrived, ← runs.1, valid.execute]
  exact ⟨runs.2.symm, rfl⟩

/-- What the commit of an arithmetic instruction leaves behind. -/
structure Stored (p : Pass id σ) : Prop where
  icc : p.finished.specRegs.icc = p.arrived.inst.icc
  y : p.finished.specRegs.y = p.arrived.specRegs.y
  regs : p.finished.regs =
    if (Sparc.fields p.word).rd = 0 then p.start.regs
    else p.start.regs.setReg p.destination p.result p.finished.specRegs.currWp

theorem Executes.runs (executes : p.Executes op3) : p.runs = true := by
  have commits := executes.commits
  simp only [Pass.commits, Bool.and_eq_true] at commits
  exact runs_of_reachesCommit (executes.valid.arrives executes.coherent.enabled) commits.1

theorem Executes.decoded (executes : p.Executes op3) :
    p.decoded.inst = Instruction.ofWord p.word :=
  executes.valid.decoded_fresh executes.coherent.enabled executes.runs executes.free

theorem Executes.accessed (executes : p.Executes op3) (sets : op3.setsFlags = true) :
    p.accessed.inst = (Regacc.operands p.decoded).inst ∧ p.accessed.isNotValid = false := by
  apply executes.valid.accessed_inst executes.coherent.enabled executes.runs
  rw [executes.decoded, (Sparc.computes_ofWord executes.word sets).straight.select]
  simp

theorem Executes.arrived (executes : p.Executes op3) (sets : op3.setsFlags = true) :
    p.arrived = p.round.after .mem (p.round.after .execute (Execute.behavior p.accessed)) := by
  have computes := Sparc.computes_ofWord executes.word sets
  have latch := (executes.accessed sets).1
  refine (executes.valid.arrived_of_register ?_ ?_).2
  · rw [latch]
    exact (congrArg Instruction.readMemory executes.decoded).trans computes.readMemory
  · rw [latch]
    exact (congrArg Instruction.writeMemory executes.decoded).trans computes.writeMemory

theorem Executes.stored (executes : p.Executes op3) (sets : op3.setsFlags = true) : p.Stored := by
  have computes := Sparc.computes_ofWord executes.word sets
  have valid := executes.valid
  have enabled := executes.coherent.enabled
  obtain ⟨waited, accesses⟩ := valid.accesses enabled executes.runs
  have waits := accesses.waiting
  rw [Regacc.deadlineInstruction_of_ne (by
    rw [executes.decoded, computes.straight.select]; simp)] at waits
  obtain rfl := Except.ok.inj waits
  have finished := (valid.straight executes.coherent executes.commits computes.straight).1
  have running : p.arrived.deadlineStalled = false := by
    have commits := executes.commits
    simp only [Pass.commits, reachesCommit, Bool.and_eq_true, Bool.not_eq_true'] at commits
    exact commits.1.1.2
  have single : p.arrived.inst.dbWordInstruction = false := by
    rw [accesses.dbWord, executes.decoded, computes.dbWord]
    rfl
  have flag : (ExceptStage.arrive p.arrived).dbWordStalled = false := by
    simp [ExceptStage.arrive, ExceptStage.setDwordState, ExceptStage.countCycles, single,
      accesses.dbWordStalled, ← accesses.deadlineStalled, running]
  have latch : (ExceptStage.arrive p.arrived).inst = p.arrived.inst := ExceptStage.arrive_inst _
  have kept := valid.arrived_operation executes.coherent executes.runs
  have sets' : p.arrived.inst.writeIcc = true :=
    (Instruction.of_operation Instruction.writeIcc (fun _ => rfl) kept).trans computes.writeIcc
  have writes : p.arrived.inst.writeRegisters = !decide ((Sparc.fields p.word).rd = 0) := by
    rw [(valid.carried enabled).2.2, executes.decoded]
    exact Sparc.writeRegisters_ofWord executes.word sets
  have view : ∀ {α : Type} (f : HwThread id → α), (∀ ht : HwThread id, f ht.pllTick = f ht) →
      f p.finished = f (ExceptStage.retired (ExceptStage.arrive p.arrived)) := by
    intro α f blind
    rw [finished]
    exact p.round.after_eq .except f blind _
  refine ⟨?_, ?_, ?_⟩
  · rw [view (fun ht => ht.specRegs.icc) fun _ => rfl, ExceptStage.retired_icc flag, latch, sets']
    rfl
  · rw [view (fun ht => ht.specRegs.y) fun _ => rfl,
      ExceptStage.retired_unchanged (fun ht => ht.specRegs.y) fun _ _ _ _ _ _ _ => rfl,
      ExceptStage.arrive_specRegs]
  · have window : p.finished.specRegs.currWp = p.arrived.specRegs.currWp := by
      rw [view (fun ht => ht.specRegs.currWp) fun _ => rfl,
        ExceptStage.retired_unchanged (fun ht => ht.specRegs.currWp) fun _ _ _ _ _ _ _ => rfl,
        ExceptStage.arrive_specRegs]
    have regs : (ExceptStage.arrive p.arrived).regs = p.start.regs :=
      (ExceptStage.arrive_unchanged HwThread.regs (fun _ _ _ => rfl) _).trans
        (valid.carries executes.coherent executes.runs).regs
    rw [view HwThread.regs fun _ => rfl, ExceptStage.retired_regs, latch, writes, regs,
      ExceptStage.arrive_specRegs, ← window]
    by_cases none : (Sparc.fields p.word).rd = 0 <;> simp [none, destination, result]

theorem Stored.delivers (stored : p.Stored) (named : (Sparc.fields p.word).rd ≠ 0) :
    p.finished.readReg p.destination = p.result := by
  rw [HwThread.readReg, stored.regs, if_neg named, RegisterFile.get_set_same]

theorem Executes.operands (executes : p.Executes op3) (sets : op3.setsFlags = true)
    (whole : p.start.dbWordStalled = false) :
    p.operand1 = p.source1 ∧ p.operand2 = p.source2 ∧
      p.destination = (Sparc.fields p.word).rd := by
  have ready := executes.valid.ready executes.coherent.enabled
  have reads : ∀ r, p.decoded.readReg r = p.start.readReg r := fun r =>
    ready.unchanged (fun ht => ht.readReg r) (fun _ => rfl) fun _ => rfl
  have flag : p.decoded.dbWordStalled = false :=
    (ready.unchanged HwThread.dbWordStalled (fun _ => rfl) fun _ => rfl).trans whole
  have single : Regacc.secondHalf p.decoded = false := by rw [Regacc.secondHalf, flag]; rfl
  have latch := (executes.accessed sets).1
  have view : ∀ {α : Type} (f : Instruction → α), (∀ i : Instruction,
      f { i with writeRegisters := false } = f i) →
      (f ((Sparc.fields p.word).decodeArithmetic (some op3)) = f (Sparc.fields p.word)) →
      f p.decoded.inst = f (Sparc.fields p.word) := by
    intro α f blind kept
    rw [executes.decoded, Sparc.of_fields p.word f blind,
      Sparc.decodeOperation_arithmetic executes.word, kept]
  have rs1 := view Instruction.rs1 (fun _ => rfl) (by cases op3 <;> rfl)
  have rs2 := view Instruction.rs2 (fun _ => rfl) (by cases op3 <;> rfl)
  have imm := view Instruction.imm (fun _ => rfl) (by cases op3 <;> rfl)
  have useImm := view Instruction.useImm (fun _ => rfl) (by cases op3 <;> rfl)
  have rd := view Instruction.rd (fun _ => rfl) (by cases op3 <;> rfl)
  refine ⟨?_, ?_, ?_⟩
  · rw [operand1, source1, latch, ← rs1, ← reads]
    simp [Regacc.operands, single]
  · rw [operand2, source2, latch, ← rs2, ← reads, ← imm, ← useImm]
    rfl
  · have kept := HwThread.of_control (fun ht => ht.inst.rd) (fun _ => rfl)
      executes.valid.arrived_control.1
    rw [destination, kept, latch, ← rd]
    simp [Regacc.operands, Regacc.destination, single]

end Pass

end PretIss
