import PretIss.Arithmetic.Compare
import PretIss.Library.ShiftAdd

/-! The multiply step. Its sum, its Y register and three of its condition codes are those
of the architecture; the carry is computed from the second operand even where nothing was
added. Thirty-two steps and a last one without a multiplicand make a product. -/

namespace PretIss

variable {id : ThreadId} {σ : Type}

namespace Execute

theorem bit_eq (b : Bool) : SpecialReg.bit b = (BitVec.ofBool b).setWidth 32 := by
  cases b <;> rfl

theorem shiftedOperand_eq (op1 : Word) (icc : BitVec 8) :
    shiftedOperand op1 icc = Accumulator.insertTop (icc.getLsbD 3 ^^ icc.getLsbD 1) op1 := by
  have neg : (icc &&& 0x08 != 0) = icc.getLsbD 3 := Sparc.icc_bit icc 3 (by decide)
  have ovfl : (icc &&& 0x02 != 0) = icc.getLsbD 1 := Sparc.icc_bit icc 1 (by decide)
  simp only [shiftedOperand, neg, ovfl, bit_eq]
  rfl

theorem and_one (x : Word) : x &&& 1 = (BitVec.ofBool (x.getLsbD 0)).setWidth 32 := by
  change x &&& BitVec.twoPow 32 0 = _
  rw [BitVec.and_twoPow]
  cases x.getLsbD 0 <;> rfl

theorem shiftedY_eq (op1 y : Word) :
    shiftedY op1 y = Accumulator.insertTop (op1.getLsbD 0) y := by
  rw [shiftedY, and_one]
  rfl

end Execute

def HwThread.accumulator (ht : HwThread id) (rd : Nat) : Accumulator 31 where
  high := ht.readReg rd
  negative := ht.specRegs.icc.getLsbD 3 ^^ ht.specRegs.icc.getLsbD 1
  low := ht.specRegs.y

namespace Pass

variable {p : Pass id σ}

def shiftedPartial (p : Pass id σ) : Word :=
  Accumulator.insertTop (p.start.specRegs.icc.getLsbD 3 ^^ p.start.specRegs.icc.getLsbD 1)
    p.operand1

def multiplicand (p : Pass id σ) : Word := if p.start.specRegs.y.getLsbD 0 then p.operand2 else 0

def stepCarry (p : Pass id σ) : Bool :=
  if p.start.specRegs.y.getLsbD 0 then Flags.carryOut p.shiftedPartial p.multiplicand false
  else p.operand2.msb

/-- The step of the architecture. -/
structure StepsExactly (p : Pass id σ) : Prop where
  result : p.result = p.shiftedPartial + p.multiplicand
  y : p.finished.specRegs.y = Accumulator.insertTop (p.operand1.getLsbD 0) p.start.specRegs.y
  icc : p.finished.specRegs.icc =
    Execute.iccOf (Flags.ofSum p.shiftedPartial p.multiplicand false)
  delivers : (Sparc.fields p.word).rd ≠ 0 → p.finished.readReg p.destination = p.result

structure Steps (p : Pass id σ) : Prop where
  result : p.result = p.shiftedPartial + p.multiplicand
  y : p.finished.specRegs.y = Accumulator.insertTop (p.operand1.getLsbD 0) p.start.specRegs.y
  icc : p.finished.specRegs.icc =
    Execute.iccOf
      { Flags.ofSum p.shiftedPartial p.multiplicand false with carry := p.stepCarry }
  delivers : (Sparc.fields p.word).rd ≠ 0 → p.finished.readReg p.destination = p.result

end Pass

namespace Execute

theorem behavior_multiply {ht : HwThread id} (valid : ht.isNotValid = false)
    (multiplies : ht.inst.aluop = .mul) (signed : ht.inst.signedMultiply = true)
    (writes : ht.inst.writeIcc = true) :
    (behavior ht).inst =
      { (multiplyStep ht).inst with icc := geticc (multiplyStep ht).inst } := by
  simp only [behavior, performAluOperations, valid, multiplies, signed, Bool.false_eq_true, if_false,
    if_true]
  have still : (multiplyStep ht).inst.writeIcc = true := writes
  rw [if_pos still]

theorem geticc_unadded {i : Instruction} {x : Word} (fresh : i.icc = 0)
    (multiplies : i.aluop = .mul) (left : i.op1Value = x) (result : i.aluResult = x) :
    geticc i = iccOf { Flags.ofSum x 0 false with carry := i.op2Value.msb } := by
  have none : Flags.sum x 0 false = x := by simp [Flags.sum]
  have overflow : (Flags.ofSum x 0 false).overflow = false := by
    rw [Flags.overflow_ofSum, none, bne_self_eq_false, Bool.and_false]
  have zero : (Flags.ofSum x 0 false).zero = (x == 0) := by rw [Flags.ofSum, none]
  have negative : (Flags.ofSum x 0 false).negative = x.msb := by rw [Flags.ofSum, none]
  unfold geticc iccOf
  rw [fresh, left, result, multiplies, overflow, zero, negative]
  generalize i.op2Value.msb = second
  generalize (x == 0) = empty
  generalize x.msb = first
  cases empty <;> cases first <;> cases second <;> rfl

end Execute

namespace Pass

variable {p : Pass id σ} {op3 : Op3Arithmetic}

theorem Executes.accessed_y (executes : p.Executes op3) :
    p.accessed.specRegs.y = p.start.specRegs.y :=
  (executes.valid.accessed_y executes.coherent.enabled).1

theorem geticc_step {i : Instruction} (fresh : i.icc = 0) (multiplies : i.aluop = .mul)
    (first : i.op1Value = p.shiftedPartial) (second : i.op2Value = p.operand2)
    (sum : i.aluResult = p.shiftedPartial + p.multiplicand) :
    Execute.geticc i = Execute.iccOf
      { Flags.ofSum p.shiftedPartial p.multiplicand false with carry := p.stepCarry } := by
  cases bit : p.start.specRegs.y.getLsbD 0 with
  | false =>
      have none : p.multiplicand = 0 := by rw [multiplicand, bit]; rfl
      have carry : p.stepCarry = i.op2Value.msb := by rw [stepCarry, bit, second]; rfl
      have still : p.shiftedPartial + 0 = p.shiftedPartial := BitVec.add_zero _
      rw [none, still] at sum
      rw [none, carry]
      exact Execute.geticc_unadded fresh multiplies first sum
  | true =>
      have all : p.multiplicand = p.operand2 := by rw [multiplicand, bit]; rfl
      have carry : p.stepCarry = Flags.carryOut p.shiftedPartial p.multiplicand false := by
        rw [stepCarry, bit]
        rfl
      have whole : Flags.sum p.shiftedPartial p.operand2 false =
          p.shiftedPartial + p.operand2 := BitVec.add_zero _
      rw [carry, all]
      rw [all, ← whole] at sum
      exact Execute.geticc_add fresh (Or.inr multiplies) first second sum

/-- A multiply step as the code makes it. -/
theorem Executes.steps (executes : p.Executes .mulscc) : p.Steps := by
  have latch : ∀ {α : Type} (view : Instruction → α), (∀ (i : Instruction) rd op1Value op2Value
      op3Value dbWordInstruction writeRegisters,
      view { i with
        rd := rd, op1Value := op1Value, op2Value := op2Value, op3Value := op3Value
        dbWordInstruction := dbWordInstruction, writeRegisters := writeRegisters } = view i) →
      view p.accessed.inst = view ((Sparc.fields p.word).decodeArithmetic (some .mulscc)) :=
    fun view blind => executes.latch rfl view blind
  have multiplies : p.accessed.inst.aluop = .mul := latch Instruction.aluop fun _ _ _ _ _ _ _ => rfl
  have signed : p.accessed.inst.signedMultiply = true :=
    latch Instruction.signedMultiply fun _ _ _ _ _ _ _ => rfl
  have writes : p.accessed.inst.writeIcc = true :=
    latch Instruction.writeIcc fun _ _ _ _ _ _ _ => rfl
  have fresh : p.accessed.inst.icc = 0 := latch Instruction.icc fun _ _ _ _ _ _ _ => rfl
  have valid := (executes.accessed rfl).2
  have stored := executes.stored rfl
  have arrived : p.arrived.inst = (Execute.behavior p.accessed).inst := by
    rw [executes.arrived rfl, Round.inst_after, Round.inst_after]
  rw [Execute.behavior_multiply valid multiplies signed writes] at arrived
  have first : (Execute.multiplyStep p.accessed).inst.op1Value = p.shiftedPartial := by
    change Execute.shiftedOperand p.operand1 p.accessed.specRegs.icc = _
    rw [Execute.shiftedOperand_eq, executes.accessed_icc]
    rfl
  have sum : (Execute.multiplyStep p.accessed).inst.aluResult =
      p.shiftedPartial + p.multiplicand := by
    rw [← first]
    change (if p.accessed.specRegs.y &&& 1 = 0 then _ else _) = _
    rw [executes.accessed_y, Execute.and_one, multiplicand]
    cases p.start.specRegs.y.getLsbD 0
    · exact (BitVec.add_zero _).symm
    · rfl
  refine ⟨?_, ?_, ?_, fun named => stored.delivers named⟩
  · rw [Pass.result, arrived]
    exact sum
  · have y := (executes.valid.accessed_y executes.coherent.enabled).2
    rw [stored.y, y, Execute.y_behavior, if_pos ⟨valid, multiplies, signed⟩, Execute.shiftedY_eq,
      executes.accessed_y]
    rfl
  · rw [stored.icc, arrived]
    exact geticc_step fresh multiplies first rfl sum

/-- A multiply step is exact if and only if something is added or the second operand is
not negative: otherwise its carry is wrong. -/
theorem mulscc_exact_iff (executes : p.Executes .mulscc) :
    p.StepsExactly ↔ p.start.specRegs.y.getLsbD 0 = true ∨ p.operand2.msb = false := by
  have steps := executes.steps
  have carry : p.StepsExactly ↔
      p.stepCarry = Flags.carryOut p.shiftedPartial p.multiplicand false := by
    constructor
    · intro exact
      have same := steps.icc.symm.trans exact.icc
      have bits := congrArg (fun icc => icc.getLsbD 0) same
      simp only [Execute.iccOf_bits] at bits
      exact bits
    · intro same
      have icc := steps.icc
      rw [same] at icc
      exact ⟨steps.result, steps.y, icc, steps.delivers⟩
  rw [carry, stepCarry]
  cases bit : p.start.specRegs.y.getLsbD 0 with
  | true => simp
  | false =>
      have none : p.multiplicand = 0 := by rw [multiplicand, bit]; rfl
      have fits : Flags.carryOut p.shiftedPartial 0 false = false := by
        simpa [Flags.carryOut] using p.shiftedPartial.isLt
      rw [none, fits, if_neg Bool.false_ne_true]
      exact ⟨Or.inr, fun either => either.resolve_left Bool.false_ne_true⟩

theorem Executes.step_sources (executes : p.Executes .mulscc)
    (whole : p.start.dbWordStalled = false) :
    p.shiftedPartial = Accumulator.insertTop
        (p.start.specRegs.icc.getLsbD 3 ^^ p.start.specRegs.icc.getLsbD 1) p.source1 ∧
      p.multiplicand = (if p.start.specRegs.y.getLsbD 0 then p.source2 else 0) ∧
      p.operand2 = p.source2 ∧ p.destination = (Sparc.fields p.word).rd := by
  obtain ⟨first, second, destination⟩ := executes.operands rfl whole
  exact ⟨by rw [shiftedPartial, first], by rw [multiplicand, second], second, destination⟩

theorem Executes.accumulates (executes : p.Executes .mulscc) (whole : p.start.dbWordStalled = false)
    {rd : Nat} (some : rd ≠ 0)
    (registers : (Sparc.fields p.word).rd = rd ∧ (Sparc.fields p.word).rs1 = rd) :
    p.finished.accumulator rd = (p.start.accumulator rd).step p.operand2 := by
  have steps := executes.steps
  obtain ⟨shifted, _, _, destination⟩ := executes.step_sources whole
  obtain ⟨target, source⟩ := registers
  obtain ⟨three, _, one, _⟩ := Execute.iccOf_bits
    { Flags.ofSum p.shiftedPartial p.multiplicand false with carry := p.stepCarry }
  have high : p.finished.readReg rd = p.shiftedPartial + p.multiplicand := by
    rw [← target, ← destination, steps.delivers (target ▸ some), steps.result]
  have operand : p.shiftedPartial = (p.start.accumulator rd).shifted := by
    rw [shifted, source1, source]
    rfl
  have negative : (p.finished.specRegs.icc.getLsbD 3 ^^ p.finished.specRegs.icc.getLsbD 1) =
      decide (p.shiftedPartial.toInt + p.multiplicand.toInt < 0) := by
    rw [steps.icc, three, one]
    simpa using Flags.sign_ofSum p.shiftedPartial p.multiplicand false
  have low : p.operand1 = p.source1 := (executes.operands rfl whole).1
  rw [HwThread.accumulator, high, negative, steps.y, low, operand, source1, source]
  rfl

/-- Thirty-two steps with one multiplicand and a last one without. Whatever else the
thread does between two steps, it leaves the register, the Y register and the condition
codes alone. -/
structure Multiplies (p : Nat → Pass id σ) (rd : Nat) (a b : Word) : Prop where
  executes : ∀ k, k ≤ 32 → (p k).Executes .mulscc
  whole : ∀ k, k ≤ 32 → (p k).start.dbWordStalled = false
  registers : ∀ k, k ≤ 32 →
    (Sparc.fields (p k).word).rd = rd ∧ (Sparc.fields (p k).word).rs1 = rd
  multiplicand : ∀ k, k < 32 → (p k).operand2 = a
  last : (p 32).operand2 = 0
  product : (p 0).start.readReg rd = 0
  multiplier : (p 0).start.specRegs.y = b
  signs : (p 0).start.specRegs.icc.getLsbD 3 = false ∧
    (p 0).start.specRegs.icc.getLsbD 1 = false
  linked : ∀ k, k < 32 →
    (p (k + 1)).start.readReg rd = (p k).finished.readReg rd ∧
      (p (k + 1)).start.specRegs.y = (p k).finished.specRegs.y ∧
      (p (k + 1)).start.specRegs.icc = (p k).finished.specRegs.icc

/-- The register and the Y register together hold the product of the multiplicand, read as
a signed number, and of the multiplier, read as an unsigned one. -/
theorem multiplies_product {p : Nat → Pass id σ} {rd : Nat} {a b : Word} (some : rd ≠ 0)
    (multiplies : Multiplies p rd a b) :
    ((p 32).finished.readReg rd ++ (p 32).finished.specRegs.y).toInt = a.toInt * b.toNat := by
  have step : ∀ k, k ≤ 32 →
      (p k).finished.accumulator rd = ((p k).start.accumulator rd).step (p k).operand2 := by
    intro k bound
    exact (multiplies.executes k bound).accumulates (multiplies.whole k bound) some
      (multiplies.registers k bound)
  let s : Nat → Accumulator 31 := fun k =>
    if k = 0 then (p 0).start.accumulator rd else (p (k - 1)).finished.accumulator rd
  have begins : ∀ k, k ≤ 32 → s k = (p k).start.accumulator rd := by
    intro k bound
    cases k with
    | zero => rfl
    | succ k =>
        obtain ⟨high, low, icc⟩ := multiplies.linked k bound
        simp only [s, Nat.succ_ne_zero, if_false, Nat.add_sub_cancel, HwThread.accumulator, high,
          low, icc]
  have moves : ∀ k, k ≤ 32 → s (k + 1) = (s k).step (p k).operand2 := by
    intro k bound
    rw [begins k bound, ← step k bound]
    rfl
  refine Accumulator.value_product (s := s) ⟨?_, multiplies.multiplier⟩ (fun k bound => ?_) ?_
  · change (((p 0).start.readReg rd).toNat : Int) - (2 ^ 32 : Nat) *
      ((p 0).start.specRegs.icc.getLsbD 3 ^^ (p 0).start.specRegs.icc.getLsbD 1).toNat = 0
    rw [multiplies.product, multiplies.signs.1, multiplies.signs.2]
    rfl
  · rw [moves k (by omega), multiplies.multiplicand k (by omega)]
  · rw [moves 32 le_rfl, multiplies.last]

end Pass

namespace Run

def stepping (imm : BitVec 13) : List (Round Unit) :=
  [.ofProgram (fun _ => arithmeticWord 0x24 1 1 imm) false .create]

theorem mulscc_exact_positive :
    ∃ run : Run 0 Unit, (run.entry 0).Executes .mulscc ∧ (run.entry 0).StepsExactly := by
  obtain ⟨run, holds⟩ := Run.exists_of_check
    (fun length (entry : Nat → Pass 0 Unit) =>
      length == 1 && executes (entry 0) .mulscc && !(entry 0).operand2.msb) (stepping 1)
    (by decide +kernel)
  simp only [Bool.and_eq_true, Bool.not_eq_true', beq_iff_eq] at holds
  obtain ⟨⟨length, executed⟩, sign⟩ := holds
  have executes := run.executes_of (by omega) executed
  exact ⟨run, executes, (Pass.mulscc_exact_iff executes).mpr (Or.inr sign)⟩

/-- With Y even and a negative second operand, a carry is reported that no addition
made. -/
theorem mulscc_carries :
    ∃ run : Run 0 Unit, (run.entry 0).Executes .mulscc ∧ ¬ (run.entry 0).StepsExactly := by
  obtain ⟨run, holds⟩ := Run.exists_of_check
    (fun length (entry : Nat → Pass 0 Unit) =>
      length == 1 && executes (entry 0) .mulscc && (entry 0).finished.specRegs.icc.getLsbD 0 &&
        !(Flags.ofSum (entry 0).shiftedPartial (entry 0).multiplicand false).carry)
    (stepping (-1)) (by decide +kernel)
  simp only [Bool.and_eq_true, Bool.not_eq_true', beq_iff_eq] at holds
  obtain ⟨⟨⟨length, executed⟩, reported⟩, none⟩ := holds
  refine ⟨run, run.executes_of (by omega) executed, fun exact => ?_⟩
  rw [exact.icc, (Execute.iccOf_bits _).2.2.2, none] at reported
  cases reported

def multiplying (a b : BitVec 13) : List (Round Unit) :=
  let program := fun pc : Word =>
    if pc = 0 then arithmeticWord 0x30 0 0 b
    else if pc = 132 then arithmeticWord 0x24 1 1 0 else arithmeticWord 0x24 1 1 a
  List.replicate 34 (.ofProgram program false .create)

theorem multiplies_product_signed :
    ∃ run : Run 0 Unit, Pass.Multiplies (fun k => run.entry (k + 1)) 1 (-3) 5 ∧
      ((run.entry 33).finished.readReg 1 ++ (run.entry 33).finished.specRegs.y).toInt = -15 := by
  obtain ⟨run, holds⟩ := Run.exists_of_check
    (fun length (entry : Nat → Pass 0 Unit) =>
      length == 34 && (List.range 33).all (fun k =>
        executes (entry (k + 1)) .mulscc && !(entry (k + 1)).start.dbWordStalled &&
          (Sparc.fields (entry (k + 1)).word).rd == 1 &&
          (Sparc.fields (entry (k + 1)).word).rs1 == 1 &&
          (entry (k + 1)).operand2 == if k = 32 then 0 else -3) &&
        (entry 1).start.readReg 1 == 0 && (entry 1).start.specRegs.y == 5 &&
        !(entry 1).start.specRegs.icc.getLsbD 3 && !(entry 1).start.specRegs.icc.getLsbD 1)
    (multiplying (-3) 5) (by decide +kernel)
  simp only [Bool.and_eq_true, Bool.not_eq_true', beq_iff_eq, List.all_eq_true,
    List.mem_range] at holds
  obtain ⟨⟨⟨⟨⟨length, each⟩, product⟩, multiplier⟩, three⟩, one⟩ := holds
  have multiplies : Pass.Multiplies (fun k => run.entry (k + 1)) 1 (-3) 5 := by
    refine ⟨fun k bound => run.executes_of (by omega) (each k (by omega)).1.1.1.1,
      fun k bound => (each k (by omega)).1.1.1.2,
      fun k bound => ⟨(each k (by omega)).1.1.2, (each k (by omega)).1.2⟩, fun k bound => ?_,
      (each 32 (by omega)).2, product, multiplier, ⟨three, one⟩, fun k bound => ?_⟩
    · rw [(each k (by omega)).2, if_neg (by omega)]
    · rw [run.linked (k + 1) (by omega)]
      exact ⟨rfl, rfl, rfl⟩
  have value : (-3 : Word).toInt * (5 : Word).toNat = -15 := by decide
  exact ⟨run, multiplies, (Pass.multiplies_product (by decide) multiplies).trans value⟩

end Run

end PretIss
