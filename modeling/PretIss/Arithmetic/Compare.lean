import PretIss.Arithmetic.Instruction
import PretIss.Library.Flags
import PretIss.Thread.Program

/-! The condition codes of a sum and of a difference are its flags, and a branch after a
comparison decides the order of the two operands. -/

namespace PretIss

variable {id : ThreadId} {σ : Type}

def Execute.iccOf (f : Flags) : BitVec 8 :=
  (if f.zero then 0x4 else 0) ||| (if f.negative then 0x8 else 0) |||
    (if f.overflow then 0x2 else 0) ||| (if f.carry then 0x1 else 0)

@[simp] theorem Execute.iccOf_bits (f : Flags) :
    (iccOf f).getLsbD 3 = f.negative ∧ (iccOf f).getLsbD 2 = f.zero ∧
      (iccOf f).getLsbD 1 = f.overflow ∧ (iccOf f).getLsbD 0 = f.carry := by
  obtain ⟨negative, zero, overflow, carry⟩ := f
  cases negative <;> cases zero <;> cases overflow <;> cases carry <;> decide

theorem SpecialReg.getCarryBit_eq (r : SpecialReg) :
    r.getCarryBit = (BitVec.ofBool (r.icc.getLsbD 0)).setWidth 32 := by
  have flag : ∀ b : Bool, (bit b)[7] = false ∧ (bit b)[8] = false ∧ (bit b)[13] = false ∧
      (bit b)[14] = false ∧ (bit b)[15] = false := by decide
  have low : r.getPsr.getLsbD 20 = r.icc.getLsbD 0 := by
    simp [getPsr, flag]
  have test : r.getPsr &&& 0x00100000 ≠ 0 ↔ r.icc.getLsbD 0 = true := by
    change r.getPsr &&& BitVec.twoPow 32 20 ≠ 0 ↔ _
    rw [BitVec.and_twoPow, low]
    cases r.icc.getLsbD 0 <;> decide
  unfold getCarryBit
  by_cases carry : r.icc.getLsbD 0 = true
  · rw [if_pos (test.mpr carry), carry]
    rfl
  · rw [if_neg (mt test.mp carry), Bool.eq_false_iff.mpr carry]
    rfl

namespace Execute

theorem zero_or (icc : BitVec 8) : 0 ||| icc = icc := BitVec.zero_or

theorem behavior_inst {ht : HwThread id} (valid : ht.isNotValid = false)
    (plain : ht.inst.aluop ≠ .mul) (writes : ht.inst.writeIcc = true) :
    (behavior ht).inst.aluResult = aluValue ht ∧
      (behavior ht).inst.icc = geticc { ht.inst with aluResult := aluValue ht } := by
  simp only [behavior, performAluOperations, valid, plain, writes, Bool.false_eq_true, if_false,
    if_true, and_self]

theorem geticc_add {i : Instruction} {x y : Word} {c : Bool} (fresh : i.icc = 0)
    (adds : i.aluop = .add ∨ i.aluop = .mul) (left : i.op1Value = x) (right : i.op2Value = y)
    (result : i.aluResult = Flags.sum x y c) : geticc i = iccOf (Flags.ofSum x y c) := by
  have carries : (Flags.ofSum x y c).carry = _ := Flags.carryOut_eq x y c
  have addition : (i.aluop == .add || i.aluop == .mul) = true := by simpa using adds
  have other : (i.aluop == .sub) = false := by
    obtain adds | adds := adds <;> rw [adds] <;> rfl
  simp only [geticc, iccOf, carries, Flags.overflow_ofSum, fresh, left, right, result, addition,
    other, Bool.true_and, Bool.false_and, Bool.or_false]
  rw [zero_or]
  rfl

theorem geticc_sub {i : Instruction} {x y : Word} {c : Bool} (fresh : i.icc = 0)
    (subtracts : i.aluop = .sub) (left : i.op1Value = x) (right : i.op2Value = y)
    (result : i.aluResult = Flags.difference x y c) :
    geticc i = iccOf (Flags.ofDifference x y c) := by
  have other : (Alu.sub == .add || Alu.sub == .mul) = false := rfl
  simp only [geticc, iccOf, Flags.carry_ofDifference, Flags.overflow_ofDifference, fresh, left,
    right, result, subtracts, other, beq_self_eq_true, Bool.true_and, Bool.false_and,
    Bool.false_or]
  rw [zero_or]
  rfl

end Execute

def Op3Arithmetic.extended : Op3Arithmetic → Bool
  | .addxcc | .subxcc => true
  | _ => false

namespace Pass

variable {p : Pass id σ} {op3 : Op3Arithmetic}

def carryIn (p : Pass id σ) (op3 : Op3Arithmetic) : Bool :=
  op3.extended && p.start.specRegs.icc.getLsbD 0

theorem Executes.accessed_icc (executes : p.Executes op3) :
    p.accessed.specRegs.icc = p.start.specRegs.icc := by
  have settings := (executes.valid.carries executes.coherent executes.runs).settings
  have arrived : p.arrived.specRegs.settings.icc = p.start.specRegs.settings.icc := by rw [settings]
  exact (HwThread.of_control (fun ht => ht.specRegs.icc) (fun _ => rfl)
    executes.valid.arrived_control.1).symm.trans arrived

theorem Executes.latch (executes : p.Executes op3) (sets : op3.setsFlags = true) {α : Type}
    (view : Instruction → α)
    (blind : ∀ (i : Instruction) rd op1Value op2Value op3Value dbWordInstruction writeRegisters,
      view { i with
        rd := rd, op1Value := op1Value, op2Value := op2Value, op3Value := op3Value
        dbWordInstruction := dbWordInstruction, writeRegisters := writeRegisters } = view i) :
    view p.accessed.inst = view ((Sparc.fields p.word).decodeArithmetic (some op3)) := by
  rw [(executes.accessed sets).1, ← Sparc.decodeOperation_arithmetic executes.word]
  calc view (Regacc.operands p.decoded).inst
      = view p.decoded.inst :=
        blind p.decoded.inst _ _ _ _ _ p.decoded.inst.writeRegisters
    _ = view (Instruction.ofWord p.word) := by rw [executes.decoded]
    _ = view (Sparc.fields p.word).decodeOperation :=
        Sparc.of_fields p.word view fun i => blind i i.rd i.op1Value i.op2Value i.op3Value
          i.dbWordInstruction false

theorem Executes.computed (executes : p.Executes op3) (sets : op3.setsFlags = true)
    (plain : op3 ≠ .mulscc) :
    p.result = Execute.aluValue p.accessed ∧
      p.finished.specRegs.icc =
        Execute.geticc { p.accessed.inst with aluResult := Execute.aluValue p.accessed } := by
  have aluop : p.accessed.inst.aluop ≠ .mul := by
    rw [executes.latch sets Instruction.aluop fun _ _ _ _ _ _ _ => rfl]
    intro multiplies
    cases op3 <;> first | exact plain rfl | cases multiplies
  have writes : p.accessed.inst.writeIcc = true := by
    rw [executes.latch sets Instruction.writeIcc fun _ _ _ _ _ _ _ => rfl]
    exact (Sparc.computes_fields p.word sets).writeIcc
  obtain ⟨result, icc⟩ :=
    Execute.behavior_inst (executes.accessed sets).2 aluop writes
  have arrived : p.arrived.inst = (Execute.behavior p.accessed).inst := by
    rw [executes.arrived sets, Round.inst_after, Round.inst_after]
  rw [Pass.result, (executes.stored sets).icc, arrived]
  exact ⟨result, icc⟩

theorem Executes.asks (executes : p.Executes op3)
    (which : op3 = .addcc ∨ op3 = .addxcc ∨ op3 = .subcc ∨ op3 = .subxcc) :
    op3.setsFlags = true ∧ op3 ≠ .mulscc ∧
      p.accessed.inst.aluop = (if op3 = .addcc ∨ op3 = .addxcc then .add else .sub) ∧
      p.accessed.inst.carry = op3.extended ∧ p.accessed.inst.icc = 0 := by
  have sets : op3.setsFlags = true := by obtain rfl | rfl | rfl | rfl := which <;> rfl
  rw [executes.latch sets Instruction.aluop fun _ _ _ _ _ _ _ => rfl,
    executes.latch sets Instruction.carry fun _ _ _ _ _ _ _ => rfl,
    executes.latch sets Instruction.icc fun _ _ _ _ _ _ _ => rfl]
  obtain rfl | rfl | rfl | rfl := which <;> exact ⟨rfl, by decide, rfl, rfl, rfl⟩

theorem Executes.sum (executes : p.Executes op3) (adds : op3 = .addcc ∨ op3 = .addxcc) :
    p.result = Flags.sum p.operand1 p.operand2 (p.carryIn op3) ∧
      p.finished.specRegs.icc =
        Execute.iccOf (Flags.ofSum p.operand1 p.operand2 (p.carryIn op3)) := by
  obtain ⟨sets, plain, aluop, carry, fresh⟩ :=
    executes.asks (adds.imp_right fun extended => Or.inl extended)
  rw [if_pos adds] at aluop
  have value : Execute.aluValue p.accessed =
      Flags.sum p.operand1 p.operand2 (p.carryIn op3) := by
    simp only [Execute.aluValue, aluop, carry, SpecialReg.getCarryBit_eq, executes.accessed_icc,
      Flags.sum, operand1, operand2, carryIn]
    cases op3.extended <;> rfl
  obtain ⟨result, icc⟩ := executes.computed sets plain
  refine ⟨result.trans value, icc.trans ?_⟩
  exact Execute.geticc_add fresh (Or.inl aluop) rfl rfl value

theorem Executes.difference (executes : p.Executes op3) (subtracts : op3 = .subcc ∨ op3 = .subxcc) :
    p.result = Flags.difference p.operand1 p.operand2 (p.carryIn op3) ∧
      p.finished.specRegs.icc =
        Execute.iccOf (Flags.ofDifference p.operand1 p.operand2 (p.carryIn op3)) := by
  obtain ⟨sets, plain, aluop, carry, fresh⟩ :=
    executes.asks (Or.inr (Or.inr subtracts))
  rw [if_neg (by obtain rfl | rfl := subtracts <;> decide)] at aluop
  have value : Execute.aluValue p.accessed =
      Flags.difference p.operand1 p.operand2 (p.carryIn op3) := by
    simp only [Execute.aluValue, aluop, carry, SpecialReg.getCarryBit_eq, executes.accessed_icc,
      Flags.difference, operand1, operand2, carryIn]
    cases op3.extended <;> rfl
  obtain ⟨result, icc⟩ := executes.computed sets plain
  refine ⟨result.trans value, icc.trans ?_⟩
  exact Execute.geticc_sub fresh aluop rfl rfl value

end Pass

/-- What a condition asks of two words that were compared. -/
def BranchConditions.Compares (condition : BranchConditions) (a b : Word) : Prop :=
  match condition with
  | .ba => True
  | .bn => False
  | .bne => a ≠ b
  | .be => a = b
  | .bg => b.toInt < a.toInt
  | .ble => a.toInt ≤ b.toInt
  | .bge => b.toInt ≤ a.toInt
  | .bl => a.toInt < b.toInt
  | .bgu => b.toNat < a.toNat
  | .bleu => a.toNat ≤ b.toNat
  | .bcc => b.toNat ≤ a.toNat
  | .bcs => a.toNat < b.toNat
  | .bpos => 0 ≤ (a - b).toInt
  | .bneg => (a - b).toInt < 0
  | .bvc => (a - b).toInt = a.toInt - b.toInt
  | .bvs => (a - b).toInt ≠ a.toInt - b.toInt

/-- What a condition asks of the flags. -/
def BranchConditions.test (condition : BranchConditions) (f : Flags) : Bool :=
  match condition with
  | .ba => true
  | .bn => false
  | .bne => !f.zero
  | .be => f.zero
  | .bg => !(f.zero || (f.negative ^^ f.overflow))
  | .ble => f.zero || (f.negative ^^ f.overflow)
  | .bge => !(f.negative ^^ f.overflow)
  | .bl => f.negative ^^ f.overflow
  | .bgu => !(f.carry || f.zero)
  | .bleu => f.carry || f.zero
  | .bcc => !f.carry
  | .bcs => f.carry
  | .bpos => !f.negative
  | .bneg => f.negative
  | .bvc => !f.overflow
  | .bvs => f.overflow

theorem ExceptStage.conditionHolds_iccOf (f : Flags) (condition : BranchConditions) :
    conditionHolds (Execute.iccOf f) (some condition) = condition.test f := by
  obtain ⟨three, two, one, zero⟩ := Execute.iccOf_bits f
  have n : (Execute.iccOf f &&& 0x08 != 0) = f.negative :=
    (Sparc.icc_bit (Execute.iccOf f) 3 (by decide)).trans three
  have z : (Execute.iccOf f &&& 0x04 != 0) = f.zero :=
    (Sparc.icc_bit (Execute.iccOf f) 2 (by decide)).trans two
  have v : (Execute.iccOf f &&& 0x02 != 0) = f.overflow :=
    (Sparc.icc_bit (Execute.iccOf f) 1 (by decide)).trans one
  have c : (Execute.iccOf f &&& 0x01 != 0) = f.carry :=
    (Sparc.icc_bit (Execute.iccOf f) 0 (by decide)).trans zero
  cases condition <;> simp only [conditionHolds, BranchConditions.test, n, z, v, c]

theorem ExceptStage.conditionHolds_difference (a b : Word) (condition : BranchConditions) :
    conditionHolds (Execute.iccOf (Flags.ofDifference a b false)) (some condition) = true ↔
      condition.Compares a b := by
  have equal := Flags.zero_ofDifference a b
  have below := Flags.lt_iff_carry a b
  have less := Flags.toInt_lt_iff a b
  have same : Flags.difference a b false = a - b := BitVec.sub_zero _
  have sign : (Flags.ofDifference a b false).negative = true ↔ (a - b).toInt < 0 := by
    rw [Flags.ofDifference, same, BitVec.msb_eq_toInt, decide_eq_true_iff]
  have wrong : (Flags.ofDifference a b false).overflow = true ↔
      (a - b).toInt ≠ a.toInt - b.toInt := by
    simp [Flags.ofDifference, same]
  rw [conditionHolds_iccOf]
  revert equal below less sign wrong
  generalize Flags.ofDifference a b false = flags
  obtain ⟨n, z, v, c⟩ := flags
  intro equal below less sign wrong
  have signed : a = b ↔ a.toInt = b.toInt := BitVec.toInt_inj.symm
  have unsigned : a = b ↔ a.toNat = b.toNat := BitVec.toNat_inj.symm
  rw [BitVec.lt_def] at below
  cases condition <;> simp only [BranchConditions.test, BranchConditions.Compares] <;> grind

/-- A branch on the condition codes of a comparison is taken exactly if the relation of
its condition holds between the two words. -/
theorem Pass.branchCheck_compares {p : Pass id σ} (compares : p.Executes .subcc)
    {ht : HwThread id} (branch : ht.inst.branch = true) (call : ht.inst.call = false)
    {condition : BranchConditions}
    (code : BranchConditions.ofCode ht.inst.conditionalBranch = some condition)
    (icc : ht.specRegs.icc = p.finished.specRegs.icc) :
    ExceptStage.branchCheck ht = true ↔ condition.Compares p.operand1 p.operand2 := by
  have codes := (compares.difference (Or.inl rfl)).2
  rw [ExceptStage.branchCheck, branch, call, code, icc, codes]
  exact ExceptStage.conditionHolds_difference p.operand1 p.operand2 condition

theorem Pass.Executes.compares_sources {p : Pass id σ} (compares : p.Executes .subcc)
    (whole : p.start.dbWordStalled = false) (condition : BranchConditions) :
    ExceptStage.conditionHolds p.finished.specRegs.icc (some condition) = true ↔
      condition.Compares p.source1 p.source2 := by
  obtain ⟨first, second, _⟩ := compares.operands rfl whole
  rw [(compares.difference (Or.inl rfl)).2, ← first, ← second]
  exact ExceptStage.conditionHolds_difference p.operand1 p.operand2 condition

namespace Run

/-- An arithmetic instruction is fetched in a pass and commits in it. -/
def executes (p : Pass id σ) (op3 : Op3Arithmetic) : Bool :=
  !Fetch.isHeld p.start && Sparc.op p.word == 2 &&
    Op3Arithmetic.ofCode (Sparc.op3 p.word).toNat == some op3 && p.commits

theorem executes_of (run : Run id σ) {n : Nat} {op3 : Op3Arithmetic} (bound : n < run.length)
    (executed : executes (run.entry n) op3 = true) : (run.entry n).Executes op3 := by
  simp only [executes, Bool.and_eq_true, Bool.not_eq_true', beq_iff_eq] at executed
  obtain ⟨⟨⟨free, op⟩, code⟩, commits⟩ := executed
  exact ⟨run.valid n bound, run.coherent bound, free, ⟨op, code⟩, commits⟩

def arithmeticWord (op3 : BitVec 6) (rd rs1 : BitVec 5) (imm : BitVec 13) : Word :=
  2#2 ++ rd ++ op3 ++ rs1 ++ 1#1 ++ imm

def branchWord (cond : BitVec 4) : Word := 0#2 ++ 0#1 ++ cond ++ 2#3 ++ 2#22

def comparing : List (Round Unit) :=
  let program := fun pc : Word => if pc = 0 then arithmeticWord 0x14 0 0 1 else branchWord 5
  [.ofProgram program false .create, .ofProgram program false .create]

theorem branch_taken_below :
    ∃ run : Run 0 Unit, ExceptStage.branchCheck (run.entry 1).arrived = true := by
  obtain ⟨run, holds⟩ := Run.exists_of_check
    (fun length (entry : Nat → Pass 0 Unit) =>
      length == 2 && executes (entry 0) .subcc && (entry 1).arrived.inst.branch &&
        !(entry 1).arrived.inst.call &&
        BranchConditions.ofCode (entry 1).arrived.inst.conditionalBranch == some .bcs &&
        (entry 1).arrived.specRegs.icc == (entry 0).finished.specRegs.icc &&
        decide ((entry 0).operand1.toNat < (entry 0).operand2.toNat)) comparing
    (by decide +kernel)
  simp only [Bool.and_eq_true, Bool.not_eq_true', beq_iff_eq, decide_eq_true_eq] at holds
  obtain ⟨⟨⟨⟨⟨⟨length, executed⟩, branch⟩, call⟩, code⟩, icc⟩, below⟩ := holds
  refine ⟨run, (Pass.branchCheck_compares (run.executes_of (by omega) executed) branch call code
    icc).mpr below⟩

end Run

end PretIss
