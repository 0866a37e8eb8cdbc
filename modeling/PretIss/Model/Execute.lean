import PretIss.Model.HwThread
import PretIss.Model.Fetch

/-! The execute stage computes the ALU result and the condition codes of the
instruction. The multiply step also shifts the Y register, here and not when the
instruction commits. -/

namespace PretIss

namespace Execute

variable {id : ThreadId}

/-- One turn of the loop that shifts a negative word right logically. -/
def shiftNegative (result : Word) : Word := result.sshiftRight 1 &&& 0x7FFFFFFF

def shiftRightLogical (op1 op2 : Word) : Word :=
  let shiftAmount := (op2 &&& 0x1F).toNat
  if op1 &&& 0x80000000 ≠ 0 then shiftNegative^[shiftAmount] op1
  else op1.sshiftRight shiftAmount

/-- The first operand of a multiply step, shifted right with N xor V on top. -/
def shiftedOperand (op1 : Word) (icc : BitVec 8) : Word :=
  let b := (icc &&& 0x08 != 0) ^^ (icc &&& 0x02 != 0)
  (op1 >>> 1) ||| (SpecialReg.bit b <<< 31)

/-- The Y register after a multiply step takes the bit the operand loses. -/
def shiftedY (op1 y : Word) : Word := (y >>> 1) ||| ((op1 &&& 1) <<< 31)

def multiplyStep (ht : HwThread id) : HwThread id :=
  let rs1 := shiftedOperand ht.inst.op1Value ht.specRegs.icc
  let rs2 := ht.inst.op2Value
  let y := ht.specRegs.y
  { ht with
    specRegs := { ht.specRegs with y := shiftedY ht.inst.op1Value y }
    inst :=
      { ht.inst with
        op1Value := rs1, op2Value := rs2
        aluResult := if y &&& 1 = 0 then rs1 else rs1 + rs2 } }

/-- The result of the operations that only compute one. -/
def aluValue (ht : HwThread id) : Word :=
  let op1 := ht.inst.op1Value
  let op2 := ht.inst.op2Value
  let carry := if ht.inst.carry then ht.specRegs.getCarryBit else 0
  match ht.inst.aluop with
  | .add => op1 + op2 + carry
  | .addDead => op2
  | .nop => 0
  | .sub => op1 - op2 - carry
  | .and => op1 &&& op2
  | .or => op1 ||| op2
  | .xor => op1 ^^^ op2
  | .andn => op1 &&& ~~~op2
  | .xnor => ~~~(op1 ^^^ op2)
  | .orn => op1 ||| ~~~op2
  | .sll => op1 <<< (op2 &&& 0x1F).toNat
  | .srl => shiftRightLogical op1 op2
  | .sra => op1.sshiftRight (op2 &&& 0x1F).toNat
  | .sethi => ht.inst.disp22 <<< 10
  | .mul => ht.inst.aluResult

/-- The condition codes accumulate on those the latch already holds. -/
def geticc (i : Instruction) : BitVec 8 :=
  let addition := i.aluop == .add || i.aluop == .mul
  let a := i.op1Value.msb
  let b := i.op2Value.msb
  let r := i.aluResult.msb
  let zero := i.aluResult == 0
  let overflow := (addition && a == b && a != r) || (i.aluop == .sub && a != b && a != r)
  let carry :=
    (addition && ((a && b) || (!r && (a || b)))) ||
      (i.aluop == .sub && ((!a && b) || ((!a || b) && r)))
  i.icc ||| (if zero then 0x4 else 0) ||| (if r then 0x8 else 0) |||
    (if overflow then 0x2 else 0) ||| (if carry then 0x1 else 0)

def performAluOperations (ht : HwThread id) : HwThread id :=
  let ht :=
    if ht.inst.aluop = .mul then
      if ht.inst.signedMultiply then multiplyStep ht else ht
    else { ht with inst := { ht.inst with aluResult := aluValue ht } }
  if ht.inst.writeIcc then { ht with inst := { ht.inst with icc := geticc ht.inst } } else ht

def behavior (ht : HwThread id) : HwThread id :=
  if ht.isNotValid then ht else performAluOperations ht

end Execute

end PretIss
