import PretIss.Model.HwThread
import PretIss.Model.Fetch

/-! The register access stage: deadline instructions wait here, missed deadlines
raise their trap here, and the operands are read. -/

namespace PretIss

namespace Regacc

variable {id : ThreadId}

/-- The mailbox of a PLL timer: a request waits until the mailbox is clear, fills
it, and waits until it is clear again. -/
def destinationPhaselockloopDeadlines (ht : HwThread id) : Except Halt (HwThread id) := do
  let load ← ht.specRegs.getPllLoad (ht.inst.rd - 8)
  if load ≠ 0 then return { ht with deadlineStalled := true }
  else if ¬ ht.specRegs.pllLoaded then
    return { ht with
      deadlineStalled := true
      inst := { ht.inst with writeSpecialRegisters := true }
      specRegs := { ht.specRegs with pllLoaded := true } }
  else return { ht with specRegs := { ht.specRegs with pllLoaded := false } }

def deadload (i : Instruction) : Bool := i.rs1 &&& 1 != 0

def deadbranch (i : Instruction) : Bool := i.rs1 &&& 2 != 0

/-- A timer that has run out, or a forced load, lets the instruction through; its
status is written here, its value only when the instruction commits. -/
def destinationRegularDeadlines (ht : HwThread id) (timer : Fin numDeadlineTimers) :
    HwThread id :=
  if (ht.specRegs.dt timer).sle 0 ∨ deadload ht.inst then
    { ht with
      inst := { ht.inst with writeSpecialRegisters := true }
      deadlineStalled := false
      specRegs :=
        { ht.specRegs with
          dtStatus := Function.update ht.specRegs.dtStatus timer
            (if deadbranch ht.inst then .set else .unset) } }
  else { ht with deadlineStalled := true }

def deadlineInstruction (ht : HwThread id) : Except Halt (HwThread id) :=
  if ht.inst.selectSpecialRegister = some .dt then
    if regular : ht.inst.rd < numDeadlineTimers then
      .ok (destinationRegularDeadlines ht ⟨ht.inst.rd, regular⟩)
    else destinationPhaselockloopDeadlines ht
  else .ok ht

/-- A missed deadline raises its trap unless one is being handled already. -/
def checkDeadline (ht : HwThread id) : HwThread id :=
  match ht.specRegs.missedDeadline with
  | some timer =>
      if ht.isTrapped then ht
      else { ht with trapped := .trapped, trapType := 0x70 + BitVec.ofNat 16 timer.val }
  | none => ht

/-- The second pass of a double-word instruction uses the next register and the
next word, and lowers both flags. -/
def doubleWordInstruction (ht : HwThread id) : HwThread id :=
  if ht.dbWordStalled && !ht.deadlineStalled then
    { ht with
      dbWordStalled := false
      inst :=
        { ht.inst with
          rd := ht.inst.rd + 1, op1Value := ht.readReg ht.inst.rs1 + 4
          dbWordInstruction := false } }
  else { ht with inst := { ht.inst with op1Value := ht.readReg ht.inst.rs1 } }

def immediateInstruction (ht : HwThread id) : HwThread id :=
  { ht with
    inst :=
      { ht.inst with
        op2Value := if ht.inst.useImm then ht.inst.imm else ht.readReg ht.inst.rs2 } }

/-- The third operand, and the window that the instruction asks for. -/
def thirdOperand (ht : HwThread id) : HwThread id :=
  let ht := { ht with inst := { ht.inst with op3Value := ht.readReg ht.inst.rd } }
  ht.moveWindow ht.inst.incrementWindowPointer

def behavior (ht : HwThread id) : Except Halt (HwThread id) :=
  if ht.isNotValid then .ok ht
  else do
    let ht ← deadlineInstruction ht
    return thirdOperand (immediateInstruction (doubleWordInstruction (checkDeadline ht)))

end Regacc

end PretIss
