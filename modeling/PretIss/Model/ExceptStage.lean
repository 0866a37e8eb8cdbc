import PretIss.Model.HwThread
import PretIss.Model.Dma
import PretIss.Model.SyncTable

/-! The last stage commits an instruction: it consults the barrier table, handles
a pending trap in two passes, moves the program counter and writes the
registers. -/

namespace PretIss

namespace ExceptStage

variable {id : ThreadId}

def addrCalc (ht : HwThread id) : Except Halt Word :=
  if ht.inst.branch then .ok (ht.inst.pc + ht.inst.disp22 * 4)
  else if ht.inst.call then .ok (ht.inst.pc + ht.inst.disp30 * 4)
  else .error .assertionFailed

def conditionHolds (icc : BitVec 8) (condition : Option BranchConditions) : Bool :=
  let neg := icc &&& 0x08 != 0
  let zero := icc &&& 0x04 != 0
  let ovfl := icc &&& 0x02 != 0
  let carry := icc &&& 0x01 != 0
  match condition with
  | some .ba => true
  | some .bn => false
  | some .bne => !zero
  | some .be => zero
  | some .bg => !(zero || (neg ^^ ovfl))
  | some .ble => zero || (neg ^^ ovfl)
  | some .bge => !(neg ^^ ovfl)
  | some .bl => neg ^^ ovfl
  | some .bgu => !(carry || zero)
  | some .bleu => carry || zero
  | some .bcc => !carry
  | some .bcs => carry
  | some .bpos => !neg
  | some .bneg => neg
  | some .bvc => !ovfl
  | some .bvs => ovfl
  | none => false

def branchCheck (ht : HwThread id) : Bool :=
  if !ht.inst.branch && !ht.inst.call then false
  else if ht.inst.call then true
  else conditionHolds ht.specRegs.icc (BranchConditions.ofCode ht.inst.conditionalBranch)

/-- The first pass of a double-word instruction asks for a second one. -/
def setDwordState (ht : HwThread id) : HwThread id :=
  if ht.inst.dbWordInstruction && !ht.dbWordStalled then { ht with dbWordStalled := true } else ht

/-- A waiting deadline instruction commits nothing but the mailbox of its PLL
timer. -/
def deadStalled (ht : HwThread id) : Except Halt (HwThread id) :=
  if ht.specRegs.pllLoaded && ht.inst.writeSpecialRegisters then do
    let specRegs ← ht.specRegs.setPllLoad ht.inst.aluResult (ht.inst.rd - 8)
    return { ht with specRegs }
  else .ok ht

def writeIcc (ht : HwThread id) : HwThread id :=
  if ht.inst.writeIcc then { ht with specRegs := { ht.specRegs with icc := ht.inst.icc } } else ht

/-- The address of the instruction that follows, the delayed one if there is. -/
def nextPc (ht : HwThread id) : HwThread id :=
  if ht.branchSlot ≠ 0 then
    if !ht.inst.dbWordInstruction then { ht with pc := ht.branchSlot, branchSlot := 0 } else ht
  else { ht with pc := ht.pc + 4 }

def takeBranch (ht : HwThread id) : Except Halt (HwThread id) :=
  if branchCheck ht then do
    let offset ← addrCalc ht
    if !(ht.inst.branch && ht.inst.annul &&
        BranchConditions.ofCode ht.inst.conditionalBranch == some .ba) then
      return { ht with branchSlot := ht.pc + offset - 4 }
    else return { ht with pc := ht.pc + offset - 4 }
  else if ht.inst.jump then .ok { ht with branchSlot := ht.inst.aluResult }
  else if ht.inst.branch && ht.inst.annul then .ok { ht with pc := ht.pc + 4 }
  else .ok ht

def linkAddress (ht : HwThread id) : HwThread id :=
  if ht.inst.jump || ht.inst.call then
    { ht with inst := { ht.inst with aluResult := ht.pc - 4 } }
  else ht

def incPc (ht : HwThread id) : Except Halt (HwThread id) := do
  let ht ← takeBranch (nextPc (writeIcc ht))
  return linkAddress ht

/-- The register write that replaces the instruction's own. -/
def redirect (ht : HwThread id) (rd : Nat) (value : Word) : HwThread id :=
  { ht with inst := { ht.inst with aluResult := value, rd := rd, writeRegisters := true } }

/-- The test meant to single out the traps that are not deadline misses; no trap
type passes it. -/
def isNotDeadlineException (trapType : BitVec 16) : Bool :=
  BitVec.slt 0x7F trapType && trapType.slt 0x70

/-- The first pass moves to the next window and stores the PC in r17. -/
def firstPass (ht : HwThread id) : HwThread id :=
  let ht := redirect (ht.moveWindow (-1)) 17 ht.pc
  let ht :=
    if isNotDeadlineException ht.trapType then
      { ht with specRegs := { ht.specRegs with ps := ht.specRegs.s, s := true } }
    else ht
  { ht with trapped := .trapped2 }

/-- The address of the instruction after a trapped one. -/
def npc (ht : HwThread id) : Word := if ht.branchSlot ≠ 0 then ht.branchSlot else ht.pc + 4

def trapOffset (ht : HwThread id) : Word := ht.trapType.signExtend 32

def enterTrap (ht : HwThread id) : HwThread id :=
  { ht with
    trapped := .normal
    pc := ht.specRegs.tbr ||| (trapOffset ht <<< 4)
    branchSlot := 0 }

/-- The range is one longer than the timers are. -/
def clearStatus (ht : HwThread id) : Except Halt (HwThread id) :=
  if 0x70 ≤ trapOffset ht ∧ trapOffset ht < 0x79 then do
    let specRegs ← ht.specRegs.setDtStatus .unset ((trapOffset ht).toNat - 0x70)
    return { ht with specRegs }
  else .ok ht

def disableTraps (ht : HwThread id) : HwThread id :=
  if isNotDeadlineException ht.trapType then
    { ht with specRegs := { ht.specRegs with et := false } }
  else ht

/-- The second pass stores the next PC in r18 and jumps to the trap table. -/
def secondPass (ht : HwThread id) : Except Halt (HwThread id) := do
  let ht ← clearStatus (enterTrap (redirect ht 18 (npc ht)))
  return disableTraps ht

/-- Whether the instruction may commit; a pending trap squashes it. -/
def handleExceptions (ht : HwThread id) : Except Halt (HwThread id × Bool) :=
  if !ht.isTrapped then .ok (ht, true)
  else if !ht.specRegs.et then .ok ({ ht with trapped := .normal }, true)
  else
    let ht := { ht with inst := { ht.inst with writeSpecialRegisters := false } }
    match ht.trapped with
    | .trapped => .ok (firstPass ht, false)
    | .trapped2 => do
        let ht ← secondPass ht
        return (ht, false)
    | .normal | .error => .ok (ht, false)

def specialValue (ht : HwThread id) : Option SregMux → Except Halt Word
  | some .y => .ok ht.specRegs.y
  | some .asr => ht.specRegs.getAsr ht.inst.rs1
  | some .psr => .ok ht.specRegs.getPsr
  | some .wim => .ok ht.specRegs.wim
  | some .tbr => .ok ht.specRegs.tbr
  | some .dt | some .mem2sp | none => .ok ht.inst.aluResult

def writeRegs (ht : HwThread id) : Except Halt (HwThread id) :=
  if ht.inst.writeRegisters then do
    let value ← specialValue ht ht.inst.selectSpecialRegister
    return ht.writeReg ht.inst.rd value
  else .ok ht

/-- A transfer into the scratchpad is requested by committing the instruction. -/
def requestTransfer (ht : HwThread id) (dma : Dma) : Dma :=
  ((dma.setMemSource id ht.inst.aluResult).setSpmTarget id ht.inst.op3Value).makeTransfer id

def writeDeadline (ht : HwThread id) : Except Halt (HwThread id) :=
  if regular : ht.inst.rd < numDeadlineTimers then
    .ok { ht with specRegs := ht.specRegs.setDt ht.inst.aluResult ⟨ht.inst.rd, regular⟩ }
  else do
    let specRegs ← ht.specRegs.setPllLoad ht.inst.aluResult (ht.inst.rd - 8)
    return { ht with specRegs }

def writeSpecialRegs (ht : HwThread id) (dma : Dma) : Except Halt (HwThread id × Dma) :=
  let result := ht.inst.aluResult
  if ht.inst.writeSpecialRegisters then
    match ht.inst.selectSpecialRegister with
    | some .y => .ok ({ ht with specRegs := { ht.specRegs with y := result } }, dma)
    | some .asr => do
        let specRegs ← ht.specRegs.setAsr result ht.inst.rd
        return ({ ht with specRegs }, dma)
    | some .psr => .ok ({ ht with specRegs := ht.specRegs.setPsr result }, dma)
    | some .wim => .ok ({ ht with specRegs := { ht.specRegs with wim := result } }, dma)
    | some .tbr => .ok ({ ht with specRegs := { ht.specRegs with tbr := result } }, dma)
    | some .dt => do
        let ht ← writeDeadline ht
        return (ht, dma)
    | some .mem2sp => .ok (ht, requestTransfer ht dma)
    | none => .ok (ht, dma)
  else .ok (ht, dma)

/-- The privilege checks raise traps of their own. -/
def returnFromTrap (ht : HwThread id) : HwThread id :=
  if !ht.specRegs.s then { ht with trapped := .trapped, trapType := 0x03 }
  else if ht.specRegs.et then { ht with trapped := .trapped, trapType := 0x02 }
  else { ht with specRegs := { ht.specRegs with s := ht.specRegs.ps, et := true } }

/-- The barrier is consulted before it is known whether a trap squashes the
instruction. -/
def checkSync (ht : HwThread id) (syncTable : SyncTable) : Except Halt (SyncTable × Bool) :=
  if ht.inst.syncInstruction then syncTable.checkSyncTable (ht.inst.imm.setWidth 16) id
  else .ok (syncTable, true)

def advance (ht : HwThread id) (handled syncNotStalled : Bool) : Except Halt (HwThread id) :=
  if handled && !ht.dbWordStalled && syncNotStalled then incPc ht else .ok ht

def retire (ht : HwThread id) : HwThread id :=
  let ht := if ht.inst.isRett then returnFromTrap ht else ht
  { ht with cntInstr := ht.cntInstr + 1 }

/-- The part of the stage after its early returns, once the barrier has
answered. -/
def commit (ht : HwThread id) (syncNotStalled : Bool) (dma : Dma) :
    Except Halt (HwThread id × Dma) := do
  let (ht, handled) ← handleExceptions ht
  let ht ← advance ht handled syncNotStalled
  let ht ← writeRegs ht
  let (ht, dma) ← writeSpecialRegs ht dma
  return (retire ht, dma)

def countCycles (ht : HwThread id) : HwThread id := { ht with cntCycles := ht.cntCycles + 6 }

/-- The thread once its cycles are counted and a double word is noted. -/
def arrive (ht : HwThread id) : HwThread id := setDwordState (countCycles ht)

def behavior (ht : HwThread id) (syncTable : SyncTable) (dma : Dma) :
    Except Halt (HwThread id × SyncTable × Dma) :=
  if !ht.enabled then .ok (ht, syncTable, dma)
  else if ht.fetchStalled then .ok (countCycles ht, syncTable, dma)
  else
    let ht := arrive ht
    if ht.deadlineStalled then do
      let ht ← deadStalled ht
      return (ht, syncTable, dma)
    else if ht.memoryStalled then .ok (ht, syncTable, dma)
    else do
      let (syncTable, syncNotStalled) ← checkSync ht syncTable
      let (ht, dma) ← commit ht syncNotStalled dma
      return (ht, syncTable, dma)

end ExceptStage

end PretIss
