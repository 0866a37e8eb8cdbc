import PretIss.Model.HwThread

/-! The comparison operators of a thread and of its parts, with the fields in the order of
the source. The number of the thread is in its type, all threads of a pool have one
controller, and the flag of a fixed schedule is set in every thread and never cleared. -/

namespace PretIss

def Instruction.equals (i compareInstruction : Instruction) : Bool :=
  i.unimplemented == compareInstruction.unimplemented &&
  i.pc == compareInstruction.pc &&
  i.inst == compareInstruction.inst &&
  i.op1 == compareInstruction.op1 &&
  i.op2 == compareInstruction.op2 &&
  i.op3 == compareInstruction.op3 &&
  i.rs1 == compareInstruction.rs1 &&
  i.rs2 == compareInstruction.rs2 &&
  i.rd == compareInstruction.rd &&
  i.aluop == compareInstruction.aluop &&
  i.writeRegisters == compareInstruction.writeRegisters &&
  i.writeMemory == compareInstruction.writeMemory &&
  i.readMemory == compareInstruction.readMemory &&
  i.memorySize == compareInstruction.memorySize &&
  i.rs1sel == compareInstruction.rs1sel &&
  i.rs2sel == compareInstruction.rs2sel &&
  i.rdsel == compareInstruction.rdsel &&
  i.op1Value == compareInstruction.op1Value &&
  i.op2Value == compareInstruction.op2Value &&
  i.op3Value == compareInstruction.op3Value &&
  i.imm == compareInstruction.imm &&
  i.useImm == compareInstruction.useImm &&
  i.aluResult == compareInstruction.aluResult &&
  i.branch == compareInstruction.branch &&
  i.jump == compareInstruction.jump &&
  i.conditionalBranch == compareInstruction.conditionalBranch &&
  i.annul == compareInstruction.annul &&
  i.call == compareInstruction.call &&
  i.disp30 == compareInstruction.disp30 &&
  i.writeIcc == compareInstruction.writeIcc &&
  i.icc == compareInstruction.icc &&
  i.disp22 == compareInstruction.disp22 &&
  i.selectSpecialRegister == compareInstruction.selectSpecialRegister &&
  i.writeSpecialRegisters == compareInstruction.writeSpecialRegisters &&
  i.dbWordInstruction == compareInstruction.dbWordInstruction &&
  i.carry == compareInstruction.carry &&
  i.isRett == compareInstruction.isRett &&
  i.signedMultiply == compareInstruction.signedMultiply &&
  i.syncInstruction == compareInstruction.syncInstruction

def SpecialReg.equals (r isRegister : SpecialReg) : Bool :=
  r.currWp == isRegister.currWp && r.icc == isRegister.icc &&
  r.s == isRegister.s && r.ps == isRegister.ps && r.tbr == isRegister.tbr &&
  r.wim == isRegister.wim && r.et == isRegister.et && r.ec == isRegister.ec &&
  r.ef == isRegister.ef && r.pil == isRegister.pil && r.y == isRegister.y &&
  r.pllLoaded == isRegister.pllLoaded &&
  decide (∀ i, r.asr i = isRegister.asr i) &&
  decide (∀ i, r.dt i = isRegister.dt i) &&
  decide (∀ i, r.plldt i = isRegister.plldt i ∧ r.pllLoad i = isRegister.pllLoad i)

def RegisterFile.equals (r fromRegister : RegisterFile) : Bool :=
  decide (∀ i, r.windowReg i = fromRegister.windowReg i) &&
  decide (∀ i, r.globalReg i = fromRegister.globalReg i)

/-- The counters are no behaviors of a thread, so there is no need to compare them. -/
def HwThread.equals {id : ThreadId} (ht hardwareThread : HwThread id) : Bool :=
  ht.inst.equals hardwareThread.inst &&
  ht.pc == hardwareThread.pc &&
  ht.enabled == hardwareThread.enabled &&
  ht.specRegs.equals hardwareThread.specRegs &&
  ht.branchSlot == hardwareThread.branchSlot &&
  ht.regs.equals hardwareThread.regs &&
  ht.deadlineStalled == hardwareThread.deadlineStalled &&
  ht.memoryStalled == hardwareThread.memoryStalled &&
  ht.fetchStalled == hardwareThread.fetchStalled &&
  ht.trapped == hardwareThread.trapped &&
  ht.trapType == hardwareThread.trapType

end PretIss
