import PretIss.Model.Instruction
import PretIss.Model.RegisterFile
import PretIss.Model.SpecialReg

/-! The record of one hardware thread. The number of the thread is a parameter of
the type: the controller creates each thread with its place in the pool and the
program never changes it. -/

namespace PretIss

structure HwThread (id : ThreadId) where
  cntCycles : BitVec 32
  cntInstr : BitVec 32
  inst : Instruction
  regs : RegisterFile
  specRegs : SpecialReg
  enabled : Bool
  branchSlot : Word
  dbWordStalled : Bool
  deadlineStalled : Bool
  memoryStalled : Bool
  fetchStalled : Bool
  pc : Word
  trapped : ExceptionState
  trapType : BitVec 16

def ExceptionState.isTrapped : ExceptionState → Bool
  | .normal => false
  | .trapped | .trapped2 | .error => true

namespace HwThread

variable {id : ThreadId}

/-- A thread as the constructor leaves it, for window registers that nothing has
initialised. -/
def create (id : ThreadId) (pc : Word) (windowReg : Fin (16 * registerWindows) → Word) :
    HwThread id where
  cntCycles := 0
  cntInstr := 0
  inst := .nop
  regs := .create windowReg
  specRegs := .create
  enabled := false
  branchSlot := 0
  dbWordStalled := false
  deadlineStalled := false
  memoryStalled := false
  fetchStalled := false
  pc := pc
  trapped := .normal
  trapType := 0

def isTrapped (ht : HwThread id) : Bool := ht.trapped.isTrapped

/-- A register of the current window. -/
def readReg (ht : HwThread id) (registerNumber : Nat) : Word :=
  ht.regs.getReg registerNumber ht.specRegs.currWp

def writeReg (ht : HwThread id) (registerNumber : Nat) (value : Word) : HwThread id :=
  { ht with regs := ht.regs.setReg registerNumber value ht.specRegs.currWp }

/-- The step of the window pointer is a sum of `unsigned short`s, reduced modulo
the number of windows by a second assignment. -/
def moveWindow (ht : HwThread id) (increment : BitVec 16) : HwThread id :=
  { ht with
    specRegs :=
      { ht.specRegs with currWp := (ht.specRegs.currWp + increment) % registerWindows } }

end HwThread

@[simp] theorem ExceptionState.isTrapped_eq_false (state : ExceptionState) :
    state.isTrapped = false ↔ state = .normal := by
  cases state <;> simp [isTrapped]

end PretIss
