import PretIss.Model.HwThread
import PretIss.Model.MemoryController

/-! The first two stages. Fetch counts the deadline timers down, whether or not
the thread is stalled, and then reads an instruction unless a memory access, a
deadline or a trap holds the thread. Decode is skipped when the read stalled. -/

namespace PretIss

namespace Fetch

variable {id : ThreadId} {σ : Type}

/-- A thread whose latch is kept for another pass. -/
def isHeld (ht : HwThread id) : Bool := ht.memoryStalled || ht.deadlineStalled || ht.isTrapped

def countDown (ht : HwThread id) : HwThread id :=
  { ht with specRegs := ht.specRegs.decrementDeadlineTimers }

/-- The thread once the instruction memory has answered. -/
def receive (ht : HwThread id) (bits : Word) (stall : Bool) : HwThread id :=
  { ht with fetchStalled := stall, inst := ht.inst.setInst bits }

def behavior (instructionMemory : FetchStageIf σ) (ht : HwThread id) (memory : σ) :
    Except Halt (HwThread id × σ) :=
  if ¬ ht.enabled then .ok (ht, memory)
  else if isHeld ht then .ok (countDown ht, memory)
  else do
    let (memory, bits, stall) ← instructionMemory.readInst memory id ht.pc
    let ht := receive (countDown ht) bits stall
    if ht.inst.checkEndSim then throw .endSimulation
    return (ht, memory)

end Fetch

/-- The stages after fetch pass over a thread that is disabled or has no
instruction. -/
def HwThread.isNotValid {id : ThreadId} (ht : HwThread id) : Bool :=
  !ht.enabled || ht.fetchStalled

namespace Decode

variable {id : ThreadId}

def behavior (ht : HwThread id) : HwThread id :=
  if ht.isNotValid then ht else { ht with inst := ht.inst.decode }

end Decode

end PretIss
