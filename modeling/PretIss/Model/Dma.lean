import PretIss.Library.Transition
import PretIss.Model.MemoryController

/-! The blocking DMA engine. A thread requests a transfer of four words from main
memory into its scratchpad; every cycle the engine tries the pending transfers in
the order of the threads. -/

namespace PretIss

structure Dma where
  memSourceReg : ThreadId → Word
  spmTargetReg : ThreadId → Word
  transferComplete : ThreadId → TransferState

namespace Dma

def create : Dma where
  memSourceReg := fun _ => 0
  spmTargetReg := fun _ => 0
  transferComplete := fun _ => .idle

def setMemSource (d : Dma) (id : ThreadId) (source : Word) : Dma :=
  { d with memSourceReg := Function.update d.memSourceReg id source }

def setSpmTarget (d : Dma) (id : ThreadId) (target : Word) : Dma :=
  { d with spmTargetReg := Function.update d.spmTargetReg id target }

def setTransferState (d : Dma) (id : ThreadId) (state : TransferState) : Dma :=
  { d with transferComplete := Function.update d.transferComplete id state }

def makeTransfer (d : Dma) (id : ThreadId) : Dma := d.setTransferState id .busy

/-- The words received, moved into consecutive slots of the scratchpad. -/
def moveData (spm : L1Scratch) (source target : Word) (data : List Word) : L1Scratch :=
  data.zipIdx.foldl
    (fun spm word => spm.addAddr (source + BitVec.ofNat 32 (word.2 * 4))
      (target + BitVec.ofNat 32 (word.2 * 4)) word.1)
    spm

/-- One turn of the loop of `behavior`. -/
def serve (cycles : BitVec 32) (d : Dma) (mc : MemoryController) (id : ThreadId) :
    Except Halt (Dma × MemoryController) := do
  if d.transferComplete id ≠ .busy then return (d, mc)
  let source := d.memSourceReg id
  let (mainMem, data, stalled) ← mc.mainMem.readBurst cycles id.val source 4
  let mc := { mc with mainMem }
  if stalled then return (d, mc)
  let spm := moveData (mc.instScratchpad id) source (d.spmTargetReg id) data
  return (d.setTransferState id .idle,
    { mc with instScratchpad := Function.update mc.instScratchpad id spm })

def behavior (cycles : BitVec 32) (d : Dma) (mc : MemoryController) :
    Except Halt (Dma × MemoryController) :=
  Transition.run (fun id (s : Dma × MemoryController) => serve cycles s.1 s.2 id)
    (List.finRange numThreads) (d, mc)

end Dma

end PretIss
