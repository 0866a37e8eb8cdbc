import PretIss.Model.HwThread
import PretIss.Model.Fetch

/-! The memory stage. An access is made for the aligned word; a store of less than
a word reads the old word first, ignoring whether that read was granted. -/

namespace PretIss

namespace Mem

variable {id : ThreadId} {σ : Type}

def alignedAddr (addr : Word) : Word := 4 * (addr / 4)

def addrOffset (addr : Word) : Nat := (addr % 4).toNat

def load (dataMem : MemStageIf σ) (ht : HwThread id) (memory : σ) :
    Except Halt (HwThread id × σ) := do
  let addr := ht.inst.aluResult
  let (memory, rawData, stall) ← dataMem.readData memory id (alignedAddr addr)
  let ht := { ht with memoryStalled := stall }
  if stall then return (ht, memory)
  return ({ ht with inst := ht.inst.readData rawData (addrOffset addr) }, memory)

def store (dataMem : MemStageIf σ) (ht : HwThread id) (memory : σ) :
    Except Halt (HwThread id × σ) := do
  let addr := ht.inst.aluResult
  let (memory, oldData) ←
    if ht.inst.memorySize ≠ .word then do
      let (memory, oldData, _) ← dataMem.readData memory id (alignedAddr addr)
      pure (memory, oldData)
    else pure (memory, 0xdeadbeef)
  let dataToWrite := ht.inst.getWriteData oldData (addrOffset addr)
  let (memory, stall) ← dataMem.writeData memory id (alignedAddr addr) dataToWrite
  return ({ ht with memoryStalled := stall }, memory)

def behavior (dataMem : MemStageIf σ) (ht : HwThread id) (memory : σ) :
    Except Halt (HwThread id × σ) :=
  if ht.isNotValid then .ok (ht, memory)
  else if ht.inst.readMemory then load dataMem ht memory
  else if ht.inst.writeMemory then store dataMem ht memory
  else .ok (ht, memory)

end Mem

end PretIss
