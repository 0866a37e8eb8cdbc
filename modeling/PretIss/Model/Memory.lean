import PretIss.Model.Definitions

/-! The memories behind the memory controller: the map from addresses to words,
the scratchpads, the memory-mapped registers and the main memory, whose grants
the wheel schedules. A location that reads returns the word together with the
`stalled` flag that the source passes by reference. -/

namespace PretIss

/-- The map of a memory unit. -/
def MemoryUnit := Word → Option Word

namespace MemoryUnit

def empty : MemoryUnit := fun _ => none

def hasAddress (m : MemoryUnit) (addr : Word) : Bool := (m addr).isSome

/-- An absent address reads as zero and stays absent. -/
def read (m : MemoryUnit) (addr : Word) : Word := (m addr).getD 0

def addAddress (m : MemoryUnit) (addr data : Word) : MemoryUnit :=
  Function.update m addr (some data)

def removeAddress (m : MemoryUnit) (addr : Word) : MemoryUnit :=
  Function.update m addr none

theorem addAddress_apply (m : MemoryUnit) (addr data other : Word) :
    m.addAddress addr data other = if other = addr then some data else m other :=
  Function.update_apply m addr (some data) other

theorem removeAddress_apply (m : MemoryUnit) (addr other : Word) :
    m.removeAddress addr other = if other = addr then none else m other :=
  Function.update_apply m addr none other

end MemoryUnit

/-- A scratchpad holds words under their main-memory addresses and remembers
which address each of its slots holds. -/
structure L1Scratch where
  mem : MemoryUnit
  mainMemoryAddress : Fin (scratchSize / 4) → Word

namespace L1Scratch

def create : L1Scratch where
  mem := .empty
  mainMemoryAddress := fun _ => 0

def isAddrInSpm (spm : L1Scratch) (memAddr : Word) : Bool :=
  if memAddr = 0 then false else spm.mem.hasAddress memAddr

/-- Scratchpads never stall. -/
def read (spm : L1Scratch) (memAddr : Word) : Word × Bool := (spm.mem.read memAddr, false)

def write (spm : L1Scratch) (memAddr data : Word) : L1Scratch × Bool :=
  ({ spm with mem := spm.mem.addAddress memAddr data }, false)

/-- The update of an address that is not in the scratchpad is reported and ignored. -/
def updateAddr (spm : L1Scratch) (memAddr inst : Word) : L1Scratch :=
  if spm.isAddrInSpm memAddr then { spm with mem := spm.mem.addAddress memAddr inst } else spm

def inSpmRange (spmAddr : Word) : Bool := spmAddr % 4 == 0 && spmAddr < scratchSize

theorem slot_lt (spmAddr : Word) : spmAddr.toNat / 4 % (scratchSize / 4) < scratchSize / 4 :=
  Nat.mod_lt _ (by decide)

/-- The slot's old word is removed before the new one is stored; a request for a
slot outside the scratchpad is reported and ignored. -/
def addAddr (spm : L1Scratch) (memAddr spmAddr data : Word) : L1Scratch :=
  if inSpmRange spmAddr then
    let slot : Fin (scratchSize / 4) := ⟨spmAddr.toNat / 4 % (scratchSize / 4), slot_lt spmAddr⟩
    let oldMemAddr := spm.mainMemoryAddress slot
    { mem := (spm.mem.removeAddress oldMemAddr).addAddress memAddr data
      mainMemoryAddress := Function.update spm.mainMemoryAddress slot memAddr }
  else spm

end L1Scratch

/-- The memory-mapped registers are a memory that grants every access. -/
structure MemMappedIo where
  mem : MemoryUnit

namespace MemMappedIo

def create : MemMappedIo where
  mem := MemoryUnit.empty.addAddress 0x80000104 6

def isStalled (_ : MemMappedIo) : Bool := false

def read (io : MemMappedIo) (addr : Word) : Word × Bool := (io.mem.read addr, io.isStalled)

def write (io : MemMappedIo) (addr data : Word) : MemMappedIo × Bool :=
  if io.isStalled then (io, true)
  else ({ io with mem := io.mem.addAddress addr data }, false)

end MemMappedIo

end PretIss
