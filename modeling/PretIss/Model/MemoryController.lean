import PretIss.Model.WheeledMem

/-! The memory controller sends an access to the scratchpad of the thread when
the scratchpad holds the address, and otherwise to the wheel or to the mapped
registers. The fetch and memory stages see it through two interfaces. -/

namespace PretIss

/-- The port of the fetch stage: a word and whether the read stalled. -/
structure FetchStageIf (σ : Type) where
  readInst : σ → ThreadId → Word → Except Halt (σ × Word × Bool)

/-- The port of the memory stage. -/
structure MemStageIf (σ : Type) where
  readData : σ → ThreadId → Word → Except Halt (σ × Word × Bool)
  writeData : σ → ThreadId → Word → Word → Except Halt (σ × Bool)

structure MemoryController where
  instScratchpad : ThreadId → L1Scratch
  mainMem : WheeledMem
  memMappedIo : MemMappedIo

namespace MemoryController

/-- The controller as it is set up, before a program is loaded. -/
def create : MemoryController where
  instScratchpad := fun _ => .create
  mainMem := .create (memDelay - 1) burstDelay
  memMappedIo := .create

/-- The test by which `get_main_mem_loc` picks the main memory. -/
def isMainMem (addr : Word) : Bool := addr < 0x80000000

def isAddrInSpm (mc : MemoryController) (tid : ThreadId) (addr : Word) : Bool :=
  (mc.instScratchpad tid).isAddrInSpm addr

def readData (cycles : BitVec 32) (mc : MemoryController) (tid : ThreadId) (addr : Word) :
    Except Halt (MemoryController × Word × Bool) :=
  if mc.isAddrInSpm tid addr then
    .ok (mc, (mc.instScratchpad tid).read addr)
  else if isMainMem addr then do
    let (mainMem, data, stalled) ← mc.mainMem.read cycles tid.val addr
    return ({ mc with mainMem }, data, stalled)
  else
    .ok (mc, mc.memMappedIo.read addr)

/-- Disabled threads read no-ops everywhere. -/
def readInst (cycles : BitVec 32) (mc : MemoryController) (tid : ThreadId) (addr : Word) :
    Except Halt (MemoryController × Word × Bool) :=
  if maxThread ≤ tid.val then .ok (mc, 0x01000000, false)
  else mc.readData cycles tid addr

def writeData (cycles : BitVec 32) (mc : MemoryController) (tid : ThreadId) (addr data : Word) :
    Except Halt (MemoryController × Bool) :=
  if mc.isAddrInSpm tid addr then
    let (spm, stalled) := (mc.instScratchpad tid).write addr data
    .ok ({ mc with instScratchpad := Function.update mc.instScratchpad tid spm }, stalled)
  else if isMainMem addr then do
    let (mainMem, stalled) ← mc.mainMem.write cycles tid.val addr data
    return ({ mc with mainMem }, stalled)
  else
    let (memMappedIo, stalled) := mc.memMappedIo.write addr data
    .ok ({ mc with memMappedIo }, stalled)

/-- The controller as the fetch stage sees it in one cycle. -/
def fetchStageIf (cycles : BitVec 32) : FetchStageIf MemoryController where
  readInst := readInst cycles

/-- The controller as the memory stage sees it in one cycle. -/
def memStageIf (cycles : BitVec 32) : MemStageIf MemoryController where
  readData := readData cycles
  writeData := writeData cycles

def behavior (mc : MemoryController) : MemoryController :=
  { mc with mainMem := mc.mainMem.behavior }

end MemoryController

end PretIss
