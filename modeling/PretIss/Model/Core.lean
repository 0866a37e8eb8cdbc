import PretIss.Model.Regacc
import PretIss.Model.Execute
import PretIss.Model.Mem
import PretIss.Model.ExceptStage

/-! The core: six threads in a six-stage pipeline over one memory controller, one
DMA engine and one barrier table. One call of `behavior` runs the stages from the
last to the first, so each latch is read before it is written. A latch holds a
pointer to the thread, and all stages work on the thread in the pool. -/

namespace PretIss

structure Core where
  cycles : BitVec 32
  tcount : BitVec 32
  pool : (id : ThreadId) → HwThread id
  syncTable : SyncTable
  dma : Dma
  memoryController : MemoryController
  poolToF : Option ThreadId
  fToD : Option ThreadId
  dToRa : Option ThreadId
  raToEx : Option ThreadId
  exToMem : Option ThreadId
  memToExcept : Option ThreadId

/-- The calls of `behavior` in their order, and the tick of the PLL clock. -/
inductive Phase where
  | exceptStage | memoryController | dmaController | memoryStage | executeStage | regaccStage
  | decodeStage | fetchStage | threadController | cycleCounter | pll
  deriving DecidableEq, Repr

namespace Core

/-- A core whose threads, scratchpads and memories a program has been loaded
into: the latches are empty and the counters at zero. -/
def create (pool : (id : ThreadId) → HwThread id) (memoryController : MemoryController) :
    Core where
  cycles := 0
  tcount := 0
  pool := pool
  syncTable := .create
  dma := .create
  memoryController := memoryController
  poolToF := none
  fToD := none
  dToRa := none
  raToEx := none
  exToMem := none
  memToExcept := none

def setThread (c : Core) (id : ThreadId) (ht : HwThread id) : Core :=
  { c with pool := Function.update c.pool id ht }

def exceptStage (c : Core) : Except Halt Core :=
  match c.memToExcept with
  | none => .ok c
  | some id => do
      let (ht, syncTable, dma) ← ExceptStage.behavior (c.pool id) c.syncTable c.dma
      return { c.setThread id ht with syncTable, dma }

def dmaController (c : Core) : Except Halt Core := do
  let (dma, memoryController) ← Dma.behavior c.cycles c.dma c.memoryController
  return { c with dma, memoryController }

def memoryStage (c : Core) : Except Halt Core :=
  match c.exToMem with
  | none => .ok { c with memToExcept := c.exToMem }
  | some id => do
      let (ht, memoryController) ←
        Mem.behavior (MemoryController.memStageIf c.cycles) (c.pool id) c.memoryController
      return { c.setThread id ht with memoryController, memToExcept := c.exToMem }

def executeStage (c : Core) : Core :=
  match c.raToEx with
  | none => { c with exToMem := c.raToEx }
  | some id => { c.setThread id (Execute.behavior (c.pool id)) with exToMem := c.raToEx }

def regaccStage (c : Core) : Except Halt Core :=
  match c.dToRa with
  | none => .ok { c with raToEx := c.dToRa }
  | some id => do
      let ht ← Regacc.behavior (c.pool id)
      return { c.setThread id ht with raToEx := c.dToRa }

def decodeStage (c : Core) : Core :=
  match c.fToD with
  | none => { c with dToRa := c.fToD }
  | some id => { c.setThread id (Decode.behavior (c.pool id)) with dToRa := c.fToD }

def fetchStage (c : Core) : Except Halt Core :=
  match c.poolToF with
  | none => .ok { c with fToD := c.poolToF }
  | some id => do
      let (ht, memoryController) ←
        Fetch.behavior (MemoryController.fetchStageIf c.cycles) (c.pool id) c.memoryController
      return { c.setThread id ht with memoryController, fToD := c.poolToF }

/-- The thread that a count selects. -/
def scheduled (tcount : BitVec 32) : ThreadId :=
  ⟨tcount.toNat % max numThreads 6, Nat.mod_lt _ (by decide)⟩

def threadController (c : Core) : Core :=
  { c with poolToF := some (scheduled c.tcount), tcount := c.tcount + 1 }

def pllBehavior (c : Core) : Core :=
  { c with
    pool := fun id =>
      { c.pool id with specRegs := (c.pool id).specRegs.decrementPllTimers } }

def step : Phase → Core → Except Halt Core
  | .exceptStage, c => exceptStage c
  | .memoryController, c => .ok { c with memoryController := c.memoryController.behavior }
  | .dmaController, c => dmaController c
  | .memoryStage, c => memoryStage c
  | .executeStage, c => .ok (executeStage c)
  | .regaccStage, c => regaccStage c
  | .decodeStage, c => .ok (decodeStage c)
  | .fetchStage, c => fetchStage c
  | .threadController, c => .ok (threadController c)
  | .cycleCounter, c => .ok { c with cycles := c.cycles + 1 }
  | .pll, c => .ok (pllBehavior c)

/-- One call of `behavior`. -/
def phases : List Phase :=
  [.exceptStage, .memoryController, .dmaController, .memoryStage, .executeStage, .regaccStage,
    .decodeStage, .fetchStage, .threadController, .cycleCounter]

def behavior (c : Core) : Except Halt Core := Transition.run step phases c

end Core

end PretIss
