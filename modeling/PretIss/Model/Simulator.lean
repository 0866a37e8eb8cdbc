import PretIss.Model.Core
import PretIss.Model.SrecParser
import PretIss.Model.StaticBoundParser

/-! The simulator around the core: the files of a program that it loads into the memories and
the threads, and the loop that runs the core and the PLL on the ticks of two clocks. -/

namespace PretIss

/-- The clock that stands for the one of SystemC. -/
structure PretClock where
  count : BitVec 32
  period : BitVec 32

namespace PretClock

def create (period : BitVec 32) : PretClock where
  count := 0
  period := period

def getTick (clock : PretClock) : Bool := clock.count % clock.period == 0

def tick (clock : PretClock) : PretClock := { clock with count := (clock.count + 1) % clock.period }

end PretClock

/-- The files of a thread; one that is not there is `none`. -/
structure ThreadFiles where
  srec : Option (List Char)
  ispm : Option (List Char)
  dspm : Option (List Char)

@[ext]
structure Simulator where
  clock : PretClock
  pllClock : PretClock
  core : Core

namespace Simulator

/-- The threads as the controller creates them, for window registers that nothing has
initialised. -/
def bareThreads (windowReg : ThreadId → Fin (16 * registerWindows) → Word) :
    (id : ThreadId) → HwThread id := fun id =>
  { HwThread.create id 0x40000000 (windowReg id) with enabled := true }

/-- The last word of the region of a thread. -/
def stackTop (id : ThreadId) : Word :=
  0x40000000 + 0x100000 * BitVec.ofNat 32 (id.val + 1) - 4

/-- What the loop over the threads works on. The parser points to the main memory, which is in
the controller too. -/
structure Loading where
  startingAddr : Word
  memoryController : MemoryController
  pool : (id : ThreadId) → HwThread id

def Loading.parser (s : Loading) : SrecParser where
  mem := s.memoryController.mainMem.mem
  startingAddr := s.startingAddr

/-- Both stack registers get the top of the stack, in window 0. -/
def startThread {id : ThreadId} (ht : HwThread id) (startingAddr : Word) : HwThread id :=
  { ht with
    regs := (ht.regs.setReg 30 (stackTop id) 0).setReg 14 (stackTop id) 0
    pc := startingAddr }

/-- One turn of the loop over the threads. -/
def parseThread (files : ThreadId → ThreadFiles) (id : ThreadId) (s : Loading) :
    Except Halt Loading := do
  let (parser, startingAddr) ← s.parser.parse (files id).srec
  let memoryController :=
    { s.memoryController with mainMem := { s.memoryController.mainMem with mem := parser.mem } }
  let memoryController := StaticBoundParser.loadInstSpm memoryController id (files id).ispm
  let memoryController := StaticBoundParser.loadDataSpm memoryController id (files id).dspm
  return {
    startingAddr := parser.startingAddr
    memoryController
    pool := Function.update s.pool id (startThread (s.pool id) startingAddr) }

def parseSrecFiles (files : ThreadId → ThreadFiles) (s : Loading) : Except Halt Loading :=
  Transition.run (parseThread files) (List.finRange numThreads) s

/-- The simulator with the programs of these files. -/
def create (files : ThreadId → ThreadFiles)
    (windowReg : ThreadId → Fin (16 * registerWindows) → Word) : Except Halt Simulator := do
  let loaded ← parseSrecFiles files
    { startingAddr := 0x40000000, memoryController := .create, pool := bareThreads windowReg }
  return {
    clock := .create 5
    pllClock := .create 1
    core := .create loaded.pool loaded.memoryController }

/-- One turn of the loop of `run`. -/
def advance (s : Simulator) : Except Halt Simulator := do
  let clock := s.clock.tick
  let pllClock := s.pllClock.tick
  let core ← (if clock.getTick then s.core.behavior else .ok s.core)
  let core := if pllClock.getTick then core.pllBehavior else core
  return { clock, pllClock, core }

def advances : Nat → Simulator → Except Halt Simulator
  | 0, s => .ok s
  | n + 1, s => do
      let s ← advance s
      advances n s

/-- A number of cycles after which the loop of `run` ends. With -1 it does not. -/
abbrev CycleCount := { cycleCount : Int // cycleCount ≠ -1 }

/-- A run of so many cycles of the faster clock, none for a negative number. -/
def run (cycleCount : CycleCount) (s : Simulator) : Except Halt Simulator :=
  advances cycleCount.val.toNat s

end Simulator

end PretIss
