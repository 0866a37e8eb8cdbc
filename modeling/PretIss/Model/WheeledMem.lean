import PretIss.Model.Memory

/-! The memory wheel. Time is cut into windows, one for each thread in turn, and
a thread is granted an access only in the first cycles of its own window, while
there is enough of the window left to complete it. The cycle counter is read
through a pointer in the source and is an argument here. An `int` is a word of 32
bits, and its arithmetic wraps. -/

namespace PretIss

inductive AccessorType where
  | burst | global
  deriving DecidableEq, Repr

abbrev maxWords : BitVec 32 := 1

def roundUp (x y : BitVec 32) : BitVec 32 := (x + y - 1).sdiv y * y

/-- `requestedAddr` is the static variable of `is_stalled_helper`. -/
structure WheeledMem where
  latD : BitVec 32
  throughputD : BitVec 32
  memoryWindow : BitVec 32
  accessing : Bool
  remainingCycles : BitVec 32
  requestedAddr : Word
  mem : MemoryUnit

namespace WheeledMem

def createWindow (latD throughputD memoryWindow : BitVec 32) : WheeledMem where
  latD := latD
  throughputD := throughputD
  memoryWindow := memoryWindow
  accessing := false
  remainingCycles := 0
  requestedAddr := 0
  mem := .empty

/-- Without an explicit window, the smallest one that holds the longest access
the program starts. -/
def create (latD throughputD : BitVec 32) : WheeledMem where
  latD := latD
  throughputD := throughputD
  memoryWindow := roundUp (latD + throughputD * (maxWords - 1)) (BitVec.ofNat 32 numThreads) + 1
  accessing := false
  remainingCycles := 0
  requestedAddr := 0
  mem := .empty

def getDelay (w : WheeledMem) (_ : AccessorType) (numWords : BitVec 32) : BitVec 32 :=
  w.latD + w.throughputD * (numWords - 1)

/-- The remainder is of unsigned numbers, and becomes an `int`. -/
def windowCycle (w : WheeledMem) (cycles : BitVec 32) : BitVec 32 :=
  cycles % (w.memoryWindow * BitVec.ofNat 32 numThreads)

/-- The divisions of `current_thread` stop the program if the divisor is zero or the
quotient is no `int`. -/
def divides (w : WheeledMem) (cycles : BitVec 32) : Bool :=
  w.memoryWindow * BitVec.ofNat 32 numThreads != 0 &&
    !(w.memoryWindow == -1 && w.windowCycle cycles == BitVec.intMin 32)

def currentThread (w : WheeledMem) (cycles : BitVec 32) : Int :=
  ((1 + (w.windowCycle cycles).sdiv w.memoryWindow).srem (BitVec.ofNat 32 numThreads)).toInt

/-- The last offset at which an access may start is an `unsigned int`. -/
def isScheduled (w : WheeledMem) (cycles : BitVec 32) (acc : AccessorType) (tid : Int) : Bool :=
  if tid ≠ w.currentThread cycles then false
  else
    let startWindow := w.memoryWindow - w.getDelay acc maxWords
    cycles % w.memoryWindow ≤ startWindow

def isStalledHelper (w : WheeledMem) (cycles : BitVec 32) (acc : AccessorType) (tid : Int)
    (addr : Word) (numWords : BitVec 32) : Except Halt (WheeledMem × Bool) := do
  if ¬ w.divides cycles then throw .arithmeticException
  if tid ≠ w.currentThread cycles ∨ (¬ w.isScheduled cycles acc tid ∧ ¬ w.accessing) then
    if w.accessing then throw .assertionFailed
    return (w, true)
  let w :=
    if ¬ w.accessing then
      { w with remainingCycles := w.getDelay acc numWords, requestedAddr := addr }
    else w
  let w := { w with accessing := w.remainingCycles.sle 0 }
  if w.requestedAddr ≠ addr then throw .assertionFailed
  return (w, w.accessing)

def isStalled (w : WheeledMem) (cycles : BitVec 32) (tid : Int) (addr : Word) :
    Except Halt (WheeledMem × Bool) :=
  w.isStalledHelper cycles .global tid addr 1

def isStalledBurst (w : WheeledMem) (cycles : BitVec 32) (tid : Int) (addr : Word)
    (numWords : BitVec 32) : Except Halt (WheeledMem × Bool) :=
  w.isStalledHelper cycles .burst tid addr numWords

/-- The word is returned even when the access stalls. -/
def read (w : WheeledMem) (cycles : BitVec 32) (tid : Int) (addr : Word) :
    Except Halt (WheeledMem × Word × Bool) := do
  let (w, stalled) ← w.isStalled cycles tid addr
  return (w, w.mem.read addr, stalled)

def write (w : WheeledMem) (cycles : BitVec 32) (tid : Int) (addr data : Word) :
    Except Halt (WheeledMem × Bool) := do
  let (w, stalled) ← w.isStalled cycles tid addr
  if stalled then return (w, stalled)
  return ({ w with mem := w.mem.addAddress addr data }, stalled)

/-- The addresses of a burst. The loop compares with the wrapped end address, so
a burst across the end of the address space transfers nothing. -/
def burstAddrs (startAddr : Word) (numWords : BitVec 32) : List Word :=
  if startAddr < startAddr + 4 * numWords then
    (List.range ((4 * numWords).toNat / 4)).map fun n => startAddr + BitVec.ofNat 32 (4 * n)
  else []

def readBurst (w : WheeledMem) (cycles : BitVec 32) (tid : Int) (startAddr : Word)
    (numWords : BitVec 32) : Except Halt (WheeledMem × List Word × Bool) := do
  let (w, stalled) ← w.isStalledBurst cycles tid startAddr numWords
  return (w, (burstAddrs startAddr numWords).map w.mem.read, stalled)

def behavior (w : WheeledMem) : WheeledMem :=
  if w.remainingCycles ≠ 0 then { w with remainingCycles := w.remainingCycles - 1 } else w

end WheeledMem

end PretIss
