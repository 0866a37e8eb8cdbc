import PretIss.Barrier.Table
import PretIss.Machine.Architecture

/-! Six sequential machines that share a memory and a barrier table. A step is one
instruction of one of them; nothing is said of when it comes. -/

namespace PretIss.Sparc

open DelayedTransfer (Counters)

def isSync (w : Word) : Bool := arithmeticOp w == some .sync

/-- The threads that meet there. -/
def meeting (w : Word) : BitVec 16 := (simm13 w).setWidth 16

structure Context where
  counters : Counters 32
  regs : RegisterFile
  special : SpecialReg

def State.context (s : State) : Context := ⟨s.counters, s.regs, s.special⟩

structure Machines where
  contexts : ThreadId → Context
  memory : Contents
  table : SyncTable

namespace Machines

variable (x : Machines) (id : ThreadId)

def view : State where
  counters := (x.contexts id).counters
  regs := (x.contexts id).regs
  special := (x.contexts id).special
  memory := x.memory

/-- The machine waits or goes on, as the table says. -/
def meet : Machines :=
  match x.table.checkSyncTable (meeting ((x.view id).word id)) id with
  | .ok (table, true) =>
      let counters := (x.contexts id).counters.next 4 .sequential
      { x with
        table
        contexts := Function.update x.contexts id { x.contexts id with counters } }
  | .ok (table, false) => { x with table }
  | .error _ => x

def step : Machines :=
  if isSync ((x.view id).word id) then x.meet id
  else
    let s := (x.view id).step id
    { x with contexts := Function.update x.contexts id s.context, memory := s.memory }

/-- The machines after the steps of a schedule. -/
def after (schedule : List ThreadId) : Machines := schedule.foldl step x

end Machines

end PretIss.Sparc
