import PretIss.Library.Transition
import PretIss.Barrier.Table

/-! The threads as callers of the barrier table. A thread arrives with the first
of a series of equal calls, repeats the call until it returns true, and has then
passed. -/

namespace PretIss.Barrier

/-- The table with what its callers have done so far. -/
structure Callers where
  table : SyncTable
  pending : ThreadId → Option (BitVec 16)
  arrivals : ThreadId → Nat
  passes : ThreadId → Nat

structure Call where
  id : ThreadId
  mask : BitVec 16
  deriving DecidableEq, Repr

namespace Callers

def create : Callers where
  table := .create
  pending := fun _ => none
  arrivals := fun _ => 0
  passes := fun _ => 0

def isArrival (s : Callers) (id : ThreadId) : Bool := (s.pending id).isNone

/-- The callers once the table has answered. -/
def answered (s : Callers) (call : Call) (table : SyncTable) (answer : Bool) : Callers where
  table := table
  pending := Function.update s.pending call.id (if answer then none else some call.mask)
  arrivals :=
    Function.update s.arrivals call.id
      (if s.isArrival call.id then s.arrivals call.id + 1 else s.arrivals call.id)
  passes :=
    Function.update s.passes call.id
      (if answer then s.passes call.id + 1 else s.passes call.id)

def step (call : Call) (s : Callers) : Except Halt Callers := do
  let (table, answer) ← s.table.checkSyncTable call.mask call.id
  return s.answered call table answer

theorem step_eq_ok {call : Call} {s s' : Callers} :
    step call s = .ok s' ↔
      ∃ table answer, s.table.checkSyncTable call.mask call.id = .ok (table, answer) ∧
        s' = s.answered call table answer := by
  simp only [step, Transition.bind_eq_ok, Prod.exists, pure, Except.pure, Except.ok.injEq]
  constructor
  · rintro ⟨table, answer, returns, rfl⟩
    exact ⟨table, answer, returns, rfl⟩
  · rintro ⟨table, answer, returns, rfl⟩
    exact ⟨table, answer, returns, rfl⟩

end Callers

end PretIss.Barrier
