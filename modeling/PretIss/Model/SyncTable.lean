import PretIss.Model.Definitions

/-! The barrier table of the thread controller. A row holds the mask of the
threads that meet at a barrier, the set still waited for, and the number of
threads that have passed since it was released. A row with mask zero is free. -/

namespace PretIss

structure SyncEntry where
  mask : BitVec 16
  waiting : BitVec 16
  passed : BitVec 16
  deriving DecidableEq, Repr

def SyncTable := Fin numThreads → SyncEntry

instance : DecidableEq SyncTable :=
  inferInstanceAs (DecidableEq (Fin numThreads → SyncEntry))

/-- The number of set bits, by the octal digit sums of the source. -/
def bitCount (n : BitVec 32) : Nat :=
  let tmp := n - ((n >>> 1) &&& 0xDB6DB6DB#32) - ((n >>> 2) &&& 0x49249249#32)
  ((tmp + (tmp >>> 3)) &&& 0xC71C71C7#32).toNat % 63

namespace SyncTable

def create : SyncTable := fun _ => ⟨0, 0, 0⟩

def setRow (table : SyncTable) (i : Fin numThreads) (row : SyncEntry) : SyncTable :=
  Function.update table i row

/-- The row once one more thread has passed; the last one frees it. -/
def passRow (row : SyncEntry) : SyncEntry :=
  let row := { row with passed := row.passed + 1 }
  if row.passed.toNat = bitCount (row.mask.setWidth 32) then { row with mask := 0 } else row

/-- The row once a thread has cleared its own bit. -/
def clearRow (row : SyncEntry) (id : ThreadId) : SyncEntry :=
  { row with waiting := row.waiting &&& ~~~((1 : BitVec 16) <<< id.val) }

/-- The scan of `check_sync_table` over the rows that are left, with the first
free row met so far. A full table is indexed with -1. -/
def checkRows (table : SyncTable) (mask : BitVec 16) (id : ThreadId) :
    List (Fin numThreads) → Option (Fin numThreads) → Except Halt (SyncTable × Bool)
  | [], some firstFree => .ok (table.setRow firstFree ⟨mask, mask, 0⟩, false)
  | [], none => .error .outOfBounds
  | i :: rest, firstFree =>
      if (table i).mask = mask then
        if (table i).waiting = 0 then .ok (table.setRow i (passRow (table i)), true)
        else .ok (table.setRow i (clearRow (table i) id), false)
      else if (table i).mask = 0 ∧ firstFree = none then checkRows table mask id rest (some i)
      else checkRows table mask id rest firstFree

def checkSyncTable (table : SyncTable) (mask : BitVec 16) (id : ThreadId) :
    Except Halt (SyncTable × Bool) :=
  checkRows table mask id (List.finRange numThreads) none

end SyncTable

end PretIss
