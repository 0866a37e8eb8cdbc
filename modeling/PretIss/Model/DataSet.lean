import PretIss.Library.Dictionary

/-! The data set of the allocation script. It joins the deadline blocks that several tests
missed. -/

namespace PretIss

open Dictionary (Dict)

/-- How often each instruction or each address was used. -/
abbrev Counts := Dict Nat Int

structure DeadlineBlock where
  deadlineValue : Int
  wcExecutionTime : Int
  pcs : Counts
  dataReadAddresses : Counts
  dataWriteAddresses : Counts

/-- The dictionaries of the script hold references to blocks, and a block that two of them
hold is one object. -/
abbrev BlockRef := Nat

/-- The deadline blocks that one test gathered. -/
structure Stats where
  lbreaks : Dict String BlockRef
  loops : Dict String BlockRef

def Stats.refs (t : Stats) : List BlockRef :=
  t.lbreaks.entries.map Sigma.snd ++ t.loops.entries.map Sigma.snd

/-- The results of the tests as they are loaded. Each file holds blocks of its own, and a
loop leaves the sequential blocks of its test when it is put among the loops. -/
structure TestResults where
  tests : Dict String Stats
  blocks : BlockRef → DeadlineBlock
  distinct : (tests.entries.flatMap fun t => t.2.refs).Nodup

inductive ScriptError
  | nameError (name : String)
  deriving DecidableEq

structure DataSet where
  tests : Dict String Stats
  blocks : BlockRef → DeadlineBlock
  joinMissed : Dict String BlockRef
  joinReadDataMissed : Dict String BlockRef
  joinWriteDataMissed : Dict String BlockRef

namespace DataSet

/-- A data set that has loaded its tests. -/
def loadFiles (results : TestResults) : DataSet where
  tests := results.tests
  blocks := results.blocks
  joinMissed := ∅
  joinReadDataMissed := ∅
  joinWriteDataMissed := ∅

def modify (ds : DataSet) (ref : BlockRef) (change : DeadlineBlock → DeadlineBlock) : DataSet :=
  { ds with blocks := Function.update ds.blocks ref (change (ds.blocks ref)) }

/-- One turn of the loops that join the counts of a block with those of a later one. -/
def joinCount (joined : Counts) (key : Nat) (count : Int) : Counts :=
  match joined.lookup key with
  | some old => if old < count then joined.insert key count else joined
  | none => joined

def joinCounts (joined src : Counts) : Counts := src.foldl joinCount joined

def isMissed (dblock : DeadlineBlock) : Prop :=
  dblock.wcExecutionTime > 6 * dblock.deadlineValue

instance (dblock : DeadlineBlock) : Decidable (isMissed dblock) :=
  inferInstanceAs (Decidable (_ > _))

/-- The first part of the joining of the stack variables of a missed block. -/
def joinReadVariables (ds : DataSet) (db : String) (src : BlockRef) : DataSet :=
  match ds.joinReadDataMissed.lookup db with
  | some missed =>
    ds.modify missed fun dblock =>
      { dblock with
        dataReadAddresses :=
          joinCounts dblock.dataReadAddresses (ds.blocks src).dataReadAddresses }
  | none => { ds with joinReadDataMissed := ds.joinReadDataMissed.insert db src }

def joinWriteVariables (ds : DataSet) (db : String) (src : BlockRef) : DataSet :=
  match ds.joinWriteDataMissed.lookup db with
  | some missed =>
    ds.modify missed fun dblock =>
      { dblock with
        dataWriteAddresses :=
          joinCounts dblock.dataWriteAddresses (ds.blocks src).dataWriteAddresses }
  | none => { ds with joinWriteDataMissed := ds.joinWriteDataMissed.insert db src }

def joinStackVariablesMissedDeadlines (ds : DataSet) (db : String) (src : BlockRef) : DataSet :=
  if isMissed (ds.blocks src) then (ds.joinReadVariables db src).joinWriteVariables db src else ds

/-- The message about a count that grows names `extime`, which nothing binds. -/
def printGrown : Except ScriptError Unit := throw (.nameError "extime")

/-- The counts of a sequential block are joined with a message before each change. -/
def joinPc (joined : Counts) (pc : Nat) (count : Int) : Except ScriptError Counts :=
  match joined.lookup pc with
  | some old =>
    if old < count then do
      printGrown
      pure (joined.insert pc count)
    else pure joined
  | none => pure joined

def joinPcs (joined src : Counts) : Except ScriptError Counts :=
  src.entries.foldlM (fun joined e => joinPc joined e.1 e.2) joined

/-- A block that was missed is stored at its first miss, and its instructions are joined
with those of the stored block at a later one. -/
def joinInstructions (ds : DataSet) (join : Counts → Counts → Except ScriptError Counts)
    (db : String) (ref : BlockRef) : Except ScriptError DataSet := do
  let dblock := ds.blocks ref
  if isMissed dblock then
    match ds.joinMissed.lookup db with
    | some missed =>
      let missedDblock := ds.blocks missed
      let joinedPcs ← join missedDblock.pcs dblock.pcs
      let ds := ds.modify missed fun dblock => { dblock with pcs := joinedPcs }
      if missedDblock.wcExecutionTime > dblock.wcExecutionTime then
        pure <| ds.modify ref fun dblock =>
          { dblock with wcExecutionTime := missedDblock.wcExecutionTime }
      else pure ds
    | none => pure { ds with joinMissed := ds.joinMissed.insert db ref }
  else pure ds

/-- One turn of the loops over the blocks of a test. They differ in how they join the
instructions of a block that was missed before. -/
def joinDblock (join : Counts → Counts → Except ScriptError Counts) (ds : DataSet)
    (db : String) (ref : BlockRef) : Except ScriptError DataSet :=
  (ds.joinStackVariablesMissedDeadlines db ref).joinInstructions join db ref

def joinLbreak := joinDblock joinPcs

def joinLoop := joinDblock fun joined src => pure (joinCounts joined src)

def joinTest (ds : DataSet) (t : Stats) : Except ScriptError DataSet := do
  let ds ← t.lbreaks.entries.foldlM (fun ds e => ds.joinLbreak e.1 e.2) ds
  t.loops.entries.foldlM (fun ds e => ds.joinLoop e.1 e.2) ds

def joinMissedDeadlines (ds : DataSet) : Except ScriptError DataSet :=
  ds.tests.entries.foldlM (fun ds t => ds.joinTest t.2) ds

end DataSet

end PretIss
