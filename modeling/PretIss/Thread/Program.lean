import PretIss.Thread.Outcome

/-! Rounds of a thread that runs a program alone, with memories that answer at once
unless a fetch is made to stall. Runs of such rounds can be evaluated. -/

namespace PretIss

/-- A round of a program, for the barrier table that the thread finds. -/
def Round.ofProgram (program : Word → Word) (fetchStalls : Bool) (syncTable : SyncTable) :
    Round Unit where
  instructionMemory := { readInst := fun memory _ pc => .ok (memory, program pc, fetchStalls) }
  dataMem :=
    { readData := fun memory _ _ => .ok (memory, 0, false)
      writeData := fun memory _ _ _ => .ok (memory, false) }
  fetchMemory := ()
  memory := ()
  syncTable := syncTable
  dma := .create
  ticks := fun _ => 0

/-- The word of a deadline instruction that loads a constant. The lowest bits of the
mode force the load and arm the timer. -/
def deadWord (timer mode : BitVec 5) (value : BitVec 13) : Word :=
  3#2 ++ timer ++ 0x2C#6 ++ mode ++ 1#1 ++ value

def nopWord : Word := 0x01000000

namespace History

variable {id : ThreadId} {σ : Type}

def check (start : HwThread id) (test : Nat → (Nat → Pass id σ) → Bool)
    (rounds : List (Round σ)) : Bool :=
  match Timeline.record Round.pass Pass.finished rounds start with
  | .ok (first :: later) => test (later.length + 1) fun n => (first :: later).getD n first
  | _ => false

theorem exists_of_check (start : HwThread id) (test : Nat → (Nat → Pass id σ) → Bool)
    (rounds : List (Round σ)) (passed : check start test rounds = true) :
    ∃ h : History id σ, (h.entry 0).start = start ∧ test h.length h.entry = true := by
  unfold check at passed
  split at passed
  · rename_i first later returns
    refine ⟨ofPasses returns, ?_, passed⟩
    exact (Timeline.record_linked Pass.start
      (fun _ _ _ runs => (Round.pass_eq_ok.mp runs).2.1) returns first).2.2 (by simp)
  · cases passed

end History

namespace Run

variable {id : ThreadId} {σ : Type}

def check (test : Nat → (Nat → Pass id σ) → Bool) (rounds : List (Round σ)) : Bool :=
  match passes 0 (fun _ => 0) rounds with
  | .ok (first :: later) => test (later.length + 1) fun n => (first :: later).getD n first
  | _ => false

theorem exists_of_check (test : Nat → (Nat → Pass id σ) → Bool) (rounds : List (Round σ))
    (passed : check test rounds = true) :
    ∃ run : Run id σ, test run.length run.entry = true := by
  unfold check at passed
  split at passed
  · rename_i first later returns
    exact ⟨ofPasses 0 (fun _ => 0) returns, passed⟩
  · cases passed

end Run

end PretIss
