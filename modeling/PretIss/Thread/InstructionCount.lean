import PretIss.Barrier.Accounting
import PretIss.DoubleWord.Underway
import PretIss.Thread.Counters

/-! The instruction counter. It counts the passes in which an instruction gets to the end of
the pipeline, not those in which it is done: an instruction that waits at its barrier, the
first half of a double word, and an instruction that a trap squashes are counted as well. -/

namespace PretIss

open ExceptStage (reachesCommit squashes counters)

variable {id : ThreadId} {σ : Type}

namespace Pass

def awaitsBarrier (p : Pass id σ) : Bool := p.consults && !p.passesBarrier

/-- The instruction is done, and the program counter moves past it. -/
def isDone (p : Pass id σ) : Bool := p.completes && !p.awaitsBarrier

/-- The instruction gets to the end of the pipeline although it is not done: a trap squashes
it, its second half is to come, or it waits at its barrier. -/
def Overcounts (p : Pass id σ) : Prop :=
  reachesCommit p.arrived = true ∧
    (squashes p.arrived = true ∨ (ExceptStage.arrive p.arrived).dbWordStalled = true ∨
      p.awaitsBarrier = true)

variable {p : Pass id σ}

theorem reaches_of_isDone (done : p.isDone = true) : reachesCommit p.arrived = true := by
  simp only [isDone, completes, commits, Bool.and_eq_true] at done
  exact done.1.1.1

theorem overcounts_iff :
    p.Overcounts ↔ ¬ (reachesCommit p.arrived = true → p.isDone = true) := by
  simp only [Overcounts, isDone, completes, commits, Classical.not_imp, Bool.not_eq_true,
    Bool.and_eq_false_iff, Bool.not_eq_false']
  constructor
  · rintro ⟨reaches, squashed | half | waits⟩
    · exact ⟨reaches, Or.inl (Or.inl (Or.inr squashed))⟩
    · exact ⟨reaches, Or.inl (Or.inr half)⟩
    · exact ⟨reaches, Or.inr waits⟩
  · rintro ⟨reaches, ((never | squashed) | half) | waits⟩
    · rw [reaches] at never
      cases never
    · exact ⟨reaches, Or.inl squashed⟩
    · exact ⟨reaches, Or.inr (Or.inl half)⟩
    · exact ⟨reaches, Or.inr (Or.inr waits)⟩

end Pass

namespace History

/-- In every run, the counter counts exactly the instructions that are done if and only if no
instruction that is not done gets to the end of the pipeline. -/
theorem counts_done_iff (h : History id σ) :
    (∀ n, n < h.length → (h.entry n).finished.cntInstr = (h.entry 0).start.cntInstr +
        BitVec.ofNat 32 (Nat.count (fun m => (h.entry m).isDone = true) (n + 1))) ↔
      ∀ n, n < h.length → ¬ (h.entry n).Overcounts := by
  have positive : NeZero (1 : BitVec 32) := ⟨by decide⟩
  simp only [Pass.overcounts_iff, not_not]
  let grows (p : Pass id σ) : Bool := reachesCommit p.arrived
  have counted : ∀ n, n < h.length → (h.entry n).isDone = true → grows (h.entry n) = true :=
    fun _ _ => Pass.reaches_of_isDone
  exact h.counts_iff HwThread.cntInstr counted fun n bound => (h.valid n bound).cntInstr_finished

end History

namespace Run

def loadsTwice : List (Round Unit) :=
  let round := Round.ofProgram (fun pc =>
    if pc = 0 then 3#2 ++ 2#5 ++ 0x03#6 ++ 0#5 ++ 1#1 ++ 0#13 else nopWord) false .create
  [round, round]

theorem loads_twice_counts :
    ∃ run : Run 0 Unit, run.length = 2 ∧ (run.entry 1).finished.pc = 4 ∧
      (run.entry 1).finished.cntInstr ≠ (run.entry 0).start.cntInstr +
        BitVec.ofNat 32 (Nat.count (fun m => (run.entry m).isDone = true) 2) := by
  obtain ⟨run, holds⟩ := Run.exists_of_check
    (fun length (entry : Nat → Pass 0 Unit) =>
      length == 2 && (entry 1).finished.pc == 4 &&
        decide ((entry 1).finished.cntInstr ≠ (entry 0).start.cntInstr +
          BitVec.ofNat 32 (Nat.count (fun m => (entry m).isDone = true) 2)))
    loadsTwice (by decide +kernel)
  simp only [Bool.and_eq_true, beq_iff_eq, decide_eq_true_eq] at holds
  obtain ⟨⟨length, pc⟩, differs⟩ := holds
  exact ⟨run, length, pc, differs⟩

end Run

end PretIss
