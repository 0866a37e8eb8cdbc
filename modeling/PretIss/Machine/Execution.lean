import Mathlib.Order.Monotone.Basic
import PretIss.Machine.Follow

/-! Every thread of a core executes its program as the sequential machine does, and in the
passes that the machine with its time says, whatever the other threads do. -/

namespace PretIss

open Isolation (SameContents)
open Sparc (State Ordinary memoryOp)
open Sparc.State (Same Admissible)

namespace Core.History

variable {t : ThreadId} {words : Set Location}

section

variable {h : History} {m k : Nat}

theorem Follows.succ {run : Run t MemoryController} (follows : h.Follows t words m k)
    (secluded : h.Private t words) (passes : h.Passes run) (complete : m < run.length)
    (admissible : Admissible t words (h.timed t k).state) :
    h.Follows t words (m + 1) k ∨ h.Follows t words (m + 1) (k + 1) := by
  cases runs : (run.entry m).runs with
  | false => exact Or.inl (follows.absent secluded passes complete runs)
  | true =>
      have given := follows.given secluded passes complete admissible runs
      by_cases access : IsAccess (run.entry m).word
      · exact follows.access secluded passes complete admissible given access
      · exact Or.inr (follows.quiet secluded passes complete admissible given access)

variable {pc : Word} {windowReg : Fin (16 * registerWindows) → Word}
  (reset : (h.state 0).pool t = .reset t pc windowReg) (secluded : h.Private t words)

include reset secluded

theorem follows_zero (bound : fetchCall t 0 ≤ h.length) : h.Follows t words 0 0 := by
  have early : ∀ n, n ≤ t.val + 1 → (h.state n).held t = none ∧
      SameContents t words (h.contents 0) (h.contents n) := by
    intro n
    induction n with
    | zero =>
        obtain ⟨pool, memoryController, start⟩ := h.reset
        refine fun _ => ⟨?_, SameContents.refl _⟩
        rw [start]
        rfl
    | succ n ih =>
        intro near
        have inside : n < h.length := by
          unfold fetchCall at bound
          omega
        obtain ⟨idle, same⟩ := ih (by omega)
        have nowhere := h.nowhere secluded.short (show n ≤ t.val by omega) inside.le
        obtain ⟨engine, next⟩ := secluded.idle_succ inside idle (nowhere 5)
        exact ⟨next, same.trans (secluded.call inside engine (nowhere 4))⟩
  obtain ⟨idle, same⟩ := early (fetchCall t 0) le_rfl
  have pool : (h.state (fetchCall t 0)).pool t = .reset t pc windowReg :=
    h.reset_until_fetch secluded.short reset le_rfl bound
  refine ⟨?_, idle, ?_, le_rfl, le_rfl, ?_, Or.inl ⟨?_, rfl⟩⟩
  · rw [pool]
    exact HwThread.steady_reset pc windowReg
  · rw [pool]
    rfl
  · rw [pool, timed, reset]
    exact Sparc.same_stateOf _ same.symm
  · rw [pool]
    rfl

/-- What is asked of the instructions that are due in the passes of a history. -/
def Admits (h : History) (t : ThreadId) (words : Set Location) : Prop :=
  ∀ k, (h.timed t k).pass < h.rounds t → Admissible t words (h.timed t k).state

theorem exists_follows (program : h.Admits t words) (bound : fetchCall t m ≤ h.length) :
    ∃ k, h.Follows t words m k := by
  induction m with
  | zero => exact ⟨0, follows_zero reset secluded bound⟩
  | succ m ih =>
      have complete : m < h.rounds t := by
        unfold fetchCall at bound
        unfold rounds
        omega
      obtain ⟨k, follows⟩ := ih (by unfold fetchCall at bound ⊢; omega)
      obtain ⟨run, length, makes⟩ := h.exists_run secluded.short reset (by omega)
      obtain stays | steps := follows.succ secluded ⟨secluded.short, length, makes⟩
        (length ▸ complete) (program k (follows.since.trans_lt complete))
      · exact ⟨k, stays⟩
      · exact ⟨k + 1, steps⟩

end

/-- The instructions that a thread has committed by a pass. -/
def committed (h : History) (t : ThreadId) (m : Nat) : Nat :=
  ((h.state (fetchCall t m)).pool t).cntInstr.toNat

theorem timed_strictMono (h : History) (t : ThreadId) : StrictMono fun k => (h.timed t k).pass := by
  apply strictMono_nat_of_lt_succ
  intro k
  rw [timed_succ]
  exact Sparc.Timed.pass_lt_next t _

theorem Follows.committed_eq {h : History} {m k : Nat} (follows : h.Follows t words m k)
    (short : m < 2 ^ 32) : h.committed t m = k := by
  rw [committed, follows.counts, BitVec.toNat_ofNat]
  exact Nat.mod_eq_of_lt (follows.few.trans_lt short)

theorem Follows.le_iff {h : History} {m k : Nat} (follows : h.Follows t words m k) (j : Nat) :
    j ≤ k ↔ (h.timed t j).pass ≤ m := by
  have early : m < (h.timed t (k + 1)).pass := by
    have fetched : (h.timed t k).state.fetched t m = m + _ := rfl
    have done := (h.timed t k).state.le_completed t (h.timed t k).pass
    have next : (h.timed t (k + 1)).pass =
        (h.timed t k).state.completed t (h.timed t k).pass + 1 := by
      rw [timed_succ]
      rfl
    obtain ⟨_, due⟩ | ⟨_, keeps⟩ := follows.due
    · omega
    · have served := keeps.served
      omega
  have mono := h.timed_strictMono t
  constructor
  · intro less
    exact (mono.monotone less).trans follows.since
  · intro reached
    by_contra more
    have later := mono.monotone (show k + 1 ≤ j by omega)
    exact absurd (early.trans_le (later.trans reached)) (lt_irrefl m)

section

variable (h : History) (t : ThreadId) (pc : Word) (windowReg : Fin (16 * registerWindows) → Word)
  (words : Set Location) (reset : (h.state 0).pool t = .reset t pc windowReg)
  (secluded : h.Private t words) (program : h.Admits t words)

include reset secluded program

/-- A thread has in each of its passes executed as many instructions as the machine with its
time has by then, and leaves what the machine leaves. -/
theorem executes {m : Nat} (bound : fetchCall t m ≤ h.length) :
    Same t words (Sparc.stateOf ((h.state (fetchCall t m)).pool t) (h.contents (fetchCall t m)))
        (h.timed t (h.committed t m)).state ∧
      ∀ k, k ≤ h.committed t m ↔ (h.timed t k).pass ≤ m := by
  obtain ⟨k, follows⟩ := exists_follows reset secluded program bound
  have short := secluded.short
  rw [follows.committed_eq (by unfold fetchCall at bound; omega)]
  exact ⟨follows.same, follows.le_iff⟩

/-- However the other threads run, so many passes are enough for so many instructions. -/
theorem progresses (m k : Nat) (bound : fetchCall t (m + 19 * k + 18) ≤ h.length) :
    h.committed t m + k ≤ h.committed t (m + 19 * k + 18) := by
  have earlier : fetchCall t m ≤ h.length := by
    unfold fetchCall at bound ⊢
    omega
  have short := secluded.short
  obtain ⟨first, now⟩ := exists_follows reset secluded program earlier
  obtain ⟨last, later⟩ := exists_follows reset secluded program bound
  rw [now.committed_eq (by unfold fetchCall at bound; omega),
    later.committed_eq (by unfold fetchCall at bound; omega), later.le_iff, Nat.add_comm, timed,
    Function.iterate_add_apply]
  exact Sparc.Timed.pass_le t now.since k

end

def returns : Nat → Core → Bool
  | 0, _ => true
  | n + 1, c => (behavior c).isOk && returns n (next c)

theorem isOk_of_returns {length : Nat} {c : Core} (all : returns length c = true) :
    ∀ n, n < length → (behavior (next^[n] c)).isOk = true := by
  induction length generalizing c with
  | zero => exact fun n less => absurd less (Nat.not_lt_zero n)
  | succ length ih =>
      rw [returns, Bool.and_eq_true] at all
      intro n less
      cases n with
      | zero => exact all.1
      | succ n => exact ih all.2 n (Nat.lt_of_succ_lt_succ less)

def memoryWord (op3 : BitVec 6) (rd : BitVec 5) (address : BitVec 13) : Word :=
  3#2 ++ rd ++ op3 ++ 0#5 ++ 1#1 ++ address

/-- The program of thread 3 adds, loads from its scratchpad, and stores to the main memory, where
it waits for its slot until its fifth pass. -/
def storing : History :=
  ofCalls (oneThread 3) (inScratchpad 3
    (Run.arithmeticWord 0 1 0 5 :: memoryWord 0 2 4 :: memoryWord 4 1 0x100 ::
      List.replicate 31 nopWord)) 226 (isOk_of_returns (by decide +kernel))

theorem storing_private : storing.Private 3 ∅ where
  short := by decide
  built := WheeledMem.create_constructed
  apart := fun _ _ _ _ _ _ => Set.notMem_empty _

theorem storing_admits : storing.Admits 3 ∅ := by
  have admissible : ∀ k, k < 34 → Admissible 3 ∅ (storing.timed 3 k).state := by
    have checks : ∀ k, k < 34 → Ordinary ((storing.timed 3 k).state.word 3) = true ∧
        (storing.timed 3 k).state.Tracks ((storing.timed 3 k).state.word 3) ∧
        ((memoryOp ((storing.timed 3 k).state.word 3)).all fun operation =>
          Sparc.inWord operation (Mem.addrOffset ((storing.timed 3 k).state.address
            ((storing.timed 3 k).state.word 3)))) = true ∧
        (storing.timed 3 k).state.memory.place 3 (storing.timed 3 k).state.counters.pc = none ∧
        ((memoryOp ((storing.timed 3 k).state.word 3)).any State.loads = true →
          (storing.timed 3 k).state.memory.place 3 (Mem.alignedAddr
            ((storing.timed 3 k).state.address ((storing.timed 3 k).state.word 3))) = none) := by
      decide +kernel
    intro k small
    obtain ⟨ordinary, tracks, inside, fetch, load⟩ := checks k small
    refine ⟨ordinary, tracks, (Option.all_eq_true _ _).mp inside, ?_, ?_⟩
    · intro location place
      rw [fetch] at place
      cases place
    · intro operation known loads location place
      rw [load (by rw [known]; exact loads)] at place
      cases place
  intro k due
  have last : (storing.timed 3 34).pass = 37 := by decide +kernel
  refine admissible k ?_
  by_contra late
  have later := (storing.timed_strictMono 3).monotone (show 34 ≤ k by omega)
  change (storing.timed 3 k).pass < 37 at due
  omega

theorem executes_storing :
    Same 3 ∅ (Sparc.stateOf ((storing.state (fetchCall 3 6)).pool 3)
      (storing.contents (fetchCall 3 6))) (storing.timed 3 3).state ∧
    (∀ k, k ≤ 3 ↔ (storing.timed 3 k).pass ≤ 6) ∧
    storing.committed 3 5 = 2 ∧ storing.committed 3 6 = 3 := by
  have two : storing.committed 3 5 = 2 := by decide +kernel
  have three : storing.committed 3 6 = 3 := by decide +kernel
  obtain ⟨same, timely⟩ := executes storing 3 4 (fun i => if i = 1 then 16 else 0) ∅ rfl
    storing_private storing_admits (m := 6) (by decide)
  rw [three] at same timely
  exact ⟨same, timely, two, three⟩

theorem progresses_storing : storing.committed 3 0 + 1 ≤ storing.committed 3 37 :=
  progresses storing 3 4 (fun i => if i = 1 then 16 else 0) ∅ rfl storing_private storing_admits 0 1
    (by decide)

end Core.History

end PretIss
