import Mathlib.Data.List.Basic
import Mathlib.Data.Nat.Count
import Mathlib.Data.Nat.Init
import Mathlib.Algebra.Group.Basic
import Mathlib.Algebra.NeZero
import Mathlib.Data.Int.Cast.Defs
import PretIss.Library.Transition

/-! Finite histories of a machine, indexed by time. An entry of a history is the
whole record of one step; a step starts in the state in which the one before it
ended. What happens at a time can then be related to what happened at another. -/

universe u v w x

structure Timeline {π : Type u} {σ : Type v} (starts ends : π → σ) (valid : π → Prop) where
  length : Nat
  entry : Nat → π
  valid : ∀ n, n < length → valid (entry n)
  linked : ∀ n, n + 1 < length → starts (entry (n + 1)) = ends (entry n)

namespace Timeline

variable {π : Type u} {σ : Type v} {starts ends : π → σ} {valid : π → Prop}

theorem invariant_from (h : Timeline starts ends valid) (holds : Nat → σ → Prop) (first : Nat)
    (start : holds first (starts (h.entry first)))
    (kept : ∀ n, first ≤ n → n < h.length → holds n (starts (h.entry n)) →
      holds (n + 1) (ends (h.entry n)))
    {n : Nat} (later : first ≤ n) (bound : n < h.length) : holds n (starts (h.entry n)) := by
  induction n, later using Nat.le_induction with
  | base => exact start
  | succ n later ih =>
      rw [h.linked n bound]
      exact kept n later (by omega) (ih (by omega))

theorem invariant (h : Timeline starts ends valid) (holds : Nat → σ → Prop)
    (start : holds 0 (starts (h.entry 0)))
    (kept : ∀ n, n < h.length → holds n (starts (h.entry n)) → holds (n + 1) (ends (h.entry n)))
    {n : Nat} (bound : n < h.length) : holds n (starts (h.entry n)) :=
  h.invariant_from holds 0 start (fun n _ => kept n) (Nat.zero_le n) bound

theorem exists_of_progress (holds : σ → Prop) (progress : ∀ s, holds s →
      ∃ p, starts p = s ∧ valid p ∧ holds (ends p))
    {start : σ} (first : holds start) (length : Nat) :
    ∃ h : Timeline starts ends valid, h.length = length ∧ starts (h.entry 0) = start ∧
      ∀ n, holds (starts (h.entry n)) := by
  choose step begins isValid kept using fun s : {s // holds s} => progress s.1 s.2
  let state : Nat → {s // holds s} := fun n =>
    Nat.rec ⟨start, first⟩ (fun _ s => ⟨ends (step s), kept s⟩) n
  refine ⟨⟨length, fun n => step (state n), fun n _ => isValid (state n), fun n _ => ?_⟩, rfl,
    begins (state 0), fun n => ?_⟩
  · exact begins (state (n + 1))
  · change holds (starts (step (state n)))
    rw [begins]
    exact (state n).2

/-- A counter that grows by one in some steps keeps the number of the steps of another kind
exactly if it grows in no step that is not of that kind. -/
theorem counts_iff {α : Type x} [AddGroupWithOne α] [NeZero (1 : α)]
    (h : Timeline starts ends valid) (counter : σ → α) {grows due : π → Bool}
    (counted : ∀ n, n < h.length → due (h.entry n) = true → grows (h.entry n) = true)
    (step : ∀ n, n < h.length → counter (ends (h.entry n)) =
      counter (starts (h.entry n)) + if grows (h.entry n) then 1 else 0) :
    (∀ n, n < h.length → counter (ends (h.entry n)) = counter (starts (h.entry 0)) +
        (Nat.count (fun m => due (h.entry m) = true) (n + 1) : α)) ↔
      ∀ n, n < h.length → grows (h.entry n) = true → due (h.entry n) = true := by
  have before : ∀ n, n < h.length → (∀ m, m < n → counter (ends (h.entry m)) =
        counter (starts (h.entry 0)) +
          (Nat.count (fun m => due (h.entry m) = true) (m + 1) : α)) →
      counter (starts (h.entry n)) = counter (starts (h.entry 0)) +
        (Nat.count (fun m => due (h.entry m) = true) n : α) := by
    intro n bound earlier
    cases n with
    | zero => simp
    | succ n => rw [h.linked n bound, earlier n (Nat.lt_succ_self n)]
  constructor
  · intro total n bound grew
    have last := total n bound
    rw [step n bound, before n bound fun m early => total m (early.trans bound), if_pos grew,
      Nat.count_succ, Nat.cast_add, ← add_assoc] at last
    by_contra never
    rw [if_neg never, Nat.cast_zero, add_zero] at last
    exact one_ne_zero (add_eq_left.mp last)
  · intro exact n
    induction n using Nat.strong_induction_on with
    | _ n ih =>
        intro bound
        rw [step n bound, before n bound fun m early => ih m early (early.trans bound),
          Nat.count_succ, Nat.cast_add, ← add_assoc]
        by_cases grew : grows (h.entry n) = true
        · simp [grew, exact n bound grew]
        · have never : due (h.entry n) ≠ true := fun done => grew (counted n bound done)
          simp [grew, never]

section

variable {ε : Type w} {α : Type x} {σ π : Type u} (move : α → σ → Except ε π) (ends : π → σ)

def record : List α → σ → Except ε (List π)
  | [], _ => .ok []
  | a :: rest, s => do
      let p ← move a s
      let later ← record rest (ends p)
      return p :: later

variable {move ends}

theorem record_cons_eq_ok {a : α} {rest : List α} {s : σ} {entries : List π} :
    record move ends (a :: rest) s = .ok entries ↔
      ∃ p later, move a s = .ok p ∧ record move ends rest (ends p) = .ok later ∧
        entries = p :: later := by
  simp only [record, Transition.bind_eq_ok, pure, Except.pure, Except.ok.injEq]
  constructor
  · rintro ⟨p, moves, later, rest, rfl⟩
    exact ⟨p, later, moves, rest, rfl⟩
  · rintro ⟨p, later, moves, rest, rfl⟩
    exact ⟨p, moves, later, rest, rfl⟩

variable (starts : π → σ) (faithful : ∀ a s p, move a s = .ok p → starts p = s)

include faithful in
theorem record_linked {labels : List α} {s : σ} {entries : List π}
    (returns : record move ends labels s = .ok entries) (first : π) :
    (∀ n, n < entries.length → ∃ a, move a (starts (entries.getD n first)) =
        .ok (entries.getD n first)) ∧
      (∀ n, n + 1 < entries.length →
        starts (entries.getD (n + 1) first) = ends (entries.getD n first)) ∧
      (entries ≠ [] → starts (entries.getD 0 first) = s) := by
  induction labels generalizing s entries with
  | nil =>
      obtain rfl := Except.ok.inj returns
      simp
  | cons a rest ih =>
      obtain ⟨p, later, moves, rest, rfl⟩ := record_cons_eq_ok.mp returns
      have same := faithful a s p moves
      obtain ⟨valid, linked, start⟩ := ih rest
      refine ⟨fun n bound => ?_, fun n bound => ?_, fun _ => by simpa using same⟩
      · cases n with
        | zero => exact ⟨a, by simpa [same] using moves⟩
        | succ n =>
            obtain ⟨b, moved⟩ := valid n (by simpa using bound)
            exact ⟨b, by simpa using moved⟩
      · cases n with
        | zero =>
            have nonempty : later ≠ [] := by
              rintro rfl
              simp at bound
            simpa using start nonempty
        | succ n => simpa using linked n (by simpa using bound)

end

end Timeline
