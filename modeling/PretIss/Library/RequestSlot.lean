import Mathlib.Data.Nat.Count

/-! A buffer for a single request. A new request overwrites the one that is held; in a
step in which the server is ready, what the buffer holds is carried out. Requests are
carried out one for one as long as none arrives while another is held. -/

structure RequestSlot {α : Type} (length : Nat) (ask : Nat → Option α) (ready : Nat → Bool)
    (held : Nat → Option α) : Prop where
  empty : held 0 = none
  next : ∀ n, n < length → held (n + 1) = if ready n then none else (ask n).or (held n)

namespace RequestSlot

variable {α : Type} {length : Nat} {ask : Nat → Option α} {ready : Nat → Bool}
  {held : Nat → Option α}

def carried (ask : Nat → Option α) (ready : Nat → Bool) (held : Nat → Option α) (n : Nat) :
    Option α :=
  if ready n then (ask n).or (held n) else none

def Spaced (ask held : Nat → Option α) (n : Nat) : Prop :=
  ∀ k, k < n → (ask k).isSome = true → held k = none

theorem held_back (slot : RequestSlot length ask ready held) {n m : Nat} {a : α} (later : n ≤ m)
    (bound : m ≤ length) (quiet : ∀ k, n ≤ k → k < m → ask k = none) (waits : held m = some a) :
    held n = some a ∧ ∀ k, n ≤ k → k < m → ready k = false := by
  induction m, later using Nat.le_induction with
  | base => exact ⟨waits, fun k above below => absurd below (by omega)⟩
  | succ m later ih =>
      rw [slot.next m bound, quiet m later (Nat.lt_succ_self m), Option.none_or] at waits
      split at waits
      · cases waits
      · rename_i closed
        obtain ⟨before, between⟩ := ih (by omega) (fun k above below => quiet k above (by omega)) waits
        refine ⟨before, fun k above below => ?_⟩
        obtain earlier | rfl := Nat.lt_or_eq_of_le (Nat.le_of_lt_succ below)
        · exact between k above earlier
        · simpa using closed

theorem carried_or_held (slot : RequestSlot length ask ready held) {n m : Nat} {a : α}
    (asked : ask n = some a) (later : n < m) (bound : m ≤ length) (spaced : Spaced ask held m) :
    (∃ j, n ≤ j ∧ j < m ∧ carried ask ready held j = some a) ∨ held m = some a := by
  induction m, later using Nat.le_induction with
  | base =>
      cases now : ready n with
      | true => exact Or.inl ⟨n, le_rfl, Nat.lt_succ_self n, by simp [carried, now, asked]⟩
      | false => exact Or.inr (by rw [slot.next n bound]; simp [now, asked])
  | succ m later ih =>
      obtain ⟨j, above, below, done⟩ | waits := ih (by omega) fun k early => spaced k (by omega)
      · exact Or.inl ⟨j, above, by omega, done⟩
      · have quiet : ask m = none := by
          by_contra asks
          have free := spaced m (Nat.lt_succ_self m) (Option.isSome_iff_ne_none.mpr asks)
          rw [waits] at free
          cases free
        cases now : ready m with
        | true =>
            exact Or.inl ⟨m, by omega, Nat.lt_succ_self m, by simp [carried, now, quiet, waits]⟩
        | false => exact Or.inr (by rw [slot.next m bound]; simp [now, quiet, waits])

theorem count_eq (slot : RequestSlot length ask ready held) {n : Nat} (bound : n ≤ length)
    (spaced : Spaced ask held n) :
    Nat.count (fun k => (ask k).isSome = true) n =
      Nat.count (fun k => (carried ask ready held k).isSome = true) n +
        if (held n).isSome = true then 1 else 0 := by
  induction n with
  | zero => simp [slot.empty]
  | succ n ih =>
      rw [Nat.count_succ, Nat.count_succ, ih (by omega) fun k early => spaced k (by omega),
        slot.next n bound]
      have free := spaced n (Nat.lt_succ_self n)
      unfold carried
      cases asked : ask n with
      | none => cases held n <;> cases ready n <;> simp
      | some a =>
          rw [free (by rw [asked]; rfl)]
          cases ready n <;> simp

end RequestSlot
