import Mathlib.Logic.Function.Basic

/-! A shift register: a row of cells through which a sequence of inputs moves, one
cell at every step. What a cell holds is the input of as many steps ago. -/

structure ShiftRegister {α : Type} {depth : Nat} (input : Nat → α) (length : Nat)
    (cell : Nat → Fin depth → Option α) : Prop where
  empty : ∀ i, cell 0 i = none
  enter : ∀ n, n < length → ∀ i : Fin depth, i.val = 0 → cell (n + 1) i = some (input n)
  shift : ∀ n, n < length → ∀ i j : Fin depth, j.val = i.val + 1 → cell (n + 1) j = cell n i

namespace ShiftRegister

variable {α : Type} {depth : Nat} {input : Nat → α} {length : Nat}
  {cell : Nat → Fin depth → Option α}

theorem cell_eq (r : ShiftRegister input length cell) {n : Nat} (bound : n ≤ length) (i : Fin depth) :
    cell n i = if i.val < n then some (input (n - 1 - i.val)) else none := by
  induction n generalizing i with
  | zero => simp [r.empty i]
  | succ n ih =>
      rcases Nat.eq_zero_or_pos i.val with zero | later
      · rw [r.enter n bound i zero, if_pos (by omega)]
        congr 2
        omega
      · rw [r.shift n bound ⟨i.val - 1, by omega⟩ i (by simp only; omega), ih (by omega)]
        simp only
        by_cases full : i.val - 1 < n
        · rw [if_pos full, if_pos (by omega)]
          congr 2
          omega
        · rw [if_neg full, if_neg (by omega)]

theorem cell_full (r : ShiftRegister input length cell) {n : Nat} (bound : n ≤ length)
    (full : depth ≤ n) (i : Fin depth) : cell n i = some (input (n - 1 - i.val)) := by
  rw [r.cell_eq bound, if_pos (by omega)]

theorem injective_iff (r : ShiftRegister input length cell) {n : Nat} (bound : n ≤ length)
    (full : depth ≤ n) :
    Function.Injective (cell n) ↔
      ∀ i j : Fin depth, input (n - 1 - i.val) = input (n - 1 - j.val) → i = j := by
  constructor
  · intro injective i j same
    apply injective
    rw [r.cell_full bound full, r.cell_full bound full, same]
  · intro distinct i j same
    rw [r.cell_full bound full, r.cell_full bound full] at same
    exact distinct i j (Option.some.inj same)

end ShiftRegister
