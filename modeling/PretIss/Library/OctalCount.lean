import Mathlib.Data.Nat.Count

/-! Counting the bits of a number by its octal digits. Subtracting from each
digit its half and its quarter leaves the number of its bits; neighbouring
digits are added in pairs, and the pairs are summed by a remainder modulo 63.
The masks are written as repeated base-64 digits. -/

namespace OctalCount

def repeated (digit : Nat) : Nat → Nat
  | 0 => 0
  | k + 1 => 64 * repeated digit k + digit

def ones (k n : Nat) : Nat := Nat.count (fun i => n.testBit i) k

def spread (k n : Nat) : Nat := n - (n / 2 &&& repeated 27 k) - (n / 4 &&& repeated 9 k)

def paired (k n : Nat) : Nat := (spread k n + spread k n / 8) &&& repeated 7 k

theorem and_digits (a b c d : Nat) (left : b < 64) (right : d < 64) :
    (64 * a + b) &&& (64 * c + d) = 64 * (a &&& c) + (b &&& d) := by
  have quotient := Nat.and_div_two_pow (a := 64 * a + b) (b := 64 * c + d) (n := 6)
  have remainder := Nat.and_mod_two_pow (a := 64 * a + b) (b := 64 * c + d) (n := 6)
  rw [show (64 * a + b) / 2 ^ 6 = a by omega, show (64 * c + d) / 2 ^ 6 = c by omega] at quotient
  rw [show (64 * a + b) % 2 ^ 6 = b by omega, show (64 * c + d) % 2 ^ 6 = d by omega] at remainder
  have small : b &&& d < 2 ^ 6 := Nat.and_lt_two_pow b (by omega)
  omega

theorem digit_facts : ∀ r < 64,
    (r / 2 &&& 27) + (r / 4 &&& 9) ≤ r ∧
      r - (r / 2 &&& 27) - (r / 4 &&& 9) ≤ 27 ∧
      (r - (r / 2 &&& 27) - (r / 4 &&& 9)) % 8 ≤ 3 ∧
      (∀ b < 2, (32 * b + r / 2) &&& 27 = r / 2 &&& 27) ∧
      (∀ c < 4, (16 * c + r / 4) &&& 9 = r / 4 &&& 9) ∧
      (∀ p < 4, (8 * p + (r - (r / 2 &&& 27) - (r / 4 &&& 9)) +
        (r - (r / 2 &&& 27) - (r / 4 &&& 9)) / 8) &&& 7 = ones 6 r) := by
  decide +kernel

theorem half_and (k q r : Nat) (small : r < 64) :
    (64 * q + r) / 2 &&& repeated 27 (k + 1) = 64 * (q / 2 &&& repeated 27 k) + (r / 2 &&& 27) := by
  obtain ⟨_, _, _, half, _, _⟩ := digit_facts r small
  rw [← half (q % 2) (by omega), repeated, ← and_digits _ _ _ _ (by omega) (by decide)]
  congr 1
  omega

theorem quarter_and (k q r : Nat) (small : r < 64) :
    (64 * q + r) / 4 &&& repeated 9 (k + 1) = 64 * (q / 4 &&& repeated 9 k) + (r / 4 &&& 9) := by
  obtain ⟨_, _, _, _, quarter, _⟩ := digit_facts r small
  rw [← quarter (q % 4) (by omega), repeated, ← and_digits _ _ _ _ (by omega) (by decide)]
  congr 1
  omega

theorem parts_le (k n : Nat) (bound : n < 64 ^ k) :
    (n / 2 &&& repeated 27 k) + (n / 4 &&& repeated 9 k) ≤ n := by
  induction k generalizing n with
  | zero => simp [repeated]
  | succ k ih =>
      have split : n = 64 * (n / 64) + n % 64 := by omega
      have rest := ih (n / 64) (by rw [pow_succ] at bound; omega)
      obtain ⟨first, _⟩ := digit_facts (n % 64) (by omega)
      rw [split, half_and k _ _ (by omega), quarter_and k _ _ (by omega)]
      omega

theorem spread_succ (k q r : Nat) (small : r < 64) (bound : q < 64 ^ k) :
    spread (k + 1) (64 * q + r) =
      64 * spread k q + (r - (r / 2 &&& 27) - (r / 4 &&& 9)) := by
  have rest := parts_le k q bound
  obtain ⟨first, _⟩ := digit_facts r small
  rw [spread, half_and k q r small, quarter_and k q r small, spread]
  omega

theorem spread_mod_le (k n : Nat) (bound : n < 64 ^ k) : spread k n % 8 ≤ 3 := by
  cases k with
  | zero =>
      have zero : n = 0 := by simpa using bound
      simp [spread, zero]
  | succ k =>
      have split : n = 64 * (n / 64) + n % 64 := by omega
      obtain ⟨_, _, first, _⟩ := digit_facts (n % 64) (by omega)
      rw [split, spread_succ k _ _ (by omega) (by rw [pow_succ] at bound; omega)]
      omega

theorem spread_le (k n : Nat) (bound : n < 4 * 64 ^ k) : 7 * spread (k + 1) n + 3 ≤ 17 * 64 ^ k := by
  induction k generalizing n with
  | zero =>
      have cases : ∀ n < 4, 7 * spread 1 n + 3 ≤ 17 := by decide
      simpa using cases n (by simpa using bound)
  | succ k ih =>
      have split : n = 64 * (n / 64) + n % 64 := by omega
      rw [pow_succ] at bound ⊢
      have rest := ih (n / 64) (by omega)
      obtain ⟨_, first, _⟩ := digit_facts (n % 64) (by omega)
      have upper : n / 64 < 64 ^ (k + 1) := by rw [pow_succ]; omega
      rw [split, spread_succ (k + 1) _ _ (by omega) upper]
      omega

theorem paired_succ (k q r : Nat) (small : r < 64) (bound : q < 64 ^ k) :
    paired (k + 1) (64 * q + r) = 64 * paired k q + ones 6 r := by
  obtain ⟨_, large, _, _, _, pair⟩ := digit_facts r small
  have carry := spread_mod_le k q bound
  rw [← pair (spread k q % 8) (by omega), paired, paired, repeated, spread_succ k q r small bound,
    ← and_digits _ _ _ _ (by omega) (by decide)]
  congr 1
  omega

theorem count_congr {p q : Nat → Prop} [DecidablePred p] [DecidablePred q] {k : Nat}
    (same : ∀ i < k, (p i ↔ q i)) : Nat.count p k = Nat.count q k :=
  le_antisymm (Nat.count_mono_left fun i low => (same i low).mp)
    (Nat.count_mono_left fun i low => (same i low).mpr)

theorem ones_succ (k n : Nat) : ones (6 + k) n = ones 6 (n % 64) + ones k (n / 64) := by
  unfold ones
  rw [Nat.count_add]
  congr 1
  · apply count_congr
    intro i low
    rw [show 64 = 2 ^ 6 by rfl, Nat.testBit_mod_two_pow]
    simp [low]
  · apply count_congr
    intro i _
    rw [show 64 = 2 ^ 6 by rfl, Nat.testBit_div_two_pow, Nat.add_comm]

theorem paired_mod (k n : Nat) (bound : n < 64 ^ k) : paired k n % 63 = ones (6 * k) n % 63 := by
  induction k generalizing n with
  | zero => simp [paired, repeated, ones]
  | succ k ih =>
      have split : n = 64 * (n / 64) + n % 64 := by omega
      have upper : n / 64 < 64 ^ k := by rw [pow_succ] at bound; omega
      have rest := ih (n / 64) upper
      rw [show 6 * (k + 1) = 6 + 6 * k by omega, ones_succ]
      conv_lhs => rw [split]
      rw [paired_succ k _ _ (by omega) upper]
      omega

theorem paired_mod_eq (k n : Nat) (bound : n < 64 ^ k) (few : k ≤ 10) :
    paired k n % 63 = ones (6 * k) n := by
  have upper : ones (6 * k) n ≤ 6 * k := Nat.count_le _
  rw [paired_mod k n bound, Nat.mod_eq_of_lt (by omega)]

end OctalCount
