import Mathlib.Algebra.BigOperators.Intervals
import Mathlib.Data.Nat.Cast.Order.Ring
import PretIss.Library.Flags

/-! Numbers of several words, the lowest word first. Where the carry of each word goes
into the next one, the words make the sum or the difference of the whole numbers. -/

open Finset

namespace Limbs

variable {w : Nat}

def value (x : Nat → BitVec w) (n : Nat) : Nat := ∑ k ∈ range n, 2 ^ (w * k) * (x k).toNat

theorem value_succ (x : Nat → BitVec w) (n : Nat) :
    value x (n + 1) = value x n + 2 ^ (w * n) * (x n).toNat :=
  sum_range_succ _ _

theorem value_congr {x y : Nat → BitVec w} {n : Nat} (same : ∀ k, k < n → x k = y k) :
    value x n = value y n :=
  sum_congr rfl fun k member => by rw [same k (mem_range.mp member)]

theorem value_lt (x : Nat → BitVec w) (n : Nat) : value x n < 2 ^ (w * n) := by
  induction n with
  | zero => simp [value]
  | succ n ih =>
      have word : (x n).toNat + 1 ≤ 2 ^ w := (x n).isLt
      have high := Nat.mul_le_mul_left (2 ^ (w * n)) word
      rw [Nat.mul_succ] at high
      rw [value_succ, Nat.mul_succ, Nat.pow_add]
      omega

theorem value_chain {x y r : Nat → BitVec w} {c : Nat → Bool} {n : Nat}
    (step : ∀ k, k < n → (r k).toNat + 2 ^ w * (c (k + 1)).toNat =
      (x k).toNat + (y k).toNat + (c k).toNat) :
    value r n + 2 ^ (w * n) * (c n).toNat = value x n + value y n + (c 0).toNat := by
  induction n with
  | zero => simp [value]
  | succ n ih =>
      have lower := ih fun k bound => step k (Nat.lt_succ_of_lt bound)
      have word := step n (Nat.lt_succ_self n)
      rw [value_succ, value_succ, value_succ, Nat.mul_succ, Nat.pow_add]
      generalize 2 ^ (w * n) = high at *
      calc value r n + high * (r n).toNat + high * 2 ^ w * (c (n + 1)).toNat
          = value r n + high * ((r n).toNat + 2 ^ w * (c (n + 1)).toNat) := by
            rw [Nat.mul_add, Nat.mul_assoc, Nat.add_assoc]
        _ = value r n + high * (c n).toNat + high * (x n).toNat + high * (y n).toNat := by
            rw [word, Nat.mul_add, Nat.mul_add]
            omega
        _ = value x n + high * (x n).toNat + (value y n + high * (y n).toNat) + (c 0).toNat := by
            rw [lower]
            omega

theorem sum_chain {x y r : Nat → BitVec w} {c : Nat → Bool} {n : Nat} (first : c 0 = false)
    (sums : ∀ k, k < n → r k = Flags.sum (x k) (y k) (c k))
    (carries : ∀ k, k < n → c (k + 1) = Flags.carryOut (x k) (y k) (c k)) :
    value r n = (value x n + value y n) % 2 ^ (w * n) ∧
      (c n = true ↔ 2 ^ (w * n) ≤ value x n + value y n) := by
  have total := value_chain (x := x) (y := y) (r := r) (c := c) (n := n) fun k bound => by
    rw [sums k bound, carries k bound, Flags.sum_toNat]
  have below := value_lt r n
  rw [first] at total
  cases wraps : c n with
  | false =>
      simp only [wraps, Bool.toNat_false, Nat.mul_zero, Nat.add_zero] at total
      rw [← total, Nat.mod_eq_of_lt below]
      exact ⟨rfl, by simp, by omega⟩
  | true =>
      simp only [wraps, Bool.toNat_true, Bool.toNat_false, Nat.mul_one, Nat.add_zero] at total
      rw [← total, Nat.add_mod_right, Nat.mod_eq_of_lt below]
      exact ⟨rfl, fun _ => by omega, fun _ => rfl⟩

theorem difference_chain {x y r : Nat → BitVec w} {c : Nat → Bool} {n : Nat} (first : c 0 = false)
    (differences : ∀ k, k < n → r k = Flags.difference (x k) (y k) (c k))
    (borrows : ∀ k, k < n → c (k + 1) = Flags.borrowOut (x k) (y k) (c k)) :
    (value r n : Int) = ((value x n : Int) - value y n) % 2 ^ (w * n) ∧
      (c n = true ↔ value x n < value y n) := by
  have total := value_chain (x := r) (y := y) (r := x) (c := c) (n := n) fun k bound => by
    rw [differences k bound, borrows k bound, Flags.difference_toNat]
  have below := value_lt x n
  have small := value_lt r n
  have power : ((2 ^ (w * n) : Nat) : Int) = 2 ^ (w * n) := by push_cast; rfl
  rw [first, Bool.toNat_false, Nat.add_zero] at total
  rw [← power]
  generalize 2 ^ (w * n) = modulus at *
  have exact : (value x n : Int) - value y n = value r n - modulus * (c n).toNat := by
    have total := congrArg (Nat.cast : Nat → Int) total
    push_cast at total
    omega
  constructor
  · rw [exact, Int.sub_mul_emod_self_left, Int.emod_eq_of_lt (by omega) (by omega)]
  · cases wraps : c n <;> simp [wraps] at total ⊢ <;> omega

end Limbs
