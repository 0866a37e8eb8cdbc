import Mathlib.Tactic.Linarith
import Mathlib.Tactic.LinearCombination
import Mathlib.Tactic.Ring
import PretIss.Library.Flags

/-! Multiplication by shifts and additions. The product grows in two words, of which the
lower one starts as the multiplier: each step drops its lowest bit, adds the multiplicand
to the upper word if the bit was set, and moves everything down by one place. -/

structure Accumulator (w : Nat) where
  high : BitVec (w + 1)
  negative : Bool
  low : BitVec (w + 1)

namespace Accumulator

variable {w : Nat}

def insertTop (b : Bool) (x : BitVec (w + 1)) : BitVec (w + 1) :=
  (x >>> 1) ||| ((BitVec.ofBool b).setWidth (w + 1) <<< w)

def shifted (s : Accumulator w) : BitVec (w + 1) := insertTop s.negative s.high

def addend (a : BitVec (w + 1)) (s : Accumulator w) : BitVec (w + 1) :=
  if s.low.getLsbD 0 then a else 0

def step (a : BitVec (w + 1)) (s : Accumulator w) : Accumulator w where
  high := s.shifted + addend a s
  negative := decide (s.shifted.toInt + (addend a s).toInt < 0)
  low := insertTop (s.high.getLsbD 0) s.low

/-- The sum that the upper word and the sign hold. -/
def total (s : Accumulator w) : Int := s.high.toNat - (2 ^ (w + 1) : Nat) * s.negative.toNat

def value (s : Accumulator w) : Int := (2 ^ (w + 1) : Nat) * s.total + s.low.toNat

theorem getLsbD_insertTop (b : Bool) (x : BitVec (w + 1)) (i : Nat) :
    (insertTop b x).getLsbD i = if i = w then b else x.getLsbD (i + 1) := by
  rw [insertTop, BitVec.getLsbD_or, BitVec.getLsbD_ushiftRight, BitVec.getLsbD_shiftLeft,
    BitVec.getLsbD_setWidth, Nat.add_comm 1]
  by_cases last : i = w
  · subst last
    simp
  · by_cases inside : i < w
    · simp [last, inside]
    · have above : ¬ i < w + 1 := by omega
      simp [last, above]

theorem toNat_insertTop (b : Bool) (x : BitVec (w + 1)) :
    (insertTop b x).toNat = x.toNat / 2 + 2 ^ w * b.toNat := by
  have word := x.isLt
  have half : x.toNat / 2 < 2 ^ w := by
    rw [Nat.pow_succ] at word
    omega
  have upper : ((BitVec.ofBool b).setWidth (w + 1) <<< w).toNat = b.toNat <<< w := by
    have small : 2 ^ w < 2 ^ (w + 1) := Nat.pow_lt_pow_succ (by decide)
    cases b with
    | false => simp
    | true => simp [Nat.shiftLeft_eq, Nat.mod_eq_of_lt small]
  rw [insertTop, BitVec.toNat_or, upper, BitVec.toNat_ushiftRight, Nat.shiftRight_one, Nat.or_comm,
    ← Nat.shiftLeft_add_eq_or_of_lt half, Nat.shiftLeft_eq]
  rw [Nat.mul_comm, Nat.add_comm]

theorem toInt_insertTop (b : Bool) (x : BitVec (w + 1)) :
    (insertTop b x).toInt = x.toNat / 2 - (2 ^ w : Nat) * b.toNat := by
  have sign : (insertTop b x).msb = b := by
    rw [BitVec.msb_eq_getLsbD_last, getLsbD_insertTop]
    simp
  rw [Flags.toInt_eq, sign, toNat_insertTop]
  push_cast
  ring

theorem toNat_add_signed (x y : BitVec (w + 1)) :
    ((x + y).toNat : Int) - (2 ^ (w + 1) : Nat) * (decide (x.toInt + y.toInt < 0)).toNat =
      x.toInt + y.toInt := by
  have word : x + y = BitVec.ofInt (w + 1) (x.toInt + y.toInt) := by
    rw [BitVec.ofInt_add, BitVec.ofInt_toInt, BitVec.ofInt_toInt]
  have bounds : ∀ z : BitVec (w + 1), -((2 ^ (w + 1) : Nat) : Int) ≤ 2 * z.toInt ∧
      2 * z.toInt < (2 ^ (w + 1) : Nat) := by
    intro z
    push_cast
    exact ⟨BitVec.le_two_mul_toInt, BitVec.two_mul_toInt_lt⟩
  obtain ⟨left, first⟩ := bounds x
  obtain ⟨right, second⟩ := bounds y
  have positive : 0 < ((2 ^ (w + 1) : Nat) : Int) := Int.natCast_pos.mpr (Nat.two_pow_pos _)
  rw [word, BitVec.toNat_ofInt, Int.toNat_of_nonneg (Int.emod_nonneg _ positive.ne')]
  generalize ((2 ^ (w + 1) : Nat) : Int) = modulus at *
  by_cases below : x.toInt + y.toInt < 0
  · rw [decide_eq_true below, ← Int.add_emod_right, Int.emod_eq_of_lt (by omega) (by omega)]
    simp
  · rw [decide_eq_false below, Int.emod_eq_of_lt (by omega) (by omega)]
    simp

theorem total_step (a : BitVec (w + 1)) (s : Accumulator w) :
    (step a s).total = s.shifted.toInt + (addend a s).toInt :=
  toNat_add_signed s.shifted (addend a s)

theorem toInt_addend (a : BitVec (w + 1)) (s : Accumulator w) :
    (addend a s).toInt = (s.low.toNat % 2 : Nat) * a.toInt := by
  have bit : s.low.getLsbD 0 = decide (s.low.toNat % 2 = 1) := by
    rw [← BitVec.testBit_toNat, Nat.testBit_zero]
  rw [addend, bit]
  obtain even | odd := Nat.mod_two_eq_zero_or_one s.low.toNat
  · simp [even]
  · simp [odd]

theorem value_step (a : BitVec (w + 1)) (s : Accumulator w) :
    2 * (step a s).value =
      s.value + (s.low.toNat % 2 : Nat) * (2 * (2 ^ (w + 1) : Nat) * a.toInt - 1) := by
  have carried : (s.high.getLsbD 0).toNat = s.high.toNat % 2 := by
    rw [← BitVec.testBit_toNat, Nat.testBit_zero]
    obtain even | odd := Nat.mod_two_eq_zero_or_one s.high.toNat
    · simp [even]
    · simp [odd]
  have low : ((step a s).low.toNat : Int) =
      s.low.toNat / 2 + (2 ^ w : Nat) * (s.high.toNat % 2 : Nat) := by
    rw [step, toNat_insertTop, carried]
    push_cast
    rfl
  have upper : (s.high.toNat : Int) = 2 * (s.high.toNat / 2) + (s.high.toNat % 2 : Nat) := by omega
  have lower : (s.low.toNat : Int) = 2 * (s.low.toNat / 2) + (s.low.toNat % 2 : Nat) := by omega
  have double : ((2 ^ (w + 1) : Nat) : Int) = 2 * (2 ^ w : Nat) := by rw [Nat.pow_succ]; omega
  rw [value, value, total_step, low, shifted, toInt_insertTop, toInt_addend, total, double]
  generalize ((2 ^ w : Nat) : Int) = half at *
  generalize ((s.high.toNat % 2 : Nat) : Int) = dropped at *
  generalize ((s.low.toNat % 2 : Nat) : Int) = bit at *
  calc 2 * (2 * half * ((s.high.toNat : Int) / 2 - half * s.negative.toNat + bit * a.toInt) +
        ((s.low.toNat : Int) / 2 + half * dropped))
      = 2 * half * (2 * ((s.high.toNat : Int) / 2) + dropped - 2 * half * s.negative.toNat) +
          (2 * ((s.low.toNat : Int) / 2) + bit) + bit * (2 * (2 * half) * a.toInt - 1) := by ring
    _ = _ := by rw [← upper, ← lower]

section

variable {a : BitVec (w + 1)} {s : Nat → Accumulator w} {n : Nat}
  (steps : ∀ k, k < n → s (k + 1) = step a (s k))

include steps

theorem low_steps {k i : Nat} (bound : k ≤ n) (inside : i + k ≤ w) :
    (s k).low.getLsbD i = (s 0).low.getLsbD (i + k) := by
  induction k generalizing i with
  | zero => rfl
  | succ k ih =>
      have kept : i ≠ w := by omega
      calc (s (k + 1)).low.getLsbD i = (step a (s k)).low.getLsbD i := by rw [steps k bound]
        _ = (s k).low.getLsbD (i + 1) := by rw [step, getLsbD_insertTop, if_neg kept]
        _ = (s 0).low.getLsbD (i + 1 + k) := ih (by omega) (by omega)
        _ = (s 0).low.getLsbD (i + (k + 1)) := by rw [Nat.add_assoc, Nat.add_comm 1]

theorem value_steps {k : Nat} (bound : k ≤ n) (inside : k ≤ w + 1) :
    (2 ^ k : Nat) * (s k).value =
      (s 0).value + ((s 0).low.toNat % 2 ^ k : Nat) * (2 * (2 ^ (w + 1) : Nat) * a.toInt - 1) := by
  induction k with
  | zero => simp [Nat.mod_one]
  | succ k ih =>
      have before := ih (by omega) (by omega)
      have bit : (s k).low.toNat % 2 = (s 0).low.toNat / 2 ^ k % 2 := by
        have same := low_steps steps (k := k) (i := 0) (by omega) (by omega)
        rw [← BitVec.testBit_toNat, ← BitVec.testBit_toNat, Nat.zero_add, Nat.testBit_zero,
          Nat.testBit_eq_decide_div_mod_eq, decide_eq_decide] at same
        omega
      have halved := value_step a (s k)
      rw [← steps k bound, bit] at halved
      rw [Nat.mod_pow_succ, Nat.pow_succ]
      push_cast at *
      linear_combination before + 2 ^ k * halved

end

theorem value_product {a b : BitVec (w + 1)} {s : Nat → Accumulator w}
    (start : (s 0).total = 0 ∧ (s 0).low = b)
    (steps : ∀ k, k < w + 1 → s (k + 1) = step a (s k))
    (last : s (w + 2) = step 0 (s (w + 1))) :
    ((s (w + 2)).high ++ (s (w + 2)).low).toInt = a.toInt * b.toNat := by
  have value := value_steps steps (k := w + 1) le_rfl le_rfl
  have first : (s 0).value = b.toNat := by
    rw [Accumulator.value, start.1, start.2]
    simp
  rw [first, start.2, Nat.mod_eq_of_lt b.isLt] at value
  have positive : ((2 ^ (w + 1) : Nat) : Int) ≠ 0 := by simp
  have double : (s (w + 1)).value = 2 * (a.toInt * b.toNat) := by
    apply mul_left_cancel₀ positive
    linear_combination value
  have even : (s (w + 1)).low.toNat % 2 = 0 := by
    rw [Accumulator.value, Nat.pow_succ] at double
    push_cast at double
    have parts : 2 * (2 ^ w * (s (w + 1)).total) + (s (w + 1)).low.toNat =
        2 * (a.toInt * b.toNat) := by linear_combination double
    omega
  have halved := value_step 0 (s (w + 1))
  rw [← last, even, double] at halved
  have whole : (s (w + 2)).total = (s (w + 2)).high.toInt := by
    rw [last, total_step]
    simp [step, addend]
  rw [BitVec.toInt_append, if_neg (by simp)]
  rw [Accumulator.value, whole] at halved
  push_cast at halved
  linarith

end Accumulator
