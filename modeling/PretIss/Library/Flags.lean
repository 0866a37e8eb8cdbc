import Mathlib.Algebra.Group.Int.Defs
import Mathlib.Algebra.Group.Nat.Defs

/-! Sums and differences of words of any width, with a carry or a borrow coming in,
and the flags that record what the width cuts off. The flags of a difference decide
every order of its operands. -/

structure Flags where
  negative : Bool
  zero : Bool
  overflow : Bool
  carry : Bool
  deriving DecidableEq, Repr

namespace Flags

section

variable {w : Nat} (x y : BitVec w) (c : Bool)

def sum : BitVec w := x + y + (BitVec.ofBool c).setWidth w

def difference : BitVec w := x - y - (BitVec.ofBool c).setWidth w

def carryOut : Bool := decide (2 ^ w ≤ x.toNat + y.toNat + c.toNat)

def borrowOut : Bool := decide (x.toNat < y.toNat + c.toNat)

def ofSum : Flags where
  negative := (sum x y c).msb
  zero := sum x y c == 0
  overflow := decide ((sum x y c).toInt ≠ x.toInt + y.toInt + c.toNat)
  carry := carryOut x y c

def ofDifference : Flags where
  negative := (difference x y c).msb
  zero := difference x y c == 0
  overflow := decide ((difference x y c).toInt ≠ x.toInt - y.toInt - c.toNat)
  carry := borrowOut x y c

theorem toNat_ofBool : (BitVec.ofBool c).toNat = c.toNat := by
  cases c <;> rfl

theorem sum_toNat :
    (sum x y c).toNat + 2 ^ w * (carryOut x y c).toNat = x.toNat + y.toNat + c.toNat := by
  have left := x.isLt
  have right := y.isLt
  have bit := Bool.toNat_le c
  have reduced : (sum x y c).toNat = (x.toNat + y.toNat + c.toNat) % 2 ^ w := by
    rw [sum, BitVec.toNat_add, BitVec.toNat_add, BitVec.toNat_setWidth, toNat_ofBool, ← Nat.add_mod]
  rw [reduced]
  by_cases wraps : 2 ^ w ≤ x.toNat + y.toNat + c.toNat
  · have below : x.toNat + y.toNat + c.toNat - 2 ^ w < 2 ^ w := by omega
    rw [Nat.mod_eq_sub_mod wraps, Nat.mod_eq_of_lt below, carryOut, decide_eq_true wraps]
    simp only [Bool.toNat_true, Nat.mul_one]
    omega
  · rw [Nat.mod_eq_of_lt (Nat.lt_of_not_le wraps), carryOut, decide_eq_false wraps]
    rfl

theorem sum_difference : sum (difference x y c) y c = x := by
  rw [sum, difference, BitVec.add_assoc, BitVec.add_comm y, ← BitVec.add_assoc,
    BitVec.sub_add_cancel, BitVec.sub_add_cancel]

theorem borrowOut_eq : borrowOut x y c = carryOut (difference x y c) y c := by
  have total := sum_toNat (difference x y c) y c
  rw [sum_difference] at total
  have below := (difference x y c).isLt
  have word := x.isLt
  rw [borrowOut]
  cases wraps : carryOut (difference x y c) y c with
  | true =>
      rw [wraps, Bool.toNat_true, Nat.mul_one] at total
      exact decide_eq_true (by omega)
  | false =>
      rw [wraps, Bool.toNat_false, Nat.mul_zero] at total
      exact decide_eq_false (by omega)

theorem difference_toNat :
    (difference x y c).toNat + y.toNat + c.toNat = x.toNat + 2 ^ w * (borrowOut x y c).toNat := by
  rw [borrowOut_eq, ← sum_toNat, sum_difference]

end

section

variable {w : Nat} (x y : BitVec (w + 1)) (c : Bool)

theorem msb_eq : x.msb = decide (2 ^ w ≤ x.toNat) := by
  rw [BitVec.msb_eq_decide, Nat.add_sub_cancel]

theorem toInt_eq : x.toInt = x.toNat - 2 * (2 ^ w : Nat) * x.msb.toNat := by
  rw [BitVec.toInt_eq_msb_cond, Nat.pow_succ, Nat.mul_comm]
  cases x.msb <;> simp

theorem carryOut_eq :
    carryOut x y c = ((x.msb && y.msb) || (!(sum x y c).msb && (x.msb || y.msb))) := by
  have total := sum_toNat x y c
  have left := x.isLt
  have right := y.isLt
  have result := (sum x y c).isLt
  have bit := Bool.toNat_le c
  rw [msb_eq, msb_eq, msb_eq]
  rw [Nat.pow_succ] at *
  generalize 2 ^ w = half at *
  cases wraps : carryOut x y c <;> simp [wraps] at total <;> grind

theorem overflow_ofSum :
    (ofSum x y c).overflow = (x.msb == y.msb && x.msb != (sum x y c).msb) := by
  have total := sum_toNat x y c
  have carries := carryOut_eq x y c
  have positive := Nat.two_pow_pos w
  simp only [ofSum, toInt_eq]
  rw [carries, Nat.pow_succ, Nat.mul_comm (2 ^ w)] at total
  generalize 2 ^ w = half at *
  generalize (sum x y c).msb = result at *
  generalize x.msb = left at *
  generalize y.msb = right at *
  rw [Bool.eq_iff_iff, decide_eq_true_iff]
  cases left <;> cases right <;> cases result <;> simp at total ⊢ <;> omega

theorem carry_ofDifference :
    (ofDifference x y c).carry =
      ((!x.msb && y.msb) || ((!x.msb || y.msb) && (difference x y c).msb)) := by
  rw [ofDifference, borrowOut_eq, carryOut_eq, sum_difference]
  cases x.msb <;> cases y.msb <;> cases (difference x y c).msb <;> rfl

theorem overflow_ofDifference :
    (ofDifference x y c).overflow = (x.msb != y.msb && x.msb != (difference x y c).msb) := by
  have adds := overflow_ofSum (difference x y c) y c
  simp only [ofSum, sum_difference] at adds
  have moved : (difference x y c).toInt ≠ x.toInt - y.toInt - c.toNat ↔
      x.toInt ≠ (difference x y c).toInt + y.toInt + c.toNat := by omega
  rw [ofDifference, decide_eq_decide.mpr moved, adds]
  cases x.msb <;> cases y.msb <;> cases (difference x y c).msb <;> rfl

theorem zero_ofDifference : (ofDifference x y false).zero = true ↔ x = y := by
  have total := difference_toNat x y false
  have left := x.isLt
  have right := y.isLt
  rw [ofDifference, beq_iff_eq]
  constructor
  · intro zero
    apply BitVec.eq_of_toNat_eq
    rw [zero] at total
    cases wraps : borrowOut x y false <;> simp [wraps] at total <;> omega
  · rintro rfl
    simp [difference]

theorem lt_iff_carry : (ofDifference x y false).carry = true ↔ x < y := by
  simp [ofDifference, borrowOut, BitVec.lt_def]

theorem toInt_lt_iff :
    ((ofDifference x y false).negative ^^ (ofDifference x y false).overflow) = true ↔
      x.toInt < y.toInt := by
  have signs := overflow_ofDifference x y false
  have exact : (ofDifference x y false).overflow =
      decide ((difference x y false).toInt ≠ x.toInt - y.toInt - false.toNat) := rfl
  have negative : ∀ z : BitVec (w + 1), z.msb = decide (z.toInt < 0) := fun z => BitVec.msb_eq_toInt
  rw [signs, negative, negative, negative] at exact
  rw [signs, ofDifference, negative, negative, negative]
  simp only [Bool.toNat_false, Int.natCast_zero, Int.sub_zero] at exact
  grind

theorem sign_ofSum :
    ((ofSum x y c).negative ^^ (ofSum x y c).overflow) =
      decide (x.toInt + y.toInt + c.toNat < 0) := by
  have signs := overflow_ofSum x y c
  have exact : (ofSum x y c).overflow =
      decide ((sum x y c).toInt ≠ x.toInt + y.toInt + c.toNat) := rfl
  have bit := Bool.toNat_le c
  have negative : ∀ z : BitVec (w + 1), z.msb = decide (z.toInt < 0) := fun z => BitVec.msb_eq_toInt
  rw [signs, negative, negative, negative] at exact
  rw [signs, ofSum, negative, negative, negative]
  grind

end

end Flags
