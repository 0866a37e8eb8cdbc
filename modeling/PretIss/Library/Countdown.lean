import Mathlib.Algebra.Group.Nat.Defs
import Mathlib.Data.Nat.Init

/-! A counter of `w` bits that is counted down and never stopped. As a signed number
it runs out at the tick that its start value names, and stays so for half the range,
until it comes round to the positive numbers. -/

namespace Countdown

variable {w : Nat}

/-- The counter after some ticks. -/
def after (start : BitVec w) (ticks : Nat) : BitVec w := start - BitVec.ofNat w ticks

@[simp] theorem after_zero (start : BitVec w) : after start 0 = start := by
  simp [after]

theorem after_succ (start : BitVec w) (ticks : Nat) :
    after start (ticks + 1) = after start ticks - 1 := by
  rw [after, after, BitVec.ofNat_add, BitVec.sub_sub]
  rfl

theorem toInt_tick {counter : BitVec w} (above : -(2 ^ w : Nat) ≤ 2 * (counter.toInt - 1)) :
    (counter - 1).toInt = counter.toInt - 1 := by
  have one : (1 : BitVec w) = BitVec.ofNat w 1 := rfl
  have below := BitVec.two_mul_toInt_lt (x := counter)
  rw [one, BitVec.toInt_sub, BitVec.toInt_ofNat', Int.sub_bmod_bmod]
  exact Int.bmod_eq_of_le_mul_two (by omega) (by push_cast at below ⊢; omega)

theorem toInt_after {start : BitVec w} {ticks : Nat} (small : 2 * start.toNat < 2 ^ w)
    (few : 2 * ticks ≤ 2 ^ w) : (after start ticks).toInt = start.toNat - ticks := by
  rw [after, BitVec.toInt_sub, BitVec.toInt_eq_toNat_of_lt small, BitVec.toInt_ofNat',
    Int.sub_bmod_bmod]
  exact Int.bmod_eq_of_le_mul_two (by omega) (by omega)

theorem sle_zero_iff {start : BitVec w} {ticks : Nat} (small : 2 * start.toNat < 2 ^ w)
    (few : 2 * ticks ≤ 2 ^ w) : (after start ticks).sle 0 = true ↔ start.toNat ≤ ticks := by
  have zero : (0 : BitVec w).toInt = 0 := BitVec.toInt_zero
  rw [BitVec.sle_iff_toInt_le, toInt_after small few, zero]
  omega

theorem slt_zero_iff {start : BitVec w} {ticks : Nat} (small : 2 * start.toNat < 2 ^ w)
    (few : 2 * ticks ≤ 2 ^ w) : (after start ticks).slt 0 = true ↔ start.toNat < ticks := by
  have zero : (0 : BitVec w).toInt = 0 := BitVec.toInt_zero
  rw [BitVec.slt_iff_toInt_lt, toInt_after small few, zero]
  omega

end Countdown
