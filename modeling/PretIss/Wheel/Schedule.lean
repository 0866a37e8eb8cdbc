import Mathlib.Tactic.IntervalCases
import PretIss.Library.Rotation
import PretIss.Model.WheeledMem

/-! Whose turn it is on the wheel. As long as a rotation has fewer than 2^32 cycles its
length does not wrap, but a cycle in its later half is a negative `int`, and so is the
number of the window then. -/

namespace PretIss.WheeledMem

variable {w : WheeledMem} (long : 0 < w.memoryWindow.toNat) (short : w.memoryWindow.toNat < 2 ^ 31)
  (room : 6 * w.memoryWindow.toNat < 2 ^ 32) (cycles : BitVec 32)

theorem rotation_toNat (room : 6 * w.memoryWindow.toNat < 2 ^ 32) :
    (w.memoryWindow * BitVec.ofNat 32 numThreads).toNat = w.memoryWindow.toNat * 6 := by
  rw [BitVec.toNat_mul]
  exact Nat.mod_eq_of_lt (show w.memoryWindow.toNat * 6 < 2 ^ 32 by omega)

theorem windowCycle_toNat (room : 6 * w.memoryWindow.toNat < 2 ^ 32) (cycles : BitVec 32) :
    (w.windowCycle cycles).toNat = cycles.toNat % (w.memoryWindow.toNat * 6) := by
  rw [windowCycle, BitVec.toNat_umod, rotation_toNat room]

include long short room

theorem divides_of_room : w.divides cycles = true := by
  have rotates : w.memoryWindow * BitVec.ofNat 32 numThreads ≠ 0 := by
    intro zero
    have length := rotation_toNat room
    rw [zero] at length
    change 0 = w.memoryWindow.toNat * 6 at length
    omega
  have forward : w.memoryWindow ≠ -1 := by
    intro back
    rw [back] at short
    exact absurd short (by decide)
  rw [divides, bne_iff_ne.mpr rotates, beq_eq_false_iff_ne.mpr forward]
  rfl

theorem windowCycle_lt : (w.windowCycle cycles).toNat < w.memoryWindow.toNat * 6 := by
  rw [windowCycle_toNat room]
  exact Nat.mod_lt _ (by omega)

theorem quotient_toInt : ((w.windowCycle cycles).sdiv w.memoryWindow).toInt =
    (w.windowCycle cycles).toInt.tdiv w.memoryWindow.toNat := by
  have length : w.memoryWindow.toInt = w.memoryWindow.toNat := BitVec.toInt_eq_toNat_of_lt (by omega)
  have forward : w.memoryWindow ≠ -1#32 := by
    intro back
    rw [back] at short
    exact absurd short (by decide)
  rw [BitVec.toInt_sdiv_of_ne_or_ne _ _ (.inr forward), length]

theorem currentThread_early (early : (w.windowCycle cycles).toNat < 2 ^ 31) :
    w.currentThread cycles =
      ((1 + Rotation.turn w.memoryWindow.toNat 6 cycles.toNat) % 6 : Nat) := by
  have inside := windowCycle_lt long short room cycles
  have value : (w.windowCycle cycles).toInt = (w.windowCycle cycles).toNat :=
    BitVec.toInt_eq_toNat_of_lt (by omega)
  have quotient := quotient_toInt long short room cycles
  rw [value, ← Int.ofNat_tdiv] at quotient
  have turn : (w.windowCycle cycles).toNat / w.memoryWindow.toNat =
      Rotation.turn w.memoryWindow.toNat 6 cycles.toNat := by
    rw [windowCycle_toNat room]
    rfl
  have bound : (w.windowCycle cycles).toNat / w.memoryWindow.toNat < 6 :=
    Nat.div_lt_of_lt_mul inside
  rw [currentThread, BitVec.toInt_srem, BitVec.toInt_add, quotient, ← turn]
  generalize (w.windowCycle cycles).toNat / w.memoryWindow.toNat = q at bound ⊢
  interval_cases q <;> decide

theorem currentThread_late (late : 2 ^ 31 ≤ (w.windowCycle cycles).toNat) :
    w.currentThread cycles =
      1 - ((2 ^ 32 - (w.windowCycle cycles).toNat) / w.memoryWindow.toNat : Nat) := by
  have inside := windowCycle_lt long short room cycles
  have value : (w.windowCycle cycles).toInt =
      -((2 ^ 32 - (w.windowCycle cycles).toNat : Nat) : Int) := by
    rw [BitVec.toInt_eq_toNat_cond, if_neg (by omega)]
    omega
  have quotient := quotient_toInt long short room cycles
  rw [value, Int.neg_tdiv, ← Int.ofNat_tdiv] at quotient
  have bound : (2 ^ 32 - (w.windowCycle cycles).toNat) / w.memoryWindow.toNat < 6 :=
    Nat.div_lt_of_lt_mul (by omega)
  rw [currentThread, BitVec.toInt_srem, BitVec.toInt_add, quotient]
  generalize (2 ^ 32 - (w.windowCycle cycles).toNat) / w.memoryWindow.toNat = q at bound ⊢
  interval_cases q <;> decide

end PretIss.WheeledMem
