import Mathlib.Data.Nat.ModEq

/-! A rotation cuts time into windows of one length and deals them out to slots in
turn. A time is in the window of one slot, at an offset into it, and the two
together are its position in the rotation. -/

namespace Rotation

variable (window slots : Nat)

def turn (time : Nat) : Nat := time % (window * slots) / window

def offset (time : Nat) : Nat := time % window

variable {window slots}

theorem turn_eq (time : Nat) : turn window slots time = time / window % slots :=
  Nat.mod_mul_right_div_self time window slots

theorem turn_lt (some : 0 < slots) (time : Nat) : turn window slots time < slots := by
  rw [turn_eq]
  exact Nat.mod_lt _ some

theorem offset_lt (long : 0 < window) (time : Nat) : offset window time < window :=
  Nat.mod_lt _ long

theorem position_eq (time : Nat) :
    time % (window * slots) = turn window slots time * window + offset window time := by
  have whole := Nat.div_add_mod (time % (window * slots)) window
  rw [Nat.mod_mul_right_mod, Nat.mul_comm] at whole
  exact whole.symm

theorem phase_eq {phases : Nat} (divides : phases ∣ window * slots) (time : Nat) :
    time % phases = (turn window slots time * window + offset window time) % phases := by
  rw [← position_eq, Nat.mod_mod_of_dvd time divides]

theorem exists_position {slot place : Nat} (known : slot < slots) (inside : place < window)
    (start : Nat) :
    ∃ time, start ≤ time ∧ time < start + window * slots ∧ turn window slots time = slot ∧
      offset window time = place := by
  have target : slot * window + place < window * slots := by
    calc slot * window + place < slot * window + window := by omega
      _ = (slot + 1) * window := (Nat.succ_mul slot window).symm
      _ ≤ slots * window := Nat.mul_le_mul_right window known
      _ = window * slots := Nat.mul_comm _ _
  have rotation : 0 < window * slots := by omega
  have begun := Nat.mod_lt start rotation
  have wait : ∃ wait, wait < window * slots ∧
      (start + wait) % (window * slots) = slot * window + place := by
    refine ⟨(slot * window + place + (window * slots - start % (window * slots))) %
      (window * slots), Nat.mod_lt _ rotation, ?_⟩
    have regroup : start % (window * slots) + (slot * window + place +
        (window * slots - start % (window * slots))) =
        slot * window + place + window * slots := by omega
    rw [Nat.add_mod_mod, ← Nat.mod_add_mod, regroup, Nat.add_mod_right, Nat.mod_eq_of_lt target]
  obtain ⟨wait, short, reached⟩ := wait
  refine ⟨start + wait, by omega, by omega, ?_, ?_⟩
  · rw [turn, reached, Nat.mul_comm, Nat.mul_add_div (by omega), Nat.div_eq_of_lt inside,
      Nat.add_zero]
  · rw [offset, ← Nat.mod_mul_right_mod (start + wait) window slots, reached, Nat.mul_comm,
      Nat.mul_add_mod, Nat.mod_eq_of_lt inside]

end Rotation
