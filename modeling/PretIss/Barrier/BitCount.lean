import PretIss.Library.OctalCount
import PretIss.Model.SyncTable

/-! The bit count of the thread controller is the number of bits set. -/

namespace PretIss

open OctalCount

theorem and_low (x mask : Nat) (bound : x < 2 ^ 32) : x &&& mask = x &&& (mask % 2 ^ 32) := by
  have low := Nat.and_mod_two_pow (a := x) (b := mask) (n := 32)
  have small : x &&& mask ≤ x := Nat.and_le_left
  rwa [Nat.mod_eq_of_lt (by omega), Nat.mod_eq_of_lt bound] at low

theorem ones_high (n : Nat) (bound : n < 2 ^ 32) : ones (6 * 6) n = ones 32 n := by
  change Nat.count (fun i => n.testBit i) (32 + 4) = _
  rw [Nat.count_add]
  have high : Nat.count (fun i => n.testBit (32 + i)) 4 = 0 := by
    rw [Nat.count_iff_forall_not]
    intro i _
    rw [Nat.testBit_lt_two_pow (lt_of_lt_of_le bound (Nat.pow_le_pow_right (by decide) (by omega)))]
    decide
  rw [high]
  rfl

section

variable (n : BitVec 32)

theorem half_toNat : ((n >>> 1) &&& 0xDB6DB6DB#32).toNat = n.toNat / 2 &&& repeated 27 6 := by
  have bound := n.isLt
  rw [and_low _ (repeated 27 6) (by omega), BitVec.toNat_and, BitVec.toNat_ushiftRight,
    Nat.shiftRight_eq_div_pow]
  rfl

theorem quarter_toNat : ((n >>> 2) &&& 0x49249249#32).toNat = n.toNat / 4 &&& repeated 9 6 := by
  have bound := n.isLt
  rw [and_low _ (repeated 9 6) (by omega), BitVec.toNat_and, BitVec.toNat_ushiftRight,
    Nat.shiftRight_eq_div_pow]
  rfl

theorem masked_le :
    ((n >>> 1) &&& 0xDB6DB6DB#32).toNat + ((n >>> 2) &&& 0x49249249#32).toNat ≤ n.toNat := by
  rw [half_toNat, quarter_toNat]
  exact parts_le 6 n.toNat (by omega)

theorem tmp_toNat :
    (n - ((n >>> 1) &&& 0xDB6DB6DB#32) - ((n >>> 2) &&& 0x49249249#32)).toNat =
      spread 6 n.toNat := by
  have parts := masked_le n
  rw [BitVec.toNat_sub_of_le, BitVec.toNat_sub_of_le, half_toNat, quarter_toNat, spread]
  · rw [BitVec.le_def]
    omega
  · rw [BitVec.le_def, BitVec.toNat_sub_of_le]
    · omega
    · rw [BitVec.le_def]
      omega

theorem spread_fits : spread 6 n.toNat + spread 6 n.toNat / 8 < 2 ^ 32 := by
  have room : 7 * spread 6 n.toNat + 3 ≤ 17 * 64 ^ 5 := spread_le 5 n.toNat (by omega)
  omega

theorem bitCount_eq : bitCount n = ones 32 n.toNat := by
  have result := paired_mod_eq 6 n.toNat (by omega) (by omega)
  rw [ones_high n.toNat n.isLt, paired, and_low _ (repeated 7 6) (spread_fits n)] at result
  rw [← result]
  change ((_ + _) &&& 0xC71C71C7#32).toNat % 63 = _
  rw [BitVec.toNat_and, BitVec.toNat_add, BitVec.toNat_ushiftRight, tmp_toNat,
    Nat.shiftRight_eq_div_pow, Nat.mod_eq_of_lt (spread_fits n)]
  rfl

/-- The bit count is the number of bits that are set. No subtraction on the way wraps, and no
sum. -/
theorem bitCount_counts :
    bitCount n = Nat.count (fun i => n.getLsbD i = true) 32 ∧
      ((n >>> 1) &&& 0xDB6DB6DB#32) ≤ n ∧
      ((n >>> 2) &&& 0x49249249#32) ≤ n - ((n >>> 1) &&& 0xDB6DB6DB#32) ∧
      let tmp := n - ((n >>> 1) &&& 0xDB6DB6DB#32) - ((n >>> 2) &&& 0x49249249#32)
      tmp.toNat + (tmp >>> 3).toNat < 2 ^ 32 := by
  have parts := masked_le n
  have half : ((n >>> 1) &&& 0xDB6DB6DB#32) ≤ n := by
    rw [BitVec.le_def]
    omega
  refine ⟨bitCount_eq n, half, ?_, ?_⟩
  · rw [BitVec.le_def, BitVec.toNat_sub_of_le half]
    omega
  · simp only [BitVec.toNat_ushiftRight, tmp_toNat, Nat.shiftRight_eq_div_pow]
    exact spread_fits n

end

/-- The number of threads a mask names. -/
def popcount (mask : BitVec 16) : Nat := Nat.count (fun i => mask.getLsbD i) 16

theorem bitCount_mask (mask : BitVec 16) : bitCount (mask.setWidth 32) = popcount mask := by
  rw [bitCount_eq, BitVec.toNat_setWidth_of_le (by decide)]
  change Nat.count (fun i => mask.toNat.testBit i) (16 + 16) = _
  rw [Nat.count_add]
  have high : Nat.count (fun i => mask.toNat.testBit (16 + i)) 16 = 0 := by
    rw [Nat.count_iff_forall_not]
    intro i _
    have bound := mask.isLt
    rw [Nat.testBit_lt_two_pow (lt_of_lt_of_le bound (Nat.pow_le_pow_right (by decide) (by omega)))]
    decide
  rw [high]
  rfl

theorem popcount_le (mask : BitVec 16) : popcount mask ≤ 16 := Nat.count_le _

theorem popcount_pos {mask : BitVec 16} {i : Nat} (member : mask.getLsbD i = true) :
    0 < popcount mask := by
  apply Nat.pos_of_ne_zero
  rw [popcount, Nat.count_ne_iff_exists]
  exact ⟨i, BitVec.lt_of_getLsbD member, member⟩

theorem popcount_le_card {mask : BitVec 16} (threads : Finset ThreadId)
    (members : ∀ b, mask.getLsbD b = true → ∃ i ∈ threads, i.val = b) :
    popcount mask ≤ threads.card := by
  rw [popcount, Nat.count_eq_card_filter_range]
  calc
    _ ≤ (threads.image Fin.val).card := by
      apply Finset.card_le_card
      intro b found
      obtain ⟨i, member, same⟩ := members b (Finset.mem_filter.mp found).2
      exact Finset.mem_image.mpr ⟨i, member, same⟩
    _ ≤ threads.card := Finset.card_image_le

theorem card_le_popcount {mask : BitVec 16} (threads : Finset ThreadId)
    (members : ∀ i ∈ threads, mask.getLsbD i.val = true) : threads.card ≤ popcount mask := by
  rw [popcount, Nat.count_eq_card_filter_range,
    ← Finset.card_image_of_injective threads Fin.val_injective]
  apply Finset.card_le_card
  intro b found
  obtain ⟨i, member, rfl⟩ := Finset.mem_image.mp found
  exact Finset.mem_filter.mpr
    ⟨Finset.mem_range.mpr (BitVec.lt_of_getLsbD (members i member)), members i member⟩

end PretIss
