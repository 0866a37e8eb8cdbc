import Mathlib.Algebra.Group.Nat.Defs
import Mathlib.Data.Nat.Init

/-! Fields of a word of any width: fields that are cut out with a mask or with two shifts, and
fields that are spliced into a word whose other bits stay as they are. -/

namespace BitField

variable {w : Nat}

/-- As many ones as the field is long, in its place. -/
def mask (w place length : Nat) : BitVec w := (BitVec.allOnes length).setWidth w <<< place

def splice (place length : Nat) (value word : BitVec w) : BitVec w :=
  ((value <<< place) &&& mask w place length) ||| (word &&& ~~~mask w place length)

theorem getLsbD_mask (place length : Nat) {i : Nat} (inside : i < w) :
    (mask w place length).getLsbD i = decide (place ≤ i ∧ i < place + length) := by
  have below : i - place < w := by omega
  simp only [mask, BitVec.getLsbD_shiftLeft, BitVec.getLsbD_setWidth, BitVec.getLsbD_allOnes,
    inside, below, decide_true, Bool.true_and]
  rw [Bool.eq_iff_iff]
  simp
  omega

theorem getLsbD_splice (place length : Nat) (value word : BitVec w) {i : Nat} (inside : i < w) :
    (splice place length value word).getLsbD i =
      if place ≤ i ∧ i < place + length then value.getLsbD (i - place) else word.getLsbD i := by
  rw [splice, BitVec.getLsbD_or, BitVec.getLsbD_and, BitVec.getLsbD_and, BitVec.getLsbD_not,
    getLsbD_mask place length inside, BitVec.getLsbD_shiftLeft]
  by_cases within : place ≤ i ∧ i < place + length
  · have above : ¬ i < place := by omega
    simp [within, inside, above]
  · simp [within, inside]

theorem extract_splice {place length start size : Nat} (value word : BitVec w)
    (fits : place + length ≤ w) (first : place ≤ start) (last : start + size ≤ place + length) :
    (splice place length value word).extractLsb' start size =
      value.extractLsb' (start - place) size := by
  apply BitVec.eq_of_getLsbD_eq
  intro i inside
  rw [BitVec.getLsbD_extractLsb', BitVec.getLsbD_extractLsb',
    getLsbD_splice place length value word (by omega), if_pos (by omega)]
  congr 2
  omega

theorem extract_splice_of_apart {place length start size : Nat} (value word : BitVec w)
    (fits : start + size ≤ w) (apart : start + size ≤ place ∨ place + length ≤ start) :
    (splice place length value word).extractLsb' start size = word.extractLsb' start size := by
  apply BitVec.eq_of_getLsbD_eq
  intro i inside
  rw [BitVec.getLsbD_extractLsb', BitVec.getLsbD_extractLsb',
    getLsbD_splice place length value word (by omega), if_neg (by omega)]

theorem ushiftRight_shiftLeft {place length : Nat} (word : BitVec w) (fits : place + length ≤ w) :
    (word <<< (w - (place + length))) >>> (w - length) =
      (word.extractLsb' place length).setWidth w := by
  apply BitVec.eq_of_getLsbD_eq
  intro i inside
  rw [BitVec.getLsbD_ushiftRight, BitVec.getLsbD_shiftLeft, BitVec.getLsbD_setWidth,
    BitVec.getLsbD_extractLsb']
  by_cases within : i < length
  · have above : ¬ w - length + i < w - (place + length) := by omega
    have below : w - length + i < w := by omega
    have same : w - length + i - (w - (place + length)) = place + i := by omega
    simp [within, inside, above, below, same]
  · have outside : ¬ w - length + i < w := by omega
    simp [within, outside]

theorem sshiftRight_shiftLeft {place length : Nat} (word : BitVec w) (some : 0 < length)
    (fits : place + length ≤ w) :
    (word <<< (w - (place + length))).sshiftRight (w - length) =
      (word.extractLsb' place length).signExtend w := by
  have top : (word <<< (w - (place + length))).msb = (word.extractLsb' place length).msb := by
    have same : w - 1 - (w - (place + length)) = place + (length - 1) := by omega
    have last : length - 1 < length := by omega
    have below : w - 1 < w := by omega
    have above : ¬ w - 1 < w - (place + length) := by omega
    rw [BitVec.msb_eq_getLsbD_last, BitVec.msb_eq_getLsbD_last, BitVec.getLsbD_shiftLeft,
      BitVec.getLsbD_extractLsb', same]
    simp [last, below, above]
  apply BitVec.eq_of_getLsbD_eq
  intro i inside
  rw [BitVec.getLsbD_sshiftRight, BitVec.getLsbD_signExtend, BitVec.getLsbD_shiftLeft,
    BitVec.getLsbD_extractLsb', top]
  have before : ¬ w ≤ i := by omega
  by_cases within : i < length
  · have above : ¬ w - length + i < w - (place + length) := by omega
    have below : w - length + i < w := by omega
    have same : w - length + i - (w - (place + length)) = place + i := by omega
    simp [within, inside, above, below, before, same]
  · have outside : ¬ w - length + i < w := by omega
    simp [within, inside, outside, before]

theorem toNat_cut_le (word mask : BitVec w) (shift width : Nat) :
    (((word &&& mask) >>> shift).setWidth width).toNat ≤ mask.toNat / 2 ^ shift := by
  rw [BitVec.toNat_setWidth, BitVec.toNat_ushiftRight, BitVec.toNat_and, Nat.shiftRight_eq_div_pow]
  calc (word.toNat &&& mask.toNat) / 2 ^ shift % 2 ^ width
      ≤ (word.toNat &&& mask.toNat) / 2 ^ shift := Nat.mod_le _ _
    _ ≤ mask.toNat / 2 ^ shift := Nat.div_le_div_right Nat.and_le_right

theorem cut_bit (word : BitVec w) {single : BitVec w} {place : Nat} (one : single = 1#w <<< place)
    (inside : place < w) : ((word &&& single) >>> place != 0) = word.getLsbD place := by
  have shifted : ∀ i, i < w → ((word &&& single) >>> place).getLsbD i =
      (decide (i = 0) && word.getLsbD place) := by
    intro i below
    rw [one]
    cases i with
    | zero => simp [inside, below]
    | succ i => simp
  cases bit : word.getLsbD place with
  | false =>
      have zero : (word &&& single) >>> place = 0 := by
        apply BitVec.eq_of_getLsbD_eq
        intro i below
        rw [shifted i below, bit]
        simp
      rw [zero]
      simp
  | true =>
      rw [bne_iff_ne]
      intro zero
      have first := shifted 0 (by omega)
      rw [zero, bit] at first
      simp at first

theorem exists_narrow (length : Nat) (word : BitVec w) (small : word.toNat < 2 ^ length) :
    ∃ field : BitVec length, word = field.setWidth w := by
  refine ⟨word.setWidth length, ?_⟩
  apply BitVec.eq_of_toNat_eq
  simp [Nat.mod_eq_of_lt small]

end BitField
