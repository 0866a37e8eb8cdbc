import Mathlib.Algebra.Group.Nat.Defs
import Mathlib.Data.List.Induction
import Mathlib.Data.List.TakeWhile

/-! Hexadecimal numerals in text: how they are scanned, by a stream or by a format with a
field width, and how they are printed. A scanned numeral may have a sign and the marker
`0x`, and it ends at the first character that is no digit. -/

namespace Hexadecimal

/-- The characters that `isspace` accepts. -/
def isBlank (c : Char) : Bool := c == ' ' || (9 ≤ c.toNat && c.toNat ≤ 13)

def skipBlanks (text : List Char) : List Char := text.dropWhile isBlank

def digitValue (c : Char) : Nat :=
  if c.isDigit then c.toNat - '0'.toNat
  else if c.toNat < 'a'.toNat then c.toNat - 'A'.toNat + 10
  else c.toNat - 'a'.toNat + 10

def value (digits : List Char) : Nat := digits.foldl (fun n c => 16 * n + digitValue c) 0

def dropSign : List Char → Bool × List Char
  | '-' :: rest => (true, rest)
  | '+' :: rest => (false, rest)
  | text => (false, text)

def dropMarker : List Char → List Char
  | '0' :: 'x' :: rest => rest
  | '0' :: 'X' :: rest => rest
  | text => text

structure Scan where
  negative : Bool
  value : Nat
  rest : List Char
  deriving DecidableEq, Repr

def scan (text : List Char) : Option Scan :=
  let (negative, text) := dropSign text
  let digits := (dropMarker text).takeWhile Char.isHexDigit
  if digits = [] then none
  else some { negative, value := value digits, rest := (dropMarker text).dropWhile Char.isHexDigit }

def format (width n : Nat) : List Char :=
  List.replicate (width - (Nat.toDigits 16 n).length) ' ' ++ Nat.toDigits 16 n

structure Digits (text : List Char) (n : Nat) : Prop where
  nonempty : text ≠ []
  digits : ∀ c ∈ text, c.isHexDigit = true
  value : value text = n

def Numeral (text : List Char) (n : Nat) : Prop :=
  ∃ marker digits, text = marker ++ digits ∧ Digits digits n ∧
    (marker = [] ∨ marker = ['0', 'x'] ∨ marker = ['0', 'X'])

theorem value_append_singleton (digits : List Char) (c : Char) :
    value (digits ++ [c]) = 16 * value digits + digitValue c := by
  simp only [value, List.foldl_append, List.foldl_cons, List.foldl_nil]

theorem blank_not_digit {c : Char} (blank : isBlank c = true) :
    c.isHexDigit = false ∧ c ≠ 'x' ∧ c ≠ 'X' := by
  simp only [isBlank, Bool.or_eq_true, beq_iff_eq, Bool.and_eq_true, decide_eq_true_eq] at blank
  obtain rfl | ⟨_, low⟩ := blank
  · decide
  · refine ⟨?_, ?_, ?_⟩
    · simp only [Char.isHexDigit, Char.isDigit, ge_iff_le, UInt32.le_iff_toNat_le, Bool.or_eq_false_iff,
        Bool.and_eq_false_iff, decide_eq_false_iff_not]
      simp
      omega
    · rintro rfl
      revert low
      decide
    · rintro rfl
      revert low
      decide

theorem digit_not_blank {c : Char} (digit : c.isHexDigit = true) : isBlank c = false := by
  by_contra blank
  rw [(blank_not_digit (by simpa using blank)).1] at digit
  cases digit

theorem skipBlanks_append {blanks text : List Char} (blank : ∀ c ∈ blanks, isBlank c = true)
    (start : ∀ c ∈ text.head?, isBlank c = false) : skipBlanks (blanks ++ text) = text := by
  rw [skipBlanks, List.dropWhile_append_of_pos blank]
  cases text with
  | nil => rfl
  | cons c rest =>
      have solid := start c rfl
      rw [List.dropWhile_cons_of_neg (by simp [solid])]

theorem skipBlanks_eq_nil {blanks : List Char} (blank : ∀ c ∈ blanks, isBlank c = true) :
    skipBlanks blanks = [] :=
  List.dropWhile_eq_nil_iff.mpr blank

theorem takeWhile_digits {digits rest : List Char} (hex : ∀ c ∈ digits, c.isHexDigit = true)
    (stop : ∀ c ∈ rest.head?, c.isHexDigit = false) :
    (digits ++ rest).takeWhile Char.isHexDigit = digits ∧
      (digits ++ rest).dropWhile Char.isHexDigit = rest := by
  rw [List.takeWhile_append_of_pos hex, List.dropWhile_append_of_pos hex]
  cases rest with
  | nil => simp
  | cons c tail => simp [stop c rfl]

/-- A numeral is scanned up to its end, where a blank or nothing follows. -/
theorem scan_numeral {text : List Char} {n : Nat} (numeral : Numeral text n) (rest : List Char)
    (stop : ∀ c ∈ rest.head?, isBlank c = true) :
    scan (text ++ rest) = some { negative := false, value := n, rest := rest } := by
  obtain ⟨marker, digits, rfl, ⟨nonempty, hex, rfl⟩, marked⟩ := numeral
  have ended := takeWhile_digits hex fun c first => (blank_not_digit (stop c first)).1
  have unsigned : dropSign (marker ++ digits ++ rest) = (false, marker ++ digits ++ rest) := by
    obtain rfl | rfl | rfl := marked
    · cases digits with
      | nil => exact absurd rfl nonempty
      | cons c tail =>
          have digit := hex c List.mem_cons_self
          have minus : c ≠ '-' := by
            rintro rfl
            cases digit
          have plus : c ≠ '+' := by
            rintro rfl
            cases digit
          simp [dropSign, minus, plus]
    · rfl
    · rfl
  have unmarked : dropMarker (marker ++ digits ++ rest) = digits ++ rest := by
    obtain rfl | rfl | rfl := marked
    · rw [List.nil_append]
      cases digits with
      | nil => exact absurd rfl nonempty
      | cons c tail =>
          cases tail with
          | nil =>
              cases rest with
              | nil => simp [dropMarker]
              | cons d rest =>
                  have next := blank_not_digit (stop d rfl)
                  simp [dropMarker, next.2.1, next.2.2]
          | cons d tail =>
              have second := hex d (by simp)
              have small : d ≠ 'x' := by
                rintro rfl
                cases second
              have capital : d ≠ 'X' := by
                rintro rfl
                cases second
              simp [dropMarker, small, capital]
    · rfl
    · rfl
  simp only [scan, unsigned, unmarked, ended.1, ended.2, if_neg nonempty]

theorem length_dropSign_le (text : List Char) : (dropSign text).2.length ≤ text.length := by
  unfold dropSign
  split <;> simp

theorem length_dropMarker_le (text : List Char) : (dropMarker text).length ≤ text.length := by
  unfold dropMarker
  split
  · simp only [List.length_cons]
    omega
  · simp only [List.length_cons]
    omega
  · exact le_refl _

theorem scan_shorter {text : List Char} {found : Scan} (scans : scan text = some found) :
    found.rest.length < text.length := by
  have unsigned := length_dropSign_le text
  have unmarked := length_dropMarker_le (dropSign text).2
  simp only [scan, Option.ite_none_left_eq_some, Option.some.injEq] at scans
  obtain ⟨nonempty, rfl⟩ := scans
  have split := congrArg List.length
    (List.takeWhile_append_dropWhile (p := Char.isHexDigit) (l := dropMarker (dropSign text).2))
  have digits := List.length_pos_iff.mpr nonempty
  rw [List.length_append] at split
  change ((dropMarker (dropSign text).2).dropWhile Char.isHexDigit).length < _
  omega

theorem Numeral.head_not_blank {text : List Char} {n : Nat} (numeral : Numeral text n)
    (rest : List Char) : ∀ c ∈ (text ++ rest).head?, isBlank c = false := by
  obtain ⟨marker, digits, rfl, ⟨nonempty, hex, _⟩, rfl | rfl | rfl⟩ := numeral
  · cases digits with
    | nil => exact absurd rfl nonempty
    | cons c tail =>
        intro first same
        obtain rfl := Option.some.inj same
        exact digit_not_blank (hex _ List.mem_cons_self)
  · intro first same
    obtain rfl := Option.some.inj same
    rfl
  · intro first same
    obtain rfl := Option.some.inj same
    rfl

theorem digits_toDigits (n : Nat) : Digits (Nat.toDigits 16 n) n := by
  have small : ∀ d, d < 16 →
      (Nat.digitChar d).isHexDigit = true ∧ digitValue (Nat.digitChar d) = d := by decide
  induction n using Nat.strongRecOn with
  | ind n ih =>
      by_cases single : n < 16
      · rw [Nat.toDigits_of_lt_base single]
        exact ⟨List.cons_ne_nil _ _, by simpa using (small n single).1, by
          simpa [value] using (small n single).2⟩
      · have front := ih (n / 16) (by omega)
        have last := small (n % 16) (by omega)
        rw [Nat.toDigits_of_base_le (by decide) (by omega)]
        refine ⟨by simp, fun c member => ?_, ?_⟩
        · obtain earlier | rfl := List.mem_append.mp member |>.imp_right List.mem_singleton.mp
          · exact front.digits c earlier
          · exact last.1
        · rw [value_append_singleton, front.value, last.2]
          omega

end Hexadecimal
