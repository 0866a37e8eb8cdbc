import PretIss.Model.SrecParser

/-! Loading a list of S-records. The words of the data records are stored in their order, and
the parser returns the address of the last start record; a data record whose count leaves no
whole number of words ends the load. -/

namespace PretIss

open Hexadecimal

structure HexField (n : Nat) (text : List Char) : Prop where
  length : text.length = n
  digits : ∀ c ∈ text, c.isHexDigit = true

/-- A record as it is written. The bytes of a data record are given by words. -/
inductive Record where
  | ignored (sType : Char) (count rest : List Char)
  | data (width : Nat) (count address : List Char) (words : List (List Char))
      (checksum : List Char)
  | start (width : Nat) (count address checksum : List Char)

theorem HexField.of_digits {n : Nat} {text : List Char}
    (fits : (text.length == n && text.all Char.isHexDigit) = true) : HexField n text := by
  simp only [Bool.and_eq_true, beq_iff_eq, List.all_eq_true] at fits
  exact ⟨fits.1, fits.2⟩

theorem HexField.nonempty {n : Nat} {text : List Char} (field : HexField (n + 1) text) :
    text ≠ [] := by
  rintro rfl
  cases field.length

theorem HexField.pair {text : List Char} (field : HexField 2 text) :
    ∃ c d, text = [c, d] ∧ isBlank c = false ∧ isBlank d = false := by
  obtain ⟨c, d, rfl⟩ := List.length_eq_two.mp field.length
  exact ⟨c, d, rfl, digit_not_blank (field.digits c (by simp)),
    digit_not_blank (field.digits d (by simp))⟩

namespace Record

def dataType (width : Nat) : Char := if width = 2 then '1' else if width = 3 then '2' else '3'

def startType (width : Nat) : Char := if width = 2 then '9' else if width = 3 then '8' else '7'

def text : Record → List Char
  | ignored sType count rest => 'S' :: sType :: (count ++ rest)
  | data width count address words checksum =>
      'S' :: dataType width :: (count ++ (address ++ (words.flatten ++ checksum)))
  | start width count address checksum =>
      'S' :: startType width :: (count ++ (address ++ checksum))

/-- The count of a record counts the bytes behind it, the checksum included. -/
def WellFormed : Record → Prop
  | ignored sType count rest =>
      (sType = '0' ∨ sType = '5') ∧ HexField 2 count ∧ rest ≠ [] ∧ ∀ c ∈ rest, isBlank c = false
  | data width count address words checksum =>
      (width = 2 ∨ width = 3 ∨ width = 4) ∧ HexField 2 count ∧ HexField (2 * width) address ∧
        (∀ word ∈ words, HexField 8 word) ∧ HexField 2 checksum ∧
        value count = width + 4 * words.length + 1
  | start width count address checksum =>
      (width = 2 ∨ width = 3 ∨ width = 4) ∧ HexField 2 count ∧ HexField (2 * width) address ∧
        HexField 2 checksum

def wordsFrom (addr : Word) : List (List Char) → List (Word × Word)
  | [] => []
  | word :: rest => (addr, BitVec.ofNat 32 (value word)) :: wordsFrom (addr + 4) rest

def writes : Record → List (Word × Word)
  | ignored _ _ _ | start _ _ _ _ => []
  | data _ _ address words _ => wordsFrom (BitVec.ofNat 32 (value address)) words

def startAddress : Record → Option Word
  | ignored _ _ _ | data _ _ _ _ _ => none
  | start _ _ address _ => some (BitVec.ofNat 32 (value address))

end Record

/-- A text of these records, with blanks before and between them, that ends in a tail. -/
inductive Listing (tail : List Char) : List Record → List Char → Prop where
  | nil : Listing tail [] tail
  | cons {lead rest : List Char} {record : Record} {records : List Record}
      (blank : ∀ c ∈ lead, isBlank c = true) (apart : ∀ c ∈ rest.head?, isBlank c = true)
      (later : Listing tail records rest) :
      Listing tail (record :: records) (lead ++ (record.text ++ rest))

namespace SrecParser

/-- The parser once the words are stored and the start addresses taken over. -/
def loaded (parser : SrecParser) (records : List Record) : SrecParser where
  mem := (records.flatMap Record.writes).foldl (fun mem write => mem.addAddress write.1 write.2)
    parser.mem
  startingAddr := (records.filterMap Record.startAddress).getLast?.getD parser.startingAddr

theorem loaded_cons (parser : SrecParser) (record : Record) (records : List Record) :
    parser.loaded (record :: records) = (parser.loaded [record]).loaded records := by
  unfold loaded
  congr 1
  · simp [List.foldl_append]
  · cases first : record.startAddress with
    | none => simp [first]
    | some addr => simp [first, List.getLast?_cons]

theorem scanHex_field {n : Nat} {text : List Char} (field : HexField (n + 1) text)
    (rest : List Char) : scanHex (n + 1) (text ++ rest) = .ok (value text, rest) := by
  have numeral : Numeral text (value text) :=
    ⟨[], text, rfl, ⟨field.nonempty, field.digits, rfl⟩, Or.inl rfl⟩
  have scanned := scan_numeral numeral [] (by simp)
  rw [List.append_nil] at scanned
  have start : skipBlanks (text ++ rest) = text ++ rest :=
    skipBlanks_append (List.forall_mem_nil _) (numeral.head_not_blank rest)
  simp only [scanHex, start, List.take_left' field.length, List.drop_left' field.length, scanned,
    Bool.false_eq_true, if_false, List.nil_append]

theorem scanString_pair {lead : List Char} (blank : ∀ c ∈ lead, isBlank c = true) {c d : Char}
    (first : isBlank c = false) (second : isBlank d = false) (rest : List Char) :
    scanString (some 2) (lead ++ c :: d :: rest) = some ([c, d], rest) := by
  have start : skipBlanks (lead ++ c :: d :: rest) = c :: d :: rest :=
    skipBlanks_append blank (by simp [first])
  simp [scanString, start, first, second]

theorem scanString_token {word rest : List Char} (nonempty : word ≠ [])
    (solid : ∀ c ∈ word, isBlank c = false) (apart : ∀ c ∈ rest.head?, isBlank c = true) :
    scanString none (word ++ rest) = some (word, rest) := by
  have start : skipBlanks (word ++ rest) = word ++ rest := by
    cases word with
    | nil => exact absurd rfl nonempty
    | cons c tail => exact List.dropWhile_cons_of_neg (by simp [solid c List.mem_cons_self])
  have taken : (word ++ rest).takeWhile (!isBlank ·) = word := by
    rw [List.takeWhile_append_of_pos fun c member => by simp [solid c member]]
    cases rest with
    | nil => simp
    | cons c tail => simp [apart c rfl]
  simp [scanString, start, taken, nonempty]

theorem skipChecksum_field {checksum : List Char} (field : HexField 2 checksum) (rest : List Char) :
    skipChecksum (checksum ++ rest) = some rest := by
  obtain ⟨c, d, rfl, first, second⟩ := field.pair
  exact congrArg (Option.map Prod.snd) (scanString_pair (List.forall_mem_nil _) first second rest)

theorem readWords_words {words : List (List Char)} (fields : ∀ word ∈ words, HexField 8 word)
    (mem : MemoryUnit) (addr : Word) (rest : List Char) :
    readWords mem addr (4 * words.length + 1 : Nat) (words.flatten ++ rest) =
      .ok ((Record.wordsFrom addr words).foldl (fun mem write => mem.addAddress write.1 write.2) mem,
        rest) := by
  induction words generalizing mem addr with
  | nil =>
      rw [readWords, if_pos (by simp)]
      rfl
  | cons word words ih =>
      rw [List.forall_mem_cons] at fields
      have reads : scanHex 8 (word ++ (words.flatten ++ rest)) =
          .ok (value word, words.flatten ++ rest) := scanHex_field fields.1 _
      have fewer : ((4 * (word :: words).length + 1 : Nat) : Int) - 4 =
          (4 * words.length + 1 : Nat) := by
        rw [List.length_cons]
        omega
      have more : ((4 * (word :: words).length + 1 : Nat) : Int) ≠ 1 := by
        rw [List.length_cons]
        omega
      rw [List.flatten_cons, List.append_assoc, readWords, if_neg more]
      split
      · rename_i failed
        rw [reads] at failed
        cases failed
      · rename_i nextWord left first
        rw [reads] at first
        obtain ⟨rfl, rfl⟩ := Prod.mk.inj (Except.ok.inj first)
        rw [fewer, ih fields.2]
        rfl

theorem addressWidth_dataType {width : Nat} (known : width = 2 ∨ width = 3 ∨ width = 4) :
    addressWidth (some (Record.dataType width)) = some width ∧
      isStart (some (Record.dataType width)) = false ∧
      isBlank (Record.dataType width) = false := by
  obtain rfl | rfl | rfl := known <;> decide

theorem addressWidth_startType {width : Nat} (known : width = 2 ∨ width = 3 ∨ width = 4) :
    addressWidth (some (Record.startType width)) = some width ∧
      isStart (some (Record.startType width)) = true ∧
      isBlank (Record.startType width) = false := by
  obtain rfl | rfl | rfl := known <;> decide

theorem tmod_four_eq_one_iff (remaining : Int) :
    remaining.tmod 4 = 1 ↔ ∃ k : Nat, remaining = 4 * k + 1 := by
  by_cases negative : remaining < 0
  · have sign := Int.tmod_nonneg 4 (show 0 ≤ -remaining by omega)
    rw [Int.neg_tmod] at sign
    constructor
    · omega
    · rintro ⟨k, same⟩
      omega
  · rw [Int.tmod_eq_emod_of_nonneg (by omega)]
    constructor
    · intro one
      exact ⟨(remaining / 4).toNat, by omega⟩
    · rintro ⟨k, same⟩
      omega

section

variable {lead : List Char} (blank : ∀ c ∈ lead, isBlank c = true) (parser : SrecParser)

include blank

theorem readline_header {sType : Char} {width : Nat} {count address : List Char}
    (solid : isBlank sType = false) (wide : addressWidth (some sType) = some width)
    (known : width = 2 ∨ width = 3 ∨ width = 4) (counts : HexField 2 count)
    (field : HexField (2 * width) address) (rest : List Char) :
    parser.readline (lead ++ 'S' :: sType :: (count ++ (address ++ rest))) =
      if isStart (some sType) then
        .ok ({ parser with startingAddr := BitVec.ofNat 32 (value address) }, skipChecksum rest)
      else if ((value count : Int) - width).tmod 4 ≠ 1 then .ok (parser, none)
      else do
        let (mem, rest) ←
          readWords parser.mem (BitVec.ofNat 32 (value address)) ((value count : Int) - width) rest
        return ({ parser with mem }, skipChecksum rest) := by
  have nonzero : 2 * width = 2 * width - 1 + 1 := by omega
  rw [nonzero] at field
  have first := scanString_pair blank (c := 'S') (by decide) solid (count ++ (address ++ rest))
  have second : scanHex 2 (count ++ (address ++ rest)) = _ := scanHex_field counts _
  have third := scanHex_field field rest
  rw [← nonzero] at third
  simp only [readline, first, second, List.getElem?_cons_succ, List.getElem?_cons_zero, wide, third,
    bind, Except.bind, pure, Except.pure, BitVec.ofInt_natCast]

/-- A well-formed record is read and does what it says. -/
theorem readline_record {record : Record} (formed : record.WellFormed) {rest : List Char}
    (apart : ∀ c ∈ rest.head?, isBlank c = true) :
    parser.readline (lead ++ (record.text ++ rest)) = .ok (parser.loaded [record], some rest) := by
  cases record with
  | ignored sType count trash =>
      obtain ⟨known, counts, nonempty, solid⟩ := formed
      have type : isBlank sType = false ∧ addressWidth (some sType) = none := by
        obtain rfl | rfl := known <;> decide
      have first := scanString_pair blank (c := 'S') (by decide) type.1 (count ++ (trash ++ rest))
      have second : scanHex 2 (count ++ (trash ++ rest)) = _ := scanHex_field counts _
      have third := scanString_token nonempty solid apart
      simp only [Record.text, List.cons_append, List.append_assoc, readline, first, second,
        List.getElem?_cons_succ, List.getElem?_cons_zero, type.2, third, bind, Except.bind, pure,
        Except.pure]
      rfl
  | data width count address words checksum =>
      obtain ⟨known, counts, addresses, fields, check, whole⟩ := formed
      obtain ⟨wide, kind, solid⟩ := addressWidth_dataType known
      have left : (value count : Int) - width = (4 * words.length + 1 : Nat) := by omega
      have aligned : ¬ ((value count : Int) - width).tmod 4 ≠ 1 := by
        rw [not_not, tmod_four_eq_one_iff, left]
        exact ⟨words.length, by omega⟩
      have header := readline_header blank parser solid wide known counts addresses
        (words.flatten ++ (checksum ++ rest))
      rw [kind, if_neg Bool.false_ne_true, if_neg aligned, left, readWords_words fields] at header
      simp only [Record.text, List.cons_append, List.append_assoc, header, bind, Except.bind, pure,
        Except.pure, skipChecksum_field check]
      simp [loaded, Record.writes, Record.startAddress]
  | start width count address checksum =>
      obtain ⟨known, counts, addresses, check⟩ := formed
      obtain ⟨wide, kind, solid⟩ := addressWidth_startType known
      have header := readline_header blank parser solid wide known counts addresses
        (checksum ++ rest)
      rw [kind, if_pos rfl, skipChecksum_field check] at header
      simp only [Record.text, List.cons_append, List.append_assoc, header]
      simp [loaded, Record.writes, Record.startAddress]

theorem readline_blank : parser.readline lead = .ok (parser, none) := by
  simp [readline, scanString, skipBlanks_eq_nil blank]

end

theorem readlines_of_end {parser parser' : SrecParser} {text : List Char}
    (reads : parser.readline text = .ok (parser', none)) : parser.readlines text = .ok parser' := by
  rw [readlines]
  split
  · rename_i failed
    rw [reads] at failed
    cases failed
  · rename_i same
    rw [reads] at same
    exact congrArg Except.ok (Prod.mk.inj (Except.ok.inj same)).1.symm
  · rename_i more
    rw [reads] at more
    cases more

theorem readlines_of_more {parser parser' : SrecParser} {text rest : List Char}
    (reads : parser.readline text = .ok (parser', some rest)) :
    parser.readlines text = parser'.readlines rest := by
  rw [readlines]
  split
  · rename_i failed
    rw [reads] at failed
    cases failed
  · rename_i ended
    rw [reads] at ended
    cases ended
  · rename_i same
    rw [reads] at same
    obtain ⟨rfl, left⟩ := Prod.mk.inj (Except.ok.inj same)
    rw [Option.some.inj left]

theorem readlines_listing (parser : SrecParser) {tail : List Char} {records : List Record}
    (formed : ∀ record ∈ records, record.WellFormed) {text : List Char}
    (listing : Listing tail records text) :
    parser.readlines text = (parser.loaded records).readlines tail := by
  induction listing generalizing parser with
  | nil => rfl
  | cons blank apart later ih =>
      rw [List.forall_mem_cons] at formed
      rw [readlines_of_more (readline_record blank parser formed.1 apart), ih _ formed.2,
        ← loaded_cons]

/-- A data record up to its address, whose count leaves no whole number of words. -/
structure Malformed (width : Nat) (count address : List Char) : Prop where
  known : width = 2 ∨ width = 3 ∨ width = 4
  counts : HexField 2 count
  field : HexField (2 * width) address
  ragged : ¬ ∃ k, value count = width + (4 * k + 1)

theorem readlines_malformed {lead : List Char} (blank : ∀ c ∈ lead, isBlank c = true)
    (parser : SrecParser) {width : Nat} {count address : List Char}
    (malformed : Malformed width count address) (rest : List Char) :
    parser.readlines (lead ++ 'S' :: Record.dataType width :: (count ++ (address ++ rest))) =
      .ok parser := by
  obtain ⟨wide, kind, solid⟩ := addressWidth_dataType malformed.known
  have header := readline_header blank parser solid wide malformed.known malformed.counts
    malformed.field rest
  have ragged : ((value count : Int) - width).tmod 4 ≠ 1 := by
    rw [ne_eq, tmod_four_eq_one_iff]
    rintro ⟨k, same⟩
    exact malformed.ragged ⟨k, by omega⟩
  rw [kind, if_neg Bool.false_ne_true, if_pos ragged] at header
  exact readlines_of_end header

/-- A list of records is loaded and the address of the last start record returned, at the end of
the text or at the first data record whose count is malformed. -/
theorem parse_listing (parser : SrecParser) {records : List Record}
    (formed : ∀ record ∈ records, record.WellFormed) :
    (∀ blanks text, (∀ c ∈ blanks, isBlank c = true) → Listing blanks records text →
        parser.parse (some text) =
          .ok (parser.loaded records, (parser.loaded records).startingAddr)) ∧
      ∀ lead width count address rest text, (∀ c ∈ lead, isBlank c = true) →
        Malformed width count address →
        Listing (lead ++ 'S' :: Record.dataType width :: (count ++ (address ++ rest))) records text →
        parser.parse (some text) =
          .ok (parser.loaded records, (parser.loaded records).startingAddr) := by
  constructor
  · intro blanks text blank listing
    rw [parse, readlines_listing parser formed listing, readlines_of_end (readline_blank blank _)]
    rfl
  · intro lead width count address rest text blank malformed listing
    rw [parse, readlines_listing parser formed listing, readlines_malformed blank _ malformed]
    rfl

def program : List Record :=
  [.ignored '0' "03".toList "0000FC".toList,
    .data 4 "09".toList "40000000".toList ["01000000".toList] "B5".toList,
    .start 4 "05".toList "40000000".toList "BA".toList]

theorem program_wellFormed : ∀ record ∈ program, record.WellFormed := by
  simp only [program, List.forall_mem_cons, List.not_mem_nil, false_implies, implies_true, and_true]
  have header : HexField 6 "0000FC".toList := .of_digits rfl
  refine ⟨⟨Or.inl rfl, .of_digits rfl, header.nonempty, fun c member =>
      digit_not_blank (header.digits c member)⟩,
    ⟨Or.inr (Or.inr rfl), .of_digits rfl, .of_digits rfl, ?_, .of_digits rfl, by decide⟩,
    ⟨Or.inr (Or.inr rfl), .of_digits rfl, .of_digits rfl, .of_digits rfl⟩⟩
  rw [List.forall_mem_singleton]
  exact .of_digits rfl

/-- The text of the program, on three lines. -/
def programLines (tail : List Char) : List Char :=
  "S0030000FC".toList ++ (['\n'] ++ ("S3094000000001000000B5".toList ++
    (['\r', '\n'] ++ ("S70540000000BA".toList ++ tail))))

theorem listing_programLines {tail : List Char} (apart : ∀ c ∈ tail.head?, isBlank c = true) :
    Listing tail program (programLines tail) := by
  have unix : ∀ c ∈ ['\n'], isBlank c = true := by simp [isBlank]
  have dos : ∀ c ∈ ['\r', '\n'], isBlank c = true := by simp [isBlank]
  have last : Listing tail (program.drop 2)
      (['\r', '\n'] ++ ("S70540000000BA".toList ++ tail)) := .cons dos apart .nil
  have second : Listing tail (program.drop 1)
      (['\n'] ++ ("S3094000000001000000B5".toList ++
        (['\r', '\n'] ++ ("S70540000000BA".toList ++ tail)))) :=
    .cons unix (by simp [isBlank]) last
  exact .cons (List.forall_mem_nil _) (by simp [isBlank]) second

/-- The program with nothing behind it but the end of the line, and with a data record that is
no number of words long. -/
theorem parse_listing_program :
    parse ⟨.empty, 0x40000000⟩ (some (programLines ['\n'])) =
        .ok (loaded ⟨.empty, 0x40000000⟩ program, 0x40000000) ∧
      parse ⟨.empty, 0x40000000⟩ (some (programLines ('\n' :: "S104100001FF".toList))) =
        .ok (loaded ⟨.empty, 0x40000000⟩ program, 0x40000000) := by
  obtain ⟨whole, broken⟩ := parse_listing ⟨.empty, 0x40000000⟩ program_wellFormed
  have ragged : Malformed 2 "04".toList "1000".toList := by
    refine ⟨Or.inl rfl, .of_digits rfl, .of_digits rfl, ?_⟩
    rintro ⟨k, four⟩
    change 4 = 2 + (4 * k + 1) at four
    omega
  have unix : ∀ c ∈ ['\n'], isBlank c = true := by simp [isBlank]
  exact ⟨whole ['\n'] _ unix (listing_programLines (by simp [isBlank])),
    broken ['\n'] 2 "04".toList "1000".toList "01FF".toList _ unix ragged
      (listing_programLines (by simp [isBlank]))⟩

end SrecParser

end PretIss
