import PretIss.Memory.SrecRecords
import PretIss.Model.CompileThreads

/-! The end of an image as its records say it, and as the script computes it. The script takes
every record for one of 8, 12 or 16 bytes. -/

namespace PretIss

open Hexadecimal

namespace Record

def ByteFormed : Record → Prop
  | data width count address bytes checksum =>
      (width = 2 ∨ width = 3 ∨ width = 4) ∧ HexField 2 count ∧ HexField (2 * width) address ∧
        (∀ byte ∈ bytes, HexField 2 byte) ∧ HexField 2 checksum ∧
        value count = width + bytes.length + 1
  | record => record.WellFormed

def stop : Record → Nat
  | data _ _ address bytes _ => value address + bytes.length
  | ignored _ _ _ | start _ _ _ _ => 0

def reach : Record → Nat
  | data width _ address _ _ => value address + 4 * width
  | ignored _ _ _ | start _ _ _ _ => 0

def highest (address : Record → Nat) (records : List Record) : Nat :=
  (records.map address).foldr max 0

theorem highest_le_iff {address : Record → Nat} {records : List Record} {bound : Nat} :
    highest address records ≤ bound ↔ ∀ record ∈ records, address record ≤ bound := by
  induction records with
  | nil => simp [highest]
  | cons record records ih => simp [highest, ← ih]

theorem le_highest (address : Record → Nat) {records : List Record} {record : Record}
    (member : record ∈ records) : address record ≤ highest address records :=
  highest_le_iff.mp le_rfl record member

theorem exists_highest (address : Record → Nat) {records : List Record} {record : Record}
    (member : record ∈ records) : ∃ top ∈ records, highest address records = address top := by
  by_cases all : ∀ other ∈ records, address other < highest address records
  · have below : highest address records ≤ highest address records - 1 :=
      highest_le_iff.mpr fun other among => Nat.le_sub_one_of_lt (all other among)
    have least := all record member
    omega
  · push Not at all
    obtain ⟨top, among, above⟩ := all
    exact ⟨top, among, le_antisymm above (le_highest address among)⟩

/-- The addresses that the script computes and the ends of the records are as high. -/
def Agrees (records : List Record) : Prop :=
  (∀ record ∈ records, ∃ other ∈ records, record.reach ≤ other.stop) ∧
    ∀ record ∈ records, ∃ other ∈ records, record.stop ≤ other.reach

theorem highest_le_highest_iff {first second : Record → Nat} {records : List Record} :
    highest first records ≤ highest second records ↔
      ∀ record ∈ records, ∃ other ∈ records, first record ≤ second other := by
  rw [highest_le_iff]
  refine forall₂_congr fun record member => ⟨fun below => ?_, ?_⟩
  · obtain ⟨top, among, same⟩ := exists_highest second member
    exact ⟨top, among, same ▸ below⟩
  · rintro ⟨other, among, below⟩
    exact below.trans (le_highest second among)

theorem agrees_iff {records : List Record} :
    Agrees records ↔ highest reach records = highest stop records := by
  rw [Agrees, ← highest_le_highest_iff, ← highest_le_highest_iff, le_antisymm_iff]

end Record

inductive SrecText : List Record → List Char → Prop where
  | nil : SrecText [] []
  | last (record : Record) : SrecText [record] record.text
  | line {record : Record} {records : List Record} {eol rest : List Char}
      (ends : eol = ['\n'] ∨ eol = ['\r', '\n']) (later : SrecText records rest) :
      SrecText (record :: records) (record.text ++ (eol ++ rest))

/-- A well-formed file: its records and its text. -/
structure SrecFile where
  records : List Record
  text : List Char
  formed : ∀ record ∈ records, record.ByteFormed
  listed : SrecText records text

theorem Record.text_nonempty (record : Record) : record.text ≠ [] := by
  cases record <;> exact List.cons_ne_nil _ _

theorem Record.ByteFormed.solid {record : Record} (formed : record.ByteFormed) :
    ∀ c ∈ record.text, isBlank c = false := by
  have field : ∀ {n : Nat} {text : List Char}, HexField n text → ∀ c ∈ text, isBlank c = false :=
    fun field c member => digit_not_blank (field.digits c member)
  have letter : isBlank 'S' = false := by decide
  cases record with
  | ignored sType count rest =>
    obtain ⟨known, counts, -, solid⟩ := formed
    have type : isBlank sType = false := by obtain rfl | rfl := known <;> decide
    simp only [text, List.forall_mem_cons, List.forall_mem_append]
    exact ⟨letter, type, field counts, solid⟩
  | data width count address bytes checksum =>
    obtain ⟨known, counts, addresses, fields, check, -⟩ := formed
    simp only [text, List.forall_mem_cons, List.forall_mem_append]
    refine ⟨letter, (SrecParser.addressWidth_dataType known).2.2, field counts, field addresses,
      fun c member => ?_, field check⟩
    obtain ⟨byte, among, within⟩ := List.mem_flatten.mp member
    exact field (fields byte among) c within
  | start width count address checksum =>
    obtain ⟨known, counts, addresses, check⟩ := formed
    simp only [text, List.forall_mem_cons, List.forall_mem_append]
    exact ⟨letter, (SrecParser.addressWidth_startType known).2.2, field counts, field addresses,
      field check⟩

/-! What the parser stores of a record ends where the record does. -/

def wordsOf : List (List Char) → List (List Char)
  | a :: b :: c :: d :: rest => (a ++ (b ++ (c ++ d))) :: wordsOf rest
  | _ => []

theorem wordsOf_spec {bytes : List (List Char)} (fields : ∀ byte ∈ bytes, HexField 2 byte)
    (whole : 4 ∣ bytes.length) :
    4 * (wordsOf bytes).length = bytes.length ∧ (wordsOf bytes).flatten = bytes.flatten ∧
      ∀ word ∈ wordsOf bytes, HexField 8 word := by
  fun_induction wordsOf bytes with
  | case1 a b c d rest ih =>
    simp only [List.forall_mem_cons] at fields
    obtain ⟨first, second, third, fourth, fields⟩ := fields
    simp only [List.length_cons] at whole
    obtain ⟨count, flat, words⟩ := ih fields (by omega)
    refine ⟨?_, ?_, ?_⟩
    · rw [List.length_cons, List.length_cons, List.length_cons, List.length_cons,
        List.length_cons]
      omega
    · simp only [List.flatten_cons, flat, List.append_assoc]
    · rw [List.forall_mem_cons]
      refine ⟨⟨?_, ?_⟩, words⟩
      · simp only [List.length_append, first.length, second.length, third.length, fourth.length]
      · simp only [List.forall_mem_append]
        exact ⟨first.digits, second.digits, third.digits, fourth.digits⟩
  | case2 bytes short =>
    match bytes, whole with
    | [], _ => exact ⟨rfl, rfl, nofun⟩
    | [_], whole | [_, _], whole | [_, _, _], whole => simp at whole
    | a :: b :: c :: d :: rest, _ => exact absurd rfl (short a b c d rest)

namespace Record

def inWords : Record → Record
  | data width count address bytes checksum => data width count address (wordsOf bytes) checksum
  | record => record

def Whole : Record → Prop
  | data _ _ _ bytes _ => 4 ∣ bytes.length
  | ignored _ _ _ | start _ _ _ _ => True

theorem inWords_spec {record : Record} (formed : record.ByteFormed) (whole : record.Whole) :
    record.inWords.WellFormed ∧ record.inWords.text = record.text := by
  cases record with
  | ignored => exact ⟨formed, rfl⟩
  | start => exact ⟨formed, rfl⟩
  | data width count address bytes checksum =>
    obtain ⟨known, counts, addresses, fields, check, total⟩ := formed
    obtain ⟨length, flat, words⟩ := wordsOf_spec fields whole
    refine ⟨⟨known, counts, addresses, words, check, by omega⟩, ?_⟩
    simp only [inWords, text, flat]

theorem mem_wordsFrom {words : List (List Char)} (addr : Nat) {write : Word × Word}
    (member : write ∈ wordsFrom (BitVec.ofNat 32 addr) words) :
    ∃ k < words.length, write.1 = BitVec.ofNat 32 (addr + 4 * k) := by
  induction words generalizing addr with
  | nil => cases member
  | cons word words ih =>
    obtain rfl | member := List.mem_cons.mp member
    · exact ⟨0, by simp, rfl⟩
    · have next : BitVec.ofNat 32 addr + 4 = BitVec.ofNat 32 (addr + 4) :=
        (BitVec.ofNat_add addr 4).symm
      rw [next] at member
      obtain ⟨k, bound, same⟩ := ih (addr + 4) member
      exact ⟨k + 1, by simpa using bound, by rw [same]; congr 1; omega⟩

theorem writes_below {record : Record} (formed : record.ByteFormed) (whole : record.Whole)
    (fits : record.stop ≤ 2 ^ 32) {write : Word × Word} (member : write ∈ record.inWords.writes) :
    write.1.toNat + 4 ≤ record.stop := by
  cases record with
  | ignored => cases member
  | start => cases member
  | data width count address bytes checksum =>
    obtain ⟨-, -, -, fields, -, -⟩ := formed
    have length := (wordsOf_spec fields whole).1
    obtain ⟨k, bound, same⟩ := mem_wordsFrom _ member
    rw [stop] at fits ⊢
    rw [same, BitVec.toNat_ofNat, Nat.mod_eq_of_lt (by omega)]
    omega

end Record

theorem SrecText.listing {records : List Record} {text : List Char} (listed : SrecText records text)
    {lead : List Char} (blank : ∀ c ∈ lead, isBlank c = true) :
    ∃ tail, (∀ c ∈ tail, isBlank c = true) ∧ Listing tail records (lead ++ text) := by
  induction listed generalizing lead with
  | nil => exact ⟨lead, blank, by rw [List.append_nil]; exact .nil⟩
  | last record =>
    refine ⟨[], nofun, ?_⟩
    rw [← List.append_nil record.text]
    exact .cons blank nofun .nil
  | @line record records eol rest ends later ih =>
    have between : ∀ c ∈ eol, isBlank c = true := by
      obtain rfl | rfl := ends <;> simp [isBlank]
    obtain ⟨tail, after, listing⟩ := ih between
    refine ⟨tail, after, .cons blank ?_ listing⟩
    obtain rfl | rfl := ends <;> simp [isBlank]

theorem SrecText.inWords {records : List Record} {text : List Char}
    (listed : SrecText records text) (formed : ∀ record ∈ records, record.ByteFormed)
    (whole : ∀ record ∈ records, record.Whole) : SrecText (records.map Record.inWords) text := by
  induction listed with
  | nil => exact .nil
  | last record =>
    rw [← (Record.inWords_spec (formed record List.mem_cons_self)
      (whole record List.mem_cons_self)).2]
    exact .last record.inWords
  | line ends later ih =>
    rw [List.forall_mem_cons] at formed whole
    rw [← (Record.inWords_spec formed.1 whole.1).2]
    exact .line ends (ih formed.2 whole.2)

/-- A file of whole words is loaded, and all that is stored lies below its highest end. -/
theorem SrecFile.loads_below (file : SrecFile) (whole : ∀ record ∈ file.records, record.Whole)
    (fits : Record.highest Record.stop file.records ≤ 2 ^ 32) (parser : SrecParser) :
    parser.readlines file.text = .ok (parser.loaded (file.records.map Record.inWords)) ∧
      ∀ write ∈ (file.records.map Record.inWords).flatMap Record.writes,
        write.1.toNat + 4 ≤ Record.highest Record.stop file.records := by
  constructor
  · obtain ⟨tail, blank, listing⟩ :=
      (file.listed.inWords file.formed whole).listing (List.forall_mem_nil _)
    rw [List.nil_append] at listing
    rw [SrecParser.readlines_listing parser ?_ listing,
      SrecParser.readlines_of_end (SrecParser.readline_blank blank _)]
    rw [List.forall_mem_map]
    exact fun record member =>
      (Record.inWords_spec (file.formed record member) (whole record member)).1
  · intro write member
    rw [List.flatMap_map, List.mem_flatMap] at member
    obtain ⟨record, among, stored⟩ := member
    have top := Record.le_highest Record.stop among
    exact (Record.writes_below (file.formed record among) (whole record among) (top.trans fits)
      stored).trans top

namespace CompileThreads

theorem lines_of_last {text : List Char} (one : ∀ c ∈ text, c ≠ '\n') (some : text ≠ []) :
    lines text = [text] := by
  induction text with
  | nil => exact absurd rfl some
  | cons c text ih =>
    rw [List.forall_mem_cons] at one
    rw [lines, if_neg one.1]
    cases text with
    | nil => rfl
    | cons d text => rw [ih one.2 (by simp)]

theorem lines_of_line {text : List Char} (one : ∀ c ∈ text, c ≠ '\n') (rest : List Char) :
    lines (text ++ '\n' :: rest) = (text ++ ['\n']) :: lines rest := by
  induction text with
  | nil => simp [lines]
  | cons c text ih =>
    rw [List.forall_mem_cons] at one
    rw [List.cons_append, lines, if_neg one.1, ih one.2]
    rfl

theorem intOfHex_field {n : Nat} {text : List Char} (field : HexField (n + 1) text) :
    intOfHex text = .ok (value text) := by
  have numeral : Numeral text (value text) :=
    ⟨[], text, rfl, ⟨field.nonempty, field.digits, rfl⟩, Or.inl rfl⟩
  have scanned := scan_numeral numeral [] (by simp)
  have start := skipBlanks_append (List.forall_mem_nil _) (numeral.head_not_blank [])
  rw [List.append_nil] at scanned start
  rw [List.nil_append] at start
  simp only [intOfHex, start, scanned, List.all_nil, if_true, Bool.false_eq_true, if_false]

theorem counts_dataType {width : Nat} (known : width = 2 ∨ width = 3 ∨ width = 4) :
    ('1' ≤ Record.dataType width ∧ Record.dataType width ≤ '3') ∧
      addrLen (Record.dataType width) = 2 * width := by
  obtain rfl | rfl | rfl := known <;> decide

theorem readLine_other {maxAddr : Int} {line : List Char} {sType : Char}
    (type : (line)[1]? = some sType) (other : ¬ ('1' ≤ sType ∧ sType ≤ '3')) :
    readLine maxAddr line = .ok maxAddr := by
  simp only [readLine, type, if_neg other]

/-- A line counts by the record on it alone. -/
theorem readLine_record {record : Record} (formed : record.ByteFormed) (rest : List Char)
    (maxAddr : Nat) :
    readLine maxAddr (record.text ++ rest) = .ok ((max record.reach maxAddr : Nat) : Int) := by
  cases record with
  | ignored sType count trash =>
    have other : ¬ ('1' ≤ sType ∧ sType ≤ '3') := by
      obtain rfl | rfl := formed.1 <;> decide
    rw [Record.reach, Nat.zero_max]
    exact readLine_other rfl other
  | start width count address checksum =>
    have other : ¬ ('1' ≤ Record.startType width ∧ Record.startType width ≤ '3') := by
      obtain rfl | rfl | rfl := formed.1 <;> decide
    rw [Record.reach, Nat.zero_max]
    exact readLine_other rfl other
  | data width count address bytes checksum =>
    obtain ⟨known, counts, addresses, -⟩ := formed
    obtain ⟨counted, digits⟩ := counts_dataType known
    have nonzero : 2 * width = 2 * width - 1 + 1 := by omega
    have behind : ((Record.data width count address bytes checksum).text ++ rest).drop 4 =
        address ++ (bytes.flatten ++ checksum ++ rest) := by
      change (((count ++ _) ++ rest).drop 2) = _
      rw [List.append_assoc, List.drop_left' counts.length]
      simp only [List.append_assoc]
    have number : intOfHex ((address ++ (bytes.flatten ++ checksum ++ rest)).take (2 * width)) =
        .ok (value address) := by
      rw [List.take_left' addresses.length]
      exact intOfHex_field (nonzero ▸ addresses)
    have type : ((Record.data width count address bytes checksum).text ++ rest)[1]? =
        some (Record.dataType width) := rfl
    simp only [readLine, type, if_pos counted, behind, digits, number, Record.reach]
    change Except.ok _ = _
    congr 1
    split <;> omega

theorem foldlM_lines {records : List Record} {text : List Char} (listed : SrecText records text)
    (formed : ∀ record ∈ records, record.ByteFormed) (maxAddr : Nat) :
    (lines text).foldlM readLine (maxAddr : Int) =
      .ok ((max (Record.highest Record.reach records) maxAddr : Nat) : Int) := by
  have solid : ∀ {record : Record}, record.ByteFormed → ∀ c ∈ record.text, c ≠ '\n' := by
    rintro record formed c member rfl
    cases formed.solid _ member
  induction listed generalizing maxAddr with
  | nil => simp [lines, Record.highest, pure, Except.pure]
  | last record =>
    have own := formed record List.mem_cons_self
    have reads := readLine_record own [] maxAddr
    rw [List.append_nil] at reads
    rw [lines_of_last (solid own) record.text_nonempty, List.foldlM_cons, reads]
    simp [Record.highest, bind, Except.bind, pure, Except.pure]
  | @line record records eol rest ends later ih =>
    rw [List.forall_mem_cons] at formed
    have own : lines (record.text ++ (eol ++ rest)) = (record.text ++ eol) :: lines rest := by
      obtain rfl | rfl := ends
      · exact lines_of_line (solid formed.1) rest
      · have front : ∀ c ∈ record.text ++ ['\r'], c ≠ '\n' := by
          simpa [or_imp, forall_and] using solid formed.1
        simpa using lines_of_line front rest
    rw [own, List.foldlM_cons, readLine_record formed.1 eol maxAddr]
    change (lines rest).foldlM readLine _ = _
    rw [ih formed.2]
    congr 2
    simp only [Record.highest, List.map_cons, List.foldr_cons]
    omega

theorem getMaxAddress_eq (file : SrecFile) :
    getMaxAddress file.text = .ok (Record.highest Record.reach file.records) := by
  have fold := foldlM_lines file.listed file.formed 0
  rwa [Nat.max_zero] at fold

def region (thread : Nat) : Nat := threadStart + thread * threadSpacing

theorem align_region (thread : Nat) :
    align (region thread + threadSpacing) = region (thread + 1) := by
  simp only [align, region, threadStart, threadSpacing]
  omega

section

variable (makeCFile : Nat → Nat × Nat → SrecFile)

/-- The file of a thread, as it is compiled for its region. -/
def image (thread : Nat) : SrecFile := makeCFile thread (startAt (region thread))

/-- The address behind the last byte of a thread. -/
def imageEnd (thread : Nat) : Nat := Record.highest Record.stop (image makeCFile thread).records

def imageReach (thread : Nat) : Nat := Record.highest Record.reach (image makeCFile thread).records

def compile (numThreads : Nat) : Except Failure Unit :=
  compileThreads (fun thread addrs => (makeCFile thread addrs).text) numThreads

theorem check_eq (reach next : Nat) (rest failed : Except Failure Unit) :
    (do
      let maxAddr ← (.ok (reach : Int) : Except Failure Int)
      if maxAddr < next then rest else failed) = if reach < next then rest else failed := by
  by_cases fits : reach < next
  · rw [if_pos fits]
    exact if_pos (Int.ofNat_lt.mpr fits)
  · rw [if_neg fits]
    exact if_neg (mt Int.ofNat_lt.mp fits)

theorem compileFrom_succ (thread remaining : Nat) :
    compileFrom (fun thread addrs => (makeCFile thread addrs).text) thread (region thread)
        (remaining + 1) =
      if imageReach makeCFile thread < region (thread + 1) then
        compileFrom (fun thread addrs => (makeCFile thread addrs).text) (thread + 1)
          (region (thread + 1)) remaining
      else .error (.assertionError thread) := by
  have size : getMaxAddress (makeCFile thread (startAt (region thread))).text =
      .ok (imageReach makeCFile thread) := getMaxAddress_eq _
  rw [compileFrom, align_region, size, check_eq]

theorem compileFrom_cases (thread remaining : Nat) :
    (compileFrom (fun thread addrs => (makeCFile thread addrs).text) thread (region thread)
          remaining = .ok () ∧
        ∀ t, thread ≤ t → t < thread + remaining → imageReach makeCFile t < region (t + 1)) ∨
      ∃ t, thread ≤ t ∧ t < thread + remaining ∧ region (t + 1) ≤ imageReach makeCFile t ∧
        (∀ s, thread ≤ s → s < t → imageReach makeCFile s < region (s + 1)) ∧
        compileFrom (fun thread addrs => (makeCFile thread addrs).text) thread (region thread)
          remaining = .error (.assertionError t) := by
  induction remaining generalizing thread with
  | zero => exact Or.inl ⟨rfl, by omega⟩
  | succ remaining ih =>
    rw [compileFrom_succ]
    by_cases fits : imageReach makeCFile thread < region (thread + 1)
    · rw [if_pos fits]
      have own : ∀ s, thread ≤ s → s < thread + 1 → imageReach makeCFile s < region (s + 1) := by
        intro s low high
        obtain rfl : s = thread := by omega
        exact fits
      obtain ⟨goes, rest⟩ | ⟨t, low, high, late, before, stops⟩ := ih (thread + 1)
      · refine Or.inl ⟨goes, fun t low high => ?_⟩
        by_cases first : t < thread + 1
        · exact own t low first
        · exact rest t (by omega) (by omega)
      · refine Or.inr ⟨t, by omega, by omega, late, fun s low high => ?_, stops⟩
        by_cases first : s < thread + 1
        · exact own s low first
        · exact before s (by omega) high
    · rw [if_neg fits]
      exact Or.inr ⟨thread, le_rfl, by omega, not_lt.mp fits, by omega, rfl⟩

/-- The size of each image is computed, no image that passes reaches into the next region, and
none that fits is rejected. -/
def Sound (numThreads : Nat) : Prop :=
  (∀ t < numThreads, getMaxAddress (image makeCFile t).text = .ok (imageEnd makeCFile t)) ∧
    (compile makeCFile numThreads = .ok () →
      ∀ t < numThreads, imageEnd makeCFile t ≤ region (t + 1)) ∧
    ∀ t < numThreads, imageEnd makeCFile t ≤ region (t + 1) →
      compile makeCFile numThreads ≠ .error (.assertionError t)

/-- The check is right exactly if the records of every image agree with their ends, and no
image ends exactly where the next region begins, unless an earlier one stops the script. -/
theorem sound_iff (numThreads : Nat) :
    Sound makeCFile numThreads ↔
      (∀ t < numThreads, Record.Agrees (image makeCFile t).records) ∧
        ∀ t < numThreads, imageEnd makeCFile t = region (t + 1) →
          ∃ s < t, region (s + 1) ≤ imageEnd makeCFile s := by
  have sizes : (∀ t < numThreads,
      getMaxAddress (image makeCFile t).text = .ok (imageEnd makeCFile t)) ↔
        ∀ t < numThreads, Record.Agrees (image makeCFile t).records := by
    refine forall₂_congr fun t _ => ?_
    rw [getMaxAddress_eq, Record.agrees_iff, Except.ok.injEq, Int.ofNat_inj, imageEnd]
  rw [Sound, sizes]
  refine and_congr_right fun agrees => ?_
  have same : ∀ t < numThreads, imageReach makeCFile t = imageEnd makeCFile t :=
    fun t within => Record.agrees_iff.mp (agrees t within)
  have start : region 0 = threadStart := by rw [region, Nat.zero_mul, Nat.add_zero]
  have run := compileFrom_cases makeCFile 0 numThreads
  simp only [start, Nat.zero_add, Nat.zero_le, true_implies, true_and] at run
  change (compile makeCFile numThreads = _ ∧ _) ∨ _ at run
  constructor
  · rintro ⟨-, fair⟩ t within boundary
    by_contra none
    have before : ∀ s < t, imageEnd makeCFile s < region (s + 1) := fun s less =>
      not_le.mp fun late => none ⟨s, less, late⟩
    obtain ⟨-, fits⟩ | ⟨u, among, late, earlier, stops⟩ := run
    · have strict := fits t within
      rw [same t within, boundary] at strict
      exact lt_irrefl _ strict
    · obtain less | rfl | more := lt_trichotomy u t
      · rw [same u among] at late
        exact absurd (before u less) (not_lt.mpr late)
      · exact fair u within boundary.le stops
      · have strict := earlier t more
        rw [same t within, boundary] at strict
        exact lt_irrefl _ strict
  · intro edge
    obtain ⟨goes, fits⟩ | ⟨u, among, late, earlier, stops⟩ := run
    · refine ⟨fun _ t within => same t within ▸ (fits t within).le, fun t _ _ is => ?_⟩
      cases goes.symm.trans is
    · have stops : compile makeCFile numThreads = .error (.assertionError u) := stops
      refine ⟨fun goes => ?_, fun t within fits is => ?_⟩
      · cases goes.symm.trans stops
      · obtain rfl : u = t := Failure.assertionError.inj (Except.error.inj (stops.symm.trans is))
        rw [same u among] at late
        obtain ⟨s, less, before⟩ := edge u among (le_antisymm fits late)
        have strict := earlier s less
        rw [same s (less.trans among)] at strict
        exact absurd strict (not_lt.mpr before)

end

/-- One word near the end of the region of the first thread. -/
def shortRecord : SrecFile where
  records :=
    [.data 4 "09".toList "400FFFF8".toList ["01".toList, "00".toList, "00".toList, "00".toList]
      "AF".toList]
  text := "S309400FFFF801000000AF\n".toList
  formed := by
    rw [List.forall_mem_singleton]
    refine ⟨Or.inr (Or.inr rfl), .of_digits rfl, .of_digits rfl, ?_, .of_digits rfl, by decide⟩
    simp only [List.forall_mem_cons, List.not_mem_nil, false_implies, implies_true, and_true]
    exact ⟨.of_digits rfl, .of_digits rfl, .of_digits rfl, .of_digits rfl⟩
  listed := .line (Or.inl rfl) .nil

theorem loads_below_shortRecord :
    (SrecParser.create .empty).readlines shortRecord.text =
        .ok ((SrecParser.create .empty).loaded (shortRecord.records.map Record.inWords)) ∧
      ∀ write ∈ (shortRecord.records.map Record.inWords).flatMap Record.writes,
        write.1.toNat + 4 ≤ 0x400FFFFC := by
  have whole : ∀ record ∈ shortRecord.records, record.Whole := by
    rw [shortRecord, List.forall_mem_singleton]
    exact Nat.dvd_refl 4
  have stops : Record.highest Record.stop shortRecord.records = 0x400FFFFC := by decide
  have loads := shortRecord.loads_below whole (by rw [stops]; decide) (.create .empty)
  rwa [stops] at loads

theorem shortRecord_rejected : ¬ Sound (fun _ _ => shortRecord) 1 := by
  rintro ⟨-, -, fair⟩
  exact fair 0 (by decide) (by decide) rfl

end CompileThreads

end PretIss
