import PretIss.Memory.Residency
import PretIss.Model.StaticBoundParser

/-! Loading the scratchpads from files. Each line of a file is loaded from the beginning of
the half on, so the lines overwrite each other. -/

namespace PretIss

open Hexadecimal L1Scratch

namespace StaticBoundParser

/-- The words of a range, the upper bound excluded. -/
def words (range : Word × Word) : List Word :=
  (List.range ((range.2.toNat - range.1.toNat + 3) / 4)).map
    fun i => range.1 + BitVec.ofNat 32 (4 * i)

def RangeLine (line : List Char) (range : Word × Word) : Prop :=
  ∃ lead first gap second trail, line = lead ++ (first ++ (gap ++ (second ++ trail))) ∧
    (∀ c ∈ lead, isBlank c = true) ∧ (∀ c ∈ gap, isBlank c = true) ∧ gap ≠ [] ∧
    (∀ c ∈ trail, isBlank c = true) ∧
    Numeral first range.1.toNat ∧ Numeral second range.2.toNat

/-- A file whose lines, apart from empty ones, are these ranges. -/
def MapFile (text : List Char) (ranges : List (Word × Word)) : Prop :=
  List.Forall₂ RangeLine ((text.splitOn '\n').filter (!·.isEmpty)) ranges

/-- Ranges of words of the main memory that fit into one half of the scratchpad. -/
structure Allocation (ranges : List (Word × Word)) : Prop where
  addresses : ∀ range ∈ ranges, ∀ addr ∈ words range,
    addr % 4 = 0 ∧ addr ≠ 0 ∧ MemoryController.isMainMem addr = true
  disjoint : (ranges.map words).Pairwise List.Disjoint
  fits : 4 * (ranges.map words).flatten.length ≤ scratchSize / 2

def slot (scratchStartAddr : Word) (i : Nat) : Fin (scratchSize / 4) :=
  slotOf (scratchStartAddr + BitVec.ofNat 32 (4 * i))

def InHalf (scratchStartAddr : Word) (other : Fin (scratchSize / 4)) : Prop :=
  scratchStartAddr.toNat / 4 ≤ other.val ∧
    other.val < scratchStartAddr.toNat / 4 + scratchSize / 2 / 4

/-- The two halves. -/
def IsStart (scratchStartAddr : Word) : Prop :=
  scratchStartAddr = instScratchStart ∨ scratchStartAddr = dataScratchStart

section

variable {start : Word} (half : IsStart start) {i j : Nat}

include half

theorem slotAddr_toNat (inside : i < scratchSize / 2 / 4) :
    (start + BitVec.ofNat 32 (4 * i)).toNat = start.toNat + 4 * i := by
  rw [BitVec.toNat_add, BitVec.toNat_ofNat]
  simp only [scratchSize] at inside
  obtain rfl | rfl := half <;> simp <;> omega

theorem inSpmRange_slotAddr (inside : i < scratchSize / 2 / 4) :
    inSpmRange (start + BitVec.ofNat 32 (4 * i)) = true := by
  have value := slotAddr_toNat half inside
  have aligned : (start + BitVec.ofNat 32 (4 * i)) % 4 = 0 := by
    apply BitVec.eq_of_toNat_eq
    rw [BitVec.toNat_umod, value]
    obtain rfl | rfl := half <;> simp
  have below : start + BitVec.ofNat 32 (4 * i) < (scratchSize : Word) := by
    rw [BitVec.lt_def, value]
    simp only [scratchSize] at inside ⊢
    obtain rfl | rfl := half <;> simp <;> omega
  simp only [inSpmRange, aligned, below, beq_self_eq_true, decide_true, Bool.and_self]

theorem slot_val (inside : i < scratchSize / 2 / 4) :
    (slot start i).val = start.toNat / 4 + i := by
  simp only [slot, slotOf, slotAddr_toNat half inside]
  simp only [scratchSize] at inside ⊢
  obtain rfl | rfl := half <;> simp <;> omega

theorem slot_ne (order : i < j) (inside : j < scratchSize / 2 / 4) : slot start i ≠ slot start j := by
  intro same
  have values := congrArg Fin.val same
  rw [slot_val half (by omega), slot_val half inside] at values
  omega

theorem slot_inHalf (inside : i < scratchSize / 2 / 4) : InHalf start (slot start i) := by
  unfold InHalf
  rw [slot_val half inside]
  omega

end

theorem readBounds_of_line {line : List Char} {range : Word × Word} (spelled : RangeLine line range)
    (bounds : Word × Word) : readBounds line bounds = range := by
  obtain ⟨lead, first, gap, second, trail, rfl, blank, between, nonempty, after, one, two⟩ := spelled
  have stopFirst : ∀ c ∈ (gap ++ (second ++ trail)).head?, isBlank c = true := by
    cases gap with
    | nil => exact absurd rfl nonempty
    | cons c rest =>
        intro d same
        obtain rfl := Option.some.inj same
        exact between _ List.mem_cons_self
  have stopSecond : ∀ c ∈ trail.head?, isBlank c = true :=
    fun c same => after c (List.mem_of_mem_head? same)
  have solid : ∀ {text rest : List Char} {n : Nat}, Numeral text n → (text ++ rest).isEmpty = false := by
    rintro text rest n ⟨marker, digits, rfl, ⟨nonempty, _, _⟩, _⟩
    simp [nonempty]
  have small : ∀ w : Word, w.toNat < 2 ^ 32 := fun w => w.isLt
  have more : (gap ++ (second ++ trail)).isEmpty = false := by simp [nonempty]
  simp only [readBounds, extract, skipBlanks_append blank (one.head_not_blank _), solid one,
    scan_numeral one _ stopFirst, small, more, skipBlanks_append between (two.head_not_blank trail),
    solid two, scan_numeral two _ stopSecond, BitVec.ofNat_toNat, BitVec.setWidth_eq, Bool.not_true,
    Bool.not_false, Bool.or_self, Bool.false_eq_true, if_false, if_true]

/-! The loop over one range fills the slots with its words. -/

theorem getElem_words {range : Word × Word} {i : Nat} (inside : i < (words range).length) :
    (words range)[i] = range.1 + BitVec.ofNat 32 (4 * i) := by
  simp [words]

theorem length_words (range : Word × Word) :
    (words range).length = (range.2.toNat - range.1.toNat + 3) / 4 := by
  simp [words]

theorem words_of_lt {range : Word × Word} (below : range.1 < range.2)
    (high : range.2.toNat ≤ 2 ^ 32 - 4) :
    words range = range.1 :: words (range.1 + 4, range.2) := by
  rw [BitVec.lt_def] at below
  have next : (range.1 + 4).toNat = range.1.toNat + 4 := by
    rw [BitVec.toNat_add]
    simp
    omega
  have count : (range.2.toNat - range.1.toNat + 3) / 4 =
      (range.2.toNat - (range.1 + 4).toNat + 3) / 4 + 1 := by
    rw [next]
    omega
  rw [words, words, count, List.range_succ_eq_map, List.map_cons, List.map_map]
  congr 1
  · exact BitVec.add_zero range.1
  · apply List.map_congr_left
    intro i _
    apply BitVec.eq_of_toNat_eq
    simp [BitVec.toNat_add, Nat.mul_succ]
    omega

theorem words_of_not_lt {range : Word × Word} (above : ¬ range.1 < range.2) : words range = [] := by
  rw [BitVec.lt_def] at above
  rw [← List.length_eq_zero_iff, length_words]
  omega

theorem high_of_main {range : Word × Word}
    (main : ∀ addr ∈ words range, MemoryController.isMainMem addr = true)
    (below : range.1 < range.2) : range.2.toNat ≤ 2 ^ 32 - 4 := by
  rw [BitVec.lt_def] at below
  by_contra high
  have inside : (range.2.toNat - range.1.toNat + 3) / 4 - 1 < (words range).length := by
    rw [length_words]
    omega
  have last := main _ (List.getElem_mem inside)
  rw [getElem_words inside, MemoryController.isMainMem, decide_eq_true_eq, BitVec.lt_def,
    BitVec.toNat_add, BitVec.toNat_ofNat] at last
  have upper := range.2.isLt
  simp at last
  omega

theorem loadRange_eq {start : Word} (half : IsStart start) (mainMemory : MemoryUnit)
    {range : Word × Word} (main : ∀ addr ∈ words range, MemoryController.isMainMem addr = true)
    (n : Nat) {room : Nat} (spm : L1Scratch) (space : (words range).length ≤ room)
    (inside : n + room ≤ scratchSize / 2 / 4) :
    (loadRange mainMemory range.2 room range.1 (start + BitVec.ofNat 32 (4 * n)) spm).1.table =
        SlotTable.fill (slot start) mainMemory.read n (words range) spm.table ∧
      (loadRange mainMemory range.2 room range.1 (start + BitVec.ofNat 32 (4 * n)) spm).2 = false := by
  induction room generalizing range n spm with
  | zero =>
      have empty : words range = [] := List.length_eq_zero_iff.mp (Nat.le_zero.mp space)
      have ended : ¬ range.1 < range.2 := by
        intro below
        rw [words_of_lt below (high_of_main main below)] at empty
        cases empty
      simp [loadRange, empty, SlotTable.fill, ended]
  | succ room ih =>
      by_cases below : range.1 < range.2
      · have more := words_of_lt below (high_of_main main below)
        rw [more] at main space ⊢
        rw [List.forall_mem_cons] at main
        have next : start + BitVec.ofNat 32 (4 * n) + 4 = start + BitVec.ofNat 32 (4 * (n + 1)) := by
          rw [Nat.mul_succ, BitVec.ofNat_add, BitVec.add_assoc]
          rfl
        have stored : (spm.addAddr range.1 (start + BitVec.ofNat 32 (4 * n))
            (mainMemory.read range.1)).table =
              spm.table.perform (.store (slot start n) range.1 (mainMemory.read range.1)) := by
          have request := table_serve spm (.addAddr range.1 (start + BitVec.ofNat 32 (4 * n))
            (mainMemory.read range.1))
          rw [Request.command, if_pos (inSpmRange_slotAddr half (by omega))] at request
          exact request
        have rest : (words (range.1 + 4, range.2)).length ≤ room := by simpa using space
        have later := ih main.2 (n + 1)
          (spm.addAddr range.1 (start + BitVec.ofNat 32 (4 * n)) (mainMemory.read range.1)) rest
          (by omega)
        rw [loadRange, if_pos below, next, SlotTable.fill, ← stored]
        exact later
      · rw [loadRange, if_neg below, words_of_not_lt below]
        exact ⟨rfl, rfl⟩

theorem loadLines_table {start : Word} (half : IsStart start) (mainMemory : MemoryUnit)
    {lines : List (List Char)} {ranges : List (Word × Word)}
    (file : List.Forall₂ RangeLine (lines.filter (!·.isEmpty)) ranges)
    (main : ∀ range ∈ ranges, ∀ addr ∈ words range, MemoryController.isMainMem addr = true)
    (space : ∀ range ∈ ranges, (words range).length ≤ scratchSize / 2 / 4)
    (bounds : Word × Word) (spm : L1Scratch) :
    (loadLines mainMemory start lines bounds spm).table =
      SlotTable.fillAll (slot start) mainMemory.read (ranges.map words) spm.table := by
  induction lines generalizing ranges bounds spm with
  | nil =>
      obtain rfl := List.forall₂_nil_left_iff.mp file
      rfl
  | cons line rest ih =>
      cases empty : line.isEmpty with
      | true =>
          rw [List.filter_cons_of_neg (by simp [empty])] at file
          rw [loadLines, if_pos empty]
          exact ih file main space _ spm
      | false =>
          rw [List.filter_cons_of_pos (by simp [empty])] at file
          obtain ⟨range, ranges, spelled, others, rfl⟩ := List.forall₂_cons_left_iff.mp file
          rw [List.forall_mem_cons] at main space
          have first := loadRange_eq half mainMemory main.1 0 spm space.1 (Nat.zero_add _).le
          rw [show start + BitVec.ofNat 32 (4 * 0) = start from BitVec.add_zero start] at first
          rw [loadLines, if_neg (by simp [empty]), readBounds_of_line spelled]
          simp only [first.2, Bool.false_eq_true, if_false]
          rw [ih others main.2 space.2, first.1]
          rfl

/-! What the load leaves in the scratchpad. -/

/-- Every word of every range is in the scratchpad with its value in the main memory, and the
slots of the other half hold what they held. -/
structure Loaded (mc mc' : MemoryController) (tid : ThreadId) (scratchStartAddr : Word)
    (ranges : List (Word × Word)) : Prop where
  resident : ∀ range ∈ ranges, ∀ addr ∈ words range,
    (mc'.instScratchpad tid).isAddrInSpm addr = true ∧
      (mc'.instScratchpad tid).read addr = (mc.mainMem.mem.read addr, false)
  otherHalf : ∀ other, ¬ InHalf scratchStartAddr other →
    (mc'.instScratchpad tid).mainMemoryAddress other =
        (mc.instScratchpad tid).mainMemoryAddress other ∧
      (mc'.instScratchpad tid).mem ((mc.instScratchpad tid).mainMemoryAddress other) =
        (mc.instScratchpad tid).mem ((mc.instScratchpad tid).mainMemoryAddress other)

/-- No slot that is filled names a word that is loaded before it, and no slot of the other
half names a word that gets another value or is taken out. -/
structure Undisturbed (spm : L1Scratch) (mainMemory : MemoryUnit) (scratchStartAddr : Word)
    (addrs : List Word) : Prop where
  ownHalf : ∀ i j, (order : i < j) → (inside : j < addrs.length) →
    spm.mainMemoryAddress (slot scratchStartAddr j) ≠ addrs[i]
  otherHalf : ∀ other, ¬ InHalf scratchStartAddr other →
    (spm.mainMemoryAddress other ∈ addrs →
        spm.mem (spm.mainMemoryAddress other) =
          some (mainMemory.read (spm.mainMemoryAddress other))) ∧
      (spm.mainMemoryAddress other ∉ addrs →
        (∃ j, j < addrs.length ∧
          spm.mainMemoryAddress (slot scratchStartAddr j) = spm.mainMemoryAddress other) →
        spm.mem (spm.mainMemoryAddress other) = none)

theorem nodup_words {range : Word × Word}
    (main : ∀ addr ∈ words range, MemoryController.isMainMem addr = true) :
    (words range).Nodup := by
  by_cases below : range.1 < range.2
  · have high := high_of_main main below
    rw [BitVec.lt_def] at below
    refine List.Nodup.map_on ?_ List.nodup_range
    intro i first j second same
    have values := congrArg BitVec.toNat same
    rw [List.mem_range] at first second
    simp [BitVec.toNat_add] at values
    omega
  · rw [words_of_not_lt below]
    exact List.nodup_nil

section

variable {start : Word} (half : IsStart start) (spm : L1Scratch) (mainMemory : MemoryUnit)
  {addrs : List Word} (space : addrs.length ≤ scratchSize / 2 / 4) (different : addrs.Nodup)

include half space

theorem name_filled {other : Fin (scratchSize / 4)} (outside : ¬ InHalf start other) :
    (SlotTable.fill (slot start) mainMemory.read 0 addrs spm.table).name other =
      spm.mainMemoryAddress other := by
  refine SlotTable.name_fill_of_other fun i _ below same => outside ?_
  rw [same]
  exact slot_inHalf half (by omega)

include different

/-- One list of words is loaded as it should be exactly if nothing disturbs it. -/
theorem filled_iff :
    ((∀ addr ∈ addrs,
        (SlotTable.fill (slot start) mainMemory.read 0 addrs spm.table).held addr =
          some (mainMemory.read addr)) ∧
      ∀ other, ¬ InHalf start other →
        (SlotTable.fill (slot start) mainMemory.read 0 addrs spm.table).held
            (spm.mainMemoryAddress other) = spm.mem (spm.mainMemoryAddress other)) ↔
      Undisturbed spm mainMemory start addrs := by
  have distinct : ∀ i j, i < j → j < scratchSize / 2 / 4 → slot start i ≠ slot start j :=
    fun i j order inside => slot_ne half order inside
  have short : 0 + addrs.length ≤ scratchSize / 2 / 4 := by omega
  have loaded := fun (i : Nat) (inside : i < addrs.length) =>
    SlotTable.held_fill_getElem mainMemory.read distinct spm.table inside short different
  have others := fun (addr : Word) (absent : addr ∉ addrs) =>
    SlotTable.held_fill_of_not_mem mainMemory.read distinct spm.table short absent
  constructor
  · rintro ⟨resident, kept⟩
    constructor
    · intro i j order inside names
      have held := resident addrs[i] (List.getElem_mem (by omega))
      rw [loaded i (by omega), if_pos ⟨j, by omega, by omega, names⟩] at held
      cases held
    · intro other outside
      refine ⟨fun member => ?_, fun absent ⟨j, inside, names⟩ => ?_⟩
      · rw [← kept other outside, resident _ member]
      · rw [← kept other outside, others _ absent]
        exact if_pos ⟨j, by omega, by omega, names⟩
  · intro undisturbed
    have resident : ∀ addr ∈ addrs,
        (SlotTable.fill (slot start) mainMemory.read 0 addrs spm.table).held addr =
          some (mainMemory.read addr) := by
      intro addr member
      obtain ⟨i, inside, rfl⟩ := List.getElem_of_mem member
      rw [loaded i inside, if_neg]
      rintro ⟨j, below, above, names⟩
      exact undisturbed.ownHalf i j (by omega) (by omega) names
    refine ⟨resident, fun other outside => ?_⟩
    obtain ⟨member, absent⟩ := undisturbed.otherHalf other outside
    by_cases found : spm.mainMemoryAddress other ∈ addrs
    · rw [resident _ found, member found]
    · rw [others _ found]
      split
      · rename_i evicted
        obtain ⟨j, below, _, names⟩ := evicted
        exact (absent found ⟨j, by omega, names⟩).symm
      · rfl

end

theorem Allocation.space {ranges : List (Word × Word)} (fits : Allocation ranges) :
    (ranges.map words).flatten.length ≤ scratchSize / 2 / 4 := by
  have whole := fits.fits
  omega

theorem loadSpm_table (mc : MemoryController) (tid : ThreadId) {start : Word}
    (half : IsStart start) {text : List Char} {ranges : List (Word × Word)}
    (file : MapFile text ranges) (fits : Allocation ranges) :
    ((loadSpm mc tid start (some text)).instScratchpad tid).table =
      SlotTable.fillAll (slot start) mc.mainMem.mem.read (ranges.map words)
        (mc.instScratchpad tid).table := by
  have space : ∀ range ∈ ranges, (words range).length ≤ scratchSize / 2 / 4 := by
    intro range member
    exact (List.sublist_flatten_of_mem (List.mem_map_of_mem member)).length_le.trans fits.space
  simp only [loadSpm, Function.update_self]
  exact loadLines_table half mc.mainMem.mem file
    (fun range member addr found => (fits.addresses range member addr found).2.2) space (0, 0) _

theorem Allocation.nodup {ranges : List (Word × Word)} (fits : Allocation ranges) :
    (ranges.map words).flatten.Nodup := by
  refine List.nodup_flatten.mpr ⟨?_, fits.disjoint⟩
  rw [List.forall_mem_map]
  exact fun range member => nodup_words fun addr found =>
    (fits.addresses range member addr found).2.2

theorem few_of_resident {mc mc' : MemoryController} {tid : ThreadId} {start : Word}
    (half : IsStart start) {ranges : List (Word × Word)} (fits : Allocation ranges)
    (table : (mc'.instScratchpad tid).table = SlotTable.fillAll (slot start) mc.mainMem.mem.read
      (ranges.map words) (mc.instScratchpad tid).table)
    (resident : ∀ range ∈ ranges, ∀ addr ∈ words range,
      (mc'.instScratchpad tid).isAddrInSpm addr = true ∧
        (mc'.instScratchpad tid).read addr = (mc.mainMem.mem.read addr, false)) :
    ((ranges.map words).filter (!·.isEmpty)).length ≤ 1 := by
  by_contra two
  obtain ⟨addrs, listed, addr, inside, lost⟩ := SlotTable.lost_of_two
    mc.mainMem.mem.read (fun i j order below => slot_ne half order below)
    (mc.instScratchpad tid).table (fun addrs member =>
      ((List.sublist_flatten_of_mem member).length_le).trans fits.space) fits.disjoint (by omega)
  obtain ⟨range, member, rfl⟩ := List.mem_map.mp listed
  have nonzero := (fits.addresses range member addr inside).2.1
  have found := (found_iff nonzero).mp (resident range member addr inside)
  change (mc'.instScratchpad tid).table.held addr = _ at found
  rw [table, lost] at found
  cases found

/-- A file is loaded as it says exactly if at most one of its ranges has words and what the
scratchpad held before does not disturb them. -/
theorem loaded_iff (mc : MemoryController) (tid : ThreadId) {start : Word} (half : IsStart start)
    {text : List Char} {ranges : List (Word × Word)} (file : MapFile text ranges)
    (fits : Allocation ranges) :
    Loaded mc (loadSpm mc tid start (some text)) tid start ranges ↔
      ((ranges.map words).filter (!·.isEmpty)).length ≤ 1 ∧
        Undisturbed (mc.instScratchpad tid) mc.mainMem.mem start (ranges.map words).flatten := by
  have table := loadSpm_table mc tid half file fits
  have held := congrArg SlotTable.held table
  have name := congrArg SlotTable.name table
  rw [← filled_iff half (mc.instScratchpad tid) mc.mainMem.mem fits.space fits.nodup]
  constructor
  · rintro ⟨resident, other⟩
    have few := few_of_resident half fits table resident
    refine ⟨few, fun addr member => ?_, fun slot outside => ?_⟩
    · obtain ⟨_, listed, inside⟩ := List.mem_flatten.mp member
      obtain ⟨range, member, rfl⟩ := List.mem_map.mp listed
      have nonzero := (fits.addresses range member addr inside).2.1
      rw [← SlotTable.fillAll_eq_fill _ few, ← held]
      exact (found_iff nonzero).mp (resident range member addr inside)
    · rw [← SlotTable.fillAll_eq_fill _ few, ← held]
      exact (other slot outside).2
  · rintro ⟨few, resident, other⟩
    rw [SlotTable.fillAll_eq_fill _ few] at held name
    constructor
    · intro range member addr inside
      have nonzero := (fits.addresses range member addr inside).2.1
      refine (found_iff nonzero).mpr ?_
      rw [← resident addr (List.mem_flatten_of_mem (List.mem_map_of_mem member) inside), ← held]
      rfl
    · intro slot outside
      refine ⟨?_, ?_⟩
      · rw [← name_filled half (mc.instScratchpad tid) mc.mainMem.mem fits.space outside, ← name]
        rfl
      · rw [← other slot outside, ← held]
        rfl

theorem rangeLine_of_digits {first second : List Char} {min max : Word}
    (lower : Digits first min.toNat) (upper : Digits second max.toNat) :
    RangeLine (first ++ ' ' :: second) (min, max) :=
  ⟨[], first, [' '], second, [], by simp, by simp, by simp [isBlank], by simp, by simp,
    ⟨[], first, rfl, lower, Or.inl rfl⟩, ⟨[], second, rfl, upper, Or.inl rfl⟩⟩

def twoLines : List Char := "40000000 40000004\n40000010 40000014\n".toList

def twoRanges : List (Word × Word) := [(0x40000000, 0x40000004), (0x40000010, 0x40000014)]

theorem mapFile_twoLines : MapFile twoLines twoRanges := by
  have lines : (twoLines.splitOn '\n').filter (!·.isEmpty) =
      ["40000000".toList ++ ' ' :: "40000004".toList,
        "40000010".toList ++ ' ' :: "40000014".toList] := by decide
  rw [MapFile, lines]
  have read : ∀ {text : List Char} {n : Nat}, text ≠ [] → text.all Char.isHexDigit = true →
      value text = n → Digits text n :=
    fun some digits value => ⟨some, List.all_eq_true.mp digits, value⟩
  exact .cons (rangeLine_of_digits (read (by decide) rfl rfl) (read (by decide) rfl rfl))
    (.cons (rangeLine_of_digits (read (by decide) rfl rfl) (read (by decide) rfl rfl)) .nil)

theorem allocation_twoRanges : Allocation twoRanges := by
  have single : twoRanges.map words = [[0x40000000], [0x40000010]] := by decide
  constructor
  · intro range member addr inside
    have listed := List.mem_map_of_mem (f := words) member
    rw [single, List.mem_pair] at listed
    obtain same | same := listed <;> rw [same, List.mem_singleton] at inside <;> rw [inside] <;>
      decide
  · rw [single]
    simp
  · rw [single]
    decide

/-- The second line takes out what the first one loaded. -/
theorem second_line_evicts :
    MapFile twoLines twoRanges ∧ Allocation twoRanges ∧
      ¬ Loaded .create (loadInstSpm .create 0 (some twoLines)) 0 instScratchStart twoRanges := by
  refine ⟨mapFile_twoLines, allocation_twoRanges, fun loaded => ?_⟩
  have found := (loaded.resident (0x40000000, 0x40000004) (by decide) 0x40000000 (by decide)).1
  revert found
  decide

theorem loaded_iff_two_lines :
    Loaded .create (loadSpm .create 0 dataScratchStart (some twoLines)) 0 dataScratchStart
        twoRanges ↔
      ((twoRanges.map words).filter (!·.isEmpty)).length ≤ 1 ∧
        Undisturbed (MemoryController.create.instScratchpad 0) MemoryController.create.mainMem.mem
          dataScratchStart (twoRanges.map words).flatten :=
  loaded_iff .create 0 (Or.inr rfl) mapFile_twoLines allocation_twoRanges

end StaticBoundParser

end PretIss
