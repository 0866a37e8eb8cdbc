import PretIss.Memory.StaticLoad

/-! The file that the scheduler writes for a set of instruction addresses, loaded. It has one
line for each address, whose bounds are equal, and the loader takes these for the bounds of an
empty range. -/

namespace PretIss

open Hexadecimal L1Scratch

namespace StaticSchedule

open StaticBoundParser

theorem rangeLine_format (pc : Word) :
    RangeLine (format 8 pc.toNat ++ ' ' :: format 8 pc.toNat) (pc, pc) := by
  have numeral : Numeral (Nat.toDigits 16 pc.toNat) pc.toNat :=
    ⟨[], Nat.toDigits 16 pc.toNat, rfl, digits_toDigits pc.toNat, Or.inl rfl⟩
  have blank : ∀ n, ∀ c ∈ List.replicate n ' ', isBlank c = true := by
    intro n c member
    rw [List.eq_of_mem_replicate member]
    rfl
  let pad := List.replicate (8 - (Nat.toDigits 16 pc.toNat).length) ' '
  refine ⟨pad, Nat.toDigits 16 pc.toNat, ' ' :: pad, Nat.toDigits 16 pc.toNat, [], ?_, blank _, ?_,
    List.cons_ne_nil _ _, by simp, numeral, numeral⟩
  · rw [List.append_nil, format, List.append_assoc, List.cons_append]
  · rw [List.forall_mem_cons]
    exact ⟨rfl, blank _⟩

theorem newline_not_mem (pc : Word) :
    '\n' ∉ format 8 pc.toNat ++ ' ' :: format 8 pc.toNat := by
  have absent : ∀ n, '\n' ∉ format 8 n := by
    intro n member
    obtain blank | digit := List.mem_append.mp member
    · cases List.eq_of_mem_replicate blank
    · cases (digits_toDigits n).digits '\n' digit
  simp [absent]

theorem mapFile_generated (mergedInst : List Word) :
    MapFile (mergedInst.flatMap ispmLine) (mergedInst.map fun pc => (pc, pc)) := by
  induction mergedInst with
  | nil => exact .nil
  | cons pc rest ih =>
      have lines : (List.flatMap ispmLine (pc :: rest)).splitOn '\n' =
          (format 8 pc.toNat ++ ' ' :: format 8 pc.toNat) ::
            (rest.flatMap ispmLine).splitOn '\n' := by
        rw [List.flatMap_cons, ispmLine, List.append_assoc, List.singleton_append,
          List.splitOn_append_cons_self_of_not_mem (newline_not_mem pc)]
      rw [MapFile, lines, List.filter_cons_of_pos (by simp), List.map_cons]
      exact .cons (rangeLine_format pc) ih

theorem words_self (pc : Word) : words (pc, pc) = [] :=
  words_of_not_lt fun below => absurd below (by simp)

theorem loadInstSpm_generated (mc : MemoryController) (tid : ThreadId) (spmSize : Int)
    (mergedInst : List Word) :
    ((loadInstSpm mc tid (generateIspmFile spmSize mergedInst)).instScratchpad tid).table =
      (mc.instScratchpad tid).table := by
  unfold generateIspmFile
  split
  · rfl
  · have empty : (mergedInst.map fun pc => (pc, pc)).map words = mergedInst.map fun _ => [] := by
      rw [List.map_map]
      exact List.map_congr_left fun pc _ => words_self pc
    have nothing : ∀ range ∈ mergedInst.map fun pc => (pc, pc), words range = [] := by
      rw [List.forall_mem_map]
      exact fun pc _ => words_self pc
    have loads := loadLines_table (Or.inl rfl) mc.mainMem.mem (mapFile_generated mergedInst)
      (fun range member addr inside => by
        rw [nothing range member] at inside
        cases inside)
      (fun range member => by
        rw [nothing range member]
        exact Nat.zero_le _)
      (0, 0) (mc.instScratchpad tid)
    rw [empty, SlotTable.fillAll_eq_fill _ (by simp)] at loads
    simp only [loadInstSpm, loadSpm, Function.update_self, loads]
    simp [SlotTable.fill]

/-- Exactly these addresses are in the scratchpad, each with its word of the main memory. -/
structure Agrees (mc mc' : MemoryController) (tid : ThreadId) (addresses : List Word) : Prop where
  exact : ∀ addr, (mc'.instScratchpad tid).isAddrInSpm addr = true ↔ addr ∈ addresses
  words : ∀ addr ∈ addresses,
    (mc'.instScratchpad tid).read addr = (mc.mainMem.mem.read addr, false)

/-- What the scheduler writes for a set of addresses is loaded as the set only if that is
empty. -/
theorem round_trip_iff {mc : MemoryController} {tid : ThreadId}
    (empty : mc.instScratchpad tid = .create) (spmSize : Int) (addresses : List Word) :
    Agrees mc (loadInstSpm mc tid (generateIspmFile spmSize addresses)) tid addresses ↔
      addresses = [] := by
  have table := loadInstSpm_generated mc tid spmSize addresses
  rw [empty] at table
  have absent : ∀ addr, ((loadInstSpm mc tid
      (generateIspmFile spmSize addresses)).instScratchpad tid).isAddrInSpm addr = false := by
    intro addr
    have held : ((loadInstSpm mc tid
        (generateIspmFile spmSize addresses)).instScratchpad tid).mem addr = none :=
      congrFun (congrArg SlotTable.held table) addr
    simp [isAddrInSpm, MemoryUnit.hasAddress, held]
  constructor
  · intro agrees
    refine List.eq_nil_iff_forall_not_mem.mpr fun addr member => ?_
    have found := (agrees.exact addr).mpr member
    rw [absent] at found
    cases found
  · rintro rfl
    exact ⟨fun addr => by simp [absent], fun addr member => by cases member⟩

theorem round_trip_iff_pair :
    Agrees .create (loadInstSpm .create 0 (generateIspmFile 1430 [0x40000000, 0x40000004])) 0
        [0x40000000, 0x40000004] ↔
      [0x40000000, 0x40000004] = ([] : List Word) :=
  round_trip_iff rfl 1430 [0x40000000, 0x40000004]

/-- The file for one address loads nothing. -/
theorem one_address_lost :
    ¬ Agrees .create (loadInstSpm .create 0 (generateIspmFile 1430 [0x40000000])) 0
      [0x40000000] := by
  intro agrees
  have found := (agrees.exact 0x40000000).mpr List.mem_cons_self
  revert found
  decide

end StaticSchedule

end PretIss
