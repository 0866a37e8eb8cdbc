import PretIss.Library.SlotTable
import PretIss.Memory.Scratchpad

/-! A scratchpad under any requests: words added to its slots, words updated, and writes
that the memory controller routes to it. It is a table of slots, whose capacity is that of
the slots; but an address that was added to two of them leaves with either. -/

namespace PretIss

namespace L1Scratch

def routeWrite (spm : L1Scratch) (addr data : Word) : L1Scratch :=
  if spm.isAddrInSpm addr then (spm.write addr data).1 else spm

inductive Request where
  | addAddr (memAddr spmAddr data : Word)
  | updateAddr (memAddr inst : Word)
  | writeData (addr data : Word)

def serve (spm : L1Scratch) : Request → L1Scratch
  | .addAddr memAddr spmAddr data => spm.addAddr memAddr spmAddr data
  | .updateAddr memAddr inst => spm.updateAddr memAddr inst
  | .writeData addr data => spm.routeWrite addr data

/-- An empty scratchpad after these requests. -/
def after (requests : List Request) : L1Scratch := requests.foldl serve create

def table (spm : L1Scratch) : SlotTable (Fin (scratchSize / 4)) Word Word where
  held := spm.mem
  name := spm.mainMemoryAddress

def revision (addr data : Word) : SlotTable.Command (Fin (scratchSize / 4)) Word Word :=
  if addr = 0 then .idle else .revise addr data

def Request.command : Request → SlotTable.Command (Fin (scratchSize / 4)) Word Word
  | .addAddr memAddr spmAddr data =>
      if inSpmRange spmAddr then .store (slotOf spmAddr) memAddr data else .idle
  | .updateAddr addr data | .writeData addr data => revision addr data

theorem table_revise (spm : L1Scratch) (addr data : Word) :
    (if spm.isAddrInSpm addr then { spm with mem := spm.mem.addAddress addr data } else spm).table =
      spm.table.perform (revision addr data) := by
  unfold revision isAddrInSpm MemoryUnit.hasAddress
  by_cases zero : addr = 0
  · rw [if_pos zero, if_pos zero]
    rfl
  · rw [if_neg zero, if_neg zero, SlotTable.perform]
    by_cases held : (spm.mem addr).isSome = true
    · rw [if_pos held]
      exact (if_pos held).symm
    · rw [if_neg held]
      exact (if_neg held).symm

theorem table_serve (spm : L1Scratch) (request : Request) :
    (spm.serve request).table = spm.table.perform request.command := by
  cases request with
  | addAddr memAddr spmAddr data =>
      simp only [serve, Request.command]
      cases inside : inSpmRange spmAddr with
      | false => rw [addAddr_of_outside spm inside]; rfl
      | true =>
          simp only [table, addAddr_mem spm inside, addAddr_mainMemoryAddress spm inside]
          rfl
  | updateAddr addr data => exact table_revise spm addr data
  | writeData addr data => exact table_revise spm addr data

theorem table_after (requests : List Request) :
    (after requests).table = create.table.performAll (requests.map Request.command) := by
  induction requests using List.reverseRecOn with
  | nil => rfl
  | append_singleton earlier request ih =>
      simp only [after, SlotTable.performAll, List.foldl_append, List.map_append, List.map_cons,
        List.map_nil, List.foldl_cons, List.foldl_nil, table_serve] at ih ⊢
      rw [ih]

/-- Every word that is held is named by a slot, so that no more than fit are held. -/
theorem capacity_enforced (requests : List Request) :
    (∀ addr, (after requests).mem.hasAddress addr = true →
        ∃ slot, (after requests).mainMemoryAddress slot = addr) ∧
      {addr | (after requests).mem.hasAddress addr = true}.ncard ≤ scratchSize / 4 := by
  have empty : create.table.Named := fun addr held => by cases held
  have named : (after requests).table.Named := by
    rw [table_after]
    exact empty.performAll (requests.map Request.command)
  refine ⟨named, ?_⟩
  calc {addr | (after requests).mem.hasAddress addr = true}.ncard
      ≤ Fintype.card (Fin (scratchSize / 4)) := named.ncard_le
    _ = scratchSize / 4 := Fintype.card_fin (scratchSize / 4)

def promised (memAddr : Word) (requests : List Request) : Option (Fin (scratchSize / 4) × Word) :=
  SlotTable.promised memAddr (requests.map Request.command)

/-- After these requests a promised address is in the scratchpad with its value. -/
def Resident (memAddr : Word) (requests : List Request) : Prop :=
  ∀ slot data, promised memAddr requests = some (slot, data) →
    (after requests).isAddrInSpm memAddr = true ∧ (after requests).read memAddr = (data, false)

/-- A request that adds another address to a slot that still names a promised one, though
a different slot received it last. -/
def EvictsElsewhere (memAddr : Word) (requests : List Request) : Request → Prop
  | .addAddr other spmAddr _ =>
      inSpmRange spmAddr = true ∧ other ≠ memAddr ∧
        (after requests).mainMemoryAddress (slotOf spmAddr) = memAddr ∧
        ∃ last data, promised memAddr requests = some (last, data) ∧ last ≠ slotOf spmAddr
  | .updateAddr _ _ | .writeData _ _ => False

theorem found_iff {spm : L1Scratch} {addr data : Word} (nonzero : addr ≠ 0) :
    spm.isAddrInSpm addr = true ∧ spm.read addr = (data, false) ↔ spm.mem addr = some data := by
  simp only [isAddrInSpm, if_neg nonzero, MemoryUnit.hasAddress, read, MemoryUnit.read,
    Prod.mk.injEq, and_true]
  cases spm.mem addr <;> simp

theorem resident_iff_keeps {memAddr : Word} (nonzero : memAddr ≠ 0) (requests : List Request) :
    Resident memAddr requests ↔
      (create.table.performAll (requests.map Request.command)).Keeps memAddr
        (SlotTable.promised memAddr (requests.map Request.command)) := by
  rw [← table_after]
  exact forall₂_congr fun slot data => imp_congr_right fun _ => found_iff nonzero

theorem revision_evicts (t : SlotTable (Fin (scratchSize / 4)) Word Word) (memAddr addr data : Word)
    (kept : Option (Fin (scratchSize / 4) × Word)) :
    ¬ t.EvictsElsewhere memAddr kept (revision addr data) := by
  unfold revision
  split <;> exact id

theorem evictsElsewhere_command (memAddr : Word) (requests : List Request) (request : Request) :
    EvictsElsewhere memAddr requests request ↔
      (create.table.performAll (requests.map Request.command)).EvictsElsewhere memAddr
        (SlotTable.promised memAddr (requests.map Request.command)) request.command := by
  rw [← table_after]
  cases request with
  | addAddr other spmAddr data =>
      cases inside : inSpmRange spmAddr with
      | false => simp [EvictsElsewhere, SlotTable.EvictsElsewhere, Request.command, inside]
      | true => simp [EvictsElsewhere, SlotTable.EvictsElsewhere, Request.command, inside, table,
          promised]
  | updateAddr addr data => exact (iff_false_right (revision_evicts _ memAddr addr data _)).mpr id
  | writeData addr data => exact (iff_false_right (revision_evicts _ memAddr addr data _)).mpr id

/-- An address stays in the scratchpad as long as the slot that received it last keeps it,
exactly if it is not evicted through a slot that received it before. -/
theorem resident_iff {memAddr : Word} (nonzero : memAddr ≠ 0) (requests : List Request) :
    (∀ earlier, earlier <+: requests → Resident memAddr earlier) ↔
      ∀ earlier request, earlier ++ [request] <+: requests →
        ¬ EvictsElsewhere memAddr earlier request := by
  have general := create.table.keeps_iff memAddr (requests.map Request.command)
  simp only [List.prefix_map_iff, forall_exists_index, and_imp, resident_iff_keeps nonzero,
    evictsElsewhere_command] at general ⊢
  constructor
  · intro all earlier request shorter
    exact general.mp (fun _ kept before same => same ▸ all kept before)
      (earlier.map Request.command) request.command (earlier ++ [request]) shorter (by simp)
  · intro none earlier shorter
    refine general.mpr ?_ (earlier.map Request.command) earlier shorter rfl
    intro commands command kept before same
    obtain ⟨first, last, rfl, rfl, one⟩ := List.map_eq_append_iff.mp same.symm
    obtain ⟨request, rfl, rfl⟩ := List.map_eq_singleton_iff.mp one
    exact none first request before

def twoSlots : List Request :=
  [.addAddr 0x40000000 0 1, .addAddr 0x40000000 4 2, .addAddr 0x40000010 0 3]

/-- An address added to two slots is lost with the first of them, while the second still
names it. -/
theorem lost_with_first_slot :
    ¬ Resident 0x40000000 twoSlots ∧
      (after twoSlots).mainMemoryAddress (slotOf 4) = 0x40000000 := by
  refine ⟨fun resident => ?_, by decide⟩
  have found := (resident (slotOf 4) 2 (by decide)).1
  revert found
  decide

theorem resident_iff_reload :
    (∀ earlier, earlier <+: [.addAddr 0x40000000 0 1, .updateAddr 0x40000000 2] →
        Resident 0x40000000 earlier) ↔
      ∀ earlier request,
        earlier ++ [request] <+: [.addAddr 0x40000000 0 1, .updateAddr 0x40000000 2] →
          ¬ EvictsElsewhere 0x40000000 earlier request :=
  resident_iff (by decide) [.addAddr 0x40000000 0 1, .updateAddr 0x40000000 2]

end L1Scratch

end PretIss
