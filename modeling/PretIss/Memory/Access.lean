import PretIss.Memory.Contents
import PretIss.Model.Mem

/-! The fetch and memory stages over the memory controller, as functions of the
contents of the memories. The controller answers every access, so a stage can
only stop on the END word. -/

namespace PretIss

variable {id : ThreadId}

def fetchFrom (m : Contents) (cycles : BitVec 32) (ht : HwThread id) : HwThread id :=
  if ¬ ht.enabled then ht
  else if Fetch.isHeld ht then Fetch.countDown ht
  else
    Fetch.receive (Fetch.countDown ht) (m.value id ht.pc) (!m.granted cycles id ht.pc)

def accessAddr (ht : HwThread id) : Word := Mem.alignedAddr ht.inst.aluResult

def loadFrom (m : Contents) (cycles : BitVec 32) (ht : HwThread id) : HwThread id :=
  if m.granted cycles id (accessAddr ht) then
    { ht with
      memoryStalled := false
      inst := ht.inst.readData (m.value id (accessAddr ht)) (Mem.addrOffset ht.inst.aluResult) }
  else { ht with memoryStalled := true }

def storedWord (m : Contents) (ht : HwThread id) : Word :=
  ht.inst.getWriteData
    (if ht.inst.memorySize ≠ .word then m.value id (accessAddr ht) else 0xdeadbeef)
    (Mem.addrOffset ht.inst.aluResult)

/-- The thread and the contents after the memory stage. -/
def accessTo (m : Contents) (cycles : BitVec 32) (ht : HwThread id) : HwThread id × Contents :=
  if ht.isNotValid then (ht, m)
  else if ht.inst.readMemory then (loadFrom m cycles ht, m)
  else if ht.inst.writeMemory then
    ({ ht with memoryStalled := !m.granted cycles id (accessAddr ht) },
      if m.granted cycles id (accessAddr ht) then m.put id (accessAddr ht) (storedWord m ht)
      else m)
  else (ht, m)

theorem fetch_holds {mc mc' : MemoryController} {m : Contents} (holds : mc.Holds m)
    {cycles : BitVec 32} {ht ht' : HwThread id}
    (fetched : Fetch.behavior (MemoryController.fetchStageIf cycles) ht mc = .ok (ht', mc')) :
    ht' = fetchFrom m cycles ht ∧ mc'.Holds m := by
  unfold Fetch.behavior at fetched
  unfold fetchFrom
  split at fetched
  · rename_i disabled
    obtain ⟨rfl, rfl⟩ := Prod.mk.injEq .. ▸ Except.ok.inj fetched
    simp [disabled, holds]
  · rename_i enabled
    split at fetched
    · rename_i held
      obtain ⟨rfl, rfl⟩ := Prod.mk.injEq .. ▸ Except.ok.inj fetched
      simp [enabled, held, holds]
    · rename_i free
      obtain ⟨after, answer, kept⟩ :=
        MemoryController.readInst_holds holds cycles id ht.pc
      simp only [MemoryController.fetchStageIf, answer, bind, Except.bind] at fetched
      split at fetched
      · cases fetched
      · obtain ⟨rfl, rfl⟩ := Prod.mk.injEq .. ▸ Except.ok.inj fetched
        simp [enabled, free, kept]

theorem load_holds {mc : MemoryController} {m : Contents} (holds : mc.Holds m)
    (cycles : BitVec 32) (ht : HwThread id) :
    ∃ mc', Mem.load (MemoryController.memStageIf cycles) ht mc =
      .ok (loadFrom m cycles ht, mc') ∧ mc'.Holds m := by
  obtain ⟨after, answer, kept⟩ := MemoryController.readData_holds holds cycles id (accessAddr ht)
  refine ⟨after, ?_, kept⟩
  simp only [accessAddr] at answer
  cases granted : m.granted cycles id (Mem.alignedAddr ht.inst.aluResult) <;>
    simp [Mem.load, MemoryController.memStageIf, answer, granted, loadFrom, accessAddr, bind,
      Except.bind, pure, Except.pure]

theorem store_holds {mc : MemoryController} {m : Contents} (holds : mc.Holds m)
    (cycles : BitVec 32) (ht : HwThread id) :
    ∃ mc', Mem.store (MemoryController.memStageIf cycles) ht mc =
      .ok ({ ht with memoryStalled := !m.granted cycles id (accessAddr ht) }, mc') ∧
      mc'.Holds (if m.granted cycles id (accessAddr ht)
        then m.put id (accessAddr ht) (storedWord m ht) else m) := by
  by_cases partialWord : ht.inst.memorySize ≠ .word
  · obtain ⟨middle, old, keptOld⟩ :=
      MemoryController.readData_holds holds cycles id (accessAddr ht)
    obtain ⟨after, answer, kept⟩ :=
      MemoryController.writeData_holds keptOld cycles id (accessAddr ht) (storedWord m ht)
    refine ⟨after, ?_, kept⟩
    simp only [accessAddr, storedWord, if_pos partialWord] at old answer ⊢
    simp [Mem.store, MemoryController.memStageIf, partialWord, old, answer, bind, Except.bind,
      pure, Except.pure]
  · obtain ⟨after, answer, kept⟩ :=
      MemoryController.writeData_holds holds cycles id (accessAddr ht) (storedWord m ht)
    refine ⟨after, ?_, kept⟩
    simp only [accessAddr, storedWord, if_neg partialWord] at answer ⊢
    simp only [ne_eq, not_not] at partialWord
    simp only [Mem.store, MemoryController.memStageIf, partialWord, ne_eq, not_true_eq_false,
      if_false, answer, bind, Except.bind, pure, Except.pure]

theorem access_holds {mc : MemoryController} {m : Contents} (holds : mc.Holds m)
    (cycles : BitVec 32) (ht : HwThread id) :
    ∃ mc', Mem.behavior (MemoryController.memStageIf cycles) ht mc =
      .ok ((accessTo m cycles ht).1, mc') ∧ mc'.Holds (accessTo m cycles ht).2 := by
  unfold Mem.behavior accessTo
  split
  · exact ⟨mc, rfl, holds⟩
  split
  · exact load_holds holds cycles ht
  split
  · exact store_holds holds cycles ht
  · exact ⟨mc, rfl, holds⟩

end PretIss
