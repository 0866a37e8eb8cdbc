import Mathlib.Data.Set.Basic
import PretIss.Memory.Access
import PretIss.Model.Core

/-! What two cores must share for one thread to run alike in both: its record,
its scratchpad, its side of the DMA engine, and a set of words outside the
scratchpads. A thread whose fetch stalled holds an instruction that no stage
looks at, so the records may differ there. -/

namespace PretIss.Isolation

variable {t u : ThreadId} {words : Set Location}

structure SameThread (h₁ h₂ : HwThread t) : Prop where
  record : { h₁ with inst := h₂.inst } = h₂
  inst : h₁.fetchStalled = false → h₁.inst = h₂.inst

structure SameContents (t : ThreadId) (words : Set Location) (m₁ m₂ : Contents) : Prop where
  spm : m₁.spm t = m₂.spm t
  words : ∀ location ∈ words, m₁.wordAt location = m₂.wordAt location

structure SameDma (t : ThreadId) (d₁ d₂ : Dma) : Prop where
  source : d₁.memSourceReg t = d₂.memSourceReg t
  target : d₁.spmTargetReg t = d₂.spmTargetReg t
  state : d₁.transferComplete t = d₂.transferComplete t

namespace SameThread

theorem refl (h : HwThread t) : SameThread h h := ⟨rfl, fun _ => rfl⟩

theorem eq_or_stalled {h₁ h₂ : HwThread t} (same : SameThread h₁ h₂) :
    h₁ = h₂ ∨ (h₁.fetchStalled = true ∧ h₂.fetchStalled = true) := by
  have stalled := congrArg HwThread.fetchStalled same.record
  cases fetch : h₁.fetchStalled with
  | true => exact Or.inr ⟨rfl, stalled.symm.trans fetch⟩
  | false =>
      left
      rw [← same.record, ← same.inst fetch]

theorem enabled {h₁ h₂ : HwThread t} (same : SameThread h₁ h₂) : h₁.enabled = h₂.enabled := by
  have enabled := congrArg HwThread.enabled same.record
  exact enabled

theorem update {h₁ h₂ : HwThread t} (same : SameThread h₁ h₂) (f : HwThread t → HwThread t)
    (frame : ∀ h i, f { h with inst := i } = { f h with inst := i })
    (inst : ∀ h, (f h).inst = h.inst) (stalled : ∀ h, (f h).fetchStalled = h.fetchStalled) :
    SameThread (f h₁) (f h₂) where
  record := by rw [inst h₂, ← frame, same.record]
  inst := by
    intro fetch
    rw [inst, inst]
    exact same.inst (stalled h₁ ▸ fetch)

end SameThread

namespace SameContents

theorem refl (m : Contents) : SameContents t words m m := ⟨rfl, fun _ _ => rfl⟩

theorem symm {m₁ m₂ : Contents} (same : SameContents t words m₁ m₂) :
    SameContents t words m₂ m₁ :=
  ⟨same.spm.symm, fun location member => (same.words location member).symm⟩

theorem trans {m₁ m₂ m₃ : Contents} (first : SameContents t words m₁ m₂)
    (second : SameContents t words m₂ m₃) : SameContents t words m₁ m₃ where
  spm := first.spm.trans second.spm
  words := fun location member =>
    (first.words location member).trans (second.words location member)

theorem place {m₁ m₂ : Contents} (same : SameContents t words m₁ m₂) (addr : Word) :
    m₁.place t addr = m₂.place t addr := by
  simp only [Contents.place, same.spm]

theorem granted {m₁ m₂ : Contents} (same : SameContents t words m₁ m₂) (cycles : BitVec 32)
    (addr : Word) : m₁.granted cycles t addr = m₂.granted cycles t addr := by
  simp only [Contents.granted, same.place]

theorem value {m₁ m₂ : Contents} (same : SameContents t words m₁ m₂) (addr : Word)
    (shared : ∀ location, m₁.place t addr = some location → location ∈ words) :
    m₁.value t addr = m₂.value t addr := by
  unfold Contents.value
  rw [← same.place addr]
  cases place : m₁.place t addr with
  | none => simp [same.spm]
  | some location => exact same.words location (shared location place)

end SameContents

theorem wordAt_put (m : Contents) (u : ThreadId) (addr data : Word) (location : Location) :
    (m.put u addr data).wordAt location =
      if m.place u addr = some location then data else m.wordAt location := by
  unfold Contents.put
  cases place : m.place u addr with
  | none => cases location <;> simp [Contents.setSpm, Contents.wordAt]
  | some found =>
      cases found <;> cases location <;>
        simp [Contents.wordAt, MemoryUnit.read, MemoryUnit.addAddress_apply, eq_comm]
      · split <;> rfl
      · split <;> rfl

theorem spm_put_of_ne (m : Contents) (addr data : Word) (other : u ≠ t) :
    (m.put u addr data).spm t = m.spm t := by
  unfold Contents.put
  split
  · simp [Contents.setSpm, other.symm]
  · rfl
  · rfl

theorem put_other (m : Contents) (addr data : Word) (other : u ≠ t)
    (apart : ∀ location, m.place u addr = some location → location ∉ words) :
    SameContents t words m (m.put u addr data) where
  spm := (spm_put_of_ne m addr data other).symm
  words := by
    intro location member
    rw [wordAt_put, if_neg]
    exact fun found => apart location found member

theorem put_same {m₁ m₂ : Contents} (same : SameContents t words m₁ m₂) (addr : Word)
    {data₁ data₂ : Word} (equal : (∀ location, m₁.place t addr = some location →
      location ∈ words) → data₁ = data₂) :
    SameContents t words (m₁.put t addr data₁) (m₂.put t addr data₂) where
  spm := by
    unfold Contents.put
    rw [← same.place addr]
    cases place : m₁.place t addr with
    | none =>
        rw [equal (by simp [place])]
        simp [Contents.setSpm, same.spm]
    | some found => cases found <;> exact same.spm
  words := by
    intro location member
    rw [wordAt_put, wordAt_put, ← same.place addr]
    split
    · rename_i found
      apply equal
      intro other place
      rw [found] at place
      exact Option.some.inj place ▸ member
    · exact same.words location member

theorem transfer_other (m : Contents) (source target : Word) (other : u ≠ t) :
    SameContents t words m (m.transfer u source target) where
  spm := by simp [Contents.transfer, Contents.setSpm, other.symm]
  words := by
    intro location _
    cases location <;> rfl

theorem transfer_same {m₁ m₂ : Contents} (same : SameContents t words m₁ m₂)
    (source target : Word)
    (shared : ∀ addr ∈ WheeledMem.burstAddrs source 4, Location.main addr ∈ words) :
    SameContents t words (m₁.transfer t source target) (m₂.transfer t source target) where
  spm := by
    have data : (WheeledMem.burstAddrs source 4).map m₁.main.read =
        (WheeledMem.burstAddrs source 4).map m₂.main.read :=
      List.map_congr_left fun addr member => same.words _ (shared addr member)
    rw [Contents.transfer, Contents.transfer, data, same.spm]
    simp [Contents.setSpm]
  words := by
    intro location member
    have same := same.words location member
    cases location <;> exact same

end PretIss.Isolation
