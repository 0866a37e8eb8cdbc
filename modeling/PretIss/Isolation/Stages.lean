import PretIss.Isolation.Relation
import PretIss.Stage.Request

/-! The stages on a thread that is alike in two cores, and the DMA engine on two
memories that are alike for it. Each stage keeps the thread alike; each stage of
another thread is not noticed. -/

namespace PretIss.Isolation

variable {t u : ThreadId} {words : Set Location}

namespace SameDma

theorem refl (d : Dma) : SameDma t d d := ⟨rfl, rfl, rfl⟩

theorem symm {d₁ d₂ : Dma} (same : SameDma t d₁ d₂) : SameDma t d₂ d₁ :=
  ⟨same.source.symm, same.target.symm, same.state.symm⟩

theorem trans {d₁ d₂ d₃ : Dma} (first : SameDma t d₁ d₂) (second : SameDma t d₂ d₃) :
    SameDma t d₁ d₃ :=
  ⟨first.source.trans second.source, first.target.trans second.target,
    first.state.trans second.state⟩

theorem request {d₁ d₂ : Dma} (same : SameDma t d₁ d₂) (request : Option (Word × Word)) :
    SameDma t (ExceptStage.applyRequest t d₁ request) (ExceptStage.applyRequest t d₂ request) := by
  cases request with
  | none => exact same
  | some pair =>
      constructor <;> simp [ExceptStage.applyRequest, Dma.setMemSource, Dma.setSpmTarget,
        Dma.makeTransfer, Dma.setTransferState]

theorem request_other (d : Dma) (request : Option (Word × Word)) (other : u ≠ t) :
    SameDma t d (ExceptStage.applyRequest u d request) := by
  cases request with
  | none => exact refl d
  | some pair =>
      constructor <;> simp [ExceptStage.applyRequest, Dma.setMemSource, Dma.setSpmTarget,
        Dma.makeTransfer, Dma.setTransferState, other.symm]

end SameDma

theorem receive_same {h₁ h₂ : HwThread t} (same : SameThread h₁ h₂) (bits₁ bits₂ : Word)
    (stall : Bool) (equal : stall = false → bits₁ = bits₂) :
    SameThread (Fetch.receive h₁ bits₁ stall) (Fetch.receive h₂ bits₂ stall) where
  record := by
    rw [← same.record]
    rfl
  inst := by
    intro free
    rw [equal free]
    rfl

theorem fetch_same {m₁ m₂ : Contents} (contents : SameContents t words m₁ m₂)
    (cycles : BitVec 32) {h₁ h₂ : HwThread t} (same : SameThread h₁ h₂)
    (shared : h₁.enabled = true → Fetch.isHeld h₁ = false →
      m₁.granted cycles t h₁.pc = true →
      ∀ location, m₁.place t h₁.pc = some location → location ∈ words) :
    SameThread (fetchFrom m₁ cycles h₁) (fetchFrom m₂ cycles h₂) := by
  have held : Fetch.isHeld h₁ = Fetch.isHeld h₂ := by
    have held := congrArg Fetch.isHeld same.record
    exact held
  have pc : h₁.pc = h₂.pc := by
    have pc := congrArg HwThread.pc same.record
    exact pc
  have counted : SameThread (Fetch.countDown h₁) (Fetch.countDown h₂) :=
    same.update Fetch.countDown (fun _ _ => rfl) (fun _ => rfl) (fun _ => rfl)
  unfold fetchFrom
  rw [← same.enabled, ← held, ← pc, ← contents.granted cycles h₁.pc]
  split
  · exact same
  · rename_i enabled
    split
    · exact counted
    · rename_i free
      apply receive_same counted
      intro granted
      exact contents.value h₁.pc
        (shared (by simpa using enabled) (by simpa using free) (by simpa using granted))

theorem load_same {m₁ m₂ : Contents} (contents : SameContents t words m₁ m₂)
    (cycles : BitVec 32) (ht : HwThread t)
    (shared : m₁.granted cycles t (accessAddr ht) = true →
      ∀ location, m₁.place t (accessAddr ht) = some location → location ∈ words) :
    loadFrom m₁ cycles ht = loadFrom m₂ cycles ht := by
  unfold loadFrom
  rw [← contents.granted]
  split
  · rename_i granted
    rw [contents.value _ (shared granted)]
  · rfl

theorem access_same {m₁ m₂ : Contents} (contents : SameContents t words m₁ m₂)
    (cycles : BitVec 32) {h₁ h₂ : HwThread t} (same : SameThread h₁ h₂)
    (shared : h₁.isNotValid = false → h₁.inst.readMemory = true →
      m₁.granted cycles t (accessAddr h₁) = true →
      ∀ location, m₁.place t (accessAddr h₁) = some location → location ∈ words) :
    SameThread (accessTo m₁ cycles h₁).1 (accessTo m₂ cycles h₂).1 ∧
      SameContents t words (accessTo m₁ cycles h₁).2 (accessTo m₂ cycles h₂).2 := by
  obtain rfl | ⟨stalled₁, stalled₂⟩ := same.eq_or_stalled
  · unfold accessTo
    split
    · exact ⟨SameThread.refl _, contents⟩
    rename_i valid
    split
    · rename_i reads
      rw [load_same contents cycles h₁ (shared (by simpa using valid) reads)]
      exact ⟨SameThread.refl _, contents⟩
    split
    · rw [← contents.granted]
      refine ⟨SameThread.refl _, ?_⟩
      split
      · apply put_same contents
        intro found
        unfold storedWord
        rw [contents.value _ found]
      · exact contents
    · exact ⟨SameThread.refl _, contents⟩
  · have skip₁ : h₁.isNotValid = true := by simp [HwThread.isNotValid, stalled₁]
    have skip₂ : h₂.isNotValid = true := by simp [HwThread.isNotValid, stalled₂]
    simpa [accessTo, skip₁, skip₂] using And.intro same contents

theorem access_other (m : Contents) (cycles : BitVec 32) (ht : HwThread u) (other : u ≠ t)
    (apart : ht.isNotValid = false → ht.inst.readMemory = false → ht.inst.writeMemory = true →
      m.granted cycles u (accessAddr ht) = true →
      ∀ location, m.place u (accessAddr ht) = some location → location ∉ words) :
    SameContents t words m (accessTo m cycles ht).2 := by
  unfold accessTo
  split
  · exact SameContents.refl m
  rename_i valid
  split
  · exact SameContents.refl m
  rename_i reads
  split
  · rename_i writes
    change SameContents t words m (ite _ _ _)
    split
    · rename_i granted
      exact put_other m _ _ other
        (apart (by simpa using valid) (by simpa using reads) writes granted)
    · exact SameContents.refl m
  · exact SameContents.refl m

theorem isNotValid_of_stalled {h : HwThread t} (stalled : h.fetchStalled = true) :
    h.isNotValid = true := by
  simp [HwThread.isNotValid, stalled]

theorem decode_same {h₁ h₂ : HwThread t} (same : SameThread h₁ h₂) :
    SameThread (Decode.behavior h₁) (Decode.behavior h₂) := by
  obtain rfl | ⟨stalled₁, stalled₂⟩ := same.eq_or_stalled
  · exact SameThread.refl _
  · simpa [Decode.behavior, isNotValid_of_stalled stalled₁, isNotValid_of_stalled stalled₂]
      using same

theorem execute_same {h₁ h₂ : HwThread t} (same : SameThread h₁ h₂) :
    SameThread (Execute.behavior h₁) (Execute.behavior h₂) := by
  obtain rfl | ⟨stalled₁, stalled₂⟩ := same.eq_or_stalled
  · exact SameThread.refl _
  · simpa [Execute.behavior, isNotValid_of_stalled stalled₁, isNotValid_of_stalled stalled₂]
      using same

theorem regacc_same {h₁ h₂ k₁ k₂ : HwThread t} (same : SameThread h₁ h₂)
    (runs₁ : Regacc.behavior h₁ = .ok k₁) (runs₂ : Regacc.behavior h₂ = .ok k₂) :
    SameThread k₁ k₂ := by
  obtain rfl | ⟨stalled₁, stalled₂⟩ := same.eq_or_stalled
  · rw [runs₁] at runs₂
    obtain rfl := Except.ok.inj runs₂
    exact SameThread.refl _
  · simp only [Regacc.behavior, isNotValid_of_stalled stalled₁, isNotValid_of_stalled stalled₂,
      if_true, Except.ok.injEq] at runs₁ runs₂
    exact runs₁ ▸ runs₂ ▸ same

theorem except_same {h₁ h₂ k₁ k₂ : HwThread t} (same : SameThread h₁ h₂)
    (quiet : ExceptStage.consultsBarrier h₁ = false)
    {table₁ table₁' table₂ table₂' : SyncTable} {d₁ d₁' d₂ d₂' : Dma} (dma : SameDma t d₁ d₂)
    (runs₁ : ExceptStage.behavior h₁ table₁ d₁ = .ok (k₁, table₁', d₁'))
    (runs₂ : ExceptStage.behavior h₂ table₂ d₂ = .ok (k₂, table₂', d₂')) :
    SameThread k₁ k₂ ∧ SameDma t d₁' d₂' := by
  obtain rfl | ⟨stalled₁, stalled₂⟩ := same.eq_or_stalled
  · obtain ⟨request, rfl, everywhere⟩ := ExceptStage.behavior_request runs₁
    rw [everywhere quiet] at runs₂
    simp only [Except.ok.injEq, Prod.mk.injEq] at runs₂
    obtain ⟨rfl, _, rfl⟩ := runs₂
    exact ⟨SameThread.refl _, dma.request request⟩
  · cases enabled : h₁.enabled with
    | false =>
        rw [ExceptStage.behavior_of_disabled enabled] at runs₁
        rw [ExceptStage.behavior_of_disabled (same.enabled ▸ enabled)] at runs₂
        simp only [Except.ok.injEq, Prod.mk.injEq] at runs₁ runs₂
        obtain ⟨rfl, _, rfl⟩ := runs₁
        obtain ⟨rfl, _, rfl⟩ := runs₂
        exact ⟨same, dma⟩
    | true =>
        rw [ExceptStage.behavior_of_fetchStalled enabled stalled₁] at runs₁
        rw [ExceptStage.behavior_of_fetchStalled (same.enabled ▸ enabled) stalled₂] at runs₂
        simp only [Except.ok.injEq, Prod.mk.injEq] at runs₁ runs₂
        obtain ⟨rfl, _, rfl⟩ := runs₁
        obtain ⟨rfl, _, rfl⟩ := runs₂
        exact ⟨same.update ExceptStage.countCycles (fun _ _ => rfl) (fun _ => rfl)
          (fun _ => rfl), dma⟩

/-- What the engine and the memories of two cores share, and the words that a
pending transfer of the thread is about to copy. -/
structure SameTransfer (t : ThreadId) (words : Set Location) (cycles : BitVec 32)
    (s₁ s₂ : Dma × MemoryController) : Prop where
  dma : SameDma t s₁.1 s₂.1
  contents : SameContents t words s₁.2.contents s₂.2.contents
  built₁ : s₁.2.mainMem.Constructed
  built₂ : s₂.2.mainMem.Constructed
  shared : s₁.1.transferComplete t = .busy → slotGranted cycles t = true →
    ∀ addr ∈ WheeledMem.burstAddrs (s₁.1.memSourceReg t) 4, Location.main addr ∈ words

theorem serve_effect {cycles : BitVec 32} {s s' : Dma × MemoryController}
    (built : s.2.mainMem.Constructed) (served : Dma.serve cycles s.1 s.2 u = .ok s') :
    s'.2.mainMem.Constructed ∧
      ((s.1.transferComplete u = .busy ∧ slotGranted cycles u = true ∧
          s'.1 = s.1.setTransferState u .idle ∧
          s'.2.contents = s.2.contents.transfer u (s.1.memSourceReg u) (s.1.spmTargetReg u)) ∨
        (¬ (s.1.transferComplete u = .busy ∧ slotGranted cycles u = true) ∧
          s'.1 = s.1 ∧ s'.2.contents = s.2.contents)) := by
  obtain ⟨mc, answer, holds⟩ := Dma.serve_holds ⟨rfl, built⟩ cycles s.1 u
  rw [answer] at served
  obtain rfl := Except.ok.inj served
  refine ⟨holds.built, ?_⟩
  by_cases active : s.1.transferComplete u = .busy ∧ slotGranted cycles u = true
  · left
    have contents := holds.contents
    simp only [if_pos active] at contents ⊢
    exact ⟨active.1, active.2, trivial, contents⟩
  · right
    have contents := holds.contents
    simp only [if_neg active] at contents ⊢
    exact ⟨active, trivial, contents⟩

theorem serve_same {cycles : BitVec 32} (u : ThreadId) {s₁ s₂ s₁' s₂' : Dma × MemoryController}
    (same : SameTransfer t words cycles s₁ s₂)
    (served₁ : Dma.serve cycles s₁.1 s₁.2 u = .ok s₁')
    (served₂ : Dma.serve cycles s₂.1 s₂.2 u = .ok s₂') :
    SameTransfer t words cycles s₁' s₂' := by
  obtain ⟨built₁, effect₁⟩ := serve_effect same.built₁ served₁
  obtain ⟨built₂, effect₂⟩ := serve_effect same.built₂ served₂
  by_cases own : u = t
  · subst own
    rw [same.dma.state] at effect₁
    obtain ⟨busy, granted, dma₁, contents₁⟩ | ⟨idle, dma₁, contents₁⟩ := effect₁
    · obtain ⟨_, _, dma₂, contents₂⟩ | ⟨idle, _⟩ := effect₂
      · constructor
        · rw [dma₁, dma₂]
          exact ⟨same.dma.source, same.dma.target, by simp [Dma.setTransferState]⟩
        · rw [contents₁, contents₂, ← same.dma.source, ← same.dma.target]
          exact transfer_same same.contents _ _
            (same.shared (same.dma.state.trans busy) granted)
        · exact built₁
        · exact built₂
        · rw [dma₁]
          simp [Dma.setTransferState]
      · exact absurd ⟨busy, granted⟩ idle
    · obtain ⟨busy, granted, _⟩ | ⟨_, dma₂, contents₂⟩ := effect₂
      · exact absurd ⟨busy, granted⟩ idle
      · constructor
        · rw [dma₁, dma₂]
          exact same.dma
        · rw [contents₁, contents₂]
          exact same.contents
        · exact built₁
        · exact built₂
        · rw [dma₁]
          exact same.shared
  · have frame : ∀ {s s' : Dma × MemoryController},
        ((s.1.transferComplete u = .busy ∧ slotGranted cycles u = true ∧
          s'.1 = s.1.setTransferState u .idle ∧
          s'.2.contents = s.2.contents.transfer u (s.1.memSourceReg u) (s.1.spmTargetReg u)) ∨
        (¬ (s.1.transferComplete u = .busy ∧ slotGranted cycles u = true) ∧
          s'.1 = s.1 ∧ s'.2.contents = s.2.contents)) →
        SameDma t s.1 s'.1 ∧ SameContents t words s.2.contents s'.2.contents := by
      rintro s s' (⟨_, _, dma, contents⟩ | ⟨_, dma, contents⟩)
      · rw [dma, contents]
        have apart : t ≠ u := fun same => own same.symm
        exact ⟨⟨rfl, rfl, by simp [Dma.setTransferState, apart]⟩, transfer_other _ _ _ own⟩
      · rw [dma, contents]
        exact ⟨SameDma.refl _, SameContents.refl _⟩
    obtain ⟨dma₁, contents₁⟩ := frame effect₁
    obtain ⟨dma₂, contents₂⟩ := frame effect₂
    constructor
    · exact dma₁.symm.trans (same.dma.trans dma₂)
    · exact contents₁.symm.trans (same.contents.trans contents₂)
    · exact built₁
    · exact built₂
    · rw [← dma₁.state, ← dma₁.source]
      exact same.shared

theorem dma_same {cycles : BitVec 32} {s₁ s₂ s₁' s₂' : Dma × MemoryController}
    (same : SameTransfer t words cycles s₁ s₂)
    (runs₁ : Dma.behavior cycles s₁.1 s₁.2 = .ok s₁')
    (runs₂ : Dma.behavior cycles s₂.1 s₂.2 = .ok s₂') :
    SameTransfer t words cycles s₁' s₂' := by
  unfold Dma.behavior at runs₁ runs₂
  exact Transition.simulation_run _ (SameTransfer t words cycles) (fun _ _ => True)
    (fun _ _ => True) (fun u _ _ _ _ _ _ same first second => serve_same u same first second)
    same (fun _ _ => trivial) (fun _ _ => trivial) runs₁ runs₂

end PretIss.Isolation
