import PretIss.Library.Transition
import PretIss.Model.ExceptStage

/-! What the last stage shares between threads. It only adds a transfer request
to the DMA engine, and it looks at the barrier table only for a SYNC. -/

namespace PretIss.ExceptStage

variable {id : ThreadId}

def applyRequest (id : ThreadId) (dma : Dma) : Option (Word × Word) → Dma
  | none => dma
  | some (source, target) => ((dma.setMemSource id source).setSpmTarget id target).makeTransfer id

def consultsBarrier (ht : HwThread id) : Bool :=
  ht.enabled && !ht.fetchStalled && !ht.deadlineStalled && !ht.memoryStalled &&
    ht.inst.syncInstruction

theorem writeSpecialRegs_request {ht ht' : HwThread id} {dma dma' : Dma}
    (written : writeSpecialRegs ht dma = .ok (ht', dma')) :
    ∃ request, dma' = applyRequest id dma request ∧
      ∀ other, writeSpecialRegs ht other = .ok (ht', applyRequest id other request) := by
  unfold writeSpecialRegs at written ⊢
  split at written
  · rename_i active
    simp only [active, if_true]
    split at written
    · obtain ⟨rfl, rfl⟩ := Prod.mk.injEq .. ▸ Except.ok.inj written
      exact ⟨none, rfl, fun _ => rfl⟩
    · obtain ⟨specRegs, index, written⟩ := Transition.bind_eq_ok.mp written
      obtain ⟨rfl, rfl⟩ := Prod.mk.injEq .. ▸ Except.ok.inj written
      exact ⟨none, rfl, fun _ => by rw [index]; rfl⟩
    · obtain ⟨rfl, rfl⟩ := Prod.mk.injEq .. ▸ Except.ok.inj written
      exact ⟨none, rfl, fun _ => rfl⟩
    · obtain ⟨rfl, rfl⟩ := Prod.mk.injEq .. ▸ Except.ok.inj written
      exact ⟨none, rfl, fun _ => rfl⟩
    · obtain ⟨rfl, rfl⟩ := Prod.mk.injEq .. ▸ Except.ok.inj written
      exact ⟨none, rfl, fun _ => rfl⟩
    · obtain ⟨after, index, written⟩ := Transition.bind_eq_ok.mp written
      obtain ⟨rfl, rfl⟩ := Prod.mk.injEq .. ▸ Except.ok.inj written
      exact ⟨none, rfl, fun _ => by rw [index]; rfl⟩
    · obtain ⟨rfl, rfl⟩ := Prod.mk.injEq .. ▸ Except.ok.inj written
      exact ⟨some (ht.inst.aluResult, ht.inst.op3Value), rfl, fun _ => rfl⟩
    · obtain ⟨rfl, rfl⟩ := Prod.mk.injEq .. ▸ Except.ok.inj written
      exact ⟨none, rfl, fun _ => rfl⟩
  · rename_i inactive
    simp only [inactive]
    obtain ⟨rfl, rfl⟩ := Prod.mk.injEq .. ▸ Except.ok.inj written
    exact ⟨none, rfl, fun _ => rfl⟩

theorem commit_eq_ok {ht ht' : HwThread id} {syncNotStalled : Bool} {dma dma' : Dma} :
    commit ht syncNotStalled dma = .ok (ht', dma') ↔
      ∃ squashed handled moved written last,
        handleExceptions ht = .ok (squashed, handled) ∧
        advance squashed handled syncNotStalled = .ok moved ∧
        writeRegs moved = .ok written ∧
        writeSpecialRegs written dma = .ok (last, dma') ∧ ht' = retire last := by
  simp only [commit, Transition.bind_eq_ok, Prod.exists, pure, Except.pure, Except.ok.injEq,
    Prod.mk.injEq]
  constructor
  · rintro ⟨squashed, handled, first, moved, second, written, third, last, _, fourth, rfl, rfl⟩
    exact ⟨squashed, handled, moved, written, last, first, second, third, fourth, rfl⟩
  · rintro ⟨squashed, handled, moved, written, last, first, second, third, fourth, rfl⟩
    exact ⟨squashed, handled, first, moved, second, written, third, last, _, fourth, rfl, rfl⟩

theorem commit_request {ht ht' : HwThread id} {syncNotStalled : Bool} {dma dma' : Dma}
    (committed : commit ht syncNotStalled dma = .ok (ht', dma')) :
    ∃ request, dma' = applyRequest id dma request ∧
      ∀ other, commit ht syncNotStalled other = .ok (ht', applyRequest id other request) := by
  obtain ⟨squashed, handled, moved, written, last, first, second, third, fourth, rfl⟩ :=
    commit_eq_ok.mp committed
  obtain ⟨request, same, everywhere⟩ := writeSpecialRegs_request fourth
  refine ⟨request, same, fun other => commit_eq_ok.mpr ?_⟩
  exact ⟨squashed, handled, moved, written, last, first, second, third, everywhere other, rfl⟩

theorem arrive_cases (ht : HwThread id) :
    arrive ht = countCycles ht ∨ arrive ht = { countCycles ht with dbWordStalled := true } := by
  unfold arrive setDwordState
  split <;> simp

@[simp] theorem arrive_enabled (ht : HwThread id) : (arrive ht).enabled = ht.enabled := by
  obtain same | same := arrive_cases ht <;> rw [same] <;> rfl

@[simp] theorem arrive_inst (ht : HwThread id) : (arrive ht).inst = ht.inst := by
  obtain same | same := arrive_cases ht <;> rw [same] <;> rfl

@[simp] theorem arrive_deadlineStalled (ht : HwThread id) :
    (arrive ht).deadlineStalled = ht.deadlineStalled := by
  obtain same | same := arrive_cases ht <;> rw [same] <;> rfl

@[simp] theorem arrive_memoryStalled (ht : HwThread id) :
    (arrive ht).memoryStalled = ht.memoryStalled := by
  obtain same | same := arrive_cases ht <;> rw [same] <;> rfl

@[simp] theorem arrive_trapped (ht : HwThread id) : (arrive ht).trapped = ht.trapped := by
  obtain same | same := arrive_cases ht <;> rw [same] <;> rfl

@[simp] theorem arrive_trapType (ht : HwThread id) : (arrive ht).trapType = ht.trapType := by
  obtain same | same := arrive_cases ht <;> rw [same] <;> rfl

@[simp] theorem arrive_fetchStalled (ht : HwThread id) :
    (arrive ht).fetchStalled = ht.fetchStalled := by
  obtain same | same := arrive_cases ht <;> rw [same] <;> rfl

@[simp] theorem arrive_specRegs (ht : HwThread id) : (arrive ht).specRegs = ht.specRegs := by
  obtain same | same := arrive_cases ht <;> rw [same] <;> rfl

theorem behavior_of_disabled {ht : HwThread id} (disabled : ht.enabled = false)
    (syncTable : SyncTable) (dma : Dma) :
    behavior ht syncTable dma = .ok (ht, syncTable, dma) := by
  simp [behavior, disabled]

theorem behavior_of_fetchStalled {ht : HwThread id} (enabled : ht.enabled = true)
    (fetch : ht.fetchStalled = true) (syncTable : SyncTable) (dma : Dma) :
    behavior ht syncTable dma = .ok (countCycles ht, syncTable, dma) := by
  simp [behavior, enabled, fetch]

theorem behavior_of_deadlineStalled {ht ht' : HwThread id} (enabled : ht.enabled = true)
    (fetch : ht.fetchStalled = false) (dead : ht.deadlineStalled = true)
    {syncTable syncTable' : SyncTable} {dma dma' : Dma} :
    behavior ht syncTable dma = .ok (ht', syncTable', dma') ↔
      deadStalled (arrive ht) = .ok ht' ∧ syncTable' = syncTable ∧ dma' = dma := by
  simp only [behavior, enabled, fetch, arrive_deadlineStalled, dead, Bool.not_true,
    Bool.false_eq_true, if_false, if_true, Transition.bind_eq_ok, pure, Except.pure,
    Except.ok.injEq, Prod.mk.injEq]
  constructor
  · rintro ⟨_, waited, rfl, rfl, rfl⟩
    exact ⟨waited, rfl, rfl⟩
  · rintro ⟨waited, rfl, rfl⟩
    exact ⟨ht', waited, rfl, rfl, rfl⟩

theorem behavior_of_memoryStalled {ht : HwThread id} (enabled : ht.enabled = true)
    (fetch : ht.fetchStalled = false) (dead : ht.deadlineStalled = false)
    (memory : ht.memoryStalled = true) (syncTable : SyncTable) (dma : Dma) :
    behavior ht syncTable dma = .ok (arrive ht, syncTable, dma) := by
  simp [behavior, enabled, fetch, dead, memory]

theorem behavior_of_free {ht ht' : HwThread id} (enabled : ht.enabled = true)
    (fetch : ht.fetchStalled = false) (dead : ht.deadlineStalled = false)
    (memory : ht.memoryStalled = false)
    {syncTable syncTable' : SyncTable} {dma dma' : Dma} :
    behavior ht syncTable dma = .ok (ht', syncTable', dma') ↔
      ∃ syncNotStalled, checkSync (arrive ht) syncTable = .ok (syncTable', syncNotStalled) ∧
        commit (arrive ht) syncNotStalled dma = .ok (ht', dma') := by
  simp only [behavior, enabled, fetch, arrive_deadlineStalled, dead, arrive_memoryStalled, memory,
    Bool.not_true, Bool.false_eq_true, if_false, Transition.bind_eq_ok, Prod.exists, pure,
    Except.pure, Except.ok.injEq, Prod.mk.injEq]
  constructor
  · rintro ⟨_, syncNotStalled, consulted, _, _, committed, rfl, rfl, rfl⟩
    exact ⟨syncNotStalled, consulted, committed⟩
  · rintro ⟨syncNotStalled, consulted, committed⟩
    exact ⟨syncTable', syncNotStalled, consulted, ht', dma', committed, rfl, rfl, rfl⟩

/-- The stage only adds a request to the DMA engine, and outside a SYNC it treats
all tables and engines alike. -/
theorem behavior_request {ht ht' : HwThread id} {syncTable syncTable' : SyncTable}
    {dma dma' : Dma} (runs : behavior ht syncTable dma = .ok (ht', syncTable', dma')) :
    ∃ request, dma' = applyRequest id dma request ∧
      (consultsBarrier ht = false → ∀ otherTable other,
        behavior ht otherTable other = .ok (ht', otherTable, applyRequest id other request)) := by
  cases enabled : ht.enabled with
  | false =>
      rw [behavior_of_disabled enabled] at runs
      simp only [Except.ok.injEq, Prod.mk.injEq] at runs
      obtain ⟨rfl, rfl, rfl⟩ := runs
      exact ⟨none, rfl, fun _ => behavior_of_disabled enabled⟩
  | true =>
      cases fetch : ht.fetchStalled with
      | true =>
          rw [behavior_of_fetchStalled enabled fetch] at runs
          simp only [Except.ok.injEq, Prod.mk.injEq] at runs
          obtain ⟨rfl, rfl, rfl⟩ := runs
          exact ⟨none, rfl, fun _ => behavior_of_fetchStalled enabled fetch⟩
      | false =>
          cases dead : ht.deadlineStalled with
          | true =>
              obtain ⟨waited, rfl, rfl⟩ :=
                (behavior_of_deadlineStalled enabled fetch dead).mp runs
              exact ⟨none, rfl, fun _ _ _ =>
                (behavior_of_deadlineStalled enabled fetch dead).mpr ⟨waited, rfl, rfl⟩⟩
          | false =>
              cases memory : ht.memoryStalled with
              | true =>
                  rw [behavior_of_memoryStalled enabled fetch dead memory] at runs
                  simp only [Except.ok.injEq, Prod.mk.injEq] at runs
                  obtain ⟨rfl, rfl, rfl⟩ := runs
                  exact ⟨none, rfl, fun _ => behavior_of_memoryStalled enabled fetch dead memory⟩
              | false =>
                  obtain ⟨syncNotStalled, consulted, committed⟩ :=
                    (behavior_of_free enabled fetch dead memory).mp runs
                  obtain ⟨request, same, everywhere⟩ := commit_request committed
                  refine ⟨request, same, fun quiet otherTable other => ?_⟩
                  have plain : ht.inst.syncInstruction = false := by
                    simpa [consultsBarrier, enabled, fetch, dead, memory] using quiet
                  refine (behavior_of_free enabled fetch dead memory).mpr
                    ⟨syncNotStalled, ?_, everywhere other⟩
                  simp only [checkSync, arrive_inst, plain, Bool.false_eq_true, if_false,
                    Except.ok.injEq, Prod.mk.injEq] at consulted ⊢
                  exact ⟨trivial, consulted.2⟩

end PretIss.ExceptStage
