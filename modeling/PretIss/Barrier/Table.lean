import PretIss.Barrier.BitCount

/-! A call of the barrier table, as one of three cases: it passes a released row,
clears a bit of a row that is still waited for, or creates a row. -/

namespace PretIss.SyncTable

theorem setRow_apply (table : SyncTable) (i j : Fin numThreads) (row : SyncEntry) :
    table.setRow i row j = if j = i then row else table j :=
  Function.update_apply table i row j

/-- The scan stops at a row with the mask, or knows that no row left has it. -/
theorem checkRows_cases {table table' : SyncTable} {mask : BitVec 16} {id : ThreadId}
    {answer : Bool} {rows : List (Fin numThreads)} {firstFree : Option (Fin numThreads)}
    (free : ∀ i, firstFree = some i → (table i).mask = 0)
    (returns : checkRows table mask id rows firstFree = .ok (table', answer)) :
    (∃ i ∈ rows, (table i).mask = mask ∧ (table i).waiting = 0 ∧
        table' = table.setRow i (passRow (table i)) ∧ answer = true) ∨
      (∃ i ∈ rows, (table i).mask = mask ∧ (table i).waiting ≠ 0 ∧
        table' = table.setRow i (clearRow (table i) id) ∧ answer = false) ∨
      ((∀ i ∈ rows, (table i).mask ≠ mask) ∧
        ∃ i, (table i).mask = 0 ∧ table' = table.setRow i ⟨mask, mask, 0⟩ ∧ answer = false) := by
  induction rows generalizing firstFree with
  | nil =>
      cases firstFree with
      | none => cases returns
      | some i =>
          simp only [checkRows, Except.ok.injEq, Prod.mk.injEq] at returns
          obtain ⟨rfl, rfl⟩ := returns
          exact Or.inr (Or.inr ⟨by simp, i, free i rfl, rfl, rfl⟩)
  | cons head rest ih =>
      unfold checkRows at returns
      split at returns
      · rename_i found
        split at returns
        · rename_i released
          simp only [Except.ok.injEq, Prod.mk.injEq] at returns
          obtain ⟨rfl, rfl⟩ := returns
          exact Or.inl ⟨head, by simp, found, released, rfl, rfl⟩
        · rename_i waited
          simp only [Except.ok.injEq, Prod.mk.injEq] at returns
          obtain ⟨rfl, rfl⟩ := returns
          exact Or.inr (Or.inl ⟨head, by simp, found, waited, rfl, rfl⟩)
      · rename_i other
        have later : ∃ next, (∀ i, next = some i → (table i).mask = 0) ∧
            checkRows table mask id rest next = .ok (table', answer) := by
          split at returns
          · rename_i empty
            exact ⟨some head, fun i same => Option.some.inj same ▸ empty.1, returns⟩
          · exact ⟨firstFree, free, returns⟩
        obtain ⟨next, clear, returns⟩ := later
        obtain ⟨i, member, case⟩ | ⟨i, member, case⟩ | ⟨absent, case⟩ := ih clear returns
        · exact Or.inl ⟨i, List.mem_cons_of_mem _ member, case⟩
        · exact Or.inr (Or.inl ⟨i, List.mem_cons_of_mem _ member, case⟩)
        · exact Or.inr (Or.inr ⟨List.forall_mem_cons.mpr ⟨other, absent⟩, case⟩)

theorem checkSyncTable_cases {table table' : SyncTable} {mask : BitVec 16} {id : ThreadId}
    {answer : Bool} (returns : table.checkSyncTable mask id = .ok (table', answer)) :
    (∃ i, (table i).mask = mask ∧ (table i).waiting = 0 ∧
        table' = table.setRow i (passRow (table i)) ∧ answer = true) ∨
      (∃ i, (table i).mask = mask ∧ (table i).waiting ≠ 0 ∧
        table' = table.setRow i (clearRow (table i) id) ∧ answer = false) ∨
      ((∀ i, (table i).mask ≠ mask) ∧
        ∃ i, (table i).mask = 0 ∧ table' = table.setRow i ⟨mask, mask, 0⟩ ∧ answer = false) := by
  obtain ⟨i, _, case⟩ | ⟨i, _, case⟩ | ⟨absent, case⟩ :=
    checkRows_cases (by simp) returns
  · exact Or.inl ⟨i, case⟩
  · exact Or.inr (Or.inl ⟨i, case⟩)
  · exact Or.inr (Or.inr ⟨fun i => absent i (List.mem_finRange i), case⟩)

theorem checkRows_returns {table : SyncTable} {mask : BitVec 16} {id : ThreadId}
    {rows : List (Fin numThreads)} {firstFree : Option (Fin numThreads)}
    (room : firstFree.isSome = true ∨ ∃ i ∈ rows, (table i).mask = mask ∨ (table i).mask = 0) :
    ∃ result, checkRows table mask id rows firstFree = .ok result := by
  induction rows generalizing firstFree with
  | nil =>
      cases firstFree with
      | none => simp at room
      | some i => exact ⟨_, rfl⟩
  | cons head rest ih =>
      unfold checkRows
      split
      · split <;> exact ⟨_, rfl⟩
      · rename_i other
        split
        · exact ih (Or.inl rfl)
        · rename_i occupied
          apply ih
          obtain some | ⟨i, member, usable⟩ := room
          · exact Or.inl some
          · obtain rfl | later := List.mem_cons.mp member
            · left
              have empty : (table i).mask = 0 := usable.resolve_left other
              simpa [empty, Option.isSome_iff_ne_none] using occupied
            · exact Or.inr ⟨i, later, usable⟩

theorem checkSyncTable_returns {table : SyncTable} {mask : BitVec 16} (id : ThreadId)
    (room : ∃ i, (table i).mask = mask ∨ (table i).mask = 0) :
    ∃ result, table.checkSyncTable mask id = .ok result := by
  obtain ⟨i, usable⟩ := room
  exact checkRows_returns (Or.inr ⟨i, List.mem_finRange i, usable⟩)

def find (table : SyncTable) (mask : BitVec 16) : Option (Fin numThreads) :=
  (List.finRange numThreads).find? fun i => decide ((table i).mask = mask)

@[simp] theorem clearRow_mask (row : SyncEntry) (id : ThreadId) :
    (clearRow row id).mask = row.mask := rfl

@[simp] theorem clearRow_passed (row : SyncEntry) (id : ThreadId) :
    (clearRow row id).passed = row.passed := rfl

theorem clearRow_waiting (row : SyncEntry) (id : ThreadId) (b : Nat) :
    (clearRow row id).waiting.getLsbD b = (row.waiting.getLsbD b && b != id.val) := by
  have small := id.isLt
  simp only [numThreads] at small
  simp only [clearRow, BitVec.getLsbD_and, BitVec.getLsbD_not, BitVec.getLsbD_shiftLeft]
  cases waiting : row.waiting.getLsbD b with
  | false => simp
  | true =>
      have bound := BitVec.lt_of_getLsbD waiting
      by_cases same : b = id.val
      · simp [same]
      · by_cases below : b < id.val
        · simp [below, bound, same]
        · have shift : b - id.val ≠ 0 := by omega
          simp [below, bound, same, shift]

@[simp] theorem passRow_waiting (row : SyncEntry) : (passRow row).waiting = row.waiting := by
  unfold passRow
  simp only []
  split <;> rfl

@[simp] theorem passRow_passed (row : SyncEntry) : (passRow row).passed = row.passed + 1 := by
  unfold passRow
  simp only []
  split <;> rfl

theorem passRow_mask (row : SyncEntry) :
    (passRow row).mask =
      if (row.passed + 1).toNat = popcount row.mask then 0 else row.mask := by
  unfold passRow
  simp only [bitCount_mask]
  split <;> rfl

def Awaits (table : SyncTable) (mask : BitVec 16) (id : ThreadId) : Prop :=
  ∃ i, table.find mask = some i ∧ (table i).waiting ≠ 0 ∧
    (table i).waiting.getLsbD id.val = false

end PretIss.SyncTable
