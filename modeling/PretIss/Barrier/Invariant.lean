import Mathlib.Data.Fintype.Pigeonhole
import Mathlib.Data.Finset.Card
import PretIss.Barrier.Callers

/-! The invariant of the barrier table under callers that repeat a call until it
returns true. A row is tied to the threads that are repeating a call with its
mask, so a row that is in use never lacks a thread, and six threads never fill
six rows and ask for a seventh. -/

namespace PretIss.Barrier

/-- A call that its thread may make: a new one with a mask of its own, or the one
it is repeating. -/
structure Allowed (call : Call) (s : Callers) : Prop where
  nonzero : call.mask ≠ 0
  own : call.mask.getLsbD call.id.val = true
  turn : s.pending call.id = none ∨ s.pending call.id = some call.mask

instance (call : Call) (s : Callers) : Decidable (Allowed call s) :=
  decidable_of_iff
    (call.mask ≠ 0 ∧ call.mask.getLsbD call.id.val = true ∧
      (s.pending call.id = none ∨ s.pending call.id = some call.mask))
    ⟨fun ⟨nonzero, own, turn⟩ => ⟨nonzero, own, turn⟩,
      fun allowed => ⟨allowed.nonzero, allowed.own, allowed.turn⟩⟩

theorem Allowed.same {call : Call} {s : Callers} (allowed : Allowed call s) (mask : BitVec 16)
    (pending : s.pending call.id = some mask) : mask = call.mask := by
  obtain new | again := allowed.turn
  · rw [new] at pending
    cases pending
  · rw [again] at pending
    exact (Option.some.inj pending).symm

def repeating (s : Callers) (mask : BitVec 16) : Finset ThreadId :=
  Finset.univ.filter fun i => s.pending i = some mask

@[simp] theorem mem_repeating {s : Callers} {mask : BitVec 16} {i : ThreadId} :
    i ∈ repeating s mask ↔ s.pending i = some mask := by
  simp [repeating]

/-- What holds of a row in use, given the threads that repeat a call with its mask. -/
structure RowInvariant (row : SyncEntry) (threads : Finset ThreadId) : Prop where
  subset : ∀ b, row.waiting.getLsbD b = true → row.mask.getLsbD b = true
  fresh : row.waiting ≠ 0 → row.passed = 0
  bound : row.passed.toNat < popcount row.mask
  cleared : ∀ b, row.mask.getLsbD b = true → row.waiting.getLsbD b = false →
    row.waiting ≠ 0 → ∃ i ∈ threads, i.val = b
  waited : row.waiting ≠ 0 → threads.Nonempty
  released : row.waiting = 0 → popcount row.mask ≤ row.passed.toNat + threads.card

structure TableInvariant (s : Callers) : Prop where
  own : ∀ i mask, s.pending i = some mask → mask ≠ 0 ∧ mask.getLsbD i.val = true
  distinct : ∀ i j, (s.table i).mask ≠ 0 → (s.table i).mask = (s.table j).mask → i = j
  row : ∀ i, (s.table i).mask ≠ 0 →
    RowInvariant (s.table i) (repeating s (s.table i).mask)

theorem RowInvariant.nonempty {row : SyncEntry} {threads : Finset ThreadId}
    (holds : RowInvariant row threads) : threads.Nonempty := by
  by_cases released : row.waiting = 0
  · have enough := holds.released released
    have bound := holds.bound
    apply Finset.card_pos.mp
    omega
  · exact holds.waited released

theorem create_invariant : TableInvariant .create where
  own := by simp [Callers.create]
  distinct := by simp [Callers.create, SyncTable.create]
  row := by simp [Callers.create, SyncTable.create]

theorem room_of_invariant {s : Callers} (holds : TableInvariant s) {call : Call}
    (allowed : Allowed call s) :
    ∃ i, (s.table i).mask = call.mask ∨ (s.table i).mask = 0 := by
  by_contra none
  have occupied : ∀ i, (s.table i).mask ≠ call.mask ∧ (s.table i).mask ≠ 0 := by
    intro i
    exact ⟨fun same => none ⟨i, Or.inl same⟩, fun empty => none ⟨i, Or.inr empty⟩⟩
  -- Each row has a thread of its own, so the six rows have all six threads.
  have owner : ∀ i, ∃ thread, s.pending thread = some (s.table i).mask := by
    intro i
    obtain ⟨thread, member⟩ := (holds.row i (occupied i).2).nonempty
    exact ⟨thread, mem_repeating.mp member⟩
  choose thread pending using owner
  have injective : Function.Injective thread := by
    intro i j same
    apply holds.distinct i j (occupied i).2
    have first := pending i
    rw [same, pending j] at first
    exact (Option.some.inj first).symm
  obtain ⟨i, found⟩ := Finite.surjective_of_injective injective call.id
  exact (occupied i).1 (allowed.same _ (found ▸ pending i))

theorem repeating_answered_of_ne {s : Callers} {call : Call} (allowed : Allowed call s)
    (table : SyncTable) (answer : Bool) {mask : BitVec 16} (other : mask ≠ call.mask) :
    repeating (s.answered call table answer) mask = repeating s mask := by
  ext i
  simp only [mem_repeating, Callers.answered]
  by_cases own : i = call.id
  · subst own
    constructor
    · intro pending
      rw [Function.update_self] at pending
      cases answer
      · exact absurd (Option.some.inj pending).symm other
      · cases pending
    · intro pending
      exact absurd (allowed.same mask pending) other
  · rw [Function.update_of_ne own]

theorem repeating_answered_wait (s : Callers) (call : Call) (table : SyncTable) :
    repeating (s.answered call table false) call.mask = insert call.id (repeating s call.mask) := by
  ext i
  simp only [mem_repeating, Callers.answered, Finset.mem_insert]
  by_cases own : i = call.id
  · simp [own]
  · simp [own]

theorem repeating_answered_pass (s : Callers) (call : Call) (table : SyncTable) :
    repeating (s.answered call table true) call.mask = (repeating s call.mask).erase call.id := by
  ext i
  simp only [mem_repeating, Callers.answered, Finset.mem_erase]
  by_cases own : i = call.id
  · simp [own]
  · simp [own]

theorem RowInvariant.pass {row : SyncEntry} {threads : Finset ThreadId}
    (holds : RowInvariant row threads) (released : row.waiting = 0) (id : ThreadId)
    (more : (SyncTable.passRow row).mask ≠ 0) :
    RowInvariant (SyncTable.passRow row) (threads.erase id) := by
  have bound := holds.bound
  have few := popcount_le row.mask
  have count : (row.passed + 1).toNat = row.passed.toNat + 1 := by
    rw [BitVec.toNat_add]
    change (row.passed.toNat + 1) % 2 ^ 16 = _
    omega
  have mask := SyncTable.passRow_mask row
  rw [count] at mask
  by_cases last : row.passed.toNat + 1 = popcount row.mask
  · rw [if_pos last] at mask
    exact absurd mask more
  · rw [if_neg last] at mask
    have stays := Finset.pred_card_le_card_erase (s := threads) (a := id)
    have enough := holds.released released
    constructor <;>
      simp only [SyncTable.passRow_waiting, SyncTable.passRow_passed, mask, released, count]
    · simp
    · simp
    · omega
    · simp
    · simp
    · intro _
      omega

theorem RowInvariant.clear {row : SyncEntry} {threads : Finset ThreadId}
    (holds : RowInvariant row threads) (waited : row.waiting ≠ 0) (id : ThreadId) :
    RowInvariant (SyncTable.clearRow row id) (insert id threads) where
  subset := by
    intro b set
    rw [SyncTable.clearRow_waiting, Bool.and_eq_true] at set
    exact holds.subset b set.1
  fresh := fun _ => holds.fresh waited
  bound := holds.bound
  cleared := by
    intro b member gone _
    rw [SyncTable.clearRow_waiting] at gone
    by_cases own : b = id.val
    · exact ⟨id, Finset.mem_insert_self id threads, own.symm⟩
    · have before : row.waiting.getLsbD b = false := by simpa [own] using gone
      obtain ⟨i, found, same⟩ := holds.cleared b member before waited
      exact ⟨i, Finset.mem_insert_of_mem found, same⟩
  waited := fun _ => ⟨id, Finset.mem_insert_self id threads⟩
  released := by
    intro empty
    -- The last bit to go is the caller's, all others were cleared by repeating threads.
    apply le_trans (popcount_le_card (insert id threads) ?_) (Nat.le_add_left _ _)
    intro b member
    have gone : (SyncTable.clearRow row id).waiting.getLsbD b = false := by simp [empty]
    rw [SyncTable.clearRow_waiting] at gone
    by_cases own : b = id.val
    · exact ⟨id, Finset.mem_insert_self id threads, own.symm⟩
    · have before : row.waiting.getLsbD b = false := by simpa [own] using gone
      obtain ⟨i, found, same⟩ := holds.cleared b member before waited
      exact ⟨i, Finset.mem_insert_of_mem found, same⟩

theorem RowInvariant.create {mask : BitVec 16} {id : ThreadId}
    (own : mask.getLsbD id.val = true) (nonzero : mask ≠ 0) (threads : Finset ThreadId) :
    RowInvariant ⟨mask, mask, 0⟩ (insert id threads) where
  subset := fun _ set => set
  fresh := fun _ => rfl
  bound := popcount_pos own
  cleared := by
    intro b member gone
    simp only [member] at gone
    cases gone
  waited := fun _ => ⟨id, Finset.mem_insert_self id threads⟩
  released := fun empty => absurd empty nonzero

/-- The invariant after an answer that changed one row, the row of the mask. -/
theorem answered_invariant {s : Callers} (holds : TableInvariant s) {call : Call}
    (allowed : Allowed call s) (i : Fin numThreads) (row : SyncEntry) (answer : Bool)
    (mask : row.mask = call.mask ∨ row.mask = 0)
    (only : ∀ j, j ≠ i → (s.table j).mask ≠ call.mask)
    (valid : row.mask ≠ 0 → RowInvariant row
      (repeating (s.answered call (s.table.setRow i row) answer) row.mask)) :
    TableInvariant (s.answered call (s.table.setRow i row) answer) where
  own := by
    intro j pendingMask pending
    simp only [Callers.answered] at pending
    by_cases caller : j = call.id
    · subst caller
      rw [Function.update_self] at pending
      cases answer
      · obtain rfl := Option.some.inj pending
        exact ⟨allowed.nonzero, allowed.own⟩
      · cases pending
    · rw [Function.update_of_ne caller] at pending
      exact holds.own j pendingMask pending
  distinct := by
    intro j k live same
    change (s.table.setRow i row j).mask ≠ 0 at live
    change (s.table.setRow i row j).mask = (s.table.setRow i row k).mask at same
    rw [SyncTable.setRow_apply] at live same
    rw [SyncTable.setRow_apply] at same
    by_cases first : j = i <;> by_cases second : k = i
    · rw [first, second]
    · rw [if_pos first] at live same
      rw [if_neg second, mask.resolve_right live] at same
      exact absurd same.symm (only k second)
    · rw [if_neg first] at live same
      rw [if_pos second] at same
      exact absurd (same.trans (mask.resolve_right (same ▸ live))) (only j first)
    · rw [if_neg first] at live same
      rw [if_neg second] at same
      exact holds.distinct j k live same
  row := by
    intro j live
    change (s.table.setRow i row j).mask ≠ 0 at live
    change RowInvariant (s.table.setRow i row j) (repeating _ (s.table.setRow i row j).mask)
    rw [SyncTable.setRow_apply] at live ⊢
    by_cases touched : j = i
    · rw [if_pos touched] at live ⊢
      exact valid live
    · rw [if_neg touched] at live ⊢
      rw [repeating_answered_of_ne allowed _ answer (only j touched)]
      exact holds.row j live

/-- An allowed call returns and keeps the invariant. -/
theorem step_invariant (call : Call) (s : Callers) (allowed : Allowed call s)
    (holds : TableInvariant s) : ∃ s', Callers.step call s = .ok s' ∧ TableInvariant s' := by
  obtain ⟨⟨table, answer⟩, returns⟩ :=
    SyncTable.checkSyncTable_returns call.id (room_of_invariant holds allowed)
  refine ⟨s.answered call table answer, Callers.step_eq_ok.mpr ⟨table, answer, returns, rfl⟩, ?_⟩
  have alone : ∀ i j, (s.table i).mask = call.mask → j ≠ i → (s.table j).mask ≠ call.mask := by
    intro i j found other same
    exact other (holds.distinct i j (found ▸ allowed.nonzero) (found.trans same.symm)).symm
  obtain ⟨i, found, released, rfl, rfl⟩ | ⟨i, found, waited, rfl, rfl⟩ |
      ⟨absent, i, empty, rfl, rfl⟩ := SyncTable.checkSyncTable_cases returns
  · have live : (s.table i).mask ≠ 0 := found ▸ allowed.nonzero
    have mask := SyncTable.passRow_mask (s.table i)
    apply answered_invariant holds allowed i _ true
    · rw [mask, ← found]
      split
      · exact Or.inr rfl
      · exact Or.inl rfl
    · exact fun j => alone i j found
    · intro more
      have kept : (SyncTable.passRow (s.table i)).mask = call.mask := by
        rw [mask] at more ⊢
        split at more
        · exact absurd rfl more
        · rename_i notLast
          rw [if_neg notLast, found]
      rw [kept, repeating_answered_pass, ← found]
      exact (holds.row i live).pass released call.id more
  · have live : (s.table i).mask ≠ 0 := found ▸ allowed.nonzero
    apply answered_invariant holds allowed i (SyncTable.clearRow (s.table i) call.id) false
      (Or.inl found)
    · exact fun j => alone i j found
    · intro _
      rw [SyncTable.clearRow_mask, found, repeating_answered_wait, ← found]
      exact (holds.row i live).clear waited call.id
  · apply answered_invariant holds allowed i _ false (Or.inl rfl)
    · exact fun j _ => absent j
    · intro _
      rw [repeating_answered_wait]
      exact .create allowed.own allowed.nonzero _

/-- Whatever calls the six threads make, each repeating a call until it returns
true, the table keeps its invariant and every call finds a row. -/
theorem sync_table_invariant (calls : List Call)
    (allowed : ∀ entry ∈ Transition.trail Callers.step calls .create, Allowed entry.1 entry.2) :
    ∃ s, Transition.run Callers.step calls .create = .ok s ∧
      (∀ i j, (s.table i).mask ≠ 0 → (s.table i).mask = (s.table j).mask → i = j) ∧
      (∀ i, (s.table i).mask ≠ 0 →
        (∀ b, (s.table i).waiting.getLsbD b = true → (s.table i).mask.getLsbD b = true) ∧
        ((s.table i).waiting ≠ 0 → (s.table i).passed = 0) ∧
        (s.table i).passed.toNat < popcount (s.table i).mask ∧
        ∃ id, s.pending id = some (s.table i).mask) ∧
      ∀ call, Allowed call s →
        ∃ i, (s.table i).mask = call.mask ∨ (s.table i).mask = 0 := by
  obtain ⟨s, runs, holds⟩ := Transition.returns_run Callers.step TableInvariant Allowed
    step_invariant create_invariant allowed
  refine ⟨s, runs, holds.distinct, fun i live => ?_, fun call => room_of_invariant holds⟩
  obtain ⟨id, member⟩ := (holds.row i live).nonempty
  exact ⟨(holds.row i live).subset, (holds.row i live).fresh, (holds.row i live).bound, id,
    mem_repeating.mp member⟩

/-- Two threads meet: one creates a row and clears its bit, the other releases it. -/
def meeting : List Call := [⟨0, 3⟩, ⟨0, 3⟩, ⟨1, 3⟩, ⟨0, 3⟩]

theorem sync_table_invariant_meeting :
    ∃ s, Transition.run Callers.step meeting .create = .ok s ∧
      (∀ i j, (s.table i).mask ≠ 0 → (s.table i).mask = (s.table j).mask → i = j) ∧
      (∀ i, (s.table i).mask ≠ 0 →
        (∀ b, (s.table i).waiting.getLsbD b = true → (s.table i).mask.getLsbD b = true) ∧
        ((s.table i).waiting ≠ 0 → (s.table i).passed = 0) ∧
        (s.table i).passed.toNat < popcount (s.table i).mask ∧
        ∃ id, s.pending id = some (s.table i).mask) ∧
      ∀ call, Allowed call s →
        ∃ i, (s.table i).mask = call.mask ∨ (s.table i).mask = 0 :=
  sync_table_invariant meeting (by decide)

end PretIss.Barrier
