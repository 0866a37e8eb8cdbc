import PretIss.Barrier.Invariant

/-! Agreement at a barrier. Passes are counted for the row and not for each
thread, so a thread that arrives again while its row is still released passes a
second time in the same round. That is the only way in which the threads of a
mask come to disagree. -/

namespace PretIss.Barrier

variable {mask : BitVec 16}

/-- The threads of the mask call with it, the other threads with other masks. -/
def Plays (mask : BitVec 16) (call : Call) (_ : Callers) : Prop :=
  mask.getLsbD call.id.val = true ↔ call.mask = mask

instance (mask : BitVec 16) (call : Call) (s : Callers) : Decidable (Plays mask call s) :=
  inferInstanceAs (Decidable (_ ↔ _))

/-- No thread of the mask has passed more often than another has arrived. -/
def Agreement (mask : BitVec 16) (s : Callers) : Prop :=
  ∀ i j : ThreadId, mask.getLsbD i.val = true → mask.getLsbD j.val = true →
    s.passes i ≤ s.arrivals j

instance (mask : BitVec 16) (s : Callers) : Decidable (Agreement mask s) :=
  inferInstanceAs (Decidable (∀ _ _ : ThreadId, _ → _ → _))

/-- A thread of the mask arrives and finds its row released. -/
def Overtakes (mask : BitVec 16) (call : Call) (s : Callers) : Prop :=
  mask.getLsbD call.id.val = true ∧ s.isArrival call.id = true ∧
    ∃ i, (s.table i).mask = mask ∧ (s.table i).waiting = 0

def Idle (mask : BitVec 16) (s : Callers) (n : Nat) : Prop :=
  (∀ i, (s.table i).mask ≠ mask) ∧
    ∀ i : ThreadId, mask.getLsbD i.val = true →
      s.pending i = none ∧ s.arrivals i = n ∧ s.passes i = n

def Gathering (mask : BitVec 16) (s : Callers) (n : Nat) (row : Fin numThreads) : Prop :=
  (s.table row).mask = mask ∧ (s.table row).waiting ≠ 0 ∧ (s.table row).passed = 0 ∧
    (∀ b, numThreads ≤ b → (s.table row).waiting.getLsbD b = mask.getLsbD b) ∧
    ∀ i : ThreadId, mask.getLsbD i.val = true →
      s.passes i = n ∧
        ((s.pending i = some mask ∧ s.arrivals i = n + 1) ∨
          (s.pending i = none ∧ s.arrivals i = n ∧ (s.table row).waiting.getLsbD i.val = true))

def Leaving (mask : BitVec 16) (s : Callers) (n : Nat) (row : Fin numThreads) : Prop :=
  (s.table row).mask = mask ∧ (s.table row).waiting = 0 ∧
    (s.table row).passed.toNat < popcount mask ∧
    (s.table row).passed.toNat + (repeating s mask).card = popcount mask ∧
    ∀ i : ThreadId, mask.getLsbD i.val = true →
      s.arrivals i = n + 1 ∧
        ((s.pending i = some mask ∧ s.passes i = n) ∨ (s.pending i = none ∧ s.passes i = n + 1))

structure InRound (mask : BitVec 16) (s : Callers) : Prop where
  unique : ∀ i j, (s.table i).mask = mask → (s.table j).mask = mask → i = j
  outside : ∀ i, s.pending i = some mask → mask.getLsbD i.val = true
  round : ∃ n, Idle mask s n ∨ ∃ row, Gathering mask s n row ∨ Leaving mask s n row

theorem create_inRound (nonzero : mask ≠ 0) : InRound mask .create where
  unique := by
    intro i j same
    exact absurd same.symm nonzero
  outside := by simp [Callers.create]
  round := ⟨0, Or.inl ⟨fun i same => nonzero same.symm, fun i _ => ⟨rfl, rfl, rfl⟩⟩⟩

theorem InRound.agreement {s : Callers} (holds : InRound mask s) : Agreement mask s := by
  intro i j first second
  obtain ⟨n, idle | ⟨row, gathering | leaving⟩⟩ := holds.round
  · have here := idle.2 i first
    have there := idle.2 j second
    omega
  · have here := gathering.2.2.2.2 i first
    have there := gathering.2.2.2.2 j second
    omega
  · have here := leaving.2.2.2.2 i first
    have there := leaving.2.2.2.2 j second
    omega

theorem rows_of_other {table table' : SyncTable} {other : BitVec 16} {id : ThreadId}
    {answer : Bool} (nonzero : mask ≠ 0) (different : other ≠ mask)
    (returns : table.checkSyncTable other id = .ok (table', answer)) (i : Fin numThreads) :
    ((table' i).mask = mask ↔ (table i).mask = mask) ∧
      ((table i).mask = mask → table' i = table i) := by
  have touched : ∃ k row, table' = table.setRow k row ∧ (table k).mask ≠ mask ∧
      row.mask ≠ mask := by
    obtain ⟨k, found, _, rfl, _⟩ | ⟨k, found, _, rfl, _⟩ | ⟨_, k, empty, rfl, _⟩ :=
      SyncTable.checkSyncTable_cases returns
    · refine ⟨k, _, rfl, found ▸ different, ?_⟩
      rw [SyncTable.passRow_mask]
      split
      · exact nonzero.symm
      · exact found ▸ different
    · exact ⟨k, _, rfl, found ▸ different, found ▸ different⟩
    · exact ⟨k, _, rfl, empty ▸ nonzero.symm, different⟩
  obtain ⟨k, row, rfl, before, after⟩ := touched
  rw [SyncTable.setRow_apply]
  by_cases same : i = k
  · subst same
    simp [before, after]
  · simp [same]

/-- A call of another thread does not disturb the round. -/
theorem other_inRound {call : Call} {s : Callers} (nonzero : mask ≠ 0) (holds : InRound mask s)
    (stranger : mask.getLsbD call.id.val = false) (different : call.mask ≠ mask)
    {table : SyncTable} {answer : Bool}
    (returns : s.table.checkSyncTable call.mask call.id = .ok (table, answer)) :
    InRound mask (s.answered call table answer) := by
  have rows := rows_of_other nonzero different returns
  have apart : ∀ i : ThreadId, mask.getLsbD i.val = true → i ≠ call.id := by
    rintro i member rfl
    rw [stranger] at member
    cases member
  have pending : ∀ i : ThreadId, mask.getLsbD i.val = true →
      (s.answered call table answer).pending i = s.pending i := fun i member =>
    Function.update_of_ne (apart i member) _ _
  have arrivals : ∀ i : ThreadId, mask.getLsbD i.val = true →
      (s.answered call table answer).arrivals i = s.arrivals i := fun i member =>
    Function.update_of_ne (apart i member) _ _
  have passes : ∀ i : ThreadId, mask.getLsbD i.val = true →
      (s.answered call table answer).passes i = s.passes i := fun i member =>
    Function.update_of_ne (apart i member) _ _
  have outside : ∀ i, (s.answered call table answer).pending i = some mask →
      mask.getLsbD i.val = true := by
    intro i waits
    by_cases own : i = call.id
    · subst own
      simp only [Callers.answered, Function.update_self] at waits
      cases answer
      · exact absurd (Option.some.inj waits) different
      · cases waits
    · simp only [Callers.answered, Function.update_of_ne own] at waits
      exact holds.outside i waits
  have same : repeating (s.answered call table answer) mask = repeating s mask := by
    ext i
    simp only [mem_repeating]
    constructor
    · intro waits
      rw [← pending i (outside i waits)]
      exact waits
    · intro waits
      rw [pending i (holds.outside i waits)]
      exact waits
  refine ⟨?_, outside, ?_⟩
  · intro i j first second
    exact holds.unique i j ((rows i).1.mp first) ((rows j).1.mp second)
  · obtain ⟨n, idle | ⟨row, gathering | leaving⟩⟩ := holds.round
    · refine ⟨n, Or.inl ⟨fun i found => idle.1 i ((rows i).1.mp found), fun i member => ?_⟩⟩
      rw [pending i member, arrivals i member, passes i member]
      exact idle.2 i member
    · refine ⟨n, Or.inr ⟨row, Or.inl ?_⟩⟩
      obtain ⟨found, waited, fresh, high, members⟩ := gathering
      have kept : (s.answered call table answer).table row = s.table row := (rows row).2 found
      refine ⟨by rw [kept]; exact found, by rw [kept]; exact waited, by rw [kept]; exact fresh,
        by rw [kept]; exact high, fun i member => ?_⟩
      rw [kept, pending i member, arrivals i member, passes i member]
      exact members i member
    · refine ⟨n, Or.inr ⟨row, Or.inr ?_⟩⟩
      obtain ⟨found, released, bound, count, members⟩ := leaving
      have kept : (s.answered call table answer).table row = s.table row := (rows row).2 found
      refine ⟨by rw [kept]; exact found, by rw [kept]; exact released, by rw [kept]; exact bound,
        by rw [kept, same]; exact count, fun i member => ?_⟩
      rw [pending i member, arrivals i member, passes i member]
      exact members i member

theorem answered_own (s : Callers) (call : Call) (table : SyncTable) (answer : Bool) :
    (s.answered call table answer).pending call.id = (if answer then none else some call.mask) ∧
      (s.answered call table answer).arrivals call.id =
        (if s.isArrival call.id then s.arrivals call.id + 1 else s.arrivals call.id) ∧
      (s.answered call table answer).passes call.id =
        (if answer then s.passes call.id + 1 else s.passes call.id) := by
  simp [Callers.answered]

theorem answered_of_ne (s : Callers) (call : Call) (table : SyncTable) (answer : Bool)
    {i : ThreadId} (other : i ≠ call.id) :
    (s.answered call table answer).pending i = s.pending i ∧
      (s.answered call table answer).arrivals i = s.arrivals i ∧
      (s.answered call table answer).passes i = s.passes i := by
  simp [Callers.answered, other]

theorem InRound.outside_answered {s : Callers} (holds : InRound mask s) {call : Call}
    (member : mask.getLsbD call.id.val = true) (table : SyncTable) (answer : Bool) {i : ThreadId}
    (waits : (s.answered call table answer).pending i = some mask) :
    mask.getLsbD i.val = true := by
  by_cases own : i = call.id
  · exact own ▸ member
  · rw [(answered_of_ne s call table answer own).1] at waits
    exact holds.outside i waits

/-- The first thread to come creates the row. -/
theorem idle_inRound {call : Call} {s : Callers} {n : Nat} (holds : InRound mask s)
    (idle : Idle mask s n) (member : mask.getLsbD call.id.val = true) (own : call.mask = mask)
    (nonzero : mask ≠ 0) {table : SyncTable} {answer : Bool}
    (returns : s.table.checkSyncTable call.mask call.id = .ok (table, answer)) :
    InRound mask (s.answered call table answer) := by
  obtain ⟨i, found, _⟩ | ⟨i, found, _⟩ | ⟨_, i, _, rfl, rfl⟩ :=
    SyncTable.checkSyncTable_cases returns
  · exact absurd (found.trans own) (idle.1 i)
  · exact absurd (found.trans own) (idle.1 i)
  have here : (s.answered call (s.table.setRow i ⟨call.mask, call.mask, 0⟩) false).table i =
      ⟨mask, mask, 0⟩ := by
    change s.table.setRow i _ i = _
    rw [SyncTable.setRow_apply, if_pos rfl, own]
  have elsewhere : ∀ j, j ≠ i →
      (s.answered call (s.table.setRow i ⟨call.mask, call.mask, 0⟩) false).table j = s.table j := by
    intro j other
    change s.table.setRow i _ j = _
    rw [SyncTable.setRow_apply, if_neg other]
  obtain ⟨pending, arrivals, passes⟩ := answered_own s call
    (s.table.setRow i ⟨call.mask, call.mask, 0⟩) false
  obtain ⟨free, arrived, passed⟩ := idle.2 call.id member
  refine ⟨?_, fun j => holds.outside_answered member _ _, n, Or.inr ⟨i, Or.inl ⟨by rw [here],
    by rw [here]; exact nonzero, by rw [here], by rw [here]; exact fun _ _ => rfl, ?_⟩⟩⟩
  · intro j k first second
    by_cases one : j = i
    · by_cases two : k = i
      · rw [one, two]
      · rw [elsewhere k two] at second
        exact absurd second (idle.1 k)
    · rw [elsewhere j one] at first
      exact absurd first (idle.1 j)
  · intro j inside
    by_cases caller : j = call.id
    · subst caller
      rw [pending, arrivals, passes]
      exact ⟨passed, Or.inl ⟨by simp [own], by simp [Callers.isArrival, free, arrived]⟩⟩
    · obtain ⟨pending, arrivals, passes⟩ := answered_of_ne s call
        (s.table.setRow i ⟨call.mask, call.mask, 0⟩) false caller
      obtain ⟨free, arrived, passed⟩ := idle.2 j inside
      rw [pending, arrivals, passes, here]
      exact ⟨passed, Or.inr ⟨free, arrived, inside⟩⟩

theorem row_of_found {s : Callers} (holds : InRound mask s) {call : Call}
    (own : call.mask = mask) {row i : Fin numThreads} (here : (s.table row).mask = mask)
    (found : (s.table i).mask = call.mask) : i = row :=
  holds.unique i row (found.trans own) here

section

variable {s : Callers} {n : Nat} {row : Fin numThreads} (gathering : Gathering mask s n row)

include gathering

theorem Gathering.members {call : Call} (own : call.mask = mask) (table : SyncTable) {j : ThreadId}
    (inside : mask.getLsbD j.val = true) :
    (s.answered call table false).passes j = n ∧
      (((s.answered call table false).pending j = some mask ∧
          (s.answered call table false).arrivals j = n + 1) ∨
        (j ≠ call.id ∧ (s.answered call table false).pending j = none ∧
          (s.answered call table false).arrivals j = n ∧
          (s.table row).waiting.getLsbD j.val = true)) := by
  obtain ⟨passed, state⟩ := gathering.2.2.2.2 j inside
  by_cases caller : j = call.id
  · subst caller
    obtain ⟨pending, arrivals, passes⟩ := answered_own s call table false
    rw [pending, arrivals, passes]
    refine ⟨passed, Or.inl ⟨by simp [own], ?_⟩⟩
    obtain ⟨waits, arrived⟩ | ⟨free, arrived, _⟩ := state
    · simp [Callers.isArrival, waits, arrived]
    · simp [Callers.isArrival, free, arrived]
  · obtain ⟨pending, arrivals, passes⟩ := answered_of_ne s call table false caller
    rw [pending, arrivals, passes]
    obtain state | ⟨free, arrived, set⟩ := state
    · exact ⟨passed, Or.inl state⟩
    · exact ⟨passed, Or.inr ⟨caller, free, arrived, set⟩⟩

variable {id : ThreadId} {after : Callers}
  (cleared : after.table row = SyncTable.clearRow (s.table row) id)
  (members : ∀ j : ThreadId, mask.getLsbD j.val = true → after.passes j = n ∧
    ((after.pending j = some mask ∧ after.arrivals j = n + 1) ∨
      (j ≠ id ∧ after.pending j = none ∧ after.arrivals j = n ∧
        (s.table row).waiting.getLsbD j.val = true)))

include cleared members

theorem Gathering.goes_on (more : (SyncTable.clearRow (s.table row) id).waiting ≠ 0) :
    Gathering mask after n row := by
  obtain ⟨mine, _, fresh, high, _⟩ := gathering
  unfold Gathering
  rw [cleared]
  refine ⟨mine, more, fresh, fun b large => ?_, fun j inside => ?_⟩
  · have apart : b ≠ id.val := by omega
    rw [SyncTable.clearRow_waiting, high b large]
    simp [apart]
  · obtain ⟨passed, waits | ⟨other, free, arrived, set⟩⟩ := members j inside
    · exact ⟨passed, Or.inl waits⟩
    · refine ⟨passed, Or.inr ⟨free, arrived, ?_⟩⟩
      rw [SyncTable.clearRow_waiting, set]
      simp [Fin.val_inj, other]

theorem Gathering.opens (last : (SyncTable.clearRow (s.table row) id).waiting = 0)
    (member : mask.getLsbD id.val = true)
    (outside : ∀ j, after.pending j = some mask → mask.getLsbD j.val = true) :
    Leaving mask after n row := by
  obtain ⟨mine, _, fresh, high, _⟩ := gathering
  have gone : ∀ b, (SyncTable.clearRow (s.table row) id).waiting.getLsbD b = false := by
    simp [last]
  have everyone : ∀ j : ThreadId, mask.getLsbD j.val = true → after.pending j = some mask := by
    intro j inside
    obtain ⟨_, ⟨waits, _⟩ | ⟨other, _, _, set⟩⟩ := members j inside
    · exact waits
    · have bit := gone j.val
      rw [SyncTable.clearRow_waiting, set] at bit
      simp [Fin.val_inj, other] at bit
  have count : (repeating after mask).card = popcount mask := by
    apply le_antisymm
    · exact card_le_popcount _ fun j inside => outside j (mem_repeating.mp inside)
    · apply popcount_le_card
      intro b inside
      by_cases thread : b < numThreads
      · exact ⟨⟨b, thread⟩, mem_repeating.mpr (everyone ⟨b, thread⟩ inside), rfl⟩
      · have bit := gone b
        have apart : b ≠ id.val := by omega
        rw [SyncTable.clearRow_waiting, high b (by omega), inside] at bit
        simp [apart] at bit
  unfold Leaving
  rw [cleared, SyncTable.clearRow_passed, fresh, count]
  refine ⟨mine, last, popcount_pos member, by simp, fun j inside => ?_⟩
  obtain ⟨passed, ⟨waits, arrived⟩ | ⟨_, free, _⟩⟩ := members j inside
  · exact ⟨arrived, Or.inl ⟨waits, passed⟩⟩
  · rw [everyone j inside] at free
    cases free

end

theorem gathering_inRound {call : Call} {s : Callers} {n : Nat} {row : Fin numThreads}
    (holds : InRound mask s) (gathering : Gathering mask s n row)
    (member : mask.getLsbD call.id.val = true) (own : call.mask = mask)
    {table : SyncTable} {answer : Bool}
    (returns : s.table.checkSyncTable call.mask call.id = .ok (table, answer)) :
    InRound mask (s.answered call table answer) := by
  have mine := gathering.1
  obtain ⟨i, found, released, _⟩ | ⟨i, found, _, rfl, rfl⟩ | ⟨absent, _⟩ :=
    SyncTable.checkSyncTable_cases returns
  · rw [row_of_found holds own mine found] at released
    exact absurd released gathering.2.1
  swap
  · exact absurd (mine.trans own.symm) (absent row)
  obtain rfl := row_of_found holds own mine found
  have rows := fun j => SyncTable.setRow_apply s.table i j (SyncTable.clearRow (s.table i) call.id)
  have masks : ∀ j, (s.table.setRow i (SyncTable.clearRow (s.table i) call.id) j).mask =
      (s.table j).mask := by
    intro j
    rw [rows]
    split
    · rename_i same
      rw [same, SyncTable.clearRow_mask]
    · rfl
  have cleared := (rows i).trans (if_pos rfl)
  have members := fun j inside => gathering.members (j := j) own
    (s.table.setRow i (SyncTable.clearRow (s.table i) call.id)) inside
  refine ⟨fun j k first second => holds.unique j k ((masks j).symm.trans first)
    ((masks k).symm.trans second), fun j => holds.outside_answered member _ _, n, Or.inr ⟨i, ?_⟩⟩
  by_cases last : (SyncTable.clearRow (s.table i) call.id).waiting = 0
  · exact Or.inr (gathering.opens cleared members last member fun j =>
      holds.outside_answered member _ _)
  · exact Or.inl (gathering.goes_on cleared members last)

theorem leaving_passes {call : Call} {s : Callers} {row : Fin numThreads}
    (holds : InRound mask s) (mine : (s.table row).mask = mask)
    (released : (s.table row).waiting = 0) (own : call.mask = mask)
    {table : SyncTable} {answer : Bool}
    (returns : s.table.checkSyncTable call.mask call.id = .ok (table, answer)) :
    table = s.table.setRow row (SyncTable.passRow (s.table row)) ∧ answer = true := by
  obtain ⟨i, found, _, rfl, rfl⟩ | ⟨i, found, waited, _⟩ | ⟨absent, _⟩ :=
    SyncTable.checkSyncTable_cases returns
  · rw [row_of_found holds own mine found]
    exact ⟨rfl, rfl⟩
  · rw [row_of_found holds own mine found] at waited
    exact absurd released waited
  · exact absurd (mine.trans own.symm) (absent row)

theorem Leaving.members {s : Callers} {n : Nat} {row : Fin numThreads}
    (leaving : Leaving mask s n row) {call : Call} (waits : s.pending call.id = some mask)
    (table : SyncTable) {j : ThreadId} (inside : mask.getLsbD j.val = true) :
    (s.answered call table true).arrivals j = n + 1 ∧
      (((s.answered call table true).pending j = some mask ∧
          (s.answered call table true).passes j = n) ∨
        ((s.answered call table true).pending j = none ∧
          (s.answered call table true).passes j = n + 1)) := by
  obtain ⟨arrived, state⟩ := leaving.2.2.2.2 j inside
  by_cases caller : j = call.id
  · subst caller
    obtain ⟨pending, arrivals, passes⟩ := answered_own s call table true
    obtain ⟨_, passed⟩ | ⟨free, _⟩ := state
    · rw [pending, arrivals, passes]
      exact ⟨by simp [Callers.isArrival, waits, arrived], Or.inr ⟨rfl, by simp [passed]⟩⟩
    · rw [free] at waits
      cases waits
  · obtain ⟨pending, arrivals, passes⟩ := answered_of_ne s call table true caller
    rw [pending, arrivals, passes]
    exact ⟨arrived, state⟩

/-- A thread that repeated its call passes; the last one frees the row. -/
theorem leaving_inRound {call : Call} {s : Callers} {n : Nat} {row : Fin numThreads}
    (holds : InRound mask s) (leaving : Leaving mask s n row)
    (own : call.mask = mask) (waits : s.pending call.id = some mask) (nonzero : mask ≠ 0)
    {table : SyncTable} {answer : Bool}
    (returns : s.table.checkSyncTable call.mask call.id = .ok (table, answer)) :
    InRound mask (s.answered call table answer) := by
  have members := leaving.members waits
  obtain ⟨mine, released, bound, count, _⟩ := leaving
  obtain ⟨rfl, rfl⟩ := leaving_passes holds mine released own returns
  have few := popcount_le mask
  have number : ((s.table row).passed + 1).toNat = (s.table row).passed.toNat + 1 := by
    rw [BitVec.toNat_add]
    change ((s.table row).passed.toNat + 1) % 2 ^ 16 = _
    omega
  have freed := SyncTable.passRow_mask (s.table row)
  rw [number, mine] at freed
  have rows := fun j => SyncTable.setRow_apply s.table row j (SyncTable.passRow (s.table row))
  have others : ∀ j, (s.table.setRow row (SyncTable.passRow (s.table row)) j).mask = mask →
      (s.table j).mask = mask := by
    intro j same
    rw [rows] at same
    split at same
    · rename_i here
      rw [here, mine]
    · exact same
  have left := repeating_answered_pass s call
    (s.table.setRow row (SyncTable.passRow (s.table row)))
  rw [own] at left
  have card : ((repeating s mask).erase call.id).card + 1 = (repeating s mask).card :=
    Finset.card_erase_add_one (mem_repeating.mpr waits)
  have passed : (s.answered call (s.table.setRow row (SyncTable.passRow (s.table row)))
      true).table row = SyncTable.passRow (s.table row) := (rows row).trans (if_pos rfl)
  refine ⟨fun j k first second => holds.unique j k (others j first) (others k second),
    fun j => holds.outside_answered (holds.outside call.id waits) _ _, ?_⟩
  by_cases last : (s.table row).passed.toNat + 1 = popcount mask
  · -- Nobody repeats a call any more, so everybody has passed.
    have nobody : (repeating s mask).erase call.id = ∅ := by
      rw [← Finset.card_eq_zero]
      omega
    refine ⟨n + 1, Or.inl ⟨fun j same => ?_, fun j inside => ?_⟩⟩
    · obtain rfl := holds.unique j row (others j same) mine
      rw [passed, freed, if_pos last] at same
      exact nonzero same.symm
    · obtain ⟨arrived, ⟨pending, _⟩ | ⟨free, passed⟩⟩ := members _ inside
      · have member := mem_repeating.mpr pending
        rw [left, nobody] at member
        exact absurd member (Finset.notMem_empty j)
      · exact ⟨free, arrived, passed⟩
  · refine ⟨n, Or.inr ⟨row, Or.inr ⟨?_, ?_, ?_, ?_, fun j => members _⟩⟩⟩
    · rw [passed, freed, if_neg last]
    · rw [passed, SyncTable.passRow_waiting, released]
    · rw [passed, SyncTable.passRow_passed, number]
      omega
    · rw [passed, SyncTable.passRow_passed, number, left]
      omega

theorem step_inRound (nonzero : mask ≠ 0) (call : Call) (s s' : Callers)
    (plays : Plays mask call s) (holds : InRound mask s) (follows : ¬ Overtakes mask call s)
    (runs : Callers.step call s = .ok s') : InRound mask s' := by
  obtain ⟨table, answer, returns, rfl⟩ := Callers.step_eq_ok.mp runs
  cases member : mask.getLsbD call.id.val with
  | false =>
      apply other_inRound nonzero holds member _ returns
      intro same
      rw [plays.mpr same] at member
      cases member
  | true =>
      have own := plays.mp member
      obtain ⟨n, idle | ⟨row, gathering | leaving⟩⟩ := holds.round
      · exact idle_inRound holds idle member own nonzero returns
      · exact gathering_inRound holds gathering member own returns
      · have waits : s.pending call.id = some mask := by
          obtain ⟨_, ⟨waits, _⟩ | ⟨free, _⟩⟩ := leaving.2.2.2.2 call.id member
          · exact waits
          · exact absurd ⟨member, by simp [Callers.isArrival, free], row, leaving.1, leaving.2.1⟩
              follows
        exact leaving_inRound holds leaving own waits nonzero returns

/-- A thread that overtakes has passed in this round while another has still to. -/
theorem overtaking_disagrees (call : Call) (s s' : Callers) (plays : Plays mask call s)
    (holds : InRound mask s) (overtakes : Overtakes mask call s)
    (runs : Callers.step call s = .ok s') : ¬ Agreement mask s' := by
  obtain ⟨table, answer, returns, rfl⟩ := Callers.step_eq_ok.mp runs
  obtain ⟨member, arrival, i, mine, released⟩ := overtakes
  obtain ⟨rfl, rfl⟩ := leaving_passes holds mine released (plays.mp member) returns
  obtain ⟨n, idle | ⟨row, gathering | leaving⟩⟩ := holds.round
  · exact absurd mine (idle.1 i)
  · rw [holds.unique i row mine gathering.1] at released
    exact absurd released gathering.2.1
  obtain ⟨_, _, bound, count, members⟩ := leaving
  have someone : (repeating s mask).Nonempty := by
    apply Finset.card_pos.mp
    omega
  obtain ⟨j, waiting⟩ := someone
  have waits := mem_repeating.mp waiting
  have inside := holds.outside j waits
  have different : j ≠ call.id := by
    rintro rfl
    simp [Callers.isArrival, waits] at arrival
  intro agreement
  have ahead := agreement call.id j member inside
  obtain ⟨_, arrivals, _⟩ := answered_of_ne s call
    (s.table.setRow i (SyncTable.passRow (s.table i))) true different
  obtain ⟨_, _, passes⟩ := answered_own s call
    (s.table.setRow i (SyncTable.passRow (s.table i))) true
  rw [arrivals, passes] at ahead
  have own := members call.id member
  have there := members j inside
  simp only [Callers.isArrival, Option.isNone_iff_eq_none] at arrival
  simp only [arrival, if_true] at own ahead
  rcases own with ⟨_, ⟨absurd, _⟩ | ⟨_, passed⟩⟩
  · cases absurd
  · omega

/-- The threads of a mask agree at their barrier in every state of a run exactly
when none of them, arriving, ever finds the row of the mask released. -/
theorem barrier_agreement_iff (mask : BitVec 16) (calls : List Call) (final : Callers)
    (plays : ∀ entry ∈ Transition.trail Callers.step calls .create, Plays mask entry.1 entry.2)
    (runs : Transition.run Callers.step calls .create = .ok final) :
    (∀ s ∈ Transition.visited Callers.step calls .create, Agreement mask s) ↔
      ∀ entry ∈ Transition.trail Callers.step calls .create,
        ¬ Overtakes mask entry.1 entry.2 := by
  by_cases empty : mask = 0
  · subst empty
    simp [Agreement, Overtakes]
  · exact Transition.visited_iff_run Callers.step (InRound mask) (Agreement mask)
      (Overtakes mask) (Plays mask) (fun _ holds => holds.agreement) (step_inRound empty)
      overtaking_disagrees (create_inRound empty) plays runs

/-- Threads 0 and 1 meet; thread 0 passes, comes back and passes again, while
thread 1 has arrived once. -/
def overtaking : List Call := [⟨0, 3⟩, ⟨0, 3⟩, ⟨1, 3⟩, ⟨0, 3⟩, ⟨0, 3⟩]

theorem barrier_agreement_fails :
    (∀ entry ∈ Transition.trail Callers.step overtaking .create, Plays 3 entry.1 entry.2) ∧
      (Transition.run Callers.step overtaking .create).isOk = true ∧
      ¬ ∀ s ∈ Transition.visited Callers.step overtaking .create, Agreement 3 s := by
  decide

/-- The meeting of two threads, followed to its end. -/
theorem barrier_agreement_iff_meeting :
    ∃ final, Transition.run Callers.step (meeting ++ [⟨1, 3⟩]) .create = .ok final ∧
      ((∀ s ∈ Transition.visited Callers.step (meeting ++ [⟨1, 3⟩]) .create, Agreement 3 s) ↔
        ∀ entry ∈ Transition.trail Callers.step (meeting ++ [⟨1, 3⟩]) .create,
          ¬ Overtakes 3 entry.1 entry.2) := by
  have returns : (Transition.run Callers.step (meeting ++ [⟨1, 3⟩]) .create).isOk = true := by
    decide
  cases runs : Transition.run Callers.step (meeting ++ [⟨1, 3⟩]) .create with
  | error e =>
      rw [runs] at returns
      cases returns
  | ok final =>
      exact ⟨final, rfl, barrier_agreement_iff 3 (meeting ++ [⟨1, 3⟩]) final (by decide) runs⟩

end PretIss.Barrier
