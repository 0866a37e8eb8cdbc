import PretIss.Barrier.Agreement

/-! Callers of the barrier table that take turns. While everybody who waits calls in each of
its turns, a row that is released is left by all its threads before one of them comes again:
the passes need not be counted for each thread. -/

namespace PretIss.Barrier

/-- Callers of which every one has a turn in every six steps, once they have begun. -/
structure RoundRobin where
  length : Nat
  state : Nat → Callers
  slot : Nat → Option ThreadId
  call : Nat → Option Call
  first : Nat
  start : state 0 = .create
  own : ∀ n c, n < length → call n = some c → slot n = some c.id
  silent : ∀ n, n < length → call n = none → state (n + 1) = state n
  speaks : ∀ n c, n < length → call n = some c → Callers.step c (state n) = .ok (state (n + 1))
  begun : ∀ n t, slot n = some t → first ≤ n
  apart : ∀ m n t, slot m = some t → slot n = some t → m < n → m + numThreads ≤ n
  comes : ∀ n t, first ≤ n → ∃ k, n ≤ k ∧ k < n + numThreads ∧ slot k = some t

variable {mask : BitVec 16}

theorem Leaving.everyone {s : Callers} {n : Nat} {row : Fin numThreads}
    (leaving : Leaving mask s n row) (fresh : (s.table row).passed = 0)
    (outside : ∀ t, s.pending t = some mask → mask.getLsbD t.val = true) {t : ThreadId}
    (member : mask.getLsbD t.val = true) : s.pending t = some mask := by
  by_contra absent
  have count := leaving.2.2.2.1
  have notIn : t ∉ repeating s mask := fun found => absent (mem_repeating.mp found)
  have more : (insert t (repeating s mask)).card ≤ popcount mask := by
    apply card_le_popcount
    intro i found
    obtain rfl | found := Finset.mem_insert.mp found
    · exact member
    · exact outside i (mem_repeating.mp found)
  rw [Finset.card_insert_of_notMem notIn] at more
  have zero : (s.table row).passed.toNat = 0 := by
    rw [fresh]
    rfl
  omega

theorem InRound.leaving {s : Callers} (holds : InRound mask s) {row : Fin numThreads}
    (mine : (s.table row).mask = mask) (released : (s.table row).waiting = 0) :
    ∃ n, Leaving mask s n row := by
  obtain ⟨n, idle | ⟨other, gathering | leaving⟩⟩ := holds.round
  · exact absurd mine (idle.1 row)
  · obtain rfl := holds.unique other row gathering.1 mine
    exact absurd released gathering.2.1
  · obtain rfl := holds.unique other row leaving.1 mine
    exact ⟨n, leaving⟩

theorem InRound.gathering {s : Callers} (holds : InRound mask s) {row : Fin numThreads}
    (mine : (s.table row).mask = mask) (waited : (s.table row).waiting ≠ 0) :
    ∃ n, Gathering mask s n row := by
  obtain ⟨n, idle | ⟨other, gathering | leaving⟩⟩ := holds.round
  · exact absurd mine (idle.1 row)
  · obtain rfl := holds.unique other row gathering.1 mine
    exact ⟨n, gathering⟩
  · obtain rfl := holds.unique other row leaving.1 mine
    exact absurd leaving.2.1 waited

theorem Leaving.waiting {s : Callers} {n passed : Nat} {row : Fin numThreads}
    (leaving : Leaving mask s n row)
    (outside : ∀ t, s.pending t = some mask → mask.getLsbD t.val = true)
    (equal : ∀ t : ThreadId, mask.getLsbD t.val = true → s.passes t = passed) {t : ThreadId}
    (member : mask.getLsbD t.val = true) : s.pending t = some mask := by
  obtain ⟨_, _, bound, count, members⟩ := leaving
  obtain ⟨u, found⟩ : (repeating s mask).Nonempty := by
    apply Finset.card_pos.mp
    omega
  have waits := mem_repeating.mp found
  have inside := outside u waits
  obtain ⟨_, ⟨_, here⟩ | ⟨free, _⟩⟩ := members u inside
  · obtain ⟨_, ⟨pending, _⟩ | ⟨_, there⟩⟩ := members t member
    · exact pending
    · have first := equal u inside
      have second := equal t member
      omega
  · exact absurd (waits.symm.trans free) (Option.some_ne_none _)

theorem exists_bit {bits : BitVec 16} (nonzero : bits ≠ 0) : ∃ b, bits.getLsbD b = true := by
  by_contra none
  refine nonzero (BitVec.eq_of_getLsbD_eq fun b _ => ?_)
  simpa using fun set => none ⟨b, set⟩

namespace RoundRobin

variable (r : RoundRobin)

structure Attentive (r : RoundRobin) (mask : BitVec 16) : Prop where
  plays : ∀ n c, n < r.length → r.call n = some c → Plays mask c (r.state n)
  eager : ∀ n t, n < r.length → (r.state n).pending t = some mask → r.slot n = some t →
    r.call n = some ⟨t, mask⟩

def InTurn (r : RoundRobin) (mask : BitVec 16) (n : Nat) : Prop :=
  ∀ row, ((r.state n).table row).mask = mask → ((r.state n).table row).waiting = 0 →
    ∃ opened, opened < n ∧ ∀ t : ThreadId, mask.getLsbD t.val = true →
      ((r.state n).pending t = some mask ↔
        ∀ k, opened < k → k < n → r.slot k ≠ some t)

variable {r} {n : Nat}

theorem InTurn.follows (turns : r.InTurn mask n) (holds : InRound mask (r.state n))
    (bound : n < r.length) {c : Call} (speaks : r.call n = some c) : ¬ Overtakes mask c (r.state n) := by
  rintro ⟨member, arrives, row, mine, released⟩
  obtain ⟨opened, before, passed⟩ := turns row mine released
  have gone : (r.state n).pending c.id ≠ some mask := by
    simp only [Callers.isArrival, Option.isNone_iff_eq_none] at arrives
    simp [arrives]
  -- The caller has had a turn since the row was released, so all others have had theirs.
  obtain ⟨k, after, earlier, own⟩ : ∃ k, opened < k ∧ k < n ∧ r.slot k = some c.id := by
    by_contra never
    refine gone ((passed c.id member).mpr fun k after earlier own => never ⟨k, after, earlier, own⟩)
  have far := r.apart k n c.id own (r.own n c bound speaks) earlier
  obtain ⟨_, leaving⟩ := holds.leaving mine released
  obtain ⟨t, found⟩ : (repeating (r.state n) mask).Nonempty := by
    apply Finset.card_pos.mp
    have bound := leaving.2.2.1
    have count := leaving.2.2.2.1
    omega
  have waits := mem_repeating.mp found
  obtain ⟨k', from_k, within, turn⟩ := r.comes k t (r.begun k c.id own)
  have other : k' ≠ n := by omega
  exact (passed t (holds.outside t waits)).mp waits k' (by omega) (by omega) turn

theorem InTurn.of_away {t u : ThreadId} (turn : r.slot n = some u) (other : t ≠ u) (opened : Nat) :
    (∀ k, opened < k → k < n + 1 → r.slot k ≠ some t) ↔
      ∀ k, opened < k → k < n → r.slot k ≠ some t := by
  constructor
  · exact fun never k after before => never k after (by omega)
  · intro never k after before
    obtain earlier | rfl := Nat.lt_succ_iff_lt_or_eq.mp before
    · exact never k after earlier
    · rw [turn]
      exact fun same => other (Option.some.inj same).symm

structure Still (r : RoundRobin) (mask : BitVec 16) (n : Nat) : Prop where
  quiet : ∀ t, r.call n ≠ some ⟨t, mask⟩
  rows : ∀ row, (((r.state (n + 1)).table row).mask = mask ↔ ((r.state n).table row).mask = mask) ∧
    (((r.state n).table row).mask = mask → (r.state (n + 1)).table row = (r.state n).table row)
  members : ∀ t : ThreadId, mask.getLsbD t.val = true →
    (r.state (n + 1)).pending t = (r.state n).pending t ∧
      (r.state (n + 1)).passes t = (r.state n).passes t

structure Turn (r : RoundRobin) (mask : BitVec 16) (n : Nat) (t : ThreadId) (table : SyncTable)
    (answer : Bool) : Prop where
  call : r.call n = some ⟨t, mask⟩
  slot : r.slot n = some t
  member : mask.getLsbD t.val = true
  returns : (r.state n).table.checkSyncTable mask t = .ok (table, answer)
  next : r.state (n + 1) = (r.state n).answered ⟨t, mask⟩ table answer

variable (attentive : r.Attentive mask) (bound : n < r.length)

include attentive bound

theorem still_or_turn (nonzero : mask ≠ 0) : r.Still mask n ∨ ∃ t table answer,
    r.Turn mask n t table answer := by
  cases speaks : r.call n with
  | none =>
      have same := r.silent n bound speaks
      refine Or.inl ⟨fun t calls => ?_, fun row => ?_, fun t _ => ?_⟩
      · exact Option.some_ne_none _ (calls.symm.trans speaks)
      · rw [same]
        exact ⟨Iff.rfl, fun _ => rfl⟩
      · rw [same]
        exact ⟨rfl, rfl⟩
  | some c =>
      obtain ⟨table, answer, returns, next⟩ := Callers.step_eq_ok.mp (r.speaks n c bound speaks)
      have plays := attentive.plays n c bound speaks
      by_cases same : c.mask = mask
      · subst same
        exact Or.inr ⟨c.id, table, answer, speaks, r.own n c bound speaks, plays.mpr rfl, returns, next⟩
      · refine Or.inl ⟨fun t calls => ?_, fun row => ?_, fun t member => ?_⟩
        · rw [speaks] at calls
          exact same (congrArg Call.mask (Option.some.inj calls))
        · rw [next]
          exact rows_of_other nonzero same returns row
        · have other : t ≠ c.id := by
            rintro rfl
            exact same (plays.mp member)
          rw [next]
          exact ⟨(answered_of_ne _ c table answer other).1, (answered_of_ne _ c table answer other).2.2⟩

theorem InTurn.of_still (turns : r.InTurn mask n) (still : r.Still mask n) :
    r.InTurn mask (n + 1) := by
  intro row mine released
  have found := (still.rows row).1.mp mine
  rw [(still.rows row).2 found] at released
  obtain ⟨opened, before, passed⟩ := turns row found released
  refine ⟨opened, by omega, fun t member => ?_⟩
  rw [(still.members t member).1]
  refine ⟨fun waits k after earlier turn => ?_, fun never => ?_⟩
  · obtain earlier | rfl := Nat.lt_succ_iff_lt_or_eq.mp earlier
    · exact (passed t member).mp waits k after earlier turn
    · exact still.quiet t (attentive.eager k t bound waits turn)
  · exact (passed t member).mpr fun k after earlier => never k after (by omega)

omit attentive bound in
/-- A call of one of its threads, when nobody overtakes. -/
theorem InTurn.of_turn (turns : r.InTurn mask n) (holds : InRound mask (r.state n))
    (after : InRound mask (r.state (n + 1))) (nonzero : mask ≠ 0) {caller : ThreadId}
    {table : SyncTable} {answer : Bool} (turn : r.Turn mask n caller table answer) :
    r.InTurn mask (n + 1) := by
  have next := turn.next
  intro row mine released
  obtain ⟨i, found, opened, rfl, rfl⟩ | ⟨i, found, waited, rfl, rfl⟩ | ⟨_, i, _, rfl, rfl⟩ :=
    SyncTable.checkSyncTable_cases turn.returns
  · -- The caller leaves, and the row stays open for the others.
    have here : row = i := by
      by_contra other
      rw [next] at mine
      change ((r.state n).table.setRow i _ row).mask = mask at mine
      rw [SyncTable.setRow_apply, if_neg other] at mine
      exact other (holds.unique row i mine found)
    obtain ⟨opening, before, passed⟩ := turns i found opened
    refine ⟨opening, by omega, fun t inside => ?_⟩
    rw [next]
    by_cases own : t = caller
    · subst own
      rw [(answered_own _ ⟨t, mask⟩ _ true).1, if_pos rfl]
      exact iff_of_false (Option.some_ne_none _).symm fun never =>
        never n before (by omega) turn.slot
    · rw [(answered_of_ne _ ⟨caller, mask⟩ _ true own).1, of_away turn.slot own]
      exact passed t inside
  · -- The caller was the last to come.
    have kept : (r.state (n + 1)).table i = SyncTable.clearRow ((r.state n).table i) caller := by
      rw [next]
      exact (SyncTable.setRow_apply _ _ _ _).trans (if_pos rfl)
    have here : row = i := by
      refine after.unique row i mine ?_
      rw [kept, SyncTable.clearRow_mask, found]
    subst here
    obtain ⟨_, leaving⟩ := after.leaving mine released
    obtain ⟨_, gathering⟩ := holds.gathering found waited
    refine ⟨n, by omega, fun t inside => iff_of_true ?_ fun k _ _ => by omega⟩
    refine leaving.everyone ?_ after.outside inside
    rw [kept, SyncTable.clearRow_passed]
    exact gathering.2.2.1
  · -- The caller was the first.
    have kept : (r.state (n + 1)).table i = ⟨mask, mask, 0⟩ := by
      rw [next]
      exact (SyncTable.setRow_apply _ _ _ _).trans (if_pos rfl)
    have here : row = i := by
      refine after.unique row i mine ?_
      rw [kept]
    subst here
    rw [kept] at released
    exact absurd released nonzero

structure Keeps (r : RoundRobin) (mask : BitVec 16) (n : Nat) : Prop where
  round : InRound mask (r.state n)
  turns : r.InTurn mask n

theorem Keeps.succ (nonzero : mask ≠ 0) (keeps : r.Keeps mask n) : r.Keeps mask (n + 1) := by
  have round : InRound mask (r.state (n + 1)) := by
    cases speaks : r.call n with
    | none => exact r.silent n bound speaks ▸ keeps.round
    | some c =>
        exact step_inRound nonzero c _ _ (attentive.plays n c bound speaks) keeps.round
          (keeps.turns.follows keeps.round bound speaks) (r.speaks n c bound speaks)
  refine ⟨round, ?_⟩
  obtain still | ⟨t, table, answer, turn⟩ := still_or_turn attentive bound nonzero
  · exact keeps.turns.of_still attentive bound still
  · exact keeps.turns.of_turn keeps.round round nonzero turn

omit bound in
theorem keeps (nonzero : mask ≠ 0) (within : n ≤ r.length) : r.Keeps mask n := by
  induction n with
  | zero =>
      refine ⟨r.start ▸ create_inRound nonzero, fun row mine _ => ?_⟩
      rw [r.start] at mine
      exact absurd mine.symm nonzero
  | succ n ih => exact (ih (by omega)).succ attentive within nonzero

omit bound in
theorem agreement (within : n ≤ r.length) : Agreement mask (r.state n) := by
  by_cases empty : mask = 0
  · intro i j member
    simp [empty] at member
  · exact (keeps attentive empty within).round.agreement

def IsOpen (r : RoundRobin) (mask : BitVec 16) (n : Nat) : Prop :=
  ∃ row, ((r.state n).table row).mask = mask ∧ ((r.state n).table row).waiting = 0

omit attentive in
theorem passes_le (t : ThreadId) : (r.state n).passes t ≤ (r.state (n + 1)).passes t := by
  cases speaks : r.call n with
  | none => rw [r.silent n bound speaks]
  | some c =>
      obtain ⟨table, answer, _, next⟩ := Callers.step_eq_ok.mp (r.speaks n c bound speaks)
      rw [next]
      by_cases own : t = c.id
      · subst own
        rw [(answered_own _ c table answer).2.2]
        split <;> omega
      · rw [(answered_of_ne _ c table answer own).2.2]

omit attentive bound in
theorem passes_mono {m : Nat} (later : n ≤ m) (within : m ≤ r.length) (t : ThreadId) :
    (r.state n).passes t ≤ (r.state m).passes t := by
  induction m, later using Nat.le_induction with
  | base => exact le_rfl
  | succ m _ ih => exact (ih (by omega)).trans (passes_le (by omega) t)

omit attentive bound in
/-- A row waits for none but its threads. -/
theorem waiting_subset (within : n ≤ r.length) (row : Fin numThreads) (b : Nat)
    (waits : ((r.state n).table row).waiting.getLsbD b = true) :
    ((r.state n).table row).mask.getLsbD b = true := by
  induction n generalizing row with
  | zero =>
      rw [r.start] at waits
      simp [Callers.create, SyncTable.create] at waits
  | succ n ih =>
      have before := ih (by omega)
      cases speaks : r.call n with
      | none =>
          rw [r.silent n within speaks] at waits ⊢
          exact before row waits
      | some c =>
          obtain ⟨table, answer, returns, next⟩ := Callers.step_eq_ok.mp (r.speaks n c within speaks)
          rw [next] at waits ⊢
          change (table row).waiting.getLsbD b = true at waits
          change (table row).mask.getLsbD b = true
          have touched : ∃ i entry, table = (r.state n).table.setRow i entry ∧
              (entry.waiting.getLsbD b = true → entry.mask.getLsbD b = true) := by
            obtain ⟨i, _, opened, rfl, _⟩ | ⟨i, _, _, rfl, _⟩ | ⟨_, i, _, rfl, _⟩ :=
              SyncTable.checkSyncTable_cases returns
            · refine ⟨i, _, rfl, fun set => ?_⟩
              rw [SyncTable.passRow_waiting, opened] at set
              simp at set
            · refine ⟨i, _, rfl, fun set => ?_⟩
              rw [SyncTable.clearRow_waiting, Bool.and_eq_true] at set
              exact before i set.1
            · exact ⟨i, _, rfl, id⟩
          obtain ⟨i, entry, rfl, inside⟩ := touched
          rw [SyncTable.setRow_apply] at waits ⊢
          split
          · rename_i here
            rw [if_pos here] at waits
            exact inside waits
          · rename_i elsewhere
            rw [if_neg elsewhere] at waits
            exact before row waits

theorem passes_of_closed (nonzero : mask ≠ 0) (closed : ¬ r.IsOpen mask n) {t : ThreadId}
    (member : mask.getLsbD t.val = true) :
    (r.state (n + 1)).passes t = (r.state n).passes t := by
  obtain still | ⟨u, table, answer, turn⟩ := still_or_turn attentive bound nonzero
  · exact (still.members t member).2
  · have waits : answer = false := by
      obtain ⟨i, found, opened, _⟩ | ⟨_, _, _, _, same⟩ | ⟨_, _, _, _, same⟩ :=
        SyncTable.checkSyncTable_cases turn.returns
      · exact absurd ⟨i, found, opened⟩ closed
      · exact same
      · exact same
    rw [turn.next, waits]
    by_cases own : t = u
    · subst own
      exact (answered_own _ ⟨t, mask⟩ table false).2.2
    · exact (answered_of_ne _ ⟨u, mask⟩ table false own).2.2

theorem row_of_closed (nonzero : mask ≠ 0) (keeps : r.Keeps mask n) (closed : ¬ r.IsOpen mask n)
    {row : Fin numThreads} (mine : ((r.state n).table row).mask = mask) :
    ((r.state (n + 1)).table row).mask = mask ∧
      (∀ b, ((r.state (n + 1)).table row).waiting.getLsbD b = true →
        ((r.state n).table row).waiting.getLsbD b = true) ∧
      ∀ t, r.call n = some ⟨t, mask⟩ →
        ((r.state (n + 1)).table row).waiting.getLsbD t.val = false := by
  obtain still | ⟨u, table, answer, turn⟩ := still_or_turn attentive bound nonzero
  · rw [(still.rows row).2 mine]
    exact ⟨mine, fun _ => id, fun t calls => absurd calls (still.quiet t)⟩
  · obtain ⟨i, found, opened, _⟩ | ⟨i, found, _, rfl, rfl⟩ | ⟨absent, _⟩ :=
      SyncTable.checkSyncTable_cases turn.returns
    · exact absurd ⟨i, found, opened⟩ closed
    · obtain rfl := keeps.round.unique row i mine found
      have kept : (r.state (n + 1)).table row =
          SyncTable.clearRow ((r.state n).table row) u := by
        rw [turn.next]
        exact (SyncTable.setRow_apply _ _ _ _).trans (if_pos rfl)
      rw [kept]
      refine ⟨found, fun b waits => ?_, fun t calls => ?_⟩
      · rw [SyncTable.clearRow_waiting, Bool.and_eq_true] at waits
        exact waits.1
      · have same : t = u := congrArg Call.id (Option.some.inj (calls.symm.trans turn.call))
        rw [SyncTable.clearRow_waiting, same]
        simp
    · exact absurd mine (absent row)

theorem row_of_call (nonzero : mask ≠ 0) (closed : ¬ r.IsOpen mask n) {t : ThreadId}
    (calls : r.call n = some ⟨t, mask⟩) : ∃ row, ((r.state (n + 1)).table row).mask = mask := by
  obtain still | ⟨u, table, answer, turn⟩ := still_or_turn attentive bound nonzero
  · exact absurd calls (still.quiet t)
  · obtain ⟨i, found, opened, _⟩ | ⟨i, found, _, rfl, rfl⟩ | ⟨_, i, _, rfl, rfl⟩ :=
      SyncTable.checkSyncTable_cases turn.returns
    · exact absurd ⟨i, found, opened⟩ closed
    all_goals
      refine ⟨i, ?_⟩
      rw [turn.next]
      change ((r.state n).table.setRow i _ i).mask = mask
      rw [SyncTable.setRow_apply, if_pos rfl]
    · exact found

omit attentive bound in
structure Gathered (r : RoundRobin) (mask : BitVec 16) (n passed : Nat) : Prop where
  nonzero : mask ≠ 0
  threads : ∀ b, mask.getLsbD b = true → b < numThreads
  begun : r.first ≤ n
  passes : ∀ t : ThreadId, mask.getLsbD t.val = true → (r.state n).passes t = passed
  present : ∀ k t, n ≤ k → k < r.length → mask.getLsbD t.val = true →
    (r.state k).passes t = passed → r.slot k = some t → r.call k = some ⟨t, mask⟩

omit bound in
theorem Gathered.passes_of_closed {passed : Nat} (gathered : r.Gathered mask n passed) {m : Nat}
    (later : n ≤ m) (within : m ≤ r.length) (closed : ∀ k, n ≤ k → k < m → ¬ r.IsOpen mask k)
    {t : ThreadId} (member : mask.getLsbD t.val = true) : (r.state m).passes t = passed := by
  induction m, later using Nat.le_induction with
  | base => exact gathered.passes t member
  | succ m later ih =>
      rw [RoundRobin.passes_of_closed attentive within gathered.nonzero
        (closed m later (Nat.lt_succ_self m)) member]
      exact ih (by omega) fun k after before => closed k after (by omega)

omit bound in
theorem row_until {m : Nat} (nonzero : mask ≠ 0) (later : n ≤ m) (within : m ≤ r.length)
    (closed : ∀ k, n ≤ k → k < m → ¬ r.IsOpen mask k) {row : Fin numThreads}
    (mine : ((r.state n).table row).mask = mask) :
    ((r.state m).table row).mask = mask ∧
      ∀ b, ((r.state m).table row).waiting.getLsbD b = true →
        ((r.state n).table row).waiting.getLsbD b = true := by
  induction m, later using Nat.le_induction with
  | base => exact ⟨mine, fun _ => id⟩
  | succ m later ih =>
      obtain ⟨found, fewer⟩ := ih (by omega) fun k after before => closed k after (by omega)
      obtain ⟨next, bits, _⟩ := row_of_closed attentive within nonzero
        (keeps attentive nonzero (show m ≤ r.length by omega)) (closed m later (Nat.lt_succ_self m)) found
      exact ⟨next, fun b waits => fewer b (bits b waits)⟩

omit bound in
/-- In two rounds everybody has come and the row is open. -/
theorem Gathered.exists_isOpen {passed : Nat} (gathered : r.Gathered mask n passed)
    (enough : n + 2 * numThreads ≤ r.length) :
    ∃ k, n ≤ k ∧ k ≤ n + 2 * numThreads ∧ r.IsOpen mask k ∧
      ∀ t : ThreadId, mask.getLsbD t.val = true → (r.state k).passes t = passed := by
  by_contra never
  have nonzero := gathered.nonzero
  have closed : ∀ k, n ≤ k → k ≤ n + 2 * numThreads → ¬ r.IsOpen mask k := by
    intro k
    induction k using Nat.strong_induction_on with
    | h k ih =>
        intro after within opened
        exact never ⟨k, after, within, opened, fun t member =>
          gathered.passes_of_closed attentive after (by omega)
            (fun j above below => ih j below above (by omega)) member⟩
  have calls : ∀ m, n ≤ m → m + numThreads ≤ n + 2 * numThreads → ∀ t : ThreadId,
      mask.getLsbD t.val = true → ∃ k, m ≤ k ∧ k < m + numThreads ∧ r.call k = some ⟨t, mask⟩ := by
    intro m later room t member
    obtain ⟨k, after, before, slot⟩ := r.comes m t (gathered.begun.trans later)
    refine ⟨k, after, before, gathered.present k t (by omega) (by omega) member ?_ slot⟩
    exact gathered.passes_of_closed attentive (by omega) (by omega)
      (fun j above below => closed j above (by omega)) member
  -- The first to come creates a row, which all others find.
  obtain ⟨b, set⟩ := exists_bit nonzero
  obtain ⟨k, after, before, call⟩ := calls n le_rfl (by omega) ⟨b, gathered.threads b set⟩ set
  obtain ⟨row, mine⟩ := row_of_call attentive (by omega) nonzero (closed k after (by omega)) call
  obtain ⟨last, _⟩ := row_until attentive nonzero (show k + 1 ≤ n + 2 * numThreads by omega) enough
    (fun j above below => closed j (by omega) (by omega)) mine
  -- Who is still waited for in the end has cleared its bit in the second round.
  obtain ⟨b, waits⟩ := exists_bit fun released =>
    closed (n + 2 * numThreads) (by omega) le_rfl ⟨row, last, released⟩
  have member := waiting_subset enough row b waits
  rw [last] at member
  obtain ⟨k', after', before', call'⟩ :=
    calls (n + numThreads) (by omega) (by omega) ⟨b, gathered.threads b member⟩ member
  obtain ⟨found, _⟩ := row_until attentive nonzero (show k + 1 ≤ k' by omega) (by omega)
    (fun j above below => closed j (by omega) (by omega)) mine
  obtain ⟨found', _, cleared⟩ := row_of_closed attentive (by omega) nonzero
    (keeps attentive nonzero (by omega)) (closed k' (by omega) (by omega)) found
  have bits := (row_until attentive nonzero (show k' + 1 ≤ n + 2 * numThreads by omega) enough
    (fun j above below => closed j (by omega) (by omega)) found').2 b waits
  rw [cleared ⟨b, gathered.threads b member⟩ call'] at bits
  cases bits

/-- Who waits at an open row and does not have the turn still waits at it. -/
theorem IsOpen.stays (nonzero : mask ≠ 0) (opened : r.IsOpen mask n)
    (before : r.Keeps mask n) (after : r.Keeps mask (n + 1)) {t : ThreadId}
    (member : mask.getLsbD t.val = true) (waits : (r.state n).pending t = some mask)
    (away : r.slot n ≠ some t) : r.IsOpen mask (n + 1) ∧
      (r.state (n + 1)).pending t = some mask ∧ (r.state (n + 1)).passes t = (r.state n).passes t := by
  obtain ⟨row, mine, released⟩ := opened
  obtain still | ⟨u, table, answer, turn⟩ := still_or_turn attentive bound nonzero
  · have kept := (still.rows row).2 mine
    refine ⟨⟨row, kept ▸ mine, kept ▸ released⟩, (still.members t member).1.trans waits,
      (still.members t member).2⟩
  · have other : t ≠ u := by
      rintro rfl
      exact away turn.slot
    have pending : (r.state (n + 1)).pending t = some mask := by
      rw [turn.next, (answered_of_ne _ ⟨u, mask⟩ table answer other).1, waits]
    refine ⟨?_, pending, by rw [turn.next, (answered_of_ne _ ⟨u, mask⟩ table answer other).2.2]⟩
    obtain ⟨m, idle | ⟨row', gathering | leaving⟩⟩ := after.round.round
    · exact absurd (pending.symm.trans (idle.2 t member).1) (Option.some_ne_none _)
    · exfalso
      obtain ⟨found', waited', _⟩ := gathering
      obtain ⟨i, found, _, rfl, _⟩ | ⟨i, found, waited, _⟩ | ⟨absent, _⟩ :=
        SyncTable.checkSyncTable_cases turn.returns
      · rw [turn.next] at found' waited'
        change ((r.state n).table.setRow i _ row').mask = mask at found'
        change ((r.state n).table.setRow i _ row').waiting ≠ 0 at waited'
        rw [SyncTable.setRow_apply] at found' waited'
        have here := before.round.unique row i mine found
        split at found'
        · rename_i same
          rw [if_pos same, SyncTable.passRow_waiting, ← here] at waited'
          exact waited' released
        · rename_i elsewhere
          exact elsewhere (before.round.unique row' i found' found)
      · rw [before.round.unique i row found mine] at waited
        exact waited released
      · exact absent row mine
    · exact ⟨row', leaving.1, leaving.2.1⟩

theorem IsOpen.passes (opened : r.IsOpen mask n) (before : r.Keeps mask n)
    {t : ThreadId} (waits : (r.state n).pending t = some mask) (turn : r.slot n = some t) :
    (r.state n).passes t < (r.state (n + 1)).passes t := by
  obtain ⟨row, mine, released⟩ := opened
  have call := attentive.eager n t bound waits turn
  obtain ⟨table, answer, returns, next⟩ := Callers.step_eq_ok.mp (r.speaks n _ bound call)
  obtain ⟨_, rfl⟩ := leaving_passes before.round mine released rfl returns
  rw [next, (answered_own _ ⟨t, mask⟩ table true).2.2, if_pos rfl]
  exact Nat.lt_succ_self _

omit bound in
/-- Threads that are at their barrier pass it within three rounds. -/
theorem Gathered.opens {passed : Nat} (gathered : r.Gathered mask n passed)
    (enough : n + 3 * numThreads ≤ r.length) {t : ThreadId} (member : mask.getLsbD t.val = true) :
    passed < (r.state (n + 3 * numThreads)).passes t := by
  have nonzero := gathered.nonzero
  have keeps : ∀ k, k ≤ r.length → r.Keeps mask k := fun k within => keeps attentive nonzero within
  obtain ⟨opening, after, before, opened, equal⟩ := gathered.exists_isOpen attentive (by omega)
  have waits : (r.state opening).pending t = some mask := by
    obtain ⟨row, mine, released⟩ := opened
    have round := (keeps opening (by omega)).round
    obtain ⟨_, leaving⟩ := round.leaving mine released
    exact leaving.waiting round.outside equal member
  obtain ⟨k, later, soon, slot⟩ := r.comes opening t (gathered.begun.trans after)
  have until_turn : r.IsOpen mask k ∧ (r.state k).pending t = some mask ∧
      (r.state k).passes t = passed := by
    have stays : ∀ j, opening ≤ j → j ≤ k → r.IsOpen mask j ∧
        (r.state j).pending t = some mask ∧ (r.state j).passes t = passed := by
      intro j above
      induction j, above using Nat.le_induction with
      | base => exact fun _ => ⟨opened, waits, equal t member⟩
      | succ j above ih =>
          intro below
          obtain ⟨stillOpen, pending, same⟩ := ih (by omega)
          have away : r.slot j ≠ some t := fun own => by
            have far := r.apart j k t own slot (by omega)
            omega
          obtain ⟨next, again, passes⟩ := stillOpen.stays attentive (by omega) nonzero
            (keeps j (by omega)) (keeps (j + 1) (by omega)) member pending away
          exact ⟨next, again, passes.trans same⟩
    exact stays k later le_rfl
  obtain ⟨stillOpen, pending, same⟩ := until_turn
  have passes := stillOpen.passes attentive (by omega) (keeps k (by omega)) pending slot
  rw [same] at passes
  exact passes.trans_le (passes_mono (by omega) (by omega) t)

end RoundRobin

end PretIss.Barrier
