import Mathlib.Algebra.BigOperators.Group.List.Basic
import Mathlib.Tactic.IntervalCases
import PretIss.Simulation.Loading

/-! The simulator runs the core in every fifth cycle of the faster clock and ticks the PLL in
each, so however a run is cut into pieces, what it makes of a core is a history of it. -/

namespace PretIss

open PretIss.Core (behavior pllBehavior)

namespace Core.History

/-- One more call after the last one. -/
def extend (h : History) {c : Core} (runs : behavior (h.state h.length) = .ok c) (ticks : Nat) :
    History where
  length := h.length + 1
  state n := if n ≤ h.length then h.state n else pllBehavior^[ticks] c
  reset := by
    obtain ⟨pool, memoryController, create⟩ := h.reset
    exact ⟨pool, memoryController, by rw [if_pos (Nat.zero_le _), create]⟩
  cycle n bound := by
    obtain earlier | rfl := Nat.lt_succ_iff_lt_or_eq.mp bound
    · obtain ⟨d, more, calls, next⟩ := h.cycle n earlier
      exact ⟨d, more, by rw [if_pos (by omega), calls], by rw [if_pos (by omega), next]⟩
    · exact ⟨c, ticks, by rw [if_pos le_rfl, runs], by rw [if_neg (by omega)]⟩

theorem extend_state (h : History) {c : Core} (runs : behavior (h.state h.length) = .ok c)
    (ticks : Nat) {n : Nat} (bound : n ≤ h.length) : (h.extend runs ticks).state n = h.state n :=
  if_pos bound

theorem extend_last (h : History) {c : Core} (runs : behavior (h.state h.length) = .ok c)
    (ticks : Nat) : (h.extend runs ticks).state (h.length + 1) = pllBehavior^[ticks] c :=
  if_neg (by omega)

/-- The same calls, with so many ticks after the last one. -/
def retick (h : History) (called : 0 < h.length) {c : Core}
    (runs : behavior (h.state (h.length - 1)) = .ok c) (ticks : Nat) : History where
  length := h.length
  state n := if n = h.length then pllBehavior^[ticks] c else h.state n
  reset := by
    rw [if_neg (by omega)]
    exact h.reset
  cycle n bound := by
    obtain rfl | inside : n = h.length - 1 ∨ n + 1 ≠ h.length := by omega
    · exact ⟨c, ticks, by rw [if_neg (by omega), runs], by rw [if_pos (by omega)]⟩
    · obtain ⟨d, more, calls, next⟩ := h.cycle n bound
      exact ⟨d, more, by rw [if_neg (by omega), calls], by rw [if_neg inside, next]⟩

theorem retick_state (h : History) (called : 0 < h.length) {c : Core}
    (runs : behavior (h.state (h.length - 1)) = .ok c) (ticks : Nat) {n : Nat}
    (inside : n ≠ h.length) : (h.retick called runs ticks).state n = h.state n :=
  if_neg inside

theorem retick_last (h : History) (called : 0 < h.length) {c : Core}
    (runs : behavior (h.state (h.length - 1)) = .ok c) (ticks : Nat) :
    (h.retick called runs ticks).state h.length = pllBehavior^[ticks] c :=
  if_pos rfl

end Core.History

namespace Simulator

/-- What so many cycles make of a core: every fifth is a call, and the PLL ticks in all of
them. -/
structure Ran (s : Simulator) (n : Nat) (s' : Simulator) (h : Core.History) : Prop where
  length : h.length = n / 5
  first : h.state 0 = s.core
  last : h.state h.length = s'.core
  calls : ∀ k, k < h.length → ∃ c, behavior (h.state k) = .ok c ∧
    h.state (k + 1) = pllBehavior^[if k + 1 = h.length then n % 5 + 1 else 5] c

/-- The clocks after so many cycles. -/
structure Clocked (s : Simulator) (n : Nat) : Prop where
  clock : s.clock = ⟨BitVec.ofNat 32 (n % 5), 5⟩
  pllClock : s.pllClock = PretClock.create 1

theorem advance_eq_ok {s s' : Simulator} : advance s = .ok s' ↔ ∃ core,
    (if s.clock.tick.getTick then s.core.behavior else .ok s.core) = .ok core ∧
      s' = { clock := s.clock.tick, pllClock := s.pllClock.tick,
             core := if s.pllClock.tick.getTick then core.pllBehavior else core } := by
  rw [advance, Transition.bind_eq_ok]
  apply exists_congr
  intro core
  apply and_congr Iff.rfl
  constructor
  · intro same
    exact (Except.ok.inj same).symm
  · rintro rfl
    rfl

theorem Clocked.tick {s : Simulator} {n : Nat} (clocked : s.Clocked n) :
    s.clock.tick = ⟨BitVec.ofNat 32 ((n + 1) % 5), 5⟩ ∧
      (s.clock.tick.getTick = true ↔ (n + 1) % 5 = 0) ∧
      s.pllClock.tick = .create 1 ∧ s.pllClock.tick.getTick = true := by
  have small : ∀ m, m < 5 →
      PretClock.tick ⟨BitVec.ofNat 32 m, 5⟩ =
          ⟨BitVec.ofNat 32 ((m + 1) % 5), 5⟩ ∧
        (PretClock.getTick ⟨BitVec.ofNat 32 ((m + 1) % 5), 5⟩ =
          true ↔ (m + 1) % 5 = 0) := by
    intro m below
    interval_cases m <;> exact ⟨rfl, by decide⟩
  have turn : (n + 1) % 5 = (n % 5 + 1) % 5 := by omega
  obtain ⟨next, ticks⟩ := small (n % 5) (Nat.mod_lt _ (by decide))
  rw [clocked.clock, clocked.pllClock, next, turn]
  exact ⟨rfl, ticks, rfl, rfl⟩

theorem Clocked.advance {s s' : Simulator} {n : Nat} (clocked : s.Clocked n)
    (runs : s.advance = .ok s') : s'.Clocked (n + 1) := by
  obtain ⟨core, _, rfl⟩ := advance_eq_ok.mp runs
  obtain ⟨clock, _, pllClock, _⟩ := clocked.tick
  exact ⟨clock, pllClock⟩

theorem Clocked.between {s s' : Simulator} {n : Nat} (clocked : s.Clocked n)
    (runs : s.advance = .ok s') (inside : (n + 1) % 5 ≠ 0) : s'.core = s.core.pllBehavior := by
  obtain ⟨core, stays, rfl⟩ := advance_eq_ok.mp runs
  obtain ⟨_, ticks, _, fast⟩ := clocked.tick
  rw [if_neg (ticks.not.mpr inside)] at stays
  obtain rfl := Except.ok.inj stays
  exact if_pos fast

theorem Clocked.call {s s' : Simulator} {n : Nat} (clocked : s.Clocked n)
    (runs : s.advance = .ok s') (due : (n + 1) % 5 = 0) :
    ∃ c, behavior s.core = .ok c ∧ s'.core = c.pllBehavior := by
  obtain ⟨core, calls, rfl⟩ := advance_eq_ok.mp runs
  obtain ⟨_, ticks, _, fast⟩ := clocked.tick
  rw [if_pos (ticks.mpr due)] at calls
  exact ⟨core, calls, if_pos fast⟩

section

variable {s middle s' : Simulator} {n : Nat} {h : Core.History}

theorem Ran.between (ran : s.Ran n middle h) (still : s.core.pllBehavior = s.core)
    (ticks : s'.core = middle.core.pllBehavior) (inside : (n + 1) % 5 ≠ 0) :
    ∃ h, s.Ran (n + 1) s' h := by
  have count : (n + 1) / 5 = n / 5 ∧ (n + 1) % 5 = n % 5 + 1 := by omega
  obtain begun | called := Nat.eq_zero_or_pos h.length
  · refine ⟨h, by rw [ran.length, count.1], ran.first, ?_, fun k bound => by omega⟩
    have same : middle.core = s.core := by
      rw [← ran.last, begun, ran.first]
    rw [begun, ran.first, ticks, same, still]
  · obtain ⟨c, calls, next⟩ := ran.calls (h.length - 1) (by omega)
    rw [if_pos (by omega), Nat.sub_add_cancel called, ran.last] at next
    refine ⟨h.retick called calls (n % 5 + 2), ran.length.trans count.1.symm, ?_, ?_, ?_⟩
    · rw [h.retick_state called calls _ called.ne, ran.first]
    · rw [ticks, next, ← Function.iterate_succ_apply' pllBehavior]
      exact h.retick_last called calls _
    · intro k bound
      change k < h.length at bound
      change ∃ d, _ ∧ _ = pllBehavior^[if k + 1 = h.length then (n + 1) % 5 + 1 else 5] d
      rw [h.retick_state called calls _ (by omega)]
      obtain rfl | earlier : k = h.length - 1 ∨ k + 1 ≠ h.length := by omega
      · rw [if_pos (by omega), count.2, Nat.sub_add_cancel called, h.retick_last called calls]
        exact ⟨c, calls, rfl⟩
      · obtain ⟨d, runs, later⟩ := ran.calls k bound
        rw [if_neg earlier] at later ⊢
        rw [h.retick_state called calls _ earlier]
        exact ⟨d, runs, later⟩

theorem Ran.call (ran : s.Ran n middle h) {c : Core} (calls : behavior middle.core = .ok c)
    (ticks : s'.core = c.pllBehavior) (due : (n + 1) % 5 = 0) : ∃ h, s.Ran (n + 1) s' h := by
  have count : (n + 1) / 5 = n / 5 + 1 ∧ n % 5 + 1 = 5 := by omega
  have runs : behavior (h.state h.length) = .ok c := by rw [ran.last, calls]
  refine ⟨h.extend runs 1, ?_, ?_, ?_, ?_⟩
  · change h.length + 1 = _
    rw [ran.length, count.1]
  · rw [h.extend_state runs 1 (Nat.zero_le _), ran.first]
  · change (h.extend runs 1).state (h.length + 1) = _
    rw [h.extend_last runs 1, ticks]
    rfl
  · intro k bound
    change k < h.length + 1 at bound
    change ∃ d, _ ∧ _ = pllBehavior^[if k + 1 = h.length + 1 then (n + 1) % 5 + 1 else 5] d
    obtain earlier | rfl := Nat.lt_succ_iff_lt_or_eq.mp bound
    · obtain ⟨d, before, next⟩ := ran.calls k earlier
      rw [h.extend_state runs 1 (by omega), h.extend_state runs 1 (by omega),
        if_neg (show k + 1 ≠ h.length + 1 by omega)]
      refine ⟨d, before, next.trans ?_⟩
      rw [count.2, ite_self]
    · rw [h.extend_state runs 1 le_rfl, h.extend_last runs 1, if_pos rfl, due]
      exact ⟨c, runs, rfl⟩

end

theorem advances_add_eq_ok (m n : Nat) {s s' : Simulator} : advances (m + n) s = .ok s' ↔
    ∃ middle, advances m s = .ok middle ∧ advances n middle = .ok s' := by
  induction m generalizing s with
  | zero => simp [advances]
  | succ m ih =>
      rw [Nat.succ_add]
      simp only [advances, Transition.bind_eq_ok, ih]
      constructor
      · rintro ⟨next, first, middle, earlier, later⟩
        exact ⟨middle, ⟨next, first, earlier⟩, later⟩
      · rintro ⟨middle, ⟨next, first, earlier⟩, later⟩
        exact ⟨next, first, middle, earlier, later⟩

/-- The cycles of several runs. -/
def total (counts : List CycleCount) : Nat := (counts.map fun count => count.val.toNat).sum

theorem advances_of_run {counts : List CycleCount} {s s' : Simulator} :
    Transition.run run counts s = .ok s' ↔ advances (total counts) s = .ok s' := by
  induction counts generalizing s with
  | nil => exact Iff.rfl
  | cons count counts ih =>
      rw [Transition.run_cons_eq_ok, total, List.map_cons, List.sum_cons, advances_add_eq_ok]
      exact exists_congr fun middle => and_congr Iff.rfl ih

theorem Ran.state_eq {s first second : Simulator} {n total : Nat} {h h' : Core.History}
    (ran : s.Ran n first h) (other : s.Ran total second h') (order : n ≤ total)
    (complete : n % 5 = 4 ∨ n = total) {k : Nat} (bound : k ≤ h.length) :
    h.state k = h'.state k := by
  have length := ran.length
  have length' := other.length
  induction k with
  | zero => rw [ran.first, other.first]
  | succ k ih =>
      obtain ⟨c, calls, next⟩ := ran.calls k bound
      obtain ⟨d, calls', next'⟩ := other.calls k (by omega)
      rw [ih (by omega), calls'] at calls
      obtain rfl := Except.ok.inj calls
      have ticks : (if k + 1 = h.length then n % 5 + 1 else 5) =
          if k + 1 = h'.length then total % 5 + 1 else 5 := by
        split_ifs <;> omega
      rw [next, next', ticks]

section

variable {s : Simulator} (clocked : s.Clocked 0)
  (reset : ∃ pool memoryController, s.core = .create pool memoryController)
  (still : s.core.pllBehavior = s.core)

include clocked reset still

theorem exists_ran (n : Nat) {s' : Simulator} (runs : advances n s = .ok s') :
    s'.Clocked n ∧ ∃ h, s.Ran n s' h := by
  induction n generalizing s' with
  | zero =>
      obtain rfl := Except.ok.inj runs
      exact ⟨clocked, ⟨0, fun _ => s.core, reset, fun n bound => absurd bound (Nat.not_lt_zero n)⟩,
        rfl, rfl, rfl, fun k bound => absurd bound (Nat.not_lt_zero k)⟩
  | succ n ih =>
      obtain ⟨middle, earlier, last⟩ := (advances_add_eq_ok n 1).mp runs
      rw [advances, Transition.bind_eq_ok] at last
      obtain ⟨after, step, last⟩ := last
      obtain rfl := Except.ok.inj last
      obtain ⟨clocks, h, ran⟩ := ih earlier
      refine ⟨clocks.advance step, ?_⟩
      by_cases due : (n + 1) % 5 = 0
      · obtain ⟨c, calls, ticks⟩ := clocks.call step due
        exact ran.call calls ticks due
      · exact ran.between still (clocks.between step due) due

theorem exists_advances {total : Nat} {final : Simulator} {h : Core.History}
    (ran : s.Ran total final h) {n : Nat} (order : n ≤ total) :
    ∃ s', advances n s = .ok s' := by
  induction n with
  | zero => exact ⟨s, rfl⟩
  | succ n ih =>
      obtain ⟨middle, earlier⟩ := ih (by omega)
      obtain ⟨clocks, h', ran'⟩ := exists_ran clocked reset still n earlier
      obtain ⟨_, ticks, _, _⟩ := clocks.tick
      have next : ∃ core,
          (if middle.clock.tick.getTick then middle.core.behavior else .ok middle.core) =
            .ok core := by
        by_cases due : (n + 1) % 5 = 0
        · have length := ran.length
          have length' := ran'.length
          obtain ⟨c, calls, _⟩ := ran.calls h'.length (by omega)
          rw [← ran'.state_eq ran (by omega) (.inl (by omega)) le_rfl, ran'.last] at calls
          exact ⟨c, by rw [if_pos (ticks.mpr due), calls]⟩
        · exact ⟨middle.core, if_neg (ticks.not.mpr due)⟩
      obtain ⟨core, runs⟩ := next
      exact ⟨_, (advances_add_eq_ok n 1).mpr ⟨middle, earlier,
        Transition.bind_eq_ok.mpr ⟨_, advance_eq_ok.mpr ⟨core, runs, rfl⟩, rfl⟩⟩⟩

theorem advances_eq_ok_iff (n : Nat) {s' : Simulator} :
    advances n s = .ok s' ↔ s'.Clocked n ∧ ∃ h, s.Ran n s' h := by
  constructor
  · exact exists_ran clocked reset still n
  · rintro ⟨clocks, h, ran⟩
    obtain ⟨found, runs⟩ := exists_advances clocked reset still ran le_rfl
    obtain ⟨clocks', h', ran'⟩ := exists_ran clocked reset still n runs
    have last := ran'.state_eq ran le_rfl (.inr rfl) le_rfl
    rw [ran'.last, ran'.length, ← ran.length, ran.last] at last
    have same : found = s' :=
      Simulator.ext (clocks'.clock.trans clocks.clock.symm)
        (clocks'.pllClock.trans clocks.pllClock.symm) last
    rw [runs, same]

end

/-- Of a simulator with its programs loaded, runs of any numbers of cycles one after another
are a history of the core, which calls it in every fifth of all their cycles and starts with
threads that have not run. They return where such a history exists. -/
theorem simulates {files : ThreadId → ThreadFiles}
    {windowReg : ThreadId → Fin (16 * registerWindows) → Word} {s : Simulator}
    (made : create files windowReg = .ok s) :
    (∀ counts s', Transition.run run counts s = .ok s' ↔
      s'.Clocked (total counts) ∧ ∃ h, s.Ran (total counts) s' h) ∧
    s.core.memoryController.mainMem.Constructed ∧
    ∀ t, ∃ pc windowReg, s.core.pool t = .reset t pc windowReg := by
  obtain ⟨loaded, created⟩ := created_of_create made
  refine ⟨fun counts s' => ?_, created.built, fun t => ?_⟩
  · rw [advances_of_run]
    exact advances_eq_ok_iff ⟨created.clock, created.pllClock⟩ ⟨_, _, created.core⟩ created.still _
  · obtain ⟨_, _, pc, starts⟩ := created.starts t
    exact ⟨pc, starts.thread⟩

def unevenCounts : List CycleCount := [⟨7, by decide⟩, ⟨-2, by decide⟩, ⟨93, by decide⟩]

/-- Three runs, in which thread 0 executes both instructions of its program. -/
theorem simulates_programFiles : ∃ s, create programFiles (fun _ _ => 0) = .ok s ∧
    ∃ s', Transition.run run unevenCounts s = .ok s' ∧ (s'.core.pool 0).regs.getReg 2 0 = 3 ∧
      ∃ h, s.Ran 100 s' h := by
  have returns : (create programFiles (fun _ _ => 0) >>=
      Transition.run run unevenCounts).toOption.any
        (fun s' => (s'.core.pool 0).regs.getReg 2 0 == 3) = true := by
    decide +kernel
  obtain ⟨s', runs, written⟩ := Transition.exists_of_any returns
  obtain ⟨s, made, runs⟩ := Transition.bind_eq_ok.mp runs
  exact ⟨s, made, s', runs, eq_of_beq written, (((simulates made).1 _ _).mp runs).2⟩

end Simulator

end PretIss
