import PretIss.Barrier.Agreement
import PretIss.Machine.Interleaving

/-! The barrier table in the runs of a core. The threads that come to a barrier are the callers
of the table: each repeats its call until the table lets it pass, for until then its program
counter stays. -/

namespace PretIss

open Barrier (Callers)
open Isolation (SameContents)
open Sparc (State Machines isSync)

namespace Sparc.Machines

/-- The call of the table that a machine makes next. -/
def call (x : Machines) (id : ThreadId) : Option Barrier.Call :=
  if isSync ((x.view id).word id) then some ⟨id, meeting ((x.view id).word id)⟩ else none

variable {x : Machines} {t u : ThreadId} {code : Set Location}

theorem call_eq_some {call : Barrier.Call} : x.call t = some call ↔
    isSync ((x.view t).word t) = true ∧ call = ⟨t, meeting ((x.view t).word t)⟩ := by
  unfold Machines.call
  cases isSync ((x.view t).word t) with
  | false => simp
  | true => simp [eq_comm]

theorem step_of_none (quiet : x.call t = none) : (x.step t).table = x.table := by
  unfold call at quiet
  unfold step
  split
  · rename_i sync
    rw [if_pos sync] at quiet
    cases quiet
  · rfl

theorem step_of_call {call : Barrier.Call} (calls : x.call t = some call) {table : SyncTable}
    {answer : Bool} (returns : x.table.checkSyncTable call.mask call.id = .ok (table, answer)) :
    (x.step t).table = table ∧ (x.step t).memory = x.memory ∧
      (answer = false → (x.step t).contexts = x.contexts) := by
  obtain ⟨sync, rfl⟩ := call_eq_some.mp calls
  rw [step, if_pos sync, meet, returns]
  cases answer with
  | true => exact ⟨rfl, rfl, fun same => absurd same Bool.noConfusion⟩
  | false => exact ⟨rfl, rfl, fun _ => rfl⟩

theorem call_congr {y : Machines} (contexts : y.contexts = x.contexts)
    (memory : y.memory = x.memory) (t : ThreadId) : y.call t = x.call t := by
  rw [call, call, view, view, contexts, memory]

theorem contexts_step_of_ne (other : t ≠ u) : (x.step u).contexts t = x.contexts t := by
  unfold step
  split
  · unfold meet
    split
    · exact Function.update_of_ne other _ _
    · rfl
    · rfl
  · exact Function.update_of_ne other _ _

theorem Clean.call_eq {y : Machines} (clean : x.Clean t code)
    (context : y.contexts t = x.contexts t) (same : SameContents t code x.memory y.memory) :
    y.call t = x.call t := by
  have word : (y.view t).word t = (x.view t).word t := by
    change y.memory.value t (y.contexts t).counters.pc = _
    rw [context]
    exact (same.value _ clean.fetch).symm
  rw [call, call, word]

end Sparc.Machines

namespace Core.History

variable {t : ThreadId} {h : History} {code : Set Location}

def callAt (h : History) (n : Nat) : Option Barrier.Call :=
  (h.turn n).bind fun t => (h.machines n).call t

def calls (h : History) (n : Nat) : List Barrier.Call := (List.range n).filterMap h.callAt

theorem calls_succ (h : History) (n : Nat) :
    h.calls (n + 1) = h.calls n ++ (h.callAt n).toList := by
  rw [calls, List.range_succ, List.filterMap_append, List.filterMap_cons, List.filterMap_nil]
  cases h.callAt n <;> rfl

theorem turn_eq_some {n : Nat} : h.turn n = some t ↔
    (h.state n).exToMem = some t ∧ (h.state (n + 1)).commits t = true := by
  rw [turn, Option.filter_eq_some_iff]

section

variable (conforms : h.Conforms code) {n : Nat} (bound : n + 2 ≤ h.length)

include conforms bound

theorem Conforms.clean_machines (on : ((h.state 0).pool t).enabled = true) :
    (h.machines n).Clean t code := by
  rw [(conforms.serial (by omega)).refines]
  exact conforms.clean n bound t on

theorem Conforms.machines_of_turn (turn : h.turn n = some t) :
    h.machines (n + 1) = (h.machines n).step t := by
  rw [(conforms.serial bound).refines, schedule_succ, turn, Option.toList_some,
    Machines.after_concat, ← (conforms.serial (by omega)).refines]

theorem Conforms.machines_of_none (turn : h.turn n = none) :
    h.machines (n + 1) = h.machines n := by
  rw [(conforms.serial bound).refines, schedule_succ, turn, Option.toList_none, List.append_nil,
    ← (conforms.serial (by omega)).refines]

theorem Conforms.enabled_of_turn (turn : h.turn n = some t) :
    ((h.state 0).pool t).enabled = true := by
  obtain ⟨latch, commits⟩ := turn_eq_some.mp turn
  obtain ⟨m, rfl, p, makes⟩ := exists_pass conforms.short bound latch
  rw [makes.commits_eq ((memToExcept_succ (by omega)).trans latch)] at commits
  have enabled := (conforms.serial (n := fetchCall t m + 4) (by omega)).enabled t
  rw [begun_fetchCall, ← makes.start] at enabled
  rw [← enabled]
  by_contra off
  rw [(makes.valid.idle (Bool.not_eq_true _ ▸ off)).idles] at commits
  cases commits

theorem Conforms.call_of_away (on : ((h.state 0).pool t).enabled = true)
    (away : h.turn n ≠ some t) :
    (h.machines (n + 1)).call t = (h.machines n).call t := by
  have clean := conforms.clean_machines bound on
  cases turn : h.turn n with
  | none => rw [conforms.machines_of_none bound turn]
  | some u =>
      have other : u ≠ t := by
        rintro rfl
        exact away turn
      rw [conforms.machines_of_turn bound turn]
      exact clean.call_eq (Machines.contexts_step_of_ne other.symm)
        ((conforms.clean_machines bound (conforms.enabled_of_turn bound turn)).same other)

/-- A thread that comes to a barrier has its call answered. -/
theorem Conforms.meets (on : ((h.state 0).pool t).enabled = true)
    (latch : (h.state n).exToMem = some t) {call : Barrier.Call}
    (calls : (h.machines n).call t = some call) :
    (h.turn n = some t → ∃ answer,
      (h.machines n).table.checkSyncTable call.mask call.id = .ok answer) ∧
    ((h.machines n).memory.place t ((h.machines n).contexts t).counters.pc = none →
      h.turn n = some t) := by
  have short := conforms.short
  have serial := conforms.serial (n := n) (by omega)
  have clean := conforms.clean_machines bound on
  obtain ⟨sync, rfl⟩ := Machines.call_eq_some.mp calls
  obtain ⟨m, rfl, p, makes⟩ := exists_pass short bound latch
  have finds := serial.finds conforms.built makes bound
  have steady := serial.steady t on
  have keeps := serial.keeps t on
  rw [begun_fetchCall, ← makes.start] at steady keeps
  have free : Fetch.isHeld p.start = false := by
    cases held : Fetch.isHeld p.start with
    | false => rfl
    | true => exact absurd (keeps held).access (Sparc.quiet_of_sync sync)
  have view : (h.machines (fetchCall t m + 4)).view t =
    p.before (h.contents (fetchCall t m + 4)) := finds.view
  have meets : p.runs = true →
      p.word = ((h.machines (fetchCall t m + 4)).view t).word t ∧ p.Meets := fun runs => by
    have given := serial.given short conforms.built makes bound clean on runs
    have word : p.word = ((h.machines (fetchCall t m + 4)).view t).word t := by
      rw [given.word, view]
    exact ⟨word, makes.valid, steady, runs, free, word ▸ sync⟩
  have goes := makes.commits_eq ((memToExcept_succ (by omega)).trans latch)
  constructor
  · intro turn
    have commits := (turn_eq_some.mp turn).2
    rw [goes] at commits
    have reaches : ExceptStage.reachesCommit p.arrived = true := by
      simp only [Pass.commits, Bool.and_eq_true] at commits
      exact commits.1
    obtain ⟨word, meets⟩ := meets
      (Pass.runs_of_reachesCommit (makes.valid.arrives steady.coherent.enabled) reaches)
    exact ⟨_, by rw [finds.table, ← word]; exact meets.consulted⟩
  · intro near
    have runs : p.runs = true := by
      have counters := congrArg (fun s => s.counters.pc) view
      have place : (h.contents (fetchCall t m + 1)).place t p.start.pc = none := by
        rw [(serial.since_fetch short bound).place]
        exact (congrArg _ counters.symm).trans near
      rw [makes.valid.runs_eq steady.coherent.enabled makes.instructionMemory
        (makes.fetch_holds conforms.built (by omega)) free, Contents.granted, place]
    exact turn_eq_some.mpr ⟨latch, goes.trans (meets runs).2.commits.1⟩

end

/-- The callers of the table after the turns so far. -/
def callers (h : History) (n : Nat) : Callers :=
  ((Transition.run Callers.step (h.calls n) .create).toOption).getD .create

structure Accounts (h : History) (n : Nat) : Prop where
  runs : Transition.run Callers.step (h.calls n) .create = .ok (h.callers n)
  table : (h.callers n).table = (h.machines n).table
  pending : ∀ t mask, (h.callers n).pending t = some mask →
    ((h.state 0).pool t).enabled = true ∧ (h.machines n).call t = some ⟨t, mask⟩

theorem Accounts.of_none {n : Nat} (accounts : h.Accounts n) (conforms : h.Conforms code)
    (bound : n + 2 ≤ h.length) (silent : h.callAt n = none) :
    h.callers (n + 1) = h.callers n ∧ h.Accounts (n + 1) := by
  have calls : h.calls (n + 1) = h.calls n := by
    rw [calls_succ, silent, Option.toList_none, List.append_nil]
  have same : h.callers (n + 1) = h.callers n := by rw [callers, callers, calls]
  refine ⟨same, ?_, ?_, ?_⟩
  · rw [same, calls]
    exact accounts.runs
  · rw [same, accounts.table]
    cases turn : h.turn n with
    | none => rw [conforms.machines_of_none bound turn]
    | some t =>
        rw [callAt, turn] at silent
        rw [conforms.machines_of_turn bound turn, Machines.step_of_none silent]
  · intro t mask waits
    rw [same] at waits
    obtain ⟨on, call⟩ := accounts.pending t mask waits
    refine ⟨on, ?_⟩
    rw [conforms.call_of_away bound on, call]
    intro turn
    rw [callAt, turn] at silent
    exact absurd (call.symm.trans silent) (Option.some_ne_none _)

theorem Accounts.of_some {n : Nat} (accounts : h.Accounts n) (conforms : h.Conforms code)
    (bound : n + 2 ≤ h.length) {call : Barrier.Call} (speaks : h.callAt n = some call) :
    Callers.step call (h.callers n) = .ok (h.callers (n + 1)) ∧ h.Accounts (n + 1) := by
  obtain ⟨t, turn, calls⟩ := Option.bind_eq_some_iff.mp speaks
  have on := conforms.enabled_of_turn bound turn
  have own : call.id = t := by
    obtain ⟨_, rfl⟩ := Machines.call_eq_some.mp calls
    rfl
  subst own
  obtain ⟨⟨table, answer⟩, returns⟩ :=
    (conforms.meets bound on (turn_eq_some.mp turn).1 calls).1 turn
  have step : Callers.step call (h.callers n) = .ok ((h.callers n).answered call table answer) :=
    Barrier.Callers.step_eq_ok.mpr ⟨table, answer, by rw [accounts.table]; exact returns, rfl⟩
  have runs : Transition.run Callers.step (h.calls (n + 1)) .create =
      .ok ((h.callers n).answered call table answer) := by
    rw [calls_succ, speaks, Option.toList_some]
    exact (Transition.run_append_eq_ok Callers.step).mpr
      ⟨_, accounts.runs, (Transition.run_cons_eq_ok Callers.step).mpr ⟨_, step, rfl⟩⟩
  have next : h.callers (n + 1) = (h.callers n).answered call table answer := by
    rw [callers, runs]
    rfl
  obtain ⟨sameTable, memory, waits⟩ := Machines.step_of_call calls returns
  have machines := conforms.machines_of_turn bound turn
  refine ⟨by rw [step, next], by rw [next, runs], ?_, ?_⟩
  · rw [next, machines, sameTable]
    rfl
  · intro t mask pending
    rw [next] at pending
    by_cases own : t = call.id
    · subst own
      simp only [Callers.answered, Function.update_self] at pending
      cases answer with
      | true => cases pending
      | false =>
          obtain rfl := Option.some.inj pending
          refine ⟨on, ?_⟩
          rw [machines]
          exact (Machines.call_congr (waits rfl) memory _).trans calls
    · simp only [Callers.answered, Function.update_of_ne own] at pending
      obtain ⟨enabled, same⟩ := accounts.pending t mask pending
      refine ⟨enabled, ?_⟩
      rw [conforms.call_of_away bound enabled, same]
      intro other
      exact own (Option.some.inj (other.symm.trans turn))

theorem Conforms.accounts (conforms : h.Conforms code) {n : Nat} (bound : n + 1 ≤ h.length) :
    h.Accounts n := by
  induction n with
  | zero =>
      obtain ⟨pool, memoryController, create⟩ := h.reset
      refine ⟨rfl, ?_, fun t mask pending => absurd pending (Option.some_ne_none _).symm⟩
      have table := (last_still (h := h) (n := 0) (by omega) (by rw [create]; rfl)).1
      change SyncTable.create = (h.state 1).syncTable
      rw [table, create]
      rfl
  | succ n ih =>
      have accounts := ih (by omega)
      cases speaks : h.callAt n with
      | none => exact (accounts.of_none conforms bound speaks).2
      | some call => exact (accounts.of_some conforms bound speaks).2

/-- A thread that waits is one of those that meet. -/
def Attends (h : History) : Prop :=
  ∀ n, n + 2 ≤ h.length → ∀ t, ((h.state 0).pool t).enabled = true →
    ∀ call, ((h.machines 0).after (h.schedule n)).call t = some call →
      call.mask.getLsbD t.val = true

theorem Accounts.allowed {n : Nat} (accounts : h.Accounts n) (conforms : h.Conforms code)
    (attends : h.Attends) (bound : n + 2 ≤ h.length) {call : Barrier.Call}
    (on : ((h.state 0).pool t).enabled = true) (calls : (h.machines n).call t = some call) :
    Barrier.Allowed call (h.callers n) := by
  have own : call.id = t := by
    obtain ⟨_, rfl⟩ := Machines.call_eq_some.mp calls
    rfl
  subst own
  have bit := attends n bound _ on call (by
    rw [← (conforms.serial (by omega)).refines]
    exact calls)
  refine ⟨?_, bit, ?_⟩
  · intro zero
    simp [zero] at bit
  · cases pending : (h.callers n).pending call.id with
    | none => exact Or.inl rfl
    | some mask =>
        right
        have again := (accounts.pending call.id mask pending).2
        rw [calls] at again
        rw [Option.some.inj again]

theorem Conforms.table_invariant (conforms : h.Conforms code) (attends : h.Attends) {n : Nat}
    (bound : n + 1 ≤ h.length) : Barrier.TableInvariant (h.callers n) := by
  induction n with
  | zero => exact Barrier.create_invariant
  | succ n ih =>
      have accounts := conforms.accounts (n := n) (by omega)
      have holds := ih (by omega)
      cases speaks : h.callAt n with
      | none =>
          rw [(accounts.of_none conforms bound speaks).1]
          exact holds
      | some call =>
          obtain ⟨t, turn, calls⟩ := Option.bind_eq_some_iff.mp speaks
          have allowed := accounts.allowed conforms attends bound
            (conforms.enabled_of_turn bound turn) calls
          obtain ⟨s, returns, next⟩ := Barrier.step_invariant call _ allowed holds
          have same := returns.symm.trans (accounts.of_some conforms bound speaks).1
          rw [← Except.ok.inj same]
          exact next

/-- Whatever the threads of a core do, a row of the barrier table is held by a thread that is
still at its barrier, no two rows are for one barrier, and there is a row for every barrier that
a thread comes to. -/
theorem keeps_rows (h : History) (code : Set Location) (conforms : h.Conforms code)
    (attends : h.Attends) {n : Nat} (bound : n + 2 ≤ h.length) :
    (∀ i j, ((h.state (n + 1)).syncTable i).mask ≠ 0 →
      ((h.state (n + 1)).syncTable i).mask = ((h.state (n + 1)).syncTable j).mask → i = j) ∧
    (∀ i, ((h.state (n + 1)).syncTable i).mask ≠ 0 →
      ∃ t, (h.machines n).call t = some ⟨t, ((h.state (n + 1)).syncTable i).mask⟩) ∧
    ∀ t, ((h.state 0).pool t).enabled = true → ∀ call, (h.machines n).call t = some call →
      ∃ answer, (h.state (n + 1)).syncTable.checkSyncTable call.mask call.id = .ok answer := by
  have accounts := conforms.accounts (n := n) (by omega)
  have holds := conforms.table_invariant attends (n := n) (by omega)
  have table : (h.callers n).table = (h.state (n + 1)).syncTable := accounts.table
  rw [← table]
  refine ⟨holds.distinct, fun i live => ?_, fun t on call calls => ?_⟩
  · obtain ⟨t, member⟩ := (holds.row i live).nonempty
    exact ⟨t, (accounts.pending t _ (Barrier.mem_repeating.mp member)).2⟩
  · exact SyncTable.checkSyncTable_returns call.id
      (Barrier.room_of_invariant holds (accounts.allowed conforms attends bound on calls))

theorem attends_meetingThreads : meetingThreads.Attends := by
  have checks : ∀ n, n < 25 → ∀ t, ((meetingThreads.state 0).pool t).enabled = true →
      (((meetingThreads.machines 0).after ((List.range n).filterMap taking)).call t).all
        (fun call => call.mask.getLsbD t.val) = true := by
    decide +kernel
  intro n bound t on call calls
  have small : n < 25 := by
    change n + 2 ≤ 26 at bound
    omega
  rw [schedule_meetingThreads small.le] at calls
  exact (Option.all_eq_true _ _).mp (checks n small t on) call calls

/-- Thread 0 waits for thread 1 in the row that it has created. -/
theorem keeps_rows_meeting : (∀ i, ((meetingThreads.state 13).syncTable i).mask ≠ 0 →
      ∃ t, (meetingThreads.machines 12).call t =
        some ⟨t, ((meetingThreads.state 13).syncTable i).mask⟩) ∧
    ((meetingThreads.state 13).syncTable 0).mask = 3 :=
  ⟨(keeps_rows meetingThreads ∅ conforms_meetingThreads attends_meetingThreads (n := 12)
    (by decide)).2.1, by decide +kernel⟩

end Core.History

end PretIss
