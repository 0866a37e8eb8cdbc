import PretIss.Barrier.RoundRobin
import PretIss.Machine.Barriers

/-! The threads of a core take turns at the barrier table. If the instructions that wait are in
the scratchpads of their threads, no thread that waits misses a turn; then the threads of a
barrier agree, and it opens within three rounds once all of them have come. -/

namespace PretIss

open Barrier (Callers RoundRobin Agreement)
open Sparc (Machines)

namespace Core.History

variable {t : ThreadId} {h : History} {code : Set Location} {mask : BitVec 16}

/-- The threads of a mask meet at no other barrier, the others not at this one, and the
instructions that wait there are fetched from scratchpads. -/
structure Meets (h : History) (mask : BitVec 16) : Prop where
  plays : ∀ n, n + 2 ≤ h.length → ∀ t, ((h.state 0).pool t).enabled = true →
    ∀ call, ((h.machines 0).after (h.schedule n)).call t = some call →
      (mask.getLsbD t.val = true ↔ call.mask = mask)
  near : ∀ n, n + 2 ≤ h.length → ∀ t, ((h.state 0).pool t).enabled = true →
    ((h.machines 0).after (h.schedule n)).call t = some ⟨t, mask⟩ →
      ((h.machines 0).after (h.schedule n)).memory.place t
        (((h.machines 0).after (h.schedule n)).contexts t).counters.pc = none

def slot (n : Nat) : Option ThreadId :=
  if 5 ≤ n then some ⟨(n - 5) % 6, Nat.mod_lt _ (by decide)⟩ else none

theorem slot_eq_iff {n : Nat} : slot n = some t ↔ 5 ≤ n ∧ (n - 5) % 6 = t.val := by
  unfold slot
  split
  · rename_i begun
    rw [Option.some.injEq, Fin.ext_iff]
    exact (and_iff_right begun).symm
  · rename_i early
    simp [early]

theorem exToMem_eq_slot (short : h.length ≤ 2 ^ 32) {n : Nat} (bound : n ≤ h.length) :
    (h.state n).exToMem = some t ↔ slot n = some t := by
  have latch := h.latch_eq_iff (t := t) short bound 4
  rw [slot_eq_iff]
  refine latch.trans ?_
  change 4 < n ∧ (n - 1 - 4) % 6 = t.val ↔ _
  omega

theorem callAt_id {n : Nat} {c : Barrier.Call} (speaks : h.callAt n = some c) :
    h.turn n = some c.id ∧ (h.machines n).call c.id = some c := by
  obtain ⟨t, turn, calls⟩ := Option.bind_eq_some_iff.mp speaks
  obtain ⟨_, rfl⟩ := Machines.call_eq_some.mp calls
  exact ⟨turn, calls⟩

/-- The threads of a core as callers that take turns. -/
def roundRobin (conforms : h.Conforms code) : RoundRobin where
  length := h.length - 1
  state := h.callers
  slot := slot
  call := h.callAt
  first := 5
  start := rfl
  own n c bound speaks := by
    have latch := (turn_eq_some.mp (callAt_id speaks).1).1
    exact (exToMem_eq_slot conforms.short (by omega)).mp latch
  silent n bound quiet :=
    ((conforms.accounts (n := n) (by omega)).of_none conforms (by omega) quiet).1
  speaks n c bound speaks :=
    ((conforms.accounts (n := n) (by omega)).of_some conforms (by omega) speaks).1
  begun n t turn := (slot_eq_iff.mp turn).1
  apart m n t first second before := by
    rw [slot_eq_iff] at first second
    change m + 6 ≤ n
    omega
  comes n t begun := by
    have small : t.val < 6 := t.isLt
    refine ⟨n + (t.val + 6 - (n - 5) % 6) % 6, by omega, ?_, ?_⟩
    · change _ < n + 6
      omega
    · rw [slot_eq_iff]
      omega

theorem attentive (conforms : h.Conforms code) (meets : h.Meets mask) :
    (roundRobin conforms).Attentive mask where
  plays n c bound speaks := by
    change n < h.length - 1 at bound
    obtain ⟨turn, calls⟩ := callAt_id speaks
    refine meets.plays n (by omega) c.id (conforms.enabled_of_turn (by omega) turn) c ?_
    rw [← (conforms.serial (by omega)).refines]
    exact calls
  eager n t bound waits turn := by
    change n < h.length - 1 at bound
    obtain ⟨on, calls⟩ := (conforms.accounts (n := n) (by omega)).pending t mask waits
    have near := meets.near n (by omega) t on
    rw [← (conforms.serial (by omega)).refines] at near
    have latch := (exToMem_eq_slot conforms.short (by omega)).mpr turn
    have turn := (conforms.meets (by omega) on latch calls).2 (near calls)
    change (h.turn n).bind _ = _
    rw [turn]
    exact calls

theorem call_until_passed (conforms : h.Conforms code) {n m : Nat} (later : n ≤ m)
    (within : m + 1 ≤ h.length) (on : ((h.state 0).pool t).enabled = true)
    (there : (h.machines n).call t = some ⟨t, mask⟩)
    (passes : (h.callers m).passes t = (h.callers n).passes t) :
    (h.machines m).call t = some ⟨t, mask⟩ := by
  induction m, later using Nat.le_induction with
  | base => exact there
  | succ m later ih =>
      have grown : (h.callers m).passes t ≤ (h.callers (m + 1)).passes t :=
        RoundRobin.passes_le (r := roundRobin conforms) (by change m < h.length - 1; omega) t
      have before : (h.callers n).passes t ≤ (h.callers m).passes t :=
        RoundRobin.passes_mono (r := roundRobin conforms) later
          (by change m ≤ h.length - 1; omega) t
      have same : (h.callers m).passes t = (h.callers n).passes t := by omega
      have calls := ih (by omega) same
      by_cases turn : h.turn m = some t
      · have accounts := conforms.accounts (n := m) (by omega)
        have speaks : h.callAt m = some ⟨t, mask⟩ := by
          rw [callAt, turn]
          exact calls
        obtain ⟨step, next⟩ := accounts.of_some conforms within speaks
        obtain ⟨table, answer, _, after⟩ := Barrier.Callers.step_eq_ok.mp step
        have waits : answer = false := by
          rw [after, (Barrier.answered_own _ ⟨t, mask⟩ table answer).2.2, ← same] at passes
          cases answer with
          | false => rfl
          | true => simp at passes
        refine (next.pending t mask ?_).2
        rw [after, (Barrier.answered_own _ ⟨t, mask⟩ table answer).1, waits]
        rfl
      · rw [conforms.call_of_away within on turn]
        exact calls

/-- No thread of a core gets ahead of the others at a barrier: when it has passed so many times,
each of them has come at least as often. -/
theorem agrees (h : History) (code : Set Location) (mask : BitVec 16) (conforms : h.Conforms code)
    (meets : h.Meets mask) {n : Nat} (bound : n + 1 ≤ h.length) :
    ∃ s, Transition.run Callers.step (h.calls n) .create = .ok s ∧
      s.table = (h.state (n + 1)).syncTable ∧ Agreement mask s :=
  have accounts := conforms.accounts bound
  ⟨h.callers n, accounts.runs, accounts.table,
    RoundRobin.agreement (attentive conforms meets) (by change n ≤ h.length - 1; omega)⟩

/-- When all threads of a barrier have come to it for the same time, each of them has passed it
eighteen calls later. -/
theorem opens_within (h : History) (code : Set Location) (mask : BitVec 16)
    (conforms : h.Conforms code) (meets : h.Meets mask) (n : Nat) (begun : 5 ≤ n)
    (enough : n + 19 ≤ h.length)
    (threads : ∀ b, mask.getLsbD b = true → b < numThreads)
    (there : ∀ t : ThreadId, mask.getLsbD t.val = true →
      ((h.state 0).pool t).enabled = true ∧ (h.machines n).call t = some ⟨t, mask⟩)
    (equal : ∀ t u : ThreadId, mask.getLsbD t.val = true → mask.getLsbD u.val = true →
      (h.callers n).passes t = (h.callers n).passes u) (t : ThreadId)
    (member : mask.getLsbD t.val = true) :
    (h.callers n).passes t < (h.callers (n + 18)).passes t := by
  have gathered : (roundRobin conforms).Gathered mask n ((h.callers n).passes t) := by
    refine ⟨?_, threads, begun, fun u inside => equal u t inside member, ?_⟩
    · rintro rfl
      simp at member
    · intro k u later within inside passes turn
      change k < h.length - 1 at within
      change (h.callers k).passes u = _ at passes
      obtain ⟨on, come⟩ := there u inside
      have calls := call_until_passed conforms later (by omega) on come
        (passes.trans (equal t u member inside))
      have near := meets.near k (by omega) u on
      rw [← (conforms.serial (by omega)).refines] at near
      have latch := (exToMem_eq_slot conforms.short (by omega)).mpr turn
      change (h.turn k).bind _ = _
      rw [(conforms.meets (by omega) on latch calls).2 (near calls)]
      exact calls
  exact gathered.opens (attentive conforms meets) (by change n + 18 ≤ h.length - 1; omega) member

theorem meets_meetingThreads : meetingThreads.Meets 3 := by
  have checks : ∀ n, n < 25 → ∀ t, ((meetingThreads.state 0).pool t).enabled = true →
      let x := (meetingThreads.machines 0).after ((List.range n).filterMap taking)
      ((x.call t).all fun call =>
        decide ((3 : BitVec 16).getLsbD t.val = true ↔ call.mask = 3)) = true ∧
      x.memory.place t (x.contexts t).counters.pc = none := by
    decide +kernel
  constructor
  · intro n bound t on call calls
    have small : n < 25 := by
      change n + 2 ≤ 26 at bound
      omega
    rw [schedule_meetingThreads small.le] at calls
    exact of_decide_eq_true ((Option.all_eq_true _ _).mp (checks n small t on).1 call calls)
  · intro n bound t on _
    have small : n < 25 := by
      change n + 2 ≤ 26 at bound
      omega
    rw [schedule_meetingThreads small.le]
    exact (checks n small t on).2

theorem agrees_meeting : ∃ s,
    Transition.run Callers.step (meetingThreads.calls 20) .create = .ok s ∧
      s.table = (meetingThreads.state 21).syncTable ∧ Agreement 3 s :=
  agrees meetingThreads ∅ 3 conforms_meetingThreads meets_meetingThreads (by decide)

theorem opens_within_meeting :
    (meetingThreads.callers 7).passes 1 < (meetingThreads.callers (7 + 18)).passes 1 := by
  have threads : ∀ b, b < 16 → (3 : BitVec 16).getLsbD b = true → b < numThreads := by decide
  exact opens_within meetingThreads ∅ 3 conforms_meetingThreads meets_meetingThreads 7 (by decide)
    (by decide) (fun b set => threads b (BitVec.lt_of_getLsbD set) set) (by decide +kernel)
    (by decide +kernel) 1 (by decide)

end Core.History

end PretIss
