import PretIss.Library.Timeline
import PretIss.Wheel.Requests

/-! What a window of the wheel serves. The wheel grants every request that comes in
the first cycles of its thread's window, without waiting out the access it grants: how
many accesses a window serves, how long they wait and whether they fit is decided by
the requests. Only an access whose delay overflows is waited for, and it is granted when
the overflow has been counted down. -/

namespace PretIss

namespace WheeledMem

/-- The wheel lets a request through: it sets up a positive delay, or the delay that it
counts down has come round to a positive number. -/
def Opens (w : WheeledMem) (cycles : BitVec 32) (tid : Int) (asked : WheelRequest) : Prop :=
  w.divides cycles = true ∧
    if w.accessing then
      tid = w.currentThread cycles ∧ w.requestedAddr = asked.addr ∧ 0 < w.remainingCycles.toInt
    else
      w.isScheduled cycles asked.accessor tid = true ∧
        0 < (w.getDelay asked.accessor asked.numWords).toInt

instance (w : WheeledMem) (cycles : BitVec 32) (tid : Int) (asked : WheelRequest) :
    Decidable (w.Opens cycles tid asked) :=
  inferInstanceAs (Decidable (_ ∧ if w.accessing then _ else _))

theorem opens_iff {w : WheeledMem} {cycles : BitVec 32} {tid : Int} {asked : WheelRequest} :
    w.Opens cycles tid asked ↔ ∃ w', asked.call w cycles tid = .ok (w', false) := by
  unfold Opens
  cases divides : w.divides cycles with
  | false => simp [WheelRequest.call_fault divides]
  | true =>
      cases busy : w.accessing with
      | false =>
          cases opened : w.isScheduled cycles asked.accessor tid with
          | false => simp [WheelRequest.call_unscheduled divides busy opened]
          | true => simp [WheelRequest.call_scheduled divides busy opened, sle_zero_eq_false]
      | true =>
          by_cases own : tid = w.currentThread cycles ∧ w.requestedAddr = asked.addr
          · simp [WheelRequest.call_own divides busy own.1 own.2, own.2, ← own.1,
              sle_zero_eq_false]
          · rw [WheelRequest.call_other divides busy own]
            simpa using fun turn same => absurd ⟨turn, same⟩ own

def trueDelay (latD throughputD numWords : BitVec 32) : Int :=
  latD.toInt + throughputD.toInt * (numWords.toInt - 1)

theorem trueDelay_pos {latD throughputD numWords : BitVec 32} (positive : 1 ≤ latD.toInt)
    (streams : 0 ≤ throughputD.toInt) (some : 1 ≤ numWords.toInt) :
    0 < trueDelay latD throughputD numWords := by
  have streaming : 0 ≤ throughputD.toInt * (numWords.toInt - 1) :=
    Int.mul_nonneg streams (by omega)
  unfold trueDelay
  omega

theorem delay_eq_ofInt (latD throughputD numWords : BitVec 32) :
    delay latD throughputD numWords = BitVec.ofInt 32 (trueDelay latD throughputD numWords) := by
  have further : BitVec.ofInt 32 (numWords.toInt - 1) = numWords - 1 := by
    rw [Int.sub_eq_add_neg, BitVec.ofInt_add, BitVec.ofInt_toInt, BitVec.sub_eq_add_neg]
    rfl
  rw [trueDelay, BitVec.ofInt_add, BitVec.ofInt_mul, further, BitVec.ofInt_toInt,
    BitVec.ofInt_toInt, delay]

theorem delay_toNat_le {latD throughputD numWords : BitVec 32}
    (positive : 0 < trueDelay latD throughputD numWords) :
    ((delay latD throughputD numWords).toNat : Int) ≤ trueDelay latD throughputD numWords := by
  rw [delay_eq_ofInt, BitVec.toNat_ofInt]
  generalize trueDelay latD throughputD numWords = d at positive ⊢
  have wraps : ((2 ^ 32 : Nat) : Int) = 4294967296 := by decide
  rw [wraps]
  omega

end WheeledMem

namespace WheelState

open WheeledMem (construct windowOf admits delay trueDelay Made Idle opens_iff)

variable {latD throughputD : BitVec 32} {memoryWindow : Option (BitVec 32)} {window : BitVec 32}

def isCycle : WheelStep → Bool
  | .cycleCounter => true
  | _ => false

def isBehavior : WheelStep → Bool
  | .behavior => true
  | _ => false

theorem elapsed_run {labels : List WheelStep} {s s' : WheelState}
    (runs : Transition.run step labels s = .ok s') :
    s'.elapsed = s.elapsed + labels.countP isCycle := by
  induction labels generalizing s with
  | nil =>
      obtain rfl := Except.ok.inj runs
      rfl
  | cons label rest ih =>
      obtain ⟨middle, first, later⟩ := (Transition.run_cons_eq_ok step).mp runs
      rw [ih later, List.countP_cons]
      cases label with
      | request tid asked =>
          obtain ⟨_, _, same⟩ := step_request first
          simp [isCycle, same]
      | behavior =>
          obtain rfl := Except.ok.inj first
          simp [isCycle]
      | cycleCounter =>
          obtain rfl := Except.ok.inj first
          simp [isCycle]
          omega

theorem call_busy {w w' : WheeledMem} {cycles : BitVec 32} {tid : Int} {asked : WheelRequest}
    {stalled : Bool} (made : w.Made latD throughputD window) (busy : w.accessing = true)
    (answers : asked.call w cycles tid = .ok (w', stalled)) :
    w'.Made latD throughputD window ∧ w'.remainingCycles = w.remainingCycles ∧
      w'.accessing = stalled := by
  cases divides : w.divides cycles with
  | false =>
      rw [WheelRequest.call_fault divides] at answers
      cases answers
  | true =>
      by_cases own : tid = w.currentThread cycles ∧ w.requestedAddr = asked.addr
      · rw [WheelRequest.call_own divides busy own.1 own.2] at answers
        obtain ⟨rfl, rfl⟩ := Prod.mk.inj (Except.ok.inj answers)
        exact ⟨⟨made.latD, made.throughputD, made.memoryWindow⟩, rfl, rfl⟩
      · rw [WheelRequest.call_other divides busy own] at answers
        cases answers

theorem call_begins {w w' : WheeledMem} {cycles : BitVec 32} {tid : Int} {asked : WheelRequest}
    {stalled : Bool} (made : w.Made latD throughputD window) (idle : w.accessing = false)
    (answers : asked.call w cycles tid = .ok (w', stalled)) :
    w'.Made latD throughputD window ∧ (w'.accessing = true →
      admits latD window cycles tid = true ∧
        w'.remainingCycles = delay latD throughputD asked.numWords) := by
  cases divides : w.divides cycles with
  | false =>
      rw [WheelRequest.call_fault divides] at answers
      cases answers
  | true =>
      cases opened : w.isScheduled cycles asked.accessor tid with
      | false =>
          rw [WheelRequest.call_unscheduled divides idle opened] at answers
          obtain ⟨rfl, _⟩ := Prod.mk.inj (Except.ok.inj answers)
          refine ⟨made, fun busy => ?_⟩
          rw [idle] at busy
          cases busy
      | true =>
          rw [WheelRequest.call_scheduled divides idle opened] at answers
          obtain ⟨rfl, _⟩ := Prod.mk.inj (Except.ok.inj answers)
          refine ⟨⟨made.latD, made.throughputD, made.memoryWindow⟩, fun _ => ⟨?_, ?_⟩⟩
          · rw [admits, ← made.divides, divides, ← made.isScheduled cycles asked.accessor, opened]
            rfl
          · exact made.getDelay asked.accessor _

/-- Timely steps start nothing that stays in progress, and `behavior` counts down what does. -/
theorem step_made {label : WheelStep} {s s' : WheelState}
    (timely : Timely latD throughputD window label s)
    (made : s.wheel.Made latD throughputD window) (steps : step label s = .ok s') :
    s'.wheel.Made latD throughputD window ∧ (s'.wheel.accessing = true →
      s.wheel.accessing = true ∧ s'.wheel.remainingCycles.toNat =
        s.wheel.remainingCycles.toNat - [label].countP isBehavior) := by
  cases before : s.wheel.accessing with
  | false =>
      have idle := step_idle timely ⟨made, before⟩ steps
      refine ⟨idle.toMade, fun busy => ?_⟩
      rw [idle.accessing] at busy
      cases busy
  | true =>
      cases label with
      | request tid asked =>
          obtain ⟨stalled, answers, _⟩ := step_request steps
          obtain ⟨again, same, _⟩ := call_busy made before answers
          exact ⟨again, fun _ => ⟨rfl, by simp [same, isBehavior]⟩⟩
      | behavior =>
          obtain rfl := Except.ok.inj steps
          refine ⟨made.behavior, fun _ => ⟨rfl, ?_⟩⟩
          change s.wheel.behavior.remainingCycles.toNat = s.wheel.remainingCycles.toNat - 1
          unfold WheeledMem.behavior
          split
          · next positive =>
            have some : s.wheel.remainingCycles.toNat ≠ 0 := fun zero =>
              positive (BitVec.eq_of_toNat_eq zero)
            have bound := s.wheel.remainingCycles.isLt
            change (s.wheel.remainingCycles - 1#32).toNat = _
            rw [BitVec.toNat_sub]
            change (2 ^ 32 - 1 + _) % 2 ^ 32 = _
            omega
          · next zero =>
            have none : s.wheel.remainingCycles.toNat = 0 :=
              congrArg BitVec.toNat (not_not.mp zero)
            omega
      | cycleCounter =>
          obtain rfl := Except.ok.inj steps
          exact ⟨made, fun _ => ⟨rfl, rfl⟩⟩

theorem run_made {labels : List WheelStep} {s s' : WheelState}
    (timely : ∀ entry ∈ Transition.trail step labels s,
      Timely latD throughputD window entry.1 entry.2)
    (made : s.wheel.Made latD throughputD window) (runs : Transition.run step labels s = .ok s') :
    s'.wheel.Made latD throughputD window ∧ (s'.wheel.accessing = true →
      s.wheel.accessing = true ∧ s'.wheel.remainingCycles.toNat =
        s.wheel.remainingCycles.toNat - labels.countP isBehavior) := by
  induction labels generalizing s with
  | nil =>
      obtain rfl := Except.ok.inj runs
      exact ⟨made, fun busy => ⟨busy, rfl⟩⟩
  | cons label rest ih =>
      obtain ⟨middle, first, later⟩ := (Transition.run_cons_eq_ok step).mp runs
      rw [Transition.trail_cons_of_ok step first, List.forall_mem_cons] at timely
      have now : Timely latD throughputD window label s := timely.1
      obtain ⟨next, counted⟩ := step_made now made first
      obtain ⟨last, more⟩ := ih timely.2 next later
      refine ⟨last, fun busy => ?_⟩
      obtain ⟨between, remaining⟩ := more busy
      obtain ⟨begun, earlier⟩ := counted between
      refine ⟨begun, ?_⟩
      rw [← List.singleton_append, List.countP_append]
      omega

theorem Reachable.made {allowed : WheelStep → WheelState → Prop} {s : WheelState}
    (reached : s.Reachable allowed latD throughputD memoryWindow) :
    s.wheel.Made latD throughputD (windowOf latD memoryWindow) := by
  obtain ⟨labels, permitted, runs⟩ := reached
  apply Transition.invariant_run step
    (fun s => s.wheel.Made latD throughputD (windowOf latD memoryWindow)) allowed _
    (WheeledMem.construct_idle latD throughputD memoryWindow).toMade permitted runs
  intro label s s' _ made steps
  cases label with
  | request tid asked =>
      obtain ⟨stalled, answers, _⟩ := step_request steps
      cases before : s.wheel.accessing with
      | false => exact (call_begins made before answers).1
      | true => exact (call_busy made before answers).1
  | behavior =>
      obtain rfl := Except.ok.inj steps
      exact made.behavior
  | cycleCounter =>
      obtain rfl := Except.ok.inj steps
      exact made

/-- One attempt at an access: the wheel as the thread finds it, the answer, and the
wheel as the thread finds it the next time. -/
structure Attempt where
  before : WheelState
  stalled : Bool
  after : WheelState

/-- Until the next attempt others may ask too, and `behavior` is called in every cycle. -/
def Attempt.Valid (latD throughputD window : BitVec 32) (tid : Int) (asked : WheelRequest)
    (a : Attempt) : Prop :=
  ∃ wheel labels, asked.call a.before.wheel a.before.cycles tid = .ok (wheel, a.stalled) ∧
    (∀ entry ∈ Transition.trail step labels { a.before with wheel },
      Timely latD throughputD window entry.1 entry.2) ∧
    labels.countP isCycle ≤ labels.countP isBehavior ∧
    Transition.run step labels { a.before with wheel } = .ok a.after

/-- A thread repeats an access until it is reported not stalled. -/
structure Retry (latD throughputD : BitVec 32) (memoryWindow : Option (BitVec 32)) (tid : Int)
    (asked : WheelRequest) extends Timeline Attempt.before Attempt.after
      (Attempt.Valid latD throughputD (windowOf latD memoryWindow) tid asked) where
  reached : (entry 0).before.Reachable (fun _ _ => True) latD throughputD memoryWindow
  repeats : ∀ n, n + 1 < length → (entry n).stalled = true

namespace Retry

variable {tid : Int} {asked : WheelRequest}

/-- The attempt sets up the access. -/
def Starts (r : Retry latD throughputD memoryWindow tid asked) (n : Nat) : Prop :=
  (r.entry n).before.wheel.accessing = false ∧
    admits latD (windowOf latD memoryWindow) (r.entry n).before.cycles tid = true

/-- The access that an attempt finds in progress, if any. -/
structure Since (r : Retry latD throughputD memoryWindow tid asked) (n : Nat) (s : WheelState)
    (m : Nat) : Prop where
  earlier : m < n
  starts : r.Starts m
  last : ∀ j, m < j → j < n → ¬ r.Starts j
  order : (r.entry m).before.elapsed ≤ s.elapsed
  remaining : s.wheel.remainingCycles.toNat ≤
    (delay latD throughputD asked.numWords).toNat - (s.elapsed - (r.entry m).before.elapsed)

/-- Only an attempt whose delay overflows is in progress, since it was made. -/
theorem attempt_made (r : Retry latD throughputD memoryWindow tid asked) {n : Nat}
    (bound : n < r.length) :
    (r.entry n).before.wheel.Made latD throughputD (windowOf latD memoryWindow) ∧
      ((r.entry n).before.wheel.accessing = true →
        (∀ j, j < n → ¬ r.Starts j) ∨ ∃ m, r.Since n (r.entry n).before m) := by
  apply r.invariant (fun n s => s.wheel.Made latD throughputD (windowOf latD memoryWindow) ∧
    (s.wheel.accessing = true → (∀ j, j < n → ¬ r.Starts j) ∨ ∃ m, r.Since n s m)) _ _ bound
  · exact ⟨r.reached.made, fun _ => .inl fun j below => absurd below (Nat.not_lt_zero j)⟩
  · rintro n bound ⟨made, since⟩
    obtain ⟨wheel, labels, answer, timely, cycled, runs⟩ := r.valid n bound
    have later : (r.entry n).after.elapsed = _ := elapsed_run runs
    change _ = (r.entry n).before.elapsed + labels.countP isCycle at later
    cases before : (r.entry n).before.wheel.accessing with
    | true =>
        obtain ⟨again, same, _⟩ := call_busy made before answer
        obtain ⟨next, counted⟩ := run_made timely again runs
        refine ⟨next, fun busy => ?_⟩
        obtain ⟨_, remaining⟩ := counted busy
        change _ = wheel.remainingCycles.toNat - _ at remaining
        rw [same] at remaining
        have own : ¬ r.Starts n := by
          rintro ⟨idle, _⟩
          rw [idle] at before
          cases before
        have further : ∀ {j}, j < n + 1 → (j < n → ¬ r.Starts j) → ¬ r.Starts j := by
          intro j below inside
          obtain less | rfl := Nat.lt_succ_iff_lt_or_eq.mp below
          · exact inside less
          · exact own
        obtain none | ⟨m, earlier, starts, last, order, less⟩ := since before
        · exact .inl fun j below => further below (none j)
        · exact .inr ⟨m, by omega, starts, fun j above below => further below (last j above),
            by omega, by omega⟩
    | false =>
        obtain ⟨next, counted⟩ := run_made timely (call_begins made before answer).1 runs
        refine ⟨next, fun busy => ?_⟩
        obtain ⟨began, remaining⟩ := counted busy
        obtain ⟨admitted, set⟩ := (call_begins made before answer).2 began
        refine .inr ⟨n, by omega, ⟨before, admitted⟩, by omega, by omega, ?_⟩
        change _ = wheel.remainingCycles.toNat - _ at remaining
        rw [set] at remaining
        omega

/-- The access is reported not stalled only when it has been in progress for its
whole delay, in the same window and since the attempt that set it up. -/
def Charged (r : Retry latD throughputD memoryWindow tid asked) : Prop :=
  ∀ n, n < r.length → (r.entry n).stalled = false →
    ∃ m, m ≤ n ∧ r.Starts m ∧ (∀ j, m < j → j ≤ n → ¬ r.Starts j) ∧
      (r.entry n).before.elapsed - (r.entry m).before.elapsed ≤
        (r.entry n).before.cycles.toNat % (windowOf latD memoryWindow).toNat ∧
      (r.entry m).before.elapsed + trueDelay latD throughputD asked.numWords ≤
        (r.entry n).before.elapsed

/-- An attempt that the wheel lets through has not been charged: it has just set up the access,
or the delay that overflowed has been counted down to a positive number. -/
theorem not_charged (r : Retry latD throughputD memoryWindow tid asked)
    (positive : 0 < trueDelay latD throughputD asked.numWords) {n m : Nat} (bound : n < r.length)
    (opened : (r.entry n).before.wheel.Opens (r.entry n).before.cycles tid asked) (earlier : m ≤ n)
    (starts : r.Starts m) (last : ∀ j, m < j → j ≤ n → ¬ r.Starts j) :
    ((r.entry n).before.elapsed : Int) <
      (r.entry m).before.elapsed + trueDelay latD throughputD asked.numWords := by
  obtain ⟨made, since⟩ := r.attempt_made bound
  obtain ⟨divides, passes⟩ := opened
  cases busy : (r.entry n).before.wheel.accessing with
  | false =>
      rw [busy, if_neg Bool.false_ne_true] at passes
      have begins : r.Starts n := by
        refine ⟨busy, ?_⟩
        rw [admits, ← made.divides, divides, ← made.isScheduled _ asked.accessor, passes.1]
        rfl
      have same : m = n := by
        by_contra other
        exact last n (by omega) le_rfl begins
      subst same
      omega
  | true =>
      rw [busy, if_pos rfl] at passes
      have inside : m < n := by
        obtain inside | rfl := Nat.lt_or_eq_of_le earlier
        · exact inside
        · rw [starts.1] at busy
          cases busy
      obtain none | ⟨k, before, begun, latest, order, remaining⟩ := since busy
      · exact absurd starts (none m inside)
      have same : m = k := by
        by_contra other
        obtain less | more := Nat.lt_or_gt_of_ne other
        · exact last k less before.le begun
        · exact latest m more inside starts
      subst same
      have some : (r.entry n).before.wheel.remainingCycles.toNat ≠ 0 := by
        intro zero
        have none : (r.entry n).before.wheel.remainingCycles = 0 := BitVec.eq_of_toNat_eq zero
        rw [none] at passes
        exact absurd passes.2.2 (by decide)
      have shorter := WheeledMem.delay_toNat_le positive
      omega

/-- The latency is charged only to an access that is never granted. -/
theorem latency_charged_iff (r : Retry latD throughputD memoryWindow tid asked)
    (positive : 1 ≤ latD.toInt) (streams : 0 ≤ throughputD.toInt) (some : 1 ≤ asked.numWords.toInt) :
    r.Charged ↔ ∀ n, n < r.length →
      ¬ (r.entry n).before.wheel.Opens (r.entry n).before.cycles tid asked := by
  have answered : ∀ n, n < r.length → ((r.entry n).stalled = false ↔
      (r.entry n).before.wheel.Opens (r.entry n).before.cycles tid asked) := by
    intro n bound
    obtain ⟨wheel, labels, answer, _⟩ := r.valid n bound
    rw [opens_iff]
    constructor
    · intro granted
      exact ⟨wheel, granted ▸ answer⟩
    · rintro ⟨wheel', granted⟩
      rw [answer] at granted
      exact (Prod.mk.inj (Except.ok.inj granted)).2
  constructor
  · intro charged n bound opened
    obtain ⟨m, earlier, starts, last, _, waited⟩ := charged n bound ((answered n bound).mpr opened)
    have early := r.not_charged (WheeledMem.trueDelay_pos positive streams some) bound opened
      earlier starts last
    omega
  · intro never n bound granted
    exact absurd ((answered n bound).mp granted) (never n bound)

def pause (cycles : Nat) : List WheelStep :=
  (List.range cycles).flatMap fun _ => [.behavior, .cycleCounter]

/-- Thread 1 asks for a burst in the seventh cycle of its window and once more in its next
memory slot. -/
def late : Retry 14 4 none 1 (.readBurst 0x200 4) where
  length := 2
  entry n := ⟨⟨construct 14 4 none, 6 * n + 6⟩, true, ⟨construct 14 4 none, 6 * n + 12⟩⟩
  valid n bound := by
    have few : n = 0 ∨ n = 1 := by omega
    obtain rfl | rfl := few <;>
      exact ⟨construct 14 4 none, pause 6, rfl, by decide +kernel, by decide, rfl⟩
  linked n bound := by rfl
  reached := ⟨pause 6, fun _ _ => trivial, rfl⟩
  repeats n bound := by rfl

theorem latency_charged_iff_late : late.Charged :=
  (latency_charged_iff late (by decide) (by decide) (by decide)).mpr (by
    intro n bound
    have few : n = 0 ∨ n = 1 := by
      change n < 2 at bound
      omega
    obtain rfl | rfl := few <;> decide)

/-- A single attempt, made before the first cycle. -/
def first (latD throughputD : BitVec 32) (memoryWindow : Option (BitVec 32)) (tid : Int)
    (asked : WheelRequest) {wheel : WheeledMem} {stalled : Bool}
    (answer : asked.call (construct latD throughputD memoryWindow) 0 tid = .ok (wheel, stalled)) :
    Retry latD throughputD memoryWindow tid asked where
  length := 1
  entry _ := ⟨start latD throughputD memoryWindow, stalled, ⟨wheel, 0⟩⟩
  valid _ _ := ⟨wheel, [], answer, by simp, le_rfl, rfl⟩
  linked _ bound := by omega
  reached := ⟨[], fun _ _ => trivial, rfl⟩
  repeats _ bound := by omega

/-- Thread 1 is granted a word in the cycle in which it first asks for it. -/
theorem latency_uncharged :
    ¬ ∀ (latD throughputD : BitVec 32) (memoryWindow : Option (BitVec 32)) (tid : Int)
      (asked : WheelRequest) (r : Retry latD throughputD memoryWindow tid asked),
      1 ≤ latD.toInt → 0 ≤ throughputD.toInt → 1 ≤ asked.numWords.toInt → r.Charged := by
  intro always
  obtain ⟨m, early, _, _, _, charged⟩ := always 14 4 none 1 (.read 0)
    (first 14 4 none 1 (.read 0) rfl) (by decide) (by decide) (by decide) 0 (by decide) rfl
  obtain rfl := Nat.le_zero.mp early
  exact absurd charged (by decide)

end Retry

section

variable {latD throughputD : BitVec 32} {memoryWindow : Option (BitVec 32)}

/-- The request is granted. -/
def grants (entry : WheelStep × WheelState) : Bool :=
  match entry.1 with
  | .request tid asked =>
      match asked.call entry.2.wheel entry.2.cycles tid with
      | .ok (_, stalled) => !stalled
      | .error _ => false
  | .behavior => false
  | .cycleCounter => false

/-- The request comes in a cycle in which its thread may start an access. -/
def isAdmitted (latD window : BitVec 32) (entry : WheelStep × WheelState) : Bool :=
  match entry.1 with
  | .request tid _ => admits latD window entry.2.cycles tid
  | .behavior => false
  | .cycleCounter => false

def windowIndex (window : BitVec 32) (s : WheelState) : Nat × Nat :=
  (s.elapsed / 2 ^ 32, s.cycles.toNat / window.toNat)

/-- How many of the steps of a run that are taken in one window pass a test. -/
def countIn (window : BitVec 32) (index : Nat × Nat) (test : WheelStep × WheelState → Bool)
    (entries : List (WheelStep × WheelState)) : Nat :=
  entries.countP fun entry => windowIndex window entry.2 == index && test entry

theorem grants_eq {window : BitVec 32} {entry : WheelStep × WheelState}
    (timely : Timely latD throughputD window entry.1 entry.2)
    (idle : entry.2.wheel.Idle latD throughputD window) :
    grants entry = isAdmitted latD window entry := by
  obtain ⟨label, s⟩ := entry
  cases label with
  | request tid asked =>
      obtain ⟨fault, fails⟩ | ⟨wheel, answer, _⟩ := WheelRequest.call_idle idle asked timely
      · have closed : admits latD window s.cycles tid = false := by
          rw [admits, fault, Bool.false_and]
        simp [grants, isAdmitted, fails, closed]
      · simp [grants, isAdmitted, answer]
  | behavior => rfl
  | cycleCounter => rfl

/-- A window serves one access at most exactly if at most one is asked for in time. -/
theorem one_access_iff (labels : List WheelStep)
    (timely : ∀ entry ∈ Transition.trail step labels (start latD throughputD memoryWindow),
      Timely latD throughputD (windowOf latD memoryWindow) entry.1 entry.2) (index : Nat × Nat) :
    countIn (windowOf latD memoryWindow) index grants
        (Transition.trail step labels (start latD throughputD memoryWindow)) ≤ 1 ↔
      countIn (windowOf latD memoryWindow) index (isAdmitted latD (windowOf latD memoryWindow))
        (Transition.trail step labels (start latD throughputD memoryWindow)) ≤ 1 := by
  have idle := Transition.holds_trail step
    (fun s => s.wheel.Idle latD throughputD (windowOf latD memoryWindow))
    (Timely latD throughputD (windowOf latD memoryWindow)) (fun _ _ _ => step_idle)
    (s := start latD throughputD memoryWindow)
    (WheeledMem.construct_idle latD throughputD memoryWindow) timely
  have same : countIn (windowOf latD memoryWindow) index grants
        (Transition.trail step labels (start latD throughputD memoryWindow)) =
      countIn (windowOf latD memoryWindow) index (isAdmitted latD (windowOf latD memoryWindow))
        (Transition.trail step labels (start latD throughputD memoryWindow)) := by
    apply List.countP_congr
    intro entry member
    rw [grants_eq (timely entry member) (idle entry member)]
  rw [same]

/-- Whether the core makes a request in this cycle: the fetch stage asks for the
thread that entered the pipeline a cycle ago and the memory stage for the one of five
cycles ago, while the DMA engine asks for bursts of four words in every cycle. -/
def inCoreSlot (entry : WheelStep × WheelState) : Bool :=
  match entry.1 with
  | .request tid asked =>
      let fetch := (entry.2.cycles.toNat : Int) % 6 == (tid + 1) % 6
      let memory := (entry.2.cycles.toNat : Int) % 6 == (tid + 5) % 6
      match asked with
      | .read _ => fetch || memory
      | .write _ _ => memory
      | .readBurst _ numWords => numWords == 4
  | .behavior => true
  | .cycleCounter => true

theorem timely_of_inCoreSlot {entry : WheelStep × WheelState} (slot : inCoreSlot entry = true) :
    Timely 14 4 (windowOf 14 none) entry.1 entry.2 := by
  obtain ⟨label, s⟩ := entry
  cases label with
  | request tid asked =>
      have sizes : asked.numWords = 1 ∨ asked.numWords = 4 := by
        cases asked with
        | read addr => exact .inl rfl
        | write addr data => exact .inl rfl
        | readBurst startAddr numWords => exact .inr (beq_iff_eq.mp slot)
      intro _
      obtain one | four := sizes
      · rw [one]
        decide
      · rw [four]
        decide
  | behavior => trivial
  | cycleCounter => trivial

/-- In the second window of thread 1, a load in its first cycle and a fetch when it is too late
for one. -/
def loadAndStall : List WheelStep :=
  Retry.pause 114 ++ .request 1 (.read 0x1000) :: Retry.pause 8 ++ [.request 1 (.read 4)]

theorem one_access_iff_load :
    countIn (windowOf 14 none) (0, 6) grants
        (Transition.trail step loadAndStall (start 14 4 none)) ≤ 1 ∧
      countIn (windowOf 14 none) (0, 6) (isAdmitted 14 (windowOf 14 none))
        (Transition.trail step loadAndStall (start 14 4 none)) = 1 := by
  have slots : (Transition.trail step loadAndStall (start 14 4 none)).all inCoreSlot = true := by
    decide +kernel
  have timely := fun entry member => timely_of_inCoreSlot (List.all_eq_true.mp slots entry member)
  exact ⟨(one_access_iff loadAndStall timely (0, 6)).mpr (by decide +kernel), by decide +kernel⟩

def loadAndFetch : List WheelStep :=
  Retry.pause 114 ++ [.behavior, .request 1 (.read 0x1000), .cycleCounter, .behavior, .cycleCounter,
    .behavior, .request 1 (.read 4)]

/-- A load and the fetch after it are granted two cycles apart. -/
theorem two_accesses :
    ¬ ∀ (labels : List WheelStep) (index : Nat × Nat), (∀ entry ∈
        Transition.trail step labels (start 14 4 none), inCoreSlot entry = true) →
      countIn (windowOf 14 none) index grants
        (Transition.trail step labels (start 14 4 none)) ≤ 1 := by
  intro always
  have slots : (Transition.trail step loadAndFetch (start 14 4 none)).all inCoreSlot = true := by
    decide +kernel
  have served := always loadAndFetch (0, 6) (List.all_eq_true.mp slots)
  exact absurd served (by decide +kernel)

theorem latD_toNat (positive : 1 ≤ latD.toInt) : 1 ≤ latD.toNat ∧ latD.toNat < 2 ^ 31 := by
  rw [BitVec.toInt_eq_toNat_cond] at positive
  have bound := latD.isLt
  split at positive <;> omega

theorem windowOf_none (positive : 1 ≤ latD.toInt) :
    (latD.toNat + 5 < 2 ^ 31 ∧ (windowOf latD none).toNat = (latD.toNat + 5) / 6 * 6 + 1) ∨
      (windowOf latD none).toNat = 2 ^ 31 + 3 ∨ (windowOf latD none).toNat = 2 ^ 31 + 9 := by
  obtain ⟨_, unsigned⟩ := latD_toNat positive
  by_cases fits : latD.toNat + 5 < 2 ^ 31
  · refine .inl ⟨fits, ?_⟩
    have sum : (latD + BitVec.ofNat 32 6 - 1).toNat = latD.toNat + 5 := by
      change (2 ^ 32 - 1 + (latD.toNat + 6) % 2 ^ 32) % 2 ^ 32 = _
      omega
    have quotient : ((latD + BitVec.ofNat 32 6 - 1).sdiv (BitVec.ofNat 32 6)).toNat =
        (latD.toNat + 5) / 6 := by
      have forward : (latD + BitVec.ofNat 32 6 - 1).msb = false := by
        rw [BitVec.msb_eq_false_iff_two_mul_lt, sum]
        omega
      rw [BitVec.sdiv_eq, forward, show (BitVec.ofNat 32 6).msb = false by decide]
      change (latD + BitVec.ofNat 32 6 - 1).toNat / 6 = _
      rw [sum]
    change (_ * 6 % 2 ^ 32 + 1) % 2 ^ 32 = _
    rw [quotient]
    omega
  · right
    have known : latD = 0x7FFFFFFB ∨ latD = 0x7FFFFFFC ∨ latD = 0x7FFFFFFD ∨
        latD = 0x7FFFFFFE ∨ latD = 0x7FFFFFFF := by
      simp only [← BitVec.toNat_inj]
      change latD.toNat = 2147483643 ∨ latD.toNat = 2147483644 ∨ latD.toNat = 2147483645 ∨
        latD.toNat = 2147483646 ∨ latD.toNat = 2147483647
      omega
    obtain rfl | rfl | rfl | rfl | rfl := known <;> decide

theorem latD_lt_windowOf (positive : 1 ≤ latD.toInt) :
    latD.toNat < (windowOf latD none).toNat := by
  obtain ⟨_, unsigned⟩ := latD_toNat positive
  obtain ⟨_, length⟩ | length | length := windowOf_none positive <;> omega

theorem divides_none (positive : 1 ≤ latD.toInt) (cycles : BitVec 32) :
    (WheeledMem.createWindow latD 0 (windowOf latD none)).divides cycles = true := by
  have lengths := windowOf_none positive
  generalize windowOf latD none = window at lengths ⊢
  have odd : window.toNat % 2 = 1 := by
    obtain ⟨_, length⟩ | length | length := lengths <;> omega
  have rotates : window * BitVec.ofNat 32 numThreads ≠ 0 := by
    intro zero
    have whole : window.toNat * 6 % 2 ^ 32 = 0 := congrArg BitVec.toNat zero
    have quarter : window.toNat * 6 % 4 = 0 := by
      rw [← Nat.mod_mod_of_dvd _ (show 4 ∣ 2 ^ 32 by decide), whole]
    clear lengths zero whole
    omega
  have forward : window ≠ -1 := by
    rintro rfl
    change (_ ∧ 2 ^ 32 - 1 = _) ∨ 2 ^ 32 - 1 = 2 ^ 31 + 3 ∨ 2 ^ 32 - 1 = 2 ^ 31 + 9 at lengths
    omega
  rw [WheeledMem.divides, WheeledMem.createWindow, bne_iff_ne.mpr rotates,
    beq_eq_false_iff_ne.mpr forward]
  rfl

def left (latD : BitVec 32) (s : WheelState) : Nat :=
  (windowOf latD none).toNat - s.cycles.toNat % (windowOf latD none).toNat

/-- A granted access fits what is left of the window. -/
def Fits (latD throughputD : BitVec 32) (s : WheelState) (tid : Int) (asked : WheelRequest) : Prop :=
  ∀ wheel, asked.call s.wheel s.cycles tid = .ok (wheel, false) →
    ((s.cycles.toNat % (windowOf latD none).toNat : Nat) : Int) +
      trueDelay latD throughputD asked.numWords ≤ (windowOf latD none).toNat

/-- The request comes in its thread's window while a single word still fits but so many words do
not, and their delay does not overflow to less than one cycle; or it finds a delay in progress
that has overflowed and has been counted down to a positive number. -/
def ComesLate (latD throughputD : BitVec 32) (s : WheelState) (tid : Int) (asked : WheelRequest) :
    Prop :=
  tid = s.wheel.currentThread s.cycles ∧
    left latD s < trueDelay latD throughputD asked.numWords ∧
    if s.wheel.accessing then
      s.wheel.requestedAddr = asked.addr ∧ 0 < s.wheel.remainingCycles.toInt
    else latD.toNat ≤ left latD s ∧ 0 < (delay latD throughputD asked.numWords).toInt

instance (latD throughputD : BitVec 32) (s : WheelState) (tid : Int) (asked : WheelRequest) :
    Decidable (ComesLate latD throughputD s tid asked) :=
  inferInstanceAs (Decidable (_ ∧ _ ∧ if s.wheel.accessing then _ else _))

theorem isScheduled_iff (positive : 1 ≤ latD.toInt) {s : WheelState} {acc : AccessorType}
    (made : s.wheel.Made latD throughputD (windowOf latD none)) (tid : Int) :
    s.wheel.isScheduled s.cycles acc tid = true ↔
      tid = s.wheel.currentThread s.cycles ∧ latD.toNat ≤ left latD s := by
  have shorter := latD_lt_windowOf positive
  have inside : s.cycles.toNat % (windowOf latD none).toNat < (windowOf latD none).toNat :=
    Nat.mod_lt _ (by omega)
  have room : (windowOf latD none - latD).toNat = (windowOf latD none).toNat - latD.toNat :=
    BitVec.toNat_sub_of_le shorter.le
  by_cases turn : tid = s.wheel.currentThread s.cycles
  · rw [WheeledMem.isScheduled, if_neg (not_not.mpr turn), made.getDelay, made.memoryWindow,
      WheeledMem.delay_word, decide_eq_true_iff, BitVec.le_def, BitVec.toNat_umod, room, left]
    simp only [turn, true_and]
    omega
  · rw [WheeledMem.isScheduled, if_pos turn]
    simp [turn]

/-- A granted access fits exactly if it does not come late. -/
theorem access_fits_iff (positive : 1 ≤ latD.toInt) {s : WheelState}
    (reached : s.Reachable (fun label _ => label.Proper) latD throughputD none) (tid : Int)
    (asked : WheelRequest) :
    Fits latD throughputD s tid asked ↔ ¬ ComesLate latD throughputD s tid asked := by
  have made := reached.made
  have divides : s.wheel.divides s.cycles = true := by
    rw [made.divides, divides_none positive]
  have inside : s.cycles.toNat % (windowOf latD none).toNat < (windowOf latD none).toNat :=
    Nat.mod_lt _ (by have shorter := latD_lt_windowOf positive; omega)
  have opened : s.wheel.Opens s.cycles tid asked ↔ tid = s.wheel.currentThread s.cycles ∧
      if s.wheel.accessing then
        s.wheel.requestedAddr = asked.addr ∧ 0 < s.wheel.remainingCycles.toInt
      else latD.toNat ≤ left latD s ∧ 0 < (delay latD throughputD asked.numWords).toInt := by
    rw [WheeledMem.Opens, isScheduled_iff positive made, made.getDelay]
    cases s.wheel.accessing <;> simp [divides, and_assoc]
  constructor
  · rintro fits ⟨turn, short, passes⟩
    obtain ⟨wheel, granted⟩ := opens_iff.mp (opened.mpr ⟨turn, passes⟩)
    have fitting := fits wheel granted
    unfold left at short
    omega
  · intro inTime wheel granted
    obtain ⟨turn, passes⟩ := opened.mp (opens_iff.mpr ⟨wheel, granted⟩)
    by_contra late
    refine inTime ⟨turn, ?_, passes⟩
    unfold left
    omega

/-- A burst of four words in the third cycle of its window, on a wheel that is fast enough. -/
theorem access_fits_iff_burst :
    (∃ wheel, (WheelRequest.readBurst 0x200 4).call (construct 1 1 none) 2 1 = .ok (wheel, false)) ∧
      Fits 1 1 ⟨construct 1 1 none, 2⟩ 1 (.readBurst 0x200 4) :=
  ⟨⟨_, rfl⟩, (access_fits_iff (by decide) ⟨Retry.pause 2, by decide +kernel, rfl⟩ 1 _).mpr
    (by decide)⟩

/-- A burst of four words is granted in a window that is too short for it. -/
theorem burst_overruns :
    ¬ ∀ (latD throughputD : BitVec 32) (s : WheelState) (tid : Int) (asked : WheelRequest),
      1 ≤ latD.toInt → 0 ≤ throughputD.toInt →
      s.Reachable (fun label _ => label.Proper) latD throughputD none → 1 ≤ asked.numWords.toInt →
      Fits latD throughputD s tid asked := by
  intro always
  have fits := always 14 4 (start 14 4 none) 1 (.readBurst 0 4) (by decide) (by decide)
    ⟨[], by simp, rfl⟩ (by decide) _ rfl
  exact absurd fits (by decide)

end

end WheelState

end PretIss
