import PretIss.Library.Transition
import PretIss.Model.WheeledMem

/-! The wheel under any interleaving of requests, cycle by cycle. A request that sets
up an access of a positive delay is answered before a cycle has passed, and then no access
is in progress: the wheel does not assert, and its answer depends on the cycle and the
thread alone. A delay that overflows stays in progress instead. -/

namespace PretIss

/-- The three calls that ask for an access. -/
inductive WheelRequest where
  | read (addr : Word)
  | write (addr data : Word)
  | readBurst (startAddr : Word) (numWords : BitVec 32)

namespace WheelRequest

def addr : WheelRequest → Word
  | .read addr => addr
  | .write addr _ => addr
  | .readBurst startAddr _ => startAddr

def numWords : WheelRequest → BitVec 32
  | .read _ => 1
  | .write _ _ => 1
  | .readBurst _ numWords => numWords

def accessor : WheelRequest → AccessorType
  | .read _ => .global
  | .write _ _ => .global
  | .readBurst _ _ => .burst

/-- The wheel after the call, and whether it reports a stall. -/
def call (w : WheeledMem) (cycles : BitVec 32) (tid : Int) :
    WheelRequest → Except Halt (WheeledMem × Bool)
  | .read addr => do
      let (w, _, stalled) ← w.read cycles tid addr
      return (w, stalled)
  | .write addr data => w.write cycles tid addr data
  | .readBurst startAddr numWords => do
      let (w, _, stalled) ← w.readBurst cycles tid startAddr numWords
      return (w, stalled)

def stored (mem : MemoryUnit) (stalled : Bool) : WheelRequest → MemoryUnit
  | .read _ => mem
  | .write addr data => if stalled then mem else mem.addAddress addr data
  | .readBurst _ _ => mem

theorem call_eq (w : WheeledMem) (cycles : BitVec 32) (tid : Int) (asked : WheelRequest) :
    asked.call w cycles tid =
      (w.isStalledHelper cycles asked.accessor tid asked.addr asked.numWords).map
        fun answer => ({ answer.1 with mem := asked.stored answer.1.mem answer.2 }, answer.2) := by
  cases asked with
  | read addr =>
      change (w.read cycles tid addr >>= _) = (w.isStalled cycles tid addr).map _
      rw [WheeledMem.read]
      cases w.isStalled cycles tid addr <;> rfl
  | write addr data =>
      change w.write cycles tid addr data = (w.isStalled cycles tid addr).map _
      rw [WheeledMem.write]
      cases w.isStalled cycles tid addr with
      | error _ => rfl
      | ok answer =>
          obtain ⟨next, stalled⟩ := answer
          cases stalled <;> rfl
  | readBurst startAddr numWords =>
      change (w.readBurst cycles tid startAddr numWords >>= _) =
        (w.isStalledBurst cycles tid startAddr numWords).map _
      rw [WheeledMem.readBurst]
      cases w.isStalledBurst cycles tid startAddr numWords <;> rfl

end WheelRequest

/-- What can happen to a wheel: a request of a thread, a call of `behavior`, and the
next cycle. -/
inductive WheelStep where
  | request (tid : Int) (asked : WheelRequest)
  | behavior
  | cycleCounter

/-- A burst is of one word at least. -/
def WheelStep.Proper : WheelStep → Prop
  | .request _ asked => 1 ≤ asked.numWords.toInt
  | .behavior => True
  | .cycleCounter => True

/-- A wheel and the cycles that have passed; the counter holds the last 32 bits of
their number. -/
structure WheelState where
  wheel : WheeledMem
  elapsed : Nat

namespace WheelState

def cycles (s : WheelState) : BitVec 32 := BitVec.ofNat 32 s.elapsed

def step : WheelStep → WheelState → Except Halt WheelState
  | .request tid asked, s => do
      let (wheel, _) ← asked.call s.wheel s.cycles tid
      return { s with wheel }
  | .behavior, s => .ok { s with wheel := s.wheel.behavior }
  | .cycleCounter, s => .ok { s with elapsed := s.elapsed + 1 }

end WheelState

namespace WheeledMem

/-- What either constructor makes: the first is given the window, the second takes
the smallest one that fits. -/
def construct (latD throughputD : BitVec 32) : Option (BitVec 32) → WheeledMem
  | some memoryWindow => createWindow latD throughputD memoryWindow
  | none => create latD throughputD

/-- The window of a wheel, by the constructor that makes it. -/
def windowOf (latD : BitVec 32) : Option (BitVec 32) → BitVec 32
  | some memoryWindow => memoryWindow
  | none => roundUp latD (BitVec.ofNat 32 numThreads) + 1

/-- The delay of an access, as the `int` that the wheel counts down. -/
def delay (latD throughputD numWords : BitVec 32) : BitVec 32 := latD + throughputD * (numWords - 1)

theorem delay_word (latD throughputD : BitVec 32) : delay latD throughputD 1 = latD := by
  rw [delay, BitVec.sub_self, BitVec.mul_zero, BitVec.add_zero]

structure Made (latD throughputD window : BitVec 32) (w : WheeledMem) : Prop where
  latD : w.latD = latD
  throughputD : w.throughputD = throughputD
  memoryWindow : w.memoryWindow = window

structure Idle (latD throughputD window : BitVec 32) (w : WheeledMem) : Prop
    extends Made latD throughputD window w where
  accessing : w.accessing = false

variable {latD throughputD window : BitVec 32} {w w' : WheeledMem}

theorem construct_idle (latD throughputD : BitVec 32) (memoryWindow : Option (BitVec 32)) :
    (construct latD throughputD memoryWindow).Idle latD throughputD
      (windowOf latD memoryWindow) := by
  cases memoryWindow with
  | some memoryWindow => exact ⟨⟨rfl, rfl, rfl⟩, rfl⟩
  | none =>
      refine ⟨⟨rfl, rfl, ?_⟩, rfl⟩
      change roundUp (delay latD throughputD 1) _ + 1 = _
      rw [delay_word]
      rfl

def admits (latD window : BitVec 32) (cycles : BitVec 32) (tid : Int) : Bool :=
  (createWindow latD 0 window).divides cycles &&
    (createWindow latD 0 window).isScheduled cycles .global tid

theorem Made.getDelay (made : w.Made latD throughputD window) (acc : AccessorType)
    (numWords : BitVec 32) : w.getDelay acc numWords = delay latD throughputD numWords := by
  rw [WheeledMem.getDelay, made.latD, made.throughputD]
  rfl

theorem Made.divides (made : w.Made latD throughputD window) (cycles : BitVec 32) :
    w.divides cycles = (createWindow latD 0 window).divides cycles := by
  simp only [WheeledMem.divides, windowCycle, made.memoryWindow, createWindow]

theorem Made.currentThread (made : w.Made latD throughputD window) (cycles : BitVec 32) :
    w.currentThread cycles = (createWindow latD 0 window).currentThread cycles := by
  simp only [WheeledMem.currentThread, windowCycle, made.memoryWindow, createWindow]

theorem Made.isScheduled (made : w.Made latD throughputD window) (cycles : BitVec 32)
    (acc : AccessorType) (tid : Int) :
    w.isScheduled cycles acc tid = (createWindow latD 0 window).isScheduled cycles .global tid := by
  have alone : delay latD throughputD maxWords = delay latD 0 maxWords := by
    rw [delay_word, delay_word]
  simp only [WheeledMem.isScheduled, made.currentThread, made.getDelay, made.memoryWindow, alone]
  rfl

theorem currentThread_of_scheduled {cycles : BitVec 32} {acc : AccessorType} {tid : Int}
    (scheduled : w.isScheduled cycles acc tid = true) : tid = w.currentThread cycles := by
  by_contra other
  rw [WheeledMem.isScheduled, if_pos other] at scheduled
  cases scheduled

theorem sle_zero_eq_false (x : BitVec 32) : x.sle 0#32 = false ↔ 0 < x.toInt := by
  rw [BitVec.sle_eq_decide, decide_eq_false_iff_not, not_le]
  rfl

end WheeledMem

namespace WheelRequest

open WheeledMem (Made Idle admits delay createWindow)

variable {latD throughputD window : BitVec 32} {w w' : WheeledMem} {cycles : BitVec 32} {tid : Int}
  {asked : WheelRequest} {stalled : Bool}

theorem call_fault (fault : w.divides cycles = false) :
    asked.call w cycles tid = .error .arithmeticException := by
  rw [call_eq, WheeledMem.isStalledHelper, fault]
  rfl

theorem call_unscheduled (divides : w.divides cycles = true) (idle : w.accessing = false)
    (closed : w.isScheduled cycles asked.accessor tid = false) :
    asked.call w cycles tid = .ok (w, true) := by
  have answer : w.isStalledHelper cycles asked.accessor tid asked.addr asked.numWords =
      .ok (w, true) := by
    simp [WheeledMem.isStalledHelper, divides, closed, idle, pure, Except.pure]
  rw [call_eq, answer]
  cases asked <;> rfl

theorem call_scheduled (divides : w.divides cycles = true) (idle : w.accessing = false)
    (opened : w.isScheduled cycles asked.accessor tid = true) :
    asked.call w cycles tid =
      let waits := (w.getDelay asked.accessor asked.numWords).sle 0
      .ok ({ w with
        remainingCycles := w.getDelay asked.accessor asked.numWords
        requestedAddr := asked.addr
        accessing := waits
        mem := asked.stored w.mem waits }, waits) := by
  have turn := WheeledMem.currentThread_of_scheduled opened
  have answer : w.isStalledHelper cycles asked.accessor tid asked.addr asked.numWords =
      .ok ({ w with
        remainingCycles := w.getDelay asked.accessor asked.numWords
        requestedAddr := asked.addr
        accessing := (w.getDelay asked.accessor asked.numWords).sle 0 },
        (w.getDelay asked.accessor asked.numWords).sle 0) := by
    simp [WheeledMem.isStalledHelper, divides, ← turn, opened, idle, pure, Except.pure]
  rw [call_eq, answer]
  rfl

theorem call_own (divides : w.divides cycles = true) (busy : w.accessing = true)
    (turn : tid = w.currentThread cycles) (same : w.requestedAddr = asked.addr) :
    asked.call w cycles tid =
      .ok ({ w with
        accessing := w.remainingCycles.sle 0
        mem := asked.stored w.mem (w.remainingCycles.sle 0) }, w.remainingCycles.sle 0) := by
  have answer : w.isStalledHelper cycles asked.accessor tid asked.addr asked.numWords =
      .ok ({ w with accessing := w.remainingCycles.sle 0 }, w.remainingCycles.sle 0) := by
    simp [WheeledMem.isStalledHelper, divides, ← turn, busy, same, pure, Except.pure]
  rw [call_eq, answer]
  rfl

theorem call_other (divides : w.divides cycles = true) (busy : w.accessing = true)
    (other : ¬ (tid = w.currentThread cycles ∧ w.requestedAddr = asked.addr)) :
    asked.call w cycles tid = .error .assertionFailed := by
  have answer : w.isStalledHelper cycles asked.accessor tid asked.addr asked.numWords =
      .error .assertionFailed := by
    by_cases turn : tid = w.currentThread cycles
    · have apart : w.requestedAddr ≠ asked.addr := fun same => other ⟨turn, same⟩
      simp [WheeledMem.isStalledHelper, divides, ← turn, busy, apart, bind, Except.bind, throw,
        throwThe, MonadExceptOf.throw]
    · simp [WheeledMem.isStalledHelper, divides, turn, busy, bind, Except.bind, throw, throwThe,
        MonadExceptOf.throw]
  rw [call_eq, answer]
  rfl

theorem call_idle (idle : w.Idle latD throughputD window) (asked : WheelRequest)
    (timely : admits latD window cycles tid = true →
      0 < (delay latD throughputD asked.numWords).toInt) :
    ((createWindow latD 0 window).divides cycles = false ∧
        asked.call w cycles tid = .error .arithmeticException) ∨
      ∃ w', asked.call w cycles tid = .ok (w', !admits latD window cycles tid) ∧
        w'.Idle latD throughputD window := by
  cases divides : (createWindow latD 0 window).divides cycles with
  | false => exact .inl ⟨rfl, call_fault ((idle.divides cycles).trans divides)⟩
  | true =>
      have goes := (idle.divides cycles).trans divides
      have admitted : admits latD window cycles tid = w.isScheduled cycles asked.accessor tid := by
        rw [admits, divides, Bool.true_and, idle.isScheduled]
      rw [admitted] at timely ⊢
      cases opened : w.isScheduled cycles asked.accessor tid with
      | false => exact .inr ⟨w, call_unscheduled goes idle.accessing opened, idle⟩
      | true =>
          have passed : (delay latD throughputD asked.numWords).sle 0 = false :=
            (WheeledMem.sle_zero_eq_false _).mpr (timely opened)
          have answer := call_scheduled goes idle.accessing opened
          rw [idle.getDelay, passed] at answer
          exact .inr ⟨_, answer, ⟨idle.latD, idle.throughputD, idle.memoryWindow⟩, rfl⟩

end WheelRequest

namespace WheeledMem

variable {latD throughputD window : BitVec 32} {w : WheeledMem}

theorem Made.behavior (made : w.Made latD throughputD window) :
    w.behavior.Made latD throughputD window := by
  unfold WheeledMem.behavior
  split
  · exact ⟨made.latD, made.throughputD, made.memoryWindow⟩
  · exact made

theorem behavior_accessing (w : WheeledMem) : w.behavior.accessing = w.accessing := by
  unfold WheeledMem.behavior
  split <;> rfl

theorem Idle.behavior (idle : w.Idle latD throughputD window) :
    w.behavior.Idle latD throughputD window :=
  ⟨idle.toMade.behavior, (behavior_accessing w).trans idle.accessing⟩

end WheeledMem

namespace WheelState

open WheeledMem (construct windowOf Made Idle admits delay)

variable {latD throughputD window : BitVec 32}

/-- A wheel as it is constructed, before the first cycle. -/
def start (latD throughputD : BitVec 32) (memoryWindow : Option (BitVec 32)) : WheelState where
  wheel := construct latD throughputD memoryWindow
  elapsed := 0

/-- A request that its thread may start has a delay that is a positive `int`. -/
def Timely (latD throughputD window : BitVec 32) (label : WheelStep) (s : WheelState) : Prop :=
  match label with
  | .request tid asked => admits latD window s.cycles tid = true →
      0 < (delay latD throughputD asked.numWords).toInt
  | .behavior => True
  | .cycleCounter => True

instance (label : WheelStep) (s : WheelState) :
    Decidable (Timely latD throughputD window label s) :=
  match label with
  | .request tid asked => inferInstanceAs (Decidable (admits latD window s.cycles tid = true →
      0 < (delay latD throughputD asked.numWords).toInt))
  | .behavior => .isTrue trivial
  | .cycleCounter => .isTrue trivial

instance (label : WheelStep) : Decidable label.Proper :=
  match label with
  | .request _ asked => inferInstanceAs (Decidable (1 ≤ asked.numWords.toInt))
  | .behavior => .isTrue trivial
  | .cycleCounter => .isTrue trivial

/-- What a run of such steps can make of a constructed wheel. -/
def Reachable (allowed : WheelStep → WheelState → Prop) (latD throughputD : BitVec 32)
    (memoryWindow : Option (BitVec 32)) (s : WheelState) : Prop :=
  ∃ labels : List WheelStep,
    (∀ entry ∈ Transition.trail step labels (start latD throughputD memoryWindow),
      allowed entry.1 entry.2) ∧
    Transition.run step labels (start latD throughputD memoryWindow) = .ok s

theorem step_request {tid : Int} {asked : WheelRequest} {s s' : WheelState}
    (steps : step (.request tid asked) s = .ok s') :
    ∃ stalled, asked.call s.wheel s.cycles tid = .ok (s'.wheel, stalled) ∧ s'.elapsed = s.elapsed := by
  obtain ⟨⟨wheel, stalled⟩, answer, steps⟩ := Transition.bind_eq_ok.mp steps
  obtain rfl := Except.ok.inj steps
  exact ⟨stalled, answer, rfl⟩

theorem step_idle {label : WheelStep} {s s' : WheelState}
    (timely : Timely latD throughputD window label s)
    (idle : s.wheel.Idle latD throughputD window) (steps : step label s = .ok s') :
    s'.wheel.Idle latD throughputD window := by
  cases label with
  | request tid asked =>
      obtain ⟨stalled, answer, _⟩ := step_request steps
      obtain ⟨_, fails⟩ | ⟨wheel, again, kept⟩ := WheelRequest.call_idle idle asked timely
      · rw [answer] at fails
        cases fails
      · rw [answer] at again
        exact (Prod.mk.inj (Except.ok.inj again)).1 ▸ kept
  | behavior =>
      obtain rfl := Except.ok.inj steps
      exact idle.behavior
  | cycleCounter =>
      obtain rfl := Except.ok.inj steps
      exact idle

theorem step_idle_error {label : WheelStep} {s : WheelState} {halt : Halt}
    (timely : Timely latD throughputD window label s)
    (idle : s.wheel.Idle latD throughputD window) (fails : step label s = .error halt) :
    halt = .arithmeticException := by
  cases label with
  | request tid asked =>
      obtain ⟨_, known⟩ | ⟨wheel, answer, _⟩ := WheelRequest.call_idle idle asked timely
      · simp only [step, known, bind, Except.bind] at fails
        exact (Except.error.inj fails).symm
      · simp [step, answer, bind, Except.bind, pure, Except.pure] at fails
  | behavior => cases fails
  | cycleCounter => cases fails

theorem run_idle {labels : List WheelStep} {s s' : WheelState}
    (timely : ∀ entry ∈ Transition.trail step labels s,
      Timely latD throughputD window entry.1 entry.2)
    (idle : s.wheel.Idle latD throughputD window) (runs : Transition.run step labels s = .ok s') :
    s'.wheel.Idle latD throughputD window :=
  Transition.invariant_run step (fun s => s.wheel.Idle latD throughputD window)
    (Timely latD throughputD window) (fun _ _ _ => step_idle) idle timely runs

theorem Reachable.idle {memoryWindow : Option (BitVec 32)} {s : WheelState}
    (reached : s.Reachable (Timely latD throughputD (windowOf latD memoryWindow)) latD throughputD
      memoryWindow) : s.wheel.Idle latD throughputD (windowOf latD memoryWindow) := by
  obtain ⟨labels, timely, runs⟩ := reached
  exact run_idle timely (WheeledMem.construct_idle latD throughputD memoryWindow) runs

/-- The assertions of the wheel are not reached, whatever is asked of it and in whatever
order, as long as no delay that overflows is started. -/
theorem wheel_assertions_hold (latD throughputD : BitVec 32) (memoryWindow : Option (BitVec 32))
    (labels : List WheelStep)
    (timely : ∀ entry ∈ Transition.trail step labels (start latD throughputD memoryWindow),
      Timely latD throughputD (windowOf latD memoryWindow) entry.1 entry.2) :
    Transition.run step labels (start latD throughputD memoryWindow) ≠ .error .assertionFailed := by
  intro fails
  have known := Transition.error_run step
    (fun s => s.wheel.Idle latD throughputD (windowOf latD memoryWindow))
    (Timely latD throughputD (windowOf latD memoryWindow)) (· = .arithmeticException)
    (fun _ _ _ => step_idle) (fun _ _ _ => step_idle_error)
    (WheeledMem.construct_idle latD throughputD memoryWindow) timely fails
  cases known

/-- Two threads that take each other's cycles, one of them with a burst. -/
theorem wheel_assertions_hold_rivals :
    Transition.run step
      [.request 1 (.read 0x100), .request 2 (.write 0x104 7), .behavior, .cycleCounter,
        .request 1 (.readBurst 0x200 4), .behavior, .cycleCounter, .request 1 (.read 0x104)]
      (start 14 4 none) ≠ .error .assertionFailed :=
  wheel_assertions_hold 14 4 none _ (by decide +kernel)

/-- A burst whose delay overflows stays in progress, and the next thread to ask finds it so. -/
theorem overflow_asserts :
    ¬ ∀ (latD throughputD : BitVec 32) (memoryWindow : Option (BitVec 32)) (labels : List WheelStep),
      1 ≤ latD.toInt → 0 ≤ throughputD.toInt → (∀ label ∈ labels, label.Proper) →
      Transition.run step labels (start latD throughputD memoryWindow) ≠
        .error .assertionFailed := by
  intro always
  exact always 14 1000000000 none [.request 1 (.readBurst 0 4), .request 2 (.read 0)] (by decide)
    (by decide) (by decide) rfl

end WheelState

end PretIss
