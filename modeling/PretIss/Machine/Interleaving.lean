import PretIss.Barrier.Accounting
import PretIss.Machine.Execution

/-! The threads of a core as sequential machines that share the memory and the barrier table.
An instruction takes effect on the memory in one call and on the rest in the next, and no other
comes between, so the calls of a core put the instructions of all its threads in one order. -/

namespace PretIss

open Isolation (SameContents)
open Sparc (State Machines isSync memoryOp)

namespace Sparc.Machines

/-- The instruction that a machine has next is one that it executes as the thread does, it comes
from the code, and it stores to none of it. -/
structure Clean (x : Machines) (id : ThreadId) (code : Set Location) : Prop where
  proper : (x.view id).Proper id
  fetch : ∀ location, x.memory.place id (x.contexts id).counters.pc = some location →
    location ∈ code
  store : ∀ operation, memoryOp ((x.view id).word id) = some operation →
    State.loads operation = false → ∀ location, x.memory.place id
      (Mem.alignedAddr ((x.view id).address ((x.view id).word id))) = some location →
        location ∉ code

def isClean (x : Machines) (id : ThreadId) : Bool :=
  let s := x.view id
  let w := s.word id
  (isSync w || Sparc.Ordinary w) && (!Sparc.Ordinary w || decide (s.Tracks w)) &&
    (memoryOp w).all (fun operation => Sparc.inWord operation (Mem.addrOffset (s.address w))) &&
    (s.memory.place id s.counters.pc).isNone

theorem clean_of_isClean {x : Machines} {id : ThreadId} (clean : x.isClean id = true) :
    x.Clean id ∅ := by
  simp only [isClean, Bool.and_eq_true, Bool.or_eq_true, Bool.not_eq_true', decide_eq_true_eq,
    Option.isNone_iff_eq_none] at clean
  obtain ⟨⟨⟨known, tracks⟩, inside⟩, place⟩ := clean
  refine ⟨⟨known, fun ordinary => ?_, (Option.all_eq_true _ _).mp inside⟩, fun location found => ?_,
    fun _ _ _ _ _ => Set.notMem_empty _⟩
  · obtain other | follows := tracks
    · exact absurd (ordinary.symm.trans other) Bool.noConfusion
    · exact follows
  · cases place.symm.trans found

theorem after_concat (x : Machines) (schedule : List ThreadId) (id : ThreadId) :
    x.after (schedule ++ [id]) = (x.after schedule).step id := by
  rw [after, List.foldl_append]
  rfl

theorem meet_memory (x : Machines) (id : ThreadId) : (x.meet id).memory = x.memory := by
  unfold meet
  split <;> rfl

theorem Clean.same {x : Machines} {t u : ThreadId} {code : Set Location} (clean : x.Clean u code)
    (other : u ≠ t) : SameContents t code x.memory (x.step u).memory := by
  unfold step
  split
  · rw [meet_memory]
    exact SameContents.refl _
  · change SameContents t code x.memory ((x.view u).nextMemory u _)
    unfold State.nextMemory
    cases known : memoryOp ((x.view u).word u) with
    | none => exact SameContents.refl _
    | some operation =>
        rw [Option.bind_some]
        cases merged : Sparc.mergedWord operation _ _ _ with
        | none => exact SameContents.refl _
        | some data =>
            have stores : State.loads operation = false := by
              cases operation <;> first | rfl | cases merged
            exact Isolation.put_other x.memory _ data other (clean.store operation known stores)

end Sparc.Machines

theorem Dma.behavior_of_idle {cycles : BitVec 32} {dma : Dma} {mc : MemoryController}
    (idle : ∀ t, dma.transferComplete t ≠ .busy) :
    Dma.behavior cycles dma mc = .ok (dma, mc) := by
  have passes : ∃ final, Dma.behavior cycles dma mc = .ok final ∧ final = (dma, mc) := by
    apply Transition.returns_run _ (fun s => s = (dma, mc)) (fun _ _ => True) _ rfl
      (fun _ _ => trivial)
    intro id s _ same
    refine ⟨s, ?_, same⟩
    simp only [same, Dma.serve, idle, ne_eq, not_false_eq_true, if_true, pure, Except.pure]
  obtain ⟨final, returns, rfl⟩ := passes
  exact returns

theorem HwThread.of_ticks {t : ThreadId} {α : Type} (view : HwThread t → α)
    (blind : ∀ ht : HwThread t, view ht.pllTick = view ht) (ticks : Nat) (ht : HwThread t) :
    view (pllTick^[ticks] ht) = view ht := by
  induction ticks with
  | zero => rfl
  | succ ticks ih => rw [Function.iterate_succ_apply', blind, ih]

/-- A thread has a program, as the controller loads it, or is switched off. -/
def HwThread.Loaded {t : ThreadId} (ht : HwThread t) : Prop :=
  (∃ pc windowReg, ht = .reset t pc windowReg) ∨ ht.enabled = false

namespace Core

variable {t : ThreadId}

theorem held_eq_none {c : Core} : c.held t = none ↔ c.dma.transferComplete t ≠ .busy := by
  unfold held
  split <;> simp_all

section

variable {c d : Core} (b : Between c d)

theorem Between.served_of_idle (idle : ∀ t, c.atEngine.held t = none) : b.served = c.atEngine := by
  have unserved : Dma.behavior c.atEngine.cycles c.atEngine.dma c.atEngine.memoryController =
      .ok (c.atEngine.dma, c.atEngine.memoryController) :=
    Dma.behavior_of_idle fun t => held_eq_none.mp (idle t)
  have runs := b.dmaRuns
  rw [← b.atEngine_eq, dmaController, unserved] at runs
  exact (Except.ok.inj runs).symm

theorem Between.syncTable_last : d.syncTable = b.excepted.syncTable := by
  obtain ⟨_, _, serve, _⟩ := Isolation.dmaController_frame b.dmaRuns
  obtain ⟨_, _, access⟩ := Isolation.memoryStage_frame b.memoryRuns
  obtain ⟨_, execute⟩ := Isolation.executeStage_frame b.accessed
  obtain ⟨_, register⟩ := Isolation.regaccStage_frame b.regaccRuns
  obtain ⟨_, decode⟩ := Isolation.decodeStage_frame b.registered
  obtain ⟨_, _, fetch⟩ := Isolation.fetchStage_frame b.fetchRuns
  calc d.syncTable = b.fetched.syncTable := (congrArg Core.syncTable b.last).trans rfl
    _ = (decodeStage b.registered).syncTable := by rw [fetch]
    _ = b.registered.syncTable := by rw [decode]
    _ = (executeStage b.accessed).syncTable := by rw [register]
    _ = b.accessed.syncTable := by rw [execute]
    _ = b.served.syncTable := by rw [access]
    _ = b.excepted.syncTable := by rw [serve]

end

theorem pllBehavior_syncTable (c : Core) (ticks : Nat) :
    (pllBehavior^[ticks] c).syncTable = c.syncTable := by
  induction ticks generalizing c with
  | zero => rfl
  | succ ticks ih => exact ih (pllBehavior c)

namespace History

def begun (t : ThreadId) (n : Nat) : Nat := n + 1 - (n - t.val) % 6

/-- The machines before the memory stage of a call. -/
def machines (h : History) (n : Nat) : Machines where
  contexts t := (Sparc.stateOf ((h.state (begun t n)).pool t) (h.contents n)).context
  memory := h.contents n
  table := (h.state (n + 1)).syncTable

def turn (h : History) (n : Nat) : Option ThreadId :=
  (h.state n).exToMem.filter ((h.state (n + 1)).commits ·)

def schedule (h : History) (n : Nat) : List ThreadId := (List.range n).filterMap h.turn

theorem schedule_succ (h : History) (n : Nat) :
    h.schedule (n + 1) = h.schedule n ++ (h.turn n).toList := by
  rw [schedule, List.range_succ, List.filterMap_append, List.filterMap_cons, List.filterMap_nil]
  cases h.turn n <;> rfl

variable {h : History}

theorem syncTable_succ {n : Nat} (bound : n < h.length) : ∃ d, ∃ b : Between (h.state n) d,
    (h.state (n + 1)).syncTable = b.excepted.syncTable := by
  obtain ⟨d, ⟨b⟩, ticks, next⟩ := h.call bound
  refine ⟨d, b, ?_⟩
  rw [next, pllBehavior_syncTable, b.syncTable_last]

def Calm (h : History) (n : Nat) : Prop :=
  ∀ t, (h.state n).held t = none ∧ (h.state n).atEngine.held t = none

section

variable (built : (h.state 0).memoryController.mainMem.Constructed) {n : Nat}
  (bound : n < h.length)

include built bound

theorem contents_served (calm : h.Calm n) {d : Core} (b : Between (h.state n) d) :
    b.served.memoryController.contents = h.contents n := by
  have holds := MemoryController.Holds.behavior ⟨rfl, h.built_state built bound.le⟩
  rw [b.served_of_idle fun t => (calm t).2, b.atEngine_eq, b.frames.exceptMemory]
  exact holds.contents

theorem contents_still (calm : h.Calm n) (nobody : (h.state n).exToMem = none) :
    h.contents (n + 1) = h.contents n := by
  obtain ⟨d, ⟨b⟩, _⟩ := h.call bound
  have runs := b.memoryRuns
  have latch := b.frames.exToMem.trans nobody
  rw [memoryStage, latch] at runs
  rw [h.contents_succ built bound b, ← contents_served built bound calm b, ← Except.ok.inj runs]

omit built in
theorem last_still (nobody : (h.state n).memToExcept = none) :
    (h.state (n + 1)).syncTable = (h.state n).syncTable ∧
      ∀ t, (h.state n).atEngine.held t = (h.state n).held t := by
  obtain ⟨d, b, table⟩ := h.syncTable_succ bound
  have runs := b.exceptRuns
  rw [exceptStage, nobody] at runs
  have same := (Except.ok.inj runs).symm
  refine ⟨by rw [table, same], fun t => ?_⟩
  rw [b.atEngine_eq, same]
  rfl

theorem Calm.held_succ (calm : h.Calm n) (t : ThreadId) : (h.state (n + 1)).held t = none := by
  rw [h.held_succ built bound, (calm t).2]
  split <;> rfl

end

section

variable {n : Nat} {p : Pass t MemoryController} (makes : h.Makes n p)

include makes

theorem Makes.ended (bound : n + 5 < h.length) (own : (h.state (n + 5)).Occupies t 5) :
    p.syncTable = (h.state (n + 6)).syncTable ∧ (p.dma = p.round.dma →
      ∀ u, (h.state (n + 5)).atEngine.held u = (h.state (n + 5)).held u) := by
  obtain ⟨d, b, table⟩ := h.syncTable_succ bound
  obtain ⟨ht, runs, _⟩ := makes.valid.except
  have stage := exceptStage_at b.exceptRuns own.own
  rw [← makes.arrived, ← makes.syncTable, ← makes.dma, runs] at stage
  simp only [Except.ok.injEq, Prod.mk.injEq] at stage
  obtain ⟨_, syncTable, dma⟩ := stage
  refine ⟨syncTable.trans table.symm, fun still u => ?_⟩
  rw [b.atEngine_eq, held, held, ← makes.dma, ← still, dma]

theorem Makes.commits_eq (latch : (h.state (n + 5)).memToExcept = some t) :
    (h.state (n + 5)).commits t = p.commits := by
  rw [Core.commits, Pass.commits, latch, makes.arrived]
  simp

theorem Makes.fetch_holds (built : (h.state 0).memoryController.mainMem.Constructed)
    (bound : n < h.length) : p.round.fetchMemory.Holds (h.contents (n + 1)) := by
  obtain ⟨d, b, same⟩ := makes.fetchMemory
  rw [same, h.contents_succ built bound b]
  exact ⟨rfl, b.built_accessed (h.built_state built bound.le)⟩

theorem Makes.memory_holds (built : (h.state 0).memoryController.mainMem.Constructed)
    (bound : n + 4 < h.length) (calm : h.Calm (n + 4)) :
    p.round.memory.Holds (h.contents (n + 4)) := by
  obtain ⟨d, b, same⟩ := makes.memory
  rw [same, ← contents_served built bound calm b]
  exact ⟨rfl, b.built_served (h.built_state built bound.le)⟩

end

/-- What a core with a program on some threads is before its memory stage in a call. -/
structure Serial (h : History) (code : Set Location) (n : Nat) : Prop where
  refines : h.machines n = (h.machines 0).after (h.schedule n)
  calm : h.Calm n
  enabled : ∀ t, ((h.state (begun t n)).pool t).enabled = ((h.state 0).pool t).enabled
  steady : ∀ t, ((h.state 0).pool t).enabled = true → ((h.state (begun t n)).pool t).Steady
  keeps : ∀ t, ((h.state 0).pool t).enabled = true →
    Fetch.isHeld ((h.state (begun t n)).pool t) = true →
      ((h.state (begun t n)).pool t).Keeps (((h.machines n).view t).word t)
  spares : ∀ m, m < n → ∀ t, (h.state m).exToMem ≠ some t →
    SameContents t code (h.contents m) (h.contents (m + 1))

theorem ticked_until_fetch (short : h.length ≤ 2 ^ 32) {n : Nat} (early : n ≤ t.val + 1)
    (bound : n ≤ h.length) : ∃ ticks, (h.state n).pool t = HwThread.pllTick^[ticks] ((h.state 0).pool t) := by
  induction n with
  | zero => exact ⟨0, rfl⟩
  | succ n ih =>
      obtain ⟨d, ⟨b⟩, ticks, next⟩ := h.call (n := n) (by omega)
      obtain ⟨before, same⟩ := ih (by omega) (by omega)
      refine ⟨ticks + before, ?_⟩
      rw [next, pool_pllBehavior, b.idle (h.nowhere short (by omega) (by omega)), same,
        Function.iterate_add_apply]

theorem begun_cases (short : h.length ≤ 2 ^ 32) {n : Nat} (bound : n ≤ h.length)
    (away : (h.state n).exToMem ≠ some t) :
    begun t (n + 1) = begun t n ∨ (n < t.val ∧ begun t n = n + 1 ∧ begun t (n + 1) = n + 2) := by
  have latch := (h.latch_eq_iff (t := t) short bound 4).not.mp away
  have thread := t.isLt
  unfold begun
  simp only [numThreads, show (4 : Fin 6).val = 4 from rfl] at latch thread
  omega

theorem still (short : h.length ≤ 2 ^ 32) (loaded : ((h.state 0).pool t).Loaded) {n : Nat}
    (bound : n + 2 ≤ h.length) (away : (h.state n).exToMem ≠ some t) :
    (∀ m, Sparc.stateOf ((h.state (begun t (n + 1))).pool t) m =
      Sparc.stateOf ((h.state (begun t n)).pool t) m) ∧
    ((h.state (begun t (n + 1))).pool t).enabled = ((h.state (begun t n)).pool t).enabled ∧
    (((h.state 0).pool t).enabled = true →
      (h.state (begun t (n + 1))).pool t = (h.state (begun t n)).pool t) := by
  obtain same | ⟨early, now, next⟩ := begun_cases short (by omega) away
  · rw [same]
    exact ⟨fun _ => rfl, rfl, fun _ => rfl⟩
  · rw [now, next]
    obtain ⟨pc, windowReg, reset⟩ | disabled := loaded
    · rw [h.reset_until_fetch short reset (show n + 2 ≤ t.val + 1 by omega) bound,
        h.reset_until_fetch short reset (show n + 1 ≤ t.val + 1 by omega) (by omega)]
      exact ⟨fun _ => rfl, rfl, fun _ => rfl⟩
    · obtain ⟨first, one⟩ := ticked_until_fetch short (show n + 1 ≤ t.val + 1 by omega) (by omega)
      obtain ⟨second, two⟩ := ticked_until_fetch short (show n + 2 ≤ t.val + 1 by omega) bound
      rw [one, two]
      refine ⟨fun m => ?_, ?_, fun enabled => absurd (disabled.symm.trans enabled) Bool.noConfusion⟩
      · rw [HwThread.of_ticks (fun ht => Sparc.stateOf ht m) fun _ => rfl,
          HwThread.of_ticks (fun ht => Sparc.stateOf ht m) fun _ => rfl]
      · rw [HwThread.of_ticks HwThread.enabled fun _ => rfl,
          HwThread.of_ticks HwThread.enabled fun _ => rfl]

theorem memToExcept_succ {n : Nat} (bound : n < h.length) :
    (h.state (n + 1)).memToExcept = (h.state n).exToMem :=
  h.latches.shift n bound 4 5 rfl

section

variable {code : Set Location} (short : h.length ≤ 2 ^ 32)
  (built : (h.state 0).memoryController.mainMem.Constructed)
  (loaded : ∀ t, ((h.state 0).pool t).Loaded)

include short loaded

theorem Serial.others {n : Nat} (serial : h.Serial code n) (bound : n + 2 ≤ h.length)
    (away : (h.state n).exToMem ≠ some t) :
    (h.machines (n + 1)).contexts t = (h.machines n).contexts t ∧
    ((h.state (begun t (n + 1))).pool t).enabled = ((h.state 0).pool t).enabled ∧
    (((h.state 0).pool t).enabled = true → ((h.state (begun t (n + 1))).pool t).Steady) ∧
    ((h.machines n).Clean t code → SameContents t code (h.contents n) (h.contents (n + 1)) →
      ((h.state 0).pool t).enabled = true →
      Fetch.isHeld ((h.state (begun t (n + 1))).pool t) = true →
        ((h.state (begun t (n + 1))).pool t).Keeps (((h.machines (n + 1)).view t).word t)) := by
  obtain ⟨state, enabled, pool⟩ := still short (loaded t) bound away
  have context : (h.machines (n + 1)).contexts t = (h.machines n).contexts t := by
    have same := congrArg State.context (state (h.contents n))
    exact same
  refine ⟨context, enabled.trans (serial.enabled t), fun on => ?_, fun clean same on held => ?_⟩
  · rw [pool on]
    exact serial.steady t on
  · rw [pool on] at held ⊢
    have word : ((h.machines (n + 1)).view t).word t = ((h.machines n).view t).word t := by
      change (h.contents (n + 1)).value t ((h.machines (n + 1)).contexts t).counters.pc = _
      rw [context]
      exact (same.value _ clean.fetch).symm
    rw [word]
    exact serial.keeps t on held

include built

theorem Serial.nobody {n : Nat} (serial : h.Serial code n) (bound : n + 2 ≤ h.length)
    (clean : ∀ t, ((h.state 0).pool t).enabled = true → (h.machines n).Clean t code)
    (nobody : (h.state n).exToMem = none) : h.Serial code (n + 1) := by
  have away : ∀ t, (h.state n).exToMem ≠ some t := by simp [nobody]
  have memory := contents_still built (by omega) serial.calm nobody
  obtain ⟨table, engine⟩ := last_still (n := n + 1) (by omega)
    ((memToExcept_succ (by omega)).trans nobody)
  have others := fun t => serial.others short loaded bound (away t)
  have same : ∀ t, SameContents t code (h.contents n) (h.contents (n + 1)) := fun t => by
    rw [memory]
    exact SameContents.refl _
  have machines : h.machines (n + 1) = h.machines n := by
    rw [machines, machines, Machines.mk.injEq]
    exact ⟨funext fun t => (others t).1, memory, table⟩
  have turn : h.turn n = none := by
    rw [turn, nobody]
    rfl
  have held := serial.calm.held_succ built (by omega)
  refine ⟨?_, fun t => ⟨held t, (engine t).trans (held t)⟩, fun t => (others t).2.1,
    fun t => (others t).2.2.1, fun t on => (others t).2.2.2 (clean t on) (same t) on, ?_⟩
  · rw [machines, serial.refines, schedule_succ, turn, Option.toList_none, List.append_nil]
  · intro m below t elsewhere
    obtain earlier | rfl := Nat.lt_succ_iff_lt_or_eq.mp below
    · exact serial.spares m earlier t elsewhere
    · exact same t

end

theorem exists_pass (short : h.length ≤ 2 ^ 32) {n : Nat} (bound : n + 2 ≤ h.length)
    (latch : (h.state n).exToMem = some t) :
    ∃ m, n = fetchCall t m + 4 ∧ ∃ p : Pass t MemoryController, h.Makes (fetchCall t m) p := by
  have place : 4 < n ∧ (n - 1 - 4) % 6 = t.val := (h.latch_eq_iff short (by omega) 4).mp latch
  obtain ⟨m, rfl⟩ : ∃ m, n = fetchCall t m + 4 := by
    refine ⟨(n - 5 - t.val) / 6, ?_⟩
    unfold fetchCall
    omega
  refine ⟨m, rfl, h.makes_pass short ?_⟩
  unfold fetchCall at bound
  unfold rounds
  omega

theorem begun_fetchCall (t : ThreadId) (m : Nat) : begun t (fetchCall t m + 4) = fetchCall t m := by
  unfold begun fetchCall
  omega

section

variable {code : Set Location} (short : h.length ≤ 2 ^ 32)
  (built : (h.state 0).memoryController.mainMem.Constructed) {m : Nat}
  {p : Pass t MemoryController} (makes : h.Makes (fetchCall t m) p)
  (bound : fetchCall t m + 6 ≤ h.length) (serial : h.Serial code (fetchCall t m + 4))

include built makes bound serial

theorem Serial.finds : p.Finds (h.machines (fetchCall t m + 4)) where
  view := by
    have start : p.start = (h.state (begun t (fetchCall t m + 4))).pool t := by
      rw [begun_fetchCall, makes.start]
    rw [Pass.before, start]
    rfl
  table := makes.syncTable.symm
  holds := makes.memory_holds built (by omega) serial.calm
  port := ⟨_, makes.dataMem⟩

include short

omit built makes in
theorem Serial.since_fetch : SameContents t code (h.contents (fetchCall t m + 1))
    (h.contents (fetchCall t m + 4)) := by
  have spares : ∀ i : Fin 6, i.val < 4 → SameContents t code
      (h.contents (fetchCall t m + i.val)) (h.contents (fetchCall t m + i.val + 1)) := by
    intro i before
    refine serial.spares _ (by omega) t ?_
    exact (h.occupies short i (by omega)).away (j := 4) (by simp [Fin.ext_iff]; omega)
  exact ((spares 1 (by decide)).trans (spares 2 (by decide))).trans (spares 3 (by decide))

theorem Serial.given (clean : (h.machines (fetchCall t m + 4)).Clean t code)
    (on : ((h.state 0).pool t).enabled = true) (runs : p.runs = true) :
    p.Given (h.contents (fetchCall t m + 4)) := by
  have view : (h.machines (fetchCall t m + 4)).view t = p.before (h.contents (fetchCall t m + 4)) :=
    (serial.finds built makes bound).view
  have steady := serial.steady t on
  have keeps := serial.keeps t on
  rw [begun_fetchCall, ← makes.start] at steady keeps
  have coherent := steady.coherent
  have same := serial.since_fetch short bound
  cases held : Fetch.isHeld p.start with
  | true =>
      have kept := keeps held
      have asks := kept.asks
      rw [← kept.word] at asks
      have word : p.word = ((h.machines (fetchCall t m + 4)).view t).word t :=
        (makes.valid.held_word coherent held).2.trans kept.word
      refine ⟨view ▸ word, makes.valid.asks_of_held coherent held asks, fun quiet => ?_⟩
      rw [word] at quiet
      exact absurd kept.access quiet
  | false =>
      have fetched := makes.valid.fetches coherent.enabled makes.instructionMemory
        (makes.fetch_holds built (by omega)) runs held
      refine ⟨fetched.trans ?_, makes.valid.asks_of_free coherent runs held, fun _ => held⟩
      have pc : ((h.machines (fetchCall t m + 4)).contexts t).counters.pc = p.start.pc := by
        have counters := congrArg (fun s => s.counters.pc) view
        exact counters
      refine same.value _ fun location place => clean.fetch location ?_
      rw [pc]
      exact (same.place _).symm.trans place

variable (loaded : ∀ t, ((h.state 0).pool t).Loaded)
  (clean : ∀ u, ((h.state 0).pool u).enabled = true →
    (h.machines (fetchCall t m + 4)).Clean u code)

include loaded clean

theorem Serial.turns : h.Serial code (fetchCall t m + 5) := by
  have own : ∀ i : Fin 6, (h.state (fetchCall t m + i.val)).Occupies t i :=
    fun i => h.occupies short i (by omega)
  have finds := serial.finds built makes bound
  have before : begun t (fetchCall t m + 4) = fetchCall t m := begun_fetchCall t m
  have after : begun t (fetchCall t m + 5) = fetchCall t m + 6 := by
    unfold begun fetchCall
    omega
  have start : p.start.enabled = ((h.state 0).pool t).enabled := by
    rw [makes.start, ← before]
    exact serial.enabled t
  have turn : p.Turn (h.machines (fetchCall t m + 4)) := by
    refine finds.turn makes.valid ?_ ?_ ?_
    · intro on
      rw [makes.start, ← before]
      exact serial.steady t (start ▸ on)
    · exact fun on => serial.given short built makes bound (clean t (start ▸ on)) (start ▸ on)
    · intro on
      rw [← finds.view]
      exact (clean t (start ▸ on)).proper
  have commits := makes.commits_eq (own 5).own
  obtain ⟨table, engine⟩ := makes.ended (by omega) (own 5)
  have memory := makes.contents_succ built (by omega) (own 4)
  have held := serial.calm.held_succ built (by omega)
  have latch : (h.state (fetchCall t m + 4)).exToMem = some t := (own 4).own
  have away : ∀ u, u ≠ t → (h.state (fetchCall t m + 4)).exToMem ≠ some u := by
    intro u other same
    rw [latch] at same
    exact other (Option.some.inj same).symm
  have others := fun u other => serial.others short loaded (t := u) (by omega) (away u other)
  have same : ∀ u, u ≠ t → SameContents u code (h.contents (fetchCall t m + 4))
      (h.contents (fetchCall t m + 5)) := by
    intro u other
    have left : (p.leaves (h.machines (fetchCall t m + 4))).memory =
      h.contents (fetchCall t m + 5) := memory
    rw [← left, turn.effect]
    cases goes : p.commits with
    | false => exact SameContents.refl _
    | true =>
        have on : p.start.enabled = true := by
          by_contra off
          rw [(makes.valid.idle (Bool.not_eq_true _ ▸ off)).idles] at goes
          cases goes
        exact (clean t (start ▸ on)).same other.symm
  have machines : h.machines (fetchCall t m + 5) = p.leaves (h.machines (fetchCall t m + 4)) := by
    rw [Pass.leaves, History.machines, Machines.mk.injEq]
    refine ⟨funext fun u => ?_, memory.symm, table.symm⟩
    by_cases own : u = t
    · subst own
      rw [Function.update_self, after, ← makes.finished, memory]
    · rw [Function.update_of_ne own]
      exact (others u own).1
  refine ⟨?_, fun u => ⟨held u, (engine turn.dma u).trans (held u)⟩, fun u => ?_, fun u on => ?_,
    fun u on keeps => ?_, fun k below u elsewhere => ?_⟩
  · rw [machines, turn.effect, schedule_succ, History.turn, latch, Option.filter_some, commits]
    cases p.commits with
    | false => simpa using serial.refines
    | true => simp [Machines.after_concat, ← serial.refines]
  · by_cases own : u = t
    · subst own
      rw [after, ← makes.finished, turn.enabled, start]
    · exact (others u own).2.1
  · by_cases own : u = t
    · subst own
      rw [after, ← makes.finished]
      exact turn.steady (turn.enabled.trans (start.trans on))
    · exact (others u own).2.2.1 on
  · by_cases own : u = t
    · subst own
      rw [after, ← makes.finished] at keeps ⊢
      obtain ⟨idles, kept⟩ := turn.kept (turn.enabled.trans (start.trans on)) keeps
      rw [machines, turn.effect, idles, if_neg Bool.false_ne_true, finds.view]
      exact kept
    · exact (others u own).2.2.2 (clean u on) (same u own) on keeps
  · obtain earlier | rfl := Nat.lt_succ_iff_lt_or_eq.mp below
    · exact serial.spares k earlier u elsewhere
    · refine same u fun own => elsewhere ?_
      rw [own, latch]

end

/-- The core starts with its programs, and what the machines come to on the way is clean. -/
structure Conforms (h : History) (code : Set Location) : Prop where
  short : h.length ≤ 2 ^ 32
  built : (h.state 0).memoryController.mainMem.Constructed
  loaded : ∀ t, ((h.state 0).pool t).Loaded
  clean : ∀ n, n + 2 ≤ h.length → ∀ t, ((h.state 0).pool t).enabled = true →
    ((h.machines 0).after (h.schedule n)).Clean t code

theorem Conforms.serial_zero {code : Set Location} (conforms : h.Conforms code)
    (bound : 1 ≤ h.length) : h.Serial code 0 := by
  have short := conforms.short
  obtain ⟨pool, memoryController, create⟩ := h.reset
  have held : ∀ t, (h.state 0).held t = none := by
    rw [create]
    exact fun _ => rfl
  have engine := (last_still (h := h) (n := 0) (by omega) (by rw [create]; rfl)).2
  have first : ∀ t, begun t 0 = 1 := fun t => by
    unfold begun
    omega
  have reset : ∀ t, ((h.state 0).pool t).enabled = true → ∃ pc windowReg,
      (h.state (begun t 0)).pool t = .reset t pc windowReg := by
    intro t on
    obtain ⟨pc, windowReg, reset⟩ | off := conforms.loaded t
    · refine ⟨pc, windowReg, ?_⟩
      rw [first]
      exact h.reset_until_fetch short reset (by omega) bound
    · exact absurd (off.symm.trans on) Bool.noConfusion
  refine ⟨rfl, fun t => ⟨held t, (engine t).trans (held t)⟩, fun t => ?_, fun t on => ?_,
    fun t on keeps => ?_, fun _ below => absurd below (Nat.not_lt_zero _)⟩
  · rw [first]
    obtain ⟨ticks, same⟩ := ticked_until_fetch (t := t) short (show 0 + 1 ≤ t.val + 1 by omega) bound
    rw [same, HwThread.of_ticks HwThread.enabled fun _ => rfl]
  · obtain ⟨pc, windowReg, same⟩ := reset t on
    rw [same]
    exact HwThread.steady_reset pc windowReg
  · obtain ⟨pc, windowReg, same⟩ := reset t on
    rw [same] at keeps
    cases keeps

theorem Conforms.serial {code : Set Location} (conforms : h.Conforms code) {n : Nat}
    (bound : n + 1 ≤ h.length) : h.Serial code n := by
  have short := conforms.short
  have built := conforms.built
  have loaded := conforms.loaded
  induction n with
  | zero => exact conforms.serial_zero bound
  | succ n ih =>
      have serial := ih (by omega)
      have clean : ∀ t, ((h.state 0).pool t).enabled = true → (h.machines n).Clean t code := by
        rw [serial.refines]
        exact conforms.clean n bound
      cases latch : (h.state n).exToMem with
      | none => exact serial.nobody short built loaded bound clean latch
      | some t =>
          obtain ⟨m, rfl, p, makes⟩ := exists_pass short bound latch
          exact serial.turns short built makes (by omega) loaded clean

end History

def loadedThreads (programs : ThreadId → List Word) : (id : ThreadId) → HwThread id := fun id =>
  if (programs id).isEmpty then .create id 0 fun _ => 0 else oneThread id id

def inScratchpads (programs : ThreadId → List Word) : MemoryController :=
  { MemoryController.create with
    instScratchpad := fun id =>
      { L1Scratch.create with
        mem := fun addr => if addr = 0 then none else (programs id)[addr.toNat / 4 - 1]? } }

theorem loaded_loadedThreads (programs : ThreadId → List Word) (t : ThreadId) :
    (loadedThreads programs t).Loaded := by
  unfold loadedThreads
  split
  · exact Or.inr rfl
  · exact Or.inl ⟨_, _, if_pos rfl⟩

namespace History

def meetingPrograms (id : ThreadId) : List Word :=
  if id = 0 then Run.syncWord 3 :: List.replicate 5 nopWord
  else if id = 1 then nopWord :: Run.syncWord 3 :: List.replicate 4 nopWord
  else []

def meetingThreads : History :=
  ofCalls (loadedThreads meetingPrograms) (inScratchpads meetingPrograms) 26
    (isOk_of_returns (by decide +kernel))

def taking (n : Nat) : Option ThreadId :=
  if 5 ≤ n ∧ (n - 5) % 6 = 0 then some 0 else if 5 ≤ n ∧ (n - 5) % 6 = 1 then some 1 else none

theorem turn_meetingThreads : ∀ n, n < 25 → meetingThreads.turn n = taking n := by
  decide +kernel

theorem schedule_meetingThreads {n : Nat} (small : n ≤ 25) :
    meetingThreads.schedule n = (List.range n).filterMap taking := by
  rw [schedule, List.filterMap_congr fun k member =>
    turn_meetingThreads k ((List.mem_range.mp member).trans_le small)]

theorem clean_meetingThreads (n : Nat) (small : n < 25) (t : ThreadId)
    (on : ((meetingThreads.state 0).pool t).enabled = true) :
    ((meetingThreads.machines 0).after (meetingThreads.schedule n)).Clean t ∅ := by
  have checks : ∀ n, n < 25 → ∀ t, ((meetingThreads.state 0).pool t).enabled = true →
      ((meetingThreads.machines 0).after ((List.range n).filterMap taking)).isClean t = true := by
    decide +kernel
  apply Machines.clean_of_isClean
  rw [schedule_meetingThreads small.le]
  exact checks n small t on

theorem conforms_meetingThreads : meetingThreads.Conforms ∅ where
  short := by decide
  built := WheeledMem.create_constructed
  loaded := loaded_loadedThreads meetingPrograms
  clean n bound := clean_meetingThreads n (by change n + 2 ≤ 26 at bound; omega)

end History

end Core

end PretIss
