import PretIss.Engine.Request
import PretIss.Engine.Service
import PretIss.Library.RequestSlot
import PretIss.Pipeline.Threads
import PretIss.Thread.Program
import PretIss.Thread.Stable

/-! Whether a request is carried out before the thread commits its next instruction. The
engine only copies in the slots of the thread, and a fetch from main memory waits for
these slots as well; an instruction that is fetched from elsewhere commits while the
transfer is pending. -/

namespace PretIss

theorem Pass.Valid.runs_eq {id : ThreadId} {p : Pass id MemoryController} (valid : p.Valid)
    (enabled : p.start.enabled = true) {cycles : BitVec 32}
    (port : p.round.instructionMemory = MemoryController.fetchStageIf cycles) {m : Contents}
    (holds : p.round.fetchMemory.Holds m) (free : Fetch.isHeld p.start = false) :
    p.runs = m.granted cycles id p.start.pc := by
  obtain ⟨ht, control, _, _, ⟨held, _⟩ | ⟨_, bits, stall, reads, rfl⟩⟩ := valid.fetch_cases enabled
  · rw [held] at free
    cases free
  · obtain ⟨after, answer, _⟩ := MemoryController.readInst_holds holds cycles id p.start.pc
    rw [port] at reads
    have same := answer.symm.trans reads
    simp only [Except.ok.injEq, Prod.mk.injEq] at same
    have stalled : p.fetched.fetchStalled = stall :=
      HwThread.of_control HwThread.fetchStalled (fun _ => rfl) control
    rw [Pass.runs, stalled, ← same.2.2, Bool.not_not]

namespace Core

variable {t : ThreadId}

/-- The last stage commits an instruction of the thread in this call. -/
def commits (c : Core) (t : ThreadId) : Bool :=
  c.memToExcept == some t && ExceptStage.reachesCommit (c.pool t) &&
    !ExceptStage.squashes (c.pool t)

/-- The instruction asks for a transfer. -/
def requests (c : Core) (t : ThreadId) : Bool := c.commits t && (c.pool t).inst.isMem2sp

def atEngine (c : Core) : Core :=
  match Transition.run step [.exceptStage, .memoryController] c with
  | .ok d => d
  | .error _ => c

def afterEngine (c : Core) : Core :=
  match dmaController c.atEngine with
  | .ok d => d
  | .error _ => c.atEngine

def transfers (c : Core) (t : ThreadId) : Bool :=
  c.atEngine.dma.transferComplete t == .busy && c.afterEngine.dma.transferComplete t == .idle

def Placed (c : Core) (t : ThreadId) (source target : Word) : Prop :=
  ∀ i, i < 4 → (c.afterEngine.memoryController.instScratchpad t).Places source target i
    (c.atEngine.memoryController.mainMem.mem.read (source + BitVec.ofNat 32 (i * 4)))

def escapes (c : Core) (t : ThreadId) : Bool :=
  c.poolToF == some t && c.dma.transferComplete t == .busy && !slotGranted c.cycles t &&
    !slotGranted (c.cycles + 4) t &&
    (c.memoryController.isAddrInSpm t (c.pool t).pc ||
      !MemoryController.isMainMem (c.pool t).pc)

def ask (c : Core) (t : ThreadId) : Option (Word × Word) :=
  if c.requests t then some ((c.pool t).inst.aluResult, (c.pool t).inst.op3Value) else none

def held (c : Core) (t : ThreadId) : Option (Word × Word) :=
  if c.dma.transferComplete t = .busy then some (c.dma.memSourceReg t, c.dma.spmTargetReg t)
  else none

namespace History

/-- Requests are blocking and none is lost: whenever the thread commits an instruction,
all its earlier requests have been carried out, once each. -/
structure Blocking (h : History) (t : ThreadId) : Prop where
  placed : ∀ n m, n < m → m < h.length → (h.state n).requests t = true →
    (h.state m).commits t = true → ∃ j, n ≤ j ∧ j < m ∧ (h.state j).transfers t = true ∧
      (h.state j).Placed t ((h.state n).pool t).inst.aluResult ((h.state n).pool t).inst.op3Value
  counted : ∀ m, m < h.length → (h.state m).commits t = true →
    Nat.count (fun n => (h.state n).requests t = true) m =
      Nat.count (fun n => (h.state n).transfers t = true) m

/-- The counter of the scheduler does not wrap, no fetch escapes, and every transfer fits. -/
structure Patient (h : History) (t : ThreadId) : Prop where
  short : h.length ≤ 2 ^ 32
  waits : ∀ n, n < h.length → (h.state n).escapes t = false
  fits : ∀ n, n < h.length → (h.state n).transfers t = true →
    ((h.state n).atEngine.memoryController.instScratchpad t).Fits
      ((h.state n).atEngine.dma.memSourceReg t) ((h.state n).atEngine.dma.spmTargetReg t)

end History

theorem Between.atEngine_eq {c d : Core} (b : Between c d) : c.atEngine =
    { b.excepted with memoryController := b.excepted.memoryController.behavior } := by
  simp only [atEngine, Transition.run, step, b.exceptRuns]

theorem Between.afterEngine_eq {c d : Core} (b : Between c d) : c.afterEngine = b.served := by
  simp only [afterEngine, b.atEngine_eq, b.dmaRuns]

section

variable {c d : Core} (b : Between c d) (built : c.memoryController.mainMem.Constructed)

include b built

theorem Between.built_atEngine : c.atEngine.memoryController.mainMem.Constructed := by
  rw [b.atEngine_eq, b.frames.exceptMemory]
  exact built.behavior

theorem Between.turn : Dma.Turn t c.cycles (c.atEngine.dma, c.atEngine.memoryController)
    (c.afterEngine.dma, c.afterEngine.memoryController) := by
  obtain ⟨dma, memoryController, frame, runs⟩ := Isolation.dmaController_frame b.dmaRuns
  change Dma.behavior b.excepted.cycles b.excepted.dma b.excepted.memoryController.behavior =
    .ok (dma, memoryController) at runs
  have ready := b.built_atEngine built
  rw [b.atEngine_eq] at ready ⊢
  rw [b.afterEngine_eq, frame]
  rw [b.frames.exceptCycles] at runs
  exact Dma.turn_behavior (s := (b.excepted.dma, b.excepted.memoryController.behavior)) ready runs

theorem Between.built_last : d.memoryController.mainMem.Constructed := by
  have ready := (b.turn (t := 0) built).built
  rw [b.afterEngine_eq] at ready
  rw [b.frames.memory]
  apply Isolation.constructed_step .fetchStage _ b.fetchRuns
  rw [b.frames.fetchMemory]
  exact Isolation.constructed_step .memoryStage ready b.memoryRuns

end

theorem held_of_same {c d : Core} (same : Isolation.SameDma t c.dma d.dma) : c.held t = d.held t := by
  rw [held, held, same.state, same.source, same.target]

theorem ask_isSome (c : Core) : (c.ask t).isSome = c.requests t := by
  unfold ask
  split <;> simp_all

theorem pllBehavior_memories (c : Core) (ticks : Nat) :
    (pllBehavior^[ticks] c).dma = c.dma ∧
      (pllBehavior^[ticks] c).memoryController = c.memoryController := by
  induction ticks generalizing c with
  | zero => exact ⟨rfl, rfl⟩
  | succ ticks ih =>
      rw [Function.iterate_succ_apply]
      exact ih (pllBehavior c)

namespace History

section

variable (h : History) (built : (h.state 0).memoryController.mainMem.Constructed)

include built

theorem built_state {n : Nat} (bound : n ≤ h.length) :
    (h.state n).memoryController.mainMem.Constructed := by
  induction n with
  | zero => exact built
  | succ n ih =>
      obtain ⟨d, ⟨b⟩, ticks, next⟩ := h.call bound
      rw [next, (pllBehavior_memories d ticks).2]
      exact b.built_last (ih (by omega))

theorem held_succ {n : Nat} (bound : n < h.length) : (h.state (n + 1)).held t =
    if slotGranted (h.state n).cycles t then none else (h.state n).atEngine.held t := by
  obtain ⟨d, ⟨b⟩, ticks, next⟩ := h.call bound
  have turn := b.turn (t := t) (h.built_state built (by omega))
  have engine : (h.state (n + 1)).dma = (h.state n).afterEngine.dma := by
    rw [next, (pllBehavior_memories d ticks).1, b.frames.dma, b.afterEngine_eq]
  rw [held, held, engine, turn.source, turn.target, turn.state]
  cases slotGranted (h.state n).cycles t with
  | false => simp
  | true => by_cases busy : (h.state n).atEngine.dma.transferComplete t = .busy <;> simp [busy]

theorem transfers_eq {n : Nat} (bound : n < h.length) : (h.state n).transfers t =
    (slotGranted (h.state n).cycles t && ((h.state n).atEngine.held t).isSome) := by
  obtain ⟨d, ⟨b⟩, _⟩ := h.call bound
  have turn := b.turn (t := t) (h.built_state built (by omega))
  rw [transfers, held, turn.state]
  by_cases busy : (h.state n).atEngine.dma.transferComplete t = .busy
  · cases slotGranted (h.state n).cycles t <;> simp [busy]
  · simp [busy]

theorem placed_of_fits {n : Nat} (bound : n < h.length) {source target : Word}
    (pending : (h.state n).atEngine.held t = some (source, target))
    (granted : slotGranted (h.state n).cycles t = true)
    (fits : ((h.state n).atEngine.memoryController.instScratchpad t).Fits source target) :
    (h.state n).Placed t source target := by
  obtain ⟨d, ⟨b⟩, _⟩ := h.call bound
  have turn := b.turn (t := t) (h.built_state built (by omega))
  unfold held at pending
  split at pending
  · rename_i busy
    obtain ⟨rfl, rfl⟩ := Prod.mk.injEq .. ▸ Option.some.inj pending
    intro i small
    have moved := turn.spm
    rw [if_pos ⟨busy, granted⟩] at moved
    change (h.state n).afterEngine.memoryController.instScratchpad t = _ at moved
    rw [moved]
    exact fits.places _ small
  · cases pending

end

structure Passes (h : History) (run : Run t MemoryController) : Prop where
  short : h.length ≤ 2 ^ 32
  length : run.length = h.rounds t
  makes : ∀ m, m < run.length → h.Makes (fetchCall t m) (run.entry m)

section

variable {h : History} {run : Run t MemoryController} (passes : h.Passes run)

include passes

theorem Passes.last {n : Nat} (bound : n < h.length) (latch : (h.state n).memToExcept = some t) :
    ∃ m, m < run.length ∧ n = fetchCall t m + 5 := by
  have position : 5 < n ∧ (n - 1 - 5) % 6 = t.val :=
    (h.latch_eq_iff passes.short (by omega) 5).mp latch
  refine ⟨(n - 6 - t.val) / 6, ?_, ?_⟩
  · rw [passes.length]
    unfold rounds
    omega
  · unfold fetchCall
    omega

theorem Passes.bound {m : Nat} (complete : m < run.length) : fetchCall t m + 6 ≤ h.length :=
  h.fetchCall_bound (passes.length ▸ complete)

theorem Passes.commits_eq {m : Nat} (complete : m < run.length) :
    (h.state (fetchCall t m + 5)).commits t = (run.entry m).commits := by
  have own : (h.state (fetchCall t m + 5)).memToExcept = some t :=
    (h.occupies passes.short 5 (by have := passes.bound complete; omega)).own
  rw [commits, Pass.commits, own, (passes.makes m complete).arrived]
  simp

theorem Passes.requests_eq {m : Nat} (complete : m < run.length) :
    (h.state (fetchCall t m + 5)).requests t = (run.entry m).requests := by
  rw [requests, Pass.requests, passes.commits_eq complete, (passes.makes m complete).arrived]

variable (built : (h.state 0).memoryController.mainMem.Constructed)

include built

theorem Passes.held_atEngine {n : Nat} (bound : n < h.length) :
    (h.state n).atEngine.held t = ((h.state n).ask t).or ((h.state n).held t) := by
  by_cases latch : (h.state n).memToExcept = some t
  · obtain ⟨m, complete, rfl⟩ := passes.last bound latch
    have makes := passes.makes m complete
    have dma := makes.valid.dma (run.coherent complete)
    obtain ⟨d, b, engine⟩ := makes.engine
    rw [engine, ← passes.requests_eq complete, makes.dma, makes.arrived] at dma
    cases asks : (h.state (fetchCall t m + 5)).requests t with
    | false =>
        rw [ask, asks, held, b.atEngine_eq, dma, asks]
        rfl
    | true =>
        rw [ask, asks, held, b.atEngine_eq, dma, asks]
        simp [ExceptStage.requestTransfer, Dma.makeTransfer, Dma.setTransferState, Dma.setMemSource,
          Dma.setSpmTarget]
  · obtain ⟨d, ⟨b⟩, _⟩ := h.call bound
    have quiet : (h.state n).requests t = false := by
      simp [requests, commits, latch]
    have same : Isolation.Agree t ∅ (h.state n) b.excepted :=
      Isolation.exceptStage_other (h.built_state built (by omega)) latch b.exceptRuns
    rw [ask, quiet, b.atEngine_eq]
    exact (held_of_same same.dma).symm

theorem Passes.requestSlot : RequestSlot h.length (fun n => (h.state n).ask t)
    (fun n => slotGranted (h.state n).cycles t) (fun n => (h.state n).held t) where
  empty := by
    obtain ⟨pool, memoryController, start⟩ := h.reset
    rw [start]
    rfl
  next n bound := by
    rw [h.held_succ built bound, passes.held_atEngine built bound]

theorem Passes.transfers_eq {n : Nat} (bound : n < h.length) : (h.state n).transfers t =
    (RequestSlot.carried (fun n => (h.state n).ask t) (fun n => slotGranted (h.state n).cycles t)
      (fun n => (h.state n).held t) n).isSome := by
  rw [h.transfers_eq built bound, passes.held_atEngine built bound, RequestSlot.carried]
  cases slotGranted (h.state n).cycles t <;> simp

theorem Passes.pending_fetch {m : Nat} (complete : m < run.length) {transfer : Word × Word}
    (pending : (h.state (fetchCall t m + 5)).held t = some transfer) :
    (h.state (fetchCall t m)).held t = some transfer ∧
      ∀ i, i < 5 → slotGranted (h.state (fetchCall t m + i)).cycles t = false := by
  have bound := passes.bound complete
  obtain ⟨before, closed⟩ := (passes.requestSlot built).held_back (Nat.le_add_right _ 5) (by omega)
    (fun k above below => by
      obtain ⟨i, rfl⟩ := Nat.exists_eq_add_of_le above
      have elsewhere : (h.state (fetchCall t m + i)).memToExcept ≠ some t :=
        (h.occupies passes.short ⟨i, by omega⟩ (by simp only; omega)).away (j := 5)
          (by rw [Ne, Fin.ext_iff]; simp only; omega)
      simp [ask, requests, commits, elsewhere]) pending
  exact ⟨before, fun i small => closed _ (Nat.le_add_right _ i) (by omega)⟩

/-- A thread that fetches from main memory outside its slots finds no instruction. -/
theorem Passes.absent {m : Nat} (complete : m < run.length)
    (free : Fetch.isHeld (run.entry m).start = false)
    (closed : slotGranted (h.state (fetchCall t m)).cycles t = false)
    (outside : (h.state (fetchCall t m)).memoryController.isAddrInSpm t
      ((h.state (fetchCall t m)).pool t).pc = false)
    (main : MemoryController.isMainMem ((h.state (fetchCall t m)).pool t).pc = true) :
    (run.entry m).runs = false := by
  have makes := passes.makes m complete
  have bound := passes.bound complete
  have ready := h.built_state built (show fetchCall t m ≤ h.length by omega)
  obtain ⟨d, b, memory⟩ := makes.fetchMemory
  have turn := b.turn (t := t) ready
  have scratchpad : b.accessed.memoryController.instScratchpad t =
      (h.state (fetchCall t m)).memoryController.instScratchpad t := by
    have elsewhere : b.served.exToMem ≠ some t := by
      rw [b.frames.exToMem]
      exact (h.occupies passes.short 0 (by simp; omega)).away (j := 4) (by decide)
    have same : Isolation.Agree t ∅ b.served b.accessed :=
      Isolation.memoryStage_other (b.afterEngine_eq ▸ turn.built) elsewhere (by simp) b.memoryRuns
    calc b.accessed.memoryController.instScratchpad t =
          b.served.memoryController.instScratchpad t := same.contents.spm.symm
      _ = (h.state (fetchCall t m)).afterEngine.memoryController.instScratchpad t := by
          rw [b.afterEngine_eq]
      _ = (h.state (fetchCall t m)).atEngine.memoryController.instScratchpad t := by
          have kept := turn.spm
          rw [if_neg (by simp [closed])] at kept
          exact kept
      _ = b.excepted.memoryController.instScratchpad t := by
          rw [b.atEngine_eq]
          rfl
      _ = _ := by rw [b.frames.exceptMemory]
  have holds : (run.entry m).round.fetchMemory.Holds b.accessed.memoryController.contents := by
    rw [memory]
    exact ⟨rfl, Isolation.constructed_step .memoryStage (b.afterEngine_eq ▸ turn.built) b.memoryRuns⟩
  rw [makes.valid.runs_eq (run.coherent complete).enabled makes.instructionMemory holds free,
    makes.start]
  have spot : b.accessed.memoryController.contents.place t ((h.state (fetchCall t m)).pool t).pc =
      some (.main ((h.state (fetchCall t m)).pool t).pc) := by
    unfold MemoryController.isAddrInSpm at outside
    change ite ((b.accessed.memoryController.instScratchpad t).isAddrInSpm _ = true) _ _ = _
    rw [scratchpad, outside, main]
    rfl
  rw [Contents.granted, spot]
  exact closed

variable (patient : h.Patient t)

include patient

theorem Passes.blocked {m : Nat} (complete : m < run.length)
    (free : Fetch.isHeld (run.entry m).start = false) {transfer : Word × Word}
    (pending : (h.state (fetchCall t m + 5)).held t = some transfer) :
    (run.entry m).runs = false := by
  obtain ⟨before, closed⟩ := passes.pending_fetch built complete pending
  have bound := passes.bound complete
  have busy : (h.state (fetchCall t m)).dma.transferComplete t = .busy := by
    by_contra idle
    simp [held, idle] at before
  have own : (h.state (fetchCall t m)).poolToF = some t :=
    (h.occupies passes.short 0 (by simp; omega)).own
  have later : slotGranted ((h.state (fetchCall t m)).cycles + 4) t = false := by
    have four := closed 4 (by omega)
    rw [(h.counters (by omega)).2, BitVec.ofNat_add] at four
    rw [(h.counters (by omega)).2]
    exact four
  have now : slotGranted (h.state (fetchCall t m)).cycles t = false := closed 0 (by omega)
  have stays := patient.waits (fetchCall t m) (by omega)
  simp only [escapes, own, busy, now, later, beq_self_eq_true, Bool.not_false, Bool.and_self,
    Bool.true_and, Bool.or_eq_false_iff, Bool.not_eq_false'] at stays
  exact passes.absent built complete free now stays.1 stays.2

/-- A thread with a pending transfer comes to its fetch free of any other stall. -/
theorem Passes.free_of_pending {m : Nat} (complete : m < run.length) {transfer : Word × Word}
    (pending : (h.state (fetchCall t m)).held t = some transfer) :
    Fetch.isHeld (run.entry m).start = false := by
  induction m generalizing transfer with
  | zero =>
      have bound := passes.bound complete
      have start := ((passes.requestSlot built).held_back (Nat.zero_le _) (by omega)
        (fun k _ below => by
          have elsewhere : (h.state k).memToExcept ≠ some t := by
            intro latch
            have position : 5 < k ∧ (k - 1 - 5) % 6 = t.val :=
              (h.latch_eq_iff passes.short (by omega) 5).mp latch
            unfold fetchCall at below
            omega
          simp [ask, requests, commits, elsewhere]) pending).1
      rw [(passes.requestSlot built).empty] at start
      cases start
  | succ m ih =>
      have before : m < run.length := by omega
      have bound := passes.bound before
      have coherent := run.coherent before
      have valid := run.valid m before
      rw [run.linked m complete]
      have next : (h.state (fetchCall t m + 5 + 1)).held t = if _ then none else _ :=
        (passes.requestSlot built).next (fetchCall t m + 5) (by omega)
      rw [show fetchCall t (m + 1) = fetchCall t m + 5 + 1 by unfold fetchCall; omega, next] at pending
      split at pending
      · cases pending
      · cases asks : (run.entry m).requests with
        | true => exact valid.free_of_requests coherent asks
        | false =>
            have quiet : (h.state (fetchCall t m + 5)).ask t = none := by
              rw [ask, passes.requests_eq before, asks]
              rfl
            rw [quiet, Option.none_or] at pending
            have free := ih before (passes.pending_fetch built before pending).1
            exact (valid.absent coherent (passes.blocked built patient before free pending)).2.1

theorem Passes.none_pending {n : Nat} (bound : n < h.length)
    (commits : (h.state n).commits t = true) : (h.state n).held t = none := by
  have latch : (h.state n).memToExcept = some t := by
    simp only [Core.commits, Bool.and_eq_true, beq_iff_eq] at commits
    exact commits.1.1
  obtain ⟨m, complete, rfl⟩ := passes.last bound latch
  rw [passes.commits_eq complete] at commits
  cases pending : (h.state (fetchCall t m + 5)).held t with
  | none => rfl
  | some transfer =>
      have free := passes.free_of_pending built patient complete
        (passes.pending_fetch built complete pending).1
      have blocked := passes.blocked built patient complete free pending
      have arrives := (run.valid m complete).arrives (run.coherent complete).enabled
      rw [Pass.runs_of_reachesCommit arrives (Bool.and_eq_true .. ▸ commits).1] at blocked
      cases blocked

theorem Passes.spaced {n : Nat} (bound : n ≤ h.length) :
    RequestSlot.Spaced (fun n => (h.state n).ask t) (fun n => (h.state n).held t) n := by
  intro k early asks
  rw [ask_isSome] at asks
  exact passes.none_pending built patient (by omega) (Bool.and_eq_true .. ▸ asks).1

theorem Passes.blocking : h.Blocking t where
  placed n m later bound asks commits := by
    have asked : (h.state n).ask t =
        some (((h.state n).pool t).inst.aluResult, ((h.state n).pool t).inst.op3Value) := by
      rw [ask, if_pos asks]
    obtain ⟨j, above, below, carried⟩ | pending := (passes.requestSlot built).carried_or_held asked
      later (by omega) (passes.spaced built patient (by omega))
    · have completes := passes.transfers_eq built (show j < h.length by omega)
      rw [carried, Option.isSome_some] at completes
      have fits := patient.fits j (by omega) completes
      have engine := passes.held_atEngine built (show j < h.length by omega)
      unfold RequestSlot.carried at carried
      split at carried
      · rename_i granted
        rw [carried] at engine
        refine ⟨j, above, below, completes,
          h.placed_of_fits built (by omega) engine granted ?_⟩
        unfold held at engine
        split at engine
        · obtain ⟨source, target⟩ := Prod.mk.injEq .. ▸ Option.some.inj engine
          rw [← source, ← target]
          exact fits
        · cases engine
      · cases carried
    · rw [passes.none_pending built patient bound commits] at pending
      cases pending
  counted m bound commits := by
    have counts := (passes.requestSlot built).count_eq (show m ≤ h.length by omega)
      (passes.spaced built patient (by omega))
    rw [passes.none_pending built patient bound commits] at counts
    simp only [ask_isSome, Option.isSome_none, Bool.false_eq_true, if_false, Nat.add_zero] at counts
    have same : ∀ n, n < m → ((h.state n).transfers t = true ↔ (RequestSlot.carried
        (fun n => (h.state n).ask t) (fun n => slotGranted (h.state n).cycles t)
        (fun n => (h.state n).held t) n).isSome = true) :=
      fun n early => by rw [passes.transfers_eq built (by omega)]
    rw [counts]
    exact Nat.le_antisymm (Nat.count_mono_left fun n early => (same n early).mpr)
      (Nat.count_mono_left fun n early => (same n early).mp)

end

/-- In a patient run of a thread with a program every request is carried out, with all its
words, before the thread commits its next instruction. -/
theorem blocking_of_patient (h : History) (t : ThreadId) (pc : Word)
    (windowReg : Fin (16 * registerWindows) → Word)
    (reset : (h.state 0).pool t = .reset t pc windowReg)
    (built : (h.state 0).memoryController.mainMem.Constructed) (patient : h.Patient t) :
    h.Blocking t := by
  by_cases some : 0 < h.rounds t
  · obtain ⟨run, length, makes⟩ := h.exists_run patient.short reset some
    exact Passes.blocking ⟨patient.short, length, makes⟩ built patient
  · have never : ∀ m, m < h.length → (h.state m).commits t ≠ true := by
      intro m bound commits
      simp only [Core.commits, Bool.and_eq_true, beq_iff_eq] at commits
      have position : 5 < m ∧ (m - 1 - 5) % 6 = t.val :=
        (h.latch_eq_iff patient.short (by omega) 5).mp commits.1.1
      unfold rounds at some
      omega
    exact ⟨fun _ m _ bound _ commits => absurd commits (never m bound),
      fun m bound commits => absurd commits (never m bound)⟩

/-- The calls that a loaded core makes, when all of them return. -/
def ofCalls (pool : (id : ThreadId) → HwThread id) (memoryController : MemoryController)
    (length : Nat) (returns : ∀ n, n < length →
      (behavior (next^[n] (create pool memoryController))).isOk = true) : History where
  length := length
  state n := next^[n] (create pool memoryController)
  reset := ⟨pool, memoryController, rfl⟩
  cycle n bound := by
    have runs := returns n bound
    cases result : behavior (next^[n] (create pool memoryController)) with
    | error e =>
        rw [result] at runs
        cases runs
    | ok d =>
        refine ⟨d, 0, rfl, ?_⟩
        rw [Function.iterate_succ_apply', next, result]
        rfl

def mem2spWord (target : BitVec 5) (source : BitVec 13) : Word :=
  3#2 ++ target ++ 0x34#6 ++ 0#5 ++ 1#1 ++ source

instance (spm : L1Scratch) (source target : Word) : Decidable (spm.Fits source target) :=
  decidable_of_iff
    (source < source + 16 ∧
      (∀ i, i < 4 → L1Scratch.inSpmRange (target + BitVec.ofNat 32 (i * 4)) = true) ∧
      ∀ j, j < 4 → ∀ i, i < j → spm.mainMemoryAddress
        (L1Scratch.slotOf (target + BitVec.ofNat 32 (j * 4))) ≠ source + BitVec.ofNat 32 (i * 4))
    ⟨fun ⟨within, inside, apart⟩ => ⟨within, inside, fun i j before late => apart j late i before⟩,
      fun fits => ⟨fits.within, fits.inside, fun j late i before => fits.apart i j before late⟩⟩

/-- The third instruction of thread 2 asks for a transfer just when its slots are open. -/
def timely : History :=
  ofCalls (oneThread 2) (inScratchpad 2 [nopWord, nopWord, mem2spWord 8 0x100, nopWord]) 27
    (by decide +kernel)

theorem blocking_of_patient_timely :
    timely.Blocking 2 ∧ (timely.state 20).requests 2 = true ∧ (timely.state 26).commits 2 = true :=
  ⟨blocking_of_patient timely 2 4 (fun i => if i = 1 then 16 else 0) rfl
      WheeledMem.create_constructed
      ⟨by decide, by decide +kernel, by decide +kernel⟩,
    by decide +kernel, by decide +kernel⟩

def backToBack : History :=
  ofCalls (oneThread 0) (inScratchpad 0 [mem2spWord 8 0x100, mem2spWord 9 0x200]) 13
    (by decide +kernel)

/-- The second request overwrites the first. -/
theorem request_overwritten :
    ¬ ∀ (h : History) (t : ThreadId) (pc : Word) (windowReg : Fin (16 * registerWindows) → Word),
      (h.state 0).pool t = .reset t pc windowReg →
      (h.state 0).memoryController.mainMem.Constructed → h.Blocking t := by
  intro always
  have blocking := always backToBack 0 4 (fun i => if i = 1 then 16 else 0) rfl
    WheeledMem.create_constructed
  obtain ⟨j, above, below, completes, _⟩ := blocking.placed 6 12 (by decide) (by decide)
    (by decide +kernel) (by decide +kernel)
  have never : ∀ j, j < 12 → (backToBack.state j).transfers 0 = false := by decide +kernel
  rw [never j below] at completes
  cases completes

end History

end Core

end PretIss
