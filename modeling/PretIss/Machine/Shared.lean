import PretIss.Engine.Blocking
import PretIss.Machine.Architecture
import PretIss.Memory.SubWord

/-! The words that a thread shares with its sequential machine, in a core on which other
threads run. Every call of the core leaves them alone, but for the one in which the memory
stage has the thread. -/

namespace PretIss

open Isolation (SameContents Apart)

namespace Sparc.State

def loads : Op3Memory → Bool
  | .ld | .ldsb | .ldub | .ldsh | .lduh => true
  | _ => false

/-- Machines that agree on all but the words that are not shared. -/
structure Same (t : ThreadId) (words : Set Location) (s₁ s₂ : State) : Prop where
  counters : s₁.counters = s₂.counters
  regs : s₁.regs = s₂.regs
  special : s₁.special = s₂.special
  memory : SameContents t words s₁.memory s₂.memory

/-- What an instruction asks of its program: it is one of the machine's, its transfer can be
followed, a halfword lies in one word, and the words that are fetched and loaded are shared. -/
structure Admissible (t : ThreadId) (words : Set Location) (s : State) : Prop where
  ordinary : Ordinary (s.word t) = true
  tracks : s.Tracks (s.word t)
  inside : ∀ operation, memoryOp (s.word t) = some operation →
    inWord operation (Mem.addrOffset (s.address (s.word t))) = true
  fetch : ∀ location, s.memory.place t s.counters.pc = some location → location ∈ words
  load : ∀ operation, memoryOp (s.word t) = some operation → loads operation = true →
    ∀ location, s.memory.place t (Mem.alignedAddr (s.address (s.word t))) = some location →
      location ∈ words

variable {t : ThreadId} {words : Set Location} {s₁ s₂ : State}

theorem Same.reg (same : Same t words s₁ s₂) (r : BitVec 5) : s₁.reg r = s₂.reg r := by
  rw [State.reg, State.reg, same.regs, same.special]

theorem Same.operands (same : Same t words s₁ s₂) (w : Word) :
    s₁.operand1 w = s₂.operand1 w ∧ s₁.operand2 w = s₂.operand2 w := by
  rw [operand1, operand1, operand2, operand2, same.reg, same.reg]
  exact ⟨rfl, rfl⟩

theorem Same.address (same : Same t words s₁ s₂) (w : Word) : s₁.address w = s₂.address w := by
  rw [State.address, State.address, (same.operands w).1, (same.operands w).2]

theorem Same.word (same : Same t words s₁ s₂)
    (fetch : ∀ location, s₂.memory.place t s₂.counters.pc = some location → location ∈ words) :
    s₁.word t = s₂.word t := by
  rw [State.word, State.word, same.counters]
  exact same.memory.value _ fun location place => fetch location (same.memory.place _ ▸ place)

theorem Same.tracks (same : Same t words s₁ s₂) {w : Word} (tracks : s₂.Tracks w) :
    s₁.Tracks w := by
  rw [Tracks, same.address, same.special, same.counters]
  exact tracks

/-- Machines that agree on what an instruction reads agree after it. -/
theorem Same.exec (same : Same t words s₁ s₂) (w : Word)
    (load : ∀ operation, memoryOp w = some operation → loads operation = true →
      ∀ location, s₂.memory.place t (Mem.alignedAddr (s₂.address w)) = some location →
        location ∈ words) : Same t words (s₁.exec t w) (s₂.exec t w) := by
  have address := same.address w
  obtain ⟨one, two⟩ := same.operands w
  have found : (∀ location, s₂.memory.place t (Mem.alignedAddr (s₂.address w)) = some location →
      location ∈ words) → s₁.found t w = s₂.found t w := by
    intro shared
    rw [State.found, State.found, address]
    exact same.memory.value _ fun location place => shared location (same.memory.place _ ▸ place)
  have special : s₁.nextSpecial w = s₂.nextSpecial w := by
    have operated : ∀ operation, s₁.operated w operation = s₂.operated w operation := by
      intro operation
      simp only [State.operated, one, two, same.special, State.carry]
    rw [nextSpecial, nextSpecial, same.special]
    cases arithmeticOp w with
    | none => rfl
    | some operation => exact operated operation
  have state : ∀ operation, s₁.stateRead w operation = s₂.stateRead w operation := by
    intro operation
    simp only [State.stateRead, same.special, same.counters]
  have delivered : s₁.delivered t w = s₂.delivered t w := by
    rw [State.delivered, State.delivered]
    split
    · rw [same.counters]
    · rfl
    · simp only [one, two, State.carry, same.special, state]
    · cases known : memoryOp w with
      | none => rfl
      | some operation =>
          rw [Option.bind_some, Option.bind_some, address]
          cases reads : loads operation with
          | true => rw [found (load operation known reads)]
          | false => cases operation <;> first | rfl | cases reads
    · rfl
  refine ⟨?_, ?_, special, ?_⟩
  · rw [State.exec, State.exec, same.counters, same.special, address]
  · rw [State.exec, State.exec, nextRegs, nextRegs, delivered, special, same.regs]
  · rw [State.exec, State.exec, nextMemory, nextMemory]
    cases known : memoryOp w with
    | none => exact same.memory
    | some operation =>
        rw [Option.bind_some, Option.bind_some, address, same.reg]
        have merged : ∀ data₁ data₂,
            mergedWord operation (s₂.reg (rd w)) (s₁.found t w) (Mem.addrOffset (s₂.address w)) =
              some data₁ →
            mergedWord operation (s₂.reg (rd w)) (s₂.found t w) (Mem.addrOffset (s₂.address w)) =
              some data₂ →
            SameContents t words (s₁.memory.put t (Mem.alignedAddr (s₂.address w)) data₁)
              (s₂.memory.put t (Mem.alignedAddr (s₂.address w)) data₂) := by
          intro data₁ data₂ first second
          apply Isolation.put_same same.memory
          intro shared
          rw [found fun location place => shared location ((same.memory.place _).trans place)] at first
          exact Option.some.inj (first.symm.trans second)
        cases operation <;> first | exact same.memory | exact merged _ _ rfl rfl

end Sparc.State

namespace Core

variable {t : ThreadId} {words : Set Location}

section

variable {c d : Core} (b : Between c d) (built : c.memoryController.mainMem.Constructed)

include b built

theorem Between.same_served (idle : c.atEngine.held t = none) :
    SameContents t words c.memoryController.contents b.served.memoryController.contents := by
  have turn := b.turn (t := t) built
  have holds := MemoryController.Holds.behavior ⟨rfl, built⟩
  have engine : c.atEngine.memoryController.contents = c.memoryController.contents := by
    rw [b.atEngine_eq, b.frames.exceptMemory]
    exact holds.contents
  have busy : c.atEngine.dma.transferComplete t ≠ .busy := by
    intro busy
    rw [held, if_pos busy] at idle
    cases idle
  obtain ⟨dma, mc, frame, served⟩ := Isolation.dmaController_frame b.dmaRuns
  have unmoved := Dma.wordAt_behavior (s := (b.excepted.dma, b.excepted.memoryController.behavior))
    (by rw [b.frames.exceptMemory]; exact built.behavior) served
  constructor
  · rw [← b.afterEngine_eq]
    have kept := turn.spm
    rw [if_neg fun both => busy both.1] at kept
    exact (kept.trans (congrArg (fun m => Contents.spm m t) engine)).symm
  · intro location _
    rw [frame, unmoved location, b.frames.exceptMemory]
    exact (congrArg (Contents.wordAt · location) holds.contents).symm

theorem Between.built_served : b.served.memoryController.mainMem.Constructed := by
  rw [← b.afterEngine_eq]
  exact (b.turn (t := (0 : ThreadId)) built).built

theorem Between.built_accessed : b.accessed.memoryController.mainMem.Constructed :=
  Isolation.constructed_step .memoryStage (b.built_served built) b.memoryRuns

theorem Between.same_accessed (away : c.exToMem ≠ some t)
    (apart : Apart t words .memoryStage c.afterEngine) :
    SameContents t words b.served.memoryController.contents
      b.accessed.memoryController.contents := by
  rw [b.afterEngine_eq] at apart
  exact (Isolation.memoryStage_other (b.built_served built) (by rwa [b.frames.exToMem]) apart b.memoryRuns).contents

theorem Between.contents_last :
    d.memoryController.contents = b.accessed.memoryController.contents := by
  have accessed := b.built_accessed built
  have fetched := b.fetchRuns
  rw [b.frames.memory]
  cases latch : (decodeStage b.registered).poolToF with
  | none =>
      rw [fetchStage, latch] at fetched
      rw [← Except.ok.inj fetched]
      exact congrArg MemoryController.contents b.frames.fetchMemory
  | some u =>
      rw [← b.frames.fetchMemory] at accessed ⊢
      exact (fetch_holds ⟨rfl, accessed⟩ (fetchStage_at fetched latch)).2.contents

end

namespace History

/-- The contents of the memories before a call. -/
def contents (h : History) (n : Nat) : Contents := (h.state n).memoryController.contents

/-- No other thread stores to the words, and the wheel is as the controller sets it up. -/
structure Private (h : History) (t : ThreadId) (words : Set Location) : Prop where
  short : h.length ≤ 2 ^ 32
  built : (h.state 0).memoryController.mainMem.Constructed
  apart : ∀ n, n < h.length → Apart t words .memoryStage (h.state n).afterEngine

variable {h : History}

theorem Private.ready (secluded : h.Private t words) {n : Nat} (bound : n ≤ h.length) :
    (h.state n).memoryController.mainMem.Constructed :=
  h.built_state secluded.built bound

theorem Private.idle_succ (secluded : h.Private t words) {n : Nat} (bound : n < h.length)
    (idle : (h.state n).held t = none) (away : (h.state n).memToExcept ≠ some t) :
    (h.state n).atEngine.held t = none ∧ (h.state (n + 1)).held t = none := by
  obtain ⟨d, ⟨b⟩, _⟩ := h.call bound
  have same : Isolation.Agree t ∅ (h.state n) b.excepted :=
    Isolation.exceptStage_other (secluded.ready (by omega)) away b.exceptRuns
  have engine : (h.state n).atEngine.held t = none := by
    rw [← idle, b.atEngine_eq]
    exact (held_of_same same.dma).symm
  refine ⟨engine, ?_⟩
  rw [h.held_succ secluded.built bound, engine]
  split <;> rfl

theorem contents_succ (h : History) (built : (h.state 0).memoryController.mainMem.Constructed)
    {n : Nat} (bound : n < h.length) {d : Core} (b : Between (h.state n) d) :
    h.contents (n + 1) = b.accessed.memoryController.contents := by
  obtain ⟨d', ⟨b'⟩, ticks, next⟩ := h.call bound
  have served : b.served = b'.served := b.afterEngine_eq.symm.trans b'.afterEngine_eq
  have accessed : b.accessed = b'.accessed :=
    Except.ok.inj (b.memoryRuns.symm.trans (served ▸ b'.memoryRuns))
  rw [contents, next, (pllBehavior_memories d' ticks).2,
    b'.contents_last (h.built_state built bound.le), accessed]

theorem Makes.contents_succ (built : (h.state 0).memoryController.mainMem.Constructed) {n : Nat}
    (bound : n + 4 < h.length) (own : (h.state (n + 4)).Occupies t 4)
    {p : Pass t MemoryController} (makes : h.Makes n p) :
    p.memory.contents = h.contents (n + 5) := by
  obtain ⟨d, b, same⟩ := makes.memory
  obtain ⟨ht, runs, _⟩ := makes.valid.mem
  have stage := memoryStage_at b.memoryRuns (b.frames.exToMem.trans own.own)
  rw [b.frames.memoryCycles, b.pool_served (own.away (j := 5) (by decide)), ← same,
    ← makes.executed, ← makes.dataMem, runs] at stage
  rw [h.contents_succ built bound b]
  exact congrArg MemoryController.contents (Prod.mk.inj (Except.ok.inj stage)).2

theorem Private.call (secluded : h.Private t words) {n : Nat} (bound : n < h.length)
    (idle : (h.state n).atEngine.held t = none) (away : (h.state n).exToMem ≠ some t) :
    SameContents t words (h.contents n) (h.contents (n + 1)) := by
  obtain ⟨d, ⟨b⟩, _⟩ := h.call bound
  have built := secluded.ready (n := n) (by omega)
  rw [h.contents_succ secluded.built bound b]
  exact (b.same_served built idle).trans (b.same_accessed built away (secluded.apart n bound))

structure Finds (h : History) (words : Set Location) (n : Nat) (p : Pass t MemoryController) :
    Prop where
  fetch : ∃ m, p.round.fetchMemory.Holds m ∧ SameContents t words (h.contents n) m
  data : ∃ m, p.round.memory.Holds m ∧ SameContents t words (h.contents n) m
  left : p.memory.contents = h.contents (n + 5)
  idle : (h.state (n + 5)).held t = none

theorem Private.finds (secluded : h.Private t words) {n : Nat} (bound : n + 6 ≤ h.length)
    (own : ∀ i : Fin 6, (h.state (n + i.val)).Occupies t i) {p : Pass t MemoryController}
    (makes : h.Makes n p) (idle : (h.state n).held t = none) : h.Finds words n p := by
  have away : ∀ k, k ≤ 4 → (h.state (n + k)).memToExcept ≠ some t := fun k inside =>
    (own ⟨k, by omega⟩).away (j := 5) (by simp [Fin.ext_iff]; omega)
  -- Until its memory stage the thread is in neither of the last two latches.
  have early : ∀ k, k ≤ 4 → (h.state (n + k)).held t = none ∧
      SameContents t words (h.contents n) (h.contents (n + k)) := by
    intro k
    induction k with
    | zero => exact fun _ => ⟨idle, SameContents.refl _⟩
    | succ k ih =>
        intro inside
        obtain ⟨held, same⟩ := ih (by omega)
        have occupies := own ⟨k, by omega⟩
        obtain ⟨engine, next⟩ := secluded.idle_succ (n := n + k) (by omega) held
          (away k (by omega))
        exact ⟨next, same.trans (secluded.call (by omega) engine
          (occupies.away (j := 4) (by simp [Fin.ext_iff]; omega)))⟩
  have engine : ∀ k, k ≤ 4 → (h.state (n + k)).atEngine.held t = none ∧
      (h.state (n + k + 1)).held t = none := fun k inside =>
    secluded.idle_succ (by omega) (early k inside).1 (away k inside)
  have built : ∀ k, k ≤ 4 → (h.state (n + k)).memoryController.mainMem.Constructed :=
    fun k inside => secluded.ready (by omega)
  constructor
  case fetch =>
    obtain ⟨d, b, same⟩ := makes.fetchMemory
    rw [same]
    refine ⟨_, ⟨rfl, b.built_accessed (built 0 (by omega))⟩, ?_⟩
    exact (b.same_served (built 0 (by omega)) (engine 0 (by omega)).1).trans
      (b.same_accessed (built 0 (by omega)) ((own 0).away (j := 4) (by decide))
        (secluded.apart n (by omega)))
  case data =>
    obtain ⟨d, b, same⟩ := makes.memory
    rw [same]
    exact ⟨_, ⟨rfl, b.built_served (built 4 le_rfl)⟩, (early 4 le_rfl).2.trans
      (b.same_served (built 4 le_rfl) (engine 4 le_rfl).1)⟩
  case left => exact makes.contents_succ secluded.built (by omega) (own 4)
  case idle => exact (engine 4 le_rfl).2

end History

end Core

end PretIss
