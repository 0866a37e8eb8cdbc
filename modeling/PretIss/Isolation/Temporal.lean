import PretIss.Isolation.Phases

/-! Temporal isolation of the core. Two cores that agree on a thread, and whose
other threads leave alone the words it reads, run that thread alike: the grants
of the wheel depend on the cycle and on the thread, never on the other threads. -/

namespace PretIss.Isolation

open PretIss.Core

variable {t : ThreadId} {words : Set Location}

/-- One phase on two cores that agree. -/
theorem step_same (p : Phase) {c₁ c₂ d₁ d₂ : Core} (quiet : Quiet t words p c₁)
    (apart : Apart t words p c₂) (same : SameCore t words c₁ c₂)
    (runs₁ : step p c₁ = .ok d₁) (runs₂ : step p c₂ = .ok d₂) : SameCore t words d₁ d₂ := by
  obtain ⟨agree, latches⟩ := same
  cases p with
  | exceptStage =>
      refine ⟨?_, ?_⟩
      · by_cases latch : c₁.memToExcept = some t
        · refine exceptStage_own agree latch (latches.memToExcept.mp latch) ?_ runs₁ runs₂
          simpa [executesSync, latch] using quiet.sync
        · exact agree.through (exceptStage_other agree.built₁ latch runs₁)
            (exceptStage_other agree.built₂ (mt latches.memToExcept.mpr latch) runs₂)
      · obtain ⟨pool₁, table₁, dma₁, rfl⟩ := exceptStage_frame runs₁
        obtain ⟨pool₂, table₂, dma₂, rfl⟩ := exceptStage_frame runs₂
        exact { latches with memToExcept := latches.memToExcept }
  | memoryController =>
      obtain rfl := Except.ok.inj runs₁
      obtain rfl := Except.ok.inj runs₂
      refine ⟨⟨agree.cycles, agree.tcount, agree.thread, agree.dma, ?_, agree.built₁.behavior,
        agree.built₂.behavior⟩, { latches with poolToF := latches.poolToF }⟩
      simpa [MemoryController.behavior, MemoryController.contents] using agree.contents
  | dmaController =>
      obtain ⟨dma₁, mc₁, rfl, served₁⟩ := dmaController_frame runs₁
      obtain ⟨dma₂, mc₂, rfl, served₂⟩ := dmaController_frame runs₂
      rw [← agree.cycles] at served₂
      have transfer : SameTransfer t words c₁.cycles (c₁.dma, c₁.memoryController)
          (c₂.dma, c₂.memoryController) :=
        ⟨agree.dma, agree.contents, agree.built₁, agree.built₂, fun busy granted addr member =>
          quiet.reads (.main addr) (by simpa [reads, granted] using And.intro busy member)⟩
      have result := dma_same transfer served₁ served₂
      exact ⟨⟨agree.cycles, agree.tcount, agree.thread, result.dma, result.contents,
        result.built₁, result.built₂⟩, { latches with poolToF := latches.poolToF }⟩
  | memoryStage =>
      refine ⟨?_, ?_⟩
      · by_cases latch : c₁.exToMem = some t
        · exact memoryStage_own agree latch (latches.exToMem.mp latch) quiet.reads runs₁ runs₂
        · exact agree.through (memoryStage_other agree.built₁ latch quiet.stores runs₁)
            (memoryStage_other agree.built₂ (mt latches.exToMem.mpr latch) apart runs₂)
      · obtain ⟨pool₁, mc₁, rfl⟩ := memoryStage_frame runs₁
        obtain ⟨pool₂, mc₂, rfl⟩ := memoryStage_frame runs₂
        exact { latches with memToExcept := latches.exToMem }
  | executeStage =>
      obtain rfl := Except.ok.inj runs₁
      obtain rfl := Except.ok.inj runs₂
      refine ⟨?_, ?_⟩
      · by_cases latch : c₁.raToEx = some t
        · exact executeStage_own agree latch (latches.raToEx.mp latch)
        · exact agree.through (executeStage_other agree.built₁ latch)
            (executeStage_other agree.built₂ (mt latches.raToEx.mpr latch))
      · obtain ⟨pool₁, frame₁⟩ := executeStage_frame c₁
        obtain ⟨pool₂, frame₂⟩ := executeStage_frame c₂
        rw [frame₁, frame₂]
        exact { latches with exToMem := latches.raToEx }
  | regaccStage =>
      refine ⟨?_, ?_⟩
      · by_cases latch : c₁.dToRa = some t
        · exact regaccStage_own agree latch (latches.dToRa.mp latch) runs₁ runs₂
        · exact agree.through (regaccStage_other agree.built₁ latch runs₁)
            (regaccStage_other agree.built₂ (mt latches.dToRa.mpr latch) runs₂)
      · obtain ⟨pool₁, rfl⟩ := regaccStage_frame runs₁
        obtain ⟨pool₂, rfl⟩ := regaccStage_frame runs₂
        exact { latches with raToEx := latches.dToRa }
  | decodeStage =>
      obtain rfl := Except.ok.inj runs₁
      obtain rfl := Except.ok.inj runs₂
      refine ⟨?_, ?_⟩
      · by_cases latch : c₁.fToD = some t
        · exact decodeStage_own agree latch (latches.fToD.mp latch)
        · exact agree.through (decodeStage_other agree.built₁ latch)
            (decodeStage_other agree.built₂ (mt latches.fToD.mpr latch))
      · obtain ⟨pool₁, frame₁⟩ := decodeStage_frame c₁
        obtain ⟨pool₂, frame₂⟩ := decodeStage_frame c₂
        rw [frame₁, frame₂]
        exact { latches with dToRa := latches.fToD }
  | fetchStage =>
      refine ⟨?_, ?_⟩
      · by_cases latch : c₁.poolToF = some t
        · exact fetchStage_own agree latch (latches.poolToF.mp latch) quiet.reads runs₁ runs₂
        · exact agree.through (fetchStage_other agree.built₁ latch runs₁)
            (fetchStage_other agree.built₂ (mt latches.poolToF.mpr latch) runs₂)
      · obtain ⟨pool₁, mc₁, rfl⟩ := fetchStage_frame runs₁
        obtain ⟨pool₂, mc₂, rfl⟩ := fetchStage_frame runs₂
        exact { latches with fToD := latches.poolToF }
  | threadController =>
      obtain rfl := Except.ok.inj runs₁
      obtain rfl := Except.ok.inj runs₂
      refine ⟨⟨agree.cycles, ?_, agree.thread, agree.dma, agree.contents, agree.built₁,
        agree.built₂⟩, { latches with poolToF := ?_ }⟩
      · simp only [threadController, agree.tcount]
      · simp only [threadController, agree.tcount]
  | cycleCounter =>
      obtain rfl := Except.ok.inj runs₁
      obtain rfl := Except.ok.inj runs₂
      refine ⟨⟨?_, agree.tcount, agree.thread, agree.dma, agree.contents, agree.built₁,
        agree.built₂⟩, { latches with poolToF := latches.poolToF }⟩
      simp only [agree.cycles]
  | pll =>
      obtain rfl := Except.ok.inj runs₁
      obtain rfl := Except.ok.inj runs₂
      refine ⟨⟨agree.cycles, agree.tcount, ?_, agree.dma, agree.contents, agree.built₁,
        agree.built₂⟩, { latches with poolToF := latches.poolToF }⟩
      exact agree.thread.update
        (fun h => { h with specRegs := h.specRegs.decrementPllTimers })
        (fun _ _ => rfl) (fun _ => rfl) (fun _ => rfl)

/-- The calls that a run of the core is made of. -/
inductive Call where
  | behavior | pllBehavior
  deriving DecidableEq, Repr

def Call.phases : Call → List Phase
  | .behavior => Core.phases
  | .pllBehavior => [.pll]

/-- The phases of a sequence of calls. -/
def schedule (calls : List Call) : List Phase := calls.flatMap Call.phases

/-- Cores that agree on everything a thread owns, and on the words it reads. -/
structure SameStart (t : ThreadId) (words : Set Location) (c₁ c₂ : Core) : Prop where
  cycles : c₁.cycles = c₂.cycles
  tcount : c₁.tcount = c₂.tcount
  latches : SameLatches t c₁ c₂
  thread : c₁.pool t = c₂.pool t
  spm : c₁.memoryController.instScratchpad t = c₂.memoryController.instScratchpad t
  dma : SameDma t c₁.dma c₂.dma
  words : ∀ location ∈ words, c₁.memoryController.contents.wordAt location =
    c₂.memoryController.contents.wordAt location
  built₁ : c₁.memoryController.mainMem.Constructed
  built₂ : c₂.memoryController.mainMem.Constructed

theorem SameStart.sameCore {c₁ c₂ : Core} (start : SameStart t words c₁ c₂) :
    SameCore t words c₁ c₂ where
  agree :=
    ⟨start.cycles, start.tcount, start.thread ▸ SameThread.refl _, start.dma,
      ⟨start.spm, start.words⟩, start.built₁, start.built₂⟩
  latches := start.latches

/-- A thread runs alike in two cores, whatever the other threads do with the
wheel and the engine: after any calls of `behavior` and any ticks of the PLL
clock its scratchpad is the same, and so is its record, but for an instruction
whose fetch stalled. -/
theorem temporal_isolation (t : ThreadId) (words : Set Location) (calls : List Call)
    (c₁ c₂ d₁ d₂ : Core) (start : SameStart t words c₁ c₂)
    (quiet : ∀ entry ∈ Transition.trail step (schedule calls) c₁,
      Quiet t words entry.1 entry.2)
    (apart : ∀ entry ∈ Transition.trail step (schedule calls) c₂,
      Apart t words entry.1 entry.2)
    (runs₁ : Transition.run step (schedule calls) c₁ = .ok d₁)
    (runs₂ : Transition.run step (schedule calls) c₂ = .ok d₂) :
    { d₁.pool t with inst := (d₂.pool t).inst } = d₂.pool t ∧
      ((d₁.pool t).fetchStalled = false → (d₁.pool t).inst = (d₂.pool t).inst) ∧
      d₁.memoryController.instScratchpad t = d₂.memoryController.instScratchpad t := by
  have same := Transition.simulation_run step (SameCore t words) (Quiet t words) (Apart t words)
    (fun p _ _ _ _ quiet apart same first second => step_same p quiet apart same first second)
    start.sameCore quiet apart runs₁ runs₂
  exact ⟨same.agree.thread.record, same.agree.thread.inst, same.agree.contents.spm⟩

instance [DecidablePred (· ∈ words)] (p : Phase) (c : Core) : Decidable (Quiet t words p c) :=
  decidable_of_iff
    ((∀ location ∈ reads t p c, location ∈ words) ∧
      (∀ u, u ≠ t → ∀ location ∈ stores u p c, location ∉ words) ∧ executesSync t p c = false)
    ⟨fun ⟨reads, stores, sync⟩ => ⟨reads, stores, sync⟩,
      fun quiet => ⟨quiet.reads, quiet.stores, quiet.sync⟩⟩

instance [DecidablePred (· ∈ words)] (p : Phase) (c : Core) : Decidable (Apart t words p c) :=
  inferInstanceAs (Decidable (∀ u, u ≠ t → ∀ location ∈ stores u p c, location ∉ words))

/-- A core whose thread 1 starts at a fixed address and the others at a chosen one. -/
def startAt (pc : Word) : Core :=
  .create
    (fun id =>
      { HwThread.create id (if id = 1 then 0x40000000 else pc) (fun _ => 0) with enabled := true })
    .create

def firstWord : Set Location := fun location => location = .main 0x40000000

instance : DecidablePred (· ∈ firstWord) :=
  fun location => inferInstanceAs (Decidable (location = .main 0x40000000))

def threeCalls : List Call := [.behavior, .behavior, .behavior]

theorem startAt_same : SameStart 1 firstWord (startAt 0) (startAt 0x50000000) where
  cycles := rfl
  tcount := rfl
  latches := ⟨Iff.rfl, Iff.rfl, Iff.rfl, Iff.rfl, Iff.rfl, Iff.rfl⟩
  thread := rfl
  spm := rfl
  dma := SameDma.refl _
  words := fun _ _ => rfl
  built₁ := WheeledMem.create_constructed
  built₂ := WheeledMem.create_constructed

theorem startAt_returns (pc : Word) (chosen : pc = 0 ∨ pc = 0x50000000) :
    ∃ d, Transition.run step (schedule threeCalls) (startAt pc) = .ok d := by
  have returns : (Transition.run step (schedule threeCalls) (startAt pc)).isOk = true := by
    rcases chosen with rfl | rfl <;> decide +kernel
  cases result : Transition.run step (schedule threeCalls) (startAt pc) with
  | error e =>
      rw [result] at returns
      cases returns
  | ok d => exact ⟨d, rfl⟩

/-- In the third call thread 1 reads the shared word in a slot of the wheel. -/
theorem temporal_isolation_startAt :
    ∃ d₁ d₂, Transition.run step (schedule threeCalls) (startAt 0) = .ok d₁ ∧
      Transition.run step (schedule threeCalls) (startAt 0x50000000) = .ok d₂ ∧
      { d₁.pool 1 with inst := (d₂.pool 1).inst } = d₂.pool 1 ∧
      ((d₁.pool 1).fetchStalled = false → (d₁.pool 1).inst = (d₂.pool 1).inst) ∧
      d₁.memoryController.instScratchpad 1 = d₂.memoryController.instScratchpad 1 := by
  obtain ⟨d₁, runs₁⟩ := startAt_returns 0 (Or.inl rfl)
  obtain ⟨d₂, runs₂⟩ := startAt_returns 0x50000000 (Or.inr rfl)
  exact ⟨d₁, d₂, runs₁, runs₂, temporal_isolation 1 firstWord threeCalls (startAt 0)
    (startAt 0x50000000) d₁ d₂ startAt_same (by decide +kernel) (by decide +kernel) runs₁ runs₂⟩

end PretIss.Isolation
