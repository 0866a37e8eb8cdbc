import PretIss.Isolation.Stages

/-! The phases of the core, as one thread sees them: what it reads and what the
other threads store in a phase, and how two cores that agree on the thread go
through the phase. -/

namespace PretIss.Isolation

open PretIss.Core

variable {t u : ThreadId} {words : Set Location}

def touched (m : Contents) (cycles : BitVec 32) (tid : ThreadId) (addr : Word)
    (active : Bool) : List Location :=
  if active && m.granted cycles tid addr then (m.place tid addr).toList else []

theorem mem_touched {m : Contents} {cycles : BitVec 32} {tid : ThreadId} {addr : Word}
    {active : Bool} {location : Location} :
    location ∈ touched m cycles tid addr active ↔
      active = true ∧ m.granted cycles tid addr = true ∧ m.place tid addr = some location := by
  unfold touched
  split
  · simp_all
  · simp_all

/-- The words outside its scratchpad that a thread fetches, loads or copies. -/
def reads (t : ThreadId) : Phase → Core → List Location
  | .fetchStage, c =>
      touched c.memoryController.contents c.cycles t (c.pool t).pc
        (c.poolToF = some t && (c.pool t).enabled && !Fetch.isHeld (c.pool t))
  | .memoryStage, c =>
      touched c.memoryController.contents c.cycles t (accessAddr (c.pool t))
        (c.exToMem = some t && !(c.pool t).isNotValid && (c.pool t).inst.readMemory)
  | .dmaController, c =>
      if c.dma.transferComplete t = .busy ∧ slotGranted c.cycles t then
        (WheeledMem.burstAddrs (c.dma.memSourceReg t) 4).map .main
      else []
  | _, _ => []

def stores (u : ThreadId) : Phase → Core → List Location
  | .memoryStage, c =>
      touched c.memoryController.contents c.cycles u (accessAddr (c.pool u))
        (c.exToMem = some u && !(c.pool u).isNotValid && !(c.pool u).inst.readMemory &&
          (c.pool u).inst.writeMemory)
  | _, _ => []

def executesSync (t : ThreadId) : Phase → Core → Bool
  | .exceptStage, c => c.memToExcept = some t && ExceptStage.consultsBarrier (c.pool t)
  | _, _ => false

/-- The parts of two cores that a thread depends on, apart from the latches. -/
structure Agree (t : ThreadId) (words : Set Location) (c₁ c₂ : Core) : Prop where
  cycles : c₁.cycles = c₂.cycles
  tcount : c₁.tcount = c₂.tcount
  thread : SameThread (c₁.pool t) (c₂.pool t)
  dma : SameDma t c₁.dma c₂.dma
  contents : SameContents t words c₁.memoryController.contents c₂.memoryController.contents
  built₁ : c₁.memoryController.mainMem.Constructed
  built₂ : c₂.memoryController.mainMem.Constructed

structure SameLatches (t : ThreadId) (c₁ c₂ : Core) : Prop where
  poolToF : c₁.poolToF = some t ↔ c₂.poolToF = some t
  fToD : c₁.fToD = some t ↔ c₂.fToD = some t
  dToRa : c₁.dToRa = some t ↔ c₂.dToRa = some t
  raToEx : c₁.raToEx = some t ↔ c₂.raToEx = some t
  exToMem : c₁.exToMem = some t ↔ c₂.exToMem = some t
  memToExcept : c₁.memToExcept = some t ↔ c₂.memToExcept = some t

structure SameCore (t : ThreadId) (words : Set Location) (c₁ c₂ : Core) : Prop where
  agree : Agree t words c₁ c₂
  latches : SameLatches t c₁ c₂

theorem SameThread.symm {h₁ h₂ : HwThread t} (same : SameThread h₁ h₂) : SameThread h₂ h₁ := by
  obtain rfl | ⟨stalled₁, stalled₂⟩ := same.eq_or_stalled
  · exact SameThread.refl _
  · refine ⟨?_, fun free => by simp [stalled₂] at free⟩
    rw [← same.record]

theorem SameThread.trans {h₁ h₂ h₃ : HwThread t} (first : SameThread h₁ h₂)
    (second : SameThread h₂ h₃) : SameThread h₁ h₃ := by
  obtain rfl | ⟨stalled₁, stalled₂⟩ := first.eq_or_stalled
  · exact second
  · refine ⟨?_, fun free => by simp [stalled₁] at free⟩
    rw [← second.record, ← first.record]

namespace Agree

theorem symm {c₁ c₂ : Core} (same : Agree t words c₁ c₂) : Agree t words c₂ c₁ :=
  ⟨same.cycles.symm, same.tcount.symm, same.thread.symm, same.dma.symm, same.contents.symm,
    same.built₂, same.built₁⟩

theorem trans {c₁ c₂ c₃ : Core} (first : Agree t words c₁ c₂) (second : Agree t words c₂ c₃) :
    Agree t words c₁ c₃ :=
  ⟨first.cycles.trans second.cycles, first.tcount.trans second.tcount,
    first.thread.trans second.thread, first.dma.trans second.dma,
    first.contents.trans second.contents, first.built₁, second.built₂⟩

theorem through {c₁ c₂ d₁ d₂ : Core} (same : Agree t words c₁ c₂)
    (frame₁ : Agree t words c₁ d₁) (frame₂ : Agree t words c₂ d₂) : Agree t words d₁ d₂ :=
  frame₁.symm.trans (same.trans frame₂)

end Agree

theorem agree_setThread {c : Core} (built : c.memoryController.mainMem.Constructed)
    (other : u ≠ t) (ht : HwThread u) {mc : MemoryController}
    (contents : SameContents t words c.memoryController.contents mc.contents)
    (ready : mc.mainMem.Constructed) {dma : Dma} (request : SameDma t c.dma dma)
    {d : Core} (cycles : d.cycles = c.cycles) (tcount : d.tcount = c.tcount)
    (pool : d.pool = Function.update c.pool u ht) (memory : d.memoryController = mc)
    (engine : d.dma = dma) : Agree t words c d where
  cycles := cycles.symm
  tcount := tcount.symm
  thread := by
    rw [pool, Function.update_of_ne other.symm]
    exact SameThread.refl _
  dma := engine ▸ request
  contents := memory ▸ contents
  built₁ := built
  built₂ := memory ▸ ready

theorem exceptStage_other {c d : Core} (built : c.memoryController.mainMem.Constructed)
    (away : c.memToExcept ≠ some t) (runs : exceptStage c = .ok d) : Agree t words c d := by
  unfold exceptStage at runs
  cases latch : c.memToExcept with
  | none =>
      rw [latch] at runs
      obtain rfl := Except.ok.inj runs
      exact ⟨rfl, rfl, SameThread.refl _, SameDma.refl _, SameContents.refl _, built, built⟩
  | some u =>
      rw [latch] at runs
      obtain ⟨⟨ht, syncTable, dma⟩, committed, last⟩ := Transition.bind_eq_ok.mp runs
      obtain rfl := Except.ok.inj last
      have other : u ≠ t := fun same => away (same ▸ latch)
      obtain ⟨request, rfl, _⟩ := ExceptStage.behavior_request committed
      exact agree_setThread built other ht (SameContents.refl _) built
        (SameDma.request_other _ request other) rfl rfl rfl rfl rfl

theorem memoryStage_other {c d : Core} (built : c.memoryController.mainMem.Constructed)
    (away : c.exToMem ≠ some t)
    (apart : ∀ u, u ≠ t → ∀ location ∈ stores u .memoryStage c, location ∉ words)
    (runs : memoryStage c = .ok d) : Agree t words c d := by
  unfold memoryStage at runs
  cases latch : c.exToMem with
  | none =>
      rw [latch] at runs
      obtain rfl := Except.ok.inj runs
      exact ⟨rfl, rfl, SameThread.refl _, SameDma.refl _, SameContents.refl _, built, built⟩
  | some u =>
      rw [latch] at runs
      have other : u ≠ t := fun same => away (same ▸ latch)
      obtain ⟨mc, answer, holds⟩ := access_holds ⟨rfl, built⟩ c.cycles (c.pool u)
      obtain ⟨result, accessed, last⟩ := Transition.bind_eq_ok.mp runs
      rw [answer] at accessed
      obtain rfl := Except.ok.inj accessed
      obtain rfl := Except.ok.inj last
      refine agree_setThread built other _ ?_ holds.built (SameDma.refl _) rfl rfl rfl rfl rfl
      rw [holds.contents]
      apply access_other _ _ _ other
      intro valid reads writes granted location place
      exact apart u other location
        (mem_touched.mpr ⟨by simp [latch, valid, reads, writes], granted, place⟩)

theorem fetchStage_other {c d : Core} (built : c.memoryController.mainMem.Constructed)
    (away : c.poolToF ≠ some t) (runs : fetchStage c = .ok d) : Agree t words c d := by
  unfold fetchStage at runs
  cases latch : c.poolToF with
  | none =>
      rw [latch] at runs
      obtain rfl := Except.ok.inj runs
      exact ⟨rfl, rfl, SameThread.refl _, SameDma.refl _, SameContents.refl _, built, built⟩
  | some u =>
      rw [latch] at runs
      have other : u ≠ t := fun same => away (same ▸ latch)
      obtain ⟨⟨ht, mc⟩, fetched, last⟩ := Transition.bind_eq_ok.mp runs
      obtain ⟨_, holds⟩ := fetch_holds ⟨rfl, built⟩ fetched
      obtain rfl := Except.ok.inj last
      refine agree_setThread built other ht ?_ holds.built (SameDma.refl _) rfl rfl rfl rfl rfl
      rw [holds.contents]
      exact SameContents.refl _

theorem regaccStage_other {c d : Core} (built : c.memoryController.mainMem.Constructed)
    (away : c.dToRa ≠ some t) (runs : regaccStage c = .ok d) : Agree t words c d := by
  unfold regaccStage at runs
  cases latch : c.dToRa with
  | none =>
      rw [latch] at runs
      obtain rfl := Except.ok.inj runs
      exact ⟨rfl, rfl, SameThread.refl _, SameDma.refl _, SameContents.refl _, built, built⟩
  | some u =>
      rw [latch] at runs
      have other : u ≠ t := fun same => away (same ▸ latch)
      obtain ⟨ht, _, last⟩ := Transition.bind_eq_ok.mp runs
      obtain rfl := Except.ok.inj last
      exact agree_setThread built other ht (SameContents.refl _) built (SameDma.refl _)
        rfl rfl rfl rfl rfl

theorem executeStage_other {c : Core} (built : c.memoryController.mainMem.Constructed)
    (away : c.raToEx ≠ some t) : Agree t words c (executeStage c) := by
  unfold executeStage
  cases latch : c.raToEx with
  | none => exact ⟨rfl, rfl, SameThread.refl _, SameDma.refl _, SameContents.refl _, built, built⟩
  | some u =>
      have other : u ≠ t := fun same => away (same ▸ latch)
      exact agree_setThread built other _ (SameContents.refl _) built (SameDma.refl _)
        rfl rfl rfl rfl rfl

theorem decodeStage_other {c : Core} (built : c.memoryController.mainMem.Constructed)
    (away : c.fToD ≠ some t) : Agree t words c (decodeStage c) := by
  unfold decodeStage
  cases latch : c.fToD with
  | none => exact ⟨rfl, rfl, SameThread.refl _, SameDma.refl _, SameContents.refl _, built, built⟩
  | some u =>
      have other : u ≠ t := fun same => away (same ▸ latch)
      exact agree_setThread built other _ (SameContents.refl _) built (SameDma.refl _)
        rfl rfl rfl rfl rfl

theorem exceptStage_own {c₁ c₂ d₁ d₂ : Core} (same : Agree t words c₁ c₂)
    (latch₁ : c₁.memToExcept = some t) (latch₂ : c₂.memToExcept = some t)
    (quiet : ExceptStage.consultsBarrier (c₁.pool t) = false)
    (runs₁ : exceptStage c₁ = .ok d₁) (runs₂ : exceptStage c₂ = .ok d₂) :
    Agree t words d₁ d₂ := by
  unfold exceptStage at runs₁ runs₂
  rw [latch₁] at runs₁
  rw [latch₂] at runs₂
  obtain ⟨⟨k₁, table₁, dma₁⟩, first₁, last₁⟩ := Transition.bind_eq_ok.mp runs₁
  obtain ⟨⟨k₂, table₂, dma₂⟩, first₂, last₂⟩ := Transition.bind_eq_ok.mp runs₂
  obtain rfl := Except.ok.inj last₁
  obtain rfl := Except.ok.inj last₂
  obtain ⟨thread, dma⟩ := except_same same.thread quiet same.dma first₁ first₂
  refine ⟨same.cycles, same.tcount, ?_, dma, same.contents, same.built₁, same.built₂⟩
  simpa [setThread] using thread

theorem memoryStage_own {c₁ c₂ d₁ d₂ : Core} (same : Agree t words c₁ c₂)
    (latch₁ : c₁.exToMem = some t) (latch₂ : c₂.exToMem = some t)
    (shared : ∀ location ∈ reads t .memoryStage c₁, location ∈ words)
    (runs₁ : memoryStage c₁ = .ok d₁) (runs₂ : memoryStage c₂ = .ok d₂) :
    Agree t words d₁ d₂ := by
  unfold memoryStage at runs₁ runs₂
  rw [latch₁] at runs₁
  rw [latch₂] at runs₂
  obtain ⟨mc₁, answer₁, holds₁⟩ := access_holds ⟨rfl, same.built₁⟩ c₁.cycles (c₁.pool t)
  obtain ⟨mc₂, answer₂, holds₂⟩ := access_holds ⟨rfl, same.built₂⟩ c₂.cycles (c₂.pool t)
  obtain ⟨_, first₁, last₁⟩ := Transition.bind_eq_ok.mp runs₁
  obtain ⟨_, first₂, last₂⟩ := Transition.bind_eq_ok.mp runs₂
  rw [answer₁] at first₁
  rw [answer₂] at first₂
  obtain rfl := Except.ok.inj first₁
  obtain rfl := Except.ok.inj first₂
  obtain rfl := Except.ok.inj last₁
  obtain rfl := Except.ok.inj last₂
  rw [← same.cycles] at holds₂ ⊢
  obtain ⟨thread, contents⟩ := access_same same.contents c₁.cycles same.thread
    (fun valid reading granted location place =>
      shared location
        (mem_touched.mpr ⟨by simp [latch₁, valid, reading], granted, place⟩))
  refine ⟨same.cycles, same.tcount, ?_, same.dma, ?_, holds₁.built, holds₂.built⟩
  · simpa [setThread] using thread
  · change SameContents t words mc₁.contents mc₂.contents
    rw [holds₁.contents, holds₂.contents]
    exact contents

theorem fetchStage_own {c₁ c₂ d₁ d₂ : Core} (same : Agree t words c₁ c₂)
    (latch₁ : c₁.poolToF = some t) (latch₂ : c₂.poolToF = some t)
    (shared : ∀ location ∈ reads t .fetchStage c₁, location ∈ words)
    (runs₁ : fetchStage c₁ = .ok d₁) (runs₂ : fetchStage c₂ = .ok d₂) :
    Agree t words d₁ d₂ := by
  unfold fetchStage at runs₁ runs₂
  rw [latch₁] at runs₁
  rw [latch₂] at runs₂
  obtain ⟨⟨k₁, mc₁⟩, first₁, last₁⟩ := Transition.bind_eq_ok.mp runs₁
  obtain ⟨⟨k₂, mc₂⟩, first₂, last₂⟩ := Transition.bind_eq_ok.mp runs₂
  obtain rfl := Except.ok.inj last₁
  obtain rfl := Except.ok.inj last₂
  obtain ⟨rfl, holds₁⟩ := fetch_holds ⟨rfl, same.built₁⟩ first₁
  obtain ⟨rfl, holds₂⟩ := fetch_holds ⟨rfl, same.built₂⟩ first₂
  have thread := fetch_same same.contents c₁.cycles same.thread
    (fun enabled free granted location place =>
      shared location
        (mem_touched.mpr ⟨by simp [latch₁, enabled, free], granted, place⟩))
  refine ⟨same.cycles, same.tcount, ?_, same.dma, ?_, holds₁.built, holds₂.built⟩
  · rw [← same.cycles]
    simpa [setThread] using thread
  · change SameContents t words mc₁.contents mc₂.contents
    rw [holds₁.contents, holds₂.contents]
    exact same.contents

theorem regaccStage_own {c₁ c₂ d₁ d₂ : Core} (same : Agree t words c₁ c₂)
    (latch₁ : c₁.dToRa = some t) (latch₂ : c₂.dToRa = some t)
    (runs₁ : regaccStage c₁ = .ok d₁) (runs₂ : regaccStage c₂ = .ok d₂) :
    Agree t words d₁ d₂ := by
  unfold regaccStage at runs₁ runs₂
  rw [latch₁] at runs₁
  rw [latch₂] at runs₂
  obtain ⟨k₁, first₁, last₁⟩ := Transition.bind_eq_ok.mp runs₁
  obtain ⟨k₂, first₂, last₂⟩ := Transition.bind_eq_ok.mp runs₂
  obtain rfl := Except.ok.inj last₁
  obtain rfl := Except.ok.inj last₂
  refine ⟨same.cycles, same.tcount, ?_, same.dma, same.contents, same.built₁, same.built₂⟩
  simpa [setThread] using regacc_same same.thread first₁ first₂

theorem executeStage_own {c₁ c₂ : Core} (same : Agree t words c₁ c₂)
    (latch₁ : c₁.raToEx = some t) (latch₂ : c₂.raToEx = some t) :
    Agree t words (executeStage c₁) (executeStage c₂) := by
  unfold executeStage
  rw [latch₁, latch₂]
  refine ⟨same.cycles, same.tcount, ?_, same.dma, same.contents, same.built₁, same.built₂⟩
  simpa [setThread] using execute_same same.thread

theorem decodeStage_own {c₁ c₂ : Core} (same : Agree t words c₁ c₂)
    (latch₁ : c₁.fToD = some t) (latch₂ : c₂.fToD = some t) :
    Agree t words (decodeStage c₁) (decodeStage c₂) := by
  unfold decodeStage
  rw [latch₁, latch₂]
  refine ⟨same.cycles, same.tcount, ?_, same.dma, same.contents, same.built₁, same.built₂⟩
  simpa [setThread] using decode_same same.thread

theorem exceptStage_frame {c d : Core} (runs : exceptStage c = .ok d) :
    ∃ pool syncTable dma, d = { c with pool, syncTable, dma } := by
  unfold exceptStage at runs
  split at runs
  · exact ⟨c.pool, c.syncTable, c.dma, (Except.ok.inj runs).symm⟩
  · obtain ⟨⟨_, syncTable, dma⟩, _, last⟩ := Transition.bind_eq_ok.mp runs
    exact ⟨_, syncTable, dma, (Except.ok.inj last).symm⟩

theorem memoryStage_frame {c d : Core} (runs : memoryStage c = .ok d) :
    ∃ pool memoryController,
      d = { c with pool, memoryController, memToExcept := c.exToMem } := by
  unfold memoryStage at runs
  split at runs
  · exact ⟨c.pool, c.memoryController, (Except.ok.inj runs).symm⟩
  · obtain ⟨⟨_, mc⟩, _, last⟩ := Transition.bind_eq_ok.mp runs
    exact ⟨_, mc, (Except.ok.inj last).symm⟩

theorem fetchStage_frame {c d : Core} (runs : fetchStage c = .ok d) :
    ∃ pool memoryController, d = { c with pool, memoryController, fToD := c.poolToF } := by
  unfold fetchStage at runs
  split at runs
  · exact ⟨c.pool, c.memoryController, (Except.ok.inj runs).symm⟩
  · obtain ⟨⟨_, mc⟩, _, last⟩ := Transition.bind_eq_ok.mp runs
    exact ⟨_, mc, (Except.ok.inj last).symm⟩

theorem regaccStage_frame {c d : Core} (runs : regaccStage c = .ok d) :
    ∃ pool, d = { c with pool, raToEx := c.dToRa } := by
  unfold regaccStage at runs
  split at runs
  · exact ⟨c.pool, (Except.ok.inj runs).symm⟩
  · obtain ⟨_, _, last⟩ := Transition.bind_eq_ok.mp runs
    exact ⟨_, (Except.ok.inj last).symm⟩

theorem executeStage_frame (c : Core) :
    ∃ pool, executeStage c = { c with pool, exToMem := c.raToEx } := by
  unfold executeStage
  split
  · exact ⟨c.pool, rfl⟩
  · exact ⟨_, rfl⟩

theorem decodeStage_frame (c : Core) :
    ∃ pool, decodeStage c = { c with pool, dToRa := c.fToD } := by
  unfold decodeStage
  split
  · exact ⟨c.pool, rfl⟩
  · exact ⟨_, rfl⟩

theorem dmaController_frame {c d : Core} (runs : dmaController c = .ok d) :
    ∃ dma memoryController, d = { c with dma, memoryController } ∧
      Dma.behavior c.cycles c.dma c.memoryController = .ok (dma, memoryController) := by
  obtain ⟨⟨dma, mc⟩, served, last⟩ := Transition.bind_eq_ok.mp runs
  exact ⟨dma, mc, (Except.ok.inj last).symm, served⟩

/-- No phase leaves an access of the wheel in progress. -/
theorem constructed_step (p : Phase) {c d : Core}
    (built : c.memoryController.mainMem.Constructed) (runs : step p c = .ok d) :
    d.memoryController.mainMem.Constructed := by
  cases p with
  | exceptStage =>
      obtain ⟨pool, table, dma, rfl⟩ := exceptStage_frame runs
      exact built
  | memoryController =>
      obtain rfl := Except.ok.inj runs
      exact built.behavior
  | dmaController =>
      obtain ⟨dma, mc, rfl, served⟩ := dmaController_frame runs
      exact Transition.invariant_run _
        (fun s : Dma × MemoryController => s.2.mainMem.Constructed) (fun _ _ => True)
        (fun _ _ _ _ built served => (serve_effect built served).1) built
        (fun _ _ => trivial) served
  | memoryStage =>
      change memoryStage c = .ok d at runs
      unfold memoryStage at runs
      split at runs
      · obtain rfl := Except.ok.inj runs
        exact built
      · rename_i u _
        obtain ⟨mc, answer, holds⟩ := access_holds ⟨rfl, built⟩ c.cycles (c.pool u)
        obtain ⟨_, accessed, last⟩ := Transition.bind_eq_ok.mp runs
        rw [answer] at accessed
        obtain rfl := Except.ok.inj accessed
        obtain rfl := Except.ok.inj last
        exact holds.built
  | executeStage =>
      obtain rfl := Except.ok.inj runs
      obtain ⟨pool, frame⟩ := executeStage_frame c
      rw [frame]
      exact built
  | regaccStage =>
      obtain ⟨pool, rfl⟩ := regaccStage_frame runs
      exact built
  | decodeStage =>
      obtain rfl := Except.ok.inj runs
      obtain ⟨pool, frame⟩ := decodeStage_frame c
      rw [frame]
      exact built
  | fetchStage =>
      change fetchStage c = .ok d at runs
      unfold fetchStage at runs
      split at runs
      · obtain rfl := Except.ok.inj runs
        exact built
      · obtain ⟨_, fetched, last⟩ := Transition.bind_eq_ok.mp runs
        obtain rfl := Except.ok.inj last
        exact (fetch_holds ⟨rfl, built⟩ fetched).2.built
  | threadController | cycleCounter | pll =>
      obtain rfl := Except.ok.inj runs
      exact built

/-- The first run reads only shared words for the thread, keeps other stores away
from them and executes no SYNC for it. -/
structure Quiet (t : ThreadId) (words : Set Location) (p : Phase) (c : Core) : Prop where
  reads : ∀ location ∈ reads t p c, location ∈ words
  stores : ∀ u, u ≠ t → ∀ location ∈ stores u p c, location ∉ words
  sync : executesSync t p c = false

/-- The second run only has to keep other stores away from the shared words. -/
def Apart (t : ThreadId) (words : Set Location) (p : Phase) (c : Core) : Prop :=
  ∀ u, u ≠ t → ∀ location ∈ stores u p c, location ∉ words

end PretIss.Isolation
