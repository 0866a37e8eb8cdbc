import PretIss.Pipeline.Interleave

/-! One call of `behavior`, taken apart. Each stage works on the thread in its latch and
leaves the others alone, so a call moves every thread by the one stage it is in. -/

namespace PretIss.Core

variable {t : ThreadId} {c d : Core}

theorem setThread_own (c : Core) (ht : HwThread t) : (c.setThread t ht).pool t = ht := by
  simp [setThread]

theorem setThread_away (c : Core) {u : ThreadId} {latch : Option ThreadId} (held : latch = some u)
    (away : latch ≠ some t) (ht : HwThread u) : (c.setThread u ht).pool t = c.pool t := by
  have other : t ≠ u := by
    rintro rfl
    exact away held
  simp [setThread, Function.update_of_ne other]

section

variable (runs : exceptStage c = .ok d)

include runs

theorem exceptStage_away (away : c.memToExcept ≠ some t) : d.pool t = c.pool t := by
  unfold exceptStage at runs
  cases latch : c.memToExcept with
  | none =>
      rw [latch] at runs
      obtain rfl := Except.ok.inj runs
      rfl
  | some u =>
      rw [latch] at runs
      obtain ⟨⟨ht, _, _⟩, _, last⟩ := Transition.bind_eq_ok.mp runs
      obtain rfl := Except.ok.inj last
      exact setThread_away c latch away ht

theorem exceptStage_at (own : c.memToExcept = some t) :
    ExceptStage.behavior (c.pool t) c.syncTable c.dma = .ok (d.pool t, d.syncTable, d.dma) := by
  unfold exceptStage at runs
  rw [own] at runs
  obtain ⟨⟨ht, _, _⟩, commits, last⟩ := Transition.bind_eq_ok.mp runs
  obtain rfl := Except.ok.inj last
  rw [commits]
  simp [setThread]

end

section

variable (runs : memoryStage c = .ok d)

include runs

theorem memoryStage_away (away : c.exToMem ≠ some t) : d.pool t = c.pool t := by
  unfold memoryStage at runs
  cases latch : c.exToMem with
  | none =>
      rw [latch] at runs
      obtain rfl := Except.ok.inj runs
      rfl
  | some u =>
      rw [latch] at runs
      obtain ⟨⟨ht, _⟩, _, last⟩ := Transition.bind_eq_ok.mp runs
      obtain rfl := Except.ok.inj last
      exact setThread_away c latch away ht

theorem memoryStage_at (own : c.exToMem = some t) :
    Mem.behavior (MemoryController.memStageIf c.cycles) (c.pool t) c.memoryController =
      .ok (d.pool t, d.memoryController) := by
  unfold memoryStage at runs
  rw [own] at runs
  obtain ⟨⟨ht, _⟩, accesses, last⟩ := Transition.bind_eq_ok.mp runs
  obtain rfl := Except.ok.inj last
  rw [accesses]
  simp [setThread]

end

theorem executeStage_away (away : c.raToEx ≠ some t) : (executeStage c).pool t = c.pool t := by
  unfold executeStage
  cases latch : c.raToEx with
  | none => rfl
  | some u => exact setThread_away c latch away _

theorem executeStage_at (own : c.raToEx = some t) :
    (executeStage c).pool t = Execute.behavior (c.pool t) := by
  unfold executeStage
  rw [own]
  exact setThread_own c _

section

variable (runs : regaccStage c = .ok d)

include runs

theorem regaccStage_away (away : c.dToRa ≠ some t) : d.pool t = c.pool t := by
  unfold regaccStage at runs
  cases latch : c.dToRa with
  | none =>
      rw [latch] at runs
      obtain rfl := Except.ok.inj runs
      rfl
  | some u =>
      rw [latch] at runs
      obtain ⟨ht, _, last⟩ := Transition.bind_eq_ok.mp runs
      obtain rfl := Except.ok.inj last
      exact setThread_away c latch away ht

theorem regaccStage_at (own : c.dToRa = some t) :
    Regacc.behavior (c.pool t) = .ok (d.pool t) := by
  unfold regaccStage at runs
  rw [own] at runs
  obtain ⟨ht, accesses, last⟩ := Transition.bind_eq_ok.mp runs
  obtain rfl := Except.ok.inj last
  rw [accesses]
  simp [setThread]

end

theorem decodeStage_away (away : c.fToD ≠ some t) : (decodeStage c).pool t = c.pool t := by
  unfold decodeStage
  cases latch : c.fToD with
  | none => rfl
  | some u => exact setThread_away c latch away _

theorem decodeStage_at (own : c.fToD = some t) :
    (decodeStage c).pool t = Decode.behavior (c.pool t) := by
  unfold decodeStage
  rw [own]
  exact setThread_own c _

section

variable (runs : fetchStage c = .ok d)

include runs

theorem fetchStage_away (away : c.poolToF ≠ some t) : d.pool t = c.pool t := by
  unfold fetchStage at runs
  cases latch : c.poolToF with
  | none =>
      rw [latch] at runs
      obtain rfl := Except.ok.inj runs
      rfl
  | some u =>
      rw [latch] at runs
      obtain ⟨⟨ht, _⟩, _, last⟩ := Transition.bind_eq_ok.mp runs
      obtain rfl := Except.ok.inj last
      exact setThread_away c latch away ht

theorem fetchStage_at (own : c.poolToF = some t) :
    Fetch.behavior (MemoryController.fetchStageIf c.cycles) (c.pool t) c.memoryController =
      .ok (d.pool t, d.memoryController) := by
  unfold fetchStage at runs
  rw [own] at runs
  obtain ⟨⟨ht, _⟩, fetches, last⟩ := Transition.bind_eq_ok.mp runs
  obtain rfl := Except.ok.inj last
  rw [fetches]
  simp [setThread]

end

/-- The cores between the stages of a call. -/
structure Between (c d : Core) where
  excepted : Core
  served : Core
  accessed : Core
  registered : Core
  fetched : Core
  exceptRuns : exceptStage c = .ok excepted
  dmaRuns : dmaController
    { excepted with memoryController := excepted.memoryController.behavior } = .ok served
  memoryRuns : memoryStage served = .ok accessed
  regaccRuns : regaccStage (executeStage accessed) = .ok registered
  fetchRuns : fetchStage (decodeStage registered) = .ok fetched
  last : d = { threadController fetched with cycles := fetched.cycles + 1 }

theorem behavior_between (runs : behavior c = .ok d) : Nonempty (Between c d) := by
  simp only [behavior, phases, Transition.run_cons_eq_ok, Transition.run_nil] at runs
  obtain ⟨excepted, one, _, two, served, three, accessed, four, _, five, registered, six, _, seven,
    fetched, eight, _, nine, _, ten, last⟩ := runs
  obtain rfl := Except.ok.inj two
  obtain rfl := Except.ok.inj five
  obtain rfl := Except.ok.inj seven
  obtain rfl := Except.ok.inj nine
  obtain rfl := Except.ok.inj ten
  obtain rfl := Except.ok.inj last
  exact ⟨⟨excepted, served, accessed, registered, fetched, one, three, four, six, eight, rfl⟩⟩

/-- A stage finds the latches before it, the counters and the memories as the phases that
do not work on them leave them. -/
structure Between.Frames (b : Between c d) : Prop where
  exToMem : b.served.exToMem = c.exToMem
  raToEx : b.accessed.raToEx = c.raToEx
  dToRa : (executeStage b.accessed).dToRa = c.dToRa
  fToD : b.registered.fToD = c.fToD
  poolToF : (decodeStage b.registered).poolToF = c.poolToF
  exceptCycles : b.excepted.cycles = c.cycles
  memoryCycles : b.served.cycles = c.cycles
  fetchCycles : (decodeStage b.registered).cycles = c.cycles
  exceptMemory : b.excepted.memoryController = c.memoryController
  fetchMemory : (decodeStage b.registered).memoryController = b.accessed.memoryController
  memory : d.memoryController = b.fetched.memoryController
  dma : d.dma = b.served.dma
  servedPool : b.served.pool = b.excepted.pool
  pool : d.pool = b.fetched.pool

theorem Between.frames (b : Between c d) : b.Frames := by
  obtain ⟨_, _, _, except⟩ := Isolation.exceptStage_frame b.exceptRuns
  obtain ⟨_, _, serve, _⟩ := Isolation.dmaController_frame b.dmaRuns
  obtain ⟨_, _, access⟩ := Isolation.memoryStage_frame b.memoryRuns
  obtain ⟨_, execute⟩ := Isolation.executeStage_frame b.accessed
  obtain ⟨_, register⟩ := Isolation.regaccStage_frame b.regaccRuns
  obtain ⟨_, decode⟩ := Isolation.decodeStage_frame b.registered
  obtain ⟨_, _, fetch⟩ := Isolation.fetchStage_frame b.fetchRuns
  -- The latches are read before the phase that fills them.
  have raToEx : b.accessed.raToEx = c.raToEx :=
    calc b.accessed.raToEx = b.served.raToEx := by rw [access]
      _ = b.excepted.raToEx := by rw [serve]
      _ = c.raToEx := by rw [except]
  have dToRa : (executeStage b.accessed).dToRa = c.dToRa :=
    calc (executeStage b.accessed).dToRa = b.accessed.dToRa := by rw [execute]
      _ = b.served.dToRa := by rw [access]
      _ = b.excepted.dToRa := by rw [serve]
      _ = c.dToRa := by rw [except]
  have fToD : b.registered.fToD = c.fToD :=
    calc b.registered.fToD = (executeStage b.accessed).fToD := by rw [register]
      _ = b.accessed.fToD := by rw [execute]
      _ = b.served.fToD := by rw [access]
      _ = b.excepted.fToD := by rw [serve]
      _ = c.fToD := by rw [except]
  have poolToF : (decodeStage b.registered).poolToF = c.poolToF :=
    calc (decodeStage b.registered).poolToF = b.registered.poolToF := by rw [decode]
      _ = (executeStage b.accessed).poolToF := by rw [register]
      _ = b.accessed.poolToF := by rw [execute]
      _ = b.served.poolToF := by rw [access]
      _ = b.excepted.poolToF := by rw [serve]
      _ = c.poolToF := by rw [except]
  have memoryCycles : b.served.cycles = c.cycles :=
    calc b.served.cycles = b.excepted.cycles := by rw [serve]
      _ = c.cycles := by rw [except]
  have fetchCycles : (decodeStage b.registered).cycles = c.cycles :=
    calc (decodeStage b.registered).cycles = b.registered.cycles := by rw [decode]
      _ = (executeStage b.accessed).cycles := by rw [register]
      _ = b.accessed.cycles := by rw [execute]
      _ = b.served.cycles := by rw [access]
      _ = c.cycles := memoryCycles
  have fetchMemory : (decodeStage b.registered).memoryController = b.accessed.memoryController :=
    calc (decodeStage b.registered).memoryController = b.registered.memoryController := by rw [decode]
      _ = (executeStage b.accessed).memoryController := by rw [register]
      _ = b.accessed.memoryController := by rw [execute]
  have dma : d.dma = b.served.dma :=
    calc d.dma = b.fetched.dma := (congrArg Core.dma b.last).trans rfl
      _ = (decodeStage b.registered).dma := by rw [fetch]
      _ = b.registered.dma := by rw [decode]
      _ = (executeStage b.accessed).dma := by rw [register]
      _ = b.accessed.dma := by rw [execute]
      _ = b.served.dma := by rw [access]
  exact
    { exToMem := by rw [serve, except]
      raToEx, dToRa, fToD, poolToF, memoryCycles, fetchCycles, fetchMemory, dma
      exceptCycles := by rw [except]
      exceptMemory := by rw [except]
      memory := (congrArg Core.memoryController b.last).trans rfl
      servedPool := by rw [serve]
      pool := (congrArg Core.pool b.last).trans rfl }

namespace Between

variable (b : Between c d)

theorem pool_served (except : c.memToExcept ≠ some t) : b.served.pool t = c.pool t := by
  rw [b.frames.servedPool, exceptStage_away b.exceptRuns except]

theorem pool_accessed (mem : c.exToMem ≠ some t) : b.accessed.pool t = b.served.pool t :=
  memoryStage_away b.memoryRuns (by rwa [b.frames.exToMem])

theorem pool_executed (execute : c.raToEx ≠ some t) :
    (executeStage b.accessed).pool t = b.accessed.pool t :=
  executeStage_away (by rwa [b.frames.raToEx])

theorem pool_registered (regacc : c.dToRa ≠ some t) :
    b.registered.pool t = (executeStage b.accessed).pool t :=
  regaccStage_away b.regaccRuns (by rwa [b.frames.dToRa])

theorem pool_decoded (decode : c.fToD ≠ some t) :
    (decodeStage b.registered).pool t = b.registered.pool t :=
  decodeStage_away (by rwa [b.frames.fToD])

theorem pool_fetched (fetch : c.poolToF ≠ some t) :
    d.pool t = (decodeStage b.registered).pool t := by
  rw [b.frames.pool, fetchStage_away b.fetchRuns (by rwa [b.frames.poolToF])]

end Between

def Occupies (c : Core) (t : ThreadId) (i : Fin 6) : Prop := ∀ j, c.latch j = some t ↔ j = i

theorem Between.idle (b : Between c d) (nowhere : ∀ j, c.latch j ≠ some t) :
    d.pool t = c.pool t := by
  rw [b.pool_fetched (nowhere 0), b.pool_decoded (nowhere 1), b.pool_registered (nowhere 2),
    b.pool_executed (nowhere 3), b.pool_accessed (nowhere 4), b.pool_served (nowhere 5)]

section

variable (b : Between c d)

theorem Occupies.away {i j : Fin 6} (occupies : c.Occupies t i) (other : j ≠ i) :
    c.latch j ≠ some t :=
  fun held => other ((occupies j).mp held)

theorem Occupies.own {i : Fin 6} (occupies : c.Occupies t i) : c.latch i = some t :=
  (occupies i).mpr rfl

include b

theorem Occupies.fetch (occupies : c.Occupies t 0) :
    Fetch.behavior (MemoryController.fetchStageIf c.cycles) (c.pool t)
      b.accessed.memoryController = .ok (d.pool t, b.fetched.memoryController) := by
  have fetches := fetchStage_at (t := t) b.fetchRuns (b.frames.poolToF.trans occupies.own)
  rw [b.pool_decoded (occupies.away (j := 1) (by decide)),
    b.pool_registered (occupies.away (j := 2) (by decide)),
    b.pool_executed (occupies.away (j := 3) (by decide)),
    b.pool_accessed (occupies.away (j := 4) (by decide)),
    b.pool_served (occupies.away (j := 5) (by decide)), b.frames.fetchCycles,
    b.frames.fetchMemory] at fetches
  rw [fetches, b.frames.pool]

theorem Occupies.decode (occupies : c.Occupies t 1) :
    d.pool t = Decode.behavior (c.pool t) := by
  rw [b.pool_fetched (occupies.away (j := 0) (by decide)),
    decodeStage_at (b.frames.fToD.trans occupies.own),
    b.pool_registered (occupies.away (j := 2) (by decide)),
    b.pool_executed (occupies.away (j := 3) (by decide)),
    b.pool_accessed (occupies.away (j := 4) (by decide)),
    b.pool_served (occupies.away (j := 5) (by decide))]

theorem Occupies.regacc (occupies : c.Occupies t 2) :
    Regacc.behavior (c.pool t) = .ok (d.pool t) := by
  rw [b.pool_fetched (occupies.away (j := 0) (by decide)),
    b.pool_decoded (occupies.away (j := 1) (by decide)),
    ← regaccStage_at b.regaccRuns (b.frames.dToRa.trans occupies.own),
    b.pool_executed (occupies.away (j := 3) (by decide)),
    b.pool_accessed (occupies.away (j := 4) (by decide)),
    b.pool_served (occupies.away (j := 5) (by decide))]

theorem Occupies.execute (occupies : c.Occupies t 3) :
    d.pool t = Execute.behavior (c.pool t) := by
  rw [b.pool_fetched (occupies.away (j := 0) (by decide)),
    b.pool_decoded (occupies.away (j := 1) (by decide)),
    b.pool_registered (occupies.away (j := 2) (by decide)),
    executeStage_at (b.frames.raToEx.trans occupies.own),
    b.pool_accessed (occupies.away (j := 4) (by decide)),
    b.pool_served (occupies.away (j := 5) (by decide))]

theorem Occupies.mem (occupies : c.Occupies t 4) :
    Mem.behavior (MemoryController.memStageIf c.cycles) (c.pool t) b.served.memoryController =
      .ok (d.pool t, b.accessed.memoryController) := by
  rw [b.pool_fetched (occupies.away (j := 0) (by decide)),
    b.pool_decoded (occupies.away (j := 1) (by decide)),
    b.pool_registered (occupies.away (j := 2) (by decide)),
    b.pool_executed (occupies.away (j := 3) (by decide)),
    ← memoryStage_at b.memoryRuns (b.frames.exToMem.trans occupies.own), b.frames.memoryCycles,
    b.pool_served (occupies.away (j := 5) (by decide))]

theorem Occupies.except (occupies : c.Occupies t 5) :
    ExceptStage.behavior (c.pool t) c.syncTable c.dma =
      .ok (d.pool t, b.excepted.syncTable, b.excepted.dma) := by
  rw [b.pool_fetched (occupies.away (j := 0) (by decide)),
    b.pool_decoded (occupies.away (j := 1) (by decide)),
    b.pool_registered (occupies.away (j := 2) (by decide)),
    b.pool_executed (occupies.away (j := 3) (by decide)),
    b.pool_accessed (occupies.away (j := 4) (by decide)), b.frames.servedPool,
    ← exceptStage_at b.exceptRuns occupies.own]

end

end PretIss.Core
