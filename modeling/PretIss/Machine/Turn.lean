import PretIss.Machine.LoadStore
import PretIss.Machine.Meeting

/-! A pass of a thread as a turn of its machine: the machine executes an instruction or does
nothing, and it shares the memory and the barrier table with the machines of the others. -/

namespace PretIss

open Sparc (State Machines Ordinary isSync memoryOp)

variable {id : ThreadId}

namespace Sparc

/-- An instruction that the machine executes as the thread does. -/
structure State.Proper (s : State) (id : ThreadId) : Prop where
  known : isSync (s.word id) = true ∨ Ordinary (s.word id) = true
  tracks : Ordinary (s.word id) = true → s.Tracks (s.word id)
  inside : ∀ operation, memoryOp (s.word id) = some operation →
    inWord operation (Mem.addrOffset (s.address (s.word id))) = true

theorem ordinary_of_not_sync {w : Word} (known : isSync w = true ∨ Ordinary w = true)
    (other : isSync w = false) : Ordinary w = true := by
  obtain sync | ordinary := known
  · rw [other] at sync
    cases sync
  · exact ordinary

end Sparc

structure HwThread.Keeps (ht : HwThread id) (w : Word) : Prop where
  word : ht.inst.inst = w
  asks : ht.inst.writeRegisters = (Instruction.ofWord w).writeRegisters
  access : IsAccess w

namespace Pass

theorem Valid.table_still {σ : Type} {p : Pass id σ} (valid : p.Valid)
    (coherent : p.start.Coherent) (still : p.consults = false) :
    p.syncTable = p.round.syncTable := by
  have enabled := (valid.arrives coherent.enabled).enabled
  obtain ⟨ht, runs, _⟩ := valid.except
  cases fetch : p.arrived.fetchStalled with
  | true =>
      rw [ExceptStage.behavior_of_fetchStalled enabled fetch] at runs
      simp only [Except.ok.injEq, Prod.mk.injEq] at runs
      exact runs.2.1.symm
  | false =>
      cases dead : p.arrived.deadlineStalled with
      | true => exact ((ExceptStage.behavior_of_deadlineStalled enabled fetch dead).mp runs).2.1
      | false =>
          cases memory : p.arrived.memoryStalled with
          | true =>
              rw [ExceptStage.behavior_of_memoryStalled enabled fetch dead memory] at runs
              simp only [Except.ok.injEq, Prod.mk.injEq] at runs
              exact runs.2.1.symm
          | false =>
              have sync : p.arrived.inst.syncInstruction = false := by
                simpa [Pass.consults, ExceptStage.reachesCommit, enabled, fetch, dead, memory]
                  using still
              obtain ⟨answer, consulted, _⟩ :=
                (ExceptStage.behavior_of_free enabled fetch dead memory).mp runs
              simp only [ExceptStage.checkSync, ExceptStage.arrive_inst, sync, Bool.false_eq_true,
                if_false, Except.ok.injEq, Prod.mk.injEq] at consulted
              exact consulted.1.symm

variable {p : Pass id MemoryController} {m : Contents}

theorem Valid.fetches (valid : p.Valid) (enabled : p.start.enabled = true) {cycles : BitVec 32}
    (port : p.round.instructionMemory = MemoryController.fetchStageIf cycles)
    (holds : p.round.fetchMemory.Holds m) (runs : p.runs = true)
    (free : Fetch.isHeld p.start = false) : p.word = m.value id p.start.pc := by
  obtain ⟨after, answer, _⟩ := MemoryController.readInst_holds holds cycles id p.start.pc
  have decoded := valid.decoded_inst enabled (by simpa [Pass.runs] using runs)
  obtain ⟨ht, _, inst, _, ⟨held, _⟩ | ⟨_, bits, stall, reads, rfl⟩⟩ := valid.fetch_cases enabled
  · rw [free] at held
    cases held
  · rw [port] at reads
    have same : (after, m.value id p.start.pc, !m.granted cycles id p.start.pc) =
        (p.fetchMemory, bits, stall) := Except.ok.inj (answer.symm.trans reads)
    have latch : p.decoded.inst = Instruction.ofWord bits := by
      rw [decoded, inst]
      rfl
    rw [word, latch, Instruction.inst_ofWord]
    exact (congrArg (fun answer => answer.2.1) same).symm

theorem Valid.memory_absent {σ : Type} {p : Pass id σ} (valid : p.Valid)
    (coherent : p.start.Coherent) (absent : p.runs = false) : p.memory = p.round.memory := by
  have stalled : p.fetched.fetchStalled = true := by simpa [Pass.runs] using absent
  have executed : p.executed.fetchStalled = true := by
    rw [valid.execute, Round.fetchStalled_after,
      HwThread.of_control HwThread.fetchStalled (fun _ => rfl) (Execute.control_behavior _),
      HwThread.of_control HwThread.fetchStalled (fun _ => rfl)
        (valid.control_of_absent coherent absent).1,
      (valid.ready coherent.enabled).fetchStalled, stalled]
  obtain ⟨ht, access, _⟩ := valid.mem
  have skipped : p.executed.isNotValid = true := by
    simp [HwThread.isNotValid, executed]
  simp only [Mem.behavior, skipped, if_true, Except.ok.injEq, Prod.mk.injEq] at access
  exact access.2.symm

theorem Fresh.memory {σ : Type} {p : Pass id σ} (fresh : p.Fresh) : p.memory = p.round.memory := by
  obtain ⟨latch, _⟩ := fresh.accessed ⟨fun _ => .create, .empty, .empty⟩
  obtain ⟨reads, writes⟩ := fresh.reads
  exact (fresh.valid.arrived_of_register (by rw [latch]; exact reads)
    (by rw [latch]; exact writes)).1

theorem Valid.unasked {σ : Type} {p : Pass id σ} (valid : p.Valid) (coherent : p.start.Coherent)
    (runs : p.runs = true) (settles : Sparc.Settles p.asked) : p.requests = false := by
  have operation := valid.arrived_operation coherent runs
  have select := Instruction.of_operation Instruction.selectSpecialRegister (fun _ => rfl) operation
  have other : p.arrived.inst.selectSpecialRegister ≠ some .mem2sp := by
    rw [select]
    exact settles.transferless
  simp [requests, Instruction.isMem2sp, other]

theorem Valid.dma_still {σ : Type} {p : Pass id σ} (valid : p.Valid) (coherent : p.start.Coherent)
    (asks : p.requests = false) : p.dma = p.round.dma := by
  rw [valid.dma coherent, asks]
  rfl

structure Idle {σ : Type} (p : Pass id σ) : Prop where
  disabled : p.finished.enabled = false
  state : ∀ m, Sparc.stateOf p.finished m = Sparc.stateOf p.start m
  idles : p.commits = false
  memory : p.memory = p.round.memory
  table : p.syncTable = p.round.syncTable
  dma : p.dma = p.round.dma

theorem Valid.idle {σ : Type} {p : Pass id σ} (valid : p.Valid)
    (disabled : p.start.enabled = false) : p.Idle := by
  obtain ⟨fetched, fetches, first⟩ := valid.fetch
  obtain ⟨accessed, accesses, third⟩ := valid.regacc
  obtain ⟨arrived, arrives, fifth⟩ := valid.mem
  obtain ⟨finished, finishes, last⟩ := valid.except
  have skipped : ∀ {ht : HwThread id}, ht.enabled = false → ht.isNotValid = true := fun off => by
    simp [HwThread.isNotValid, off]
  have off : ∀ stage (ht : HwThread id), ht.enabled = false →
      (p.round.after stage ht).enabled = false := fun stage ht still => by
    rw [p.round.after_eq stage HwThread.enabled fun _ => rfl, still]
  have state : ∀ stage (ht : HwThread id) m,
      Sparc.stateOf (p.round.after stage ht) m = Sparc.stateOf ht m :=
    fun stage ht m => p.round.after_eq stage (fun ht => Sparc.stateOf ht m) (fun _ => rfl) ht
  simp only [Fetch.behavior, disabled, Bool.false_eq_true, not_false_eq_true, if_true,
    Except.ok.injEq, Prod.mk.injEq] at fetches
  obtain ⟨rfl, _⟩ := fetches
  have one : p.fetched.enabled = false := first ▸ off .fetch _ disabled
  have decoded := valid.decode
  rw [Decode.behavior, if_pos (skipped one)] at decoded
  have two : p.decoded.enabled = false := decoded ▸ off .decode _ one
  simp only [Regacc.behavior, skipped two, if_true, Except.ok.injEq] at accesses
  subst accesses
  have three : p.accessed.enabled = false := third ▸ off .regacc _ two
  have executed := valid.execute
  rw [Execute.behavior, if_pos (skipped three)] at executed
  have four : p.executed.enabled = false := executed ▸ off .execute _ three
  simp only [Mem.behavior, skipped four, if_true, Except.ok.injEq, Prod.mk.injEq] at arrives
  obtain ⟨rfl, memory⟩ := arrives
  have five : p.arrived.enabled = false := fifth ▸ off .mem _ four
  rw [ExceptStage.behavior_of_disabled five] at finishes
  simp only [Except.ok.injEq, Prod.mk.injEq] at finishes
  obtain ⟨rfl, table, dma⟩ := finishes
  refine ⟨last ▸ off .except _ five, fun m => ?_, ?_, memory.symm, table.symm, dma.symm⟩
  · rw [last, state, fifth, state, executed, state, third, state, decoded, state, first, state]
  · rw [commits, ExceptStage.reachesCommit, five]
    rfl

structure Finds (p : Pass id MemoryController) (x : Machines) : Prop where
  view : x.view id = p.before x.memory
  table : x.table = p.round.syncTable
  holds : p.round.memory.Holds x.memory
  port : ∃ cycles, p.round.dataMem = MemoryController.memStageIf cycles

def leaves (p : Pass id MemoryController) (x : Machines) : Machines where
  contexts := Function.update x.contexts id (Sparc.stateOf p.finished p.memory.contents).context
  memory := p.memory.contents
  table := p.syncTable

structure Given (p : Pass id MemoryController) (m : Contents) : Prop where
  word : p.word = (p.before m).word id
  asks : p.decoded.inst.writeRegisters = p.asked.writeRegisters
  free : ¬ IsAccess p.word → Fetch.isHeld p.start = false

structure Turn (p : Pass id MemoryController) (x : Machines) : Prop where
  dma : p.dma = p.round.dma
  effect : p.leaves x = if p.commits then x.step id else x
  enabled : p.finished.enabled = p.start.enabled
  steady : p.finished.enabled = true → p.finished.Steady
  kept : p.finished.enabled = true → Fetch.isHeld p.finished = true →
    p.commits = false ∧ p.finished.Keeps ((p.before x.memory).word id)

section

variable {x : Machines} (valid : p.Valid) (finds : p.Finds x)

include finds

theorem Finds.still (table : p.syncTable = p.round.syncTable)
    (state : ∀ m, Sparc.stateOf p.finished m = Sparc.stateOf p.start m)
    (memory : p.memory.contents = x.memory) : p.leaves x = x := by
  have context : (Sparc.stateOf p.finished x.memory).context = x.contexts id := by
    rw [state]
    exact (congrArg State.context finds.view).symm
  rw [leaves, table, memory, context, Function.update_eq_self, ← finds.table]

include valid

theorem Finds.disabled (disabled : p.start.enabled = false) : p.Turn x := by
  have idle := valid.idle disabled
  refine ⟨idle.dma, ?_, idle.disabled.trans disabled.symm, fun enabled => ?_, fun enabled => ?_⟩
  · rw [idle.idles, if_neg Bool.false_ne_true]
    exact finds.still idle.table idle.state (by rw [idle.memory, finds.holds.contents])
  all_goals exact absurd (enabled.symm.trans idle.disabled) Bool.noConfusion

variable (steady : p.start.Steady)

include steady

theorem Finds.absent (absent : p.runs = false) : p.Turn x := by
  obtain ⟨after, free, idles, state⟩ := Steady.absent valid steady absent
  have reaches : ExceptStage.reachesCommit p.arrived = false := by
    by_contra reaches
    rw [Bool.not_eq_false] at reaches
    rw [runs_of_reachesCommit (valid.arrives steady.coherent.enabled) reaches] at absent
    cases absent
  have memory : p.memory.contents = x.memory := by
    rw [valid.memory_absent steady.coherent absent, finds.holds.contents]
  have table := valid.table_still steady.coherent (by rw [consults, reaches, Bool.false_and])
  refine ⟨valid.dma_still steady.coherent (by rw [requests, idles, Bool.false_and]), ?_,
    after.coherent.enabled.trans steady.coherent.enabled.symm, fun _ => after,
    fun _ held => absurd (free.symm.trans held) Bool.noConfusion⟩
  rw [idles, if_neg Bool.false_ne_true]
  exact finds.still table state memory

variable (runs : p.runs = true) (given : p.Given x.memory)

include runs given

theorem Finds.sync (sync : Sparc.isSync p.word = true) : p.Turn x := by
  have meets : p.Meets := ⟨valid, steady, runs, given.free (Sparc.quiet_of_sync sync), sync⟩
  obtain ⟨commits, after, free⟩ := meets.commits
  have dma := valid.dma_still steady.coherent (valid.unasked steady.coherent runs meets.settles)
  refine ⟨dma, ?_, after.coherent.enabled.trans steady.coherent.enabled.symm, fun _ => after,
    fun _ held => absurd (free.symm.trans held) Bool.noConfusion⟩
  have word : (x.view id).word id = p.word := by
    rw [finds.view, given.word]
  have answer := meets.consulted
  rw [← finds.table] at answer
  have memory : p.memory.contents = x.memory := by
    rw [meets.arrived.1, finds.holds.contents]
  have counters : (p.before x.memory).counters = (x.contexts id).counters :=
    congrArg State.counters finds.view.symm
  rw [commits, if_pos rfl, Machines.step, word, sync, if_pos rfl, Machines.meet, word, answer, leaves,
    memory, meets.exec]
  have context : (p.before x.memory).context = x.contexts id :=
    (congrArg State.context finds.view).symm
  cases p.passesBarrier with
  | true =>
      simp only [if_true, ← finds.view]
      rfl
  | false =>
      simp only [Bool.false_eq_true, if_false]
      have unmoved := congrArg (Function.update x.contexts id) context
      rw [Function.update_eq_self] at unmoved
      exact congrArg (fun contexts => Machines.mk contexts x.memory p.syncTable) unmoved

variable (proper : (p.before x.memory).Proper id)

include proper

omit runs in
theorem Finds.ordinary (other : Sparc.isSync p.word = false) (commits : p.commits = true)
    (memory : p.memory.contents = ((p.before x.memory).step id).memory)
    (exec : Sparc.stateOf p.finished p.memory.contents = (p.before x.memory).step id) :
    p.leaves x = if p.commits then x.step id else x := by
  have ordinary : Ordinary p.word = true := by
    rw [given.word] at other ⊢
    exact Sparc.ordinary_of_not_sync proper.known other
  have retires : p.Retires := ⟨valid, steady.coherent, commits, steady.single, ordinary⟩
  have still : p.consults = false := by rw [consults, retires.syncless, Bool.and_false]
  have table := valid.table_still steady.coherent still
  rw [commits, if_pos rfl, Machines.step, finds.view, ← given.word, other, if_neg Bool.false_ne_true,
    leaves, table, exec, memory, ← finds.table]

theorem Finds.quiet (other : Sparc.isSync p.word = false) (quiet : ¬ IsAccess p.word) :
    p.Turn x := by
  have ordinary : Ordinary p.word = true := by
    rw [given.word] at other ⊢
    exact Sparc.ordinary_of_not_sync proper.known other
  have dma := valid.dma_still steady.coherent
    (valid.unasked steady.coherent runs (Sparc.settles_ofWord ordinary))
  obtain ⟨after, ⟨commits, freed⟩ | ⟨_, access, _⟩⟩ :=
    Steady.present valid steady runs (Sparc.settles_ofWord ordinary)
  · have fresh : p.Fresh := ⟨⟨valid, steady.coherent, commits, steady.single, ordinary⟩,
      given.free quiet, quiet⟩
    have tracks : (p.before x.memory).Tracks p.word := by
      rw [given.word] at ordinary ⊢
      exact proper.tracks ordinary
    have memory : p.memory.contents = x.memory := by rw [fresh.memory, finds.holds.contents]
    have exec : Sparc.stateOf p.finished p.memory.contents = (p.before x.memory).step id := by
      rw [memory, fresh.exec _ tracks, State.step, given.word]
    refine ⟨dma, ?_, after.coherent.enabled.trans steady.coherent.enabled.symm, fun _ => after,
      fun _ held => absurd (freed.symm.trans held) Bool.noConfusion⟩
    exact finds.ordinary valid steady given proper other commits
      (congrArg State.memory exec) exec
  · exact absurd access quiet

/-- A load or a store commits when its slot comes, and is kept until then. -/
theorem Finds.access (other : Sparc.isSync p.word = false) (access : IsAccess p.word) :
    p.Turn x := by
  obtain ⟨cycles, port⟩ := finds.port
  have ordinary : Ordinary p.word = true := by
    rw [given.word] at other ⊢
    exact Sparc.ordinary_of_not_sync proper.known other
  have dma := valid.dma_still steady.coherent
    (valid.unasked steady.coherent runs (Sparc.settles_ofWord ordinary))
  have moves : p.Moves x.memory cycles :=
    ⟨valid, steady.coherent, runs, access, steady.single, port, finds.holds⟩
  obtain ⟨after, ⟨commits, freed⟩ | ⟨idles, _, stalled⟩⟩ :=
    Steady.present valid steady runs (Sparc.settles_ofWord ordinary)
  · have inside : ∀ operation, memoryOp p.word = some operation →
        Sparc.inWord operation (Mem.addrOffset ((p.before x.memory).address p.word)) = true := by
      rw [given.word]
      exact proper.inside
    have step : p.Access x.memory cycles :=
      { moves with commits, single := steady.single, ordinary, asks := given.asks, inside }
    obtain ⟨holds, exec⟩ := step.exec
    have whole : Sparc.stateOf p.finished p.memory.contents = (p.before x.memory).step id := by
      rw [holds.contents, exec, State.step, given.word]
    refine ⟨dma, ?_, after.coherent.enabled.trans steady.coherent.enabled.symm, fun _ => after,
      fun _ held => absurd (freed.symm.trans held) Bool.noConfusion⟩
    exact finds.ordinary valid steady given proper other commits
      (congrArg State.memory whole) whole
  · obtain ⟨held, word, writes, state⟩ := Steady.stalls valid steady runs access stalled
    have memory : p.memory.contents = x.memory := by
      rw [(moves.served.waits stalled).contents]
    have table := valid.table_still steady.coherent
      (by simp [consults, ExceptStage.reachesCommit, stalled])
    have keeps : p.finished.Keeps p.word := ⟨word, writes.trans given.asks, access⟩
    rw [given.word] at keeps
    refine ⟨dma, ?_, after.coherent.enabled.trans steady.coherent.enabled.symm, fun _ => after,
      fun _ _ => ⟨idles, keeps⟩⟩
    rw [idles, if_neg Bool.false_ne_true]
    exact finds.still table state memory

omit steady runs given proper in
theorem Finds.turn (steady : p.start.enabled = true → p.start.Steady)
    (given : p.start.enabled = true → p.runs = true → p.Given x.memory)
    (proper : p.start.enabled = true → (p.before x.memory).Proper id) : p.Turn x := by
  cases enabled : p.start.enabled with
  | false => exact finds.disabled valid enabled
  | true =>
      have steady := steady enabled
      have given := given enabled
      have proper := proper enabled
      cases runs : p.runs with
      | false => exact finds.absent valid steady runs
      | true =>
          cases sync : Sparc.isSync p.word with
          | true => exact finds.sync valid steady runs (given runs) sync
          | false =>
              by_cases access : IsAccess p.word
              · exact finds.access valid steady runs (given runs) proper sync access
              · exact finds.quiet valid steady runs (given runs) proper sync access

end

end Pass

end PretIss
