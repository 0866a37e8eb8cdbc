import PretIss.Thread.Coherence

/-! What a whole pass does to the timers, their statuses and the trap, in terms of
the events in it: a deadline instruction is let through, a timer is loaded, a trap
is taken. -/

namespace PretIss.Pass

open ExceptStage (reachesCommit squashes takesTrap setsTimer deadlineTrap deadlineTrap_ne)

variable {id : ThreadId} {σ : Type}

def runs (p : Pass id σ) : Bool := !p.fetched.fetchStalled

/-- The word that reaches it. -/
def word (p : Pass id σ) : Word := p.decoded.inst.inst

/-- A deadline instruction on this timer reaches the register access. -/
def reaches (p : Pass id σ) (timer : Fin numDeadlineTimers) : Bool :=
  p.runs && Regacc.isDeadline p.decoded timer

def reloads (p : Pass id σ) (timer : Fin numDeadlineTimers) : Bool :=
  p.runs && Regacc.reloads p.decoded timer

/-- The instruction gets to the end of the pipeline and no trap squashes it. -/
def commits (p : Pass id σ) : Bool := reachesCommit p.arrived && !squashes p.arrived

/-- A deadline instruction on this timer gets to the end of the pipeline. -/
def commitsDeadline (p : Pass id σ) (timer : Fin numDeadlineTimers) : Bool :=
  p.reaches timer && p.commits

/-- A pending trap squashes the instruction. -/
def isSquashed (p : Pass id σ) : Bool := reachesCommit p.arrived && squashes p.arrived

/-- The timer is loaded with the result in the latch. -/
def loads (p : Pass id σ) (timer : Fin numDeadlineTimers) : Bool :=
  reachesCommit p.arrived && setsTimer p.arrived timer

/-- The trap of this timer is taken. -/
def traps (p : Pass id σ) (timer : Fin numDeadlineTimers) : Bool :=
  reachesCommit p.arrived && takesTrap p.arrived && p.arrived.trapType == deadlineTrap timer

variable {p : Pass id σ}

theorem Valid.arrived_control (valid : p.Valid) :
    p.arrived.control = p.accessed.control ∧
      (p.accessed.inst.readMemory = false → p.accessed.inst.writeMemory = false →
        p.arrived.memoryStalled = p.accessed.memoryStalled) := by
  obtain ⟨ht, runs, arrived⟩ := valid.mem
  obtain ⟨control, stalled⟩ := Mem.control_behavior runs
  have executed : p.executed.control = p.accessed.control := by
    rw [valid.execute, Round.control_after, Execute.control_behavior]
  refine ⟨?_, fun reads writes => ?_⟩
  · rw [arrived, Round.control_after, control, executed]
  · have before : p.executed.memoryStalled = p.accessed.memoryStalled := by
      rw [valid.execute, Round.memoryStalled_after, Execute.memoryStalled_behavior]
    rw [arrived, Round.memoryStalled_after, stalled, before]
    · rw [← reads]
      exact HwThread.of_control (fun ht => ht.inst.readMemory) (fun _ => rfl) executed
    · rw [← writes]
      exact HwThread.of_control (fun ht => ht.inst.writeMemory) (fun _ => rfl) executed

theorem Valid.access_cases (valid : p.Valid) (enabled : p.start.enabled = true) :
    (p.runs = false ∧ p.accessed.control = p.decoded.control ∧
        p.accessed.memoryStalled = p.decoded.memoryStalled) ∨
      (p.runs = true ∧ ∃ waited, Regacc.deadlineInstruction p.decoded = .ok waited ∧
        Regacc.Waits p.decoded waited ∧
        p.accessed.control = (Regacc.operands (Regacc.checkDeadline waited)).control ∧
        p.accessed.memoryStalled = p.decoded.memoryStalled) := by
  obtain ⟨ht, runs, accessed⟩ := valid.regacc
  have ready := valid.ready enabled
  have present : p.decoded.isNotValid = p.fetched.fetchStalled := by
    have decodedEnabled := ready.unchanged HwThread.enabled (fun _ => rfl) (fun _ => rfl)
    simp [HwThread.isNotValid, ready.fetchStalled, decodedEnabled, enabled]
  obtain ⟨stalled, rfl⟩ | ⟨valid, waited, waiting, waits, rfl⟩ := Regacc.behavior_cases runs
  · left
    rw [present] at stalled
    simp [Pass.runs, stalled, accessed]
  · right
    rw [present] at valid
    refine ⟨by simp [Pass.runs, valid], waited, waiting, waits, ?_, ?_⟩
    · rw [accessed, Round.control_after]
    · rw [accessed, Round.memoryStalled_after, ← waits.memoryStalled]
      obtain same | ⟨_, timer, _, same⟩ := Regacc.checkDeadline_cases waited <;> rw [same] <;> rfl

/-- The last stage, seen through the ticks after it. -/
theorem Valid.finish_cases (valid : p.Valid) (enabled : p.arrived.enabled = true) :
    ∃ ht : HwThread id, p.finished.control = ht.control ∧
      p.finished.memoryStalled = ht.memoryStalled ∧
      ((p.arrived.fetchStalled = true ∧ ht.control = p.arrived.control ∧
          ht.memoryStalled = p.arrived.memoryStalled) ∨
        (p.arrived.fetchStalled = false ∧ reachesCommit p.arrived = false ∧
          ht.control = (ExceptStage.arrive p.arrived).control ∧
          ht.memoryStalled = p.arrived.memoryStalled) ∨
        (reachesCommit p.arrived = true ∧ ∃ syncNotStalled,
          ExceptStage.checkSync (ExceptStage.arrive p.arrived) p.round.syncTable =
            .ok (p.syncTable, syncNotStalled) ∧
          ExceptStage.commit (ExceptStage.arrive p.arrived) syncNotStalled p.round.dma =
            .ok (ht, p.dma))) := by
  obtain ⟨ht, runs, finished⟩ := valid.except
  refine ⟨ht, by rw [finished, Round.control_after], by rw [finished, Round.memoryStalled_after], ?_⟩
  cases fetch : p.arrived.fetchStalled with
  | true =>
      rw [ExceptStage.behavior_of_fetchStalled enabled fetch] at runs
      simp only [Except.ok.injEq, Prod.mk.injEq] at runs
      obtain ⟨rfl, _, _⟩ := runs
      exact Or.inl ⟨rfl, rfl, rfl⟩
  | false =>
      right
      cases dead : p.arrived.deadlineStalled with
      | true =>
          left
          obtain ⟨waits, _, _⟩ := (ExceptStage.behavior_of_deadlineStalled enabled fetch dead).mp runs
          refine ⟨rfl, by simp [reachesCommit, dead], ?_⟩
          rw [← ExceptStage.arrive_memoryStalled p.arrived]
          simp only [ExceptStage.deadStalled] at waits
          split at waits
          · obtain ⟨specRegs, loaded, waits⟩ := Transition.bind_eq_ok.mp waits
            obtain ⟨pllLoad, _, loaded⟩ := Transition.bind_eq_ok.mp loaded
            obtain rfl := Except.ok.inj loaded
            obtain rfl := Except.ok.inj waits
            exact ⟨rfl, rfl⟩
          · obtain rfl := Except.ok.inj waits
            exact ⟨rfl, rfl⟩
      | false =>
          cases memory : p.arrived.memoryStalled with
          | true =>
              left
              rw [ExceptStage.behavior_of_memoryStalled enabled fetch dead memory] at runs
              simp only [Except.ok.injEq, Prod.mk.injEq] at runs
              obtain ⟨rfl, _, _⟩ := runs
              exact ⟨rfl, by simp [reachesCommit, memory], rfl, by simp [memory]⟩
          | false =>
              right
              refine ⟨by simp [reachesCommit, enabled, fetch, dead, memory], ?_⟩
              obtain ⟨syncNotStalled, consulted, committed⟩ :=
                (ExceptStage.behavior_of_free enabled fetch dead memory).mp runs
              exact ⟨syncNotStalled, consulted, committed⟩

def status (p : Pass id σ) (timer : Fin numDeadlineTimers) : DtStatus :=
  if p.reloads timer then if Regacc.deadbranch p.decoded.inst then .set else .unset
  else p.start.specRegs.decrementDeadlineTimers.dtStatus timer

structure Arrived (p : Pass id σ) : Prop where
  enabled : p.arrived.enabled = true
  fetchStalled : p.arrived.fetchStalled = p.fetched.fetchStalled
  et : p.arrived.specRegs.et = p.start.specRegs.et
  dt : p.arrived.specRegs.dt = fun timer => p.start.specRegs.dt timer - 1
  dtStatus : p.arrived.specRegs.dtStatus = p.status

theorem Valid.arrives (valid : p.Valid) (enabled : p.start.enabled = true) : p.Arrived := by
  have ready := valid.ready enabled
  have decodedEnabled : p.decoded.enabled = p.start.enabled :=
    ready.unchanged HwThread.enabled (fun _ => rfl) (fun _ => rfl)
  have decodedEt : p.decoded.specRegs.et = p.start.specRegs.et :=
    ready.unchanged (fun ht => ht.specRegs.et) (fun _ => rfl) (fun _ => rfl)
  have decodedDt : p.decoded.specRegs.dt = fun timer => p.start.specRegs.dt timer - 1 :=
    HwThread.of_state (fun ht => ht.specRegs.dt) (fun _ => rfl) ready.state
  have decodedStatus : p.decoded.specRegs.dtStatus =
      p.start.specRegs.decrementDeadlineTimers.dtStatus :=
    HwThread.of_state (fun ht => ht.specRegs.dtStatus) (fun _ => rfl) ready.state
  obtain ⟨absent, control, _⟩ | ⟨present, waited, waiting, waits, control, _⟩ :=
    valid.access_cases enabled
  · have same := valid.arrived_control.1.trans control
    refine ⟨?_, ?_, ?_, ?_, ?_⟩
    · rw [HwThread.of_control HwThread.enabled (fun _ => rfl) same, decodedEnabled, enabled]
    · rw [HwThread.of_control HwThread.fetchStalled (fun _ => rfl) same, ready.fetchStalled]
    · rw [HwThread.of_control (fun ht => ht.specRegs.et) (fun _ => rfl) same, decodedEt]
    · rw [HwThread.of_control (fun ht => ht.specRegs.dt) (fun _ => rfl) same, decodedDt]
    · rw [HwThread.of_control (fun ht => ht.specRegs.dtStatus) (fun _ => rfl) same, decodedStatus]
      funext timer
      simp [status, reloads, absent]
  · have same := valid.arrived_control.1.trans control
    have checked : (Regacc.checkDeadline waited).enabled = waited.enabled ∧
        (Regacc.checkDeadline waited).fetchStalled = waited.fetchStalled ∧
        (Regacc.checkDeadline waited).specRegs = waited.specRegs := by
      obtain same | ⟨_, timer, _, same⟩ := Regacc.checkDeadline_cases waited <;> rw [same] <;>
        exact ⟨rfl, rfl, rfl⟩
    refine ⟨?_, ?_, ?_, ?_, ?_⟩
    · rw [HwThread.of_control HwThread.enabled (fun _ => rfl) same]
      exact checked.1.trans (waits.enabled.trans (decodedEnabled.trans enabled))
    · rw [HwThread.of_control HwThread.fetchStalled (fun _ => rfl) same]
      exact checked.2.1.trans (waits.fetchStalled.trans ready.fetchStalled)
    · rw [HwThread.of_control (fun ht => ht.specRegs.et) (fun _ => rfl) same, ← decodedEt]
      change (Regacc.checkDeadline waited).specRegs.et = _
      rw [checked.2.2, waits.specRegs]
    · rw [HwThread.of_control (fun ht => ht.specRegs.dt) (fun _ => rfl) same, ← decodedDt]
      change (Regacc.checkDeadline waited).specRegs.dt = _
      rw [checked.2.2, waits.specRegs]
    · rw [HwThread.of_control (fun ht => ht.specRegs.dtStatus) (fun _ => rfl) same]
      change (Regacc.checkDeadline waited).specRegs.dtStatus = _
      rw [checked.2.2]
      funext timer
      rw [Regacc.status_deadlineInstruction waiting, decodedStatus]
      simp [status, reloads, present]

/-- The latch and the stalls of an instruction as it reaches the last stage. -/
structure Accessed (p : Pass id σ) (waited : HwThread id) : Prop where
  waiting : Regacc.deadlineInstruction p.decoded = .ok waited
  waits : Regacc.Waits p.decoded waited
  meaning : p.arrived.inst.operation = p.decoded.inst.operation
  rd : p.arrived.inst.rd = Regacc.destination waited
  special : p.arrived.inst.writeSpecialRegisters = waited.inst.writeSpecialRegisters
  dbWord : p.arrived.inst.dbWordInstruction =
    (p.decoded.inst.dbWordInstruction && !Regacc.secondHalf waited)
  deadlineStalled : p.arrived.deadlineStalled = waited.deadlineStalled
  dbWordStalled : p.arrived.dbWordStalled = (p.start.dbWordStalled && waited.deadlineStalled)
  dtStatus : waited.specRegs.dtStatus = p.status
  trapped : p.arrived.trapped = (Regacc.checkDeadline waited).trapped
  trapType : p.arrived.trapType = (Regacc.checkDeadline waited).trapType

theorem Valid.accesses (valid : p.Valid) (enabled : p.start.enabled = true)
    (present : p.runs = true) : ∃ waited, p.Accessed waited := by
  have ready := valid.ready enabled
  obtain ⟨absent, _⟩ | ⟨_, waited, waiting, waits, control, _⟩ := valid.access_cases enabled
  · rw [absent] at present
    cases present
  have same := valid.arrived_control.1.trans control
  have checked : ∀ {α : Type} (view : HwThread id → α),
      (∀ (ht : HwThread id) state trapType,
        view { ht with trapped := state, trapType := trapType } = view ht) →
      view (Regacc.checkDeadline waited) = view waited :=
    fun view blind => Regacc.checkDeadline_unchanged view blind waited
  have latch : (Regacc.checkDeadline waited).inst = waited.inst :=
    checked HwThread.inst fun _ _ _ => rfl
  have flag : waited.dbWordStalled = p.start.dbWordStalled :=
    waits.dbWordStalled.trans
      (ready.unchanged HwThread.dbWordStalled (fun _ => rfl) (fun _ => rfl))
  refine ⟨waited, waiting, waits, ?_, ?_, ?_, ?_, ?_, ?_, ?_, ?_, ?_⟩
  · rw [HwThread.of_control (fun ht => ht.inst.operation) HwThread.operation_control same]
    change (Regacc.checkDeadline waited).inst.operation = _
    rw [latch, waits.operation]
    rfl
  · rw [HwThread.of_control (fun ht => ht.inst.rd) (fun _ => rfl) same]
    exact checked Regacc.destination (fun _ _ _ => rfl)
  · rw [HwThread.of_control (fun ht => ht.inst.writeSpecialRegisters) (fun _ => rfl) same]
    change (Regacc.checkDeadline waited).inst.writeSpecialRegisters = _
    rw [latch]
  · rw [HwThread.of_control (fun ht => ht.inst.dbWordInstruction) (fun _ => rfl) same]
    change ((Regacc.checkDeadline waited).inst.dbWordInstruction &&
      !Regacc.secondHalf (Regacc.checkDeadline waited)) = _
    rw [latch, checked Regacc.secondHalf (fun _ _ _ => rfl), waits.operation]
  · rw [HwThread.of_control HwThread.deadlineStalled (fun _ => rfl) same]
    exact checked HwThread.deadlineStalled (fun _ _ _ => rfl)
  · rw [HwThread.of_control HwThread.dbWordStalled (fun _ => rfl) same, ← flag]
    change ((Regacc.checkDeadline waited).dbWordStalled &&
      (Regacc.checkDeadline waited).deadlineStalled) = _
    rw [checked HwThread.dbWordStalled (fun _ _ _ => rfl),
      checked HwThread.deadlineStalled (fun _ _ _ => rfl)]
  · funext timer
    have counted : p.decoded.specRegs.dtStatus =
        p.start.specRegs.decrementDeadlineTimers.dtStatus :=
      HwThread.of_state (fun ht => ht.specRegs.dtStatus) (fun _ => rfl) ready.state
    rw [Regacc.status_deadlineInstruction waiting, counted]
    simp [status, reloads, present]
  · rw [HwThread.of_control HwThread.trapped (fun _ => rfl) same]
    rfl
  · rw [HwThread.of_control HwThread.trapType (fun _ => rfl) same]
    rfl

theorem Valid.arrived_trap (valid : p.Valid) (enabled : p.start.enabled = true)
    (present : p.runs = true) :
    (p.start.isTrapped = true ∧ p.arrived.trapped = p.start.trapped ∧
        p.arrived.trapType = p.start.trapType) ∨
      (p.start.isTrapped = false ∧ (∀ timer, p.status timer ≠ .missed) ∧
        p.arrived.trapped = p.start.trapped ∧ p.arrived.trapType = p.start.trapType) ∨
      (p.start.isTrapped = false ∧ ∃ timer, p.status timer = .missed ∧
        p.arrived.trapped = .trapped ∧ p.arrived.trapType = deadlineTrap timer) := by
  have ready := valid.ready enabled
  obtain ⟨waited, accessed⟩ := valid.accesses enabled present
  have trapped : waited.trapped = p.start.trapped := accessed.waits.trapped.trans
    (ready.unchanged HwThread.trapped (fun _ => rfl) (fun _ => rfl))
  have trapType : waited.trapType = p.start.trapType := accessed.waits.trapType.trans
    (ready.unchanged HwThread.trapType (fun _ => rfl) (fun _ => rfl))
  have pending : waited.isTrapped = p.start.isTrapped := by
    rw [HwThread.isTrapped, HwThread.isTrapped, trapped]
  rw [accessed.trapped, accessed.trapType, ← accessed.dtStatus, Regacc.checkDeadline]
  cases held : p.start.isTrapped with
  | true =>
      left
      split
      · simp [pending, held, trapped, trapType]
      · exact ⟨rfl, trapped, trapType⟩
  | false =>
      right
      cases missed : waited.specRegs.missedDeadline with
      | none =>
          exact Or.inl ⟨rfl, (SpecialReg.missed_none_iff _).mp missed, trapped, trapType⟩
      | some timer =>
          refine Or.inr ⟨rfl, timer, SpecialReg.status_of_missed _ _ missed, ?_⟩
          simp [pending, held, deadlineTrap]

theorem Valid.arrived_operation (valid : p.Valid) (coherent : p.start.Coherent)
    (present : p.runs = true) :
    p.arrived.inst.operation = (Instruction.ofWord p.decoded.inst.inst).operation := by
  obtain ⟨waited, accessed⟩ := valid.accesses coherent.enabled present
  have decoded := valid.decoded_latch coherent (by simpa [runs] using present)
  exact accessed.meaning.trans
    (congrArg (fun i : Instruction => { i with rd := 0 }) decoded.meaning)

theorem Valid.deadline_operation (valid : p.Valid) (coherent : p.start.Coherent)
    (present : p.runs = true) (select : p.arrived.inst.selectSpecialRegister = some .dt) :
    p.arrived.inst.jump = false ∧ p.arrived.inst.call = false ∧
      p.arrived.inst.readMemory = false ∧ p.arrived.inst.writeMemory = false ∧
      p.arrived.inst.isRett = false := by
  have operation := valid.arrived_operation coherent present
  have view : ∀ {α : Type} (f : Instruction → α), (∀ i : Instruction, f i.operation = f i) →
      f p.arrived.inst = f (Instruction.ofWord p.decoded.inst.inst) :=
    fun f blind => Instruction.of_operation f blind operation
  rw [view Instruction.selectSpecialRegister (fun _ => rfl)] at select
  rw [view Instruction.jump (fun _ => rfl), view Instruction.call (fun _ => rfl),
    view Instruction.readMemory (fun _ => rfl), view Instruction.writeMemory (fun _ => rfl),
    view Instruction.isRett (fun _ => rfl), Instruction.ofWord_deadline select]
  exact ⟨rfl, rfl, rfl, rfl, rfl⟩

theorem runs_of_reachesCommit (arrives : p.Arrived) (reaches : reachesCommit p.arrived = true) :
    p.runs = true := by
  simp only [reachesCommit, Bool.and_eq_true, Bool.not_eq_true'] at reaches
  simp [runs, ← arrives.fetchStalled, reaches.1.1.2]

/-- The timers, their statuses and the trap at the end of a pass. -/
structure Finished (p : Pass id σ) : Prop where
  dt : ∀ timer, p.finished.specRegs.dt timer =
    if p.loads timer then p.arrived.inst.aluResult else p.start.specRegs.dt timer - 1
  dtStatus : ∀ timer, p.finished.specRegs.dtStatus timer =
    if p.traps timer then .unset else p.status timer
  trap : (p.finished.trapType = p.arrived.trapType ∧
      p.finished.trapped = p.arrived.trapped ∧ reachesCommit p.arrived = false) ∨
    (p.finished.trapType = p.arrived.trapType ∧ reachesCommit p.arrived = true ∧
      (p.commits = true → p.finished.trapped = .normal) ∧
      (takesTrap p.arrived = true → p.finished.trapped = .normal)) ∨
    (p.arrived.inst.isRett = true ∧ ∀ timer, p.finished.trapType ≠ deadlineTrap timer)

theorem Valid.finishes (valid : p.Valid) (coherent : p.start.Coherent) : p.Finished := by
  have arrives := valid.arrives coherent.enabled
  obtain ⟨ht, control, _, cases⟩ := valid.finish_cases arrives.enabled
  have dt := HwThread.of_control (fun ht => ht.specRegs.dt) (fun _ => rfl) control
  have status := HwThread.of_control (fun ht => ht.specRegs.dtStatus) (fun _ => rfl) control
  have trapped := HwThread.of_control HwThread.trapped (fun _ => rfl) control
  have trapType := HwThread.of_control HwThread.trapType (fun _ => rfl) control
  have early : reachesCommit p.arrived = false → ht.specRegs.dt = p.arrived.specRegs.dt →
      ht.specRegs.dtStatus = p.arrived.specRegs.dtStatus → ht.trapped = p.arrived.trapped →
      ht.trapType = p.arrived.trapType → p.Finished := by
    intro never sameDt sameStatus sameTrapped sameType
    refine ⟨fun timer => ?_, fun timer => ?_, Or.inl ⟨trapType.trans sameType,
      trapped.trans sameTrapped, never⟩⟩
    · rw [dt, sameDt, arrives.dt]
      simp [loads, never]
    · rw [status, sameStatus, arrives.dtStatus]
      simp [traps, never]
  obtain ⟨fetch, same, _⟩ | ⟨_, never, same, _⟩ | ⟨reaches, _, _, committed⟩ := cases
  · exact early (by simp [reachesCommit, fetch])
      (HwThread.of_control (fun ht => ht.specRegs.dt) (fun _ => rfl) same)
      (HwThread.of_control (fun ht => ht.specRegs.dtStatus) (fun _ => rfl) same)
      (HwThread.of_control HwThread.trapped (fun _ => rfl) same)
      (HwThread.of_control HwThread.trapType (fun _ => rfl) same)
  · apply early never
    · simpa using HwThread.of_control (fun ht => ht.specRegs.dt) (fun _ => rfl) same
    · simpa using HwThread.of_control (fun ht => ht.specRegs.dtStatus) (fun _ => rfl) same
    · simpa using HwThread.of_control HwThread.trapped (fun _ => rfl) same
    · simpa using HwThread.of_control HwThread.trapType (fun _ => rfl) same
  · have commits := ExceptStage.commit_commits committed
    have squashed : squashes (ExceptStage.arrive p.arrived) = squashes p.arrived := by
      simp [squashes, HwThread.isTrapped]
    have taken : takesTrap (ExceptStage.arrive p.arrived) = takesTrap p.arrived := by
      simp [takesTrap, squashed]
    refine ⟨fun timer => ?_, fun timer => ?_, ?_⟩
    · rw [dt]
      by_cases select : p.arrived.inst.selectSpecialRegister = some .dt
      · have plain := valid.deadline_operation coherent
          (runs_of_reachesCommit arrives reaches) select
        rw [commits.dt (by simpa using plain.1) (by simpa using plain.2.1)]
        simp [loads, reaches, setsTimer, squashed, arrives.dt]
      · rw [commits.keepsTimers (by simpa using select), ExceptStage.arrive_specRegs, arrives.dt]
        simp [loads, setsTimer, select]
    · rw [status, commits.dtStatus, taken]
      simp [traps, reaches, arrives.dtStatus]
    · right
      rw [trapped, trapType]
      obtain ⟨sameType, through, taking⟩ | ⟨rett, other⟩ := commits.trap
      · left
        refine ⟨by simpa using sameType, reaches, fun commits => through ?_, fun takes =>
          taking (taken.trans takes)⟩
        rw [squashed]
        simpa [Pass.commits, reaches] using commits
      · right
        refine ⟨by simpa using rett, fun timer equal => ?_⟩
        have number := deadlineTrap_ne timer
        obtain other | other := other <;> rw [other] at equal <;> simp [← equal] at number

/-- The last stage keeps the operation and the stalls. -/
theorem Valid.finished_latch (valid : p.Valid) (enabled : p.start.enabled = true) :
    p.finished.enabled = true ∧ p.finished.fetchStalled = p.arrived.fetchStalled ∧
      p.finished.memoryStalled = p.arrived.memoryStalled ∧
      p.finished.deadlineStalled = p.arrived.deadlineStalled ∧
      p.finished.inst.operation = p.arrived.inst.operation ∧
      p.finished.inst.dbWordInstruction = p.arrived.inst.dbWordInstruction := by
  have arrives := valid.arrives enabled
  obtain ⟨ht, control, memory, cases⟩ := valid.finish_cases arrives.enabled
  have early : ∀ before : HwThread id, ht.control = before.control →
      ht.memoryStalled = before.memoryStalled →
      ht.enabled = before.enabled ∧ ht.fetchStalled = before.fetchStalled ∧
        ht.memoryStalled = before.memoryStalled ∧
        ht.deadlineStalled = before.deadlineStalled ∧
        ht.inst.operation = before.inst.operation ∧
        ht.inst.dbWordInstruction = before.inst.dbWordInstruction := by
    intro before same stalled
    exact ⟨HwThread.of_control HwThread.enabled (fun _ => rfl) same,
      HwThread.of_control HwThread.fetchStalled (fun _ => rfl) same, stalled,
      HwThread.of_control HwThread.deadlineStalled (fun _ => rfl) same,
      HwThread.of_control (fun ht => ht.inst.operation) HwThread.operation_control same,
      HwThread.of_control (fun ht => ht.inst.dbWordInstruction) (fun _ => rfl) same⟩
  have stage : ht.enabled = p.arrived.enabled ∧ ht.fetchStalled = p.arrived.fetchStalled ∧
      ht.memoryStalled = p.arrived.memoryStalled ∧
      ht.deadlineStalled = p.arrived.deadlineStalled ∧
      ht.inst.operation = p.arrived.inst.operation ∧
      ht.inst.dbWordInstruction = p.arrived.inst.dbWordInstruction := by
    obtain ⟨_, same, stalled⟩ | ⟨_, _, same, stalled⟩ | ⟨_, _, _, committed⟩ := cases
    · exact early _ same stalled
    · simpa using early (ExceptStage.arrive p.arrived) same (by simpa using stalled)
    · have commits := ExceptStage.commit_commits committed
      exact ⟨by simpa using commits.enabled, by simpa using commits.fetchStalled,
        by simpa using commits.memoryStalled, by simpa using commits.deadlineStalled,
        by simpa using commits.operation, by simpa using commits.dbWord⟩
  refine ⟨?_, ?_, memory.trans stage.2.2.1, ?_, ?_, ?_⟩
  · rw [HwThread.of_control HwThread.enabled (fun _ => rfl) control, stage.1, arrives.enabled]
  · rw [HwThread.of_control HwThread.fetchStalled (fun _ => rfl) control, stage.2.1]
  · rw [HwThread.of_control HwThread.deadlineStalled (fun _ => rfl) control, stage.2.2.2.1]
  · rw [HwThread.of_control (fun ht => ht.inst.operation) HwThread.operation_control control,
      stage.2.2.2.2.1]
  · rw [HwThread.of_control (fun ht => ht.inst.dbWordInstruction) (fun _ => rfl) control,
      stage.2.2.2.2.2]

/-- Only a load or a store leaves a memory stall, and only a deadline instruction a
deadline stall. -/
theorem Valid.arrived_stalls (valid : p.Valid) (coherent : p.start.Coherent)
    (present : p.runs = true) :
    (p.arrived.memoryStalled = true →
        p.arrived.inst.readMemory = true ∨ p.arrived.inst.writeMemory = true) ∧
      (p.arrived.deadlineStalled = true →
        p.arrived.inst.selectSpecialRegister = some .dt) := by
  have ready := valid.ready coherent.enabled
  have decoded := valid.decoded_latch coherent (by simpa [runs] using present)
  obtain ⟨waited, accessed⟩ := valid.accesses coherent.enabled present
  have view : ∀ {α : Type} (f : Instruction → α), (∀ i : Instruction, f i.operation = f i) →
      f p.arrived.inst = f p.decoded.inst :=
    fun f blind => Instruction.of_operation f blind accessed.meaning
  have reads := view Instruction.readMemory (fun _ => rfl)
  have writes := view Instruction.writeMemory (fun _ => rfl)
  have select := view Instruction.selectSpecialRegister (fun _ => rfl)
  constructor
  · intro stalled
    by_contra neither
    simp only [not_or, Bool.not_eq_true] at neither
    obtain ⟨noRead, noWrite⟩ := neither
    have control := valid.arrived_control.1
    have kept := valid.arrived_control.2
      ((HwThread.of_control (fun ht => ht.inst.readMemory) (fun _ => rfl) control).symm.trans noRead)
      ((HwThread.of_control (fun ht => ht.inst.writeMemory) (fun _ => rfl) control).symm.trans
        noWrite)
    have before : p.accessed.memoryStalled = p.decoded.memoryStalled := by
      obtain ⟨_, _, same⟩ | ⟨_, _, _, _, _, same⟩ := valid.access_cases coherent.enabled <;>
        exact same
    rw [kept, before, ready.memoryStalled] at stalled
    obtain read | write := decoded.memory stalled
    · rw [reads, read] at noRead
      cases noRead
    · rw [writes, write] at noWrite
      cases noWrite
  · intro stalled
    by_contra other
    rw [select] at other
    have same := accessed.waiting
    rw [Regacc.deadlineInstruction_of_ne other] at same
    obtain rfl := Except.ok.inj same
    have kept := ready.unchanged HwThread.deadlineStalled (fun _ => rfl) (fun _ => rfl)
    rw [accessed.deadlineStalled, kept] at stalled
    exact other (decoded.deadline stalled)

section

variable (valid : p.Valid) (coherent : p.start.Coherent) (empty : p.runs = false)

include valid coherent empty

theorem Valid.free_of_absent : Fetch.isHeld p.start = false := by
  have stalled : p.fetched.fetchStalled = true := by simpa [runs] using empty
  obtain ⟨ht, control, _, _, ⟨held, rfl, _⟩ | ⟨free, _⟩⟩ := valid.fetch_cases coherent.enabled
  · have kept := HwThread.of_control HwThread.fetchStalled (fun _ => rfl) control
    change p.fetched.fetchStalled = p.start.fetchStalled at kept
    rw [kept, coherent.fetched held] at stalled
    cases stalled
  · exact free

theorem Valid.control_of_absent : p.accessed.control = p.decoded.control ∧
    p.accessed.memoryStalled = p.start.memoryStalled := by
  obtain ⟨_, control, memory⟩ | ⟨present, _⟩ := valid.access_cases coherent.enabled
  · exact ⟨control, memory.trans (valid.ready coherent.enabled).memoryStalled⟩
  · rw [empty] at present
    cases present

theorem Valid.memory_of_absent : p.finished.memoryStalled = p.start.memoryStalled := by
  have stalled : p.fetched.fetchStalled = true := by simpa [runs] using empty
  obtain ⟨control, memory⟩ := valid.control_of_absent coherent empty
  obtain ⟨_, _, memoryLast, _⟩ := valid.finished_latch coherent.enabled
  obtain ⟨ht, access, arrived⟩ := valid.mem
  have skipped : p.executed.isNotValid = true := by
    have kept : p.executed.fetchStalled = p.accessed.fetchStalled := by
      apply HwThread.of_control HwThread.fetchStalled (fun _ => rfl)
      rw [valid.execute, Round.control_after, Execute.control_behavior]
    have before := HwThread.of_control HwThread.fetchStalled (fun _ => rfl) control
    simp [HwThread.isNotValid, kept, before, (valid.ready coherent.enabled).fetchStalled, stalled]
  simp only [Mem.behavior, skipped, if_true, Except.ok.injEq, Prod.mk.injEq] at access
  rw [memoryLast, arrived, Round.memoryStalled_after, ← access.1, valid.execute,
    Round.memoryStalled_after, Execute.memoryStalled_behavior, memory]

theorem Valid.finished_of_absent : p.finished.trapped = p.arrived.trapped ∧
    p.finished.trapType = p.arrived.trapType ∧
    p.finished.dbWordStalled = p.arrived.dbWordStalled := by
  have stalled : p.fetched.fetchStalled = true := by simpa [runs] using empty
  have arrives := valid.arrives coherent.enabled
  obtain ⟨ht, outer, _, ⟨_, inner, _⟩ | ⟨fetch, _⟩ | ⟨reaches, _⟩⟩ :=
    valid.finish_cases arrives.enabled
  · have both := outer.trans inner
    exact ⟨HwThread.of_control HwThread.trapped (fun _ => rfl) both,
      HwThread.of_control HwThread.trapType (fun _ => rfl) both,
      HwThread.of_control HwThread.dbWordStalled (fun _ => rfl) both⟩
  · rw [arrives.fetchStalled, stalled] at fetch
    cases fetch
  · rw [runs_of_reachesCommit arrives reaches] at empty
    cases empty

theorem Valid.absent :
    Fetch.isHeld p.start = false ∧ Fetch.isHeld p.finished = false ∧
      p.arrived.trapped = p.start.trapped ∧ p.arrived.trapType = p.start.trapType ∧
      p.finished.trapped = p.start.trapped ∧ p.finished.trapType = p.start.trapType ∧
      p.arrived.dbWordStalled = p.start.dbWordStalled ∧
      p.finished.dbWordStalled = p.start.dbWordStalled := by
  have free := valid.free_of_absent coherent empty
  have ready := valid.ready coherent.enabled
  have same := valid.arrived_control.1.trans (valid.control_of_absent coherent empty).1
  have view : ∀ {α : Type} (f : HwThread id → α), (∀ ht : HwThread id, f ht.control = f ht) →
      (∀ ht : HwThread id, f ht.state = f ht) → (∀ ht, f (Fetch.countDown ht) = f ht) →
      f p.arrived = f p.start :=
    fun f blind still counts =>
      (HwThread.of_control f blind same).trans (ready.unchanged f still counts)
  have trapped := view HwThread.trapped (fun _ => rfl) (fun _ => rfl) (fun _ => rfl)
  have trapType := view HwThread.trapType (fun _ => rfl) (fun _ => rfl) (fun _ => rfl)
  have dead := view HwThread.deadlineStalled (fun _ => rfl) (fun _ => rfl) (fun _ => rfl)
  have flag := view HwThread.dbWordStalled (fun _ => rfl) (fun _ => rfl) (fun _ => rfl)
  have last := valid.finished_of_absent coherent empty
  have memory := valid.memory_of_absent coherent empty
  obtain ⟨_, _, _, deadLast, _⟩ := valid.finished_latch coherent.enabled
  refine ⟨free, ?_, trapped, trapType, last.1.trans trapped, last.2.1.trans trapType, flag,
    last.2.2.trans flag⟩
  rw [← free]
  simp only [Fetch.isHeld, HwThread.isTrapped, memory, deadLast, dead, last.1, trapped]

end

/-- A pass leaves the thread coherent for the next one. -/
theorem Valid.coherent_finished (valid : p.Valid) (coherent : p.start.Coherent) :
    p.finished.Coherent := by
  have arrives := valid.arrives coherent.enabled
  obtain ⟨enabled, fetch, memory, dead, operation, dbWord⟩ := valid.finished_latch coherent.enabled
  cases present : p.runs with
  | false =>
      have free := (valid.absent coherent present).2.1
      have parts := free
      simp only [Fetch.isHeld, Bool.or_eq_false_iff] at parts
      refine ⟨enabled, ?_, ?_, ?_, ?_⟩
      · simp [free]
      · simp [free]
      · simp [parts.1.1]
      · simp [parts.1.2]
  | true =>
      have stalls := valid.arrived_stalls coherent present
      obtain ⟨waited, accessed⟩ := valid.accesses coherent.enabled present
      have decoded := valid.decoded_latch coherent (by simpa [runs] using present)
      have latch := operation.trans (valid.arrived_operation coherent present)
      have word : p.finished.inst.inst = p.decoded.inst.inst :=
        (Instruction.of_operation Instruction.inst (fun _ => rfl) latch).trans
          (Instruction.inst_ofWord _)
      have view : ∀ {α : Type} (f : Instruction → α), (∀ i : Instruction, f i.operation = f i) →
          f p.finished.inst = f p.arrived.inst :=
        fun f blind => Instruction.of_operation f blind operation
      refine ⟨enabled, fun _ => ?_, fun _ => ⟨word ▸ latch, fun flag => ?_⟩, ?_, ?_⟩
      · rw [fetch, arrives.fetchStalled]
        simpa [runs] using present
      · rw [dbWord, accessed.dbWord, Bool.and_eq_true, decoded.dbWord] at flag
        rw [word]
        exact flag.1
      · rw [memory, view Instruction.readMemory (fun _ => rfl),
          view Instruction.writeMemory (fun _ => rfl)]
        exact stalls.1
      · rw [dead, view Instruction.selectSpecialRegister (fun _ => rfl)]
        exact stalls.2

theorem Valid.held_word (valid : p.Valid) (coherent : p.start.Coherent)
    (held : Fetch.isHeld p.start = true) :
    p.runs = true ∧ p.decoded.inst.inst = p.start.inst.inst := by
  have present : p.runs = true := by
    cases absent : p.runs with
    | true => rfl
    | false =>
        rw [(valid.absent coherent absent).1] at held
        cases held
  refine ⟨present, ?_⟩
  obtain ⟨ht, _, inst, _, ⟨_, rfl, _⟩ | ⟨free, _⟩⟩ := valid.fetch_cases coherent.enabled
  · have latch := valid.decoded_inst coherent.enabled (by simpa [runs] using present)
    rw [inst] at latch
    have keeps : (Fetch.countDown p.start).inst.Keeps p.start.inst.inst := coherent.latch held
    rw [latch]
    exact (Instruction.of_meaning Instruction.inst (fun _ => rfl)
      (Instruction.decode_of_keeps keeps).1).trans (Instruction.inst_ofWord _)
  · rw [held] at free
    cases free

theorem Valid.reloads_eq (valid : p.Valid) (enabled : p.start.enabled = true)
    {timer : Fin numDeadlineTimers} (reached : p.reaches timer = true) :
    p.reloads timer =
      ((p.start.specRegs.dt timer - 1).sle 0 || Regacc.deadload p.decoded.inst) := by
  simp only [reaches, Bool.and_eq_true] at reached
  have counted : p.decoded.specRegs.dt = fun timer => p.start.specRegs.dt timer - 1 :=
    HwThread.of_state (fun ht => ht.specRegs.dt) (fun _ => rfl) (valid.ready enabled).state
  simp [reloads, Regacc.reloads, reached.1, reached.2, counted]

/-- A deadline instruction on a regular timer waits, or goes on to commit. -/
theorem Valid.reaches_cases (valid : p.Valid) (coherent : p.start.Coherent)
    {timer : Fin numDeadlineTimers} (reached : p.reaches timer = true) :
    (p.reloads timer = true ∧ reachesCommit p.arrived = true ∧
        p.arrived.inst.writeSpecialRegisters = true ∧ p.arrived.dbWordStalled = false) ∨
      (p.reloads timer = false ∧ reachesCommit p.arrived = false ∧
        p.finished.deadlineStalled = true) := by
  simp only [reaches, Bool.and_eq_true] at reached
  obtain ⟨present, deadline⟩ := reached
  obtain ⟨waited, accessed⟩ := valid.accesses coherent.enabled present
  have arrives := valid.arrives coherent.enabled
  have stalls := valid.arrived_stalls coherent present
  have waiting := accessed.waiting
  rw [Regacc.deadlineInstruction_of_deadline deadline] at waiting
  have answer := Except.ok.inj waiting
  have select : p.arrived.inst.selectSpecialRegister = some .dt := by
    rw [Instruction.of_operation Instruction.selectSpecialRegister (fun _ => rfl) accessed.meaning]
    simp only [Regacc.isDeadline, Bool.and_eq_true, beq_iff_eq] at deadline
    exact deadline.1
  have plain := valid.deadline_operation coherent present select
  have noStall : p.arrived.memoryStalled = false := by
    cases stalled : p.arrived.memoryStalled with
    | false => rfl
    | true =>
        obtain reads | writes := stalls.1 stalled
        · rw [plain.2.2.1] at reads
          cases reads
        · rw [plain.2.2.2.1] at writes
          cases writes
  have fetched : p.arrived.fetchStalled = false := by
    rw [arrives.fetchStalled]
    simpa [runs] using present
  simp only [Regacc.destinationRegularDeadlines] at answer
  split at answer
  · rename_i through
    left
    have dead : p.arrived.deadlineStalled = false := by rw [accessed.deadlineStalled, ← answer]
    refine ⟨?_, ?_, ?_, ?_⟩
    · simpa [reloads, present, Regacc.reloads, deadline] using through
    · simp [reachesCommit, arrives.enabled, fetched, dead, noStall]
    · rw [accessed.special, ← answer]
    · rw [accessed.dbWordStalled, ← answer, Bool.and_false]
  · rename_i wait
    right
    have dead : p.arrived.deadlineStalled = true := by rw [accessed.deadlineStalled, ← answer]
    refine ⟨?_, by simp [reachesCommit, dead], ?_⟩
    · simpa [reloads, present, Regacc.reloads, deadline] using wait
    · rw [(valid.finished_latch coherent.enabled).2.2.2.1, dead]

theorem Valid.finished_word (valid : p.Valid) (coherent : p.start.Coherent)
    (present : p.runs = true) : p.finished.inst.inst = p.word := by
  have operation := (valid.finished_latch coherent.enabled).2.2.2.2.1.trans
    (valid.arrived_operation coherent present)
  exact (Instruction.of_operation Instruction.inst (fun _ => rfl) operation).trans
    (Instruction.inst_ofWord _)

end PretIss.Pass

namespace PretIss.Run

variable {id : ThreadId} {σ : Type}

theorem coherent (run : Run id σ) {n : Nat} (bound : n < run.length) :
    (run.entry n).start.Coherent := by
  apply run.invariant (fun _ ht => ht.Coherent) _ _ bound
  · obtain ⟨pc, windowReg, same⟩ := run.reset
    rw [same]
    exact HwThread.coherent_reset pc windowReg
  · intro n bound coherent
    exact (run.valid n bound).coherent_finished coherent

end PretIss.Run
