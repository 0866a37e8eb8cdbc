import PretIss.Machine.LoadStore
import PretIss.DoubleWord.Flag
import PretIss.Engine.Request

/-! What a pass leaves of a thread that executes instructions of the sequential machine: it
is not trapped, no timer is set, and if it is held then by a load or a store. -/

namespace PretIss

open Sparc (State Ordinary)

variable {id : ThreadId} {σ : Type}

structure HwThread.Steady (ht : HwThread id) : Prop where
  coherent : ht.Coherent
  calm : ht.trapped = .normal
  unset : ∀ timer, ht.specRegs.dtStatus timer = .unset
  single : ht.dbWordStalled = false

theorem HwThread.steady_reset (pc : Word) (windowReg : Fin (16 * registerWindows) → Word) :
    (HwThread.reset id pc windowReg).Steady where
  coherent := coherent_reset pc windowReg
  calm := rfl
  unset := fun _ => rfl
  single := rfl

namespace Pass

variable {p : Pass id σ}

theorem Steady.status (steady : p.start.Steady) {timer : Fin numDeadlineTimers}
    (unloaded : p.reloads timer = false) : p.status timer = .unset := by
  have unset := steady.unset timer
  simp [Pass.status, unloaded, SpecialReg.decrementDeadlineTimers, unset]

section

variable (valid : p.Valid) (steady : p.start.Steady)

include valid steady

theorem Steady.absent (absent : p.runs = false) : p.finished.Steady ∧
    Fetch.isHeld p.finished = false ∧ p.commits = false ∧
    ∀ m, Sparc.stateOf p.finished m = Sparc.stateOf p.start m := by
  obtain ⟨free, freed, calm, _, last, _, _, single⟩ := valid.absent steady.coherent absent
  have arrives := valid.arrives steady.coherent.enabled
  have fetch : p.arrived.fetchStalled = true := by
    rw [arrives.fetchStalled]
    simpa [runs] using absent
  have ready := valid.ready steady.coherent.enabled
  have same := valid.arrived_control.1.trans (valid.control_of_absent steady.coherent absent).1
  have arrived : ∀ {α : Type} (view : HwThread id → α), (∀ ht : HwThread id, view ht.control = view ht) →
      (∀ ht : HwThread id, view ht.state = view ht) →
      (∀ ht, view (Fetch.countDown ht) = view ht) → view p.arrived = view p.start :=
    fun view blind still counts =>
      (HwThread.of_control view blind same).trans (ready.unchanged view still counts)
  obtain ⟨ht, runs, finished⟩ := valid.except
  rw [ExceptStage.behavior_of_fetchStalled arrives.enabled fetch] at runs
  obtain ⟨rfl, _⟩ := Prod.mk.injEq .. ▸ Except.ok.inj runs
  have ends : ∀ {α : Type} (view : HwThread id → α), (∀ ht : HwThread id, view ht.pllTick = view ht) →
      (∀ ht : HwThread id, view (ExceptStage.countCycles ht) = view ht) →
      view p.finished = view p.arrived :=
    fun view blind counts => by rw [finished, p.round.after_eq .except view blind, counts]
  refine ⟨⟨valid.coherent_finished steady.coherent, last.trans steady.calm, ?_,
    single.trans steady.single⟩, freed, ?_, fun m => ?_⟩
  · intro timer
    have same := (ends (fun ht => ht.specRegs.dtStatus) (fun _ => rfl) fun _ => rfl).trans
      arrives.dtStatus
    rw [same]
    exact Steady.status steady (by simp [Pass.reloads, absent])
  · simp [Pass.commits, ExceptStage.reachesCommit, fetch]
  · have y : p.finished.specRegs.y = p.start.specRegs.y := by
      have skipped : p.accessed.isNotValid = true := by
        have before := HwThread.of_control HwThread.fetchStalled (fun _ => rfl)
          (valid.control_of_absent steady.coherent absent).1
        have stalled : p.fetched.fetchStalled = true := by simpa [Pass.runs] using absent
        simp [HwThread.isNotValid, before, ready.fetchStalled, stalled]
      obtain ⟨accessed, arrivedY⟩ := valid.accessed_y steady.coherent.enabled
      rw [ends (fun ht => ht.specRegs.y) (fun _ => rfl) fun _ => rfl, arrivedY, ← accessed,
        Execute.y_behavior, skipped, if_neg (by simp)]
    have view : ∀ {α : Type} (view : HwThread id → α),
        (∀ ht : HwThread id, view ht.pllTick = view ht) →
        (∀ ht : HwThread id, view (ExceptStage.countCycles ht) = view ht) →
        (∀ ht : HwThread id, view ht.control = view ht) →
        (∀ ht : HwThread id, view ht.state = view ht) →
        (∀ ht, view (Fetch.countDown ht) = view ht) → view p.finished = view p.start :=
      fun view ticks cycles blind still counts =>
        (ends view ticks cycles).trans (arrived view blind still counts)
    have counters := view ExceptStage.counters (fun _ => rfl) (fun _ => rfl) (fun _ => rfl)
      (fun _ => rfl) fun _ => rfl
    have regs := view HwThread.regs (fun _ => rfl) (fun _ => rfl) (fun _ => rfl) (fun _ => rfl)
      fun _ => rfl
    have settings := view (fun ht => ht.specRegs.settings) (fun _ => rfl) (fun _ => rfl)
      (fun _ => rfl) (fun _ => rfl) fun _ => rfl
    have window := view (fun ht => ht.specRegs.currWp) (fun _ => rfl) (fun _ => rfl)
      (fun _ => rfl) (fun _ => rfl) fun _ => rfl
    have visible : p.finished.specRegs.visible = p.start.specRegs.visible := by
      rw [SpecialReg.visible, settings, y, window]
      rfl
    rw [Sparc.stateOf, counters, regs, visible]
    rfl

/-- A pass with an instruction leaves the thread steady; a load or a store may stall, and any
other instruction commits. -/
theorem Steady.present (runs : p.runs = true) (settles : Sparc.Settles p.asked) :
    p.finished.Steady ∧
      ((p.commits = true ∧ Fetch.isHeld p.finished = false) ∨
        (p.commits = false ∧ IsAccess p.word ∧ p.arrived.memoryStalled = true)) := by
  have coherent := steady.coherent
  have operation := valid.arrived_operation coherent runs
  have calm : p.start.isTrapped = false := (ExceptionState.isTrapped_eq_false _).mpr steady.calm
  have decoded := valid.decoded_latch coherent (by simpa [Pass.runs] using runs)
  have unloaded : ∀ timer, p.reloads timer = false := by
    intro timer
    have select : p.decoded.inst.selectSpecialRegister ≠ some .dt := by
      rw [Instruction.of_meaning Instruction.selectSpecialRegister (fun _ => rfl) decoded.meaning]
      exact settles.waitless
    simp [Pass.reloads, Regacc.reloads, Regacc.isDeadline, select]
  have status := fun timer => Steady.status steady (unloaded timer)
  have arrivedCalm : p.arrived.trapped = .normal := by
    obtain ⟨pending, _⟩ | ⟨_, _, same, _⟩ | ⟨_, timer, missed, _⟩ :=
      valid.arrived_trap coherent.enabled runs
    · rw [calm] at pending
      cases pending
    · exact same.trans steady.calm
    · rw [status timer] at missed
      cases missed
  have goes : ExceptStage.squashes p.arrived = false := by
    simp [ExceptStage.squashes, HwThread.isTrapped, arrivedCalm, ExceptionState.isTrapped]
  have retires : p.arrived.inst.isRett = false :=
    (Instruction.of_operation Instruction.isRett (fun _ => rfl) operation).trans settles.isRett
  have finishes := valid.finishes coherent
  have commits : p.commits = ExceptStage.reachesCommit p.arrived := by
    rw [Pass.commits, goes, Bool.not_false, Bool.and_true]
  have ended : p.finished.trapped = .normal := by
    obtain ⟨_, same, _⟩ | ⟨_, reaches, through, _⟩ | ⟨rett, _⟩ := finishes.trap
    · exact same.trans arrivedCalm
    · exact through (commits.trans reaches)
    · rw [retires] at rett
      cases rett
  have single : p.finished.dbWordStalled = false := by
    obtain ⟨waited, accessed⟩ := valid.accesses coherent.enabled runs
    rw [valid.flag_last coherent runs, ExceptStage.arrive_dbWordStalled, accessed.dbWordStalled,
      accessed.dbWord, decoded.dbWord, steady.single]
    have whole : (Instruction.ofWord p.decoded.inst.inst).dbWordInstruction = false := settles.dbWord
    rw [whole]
    rfl
  refine ⟨⟨valid.coherent_finished coherent, ended, fun timer => ?_, single⟩, ?_⟩
  · rw [finishes.dtStatus, status]
    split <;> rfl
  · obtain ⟨_, _, memory, deadline, _⟩ := valid.finished_latch coherent.enabled
    obtain ⟨_, undelayed⟩ := valid.undelayed coherent runs settles.waitless
    cases reaches : ExceptStage.reachesCommit p.arrived with
    | true =>
        left
        have granted : p.arrived.memoryStalled = false := by
          simp only [ExceptStage.reachesCommit, Bool.and_eq_true, Bool.not_eq_true'] at reaches
          exact reaches.2
        refine ⟨commits.trans reaches, ?_⟩
        simp [Fetch.isHeld, HwThread.isTrapped, memory, deadline, granted, undelayed, ended,
          ExceptionState.isTrapped]
    | false =>
        right
        have access : IsAccess p.word := by
          by_contra quiet
          rw [valid.reaches_of_other coherent runs settles.waitless quiet] at reaches
          cases reaches
        refine ⟨commits.trans reaches, access, ?_⟩
        by_contra granted
        have arrives := valid.arrives coherent.enabled
        have fetch : p.arrived.fetchStalled = false := by
          rw [arrives.fetchStalled]
          simpa [Pass.runs] using runs
        simp [ExceptStage.reachesCommit, arrives.enabled, fetch, undelayed, granted] at reaches

theorem Steady.stalls (runs : p.runs = true) (access : IsAccess p.word)
    (stalled : p.arrived.memoryStalled = true) : Fetch.isHeld p.finished = true ∧
      p.finished.inst.inst = p.word ∧
      p.finished.inst.writeRegisters = p.decoded.inst.writeRegisters ∧
      ∀ m, Sparc.stateOf p.finished m = Sparc.stateOf p.start m := by
  obtain ⟨regs, pc, slot, held, writes⟩ :=
    valid.stalled_finished steady.coherent runs access stalled
  obtain ⟨settings, y, window⟩ :=
    valid.specRegs_finished steady.coherent runs access (Or.inr stalled)
  refine ⟨held, valid.finished_word steady.coherent runs, writes, fun m => ?_⟩
  rw [Sparc.stateOf, ExceptStage.counters, SpecialReg.visible, regs, pc, slot, settings, y, window,
    Sparc.wrap_wrap]
  rfl

end

end Pass

end PretIss

