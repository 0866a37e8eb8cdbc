import Mathlib.Logic.Function.Iterate
import PretIss.Deadline.Mailbox
import PretIss.DoubleWord.Underway
import PretIss.Trap.Return

/-! What a pass leaves of the thread in which an instruction does not complete: it waits, or
a trap squashes it, or it performs the first half of a double word. The timers are counted,
and only the stages before the last have had their effect. -/

namespace PretIss

open ExceptStage (reachesCommit squashes)

variable {id : ThreadId} {σ : Type}

namespace SpecialReg

def clock (r : SpecialReg) : (Fin numPllTimers → Word) × (Fin numPllTimers → Word) :=
  (r.plldt, r.pllLoad)

def tick (c : (Fin numPllTimers → Word) × (Fin numPllTimers → Word)) :
    (Fin numPllTimers → Word) × (Fin numPllTimers → Word) :=
  { create with plldt := c.1, pllLoad := c.2 }.decrementPllTimers.clock

theorem clock_iterate (r : SpecialReg) (n : Nat) :
    (decrementPllTimers^[n] r).clock = tick^[n] r.clock := by
  have one : Function.Semiconj clock decrementPllTimers tick := fun _ => rfl
  exact one.iterate_right n r

end SpecialReg

theorem Round.clock_after (round : Round σ) (stage : Stage) (ht : HwThread id) :
    (round.after stage ht).specRegs.clock =
      SpecialReg.tick^[round.ticks stage] ht.specRegs.clock := by
  have one : Function.Semiconj (fun ht : HwThread id => ht.specRegs.clock) HwThread.pllTick
      SpecialReg.tick := fun _ => rfl
  exact one.iterate_right _ ht

theorem Execute.clock_behavior (ht : HwThread id) :
    (behavior ht).specRegs.clock = ht.specRegs.clock := by
  simp only [behavior, performAluOperations]
  split
  · rfl
  · split
    · split <;> split <;> rfl
    · split <;> rfl

namespace ExceptStage

theorem deadStalled_regular {ht ht' : HwThread id} (regular : ht.inst.rd < numDeadlineTimers)
    (runs : deadStalled ht = .ok ht') : ht' = ht := by
  simp only [deadStalled] at runs
  split at runs
  · obtain ⟨specRegs, loaded, _⟩ := Transition.bind_eq_ok.mp runs
    obtain ⟨pllLoad, stored, _⟩ := Transition.bind_eq_ok.mp loaded
    have outside : ¬ (0 ≤ (ht.inst.rd : Int) - 8 ∧ (ht.inst.rd : Int) - 8 < numPllTimers) := by
      have bound : ht.inst.rd < 8 := regular
      omega
    rw [arraySet, dif_neg outside] at stored
    cases stored
  · exact (Except.ok.inj runs).symm

theorem commit_squashed_specRegs {ht ht' : HwThread id} {syncNotStalled : Bool} {dma dma' : Dma}
    (stops : squashes ht = true) (runs : commit ht syncNotStalled dma = .ok (ht', dma')) :
    ht'.specRegs =
      { ht.specRegs with currWp := ht'.specRegs.currWp, dtStatus := ht'.specRegs.dtStatus } := by
  obtain ⟨_, squashed, written, first, third, rfl⟩ := commit_squashed stops runs
  have stored : written.specRegs = squashed.specRegs := by rw [writeRegs_frame third]
  have handled : squashed.specRegs = { ht.specRegs with
      currWp := squashed.specRegs.currWp, dtStatus := squashed.specRegs.dtStatus } := by
    obtain ⟨goes, _⟩ | ⟨_, _, ⟨_, rfl⟩ | ⟨_, rfl⟩ | ⟨_, rfl⟩⟩ := handleExceptions_cases first
    · rw [stops] at goes
      cases goes
    · simp only [firstPass_eq, redirect_specRegs, HwThread.moveWindow, unwritten]
    · simp only [afterTrap, unwritten]
    · rfl
  have et : written.specRegs.et = true := by
    simp only [squashes, Bool.and_eq_true] at stops
    rw [stored, handled]
    exact stops.2
  obtain ⟨_, _, retired, _⟩ := retire_of_et et
  rw [retired]
  exact stored ▸ handled

end ExceptStage

namespace Pass

variable {p : Pass id σ}

def ticks (p : Pass id σ) : Nat :=
  ([.except, .mem, .execute, .regacc, .decode, .fetch].map p.round.ticks).sum

theorem Valid.clock_arrived (valid : p.Valid) (enabled : p.start.enabled = true) :
    p.arrived.specRegs.clock = SpecialReg.tick^[p.round.ticks .mem]
      (SpecialReg.tick^[p.round.ticks .execute] (SpecialReg.tick^[p.round.ticks .regacc]
        (SpecialReg.tick^[p.round.ticks .decode] (SpecialReg.tick^[p.round.ticks .fetch]
          p.start.specRegs.clock)))) := by
  obtain ⟨received, fetches, fetched⟩ := valid.fetch
  obtain ⟨accessed, reads, access⟩ := valid.regacc
  obtain ⟨arrived, runs, mem⟩ := valid.mem
  have first : received.specRegs.clock = p.start.specRegs.clock := by
    obtain ⟨_, rfl, _⟩ | ⟨_, bits, stall, _, rfl⟩ := Fetch.behavior_cases enabled fetches <;> rfl
  have second : (Decode.behavior p.fetched).specRegs.clock = p.fetched.specRegs.clock := by
    unfold Decode.behavior
    split <;> rfl
  have third : accessed.specRegs.clock = p.decoded.specRegs.clock := by
    obtain ⟨_, rfl⟩ | ⟨_, waited, _, waits, rfl⟩ := Regacc.behavior_cases reads
    · rfl
    · calc (Regacc.operands (Regacc.checkDeadline waited)).specRegs.clock
          = (Regacc.checkDeadline waited).specRegs.clock := rfl
        _ = waited.specRegs.clock :=
            Regacc.checkDeadline_unchanged (fun ht => ht.specRegs.clock) (fun _ _ _ => rfl) waited
        _ = p.decoded.specRegs.clock := by
            rw [waits.specRegs]
            rfl
  rw [mem, Round.clock_after, Mem.specRegs_behavior runs, valid.execute, Round.clock_after,
    Execute.clock_behavior, access, Round.clock_after, third, valid.decode, Round.clock_after,
    second, fetched, Round.clock_after, first]

theorem Valid.incomplete_cases (valid : p.Valid) (coherent : p.start.Coherent)
    (present : p.runs = true) (incomplete : p.completes = false) :
    reachesCommit p.arrived = false ∨ p.isSquashed = true ∨
      (p.commits = true ∧ IsDoubleWord p.word) := by
  cases reaches : reachesCommit p.arrived with
  | false => exact Or.inl rfl
  | true =>
      right
      cases stops : squashes p.arrived with
      | true => exact Or.inl (by simp [isSquashed, reaches, stops])
      | false =>
          have commits : p.commits = true := by simp [Pass.commits, reaches, stops]
          exact Or.inr ⟨commits, (valid.half_of_commits coherent present commits incomplete).2.2⟩

/-- What the last stage leaves of an instruction that does not complete. -/
theorem Valid.last_specRegs (valid : p.Valid) (coherent : p.start.Coherent)
    (present : p.runs = true) (incomplete : p.completes = false) (regular : ¬ IsPllWord p.word) :
    ∃ ht, p.finished = p.round.after .except ht ∧ p.dma = p.round.dma ∧
      ht.specRegs = { p.arrived.specRegs with
        currWp := ht.specRegs.currWp, dtStatus := ht.specRegs.dtStatus } := by
  have arrives := valid.arrives coherent.enabled
  have fetch : p.arrived.fetchStalled = false := by
    rw [arrives.fetchStalled]
    simpa [runs] using present
  obtain ⟨ht, ends, finished⟩ := valid.except
  obtain waits | squashed | ⟨commits, double⟩ := valid.incomplete_cases coherent present incomplete
  · suffices same : ht.specRegs = p.arrived.specRegs ∧ p.dma = p.round.dma by
      exact ⟨ht, finished, same.2, by rw [same.1]⟩
    rw [← ExceptStage.arrive_specRegs p.arrived]
    cases deadline : p.arrived.deadlineStalled with
    | true =>
        obtain ⟨answer, _, dma⟩ :=
          (ExceptStage.behavior_of_deadlineStalled arrives.enabled fetch deadline).mp ends
        have timer : (ExceptStage.arrive p.arrived).inst.rd < numDeadlineTimers := by
          obtain ⟨waited, accessed⟩ := valid.accesses coherent.enabled present
          obtain ⟨select, rd⟩ :=
            (valid.decoded_latch coherent (by simpa [runs] using present)).select_rd
          have asks := (valid.arrived_stalls coherent present).2 deadline
          rw [Instruction.of_operation Instruction.selectSpecialRegister (fun _ => rfl)
            accessed.meaning, select] at asks
          have same : p.arrived.inst.rd = (Instruction.ofWord p.word).rd := by
            rw [accessed.rd, Regacc.destination, Regacc.secondHalf, ← accessed.deadlineStalled,
              deadline, Bool.not_true, Bool.and_false, if_neg Bool.false_ne_true,
              accessed.waits.operation, ← rd]
          rw [ExceptStage.arrive_inst, same]
          exact Nat.not_le.mp fun beyond => regular ⟨asks, beyond⟩
        rw [ExceptStage.deadStalled_regular timer answer]
        exact ⟨rfl, dma⟩
    | false =>
        have memory : p.arrived.memoryStalled = true := by
          simpa [reachesCommit, arrives.enabled, fetch, deadline] using waits
        rw [ExceptStage.behavior_of_memoryStalled arrives.enabled fetch deadline memory] at ends
        have answer := Except.ok.inj ends
        exact ⟨congrArg (fun answer => answer.1.specRegs) answer.symm,
          congrArg (fun answer => answer.2.2) answer.symm⟩
  · obtain ⟨ht, _, finished, committed⟩ := valid.squashed squashed
    have stops : squashes (ExceptStage.arrive p.arrived) = true := by
      simp only [isSquashed, Bool.and_eq_true] at squashed
      simpa [squashes, HwThread.isTrapped] using squashed.2
    have kept := ExceptStage.commit_squashed_specRegs stops committed
    rw [ExceptStage.arrive_specRegs] at kept
    exact ⟨ht, finished, (ExceptStage.commit_squashed stops committed).1, kept⟩
  · obtain ⟨finished, _, dma⟩ := valid.straight coherent commits double.straight
    have silent : (ExceptStage.arrive p.arrived).inst.writeIcc = false := by
      rw [ExceptStage.arrive_inst, ← double.access.accesses.writeIcc]
      exact Instruction.of_operation Instruction.writeIcc (fun _ => rfl)
        (valid.arrived_operation coherent present)
    refine ⟨_, finished, dma, ?_⟩
    rw [ExceptStage.retired_specRegs silent, ExceptStage.arrive_specRegs]

structure Lingers (p : Pass id σ) : Prop where
  settings : p.finished.specRegs.settings = p.start.specRegs.settings
  y : p.finished.specRegs.y = p.arrived.specRegs.y
  clock : p.finished.specRegs.clock = SpecialReg.tick^[p.ticks] p.start.specRegs.clock
  dt : ∀ timer, p.finished.specRegs.dt timer = p.start.specRegs.dt timer - 1
  dma : p.dma = p.round.dma

theorem Valid.lingers (valid : p.Valid) (coherent : p.start.Coherent) (present : p.runs = true)
    (incomplete : p.completes = false) (regular : ¬ IsPllWord p.word) : p.Lingers := by
  obtain ⟨ht, finished, dma, kept⟩ := valid.last_specRegs coherent present incomplete regular
  have view : ∀ {α : Type} (f : SpecialReg → α),
      (∀ r : SpecialReg, f r.decrementPllTimers = f r) →
      (∀ (r : SpecialReg) currWp dtStatus, f { r with currWp := currWp, dtStatus := dtStatus } = f r) →
      f p.finished.specRegs = f p.arrived.specRegs := by
    intro α f blind still
    calc f p.finished.specRegs = f ht.specRegs := by
          rw [finished]
          exact p.round.after_eq .except (fun ht => f ht.specRegs) (fun ht => blind ht.specRegs) ht
      _ = f p.arrived.specRegs := by rw [kept, still]
  refine ⟨?_, view SpecialReg.y (fun _ => rfl) fun _ _ _ => rfl, ?_, fun timer => ?_, dma⟩
  · exact (view SpecialReg.settings (fun _ => rfl) fun _ _ _ => rfl).trans
      (valid.carries coherent present).settings
  · have last : ht.specRegs.clock = p.arrived.specRegs.clock := by
      rw [kept]
      rfl
    rw [finished, Round.clock_after, last, valid.clock_arrived coherent.enabled]
    simp [ticks, Function.iterate_add_apply]
  · rw [view SpecialReg.dt (fun _ => rfl) fun _ _ _ => rfl, (valid.arrives coherent.enabled).dt]

end Pass

def IsMultiplyStep (w : Word) : Prop :=
  (Instruction.ofWord w).aluop = .mul ∧ (Instruction.ofWord w).signedMultiply = true

instance (w : Word) : Decidable (IsMultiplyStep w) := inferInstanceAs (Decidable (_ ∧ _))

theorem Instruction.straight_of_mul {w : Word}
    (multiplies : (Sparc.fields w).decodeOperation.aluop = .mul) :
    (Sparc.fields w).decodeOperation.Straight := by
  have blank : (Sparc.fields w).aluop = .nop := rfl
  obtain decoded | decoded | ⟨op, decoded⟩ | ⟨op, decoded⟩ | ⟨op, decoded⟩ :=
    (Sparc.fields w).decodeOperation_cases <;> rw [decoded] at multiplies ⊢
  · simp [blank] at multiplies
  · simp at multiplies
  · rcases op with _ | op
    · simp [decodeSethiBranches, blank] at multiplies
    · cases op <;> simp [decodeSethiBranches, blank] at multiplies
  · rcases op with _ | op
    · simp [decodeMemory, blank] at multiplies
    · cases op <;> simp [decodeMemory] at multiplies
  · rcases op with _ | op
    · simp [decodeArithmetic, blank] at multiplies
    · cases op <;>
        first
          | exact ⟨rfl, rfl, rfl, rfl, rfl, rfl, rfl⟩
          | simp [decodeArithmetic, blank] at multiplies

theorem IsMultiplyStep.straight {w : Word} (step : IsMultiplyStep w) :
    (Instruction.ofWord w).Straight ∧ ¬ IsAccess w := by
  obtain ⟨multiplies, _⟩ := step
  refine ⟨?_, fun access => ?_⟩
  · obtain same | same := Instruction.decode_eq (Instruction.nop.setInst w)
    · rw [Instruction.ofWord, same] at multiplies ⊢
      exact Instruction.straight_of_mul multiplies
    · rw [Instruction.ofWord, same] at multiplies ⊢
      exact (Instruction.straight_of_mul multiplies).of_operation rfl
  · rw [access.accesses.aluop] at multiplies
    cases multiplies

namespace Pass

section

variable {p : Pass id σ}

theorem Valid.y_arrived (valid : p.Valid) (coherent : p.start.Coherent) (present : p.runs = true) :
    p.arrived.specRegs.y =
      if IsMultiplyStep p.word then Execute.shiftedY p.operand p.start.specRegs.y
      else p.start.specRegs.y := by
  obtain ⟨before, after⟩ := valid.accessed_y coherent.enabled
  have same : p.accessed.inst.operation = p.asked.operation := by
    calc p.accessed.inst.operation = p.arrived.inst.operation :=
          (HwThread.of_control (fun ht => ht.inst.operation) HwThread.operation_control
            valid.arrived_control.1).symm
      _ = p.asked.operation := (valid.carries coherent present).operation
  have aluop := Instruction.of_operation Instruction.aluop (fun _ => rfl) same
  have signed := Instruction.of_operation Instruction.signedMultiply (fun _ => rfl) same
  rw [after, Execute.y_behavior, aluop, signed, before]
  by_cases step : IsMultiplyStep p.word
  · obtain ⟨runs, operand, _⟩ :=
      valid.accessed_operand coherent present step.straight.1.waitless
    rw [if_pos step, if_pos ⟨runs, step⟩, operand]
  · rw [if_neg step, if_neg fun steps => step steps.2]

theorem Valid.memory_of_other (valid : p.Valid) (coherent : p.start.Coherent)
    (present : p.runs = true) (other : ¬ IsAccess p.word) : p.memory = p.round.memory := by
  obtain ⟨ht, runs, arrived⟩ := valid.mem
  have same : p.executed.inst.operation = p.asked.operation := by
    calc p.executed.inst.operation = ht.inst.operation :=
          (HwThread.of_control (fun ht => ht.inst.operation) HwThread.operation_control
            (Mem.control_behavior runs).1).symm
      _ = p.arrived.inst.operation := by rw [arrived, Round.inst_after]
      _ = p.asked.operation := (valid.carries coherent present).operation
  have reads := Instruction.of_operation Instruction.readMemory (fun _ => rfl) same
  have writes := Instruction.of_operation Instruction.writeMemory (fun _ => rfl) same
  simp only [IsAccess, not_or, Bool.not_eq_true] at other
  simp only [Mem.behavior, reads, writes, asked, other, Bool.false_eq_true, if_false, ite_self,
    Except.ok.injEq, Prod.mk.injEq] at runs
  exact runs.2.symm

end

variable {p : Pass id MemoryController} {m : Contents}

theorem Over.left (memories : p.Over m) (valid : p.Valid) (coherent : p.start.Coherent)
    (present : p.runs = true) :
    p.memory.Holds (if p.asked.writeMemory = true ∧ p.arrived.memoryStalled = false then
      (p.asked.effect id p.start.specRegs.currWp p.start.dbWordStalled (p.start.regs, m)).2
      else m) := by
  by_cases access : IsAccess p.word
  · obtain ⟨stalls, loads, stores⟩ := memories.accessed valid coherent present access
    have kinds := access.accesses.stores
    cases stalled : p.arrived.memoryStalled with
    | true =>
        rw [if_neg (by simp)]
        exact stalls stalled
    | false =>
        cases load : p.asked.readMemory with
        | true =>
            have silent : p.asked.writeMemory = false := by rw [kinds, load, Bool.not_true]
            rw [if_neg (by simp [silent])]
            exact (loads stalled load).1
        | false =>
            have store : p.asked.writeMemory = true := by rw [kinds, load, Bool.not_false]
            rw [if_pos ⟨store, rfl⟩, Instruction.effect, load, if_neg Bool.false_ne_true]
            exact stores stalled load
  · have silent : p.asked.writeMemory = false := by
      simp only [IsAccess, not_or, Bool.not_eq_true] at access
      exact access.2
    rw [if_neg (by simp [silent]), valid.memory_of_other coherent present access]
    exact memories.memory

end Pass

end PretIss
