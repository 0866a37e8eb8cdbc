import PretIss.Library.Countdown
import PretIss.Thread.Program

/-! The status of a timer is written in the register access, its value only when the
deadline instruction commits. The two stay in step unless the instruction is the
second half of a double word or is squashed by a trap. -/

namespace PretIss

theorem SpecialReg.dtStatus_decrement (r : SpecialReg) (timer : Fin numDeadlineTimers) :
    r.decrementDeadlineTimers.dtStatus timer =
      if (r.dt timer - 1 - 1).slt 0 = true ∧ r.dtStatus timer = .set then .missed
      else r.dtStatus timer :=
  rfl

namespace Pass

open ExceptStage (reachesCommit squashes takesTrap setsTimer deadlineTrap)

variable {id : ThreadId} {σ : Type} {p : Pass id σ} {timer : Fin numDeadlineTimers}

theorem Valid.accessed_rd (valid : p.Valid) (enabled : p.start.enabled = true)
    (present : p.runs = true) :
    p.arrived.inst.selectSpecialRegister = p.decoded.inst.selectSpecialRegister ∧
      p.decoded.inst.rd ≤ p.arrived.inst.rd ∧
      (p.start.dbWordStalled = false → p.arrived.inst.rd = p.decoded.inst.rd) := by
  obtain ⟨waited, accessed⟩ := valid.accesses enabled present
  have rd : waited.inst.rd = p.decoded.inst.rd := by rw [accessed.waits.operation]
  have flag : waited.dbWordStalled = p.start.dbWordStalled := accessed.waits.dbWordStalled.trans
    ((valid.ready enabled).unchanged HwThread.dbWordStalled (fun _ => rfl) (fun _ => rfl))
  refine ⟨Instruction.of_operation Instruction.selectSpecialRegister (fun _ => rfl)
    accessed.meaning, ?_, fun lowered => ?_⟩
  · rw [accessed.rd, Regacc.destination, rd]
    split <;> omega
  · rw [accessed.rd, Regacc.destination, Regacc.secondHalf, flag, lowered, rd]
    rfl

theorem Valid.reloads_of_loads (valid : p.Valid) (coherent : p.start.Coherent)
    (loads : p.loads timer = true) :
    p.commits = true ∧ ∃ through, p.reloads through = true ∧
      (p.start.dbWordStalled = false → through = timer) := by
  simp only [Pass.loads, setsTimer, Bool.and_eq_true, Bool.not_eq_true', beq_iff_eq] at loads
  obtain ⟨reaches, ⟨⟨free, special⟩, select⟩, rd⟩ := loads
  have present := runs_of_reachesCommit (valid.arrives coherent.enabled) reaches
  obtain ⟨sameSelect, low, same⟩ := valid.accessed_rd coherent.enabled present
  refine ⟨by simp [commits, reaches, free], ?_⟩
  have regular : p.decoded.inst.rd < numDeadlineTimers := by
    have bound := timer.isLt
    omega
  have reached : p.reaches ⟨p.decoded.inst.rd, regular⟩ = true := by
    simp [Pass.reaches, present, Regacc.isDeadline, ← sameSelect, select]
  obtain ⟨through, _⟩ | ⟨_, never, _⟩ := valid.reaches_cases coherent reached
  · refine ⟨_, through, fun lowered => Fin.ext ?_⟩
    change p.decoded.inst.rd = timer.val
    rw [← same lowered, rd]
  · rw [reaches] at never
    cases never

theorem Valid.loads_of_commits (valid : p.Valid) (coherent : p.start.Coherent)
    (committed : p.commitsDeadline timer = true) :
    p.reloads timer = true ∧ (p.start.dbWordStalled = false → p.loads timer = true) := by
  simp only [commitsDeadline, commits, Bool.and_eq_true, Bool.not_eq_true'] at committed
  obtain ⟨reached, reaches, free⟩ := committed
  obtain ⟨through, _, special, _⟩ | ⟨_, never, _⟩ := valid.reaches_cases coherent reached
  swap
  · rw [reaches] at never
    cases never
  refine ⟨through, fun lowered => ?_⟩
  simp only [Pass.reaches, Regacc.isDeadline, Bool.and_eq_true, beq_iff_eq] at reached
  obtain ⟨sameSelect, _, same⟩ := valid.accessed_rd coherent.enabled reached.1
  simp [loads, reaches, setsTimer, free, special, sameSelect, reached.2.1, same lowered,
    reached.2.2]

def Threatened (p : Pass id σ) (timer : Fin numDeadlineTimers) : Prop :=
  p.start.isTrapped = true ∨
    ∃ other, other ≠ timer ∧ p.decoded.specRegs.dtStatus other = .missed

instance (p : Pass id σ) (timer : Fin numDeadlineTimers) : Decidable (p.Threatened timer) :=
  inferInstanceAs (Decidable (_ ∨ ∃ _, _ ∧ _))

/-- A deadline instruction is let through as the second half of a double word. -/
def Shifts (p : Pass id σ) : Prop :=
  p.start.dbWordStalled = true ∧ ∃ timer, p.reloads timer = true

instance (p : Pass id σ) : Decidable p.Shifts :=
  inferInstanceAs (Decidable (_ ∧ ∃ _, _))

theorem reloads_only (through : p.reloads timer = true) {other : Fin numDeadlineTimers}
    (different : other ≠ timer) : p.reloads other = false := by
  simp only [reloads, Regacc.reloads, Regacc.isDeadline, Bool.and_eq_true, beq_iff_eq,
    Bool.and_eq_false_iff] at through ⊢
  right; left; right
  exact beq_eq_false_iff_ne.mpr fun same =>
    different (Fin.ext (same.symm.trans through.2.1.2))

theorem Valid.quiet_of_safe (valid : p.Valid) (coherent : p.start.Coherent)
    (through : p.reloads timer = true) (safe : ¬ p.Threatened timer)
    (other : Fin numDeadlineTimers) : p.status other ≠ .missed := by
  have counted : p.decoded.specRegs.dtStatus = p.start.specRegs.decrementDeadlineTimers.dtStatus :=
    HwThread.of_state (fun ht => ht.specRegs.dtStatus) (fun _ => rfl)
      (valid.ready coherent.enabled).state
  simp only [Threatened, not_or, not_exists, not_and] at safe
  by_cases own : other = timer
  · rw [own, status, through, if_pos rfl]
    split <;> simp
  · rw [status, reloads_only through own, ← counted]
    exact safe.2 other own

theorem Valid.calm_of_safe (valid : p.Valid) (coherent : p.start.Coherent)
    (through : p.reloads timer = true) (safe : ¬ p.Threatened timer) :
    squashes p.arrived = false := by
  have quiet := valid.quiet_of_safe coherent through safe
  simp only [Threatened, not_or, Bool.not_eq_true] at safe
  have present : p.runs = true := by
    simp only [reloads, Regacc.reloads, Bool.and_eq_true] at through
    exact through.1
  obtain ⟨pending, _⟩ | ⟨_, _, same, _⟩ | ⟨_, other, missed, _⟩ :=
    valid.arrived_trap coherent.enabled present
  · rw [safe.1] at pending
    cases pending
  · have calm : p.arrived.isTrapped = false := by
      rw [HwThread.isTrapped, same]
      exact safe.1
    simp [squashes, calm]
  · exact absurd missed (quiet other)

theorem Valid.commits_of_reloads (valid : p.Valid) (coherent : p.start.Coherent)
    (through : p.reloads timer = true)
    (safe : p.start.specRegs.et = true → ¬ p.Threatened timer) :
    p.commitsDeadline timer = true := by
  have parts := through
  simp only [reloads, Regacc.reloads, Bool.and_eq_true] at parts
  obtain ⟨present, deadline, _⟩ := parts
  have reached : p.reaches timer = true := by simp [reaches, present, deadline]
  have normal : squashes p.arrived = false := by
    cases traps : p.start.specRegs.et with
    | false => simp [squashes, (valid.arrives coherent.enabled).et, traps]
    | true => exact valid.calm_of_safe coherent through (safe traps)
  obtain ⟨_, reaches, _⟩ | ⟨waits, _⟩ := valid.reaches_cases coherent reached
  · simp [commitsDeadline, reached, commits, reaches, normal]
  · rw [through] at waits
    cases waits

theorem Valid.idle_of_waits (valid : p.Valid) (coherent : p.start.Coherent)
    (waits : p.reloads timer = false) (straight : ¬ p.Shifts) :
    p.commitsDeadline timer = false ∧ p.loads timer = false := by
  constructor <;> apply Bool.eq_false_iff.mpr
  · intro commits
    rw [(valid.loads_of_commits coherent commits).1] at waits
    cases waits
  · intro loads
    obtain ⟨_, through, lets, same⟩ := valid.reloads_of_loads coherent loads
    cases flag : p.start.dbWordStalled with
    | true => exact straight ⟨flag, through, lets⟩
    | false =>
        rw [← same flag, lets] at waits
        cases waits

end Pass

end PretIss
