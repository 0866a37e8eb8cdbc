import PretIss.Deadline.Status

/-! No spurious deadline exception. A timer is marked only while it is armed, and it is
armed by a deadline instruction that loads it in the same pass, so the trap of a timer
always goes back to such an instruction. A deadline instruction that arms its timer
and is then squashed breaks this: the timer keeps the value it had. -/

namespace PretIss

open ExceptStage (reachesCommit squashes takesTrap deadlineTrap)

variable {id : ThreadId} {σ : Type} {timer : Fin numDeadlineTimers}

namespace Pass

/-- A deadline instruction arms its timer although a trap is about to squash it. -/
def Misarms (p : Pass id σ) (timer : Fin numDeadlineTimers) : Prop :=
  p.reloads timer = true ∧ Regacc.deadbranch p.decoded.inst = true ∧
    p.start.specRegs.et = true ∧ p.Threatened timer

instance (p : Pass id σ) (timer : Fin numDeadlineTimers) : Decidable (p.Misarms timer) :=
  inferInstanceAs (Decidable (_ ∧ _ ∧ _ ∧ p.Threatened timer))

end Pass

namespace Run

/-- A deadline instruction that arms its timer committed in an earlier round, and since
then neither did another on the timer nor was its trap taken. -/
def ArmedSince (run : Run id σ) (timer : Fin numDeadlineTimers) (r n : Nat) : Prop :=
  r < n ∧ (run.entry r).commitsDeadline timer = true ∧ (run.entry r).loads timer = true ∧
    Regacc.deadbranch (run.entry r).decoded.inst = true ∧
    ∀ k, r < k → k < n → (run.entry k).commitsDeadline timer = false ∧
      (run.entry k).loads timer = false ∧ (run.entry k).traps timer = false

/-- A trap that is taken goes back to such an instruction, and as many rounds as the
value that it loaded. -/
def Justified (run : Run id σ) (timer : Fin numDeadlineTimers) : Prop :=
  ∀ t, t < run.length → (run.entry t).traps timer = true →
    ∃ r, run.ArmedSince timer r t ∧ (run.entry r).arrived.inst.aluResult.toInt ≤ t - r

def Due (run : Run id σ) (timer : Fin numDeadlineTimers) (n : Nat) : Prop :=
  ∃ r, run.ArmedSince timer r n ∧ (run.entry r).arrived.inst.aluResult.toInt ≤ n - 1 - r

/-- What a thread's mark and trap say about the rounds before. -/
structure Accounts (run : Run id σ) (timer : Fin numDeadlineTimers) (n : Nat)
    (ht : HwThread id) : Prop where
  set : ht.specRegs.dtStatus timer = .set → ∃ r, run.ArmedSince timer r n ∧
    ht.specRegs.dt timer = Countdown.after (run.entry r).arrived.inst.aluResult (n - 1 - r) ∧
    (0 < (run.entry r).arrived.inst.aluResult.toInt →
      n - 1 - r < (run.entry r).arrived.inst.aluResult.toInt)
  missed : ht.specRegs.dtStatus timer = .missed → run.Due timer n
  trap : ht.isTrapped = true → ht.trapType = deadlineTrap timer → run.Due timer n

variable {run : Run id σ} {n r : Nat}

theorem ArmedSince.succ (armed : run.ArmedSince timer r n)
    (idle : (run.entry n).commitsDeadline timer = false ∧ (run.entry n).loads timer = false)
    (untaken : (run.entry n).traps timer = false) : run.ArmedSince timer r (n + 1) := by
  obtain ⟨later, commits, loads, arms, quiet⟩ := armed
  refine ⟨by omega, commits, loads, arms, fun k low high => ?_⟩
  rcases Nat.lt_succ_iff_lt_or_eq.mp high with before | rfl
  · exact quiet k low before
  · exact ⟨idle.1, idle.2, untaken⟩

theorem Due.succ (due : run.Due timer n)
    (idle : (run.entry n).commitsDeadline timer = false ∧ (run.entry n).loads timer = false)
    (untaken : (run.entry n).traps timer = false) : run.Due timer (n + 1) := by
  obtain ⟨r, armed, elapsed⟩ := due
  exact ⟨r, armed.succ idle untaken, by omega⟩

theorem Accounts.marked (accounts : run.Accounts timer n (run.entry n).start)
    (missed : (run.entry n).start.specRegs.decrementDeadlineTimers.dtStatus timer = .missed)
    (idle : (run.entry n).commitsDeadline timer = false ∧ (run.entry n).loads timer = false)
    (untaken : (run.entry n).traps timer = false) : run.Due timer (n + 1) := by
  rw [SpecialReg.dtStatus_decrement] at missed
  split at missed
  · rename_i expired
    obtain ⟨r, armed, value, running⟩ := accounts.set expired.2
    have later := armed.1
    refine ⟨r, armed.succ idle untaken, ?_⟩
    by_contra early
    have positive : 0 < (run.entry r).arrived.inst.aluResult.toInt := by omega
    have small := BitVec.toInt_pos_iff.mp (Int.le_of_lt positive)
    have number := BitVec.toInt_eq_toNat_of_lt small
    have soon := running positive
    have out := expired.1
    rw [value, ← Countdown.after_succ, ← Countdown.after_succ,
      Countdown.slt_zero_iff small (by omega)] at out
    omega
  · exact (accounts.missed missed).succ idle untaken

theorem status_of_reloads {p : Pass id σ} (through : p.reloads timer = true) :
    p.status timer = if Regacc.deadbranch p.decoded.inst then .set else .unset := by
  rw [Pass.status, through]
  rfl

theorem status_of_waits {p : Pass id σ} (waits : p.reloads timer = false) :
    p.status timer = p.start.specRegs.decrementDeadlineTimers.dtStatus timer := by
  rw [Pass.status, waits]
  rfl

/-- A timer that is armed at the end of a pass was loaded in it, or was armed before
and still runs. -/
theorem Accounts.set_step (bound : n < run.length)
    (orderly : ¬ (run.entry n).Misarms timer ∧ ¬ (run.entry n).Shifts)
    (accounts : run.Accounts timer n (run.entry n).start)
    (set : (run.entry n).finished.specRegs.dtStatus timer = .set) :
    ∃ r, run.ArmedSince timer r (n + 1) ∧
      (run.entry n).finished.specRegs.dt timer =
        Countdown.after (run.entry r).arrived.inst.aluResult (n + 1 - 1 - r) ∧
      (0 < (run.entry r).arrived.inst.aluResult.toInt →
        (n + 1 : Nat) - 1 - r < (run.entry r).arrived.inst.aluResult.toInt) := by
  have valid := run.valid n bound
  have coherent := run.coherent bound
  have finishes := valid.finishes coherent
  rw [finishes.dtStatus] at set
  split at set
  · cases set
  rename_i untaken
  cases through : (run.entry n).reloads timer with
  | true =>
      rw [status_of_reloads through] at set
      have arms : Regacc.deadbranch (run.entry n).decoded.inst = true := by
        by_contra plain
        simp [plain] at set
      have commits := valid.commits_of_reloads coherent through
        fun traps threatened => orderly.1 ⟨through, arms, traps, threatened⟩
      have straight : (run.entry n).start.dbWordStalled = false :=
        Bool.eq_false_iff.mpr fun flag => orderly.2 ⟨flag, timer, through⟩
      have loads := (valid.loads_of_commits coherent commits).2 straight
      refine ⟨n, ⟨by omega, commits, loads, arms, fun k low high => by omega⟩, ?_,
        fun positive => by omega⟩
      rw [finishes.dt, loads]
      simp
  | false =>
      have idle := valid.idle_of_waits coherent through orderly.2
      rw [status_of_waits through, SpecialReg.dtStatus_decrement] at set
      split at set
      · cases set
      rename_i running
      obtain ⟨r, armed, value, early⟩ := accounts.set set
      have later := armed.1
      have ticks : n + 1 - 1 - r = n - 1 - r + 1 := by omega
      refine ⟨r, armed.succ idle (Bool.eq_false_iff.mpr untaken), ?_, fun positive => ?_⟩
      · rw [finishes.dt, idle.2, value, ticks, Countdown.after_succ]
        rfl
      · have small := BitVec.toInt_pos_iff.mp (Int.le_of_lt positive)
        have number := BitVec.toInt_eq_toNat_of_lt small
        have soon := early positive
        have alive : ¬ ((run.entry n).start.specRegs.dt timer - 1 - 1).slt 0 = true :=
          fun expired => running ⟨expired, set⟩
        rw [value, ← Countdown.after_succ, ← Countdown.after_succ,
          Countdown.slt_zero_iff small (by omega)] at alive
        omega

/-- A trap that pends at the end of a pass was raised in it, or pended before. -/
theorem Accounts.trap_step (bound : n < run.length)
    (orderly : ¬ (run.entry n).Misarms timer ∧ ¬ (run.entry n).Shifts)
    (accounts : run.Accounts timer n (run.entry n).start)
    (pending : (run.entry n).finished.isTrapped = true)
    (type : (run.entry n).finished.trapType = deadlineTrap timer) : run.Due timer (n + 1) := by
  have valid := run.valid n bound
  have coherent := run.coherent bound
  have arrives := valid.arrives coherent.enabled
  -- Whether or not the pass was squashed, its trap is the one it arrived with.
  have held : (run.entry n).arrived.isTrapped = true ∧
      (run.entry n).arrived.trapType = deadlineTrap timer ∧ (run.entry n).commits = false ∧
      (run.entry n).traps timer = false := by
    obtain ⟨sameType, same, never⟩ | ⟨sameType, reaches, goes, taking⟩ | ⟨_, other⟩ :=
      (valid.finishes coherent).trap
    · refine ⟨?_, sameType ▸ type, by simp [Pass.commits, never], by simp [Pass.traps, never]⟩
      rw [HwThread.isTrapped, ← same]
      exact pending
    · have normal : (run.entry n).finished.trapped ≠ .normal := by
        intro normal
        rw [HwThread.isTrapped, normal] at pending
        cases pending
      have stops : (run.entry n).commits = false :=
        Bool.eq_false_iff.mpr fun commits => normal (goes commits)
      have squashed : squashes (run.entry n).arrived = true := by
        simpa [Pass.commits, reaches] using stops
      simp only [squashes, Bool.and_eq_true] at squashed
      refine ⟨squashed.1, sameType ▸ type, stops, Bool.eq_false_iff.mpr fun taken => ?_⟩
      simp only [Pass.traps, Bool.and_eq_true] at taken
      exact normal (taking taken.1.2)
    · exact absurd type (other timer)
  obtain ⟨arrivedTrapped, arrivedType, stops, untaken⟩ := held
  have idle : (run.entry n).commitsDeadline timer = false ∧ (run.entry n).loads timer = false := by
    refine ⟨by simp [Pass.commitsDeadline, stops], Bool.eq_false_iff.mpr fun loads => ?_⟩
    rw [(valid.reloads_of_loads coherent loads).1] at stops
    cases stops
  cases present : (run.entry n).runs with
  | false =>
      obtain ⟨free, _, same, _⟩ := valid.absent coherent present
      rw [HwThread.isTrapped, same] at arrivedTrapped
      simp [Fetch.isHeld, HwThread.isTrapped, arrivedTrapped] at free
  | true =>
      obtain ⟨before, _, sameType⟩ | ⟨free, _, same, _⟩ | ⟨_, other, missed, _, raised⟩ :=
        valid.arrived_trap coherent.enabled present
      · exact (accounts.trap before (sameType ▸ arrivedType)).succ idle untaken
      · rw [HwThread.isTrapped, same] at arrivedTrapped
        rw [HwThread.isTrapped, arrivedTrapped] at free
        cases free
      · obtain rfl := ExceptStage.deadlineTrap_injective (raised.symm.trans arrivedType)
        have waits : (run.entry n).reloads other = false := by
          apply Bool.eq_false_iff.mpr
          intro through
          rw [status_of_reloads through] at missed
          split at missed <;> cases missed
        rw [status_of_waits waits] at missed
        exact accounts.marked missed idle untaken

theorem Accounts.step (bound : n < run.length)
    (orderly : ¬ (run.entry n).Misarms timer ∧ ¬ (run.entry n).Shifts)
    (accounts : run.Accounts timer n (run.entry n).start) :
    run.Accounts timer (n + 1) (run.entry n).finished where
  set := accounts.set_step bound orderly
  trap := accounts.trap_step bound orderly
  missed := by
    intro missed
    have valid := run.valid n bound
    have coherent := run.coherent bound
    rw [(valid.finishes coherent).dtStatus] at missed
    split at missed
    · cases missed
    rename_i untaken
    have waits : (run.entry n).reloads timer = false := by
      apply Bool.eq_false_iff.mpr
      intro through
      rw [status_of_reloads through] at missed
      split at missed <;> cases missed
    rw [status_of_waits waits] at missed
    exact accounts.marked missed (valid.idle_of_waits coherent waits orderly.2)
      (Bool.eq_false_iff.mpr untaken)

theorem accounts_reset (run : Run id σ) (pc : Word)
    (windowReg : Fin (16 * registerWindows) → Word) :
    run.Accounts timer 0 (.reset id pc windowReg) where
  set := by
    intro set
    change DtStatus.unset = .set at set
    cases set
  missed := by
    intro missed
    change DtStatus.unset = .missed at missed
    cases missed
  trap := by
    intro pending
    change ExceptionState.normal.isTrapped = true at pending
    cases pending

/-- In a run from reset whose deadline instructions are neither squashed as they arm
their timers nor shifted, every deadline trap that is taken is justified. -/
theorem traps_justified (run : Run id σ) (timer : Fin numDeadlineTimers)
    (orderly : ∀ k, k < run.length → ¬ (run.entry k).Misarms timer ∧ ¬ (run.entry k).Shifts) :
    run.Justified timer := by
  intro t bound taken
  have accounts : run.Accounts timer t (run.entry t).start := by
    apply run.invariant (run.Accounts timer) _ _ bound
    · obtain ⟨pc, windowReg, same⟩ := run.reset
      rw [same]
      exact accounts_reset run pc windowReg
    · exact fun n bound accounts => accounts.step bound (orderly n bound)
  have valid := run.valid t bound
  have coherent := run.coherent bound
  simp only [Pass.traps, takesTrap, Bool.and_eq_true, beq_iff_eq] at taken
  obtain ⟨⟨reaches, _, second⟩, type⟩ := taken
  have present := Pass.runs_of_reachesCommit (valid.arrives coherent.enabled) reaches
  obtain ⟨before, _, sameType⟩ | ⟨free, _, same, _⟩ | ⟨_, _, _, first, _⟩ :=
    valid.arrived_trap coherent.enabled present
  · obtain ⟨r, armed, elapsed⟩ := accounts.trap before (sameType ▸ type)
    exact ⟨r, armed, by omega⟩
  · rw [HwThread.isTrapped, ← same, second] at free
    cases free
  · rw [second] at first
    cases first

def justified : List (Round Unit) :=
  let program := fun pc : Word => if pc = 0 then deadWord 0 2 1 else nopWord
  [.ofProgram program false .create, .ofProgram program false .create,
    .ofProgram program false .create]

theorem traps_justified_once :
    ∃ run : Run 0 Unit, (run.entry 2).traps 0 = true ∧
      ∃ r, run.ArmedSince 0 r 2 ∧ (run.entry r).arrived.inst.aluResult.toInt ≤ 2 - r := by
  obtain ⟨run, holds⟩ := Run.exists_of_check
    (fun length (entry : Nat → Pass 0 Unit) =>
      length == 3 &&
        decide (∀ k, k < length → ¬ (entry k).Misarms 0 ∧ ¬ (entry k).Shifts) &&
        (entry 2).traps 0) justified (by decide +kernel)
  simp only [Bool.and_eq_true, beq_iff_eq, decide_eq_true_eq] at holds
  obtain ⟨⟨length, orderly⟩, taken⟩ := holds
  exact ⟨run, taken, traps_justified run 0 orderly 2 (by omega) taken⟩

def spurious : List (Round Unit) :=
  let program := fun pc : Word =>
    if pc = 0 then deadWord 0 2 1 else if pc = 4 then deadWord 1 2 5 else nopWord
  [.ofProgram program false .create, .ofProgram program false .create,
    .ofProgram program false .create, .ofProgram program false .create,
    .ofProgram program false .create]

theorem traps_unjustified : ∃ run : Run 0 Unit, ¬ run.Justified 1 := by
  obtain ⟨run, holds⟩ := Run.exists_of_check
    (fun length (entry : Nat → Pass 0 Unit) =>
      length == 5 && (entry 4).traps 1 && !(entry 0).loads 1 && !(entry 1).loads 1 &&
        !(entry 2).loads 1 && !(entry 3).loads 1) spurious (by decide +kernel)
  simp only [Bool.and_eq_true, Bool.not_eq_true', beq_iff_eq] at holds
  obtain ⟨⟨⟨⟨⟨length, taken⟩, never₀⟩, never₁⟩, never₂⟩, never₃⟩ := holds
  refine ⟨run, fun justified => ?_⟩
  obtain ⟨r, ⟨later, _, loads, _⟩, _⟩ := justified 4 (by omega) taken
  obtain rfl | rfl | rfl | rfl : r = 0 ∨ r = 1 ∨ r = 2 ∨ r = 3 := by omega
  · simp [never₀] at loads
  · simp [never₁] at loads
  · simp [never₂] at loads
  · simp [never₃] at loads

end Run

end PretIss
