import PretIss.Deadline.Status

/-! Missed deadlines are reported. An armed timer that runs out is marked as missed in
the round in which it does, and stays marked until its trap is taken, unless a
deadline instruction on the timer rewrites the mark: one that comes later than that
round, or one that a trap squashes after it has written the status. -/

namespace PretIss

variable {id : ThreadId} {σ : Type} {timer : Fin numDeadlineTimers}

namespace Pass

/-- A deadline instruction is let through although its timer was marked as missed in
an earlier round, or although a trap is about to squash it. -/
def Mistimes (p : Pass id σ) (timer : Fin numDeadlineTimers) : Prop :=
  p.reloads timer = true ∧
    (p.start.specRegs.dtStatus timer = .missed ∨ p.Threatened timer)

instance (p : Pass id σ) (timer : Fin numDeadlineTimers) : Decidable (p.Mistimes timer) :=
  inferInstanceAs (Decidable (_ ∧ (_ ∨ p.Threatened timer)))

end Pass

namespace Run

/-- A timer that a deadline instruction armed, and that ran out with neither a trap
nor another deadline instruction, has its trap taken before one commits. -/
def Reports (run : Run id σ) (timer : Fin numDeadlineTimers) : Prop :=
  ∀ r, r < run.length → (run.entry r).commitsDeadline timer = true →
    (run.entry r).loads timer = true → Regacc.deadbranch (run.entry r).decoded.inst = true →
    1 ≤ (run.entry r).arrived.inst.aluResult.toNat →
    (run.entry r).arrived.inst.aluResult.toNat < 2 ^ 31 →
    (∀ k, r < k → k ≤ r + (run.entry r).arrived.inst.aluResult.toNat → k < run.length →
      (run.entry k).traps timer = false ∧ (run.entry k).commitsDeadline timer = false) →
    ∀ c, r < c → c < run.length → (run.entry c).commitsDeadline timer = true →
      ∃ t, r < t ∧ t < c ∧ (run.entry t).traps timer = true

variable {run : Run id σ}

theorem untouched_step {n : Nat} (bound : n < run.length)
    (orderly : ¬ (run.entry n).Mistimes timer ∧ ¬ (run.entry n).Shifts)
    (quiet : (run.entry n).commitsDeadline timer = false)
    (untaken : (run.entry n).traps timer = false) :
    (run.entry n).finished.specRegs.dt timer = (run.entry n).start.specRegs.dt timer - 1 ∧
      (run.entry n).finished.specRegs.dtStatus timer =
        (run.entry n).start.specRegs.decrementDeadlineTimers.dtStatus timer := by
  have valid := run.valid n bound
  have coherent := run.coherent bound
  have finishes := valid.finishes coherent
  have waits : (run.entry n).reloads timer = false := by
    apply Bool.eq_false_iff.mpr
    intro through
    have commits := valid.commits_of_reloads coherent through
      fun _ threatened => orderly.1 ⟨through, Or.inr threatened⟩
    rw [commits] at quiet
    cases quiet
  have idle := (valid.idle_of_waits coherent waits orderly.2).2
  rw [finishes.dt, finishes.dtStatus, idle, untaken, Pass.status, waits]
  simp

/-- The timer after it is armed: it runs until its value, and is marked from then on. -/
theorem armed_until {r n : Nat} (orderly : ∀ k, k < run.length →
      ¬ (run.entry k).Mistimes timer ∧ ¬ (run.entry k).Shifts)
    (commits : (run.entry r).commitsDeadline timer = true)
    (loads : (run.entry r).loads timer = true)
    (armed : Regacc.deadbranch (run.entry r).decoded.inst = true)
    (small : (run.entry r).arrived.inst.aluResult.toNat < 2 ^ 31)
    (quiet : ∀ k, r < k → k < n →
      (run.entry k).traps timer = false ∧ (run.entry k).commitsDeadline timer = false)
    (later : r < n) (bound : n < run.length) :
    (n ≤ r + (run.entry r).arrived.inst.aluResult.toNat →
        (run.entry n).start.specRegs.dt timer =
            Countdown.after (run.entry r).arrived.inst.aluResult (n - r - 1) ∧
          (run.entry n).start.specRegs.dtStatus timer = .set) ∧
      (r + (run.entry r).arrived.inst.aluResult.toNat < n →
        1 ≤ (run.entry r).arrived.inst.aluResult.toNat →
        (run.entry n).start.specRegs.dtStatus timer = .missed) := by
  induction n, later using Nat.le_induction with
  | base =>
      have valid := run.valid r (by omega)
      have coherent := run.coherent (n := r) (by omega)
      have finishes := valid.finishes coherent
      have through := (valid.loads_of_commits coherent commits).1
      have untaken : (run.entry r).traps timer = false := by
        simp only [Pass.commitsDeadline, Pass.commits, Bool.and_eq_true,
          Bool.not_eq_true'] at commits
        simp [Pass.traps, ExceptStage.takesTrap, commits.2.2]
      rw [run.linked r bound, finishes.dt, finishes.dtStatus, loads, untaken, Pass.status, through,
        armed]
      exact ⟨fun _ => by simp, fun _ _ => by omega⟩
  | succ n later ih =>
      obtain ⟨runs, marked⟩ := ih (fun k low high => quiet k low (by omega)) (by omega)
      obtain ⟨untaken, calm⟩ := quiet n later (by omega)
      obtain ⟨dt, status⟩ := untouched_step (by omega) (orderly n (by omega)) calm untaken
      have ticks : n + 1 - r - 1 = n - r - 1 + 1 := by omega
      rw [run.linked n bound, dt, status]
      refine ⟨fun early => ?_, fun late positive => ?_⟩
      · obtain ⟨value, set⟩ := runs (by omega)
        refine ⟨by rw [value, ticks, Countdown.after_succ], ?_⟩
        have running : ¬ (((run.entry n).start.specRegs.dt timer - 1 - 1).slt 0 = true) := by
          rw [value, ← Countdown.after_succ, ← Countdown.after_succ,
            Countdown.slt_zero_iff (by omega) (by omega)]
          omega
        rw [SpecialReg.dtStatus_decrement, if_neg (not_and_of_not_left _ running), set]
      · rcases Nat.lt_or_ge (r + (run.entry r).arrived.inst.aluResult.toNat) n with past | due
        · have missed := marked past positive
          rw [SpecialReg.dtStatus_decrement, if_neg (by simp [missed]), missed]
        · obtain ⟨value, set⟩ := runs due
          have expired : ((run.entry n).start.specRegs.dt timer - 1 - 1).slt 0 = true := by
            rw [value, ← Countdown.after_succ, ← Countdown.after_succ,
              Countdown.slt_zero_iff (by omega) (by omega)]
            omega
          rw [SpecialReg.dtStatus_decrement, if_pos ⟨expired, set⟩]

/-- No missed deadline goes unreported while no deadline instruction is let through
late, squashed or shifted. -/
theorem missed_reported (run : Run id σ) (timer : Fin numDeadlineTimers)
    (orderly : ∀ k, k < run.length →
      ¬ (run.entry k).Mistimes timer ∧ ¬ (run.entry k).Shifts) :
    run.Reports timer := by
  intro r _ commits loads armed positive small expiry c later bound again
  induction c using Nat.strong_induction_on with
  | _ c ih =>
      by_cases earlier : ∃ k, r < k ∧ k < c ∧ (run.entry k).commitsDeadline timer = true
      · obtain ⟨k, low, high, between⟩ := earlier
        obtain ⟨t, first, last, taken⟩ := ih k high low (by omega) between
        exact ⟨t, first, by omega, taken⟩
      by_contra unreported
      have quiet : ∀ k, r < k → k < c →
          (run.entry k).traps timer = false ∧ (run.entry k).commitsDeadline timer = false := by
        intro k low high
        exact ⟨Bool.eq_false_iff.mpr fun taken => unreported ⟨k, low, high, taken⟩,
          Bool.eq_false_iff.mpr fun between => earlier ⟨k, low, high, between⟩⟩
      have due : r + (run.entry r).arrived.inst.aluResult.toNat < c := by
        by_contra early
        rw [(expiry c later (by omega) bound).2] at again
        cases again
      have missed := (armed_until orderly commits loads armed small quiet later bound).2 due positive
      have through := ((run.valid c bound).loads_of_commits (run.coherent bound) again).1
      exact (orderly c bound).1 ⟨through, Or.inl missed⟩

def reported : List (Round Unit) :=
  let program := fun pc : Word =>
    if pc = 0 then deadWord 0 2 1 else if pc = 0x720 then deadWord 0 2 5 else nopWord
  [.ofProgram program false .create, .ofProgram program false .create,
    .ofProgram program false .create, .ofProgram program false .create]

theorem missed_reported_handler :
    ∃ run : Run 0 Unit, (run.entry 3).commitsDeadline 0 = true ∧
      ∃ t, 0 < t ∧ t < 3 ∧ (run.entry t).traps 0 = true := by
  obtain ⟨run, holds⟩ := Run.exists_of_check
    (fun length (entry : Nat → Pass 0 Unit) =>
      length == 4 &&
        decide (∀ k, k < length → ¬ (entry k).Mistimes 0 ∧ ¬ (entry k).Shifts) &&
        (entry 0).commitsDeadline 0 && (entry 0).loads 0 &&
        Regacc.deadbranch (entry 0).decoded.inst && (entry 0).arrived.inst.aluResult == 1 &&
        !(entry 1).traps 0 && !(entry 1).commitsDeadline 0 &&
        (entry 3).commitsDeadline 0) reported (by decide +kernel)
  simp only [Bool.and_eq_true, Bool.not_eq_true', beq_iff_eq, decide_eq_true_eq] at holds
  obtain ⟨⟨⟨⟨⟨⟨⟨⟨length, orderly⟩, commits⟩, loads⟩, armed⟩, value⟩, untaken⟩, calm⟩, last⟩ := holds
  have number : (run.entry 0).arrived.inst.aluResult.toNat = 1 := by rw [value]; rfl
  have reports := missed_reported run 0 orderly 0 (by omega) commits loads armed (by omega)
    (by omega)
    (fun k low high _ => by
      obtain rfl : k = 1 := by omega
      exact ⟨untaken, calm⟩)
  exact ⟨run, last, reports 3 (by omega) (by omega) last⟩

def unreported : List (Round Unit) :=
  let program := fun pc : Word => if pc = 0 then deadWord 0 2 1 else deadWord 0 0 1
  [.ofProgram program false .create, .ofProgram program true .create,
    .ofProgram program false .create]

theorem missed_unreported :
    ∃ run : Run 0 Unit, (∀ k, k < run.length → (run.entry k).start.specRegs.et = true) ∧
      ¬ run.Reports 0 := by
  obtain ⟨run, holds⟩ := Run.exists_of_check
    (fun length (entry : Nat → Pass 0 Unit) =>
      length == 3 && decide (∀ k, k < length → (entry k).start.specRegs.et = true) &&
        (entry 0).commitsDeadline 0 && (entry 0).loads 0 &&
        Regacc.deadbranch (entry 0).decoded.inst && (entry 0).arrived.inst.aluResult == 1 &&
        !(entry 1).traps 0 && !(entry 1).commitsDeadline 0 &&
        (entry 2).commitsDeadline 0) unreported (by decide +kernel)
  simp only [Bool.and_eq_true, Bool.not_eq_true', beq_iff_eq, decide_eq_true_eq] at holds
  obtain ⟨⟨⟨⟨⟨⟨⟨⟨length, traps⟩, commits⟩, loads⟩, armed⟩, value⟩, untaken⟩, calm⟩, last⟩ := holds
  have number : (run.entry 0).arrived.inst.aluResult.toNat = 1 := by rw [value]; rfl
  refine ⟨run, traps, fun reports => ?_⟩
  obtain ⟨t, low, high, taken⟩ := reports 0 (by omega) commits loads armed (by omega) (by omega)
    (fun k low high _ => by
      obtain rfl : k = 1 := by omega
      exact ⟨untaken, calm⟩)
    2 (by omega) (by omega) last
  obtain rfl : t = 1 := by omega
  rw [untaken] at taken
  cases taken

end Run

end PretIss
