import PretIss.Library.Countdown
import PretIss.Thread.Program

/-! The timing law of the deadline instruction. A deadline instruction commits in the
round in which its timer has run out, counted from the round that loaded the timer,
or at once if it comes later than that. What the rounds in between execute, and how
often they stall, makes no difference. -/

namespace PretIss.Run

variable {id : ThreadId} {σ : Type} {timer : Fin numDeadlineTimers}

theorem timer_counts (run : Run id σ) {r n : Nat} (loaded : (run.entry r).loads timer = true)
    (later : r < n) (bound : n < run.length)
    (untouched : ∀ k, r < k → k < n → (run.entry k).loads timer = false) :
    (run.entry n).start.specRegs.dt timer =
      Countdown.after (run.entry r).arrived.inst.aluResult (n - r - 1) := by
  have counts := run.invariant_from
    (fun k ht => k ≤ n → ht.specRegs.dt timer =
      Countdown.after (run.entry r).arrived.inst.aluResult (k - r - 1))
    (r + 1) ?_ ?_ later bound
  · exact counts le_rfl
  · intro _
    have finishes := (run.valid r (by omega)).finishes (run.coherent (by omega))
    rw [run.linked r (by omega), finishes.dt, loaded]
    simp
  · intro k first below before notYet
    have finishes := (run.valid k below).finishes (run.coherent below)
    have ticks : k + 1 - r - 1 = k - r - 1 + 1 := by omega
    rw [finishes.dt, untouched k (by omega) (by omega), before (by omega), ticks,
      Countdown.after_succ]
    simp

theorem reaches_again (run : Run id σ) {n : Nat} (bound : n + 1 < run.length)
    (reached : (run.entry n).reaches timer = true)
    (waits : (run.entry n).finished.deadlineStalled = true) :
    (run.entry (n + 1)).reaches timer = true ∧
      (run.entry (n + 1)).decoded.inst.meaning = (run.entry n).decoded.inst.meaning := by
  have valid := run.valid n (by omega)
  have coherent := run.coherent (n := n) (by omega)
  have next := run.valid (n + 1) bound
  have nextCoherent := run.coherent bound
  simp only [Pass.reaches, Bool.and_eq_true] at reached
  obtain ⟨present, deadline⟩ := reached
  have held : Fetch.isHeld (run.entry (n + 1)).start = true := by
    rw [run.linked n bound]
    simp [Fetch.isHeld, waits]
  obtain ⟨again, word⟩ := next.held_word nextCoherent held
  have kept : (run.entry (n + 1)).decoded.inst.inst = (run.entry n).decoded.inst.inst := by
    rw [word, run.linked n bound]
    have latch := (valid.finished_latch coherent.enabled).2.2.2.2.1.trans
      (valid.arrived_operation coherent present)
    exact (Instruction.of_operation Instruction.inst (fun _ => rfl) latch).trans
      (Instruction.inst_ofWord _)
  have meaning := (valid.decoded_latch coherent (by simpa [Pass.runs] using present)).meaning
  have nextMeaning :=
    (next.decoded_latch nextCoherent (by simpa [Pass.runs] using again)).meaning
  rw [kept, ← meaning] at nextMeaning
  refine ⟨?_, nextMeaning⟩
  simp only [Pass.reaches, again, Bool.true_and, Regacc.isDeadline]
  rw [Instruction.of_meaning Instruction.selectSpecialRegister (fun _ => rfl) nextMeaning,
    Instruction.of_meaning Instruction.rd (fun _ => rfl) nextMeaning]
  exact deadline

/-- While its timer runs, a deadline instruction waits. -/
theorem waits_until (run : Run id σ) {r a n : Nat} (loaded : (run.entry r).loads timer = true)
    (small : (run.entry r).arrived.inst.aluResult.toNat < 2 ^ 31) (later : r < a)
    (reached : (run.entry a).reaches timer = true)
    (plain : Regacc.deadload (run.entry a).decoded.inst = false)
    (untouched : ∀ k, r < k → k < a → (run.entry k).loads timer = false)
    (first : a ≤ n) (early : n ≤ max a (r + (run.entry r).arrived.inst.aluResult.toNat))
    (bound : n < run.length) :
    (run.entry n).reaches timer = true ∧
      Regacc.deadload (run.entry n).decoded.inst = false ∧
      (∀ k, r < k → k < n → (run.entry k).loads timer = false) ∧
      ∀ k, a ≤ k → k < n → (run.entry k).reaches timer = true ∧ (run.entry k).commits = false := by
  induction n, first using Nat.le_induction with
  | base => exact ⟨reached, plain, untouched, fun k low high => by omega⟩
  | succ n first ih =>
      obtain ⟨here, still, quiet, waiting⟩ := ih (by omega) (by omega)
      have valid := run.valid n (by omega)
      have coherent := run.coherent (n := n) (by omega)
      have ticks : n - r - 1 + 1 = n - r := by omega
      have running : (run.entry n).reloads timer = false := by
        rw [valid.reloads_eq coherent.enabled here, still, Bool.or_false,
          run.timer_counts loaded (by omega) (by omega) quiet, ← Countdown.after_succ, ticks]
        apply Bool.eq_false_iff.mpr
        intro expired
        have expired := (Countdown.sle_zero_iff (by omega) (by omega)).mp expired
        omega
      obtain ⟨through, _⟩ | ⟨_, never, stalled⟩ := valid.reaches_cases coherent here
      · rw [running] at through
        cases through
      obtain ⟨again, meaning⟩ := run.reaches_again bound here stalled
      have rs1 := Instruction.of_meaning Instruction.rs1 (fun _ => rfl) meaning
      refine ⟨again, ?_, fun k low high => ?_, fun k low high => ?_⟩
      · rw [Regacc.deadload, rs1]
        exact still
      · rcases Nat.lt_succ_iff_lt_or_eq.mp high with before | rfl
        · exact quiet k low before
        · simp [Pass.loads, never]
      · rcases Nat.lt_succ_iff_lt_or_eq.mp high with before | rfl
        · exact waiting k low before
        · exact ⟨here, by simp [Pass.commits, never]⟩

/-- A deadline instruction commits exactly in the round in which the timer that an
earlier one loaded has run out, or in its own first round if that is later. -/
theorem dead_timing_law (run : Run id σ) (timer : Fin numDeadlineTimers) (r a : Nat)
    (loaded : (run.entry r).loads timer = true)
    (small : (run.entry r).arrived.inst.aluResult.toNat < 2 ^ 31) (later : r < a)
    (near : a - r < 2 ^ 31) (reached : (run.entry a).reaches timer = true)
    (plain : Regacc.deadload (run.entry a).decoded.inst = false)
    (untouched : ∀ k, r < k → k < a → (run.entry k).loads timer = false)
    (untrapped : ∀ k, r < k → k ≤ max a (r + (run.entry r).arrived.inst.aluResult.toNat) →
      (run.entry k).isSquashed = false)
    (bound : max a (r + (run.entry r).arrived.inst.aluResult.toNat) < run.length) :
    (∀ k, a ≤ k → k < max a (r + (run.entry r).arrived.inst.aluResult.toNat) →
      (run.entry k).reaches timer = true ∧ (run.entry k).commits = false) ∧
    (run.entry (max a (r + (run.entry r).arrived.inst.aluResult.toNat))).commitsDeadline timer =
      true := by
  generalize due : max a (r + (run.entry r).arrived.inst.aluResult.toNat) = n at *
  obtain ⟨here, still, quiet, waiting⟩ := run.waits_until (n := n) loaded small later reached plain
    untouched (by omega) (by omega) bound
  refine ⟨waiting, ?_⟩
  have valid := run.valid n bound
  have coherent := run.coherent bound
  have ticks : n - r - 1 + 1 = n - r := by omega
  have expired : (run.entry n).reloads timer = true := by
    rw [valid.reloads_eq coherent.enabled here, run.timer_counts loaded (by omega) bound quiet,
      ← Countdown.after_succ, ticks, (Countdown.sle_zero_iff (by omega) (by omega)).mpr (by omega),
      Bool.true_or]
  obtain ⟨_, reaches, _⟩ | ⟨waits, _⟩ := valid.reaches_cases coherent here
  · have free := untrapped n (by omega) le_rfl
    simp only [Pass.isSquashed, reaches, Bool.true_and] at free
    simp [Pass.commitsDeadline, Pass.commits, here, reaches, free]
  · rw [expired] at waits
    cases waits

def pacing : List (Round Unit) :=
  let program := fun pc : Word =>
    if pc = 0 then deadWord 0 0 3 else if pc = 8 then deadWord 0 0 1 else nopWord
  List.replicate 4 (.ofProgram program false .create)

theorem dead_timing_law_pacing :
    ∃ run : Run 0 Unit, (run.entry 0).arrived.inst.aluResult = 3 ∧
      (run.entry 2).commits = false ∧ (run.entry 3).commitsDeadline 0 = true := by
  obtain ⟨run, holds⟩ := Run.exists_of_check
    (fun length (entry : Nat → Pass 0 Unit) =>
      length == 4 && (entry 0).loads 0 && (entry 0).arrived.inst.aluResult == 3 &&
        !(entry 1).loads 0 && !(entry 1).isSquashed && (entry 2).reaches 0 &&
        !Regacc.deadload (entry 2).decoded.inst && !(entry 2).isSquashed &&
        !(entry 3).isSquashed) pacing (by decide +kernel)
  simp only [Bool.and_eq_true, Bool.not_eq_true', beq_iff_eq] at holds
  obtain ⟨⟨⟨⟨⟨⟨⟨⟨length, loads⟩, value⟩, quiet⟩, free₁⟩, reaches⟩, plain⟩, free₂⟩, free₃⟩ := holds
  have number : (run.entry 0).arrived.inst.aluResult.toNat = 3 := by rw [value]; rfl
  have law := run.dead_timing_law 0 0 2 loads (by omega) (by omega) (by omega) reaches plain
    (fun k low high => by obtain rfl : k = 1 := by omega
                          exact quiet)
    (fun k low high => by
      rw [number] at high
      obtain rfl | rfl | rfl : k = 1 ∨ k = 2 ∨ k = 3 := by omega
      · exact free₁
      · exact free₂
      · exact free₃)
    (by omega)
  rw [number] at law
  exact ⟨run, value, (law.1 2 le_rfl (by decide)).2, law.2⟩

end PretIss.Run
