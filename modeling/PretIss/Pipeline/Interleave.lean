import Mathlib.Data.Fin.VecNotation
import Mathlib.Tactic.FinCases
import PretIss.Isolation.Phases
import PretIss.Library.ShiftRegister

/-! The threads in the pipeline. The six latches are a shift register that the
round-robin scheduler feeds, so they hold the threads of the last six counts. The
counter has 32 bits and is taken modulo six, which does not divide the number of its
values: the order of the threads breaks where the counter wraps. -/

namespace PretIss.Core

def latch (c : Core) : Fin 6 → Option ThreadId :=
  ![c.poolToF, c.fToD, c.dToRa, c.raToEx, c.exToMem, c.memToExcept]

/-- A history of a core from reset, one entry for each call of `behavior`; between two
calls the PLL clock may tick. -/
structure History where
  length : Nat
  state : Nat → Core
  reset : ∃ pool memoryController, state 0 = create pool memoryController
  cycle : ∀ n, n < length → ∃ c ticks, behavior (state n) = .ok c ∧
    state (n + 1) = pllBehavior^[ticks] c

/-- A call of `behavior` moves every thread on by a latch, and counts. -/
structure Moves (c d : Core) : Prop where
  latch_zero : d.latch 0 = some (scheduled c.tcount)
  latch_succ : ∀ i j : Fin 6, j.val = i.val + 1 → d.latch j = c.latch i
  tcount : d.tcount = c.tcount + 1
  cycles : d.cycles = c.cycles + 1

theorem behavior_moves {c d : Core} (runs : behavior c = .ok d) : Moves c d := by
  simp only [behavior, phases, Transition.run_cons_eq_ok, Transition.run_nil] at runs
  obtain ⟨c₁, one, c₂, two, c₃, three, c₄, four, c₅, five, c₆, six, c₇, seven, c₈, eight, c₉, nine,
    c₁₀, ten, last⟩ := runs
  obtain ⟨_, _, _, rfl⟩ := Isolation.exceptStage_frame one
  obtain rfl := Except.ok.inj two
  obtain ⟨_, _, rfl, _⟩ := Isolation.dmaController_frame three
  obtain ⟨_, _, rfl⟩ := Isolation.memoryStage_frame four
  obtain rfl := Except.ok.inj five
  obtain ⟨_, frame⟩ := Isolation.executeStage_frame _
  rw [frame] at six
  obtain ⟨_, rfl⟩ := Isolation.regaccStage_frame six
  obtain rfl := Except.ok.inj seven
  obtain ⟨_, frame⟩ := Isolation.decodeStage_frame _
  rw [frame] at eight
  obtain ⟨_, _, rfl⟩ := Isolation.fetchStage_frame eight
  obtain rfl := Except.ok.inj nine
  obtain rfl := Except.ok.inj ten
  obtain rfl := Except.ok.inj last
  refine ⟨rfl, ?_, rfl, rfl⟩
  intro i j next
  fin_cases i <;> fin_cases j <;> simp at next <;> rfl

theorem pllBehavior_still (c : Core) (ticks : Nat) :
    (pllBehavior^[ticks] c).latch = c.latch ∧ (pllBehavior^[ticks] c).tcount = c.tcount ∧
      (pllBehavior^[ticks] c).cycles = c.cycles := by
  induction ticks generalizing c with
  | zero => exact ⟨rfl, rfl, rfl⟩
  | succ ticks ih =>
      rw [Function.iterate_succ_apply]
      exact ih (pllBehavior c)

namespace History

theorem counters (h : History) {n : Nat} (bound : n ≤ h.length) :
    (h.state n).tcount = BitVec.ofNat 32 n ∧ (h.state n).cycles = BitVec.ofNat 32 n := by
  induction n with
  | zero =>
      obtain ⟨pool, memoryController, start⟩ := h.reset
      rw [start]
      exact ⟨rfl, rfl⟩
  | succ n ih =>
      obtain ⟨tcount, cycles⟩ := ih (by omega)
      obtain ⟨c, ticks, runs, next⟩ := h.cycle n bound
      obtain ⟨_, sameTcount, sameCycles⟩ := pllBehavior_still c ticks
      have moves := behavior_moves runs
      rw [next, sameTcount, sameCycles, moves.tcount, moves.cycles, tcount, cycles,
        BitVec.ofNat_add]
      exact ⟨rfl, rfl⟩

def sent (n : Nat) : ThreadId := scheduled (BitVec.ofNat 32 n)

theorem sent_val (n : Nat) : (sent n).val = n % 2 ^ 32 % 6 := by
  simp [sent, scheduled, numThreads]

theorem sent_eq_iff (m n : Nat) : sent m = sent n ↔ m % 2 ^ 32 % 6 = n % 2 ^ 32 % 6 := by
  rw [Fin.ext_iff, sent_val, sent_val]

theorem latches (h : History) :
    ShiftRegister sent h.length (fun n => (h.state n).latch) where
  empty i := by
    obtain ⟨pool, memoryController, start⟩ := h.reset
    rw [start]
    fin_cases i <;> rfl
  enter n bound i zero := by
    obtain ⟨c, ticks, runs, next⟩ := h.cycle n bound
    obtain rfl : i = 0 := Fin.ext zero
    rw [next, (pllBehavior_still c ticks).1, (behavior_moves runs).latch_zero,
      (h.counters (by omega)).1]
    rfl
  shift n bound i j next := by
    obtain ⟨c, ticks, runs, after⟩ := h.cycle n bound
    rw [after, (pllBehavior_still c ticks).1, (behavior_moves runs).latch_succ i j next]

/-- In the call after `n` calls every stage has a thread of its own; the thread to be
fetched was fetched six calls before and not since, and its instruction of that time
has been through all stages, in the order in which the threads were fetched. -/
structure Interleaved (h : History) (n : Nat) : Prop where
  full : ∀ i, ((h.state n).latch i).isSome = true
  distinct : Function.Injective (h.state n).latch
  period : 7 ≤ n → (h.state (n - 6)).poolToF = (h.state n).poolToF
  alone : ∀ k, 0 < k → k < 6 → (h.state (n - k)).poolToF ≠ (h.state n).poolToF
  through : 7 ≤ n → (h.state (n - 1)).memToExcept = (h.state n).poolToF
  order : ∀ m, 0 < m → m + 5 ≤ n → (h.state (m + 5)).memToExcept = (h.state m).poolToF

/-- The counter has not wrapped within the last seven counts. -/
def Unwrapped (n : Nat) : Prop := (n - 7) % 2 ^ 32 + 6 < 2 ^ 32

instance (n : Nat) : Decidable (Unwrapped n) := inferInstanceAs (Decidable (_ < _))

theorem poolToF_eq (h : History) {n : Nat} (bound : n ≤ h.length) (begun : 0 < n) :
    (h.state n).poolToF = some (sent (n - 1)) := by
  have held := h.latches.cell_eq bound 0
  rwa [if_pos (by simpa using begun)] at held

theorem memToExcept_eq (h : History) {n : Nat} (bound : n ≤ h.length) (full : 6 ≤ n) :
    (h.state n).memToExcept = some (sent (n - 6)) := by
  have held : (h.state n).memToExcept = some (sent (n - 1 - 5)) := h.latches.cell_full bound full 5
  rwa [Nat.sub_sub] at held

theorem sent_distinct {n : Nat} (unwrapped : Unwrapped n) (full : 6 ≤ n) {i j : Nat} (first : i < 6)
    (second : j < 6) (same : sent (n - 1 - i) = sent (n - 1 - j)) : i = j := by
  rw [sent_eq_iff] at same
  unfold Unwrapped at unwrapped
  omega

theorem phase_wrapped {low : Nat} (wraps : 2 ^ 32 ≤ low + 6) :
    low % 6 ≠ (low + 6 - 2 ^ 32) % 6 := by
  obtain ⟨excess, same⟩ := Nat.exists_eq_add_of_le wraps
  have whole : low = 6 * 715827881 + (4 + excess) := by omega
  rw [same, Nat.add_sub_cancel_left, whole, Nat.mul_add_mod]
  clear whole same wraps
  omega

theorem sent_period {n : Nat} (later : 7 ≤ n) : sent (n - 7) = sent (n - 1) ↔ Unwrapped n := by
  obtain ⟨count, rfl⟩ := Nat.exists_eq_add_of_le later
  rw [sent_eq_iff, Unwrapped, Nat.add_sub_cancel_left, show 7 + count - 1 = count + 6 by omega,
    ← Nat.mod_add_mod count (2 ^ 32) 6]
  have short : count % 2 ^ 32 < 2 ^ 32 := Nat.mod_lt _ (by decide)
  generalize count % 2 ^ 32 = low at short ⊢
  by_cases room : low + 6 < 2 ^ 32
  · rw [Nat.mod_eq_of_lt room, Nat.add_mod_right]
    exact iff_of_true rfl room
  · have wraps := Nat.le_of_not_lt room
    rw [Nat.mod_eq_sub_mod wraps, Nat.mod_eq_of_lt (show low + 6 - 2 ^ 32 < 2 ^ 32 by omega)]
    exact iff_of_false (phase_wrapped wraps) room

/-- The pipeline is interleaved exactly as long as the counter does not wrap. -/
theorem interleaved_iff (h : History) (n : Nat) (full : 6 ≤ n) (bound : n ≤ h.length) :
    h.Interleaved n ↔ Unwrapped n := by
  constructor
  · intro interleaved
    by_cases start : n = 6
    · subst start
      decide
    · have period := interleaved.period (by omega)
      rw [h.poolToF_eq (by omega) (by omega), h.poolToF_eq bound (by omega), Nat.sub_sub] at period
      exact (sent_period (by omega)).mp (Option.some.inj period)
  · intro unwrapped
    refine ⟨fun i => ?_, ?_, fun later => ?_, fun k later short same => ?_, fun later => ?_,
      fun m begun early => ?_⟩
    · rw [h.latches.cell_full bound full i, Option.isSome_some]
    · rw [h.latches.injective_iff bound full]
      exact fun i j same => Fin.ext (sent_distinct unwrapped full i.isLt j.isLt same)
    · rw [h.poolToF_eq (by omega) (by omega), h.poolToF_eq bound (by omega), Nat.sub_sub,
        (sent_period later).mpr unwrapped]
    · rw [h.poolToF_eq (by omega) (by omega), h.poolToF_eq bound (by omega)] at same
      have equal := Option.some.inj same
      rw [Nat.sub_right_comm] at equal
      have zero := sent_distinct unwrapped full short (show 0 < 6 by omega) equal
      omega
    · rw [h.memToExcept_eq (by omega) (by omega), h.poolToF_eq bound (by omega), Nat.sub_sub,
        (sent_period later).mpr unwrapped]
    · rw [h.memToExcept_eq (by omega) (by omega), h.poolToF_eq (by omega) begun]
      rfl

end History

structure Unused (c : Core) : Prop where
  threads : ∀ id, (c.pool id).enabled = false
  transfers : ∀ id, c.dma.transferComplete id ≠ .busy

theorem setThread_same (c : Core) (id : ThreadId) : c.setThread id (c.pool id) = c := by
  simp [setThread]

theorem Unused.isNotValid {c : Core} (unused : Unused c) (id : ThreadId) :
    (c.pool id).isNotValid = true := by
  simp [HwThread.isNotValid, unused.threads]

theorem Unused.serves {c : Core} (unused : Unused c) :
    Dma.behavior c.cycles c.dma c.memoryController = .ok (c.dma, c.memoryController) := by
  have passes : ∃ final, Dma.behavior c.cycles c.dma c.memoryController = .ok final ∧
      final = (c.dma, c.memoryController) := by
    apply Transition.returns_run _ (fun s => s = (c.dma, c.memoryController)) (fun _ _ => True) _
      rfl (fun _ _ => trivial)
    intro id s _ same
    refine ⟨s, ?_, same⟩
    simp only [same, Dma.serve, unused.transfers, ne_eq, not_false_eq_true, if_true, pure,
      Except.pure]
  obtain ⟨final, returns, rfl⟩ := passes
  exact returns

/-- The stages pass over a thread that has no program. -/
theorem Unused.step {c : Core} (unused : Unused c) (p : Phase) (clocked : p ≠ .pll) :
    ∃ d, Core.step p c = .ok d ∧ Unused d := by
  cases p with
  | exceptStage =>
      cases latch : c.memToExcept with
      | none => exact ⟨c, by simp [Core.step, exceptStage, latch], unused⟩
      | some id =>
          refine ⟨c, ?_, unused⟩
          simp only [Core.step, exceptStage, latch,
            ExceptStage.behavior_of_disabled (unused.threads id), bind, Except.bind, pure,
            Except.pure, setThread_same]
          rw [← latch]
  | memoryController => exact ⟨_, rfl, unused.threads, unused.transfers⟩
  | dmaController =>
      refine ⟨c, ?_, unused⟩
      simp only [Core.step, dmaController, unused.serves, bind, Except.bind, pure, Except.pure]
  | memoryStage =>
      refine ⟨{ c with memToExcept := c.exToMem }, ?_, unused.threads, unused.transfers⟩
      cases latch : c.exToMem with
      | none => simp [Core.step, memoryStage, latch]
      | some id =>
          simp only [Core.step, memoryStage, latch, Mem.behavior, unused.isNotValid, if_true, bind,
            Except.bind, pure, Except.pure, setThread_same]
  | executeStage =>
      refine ⟨{ c with exToMem := c.raToEx }, ?_, unused.threads, unused.transfers⟩
      cases latch : c.raToEx with
      | none => simp [Core.step, executeStage, latch]
      | some id =>
          simp only [Core.step, executeStage, latch, Execute.behavior, unused.isNotValid, if_true,
            setThread_same]
  | regaccStage =>
      refine ⟨{ c with raToEx := c.dToRa }, ?_, unused.threads, unused.transfers⟩
      cases latch : c.dToRa with
      | none => simp [Core.step, regaccStage, latch]
      | some id =>
          simp only [Core.step, regaccStage, latch, Regacc.behavior, unused.isNotValid, if_true,
            bind, Except.bind, pure, Except.pure, setThread_same]
  | decodeStage =>
      refine ⟨{ c with dToRa := c.fToD }, ?_, unused.threads, unused.transfers⟩
      cases latch : c.fToD with
      | none => simp [Core.step, decodeStage, latch]
      | some id =>
          simp only [Core.step, decodeStage, latch, Decode.behavior, unused.isNotValid, if_true,
            setThread_same]
  | fetchStage =>
      refine ⟨{ c with fToD := c.poolToF }, ?_, unused.threads, unused.transfers⟩
      cases latch : c.poolToF with
      | none => simp [Core.step, fetchStage, latch]
      | some id =>
          simp [Core.step, fetchStage, latch, Fetch.behavior, unused.threads, bind, Except.bind,
            pure, Except.pure, setThread_same]
  | threadController => exact ⟨_, rfl, unused.threads, unused.transfers⟩
  | cycleCounter => exact ⟨_, rfl, unused.threads, unused.transfers⟩
  | pll => exact absurd rfl clocked

theorem Unused.behavior {c : Core} (unused : Unused c) :
    ∃ d, Core.behavior c = .ok d ∧ Unused d := by
  apply Transition.returns_run Core.step Unused (fun p _ => p ≠ .pll) _ unused
  · intro entry member clocked
    have phase : entry.1 ∈ phases := Transition.mem_of_mem_trail Core.step entry member
    rw [clocked] at phase
    exact absurd phase (by decide)
  · exact fun p c clocked unused => unused.step p clocked

def next (c : Core) : Core :=
  match behavior c with
  | .ok d => d
  | .error _ => c

theorem Unused.next {c : Core} (unused : Unused c) :
    Core.behavior c = .ok c.next ∧ Unused c.next := by
  obtain ⟨d, returns, again⟩ := unused.behavior
  have same : c.next = d := by rw [Core.next, returns]
  exact ⟨same ▸ returns, same ▸ again⟩

def unloaded : Core := create (fun id => HwThread.create id 0 fun _ => 0) .create

theorem unloaded_unused (n : Nat) : Unused (next^[n] unloaded) := by
  induction n with
  | zero => exact ⟨fun _ => rfl, fun _ => nofun⟩
  | succ n ih =>
      rw [Function.iterate_succ_apply']
      exact ih.next.2

namespace History

/-- The core runs for any number of cycles when it has no program. -/
def ofUnloaded (length : Nat) : History where
  length := length
  state n := next^[n] unloaded
  reset := ⟨_, _, rfl⟩
  cycle n _ := ⟨next^[n + 1] unloaded, 0,
    by rw [Function.iterate_succ_apply']; exact (unloaded_unused n).next.1, rfl⟩

theorem interleaved_iff_million : (ofUnloaded 1000000).Interleaved 1000000 :=
  (interleaved_iff _ 1000000 (by decide) (le_refl 1000000)).mpr (by decide)

/-- Thread 4 is fetched six cycles before thread 0, when the counter has just wrapped. -/
theorem interleaving_breaks :
    ¬ ∀ (h : History) (n : Nat), 6 ≤ n → n ≤ h.length → h.Interleaved n := by
  intro always
  have period := (always (ofUnloaded (2 ^ 32 + 1)) (2 ^ 32 + 1) (by decide) le_rfl).period (by decide)
  rw [poolToF_eq _ (show 2 ^ 32 + 1 - 6 ≤ 2 ^ 32 + 1 by decide) (by decide),
    poolToF_eq _ (show 2 ^ 32 + 1 ≤ 2 ^ 32 + 1 from le_rfl) (by decide), Nat.sub_sub] at period
  exact absurd ((sent_period (by decide)).mp (Option.some.inj period)) (by decide)

end History

end PretIss.Core
