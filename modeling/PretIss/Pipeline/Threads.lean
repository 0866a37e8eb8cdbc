import PretIss.Pipeline.Calls
import PretIss.Thread.Outcome

/-! A thread of a core as a run of its own. While the counter of the scheduler does not
wrap, a thread is fetched in every sixth call and is in one latch in each of the calls
that follow, so the calls make passes of it that join to a run from reset. What holds of
every run of a thread holds of every thread of a core. -/

namespace PretIss.Core

variable {t : ThreadId}

theorem pool_pllBehavior (c : Core) (ticks : Nat) :
    (pllBehavior^[ticks] c).pool t = HwThread.pllTick^[ticks] (c.pool t) := by
  induction ticks generalizing c with
  | zero => rfl
  | succ ticks ih =>
      rw [Function.iterate_succ_apply, Function.iterate_succ_apply, ih]
      rfl

namespace History

theorem call (h : History) {n : Nat} (bound : n < h.length) :
    ∃ d, Nonempty (Between (h.state n) d) ∧ ∃ ticks, h.state (n + 1) = pllBehavior^[ticks] d := by
  obtain ⟨d, ticks, runs, next⟩ := h.cycle n bound
  exact ⟨d, behavior_between runs, ticks, next⟩

theorem latch_eq_iff (h : History) (short : h.length ≤ 2 ^ 32) {n : Nat} (bound : n ≤ h.length)
    (i : Fin 6) : (h.state n).latch i = some t ↔ i.val < n ∧ (n - 1 - i.val) % 6 = t.val := by
  rw [h.latches.cell_eq bound i]
  split
  · rename_i entered
    have count : (n - 1 - i.val) % 2 ^ 32 = n - 1 - i.val := Nat.mod_eq_of_lt (by omega)
    rw [Option.some.injEq, Fin.ext_iff, sent_val, count]
    exact (and_iff_right entered).symm
  · rename_i early
    simp [early]

/-- The call in which a thread is fetched for its pass of this number. -/
def fetchCall (t : ThreadId) (m : Nat) : Nat := t.val + 1 + 6 * m

def rounds (h : History) (t : ThreadId) : Nat := (h.length - t.val - 1) / 6

theorem fetchCall_bound (h : History) {m : Nat} (complete : m < h.rounds t) :
    fetchCall t m + 6 ≤ h.length := by
  unfold rounds at complete
  unfold fetchCall
  omega

theorem occupies (h : History) (short : h.length ≤ 2 ^ 32) {m : Nat} (i : Fin 6)
    (bound : fetchCall t m + i.val ≤ h.length) : (h.state (fetchCall t m + i.val)).Occupies t i := by
  intro j
  rw [h.latch_eq_iff short bound, Fin.ext_iff]
  have thread := t.isLt
  unfold fetchCall
  simp only [numThreads] at thread
  omega

theorem nowhere (h : History) (short : h.length ≤ 2 ^ 32) {n : Nat} (early : n ≤ t.val)
    (bound : n ≤ h.length) (j : Fin 6) : (h.state n).latch j ≠ some t := by
  rw [Ne, h.latch_eq_iff short bound]
  omega

theorem pllTick_reset (pc : Word) (windowReg : Fin (16 * registerWindows) → Word) (ticks : Nat) :
    HwThread.pllTick^[ticks] (HwThread.reset t pc windowReg) = .reset t pc windowReg := by
  apply Function.iterate_fixed
  simp [HwThread.pllTick, HwThread.reset, HwThread.create, SpecialReg.create, SpecialReg.setPsr,
    SpecialReg.decrementPllTimers]

theorem reset_until_fetch (h : History) (short : h.length ≤ 2 ^ 32) {pc : Word}
    {windowReg : Fin (16 * registerWindows) → Word}
    (reset : (h.state 0).pool t = .reset t pc windowReg) {n : Nat} (early : n ≤ t.val + 1)
    (bound : n ≤ h.length) : (h.state n).pool t = .reset t pc windowReg := by
  induction n with
  | zero => exact reset
  | succ n ih =>
      obtain ⟨d, ⟨b⟩, ticks, next⟩ := h.call (n := n) (by omega)
      rw [next, pool_pllBehavior, b.idle (h.nowhere short (by omega) (by omega)),
        ih (by omega) (by omega), pllTick_reset]

/-- A pass is what six calls of the core from this one on make of a thread. -/
structure Makes (h : History) (n : Nat) (p : Pass t MemoryController) : Prop where
  valid : p.Valid
  start : p.start = (h.state n).pool t
  fetched : p.fetched = (h.state (n + 1)).pool t
  decoded : p.decoded = (h.state (n + 2)).pool t
  accessed : p.accessed = (h.state (n + 3)).pool t
  executed : p.executed = (h.state (n + 4)).pool t
  arrived : p.arrived = (h.state (n + 5)).pool t
  finished : p.finished = (h.state (n + 6)).pool t
  instructionMemory :
    p.round.instructionMemory = MemoryController.fetchStageIf (h.state n).cycles
  fetchMemory : ∃ d, ∃ b : Between (h.state n) d,
    p.round.fetchMemory = b.accessed.memoryController
  dataMem : p.round.dataMem = MemoryController.memStageIf (h.state (n + 4)).cycles
  memory : ∃ d, ∃ b : Between (h.state (n + 4)) d, p.round.memory = b.served.memoryController
  syncTable : p.round.syncTable = (h.state (n + 5)).syncTable
  dma : p.round.dma = (h.state (n + 5)).dma
  engine : ∃ d, ∃ b : Between (h.state (n + 5)) d, p.dma = b.excepted.dma

def ticksAfter (fetch decode regacc execute mem except : Nat) : Stage → Nat
  | .fetch => fetch
  | .decode => decode
  | .regacc => regacc
  | .execute => execute
  | .mem => mem
  | .except => except

theorem makes_pass (h : History) (short : h.length ≤ 2 ^ 32) {m : Nat}
    (complete : m < h.rounds t) :
    ∃ p : Pass t MemoryController, h.Makes (fetchCall t m) p := by
  have bound := h.fetchCall_bound complete
  have own : ∀ i : Fin 6, (h.state (fetchCall t m + i.val)).Occupies t i :=
    fun i => h.occupies short i (by omega)
  generalize fetchCall t m = n at bound own ⊢
  obtain ⟨d₀, ⟨b₀⟩, ticks₀, next₀⟩ := h.call (n := n) (by omega)
  obtain ⟨d₁, ⟨b₁⟩, ticks₁, next₁⟩ := h.call (n := n + 1) (by omega)
  obtain ⟨d₂, ⟨b₂⟩, ticks₂, next₂⟩ := h.call (n := n + 2) (by omega)
  obtain ⟨d₃, ⟨b₃⟩, ticks₃, next₃⟩ := h.call (n := n + 3) (by omega)
  obtain ⟨d₄, ⟨b₄⟩, ticks₄, next₄⟩ := h.call (n := n + 4) (by omega)
  obtain ⟨d₅, ⟨b₅⟩, ticks₅, next₅⟩ := h.call (n := n + 5) (by omega)
  have fetch := (own 0).fetch b₀
  have decode := (own 1).decode b₁
  have regacc := (own 2).regacc b₂
  have execute := (own 3).execute b₃
  have mem := (own 4).mem b₄
  have except := (own 5).except b₅
  let round : Round MemoryController :=
    { instructionMemory := MemoryController.fetchStageIf (h.state n).cycles
      dataMem := MemoryController.memStageIf (h.state (n + 4)).cycles
      fetchMemory := b₀.accessed.memoryController
      memory := b₄.served.memoryController
      syncTable := (h.state (n + 5)).syncTable
      dma := (h.state (n + 5)).dma
      ticks := ticksAfter ticks₀ ticks₁ ticks₂ ticks₃ ticks₄ ticks₅ }
  refine ⟨
    { round
      start := (h.state n).pool t
      fetched := (h.state (n + 1)).pool t
      decoded := (h.state (n + 2)).pool t
      accessed := (h.state (n + 3)).pool t
      executed := (h.state (n + 4)).pool t
      arrived := (h.state (n + 5)).pool t
      finished := (h.state (n + 6)).pool t
      fetchMemory := b₀.fetched.memoryController
      memory := b₄.accessed.memoryController
      syncTable := b₅.excepted.syncTable
      dma := b₅.excepted.dma },
    { valid := ?_, start := rfl, fetched := rfl, decoded := rfl, accessed := rfl, executed := rfl
      arrived := rfl, finished := rfl, instructionMemory := rfl, fetchMemory := ⟨d₀, b₀, rfl⟩
      dataMem := rfl, memory := ⟨d₄, b₄, rfl⟩, syncTable := rfl, dma := rfl
      engine := ⟨d₅, b₅, rfl⟩ }⟩
  constructor
  · exact ⟨d₀.pool t, fetch, by rw [next₀, pool_pllBehavior]; rfl⟩
  · simp only [next₁, pool_pllBehavior, decode]
    rfl
  · exact ⟨d₂.pool t, regacc, by simp only [next₂, pool_pllBehavior]; rfl⟩
  · simp only [next₃, pool_pllBehavior, execute]
    rfl
  · exact ⟨d₄.pool t, mem, by simp only [next₄, pool_pllBehavior]; rfl⟩
  · exact ⟨d₅.pool t, except, by simp only [next₅, pool_pllBehavior]; rfl⟩

theorem exists_run (h : History) (short : h.length ≤ 2 ^ 32) {pc : Word}
    {windowReg : Fin (16 * registerWindows) → Word}
    (reset : (h.state 0).pool t = .reset t pc windowReg) (some : 0 < h.rounds t) :
    ∃ run : Run t MemoryController, run.length = h.rounds t ∧
      ∀ m, m < run.length → h.Makes (fetchCall t m) (run.entry m) := by
  obtain ⟨first, makesFirst⟩ := h.makes_pass short some
  have chosen : ∀ m, ∃ p : Pass t MemoryController,
      m < h.rounds t → h.Makes (fetchCall t m) p := by
    intro m
    by_cases complete : m < h.rounds t
    · obtain ⟨p, makes⟩ := h.makes_pass short complete
      exact ⟨p, fun _ => makes⟩
    · exact ⟨first, fun within => absurd within complete⟩
  choose entry makes using chosen
  refine ⟨
    { length := h.rounds t
      entry
      valid := fun m bound => (makes m bound).valid
      linked := fun m bound => ?_
      reset := ⟨pc, windowReg, ?_⟩ }, rfl, makes⟩
  · rw [(makes (m + 1) bound).start, (makes m (by omega)).finished]
    rfl
  · rw [(makes 0 some).start]
    have bound := h.fetchCall_bound some
    exact h.reset_until_fetch short reset (by simp [fetchCall]) (by omega)

end History

end PretIss.Core
