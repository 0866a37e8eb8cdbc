import Mathlib.Algebra.BigOperators.Group.Finset.Basic
import PretIss.Deadline.Status
import PretIss.DoubleWord.Stall
import PretIss.Trap.Entry
import PretIss.Trap.Incomplete

/-! Whether a trap is precise. The stages before the last have had their effect by the time
the instruction is squashed, once in each of the two passes: a store has written memory, a
multiply step has shifted the Y register, and a deadline instruction has marked its timer. -/

namespace PretIss

open ExceptStage (reachesCommit squashes takesTrap deadlineTrap npc)

variable {id : ThreadId}

def History.ticks (h : History id MemoryController) : Nat :=
  ∑ n ∈ Finset.range h.length, (h.entry n).ticks

/-- The passes of one instruction, from the one that fetches it to the one that enters the
trap of a timer. The trap squashes it twice, in the pass `k` and in the last. No fetch
stalls, and nothing else changes the memories. -/
structure Handling (h : History id MemoryController) (m : Contents)
    (timer : Fin numDeadlineTimers) (k : Nat) : Prop where
  coherent : (h.entry 0).start.Coherent
  et : (h.entry 0).start.specRegs.et = true
  free : Fetch.isHeld (h.entry 0).start = false
  runs : ∀ n, n < h.length → (h.entry n).runs = true
  word : ∀ n, n < h.length → (h.entry n).word = (h.entry 0).word
  incomplete : ∀ n, n < h.length → (h.entry n).completes = false
  squashed : ∀ n, n < h.length → ((h.entry n).isSquashed = true ↔ n = k ∨ n + 1 = h.length)
  twice : k + 1 < h.length
  raised : (h.entry k).arrived.trapType = deadlineTrap timer
  returns : h.last.finished.trapped = .normal
  memories : (h.entry 0).Over m
  later : ∀ n, n + 1 < h.length → ∀ m', (h.entry n).memory.Holds m' → (h.entry (n + 1)).Over m'

/-- All is as it was before the instruction, apart from the countdown of the timers and the
status of the trap's own. -/
structure Precise (h : History id MemoryController) (m : Contents)
    (timer : Fin numDeadlineTimers) : Prop where
  memory : ∃ m', h.last.memory.Holds m' ∧ m'.Same m
  y : h.last.finished.specRegs.y = (h.entry 0).start.specRegs.y
  icc : h.last.finished.specRegs.icc = (h.entry 0).start.specRegs.icc
  dt : h.last.finished.specRegs.dt =
    (SpecialReg.decrementDeadlineTimers^[h.length] (h.entry 0).start.specRegs).dt
  clock : h.last.finished.specRegs.clock =
    (SpecialReg.decrementPllTimers^[h.ticks] (h.entry 0).start.specRegs).clock
  dtStatus : ∀ other, other ≠ timer → h.last.finished.specRegs.dtStatus other =
    (SpecialReg.decrementDeadlineTimers^[h.length] (h.entry 0).start.specRegs).dtStatus other
  dma : ∀ n, n < h.length → (h.entry n).dma = (h.entry n).round.dma

namespace Pass

def opened {σ : Type} (p : Pass id σ) : RegisterFile :=
  p.start.regs.setReg 17 p.start.pc p.trapWindow

/-- The memory after the stores of a trapped instruction: so many first halves, the half
that is squashed first, and the half that is squashed in the window of the trap. -/
def written (p : Pass id MemoryController) (m : Contents) (granted : Nat) (first second : Bool) :
    Contents :=
  let before := Underway.afterHalves p m granted
  let once := (p.asked.effect id p.start.specRegs.currWp first before).2
  (p.asked.effect id p.trapWindow second (p.opened, once)).2

/-- The Y register after the two shifts of a trapped multiply step. -/
def shifted {σ : Type} (p : Pass id σ) : Word :=
  Execute.shiftedY (p.opened.getReg p.asked.rs1 p.trapWindow)
    (Execute.shiftedY p.operand p.start.specRegs.y)

def mark {σ : Type} (p : Pass id σ) : DtStatus :=
  if Regacc.deadbranch p.asked then .set else .unset

end Pass

/-- The effects of the squashed passes change nothing. -/
structure Harmless (h : History id MemoryController) (m : Contents)
    (timer : Fin numDeadlineTimers) (k : Nat) : Prop where
  store : (h.entry 0).asked.writeMemory = true →
    ((h.entry 0).written m (Nat.count (fun n => (h.entry n).commits = true) k)
      (h.entry k).start.dbWordStalled h.last.start.dbWordStalled).Same m
  multiply : IsMultiplyStep (h.entry 0).word →
    (h.entry 0).shifted = (h.entry 0).start.specRegs.y
  deadline : ∀ other, other ≠ timer → (h.entry 0).asked.selectSpecialRegister = some .dt →
    (h.entry 0).asked.rd = other.val →
    (h.entry 0).mark =
      (SpecialReg.decrementDeadlineTimers^[h.length] (h.entry 0).start.specRegs).dtStatus other

namespace Handling

variable {h : History id MemoryController} {m : Contents} {timer : Fin numDeadlineTimers} {k : Nat}

theorem coherent_at (handling : Handling h m timer k) {n : Nat} (bound : n < h.length) :
    (h.entry n).start.Coherent :=
  h.coherent handling.coherent bound

theorem last_bound (handling : Handling h m timer k) : h.length - 1 < h.length := by
  have twice := handling.twice
  omega

theorem reaches_of_squashed {σ : Type} {p : Pass id σ} (squashed : p.isSquashed = true) :
    reachesCommit p.arrived = true ∧ squashes p.arrived = true := by
  simpa [Pass.isSquashed] using squashed

theorem squashed_last (handling : Handling h m timer k) : h.last.isSquashed = true := by
  have twice := handling.twice
  exact (handling.squashed _ handling.last_bound).mpr (Or.inr (by omega))

theorem regular (handling : Handling h m timer k) : ¬ IsPllWord (h.entry 0).word := by
  intro pll
  have twice := handling.twice
  have emptied : (h.entry (k + 1)).start.specRegs.pllLoaded = false := by
    have inside : k < h.length := by omega
    rw [h.linked k twice]
    apply (h.valid k inside).empties_pll (handling.coherent_at inside) (handling.runs k inside)
    · rw [handling.word k inside]
      exact pll
    · exact (reaches_of_squashed ((handling.squashed k inside).mpr (Or.inl rfl))).1
  have waits : ∀ n, k + 1 ≤ n → n < h.length → (h.entry n).finished.AwaitsPll := by
    intro n later
    induction n, later using Nat.le_induction with
    | base =>
        intro bound
        exact ((h.valid _ bound).awaits_pll (handling.coherent_at bound) (handling.runs _ bound)
          (handling.word _ bound ▸ pll) (Or.inr emptied)).1
    | succ n later ih =>
        intro bound
        have stalled := (ih (by omega)).stalled
        rw [← h.linked n bound] at stalled
        exact ((h.valid _ bound).awaits_pll (handling.coherent_at bound) (handling.runs _ bound)
          (handling.word _ bound ▸ pll) (Or.inl stalled)).1
  have stalled := (waits _ (by omega) handling.last_bound).stalled
  have reaches := (reaches_of_squashed handling.squashed_last).1
  simp only [reachesCommit, Bool.and_eq_true, Bool.not_eq_true'] at reaches
  have latch := ((h.valid _ handling.last_bound).finished_latch
    (handling.coherent_at handling.last_bound).enabled).2.2.2.1
  rw [stalled] at latch
  cases latch.trans reaches.1.2

theorem lingers (handling : Handling h m timer k) {n : Nat} (bound : n < h.length) :
    (h.entry n).Lingers := by
  apply (h.valid n bound).lingers (handling.coherent_at bound) (handling.runs n bound)
    (handling.incomplete n bound)
  rw [handling.word n bound]
  exact handling.regular

theorem settings_at (handling : Handling h m timer k) {n : Nat} (bound : n < h.length) :
    (h.entry n).start.specRegs.settings = (h.entry 0).start.specRegs.settings :=
  h.invariant (fun _ ht => ht.specRegs.settings = (h.entry 0).start.specRegs.settings) rfl
    (fun _ bound same => (handling.lingers bound).settings.trans same) bound

theorem et_at (handling : Handling h m timer k) {n : Nat} (bound : n < h.length) :
    (h.entry n).start.specRegs.et = true := by
  calc (h.entry n).start.specRegs.et = (h.entry n).start.specRegs.settings.et := rfl
    _ = (h.entry 0).start.specRegs.settings.et := by rw [handling.settings_at bound]
    _ = true := handling.et

theorem no_rett (handling : Handling h m timer k) :
    (Instruction.ofWord (h.entry 0).word).isRett = false := by
  cases rett : (Instruction.ofWord (h.entry 0).word).isRett with
  | false => rfl
  | true =>
      have bound := handling.last_bound
      have faults := ((h.valid _ bound).rett_faults (handling.coherent_at bound)
        (handling.runs _ bound) (by rw [handling.word _ bound, rett]) (handling.et_at bound)).1
      have returns := handling.returns
      rw [History.last, faults.trapped] at returns
      cases returns

theorem trap_finished (handling : Handling h m timer k) {n : Nat} (bound : n < h.length) :
    (reachesCommit (h.entry n).arrived = false ∧
        (h.entry n).finished.trapped = (h.entry n).arrived.trapped ∧
        (h.entry n).finished.trapType = (h.entry n).arrived.trapType) ∨
      (reachesCommit (h.entry n).arrived = true ∧
        ((h.entry n).commits = true → (h.entry n).finished.trapped = .normal)) := by
  obtain ⟨type, state, never⟩ | ⟨_, reaches, ends, _⟩ | ⟨rett, _⟩ :=
    ((h.valid n bound).finishes (handling.coherent_at bound)).trap
  · exact Or.inl ⟨never, state, type⟩
  · exact Or.inr ⟨reaches, ends⟩
  · have operation := (h.valid n bound).arrived_operation (handling.coherent_at bound)
      (handling.runs n bound)
    rw [Instruction.of_operation Instruction.isRett (fun _ => rfl) operation] at rett
    have plain := handling.no_rett
    rw [← handling.word n bound] at plain
    cases plain.symm.trans rett

theorem trap_before (handling : Handling h m timer k) {n : Nat} (early : n ≤ k) :
    (h.entry n).start.trapped = .normal ∨ (h.entry n).start.trapped = .trapped := by
  have twice := handling.twice
  induction n with
  | zero =>
      left
      have free := handling.free
      simp only [Fetch.isHeld, Bool.or_eq_false_iff] at free
      exact (ExceptionState.isTrapped_eq_false _).mp free.2
  | succ n ih =>
      have bound : n < h.length := by omega
      have before := ih (by omega)
      rw [h.linked n (by omega)]
      obtain ⟨_, state, _⟩ | ⟨reaches, ends⟩ := handling.trap_finished bound
      · rw [state]
        obtain ⟨_, same, _⟩ | ⟨_, _, same, _⟩ | ⟨_, _, _, raised, _⟩ :=
          (h.valid n bound).arrived_trap (handling.coherent_at bound).enabled
            (handling.runs n bound)
        · rwa [same]
        · rwa [same]
        · exact Or.inr raised
      · left
        apply ends
        have free : (h.entry n).isSquashed = false := by
          apply Bool.eq_false_iff.mpr
          intro squashed
          have places := (handling.squashed n bound).mp squashed
          omega
        simpa [Pass.commits, Pass.isSquashed, reaches] using free

theorem pending (handling : Handling h m timer k) : (h.entry k).arrived.trapped = .trapped := by
  have twice := handling.twice
  have bound : k < h.length := by omega
  have stops := (reaches_of_squashed ((handling.squashed k bound).mpr (Or.inl rfl))).2
  simp only [squashes, Bool.and_eq_true] at stops
  obtain ⟨held, same, _⟩ | ⟨free, _, same, _⟩ | ⟨_, _, _, raised, _⟩ :=
    (h.valid k bound).arrived_trap (handling.coherent_at bound).enabled (handling.runs k bound)
  · obtain normal | trapped := handling.trap_before (le_refl k)
    · rw [HwThread.isTrapped, normal] at held
      cases held
    · exact same.trans trapped
  · rw [HwThread.isTrapped, same] at stops
    rw [HwThread.isTrapped] at free
    cases free.symm.trans stops.1
  · exact raised

theorem halfway (handling : Handling h m timer k) :
    (h.entry k).Saved 17 (h.entry k).start.pc ∧
      (h.entry k).finished.specRegs.currWp =
        ((h.entry k).arrived.specRegs.currWp + (-1)) % registerWindows ∧
      (h.entry k).finished.trapped = .trapped2 ∧
      (h.entry k).finished.trapType = deadlineTrap timer := by
  have twice := handling.twice
  have bound : k < h.length := by omega
  obtain ⟨saved, window, _, _, _, plain⟩ := (h.valid k bound).firstPass
    (handling.coherent_at bound) ((handling.squashed k bound).mpr (Or.inl rfl)) handling.pending
  obtain ⟨state, type⟩ := plain (by
    rw [handling.word k bound]
    exact handling.no_rett)
  exact ⟨saved, window, state, type.trans handling.raised⟩

theorem squashes_of_second (handling : Handling h m timer k) {n : Nat} (bound : n < h.length)
    (second : (h.entry n).start.trapped = .trapped2) :
    squashes (h.entry n).arrived = true ∧ (h.entry n).arrived.trapped = .trapped2 ∧
      (h.entry n).arrived.trapType = (h.entry n).start.trapType := by
  have enabled := (handling.coherent_at bound).enabled
  have et := ((h.valid n bound).arrives enabled).et.trans (handling.et_at bound)
  obtain ⟨_, state, type⟩ | ⟨free, _⟩ | ⟨free, _⟩ :=
    (h.valid n bound).arrived_trap enabled (handling.runs n bound)
  · rw [second] at state
    refine ⟨?_, state, type⟩
    simp [squashes, HwThread.isTrapped, state, et, ExceptionState.isTrapped]
  all_goals
    rw [HwThread.isTrapped, second] at free
    cases free

theorem trap_after (handling : Handling h m timer k) {n : Nat} (late : k < n)
    (bound : n < h.length) :
    (h.entry n).start.trapped = .trapped2 ∧ (h.entry n).start.trapType = deadlineTrap timer := by
  induction n, late using Nat.le_induction with
  | base =>
      rw [h.linked k bound]
      exact handling.halfway.2.2
  | succ n late ih =>
      have inside : n < h.length := by omega
      obtain ⟨state, type⟩ := ih inside
      obtain ⟨stops, second, sameType⟩ := handling.squashes_of_second inside state
      rw [h.linked n bound]
      obtain ⟨_, kept, keptType⟩ | ⟨reaches, _⟩ := handling.trap_finished inside
      · exact ⟨kept.trans second, keptType.trans (sameType.trans type)⟩
      · have squashed : (h.entry n).isSquashed = true := by simp [Pass.isSquashed, reaches, stops]
        have places := (handling.squashed n inside).mp squashed
        omega

def counted (p : Pass id MemoryController) (n : Nat) : SpecialReg :=
  SpecialReg.decrementDeadlineTimers^[n] p.start.specRegs

theorem counted_succ (p : Pass id MemoryController) (n : Nat) :
    counted p (n + 1) = (counted p n).decrementDeadlineTimers :=
  Function.iterate_succ_apply' _ _ _

theorem dt_at (handling : Handling h m timer k) {n : Nat} (bound : n < h.length) :
    (h.entry n).start.specRegs.dt = (counted (h.entry 0) n).dt ∧
      (h.entry n).finished.specRegs.dt = (counted (h.entry 0) (n + 1)).dt := by
  have ends : ∀ n, n < h.length → (h.entry n).start.specRegs.dt = (counted (h.entry 0) n).dt →
      (h.entry n).finished.specRegs.dt = (counted (h.entry 0) (n + 1)).dt := by
    intro n inside same
    funext other
    rw [(handling.lingers inside).dt, same, counted_succ]
    rfl
  have starts := h.invariant (fun n ht => ht.specRegs.dt = (counted (h.entry 0) n).dt) rfl
    (fun n inside same => ends n inside same) bound
  exact ⟨starts, ends n bound starts⟩

theorem clock_last (handling : Handling h m timer k) :
    h.last.finished.specRegs.clock =
      (SpecialReg.decrementPllTimers^[h.ticks] (h.entry 0).start.specRegs).clock := by
  have ends : ∀ n, n < h.length → (h.entry n).finished.specRegs.clock =
      SpecialReg.tick^[∑ i ∈ Finset.range (n + 1), (h.entry i).ticks]
        (h.entry 0).start.specRegs.clock := by
    intro n
    induction n with
    | zero =>
        intro bound
        rw [(handling.lingers bound).clock, Finset.sum_range_one]
    | succ n ih =>
        intro bound
        rw [(handling.lingers bound).clock, h.linked n bound, ih (by omega),
          ← Function.iterate_add_apply, Finset.sum_range_succ _ (n + 1), Nat.add_comm]
  have twice := handling.twice
  have length : h.length - 1 + 1 = h.length := by omega
  rw [SpecialReg.clock_iterate, History.last, ends _ handling.last_bound, length, History.ticks]

theorem traps_other (handling : Handling h m timer k) {n : Nat} (bound : n < h.length)
    {other : Fin numDeadlineTimers} (different : other ≠ timer) :
    (h.entry n).traps other = false := by
  apply Bool.eq_false_iff.mpr
  intro traps
  simp only [Pass.traps, takesTrap, Bool.and_eq_true, beq_iff_eq] at traps
  obtain ⟨⟨reaches, stops, second⟩, type⟩ := traps
  have squashed : (h.entry n).isSquashed = true := by simp [Pass.isSquashed, reaches, stops]
  by_cases first : n = k
  · subst first
    rw [handling.pending] at second
    cases second
  · have places := (handling.squashed n bound).mp squashed
    have twice := handling.twice
    have late : k < n := by omega
    obtain ⟨state, own⟩ := handling.trap_after late bound
    have same := (handling.squashes_of_second bound state).2.2
    exact different (ExceptStage.deadlineTrap_injective (type.symm.trans (same.trans own)))

theorem dtStatus_finished (handling : Handling h m timer k) {n : Nat} (bound : n < h.length)
    {other : Fin numDeadlineTimers} (different : other ≠ timer) :
    (h.entry n).finished.specRegs.dtStatus other = (h.entry n).status other := by
  rw [((h.valid n bound).finishes (handling.coherent_at bound)).dtStatus,
    handling.traps_other bound different, if_neg Bool.false_ne_true]

theorem decoded_at (handling : Handling h m timer k) {n : Nat} (bound : n < h.length) :
    (h.entry n).decoded.inst.meaning = (h.entry 0).asked.meaning := by
  have decoded := (h.valid n bound).decoded_latch (handling.coherent_at bound)
    (by simpa [Pass.runs] using handling.runs n bound)
  have word := handling.word n bound
  rw [Pass.asked, ← word]
  exact decoded.meaning

theorem reaches_iff (handling : Handling h m timer k) {n : Nat} (bound : n < h.length)
    (other : Fin numDeadlineTimers) :
    (h.entry n).reaches other = true ↔
      (h.entry 0).asked.selectSpecialRegister = some .dt ∧ (h.entry 0).asked.rd = other.val := by
  have meaning := handling.decoded_at bound
  have select := Instruction.of_meaning Instruction.selectSpecialRegister (fun _ => rfl) meaning
  have rd := Instruction.of_meaning Instruction.rd (fun _ => rfl) meaning
  simp only [Pass.reaches, handling.runs n bound, Regacc.isDeadline, select, rd, Bool.true_and,
    Bool.and_eq_true, beq_iff_eq]

theorem dtStatus_counted (handling : Handling h m timer k) {other : Fin numDeadlineTimers}
    (different : other ≠ timer)
    (quiet : ¬ ((h.entry 0).asked.selectSpecialRegister = some .dt ∧
      (h.entry 0).asked.rd = other.val)) :
    h.last.finished.specRegs.dtStatus other = (counted (h.entry 0) h.length).dtStatus other := by
  have ends : ∀ n, n < h.length →
      (h.entry n).start.specRegs.dtStatus other = (counted (h.entry 0) n).dtStatus other →
      (h.entry n).finished.specRegs.dtStatus other =
        (counted (h.entry 0) (n + 1)).dtStatus other := by
    intro n bound same
    have waits : (h.entry n).reloads other = false := by
      apply Bool.eq_false_iff.mpr
      intro through
      simp only [Pass.reloads, Regacc.reloads, Bool.and_eq_true] at through
      exact quiet ((handling.reaches_iff bound other).mp
        (by simp [Pass.reaches, through.1, through.2.1]))
    rw [handling.dtStatus_finished bound different, Pass.status, waits, if_neg Bool.false_ne_true,
      counted_succ, SpecialReg.dtStatus_decrement, SpecialReg.dtStatus_decrement, same,
      (handling.dt_at bound).1]
  have starts := h.invariant
    (fun n ht => ht.specRegs.dtStatus other = (counted (h.entry 0) n).dtStatus other) rfl ends
    handling.last_bound
  have twice := handling.twice
  have length : h.length - 1 + 1 = h.length := by omega
  rw [History.last, ends _ handling.last_bound starts, length]

theorem dtStatus_marked (handling : Handling h m timer k) {other : Fin numDeadlineTimers}
    (different : other ≠ timer) (select : (h.entry 0).asked.selectSpecialRegister = some .dt)
    (rd : (h.entry 0).asked.rd = other.val) :
    h.last.finished.specRegs.dtStatus other = (h.entry 0).mark := by
  have bound := handling.last_bound
  have reaches := (reaches_of_squashed handling.squashed_last).1
  have rs1 := Instruction.of_meaning Instruction.rs1 (fun _ => rfl) (handling.decoded_at bound)
  rw [History.last, handling.dtStatus_finished bound different, Pass.status, Pass.mark,
    Regacc.deadbranch, Regacc.deadbranch, rs1]
  obtain ⟨through, _⟩ | ⟨_, never, _⟩ := (h.valid _ bound).reaches_cases
    (handling.coherent_at bound) ((handling.reaches_iff bound other).mpr ⟨select, rd⟩)
  · rw [if_pos through]
  · cases never.symm.trans reaches

theorem opens (handling : Handling h m timer k)
    (straight : (Instruction.ofWord (h.entry 0).word).Straight) :
    (h.entry k).finished.regs = (h.entry k).opened ∧
      (h.entry k).finished.specRegs.currWp = (h.entry k).trapWindow := by
  have twice := handling.twice
  have bound : k < h.length := by omega
  obtain ⟨saved, window, _⟩ := handling.halfway
  have word := handling.word k bound
  have still : (h.entry k).start.specRegs.currWp + 0 = (h.entry k).start.specRegs.currWp :=
    BitVec.add_zero _
  have trap : (h.entry k).finished.specRegs.currWp = (h.entry k).trapWindow := by
    rw [window, ((h.valid k bound).carries (handling.coherent_at bound)
      (handling.runs k bound)).currWp, word, straight.window, still, Pass.window_add,
      Pass.trapWindow]
  have none : (h.entry k).saves (h.entry k).trapWindow = none := by
    rw [Pass.saves, word, ExceptStage.selected, straight.select]
  refine ⟨?_, trap⟩
  rw [saved.regs, trap, none]
  rfl

theorem y_last (handling : Handling h m timer k) (other : ¬ IsMultiplyStep (h.entry 0).word) :
    h.last.finished.specRegs.y = (h.entry 0).start.specRegs.y := by
  have ends : ∀ n, n < h.length → (h.entry n).start.specRegs.y = (h.entry 0).start.specRegs.y →
      (h.entry n).finished.specRegs.y = (h.entry 0).start.specRegs.y := by
    intro n bound same
    rw [(handling.lingers bound).y,
      (h.valid n bound).y_arrived (handling.coherent_at bound) (handling.runs n bound),
      handling.word n bound, if_neg other, same]
  exact ends _ handling.last_bound
    (h.invariant (fun _ ht => ht.specRegs.y = (h.entry 0).start.specRegs.y) rfl ends
      handling.last_bound)

theorem two_passes (handling : Handling h m timer k)
    (straight : (Instruction.ofWord (h.entry 0).word).Straight)
    (quiet : ¬ IsAccess (h.entry 0).word) : k = 0 ∧ h.length = 2 := by
  have twice := handling.twice
  have reaches : ∀ n, n < h.length → reachesCommit (h.entry n).arrived = true := by
    intro n bound
    apply (h.valid n bound).reaches_of_other (handling.coherent_at bound) (handling.runs n bound)
    · rw [Pass.asked, handling.word n bound]
      exact straight.waitless
    · rwa [handling.word n bound]
  have squashed : ∀ n, n < h.length → (h.entry n).isSquashed = true := by
    intro n bound
    obtain never | squashed | ⟨_, double⟩ := (h.valid n bound).incomplete_cases
      (handling.coherent_at bound) (handling.runs n bound) (handling.incomplete n bound)
    · cases never.symm.trans (reaches n bound)
    · exact squashed
    · rw [handling.word n bound] at double
      exact absurd double.access quiet
  have first := (handling.squashed 0 (by omega)).mp (squashed 0 (by omega))
  have second := (handling.squashed 1 (by omega)).mp (squashed 1 (by omega))
  omega

theorem y_shifted (handling : Handling h m timer k) (step : IsMultiplyStep (h.entry 0).word) :
    h.last.finished.specRegs.y = (h.entry 0).shifted := by
  obtain ⟨straight, quiet⟩ := step.straight
  obtain ⟨rfl, length⟩ := handling.two_passes straight quiet
  obtain ⟨regs, window⟩ := handling.opens straight
  have last : h.last = h.entry 1 := by rw [History.last, length]
  have inside : 1 < h.length := by omega
  have outside : 0 < h.length := by omega
  have word := handling.word 1 inside
  have shifts : ∀ n (bound : n < h.length), (h.entry n).finished.specRegs.y =
      Execute.shiftedY (h.entry n).operand (h.entry n).start.specRegs.y := by
    intro n bound
    rw [(handling.lingers bound).y,
      (h.valid n bound).y_arrived (handling.coherent_at bound) (handling.runs n bound),
      handling.word n bound, if_pos step]
  have flag : (h.entry 0).finished.dbWordStalled = false := by
    have single : ¬ IsDoubleWord (h.entry 0).word := fun double => quiet double.access
    have through := ((h.valid 0 outside).undelayed (handling.coherent_at outside)
      (handling.runs 0 outside) straight.waitless).2
    rw [(h.valid 0 outside).flag_finished (handling.coherent_at outside) (handling.runs 0 outside),
      if_neg single, through, Bool.and_false]
  have operand : (h.entry 1).operand =
      (h.entry 0).opened.getReg (h.entry 0).asked.rs1 (h.entry 0).trapWindow := by
    have none : ∀ w : Word, w + 0 = w := fun w => BitVec.add_zero w
    rw [Pass.operand, h.linked 0 inside, flag, if_neg Bool.false_ne_true, none,
      HwThread.readReg, regs, window, Pass.asked, word]
  rw [last, shifts 1 inside, operand, h.linked 0 inside, shifts 0 outside, Pass.shifted]

theorem underway (handling : Handling h m timer k) (access : IsAccess (h.entry 0).word) :
    Underway h m k := by
  have twice := handling.twice
  constructor
  case inside => omega
  case coherent => exact handling.coherent
  case free => exact handling.free
  case access => exact access
  case runs => exact fun i before => handling.runs i (by omega)
  case word => exact fun i before => handling.word i (by omega)
  case unsquashed =>
    intro i before
    apply Bool.eq_false_iff.mpr
    intro squashed
    have places := (handling.squashed i (by omega)).mp squashed
    omega
  case incomplete => exact fun i before => handling.incomplete i (by omega)
  case memories => exact handling.memories
  case later => exact fun i before => handling.later i (by omega)

theorem memory_last (handling : Handling h m timer k)
    (silent : (h.entry 0).asked.writeMemory = false) : h.last.memory.Holds m := by
  have ends : ∀ n, n < h.length → (h.entry n).Over m → (h.entry n).memory.Holds m := by
    intro n bound memories
    have left := memories.left (h.valid n bound) (handling.coherent_at bound) (handling.runs n bound)
    rwa [Pass.asked, handling.word n bound, ← Pass.asked, silent, if_neg (by simp)] at left
  have memories : ∀ n, n < h.length → (h.entry n).Over m := by
    intro n
    induction n with
    | zero => exact fun _ => handling.memories
    | succ n ih => exact fun bound => handling.later n bound m (ends n (by omega) (ih (by omega)))
  exact ends _ handling.last_bound (memories _ handling.last_bound)

def once (h : History id MemoryController) (m : Contents) (k : Nat) : Contents :=
  ((h.entry 0).asked.effect id (h.entry 0).start.specRegs.currWp (h.entry k).start.dbWordStalled
    (Underway.afterHalves (h.entry 0) m (Nat.count (fun n => (h.entry n).commits = true) k))).2

structure Between (h : History id MemoryController) (m : Contents) (k n : Nat) : Prop where
  regs : (h.entry n).start.regs = (h.entry 0).opened
  window : (h.entry n).start.specRegs.currWp % registerWindows =
    (h.entry 0).trapWindow % registerWindows
  memories : (h.entry n).Over (once h m k)

theorem granted_of_squashed {p : Pass id MemoryController} (squashed : p.isSquashed = true) :
    p.arrived.memoryStalled = false := by
  have reaches := (reaches_of_squashed squashed).1
  simp only [reachesCommit, Bool.and_eq_true, Bool.not_eq_true'] at reaches
  exact reaches.2

theorem between_first (handling : Handling h m timer k) (access : IsAccess (h.entry 0).word)
    (store : (h.entry 0).asked.writeMemory = true) : Between h m k (k + 1) := by
  have twice := handling.twice
  have bound : k < h.length := by omega
  have underway := handling.underway access
  have reached := underway.reached
  have load : (h.entry 0).asked.readMemory = false := by
    simpa [access.accesses.stores] using store
  obtain ⟨regs, window⟩ := handling.opens access.accesses.straight
  have same : (h.entry k).trapWindow = (h.entry 0).trapWindow := by
    rw [Pass.trapWindow, Pass.trapWindow, ← Pass.window_add, reached.window, Pass.window_add]
  have opened : (h.entry k).opened = (h.entry 0).opened := by
    rw [Pass.opened, Pass.opened, same, reached.regs, reached.pc, Underway.afterHalves_regs load]
  have left := reached.memories.left (h.valid k bound) reached.coherent (handling.runs k bound)
  have writes : (h.entry k).asked.writeMemory = true := by
    rw [Pass.asked, handling.word k bound]
    exact store
  rw [if_pos ⟨writes, granted_of_squashed ((handling.squashed k bound).mpr (Or.inl rfl))⟩,
    underway.effect_eq reached, reached.regs] at left
  constructor
  · rw [h.linked k twice, regs, opened]
  · rw [h.linked k twice, window, same]
  · exact handling.later k twice _ left

theorem between (handling : Handling h m timer k) (access : IsAccess (h.entry 0).word)
    (store : (h.entry 0).asked.writeMemory = true) {n : Nat} (late : k < n) (bound : n < h.length) :
    Between h m k n := by
  induction n, late using Nat.le_induction with
  | base => exact handling.between_first access store
  | succ n late ih =>
      have inside : n < h.length := by omega
      have before := ih inside
      have valid := h.valid n inside
      have coherent := handling.coherent_at inside
      have present := handling.runs n inside
      have still : IsAccess (h.entry n).word := by rwa [handling.word n inside]
      have unsquashed : (h.entry n).isSquashed = false := by
        apply Bool.eq_false_iff.mpr
        intro squashed
        have places := (handling.squashed n inside).mp squashed
        omega
      have stalled : (h.entry n).arrived.memoryStalled = true := by
        obtain commits | stalled := valid.stalls_or_commits coherent present still unsquashed
        · have stops := (handling.squashes_of_second inside (handling.trap_after late inside).1).1
          simp [Pass.commits, stops] at commits
        · exact stalled
      have left := before.memories.left valid coherent present
      rw [stalled, if_neg (by simp)] at left
      constructor
      · rw [h.linked n bound, (valid.stalled_finished coherent present still stalled).1, before.regs]
      · rw [h.linked n bound,
          (valid.specRegs_finished coherent present still (Or.inr stalled)).2.2, windows_mod,
          before.window]
      · exact handling.later n bound _ left

theorem memory_written (handling : Handling h m timer k)
    (store : (h.entry 0).asked.writeMemory = true) :
    h.last.memory.Holds ((h.entry 0).written m
      (Nat.count (fun n => (h.entry n).commits = true) k) (h.entry k).start.dbWordStalled
      h.last.start.dbWordStalled) := by
  have twice := handling.twice
  have bound := handling.last_bound
  have between := handling.between (Or.inr store) store (n := h.length - 1) (by omega) bound
  have left := between.memories.left (h.valid _ bound) (handling.coherent_at bound)
    (handling.runs _ bound)
  have writes : (h.entry (h.length - 1)).asked.writeMemory = true := by
    rw [Pass.asked, handling.word _ bound]
    exact store
  rw [if_pos ⟨writes, granted_of_squashed handling.squashed_last⟩, between.regs,
    ← Instruction.effect_mod, between.window, Instruction.effect_mod, Pass.asked,
    handling.word _ bound] at left
  exact left

end Handling

/-- A trap is precise if and only if the squashed passes have no effect of their own. -/
theorem precise_iff_harmless {h : History id MemoryController} {m : Contents}
    {timer : Fin numDeadlineTimers} {k : Nat} (handling : Handling h m timer k) :
    Precise h m timer ↔ Harmless h m timer k := by
  constructor
  · intro precise
    constructor
    case store =>
      intro store
      obtain ⟨m', holds, same⟩ := precise.memory
      rwa [holds.unique (handling.memory_written store)] at same
    case multiply => exact fun step => (handling.y_shifted step).symm.trans precise.y
    case deadline =>
      intro other different select rd
      exact (handling.dtStatus_marked different select rd).symm.trans
        (precise.dtStatus other different)
  · intro harmless
    constructor
    case memory =>
      cases store : (h.entry 0).asked.writeMemory with
      | true => exact ⟨_, handling.memory_written store, harmless.store store⟩
      | false => exact ⟨m, handling.memory_last store, Contents.Same.refl m⟩
    case y =>
      by_cases step : IsMultiplyStep (h.entry 0).word
      · exact (handling.y_shifted step).trans (harmless.multiply step)
      · exact handling.y_last step
    case icc =>
      have settings := (handling.lingers handling.last_bound).settings.trans
        (handling.settings_at handling.last_bound)
      calc h.last.finished.specRegs.icc = h.last.finished.specRegs.settings.icc := rfl
        _ = (h.entry 0).start.specRegs.settings.icc := by rw [History.last, settings]
        _ = (h.entry 0).start.specRegs.icc := rfl
    case dt =>
      have twice := handling.twice
      have length : h.length - 1 + 1 = h.length := by omega
      have ends := (handling.dt_at handling.last_bound).2
      rwa [length] at ends
    case clock => exact handling.clock_last
    case dtStatus =>
      intro other different
      by_cases waits : (h.entry 0).asked.selectSpecialRegister = some .dt ∧
          (h.entry 0).asked.rd = other.val
      · exact (handling.dtStatus_marked different waits.1 waits.2).trans
          (harmless.deadline other different waits.1 waits.2)
      · exact handling.dtStatus_counted different waits
    case dma => exact fun n bound => (handling.lingers bound).dma

namespace Handling

variable {start : HwThread id} {mc : MemoryController} {m : Contents}

/-- Whether passes in these cycles handle a trap of the timer and meet a test. -/
def check (start : HwThread id) (mc : MemoryController) (rounds : List (BitVec 32 × BitVec 32))
    (timer : Fin numDeadlineTimers) (k : Nat)
    (test : Nat → (Nat → Pass id MemoryController) → Bool) : Bool :=
  History.checkAlone start mc rounds fun length entry =>
    start.specRegs.et && !Fetch.isHeld start &&
      decide (∀ n, n < length → (entry n).runs = true ∧ (entry n).word = (entry 0).word ∧
        (entry n).completes = false ∧
        ((entry n).isSquashed = true ↔ n = k ∨ n + 1 = length)) &&
      decide (k + 1 < length) && (entry k).arrived.trapType == deadlineTrap timer &&
      (entry (length - 1)).finished.trapped == .normal && test length entry

theorem exists_of_check (coherent : start.Coherent) (holds : mc.Holds m)
    (rounds : List (BitVec 32 × BitVec 32)) (timer : Fin numDeadlineTimers) (k : Nat)
    (test : Nat → (Nat → Pass id MemoryController) → Bool)
    (passed : check start mc rounds timer k test = true) :
    ∃ h : History id MemoryController, Handling h m timer k ∧ (h.entry 0).start = start ∧
      test h.length h.entry = true := by
  obtain ⟨h, alone, starts, passed⟩ := History.exists_alone holds rounds _ passed
  simp only [Bool.and_eq_true, Bool.not_eq_true', decide_eq_true_eq, beq_iff_eq] at passed
  obtain ⟨⟨⟨⟨⟨⟨et, free⟩, every⟩, twice⟩, raised⟩, returns⟩, passed⟩ := passed
  refine ⟨h, ?_, starts, passed⟩
  constructor
  case coherent => exact starts ▸ coherent
  case et => exact starts ▸ et
  case free => exact starts ▸ free
  case runs => exact fun n bound => (every n bound).1
  case word => exact fun n bound => (every n bound).2.1
  case incomplete => exact fun n bound => (every n bound).2.2.1
  case squashed => exact fun n bound => (every n bound).2.2.2
  case twice => exact twice
  case raised => exact raised
  case returns => exact returns
  case memories => exact alone.memories
  case later => exact alone.later

def missing : HwThread 0 :=
  let ht := HwThread.reset 0 0 fun _ => 0
  { ht with
    specRegs := { ht.specRegs with
      y := 1, dtStatus := fun timer => if timer = 0 then .missed else .unset } }

theorem coherent_missing : missing.Coherent where
  enabled := rfl
  fetched := fun _ => rfl
  latch := fun held => by cases held
  memory := fun stalled => by cases stalled
  deadline := fun stalled => by cases stalled

/-- A memory with one word in it. -/
def holding (word : Word) : MemoryController :=
  { MemoryController.create with
    mainMem := { MemoryController.create.mainMem with mem := MemoryUnit.empty.addAddress 0 word } }

theorem holds_holding (word : Word) : (holding word).Holds (holding word).contents where
  contents := rfl
  built := ⟨rfl, rfl, rfl, rfl⟩

end Handling

/-- The trap of an instruction that does nothing is precise. -/
theorem precise_iff_harmless_nop :
    ∃ h : History 0 MemoryController,
      Handling h (Handling.holding nopWord).contents 0 0 ∧
        Precise h (Handling.holding nopWord).contents 0 := by
  obtain ⟨h, handling, _, word⟩ := Handling.exists_of_check Handling.coherent_missing
    (Handling.holds_holding nopWord) [(95, 95), (95, 95)] 0 0
    (fun _ entry => (entry 0).word == nopWord) (by decide +kernel)
  refine ⟨h, handling, (precise_iff_harmless handling).mpr ?_⟩
  have same : (h.entry 0).word = nopWord := by simpa using word
  constructor
  case store =>
    intro store
    rw [Pass.asked, same] at store
    cases store
  case multiply =>
    rw [same]
    exact fun step => absurd step (by decide)
  case deadline =>
    intro other _ select
    rw [Pass.asked, same] at select
    cases select

def mulsccWord : Word := 2#2 ++ 1#5 ++ 0x24#6 ++ 1#5 ++ 1#1 ++ 0#13

/-- A multiply step shifts the Y register even though a trap squashes it. -/
theorem shifted_twice :
    ∃ h : History 0 MemoryController,
      Handling h (Handling.holding mulsccWord).contents 0 0 ∧
        (h.entry 0).start.specRegs.y = 1 ∧ h.last.finished.specRegs.y = 0 ∧
        ¬ Precise h (Handling.holding mulsccWord).contents 0 := by
  obtain ⟨h, handling, starts, y⟩ := Handling.exists_of_check Handling.coherent_missing
    (Handling.holds_holding mulsccWord) [(95, 95), (95, 95)] 0 0
    (fun length entry => (entry (length - 1)).finished.specRegs.y == 0) (by decide +kernel)
  have before : (h.entry 0).start.specRegs.y = 1 := by
    rw [starts]
    rfl
  have after : h.last.finished.specRegs.y = 0 := by simpa [History.last] using y
  refine ⟨h, handling, before, after, fun precise => ?_⟩
  have same := precise.y
  rw [before, after] at same
  cases same

end PretIss
