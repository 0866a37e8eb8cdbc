import PretIss.Thread.Program
import PretIss.Trap.Squash

/-! The entry of a deadline trap. Its two passes save the program counters in the next
window and jump to the trap table; but the squashed instruction still moves the window
in both of them, and the special register that it selects is saved instead. -/

namespace PretIss

open ExceptStage (reachesCommit squashes deadlineTrap npc selected)

variable {id : ThreadId} {σ : Type}

namespace Instruction

theorem window_decodeOperation {i : Instruction} (still : i.incrementWindowPointer = 0)
    (plain : i.isRett = false) :
    (i.decodeOperation.incrementWindowPointer = 0 ∧ i.decodeOperation.isRett = false) ∨
      i.decodeOperation.incrementWindowPointer = 1 ∨
      (i.decodeOperation.incrementWindowPointer = -1 ∧ i.decodeOperation.isRett = false) := by
  obtain decoded | decoded | ⟨op, decoded⟩ | ⟨op, decoded⟩ | ⟨op, decoded⟩ :=
    i.decodeOperation_cases <;> rw [decoded]
  · exact Or.inl ⟨still, plain⟩
  · exact Or.inl ⟨still, plain⟩
  · rcases op with _ | op
    · exact Or.inl ⟨still, plain⟩
    · cases op <;> exact Or.inl ⟨still, plain⟩
  · rcases op with _ | op
    · exact Or.inl ⟨still, plain⟩
    · cases op <;> exact Or.inl ⟨still, plain⟩
  · rcases op with _ | op
    · exact Or.inl ⟨still, plain⟩
    · cases op with
      | rett | restore => exact Or.inr (Or.inl rfl)
      | save => exact Or.inr (Or.inr ⟨rfl, plain⟩)
      | _ => exact Or.inl ⟨still, plain⟩

theorem y_decodeOperation {i : Instruction} (blank : i.selectSpecialRegister = none)
    (other : i.aluop = .nop) (select : i.decodeOperation.selectSpecialRegister = some .y) :
    i.decodeOperation.aluop ≠ .mul := by
  obtain decoded | decoded | ⟨op, decoded⟩ | ⟨op, decoded⟩ | ⟨op, decoded⟩ :=
    i.decodeOperation_cases <;> rw [decoded] at select ⊢
  · simp [blank] at select
  · simp [blank] at select
  · rcases op with _ | op
    · simp [decodeSethiBranches, blank] at select
    · cases op <;> simp [decodeSethiBranches, blank] at select
  · rcases op with _ | op
    · simp [decodeMemory, blank] at select
    · cases op <;> simp [decodeMemory, blank] at select
  · rcases op with _ | op
    · simp [decodeArithmetic, blank] at select
    · cases op <;> simp [decodeArithmetic, blank, other] at select ⊢

end Instruction

namespace Pass

variable {first second p : Pass id σ} {timer : Fin numDeadlineTimers}

/-- A thread takes a deadline trap in two passes, both of which get to the end of the
pipeline. -/
structure TakesTrap (first second : Pass id σ) (timer : Fin numDeadlineTimers) : Prop where
  valid : first.Valid ∧ second.Valid
  coherent : first.start.Coherent
  follows : second.start = first.finished
  et : first.start.specRegs.et = true
  free : first.start.isTrapped = false
  raises : first.isSquashed = true ∧ first.arrived.trapType = deadlineTrap timer
  reaches : reachesCommit second.arrived = true

def trapWindow (p : Pass id σ) : BitVec 16 := (p.start.specRegs.currWp + (-1)) % registerWindows

/-- Both program counters are in the next window, and the thread is in the trap table. -/
structure EntersExactly (first second : Pass id σ) (timer : Fin numDeadlineTimers) : Prop where
  returns : second.finished.trapped = .normal
  window : second.finished.specRegs.currWp = first.trapWindow
  regs : second.finished.regs =
    (first.start.regs.setReg 17 first.start.pc first.trapWindow).setReg 18 (npc first.start)
      first.trapWindow
  pc : second.finished.pc =
    first.start.specRegs.tbr ||| ((deadlineTrap timer).setWidth 32 <<< 4)
  branchSlot : second.finished.branchSlot = 0

def saves (p : Pass id σ) (window : BitVec 16) : Option Word :=
  selected (Instruction.ofWord p.word) { p.start.specRegs with currWp := window }

/-- The instruction leaves the window alone, and if it selects a special register, that
holds both program counters anyway. -/
def EntersCleanly (p : Pass id σ) : Prop :=
  (Instruction.ofWord p.word).incrementWindowPointer = 0 ∧
    ∀ value, p.saves p.trapWindow = some value → value = p.start.pc ∧ value = npc p.start

theorem Valid.selected_arrived (valid : p.Valid) (coherent : p.start.Coherent)
    (present : p.runs = true) (window : BitVec 16) :
    selected p.arrived.inst { p.arrived.specRegs with currWp := window } = p.saves window := by
  have carries := valid.carries coherent present
  refine ExceptStage.selected_eq carries.operation rfl (fun reads => ?_) carries.settings
  have operation : (Instruction.ofWord p.word).aluop ≠ .mul := by
    rw [Sparc.of_fields p.word Instruction.aluop fun _ => rfl]
    apply Instruction.y_decodeOperation rfl rfl
    rw [← reads]
    exact (Sparc.of_fields p.word Instruction.selectSpecialRegister fun _ => rfl).symm
  have other : p.accessed.inst.aluop ≠ .mul := by
    rw [← HwThread.of_control (fun ht => ht.inst.aluop) (fun _ => rfl) valid.arrived_control.1,
      Instruction.of_operation Instruction.aluop (fun _ => rfl) carries.operation]
    exact operation
  obtain ⟨before, after⟩ := valid.accessed_y coherent.enabled
  change p.arrived.specRegs.y = p.start.specRegs.y
  rw [after, Execute.y_behavior, if_neg (fun steps => other steps.2.1), before]

structure Saved (p : Pass id σ) (rd : Nat) (address : Word) : Prop where
  regs : p.finished.regs = p.start.regs.setReg rd
    ((p.saves p.finished.specRegs.currWp).getD address) p.finished.specRegs.currWp
  settings : p.finished.specRegs.settings = p.start.specRegs.settings
  selects : ∀ window,
    selected (Instruction.ofWord p.word) { p.finished.specRegs with currWp := window } =
      p.saves window

theorem Valid.saved (valid : p.Valid) (coherent : p.start.Coherent) (present : p.runs = true)
    {ht : HwThread id} (finished : p.finished = p.round.after .except ht) {rd : Nat}
    {address : Word}
    (saves : ExceptStage.Saves (ExceptStage.arrive p.arrived) ht rd address) :
    p.Saved rd address := by
  have carries := valid.carries coherent present
  have window : p.finished.specRegs.currWp = ht.specRegs.currWp := by
    rw [finished]
    exact p.round.after_eq .except (fun ht => ht.specRegs.currWp) (fun _ => rfl) ht
  have settings : p.finished.specRegs.settings = p.arrived.specRegs.settings := by
    calc p.finished.specRegs.settings = ht.specRegs.settings := by
          rw [finished]
          exact p.round.after_eq .except (fun ht => ht.specRegs.settings) (fun _ => rfl) ht
      _ = p.arrived.specRegs.settings := by
          rw [saves.specRegs, ExceptStage.arrive_specRegs]
          rfl
  have y : p.finished.specRegs.y = p.arrived.specRegs.y := by
    calc p.finished.specRegs.y = ht.specRegs.y := by
          rw [finished]
          exact p.round.after_eq .except (fun ht => ht.specRegs.y) (fun _ => rfl) ht
      _ = p.arrived.specRegs.y := by rw [saves.specRegs, ExceptStage.arrive_specRegs]
  refine ⟨?_, settings.trans carries.settings, fun window => ?_⟩
  · rw [← valid.selected_arrived coherent present, window, ← carries.regs]
    calc p.finished.regs = ht.regs := by
          rw [finished]
          exact p.round.after_eq .except HwThread.regs (fun _ => rfl) ht
      _ = _ := by
          have stored := saves.regs
          rw [ExceptStage.arrive_inst, ExceptStage.arrive_specRegs] at stored
          rw [ExceptStage.arrive_unchanged HwThread.regs fun _ _ _ => rfl] at stored
          exact stored
  · rw [← valid.selected_arrived coherent present]
    exact ExceptStage.selected_eq carries.operation.symm rfl (fun _ => y) settings

/-- The first pass of a trap. -/
theorem Valid.firstPass (valid : p.Valid) (coherent : p.start.Coherent)
    (squashed : p.isSquashed = true) (pending : p.arrived.trapped = .trapped) :
    p.Saved 17 p.start.pc ∧
      p.finished.specRegs.currWp = (p.arrived.specRegs.currWp + (-1)) % registerWindows ∧
      p.finished.pc = p.start.pc ∧ p.finished.branchSlot = p.start.branchSlot ∧
      ((Instruction.ofWord p.word).isRett = true → p.finished.trapped = .trapped) ∧
      ((Instruction.ofWord p.word).isRett = false →
        p.finished.trapped = .trapped2 ∧ p.finished.trapType = p.arrived.trapType) := by
  have both := squashed
  simp only [isSquashed, squashes, Bool.and_eq_true] at both
  obtain ⟨reaches, _, et⟩ := both
  have present := runs_of_reachesCommit (valid.arrives coherent.enabled) reaches
  have carries := valid.carries coherent present
  obtain ⟨pc, slot, _⟩ := valid.carried coherent.enabled
  obtain ⟨ht, _, finished, committed⟩ := valid.squashed squashed
  obtain ⟨_, saves, window, _, samePc, sameSlot, rett, plain⟩ :=
    ExceptStage.commit_firstPass (by simpa using et) (by simpa using pending) committed
  have view : ∀ {α : Type} (f : HwThread id → α), (∀ ht : HwThread id, f ht.pllTick = f ht) →
      f p.finished = f ht := by
    intro α f blind
    rw [finished]
    exact p.round.after_eq .except f blind ht
  have returns : (ExceptStage.arrive p.arrived).inst.isRett =
      (Instruction.ofWord p.word).isRett := by
    rw [ExceptStage.arrive_inst]
    exact Instruction.of_operation Instruction.isRett (fun _ => rfl) carries.operation
  rw [returns] at rett plain
  rw [ExceptStage.arrive_unchanged HwThread.pc fun _ _ _ => rfl, pc] at saves samePc
  rw [ExceptStage.arrive_unchanged HwThread.branchSlot fun _ _ _ => rfl, slot] at sameSlot
  refine ⟨valid.saved coherent present finished saves, ?_, ?_, ?_, fun returns => ?_,
    fun never => ⟨?_, ?_⟩⟩
  · rw [view (fun ht => ht.specRegs.currWp) fun _ => rfl, window, ExceptStage.arrive_specRegs]
  · exact (view HwThread.pc fun _ => rfl).trans samePc
  · exact (view HwThread.branchSlot fun _ => rfl).trans sameSlot
  · exact (view HwThread.trapped fun _ => rfl).trans (rett returns)
  · exact (view HwThread.trapped fun _ => rfl).trans (plain never).1
  · rw [view HwThread.trapType fun _ => rfl, (plain never).2, ExceptStage.arrive_trapType]

/-- The second pass. -/
theorem Valid.secondPass (valid : p.Valid) (coherent : p.start.Coherent)
    (squashed : p.isSquashed = true) (pending : p.arrived.trapped = .trapped2)
    (trap : p.arrived.trapType = deadlineTrap timer) :
    p.Saved 18 (npc p.start) ∧
      p.finished.specRegs.currWp = p.arrived.specRegs.currWp ∧
      p.finished.pc = p.start.specRegs.tbr ||| ((deadlineTrap timer).setWidth 32 <<< 4) ∧
      p.finished.branchSlot = 0 ∧
      ((Instruction.ofWord p.word).isRett = false → p.finished.trapped = .normal) := by
  have both := squashed
  simp only [isSquashed, squashes, Bool.and_eq_true] at both
  obtain ⟨reaches, _, et⟩ := both
  have present := runs_of_reachesCommit (valid.arrives coherent.enabled) reaches
  have carries := valid.carries coherent present
  obtain ⟨pc, slot, _⟩ := valid.carried coherent.enabled
  obtain ⟨ht, _, finished, committed⟩ := valid.squashed squashed
  obtain ⟨_, saves, window, _, jump, cleared, _, plain⟩ :=
    ExceptStage.commit_secondPass (by simpa using et) (by simpa using pending) committed
  have view : ∀ {α : Type} (f : HwThread id → α), (∀ ht : HwThread id, f ht.pllTick = f ht) →
      f p.finished = f ht := by
    intro α f blind
    rw [finished]
    exact p.round.after_eq .except f blind ht
  have returns : (ExceptStage.arrive p.arrived).inst.isRett =
      (Instruction.ofWord p.word).isRett := by
    rw [ExceptStage.arrive_inst]
    exact Instruction.of_operation Instruction.isRett (fun _ => rfl) carries.operation
  have next : npc (ExceptStage.arrive p.arrived) = npc p.start := by
    rw [ExceptStage.arrive_unchanged npc fun _ _ _ => rfl, npc, npc, pc, slot]
  have tbr : p.arrived.specRegs.settings.tbr = p.start.specRegs.settings.tbr := by
    rw [carries.settings]
  change p.arrived.specRegs.tbr = p.start.specRegs.tbr at tbr
  have offset : ExceptStage.trapOffset (ExceptStage.arrive p.arrived) =
      (deadlineTrap timer).setWidth 32 := by
    apply BitVec.eq_of_toNat_eq
    have number := ExceptStage.deadlineTrap_toNat timer
    have bound : timer.val < 8 := timer.isLt
    rw [ExceptStage.trapOffset_toNat, ExceptStage.arrive_trapType, trap, number,
      BitVec.toNat_setWidth, number, if_neg (by omega)]
    omega
  rw [returns] at plain
  rw [next] at saves
  refine ⟨valid.saved coherent present finished saves, ?_, ?_, ?_, fun never => ?_⟩
  · rw [view (fun ht => ht.specRegs.currWp) fun _ => rfl, window, ExceptStage.arrive_specRegs]
  · rw [view HwThread.pc fun _ => rfl, jump, ExceptStage.arrive_specRegs, tbr, offset]
  · exact (view HwThread.branchSlot fun _ => rfl).trans cleared
  · exact (view HwThread.trapped fun _ => rfl).trans (plain never)

/-- What the first pass of a trap leaves to the second. -/
theorem TakesTrap.halfway (takes : TakesTrap first second timer) :
    second.start.Coherent ∧ second.runs = true ∧ second.word = first.word ∧
      second.isSquashed = true ∧ first.arrived.trapped = .trapped ∧
      second.arrived.trapped = first.finished.trapped ∧
      second.arrived.trapType = first.finished.trapType := by
  obtain ⟨⟨valid, later⟩, coherent, follows, et, free, ⟨squashed, _⟩, reaches⟩ := takes
  have both := squashed
  simp only [isSquashed, squashes, Bool.and_eq_true] at both
  obtain ⟨gets, trapped, _⟩ := both
  have present := runs_of_reachesCommit (valid.arrives coherent.enabled) gets
  have pending : first.arrived.trapped = .trapped := by
    obtain ⟨held, _⟩ | ⟨_, _, same, _⟩ | ⟨_, _, _, raised, _⟩ :=
      valid.arrived_trap coherent.enabled present
    · rw [free] at held
      cases held
    · rw [HwThread.isTrapped, same] at trapped
      rw [HwThread.isTrapped, trapped] at free
      cases free
    · exact raised
  obtain ⟨saved, _, _, _, rett, plain⟩ := valid.firstPass coherent squashed pending
  have next : second.start.Coherent := follows ▸ valid.coherent_finished coherent
  have waits : second.start.isTrapped = true := by
    rw [follows, HwThread.isTrapped]
    cases returns : (Instruction.ofWord first.word).isRett with
    | true => rw [rett returns]; rfl
    | false => rw [(plain returns).1]; rfl
  have held : Fetch.isHeld second.start = true := by simp [Fetch.isHeld, waits]
  obtain ⟨runs, word⟩ := later.held_word next held
  have trap : second.arrived.trapped = second.start.trapped ∧
      second.arrived.trapType = second.start.trapType := by
    obtain ⟨_, same⟩ | ⟨never, _⟩ | ⟨never, _⟩ := later.arrived_trap next.enabled runs
    · exact same
    · rw [waits] at never
      cases never
    · rw [waits] at never
      cases never
  have enabled : second.arrived.specRegs.et = true := by
    have still : first.finished.specRegs.settings.et = first.start.specRegs.settings.et := by
      rw [saved.settings]
    rw [(later.arrives next.enabled).et, follows]
    exact still.trans et
  refine ⟨next, runs, ?_, ?_, pending, follows ▸ trap.1, follows ▸ trap.2⟩
  · obtain ⟨_, _, _, _, operation, _⟩ := valid.finished_latch coherent.enabled
    calc second.word = second.start.inst.inst := word
      _ = first.finished.inst.inst := by rw [follows]
      _ = first.arrived.inst.inst := Instruction.of_operation Instruction.inst (fun _ => rfl) operation
      _ = (Instruction.ofWord first.word).inst :=
          Instruction.of_operation Instruction.inst (fun _ => rfl)
            (valid.carries coherent present).operation
      _ = first.word := Instruction.inst_ofWord _
  · rw [isSquashed, reaches, squashes, HwThread.isTrapped, trap.1]
    rw [HwThread.isTrapped] at waits
    simp [waits, enabled]

theorem window_toNat (w step : BitVec 16) :
    (w + step).toNat % 32 = (w.toNat % 32 + step.toNat % 32) % 32 := by
  rw [BitVec.toNat_add, Nat.mod_mod_of_dvd _ (show 32 ∣ 2 ^ 16 by decide), Nat.add_mod]

theorem window_add (w step : BitVec 16) :
    (w % registerWindows + step) % registerWindows = (w + step) % registerWindows := by
  have windows : (registerWindows : BitVec 16).toNat = 32 := by decide
  apply BitVec.eq_of_toNat_eq
  rw [BitVec.toNat_umod, BitVec.toNat_umod, windows, window_toNat, window_toNat,
    BitVec.toNat_umod, windows, Nat.mod_mod]

theorem window_ne (w step : BitVec 16) (moves : step.toNat % 32 = 1 ∨ step.toNat % 32 = 31) :
    (w + step + (-1) + step) % registerWindows ≠ (w + (-1)) % registerWindows := by
  have windows : (registerWindows : BitVec 16).toNat = 32 := by decide
  have back : (-1 : BitVec 16).toNat % 32 = 31 := by decide
  intro same
  have same := congrArg BitVec.toNat same
  rw [BitVec.toNat_umod, BitVec.toNat_umod, windows, window_toNat, window_toNat, window_toNat,
    window_toNat, back] at same
  omega

theorem saved_eq_iff (regs : RegisterFile) (window : BitVec 16) (first second pc npc : Word) :
    (regs.setReg 17 first window).setReg 18 second window =
        (regs.setReg 17 pc window).setReg 18 npc window ↔ first = pc ∧ second = npc := by
  constructor
  · intro same
    have low := congrArg (fun regs => regs.getReg 17 window) same
    have high := congrArg (fun regs => regs.getReg 18 window) same
    simp only [RegisterFile.get_set_same] at high
    simp only [RegisterFile.get_set_of_ne _ 18 17 _ _ (by decide) (by decide) (by decide),
      RegisterFile.get_set_same] at low
    exact ⟨low, high⟩
  · rintro ⟨rfl, rfl⟩
    rfl

theorem TakesTrap.windows (takes : TakesTrap first second timer) :
    first.finished.specRegs.currWp = (first.start.specRegs.currWp +
        (Instruction.ofWord first.word).incrementWindowPointer + (-1)) % registerWindows ∧
      second.arrived.specRegs.currWp = (first.start.specRegs.currWp +
        (Instruction.ofWord first.word).incrementWindowPointer + (-1) +
        (Instruction.ofWord first.word).incrementWindowPointer) % registerWindows := by
  obtain ⟨next, runs, word, _, pending, _⟩ := takes.halfway
  have squashed := takes.raises.1
  simp only [isSquashed, Bool.and_eq_true] at squashed
  have present := runs_of_reachesCommit (takes.valid.1.arrives takes.coherent.enabled) squashed.1
  have opened : first.finished.specRegs.currWp = (first.start.specRegs.currWp +
      (Instruction.ofWord first.word).incrementWindowPointer + (-1)) % registerWindows := by
    rw [(takes.valid.1.firstPass takes.coherent takes.raises.1 pending).2.1,
      (takes.valid.1.carries takes.coherent present).currWp, window_add]
  refine ⟨opened, ?_⟩
  rw [(takes.valid.2.carries next runs).currWp, takes.follows, opened, word, window_add]

theorem TakesTrap.lands (takes : TakesTrap first second timer)
    (returns : (Instruction.ofWord first.word).isRett = false) :
    second.finished.trapped = .normal ∧
      second.finished.specRegs.currWp = second.arrived.specRegs.currWp ∧
      second.finished.pc =
        first.start.specRegs.tbr ||| ((deadlineTrap timer).setWidth 32 <<< 4) ∧
      second.finished.branchSlot = 0 ∧
      second.finished.regs =
        (first.start.regs.setReg 17
          ((first.saves first.finished.specRegs.currWp).getD first.start.pc)
          first.finished.specRegs.currWp).setReg 18
          ((first.saves second.finished.specRegs.currWp).getD (npc first.start))
          second.finished.specRegs.currWp := by
  obtain ⟨next, _, word, again, pending, state, type⟩ := takes.halfway
  obtain ⟨saved, _, pc, slot, _, plain⟩ :=
    takes.valid.1.firstPass takes.coherent takes.raises.1 pending
  obtain ⟨halfway, sameType⟩ := plain returns
  obtain ⟨stored, window, jump, cleared, done⟩ :=
    takes.valid.2.secondPass next again (state.trans halfway)
      (type.trans (sameType.trans takes.raises.2))
  have tbr : second.start.specRegs.settings.tbr = first.start.specRegs.settings.tbr := by
    rw [takes.follows, saved.settings]
  change second.start.specRegs.tbr = first.start.specRegs.tbr at tbr
  have after : npc second.start = npc first.start := by
    rw [npc, npc, takes.follows, pc, slot]
  refine ⟨done (word ▸ returns), window, tbr ▸ jump, cleared, ?_⟩
  have regs := stored.regs
  have same : ∀ window, second.saves window = first.saves window := by
    intro window
    rw [saves, word, takes.follows, saved.selects]
  rw [same, after, takes.follows, saved.regs] at regs
  exact regs

theorem TakesTrap.stays (takes : TakesTrap first second timer)
    (returns : (Instruction.ofWord first.word).isRett = true) :
    second.finished.trapped = .trapped := by
  obtain ⟨next, _, word, again, pending, state, _⟩ := takes.halfway
  obtain ⟨_, _, _, _, rett, _⟩ := takes.valid.1.firstPass takes.coherent takes.raises.1 pending
  exact (takes.valid.2.firstPass next again (state.trans (rett returns))).2.2.2.2.1
    (word ▸ returns)

/-- The entry of a deadline trap is exact if and only if the trapped instruction neither
moves the window nor selects a special register, unless that holds both counters. -/
theorem entry_exact_iff (takes : TakesTrap first second timer) :
    EntersExactly first second timer ↔ first.EntersCleanly := by
  obtain ⟨opened, kept⟩ := takes.windows
  have shape := Instruction.window_decodeOperation (i := Sparc.fields first.word) rfl rfl
  rw [← Sparc.of_fields first.word Instruction.incrementWindowPointer fun _ => rfl,
    ← Sparc.of_fields first.word Instruction.isRett fun _ => rfl] at shape
  obtain ⟨still, plain⟩ | moves : (Instruction.ofWord first.word).incrementWindowPointer = 0 ∧
      (Instruction.ofWord first.word).isRett = false ∨
      (Instruction.ofWord first.word).incrementWindowPointer = 1 ∨
      (Instruction.ofWord first.word).incrementWindowPointer = -1 :=
    Or.imp_right (Or.imp_right And.left) shape
  · obtain ⟨done, window, jump, cleared, regs⟩ := takes.lands plain
    have none : ∀ w : BitVec 16, w + 0 = w := fun w => BitVec.add_zero w
    rw [still, none] at opened kept
    rw [none] at kept
    have ends := window.trans kept
    rw [ends, opened] at regs
    have saves := saved_eq_iff first.start.regs first.trapWindow
      ((first.saves first.trapWindow).getD first.start.pc)
      ((first.saves first.trapWindow).getD (npc first.start)) first.start.pc (npc first.start)
    constructor
    · intro exact
      obtain ⟨here, there⟩ := saves.mp (regs.symm.trans exact.regs)
      refine ⟨still, fun value found => ?_⟩
      rw [found] at here there
      exact ⟨here, there⟩
    · rintro ⟨_, holds⟩
      refine ⟨done, ends, regs.trans (saves.mpr ?_), jump, cleared⟩
      cases found : first.saves first.trapWindow with
      | none => exact ⟨rfl, rfl⟩
      | some value => exact holds value found
  · have clean : ¬ first.EntersCleanly := by
      rintro ⟨still, _⟩
      rw [still] at moves
      exact absurd moves (by decide)
    refine iff_of_false (fun exact => ?_) clean
    cases returns : (Instruction.ofWord first.word).isRett with
    | true =>
        have stays := takes.stays returns
        rw [exact.returns] at stays
        cases stays
    | false =>
        have ends := (takes.lands returns).2.1.trans kept
        refine window_ne _ _ ?_ (ends.symm.trans exact.window)
        obtain same | same := moves <;> rw [same] <;> decide

end Pass

namespace Run

def takesTrap (entry : Nat → Pass id σ) (n : Nat) (timer : Fin numDeadlineTimers) : Bool :=
  (entry n).start.specRegs.et && !(entry n).start.isTrapped && (entry n).isSquashed &&
    (entry n).arrived.trapType == deadlineTrap timer && reachesCommit (entry (n + 1)).arrived

theorem takesTrap_takes (run : Run id σ) {n : Nat} {timer : Fin numDeadlineTimers}
    (bound : n + 1 < run.length) (takes : takesTrap run.entry n timer = true) :
    (run.entry n).TakesTrap (run.entry (n + 1)) timer := by
  simp only [takesTrap, Bool.and_eq_true, Bool.not_eq_true', beq_iff_eq] at takes
  obtain ⟨⟨⟨⟨et, free⟩, squashed⟩, type⟩, reaches⟩ := takes
  exact ⟨⟨run.valid n (by omega), run.valid (n + 1) bound⟩, run.coherent (by omega),
    run.linked n bound, et, free, ⟨squashed, type⟩, reaches⟩

/-- A timer that runs out during the instruction after the one that arms it. -/
def trapped (bits : Word) : List (Round Unit) :=
  let program := fun pc : Word => if pc = 0 then deadWord 0 2 1 else bits
  [.ofProgram program false .create, .ofProgram program false .create,
    .ofProgram program false .create]

theorem entry_exact_nop :
    ∃ run : Run 0 Unit, (run.entry 1).word = nopWord ∧
      (run.entry 1).EntersExactly (run.entry 2) 0 := by
  obtain ⟨run, holds⟩ := Run.exists_of_check
    (fun length (entry : Nat → Pass 0 Unit) =>
      length == 3 && (entry 1).word == nopWord && takesTrap entry 1 0) (trapped nopWord)
    (by decide +kernel)
  simp only [Bool.and_eq_true, beq_iff_eq] at holds
  obtain ⟨⟨length, word⟩, takes⟩ := holds
  refine ⟨run, word, (Pass.entry_exact_iff (run.takesTrap_takes (by omega) takes)).mpr ⟨?_, ?_⟩⟩
  · rw [word]
    rfl
  · intro value found
    rw [Pass.saves, word] at found
    cases found

def saveWord : Word := 2#2 ++ 0#5 ++ 0x3C#6 ++ 0#5 ++ 1#1 ++ 0#13

/-- A trapped window opening opens its window twice. -/
theorem entry_of_save :
    ∃ run : Run 0 Unit, (run.entry 1).TakesTrap (run.entry 2) 0 ∧
      ¬ (run.entry 1).EntersExactly (run.entry 2) 0 := by
  obtain ⟨run, holds⟩ := Run.exists_of_check
    (fun length (entry : Nat → Pass 0 Unit) =>
      length == 3 && takesTrap entry 1 0 &&
        (entry 2).finished.specRegs.currWp != (entry 1).trapWindow) (trapped saveWord)
    (by decide +kernel)
  simp only [Bool.and_eq_true, beq_iff_eq, bne_iff_ne] at holds
  obtain ⟨⟨length, takes⟩, window⟩ := holds
  exact ⟨run, run.takesTrap_takes (by omega) takes, fun exact => window exact.window⟩

end Run

end PretIss
