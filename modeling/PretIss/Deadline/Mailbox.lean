import PretIss.Thread.Program

/-! Deadline instructions on the PLL timer. The thread puts its value into a mailbox that
the PLL clock empties into the timer, and waits. Nothing ends the wait: the register
access never lowers the stall of such an instruction, and fills the mailbox again. -/

namespace PretIss

open ExceptStage (reachesCommit squashes)

namespace SpecialReg

/-- The values that so many ticks of the PLL clock load into the timer. -/
def pllLoads (r : SpecialReg) : Nat → List Word
  | 0 => []
  | ticks + 1 =>
      (if r.plldt 0 = 0 ∧ r.pllLoad 0 ≠ 0 then [r.pllLoad 0 - 1] else []) ++
        r.decrementPllTimers.pllLoads ticks

end SpecialReg

def IsPllWord (w : Word) : Prop :=
  (Instruction.ofWord w).selectSpecialRegister = some .dt ∧
    numDeadlineTimers ≤ (Instruction.ofWord w).rd

instance (w : Word) : Decidable (IsPllWord w) := inferInstanceAs (Decidable (_ ∧ _))

namespace ExceptStage

variable {id : ThreadId}

theorem writeSpecialRegs_pllLoaded {ht ht' : HwThread id} {dma dma' : Dma}
    (runs : writeSpecialRegs ht dma = .ok (ht', dma')) :
    ht'.specRegs.pllLoaded = ht.specRegs.pllLoaded := by
  simp only [writeSpecialRegs] at runs
  split at runs
  · split at runs
    case h_2 =>
      obtain ⟨specRegs, stored, runs⟩ := Transition.bind_eq_ok.mp runs
      obtain ⟨asr, _, stored⟩ := Transition.bind_eq_ok.mp stored
      obtain rfl := Except.ok.inj stored
      obtain ⟨rfl, _⟩ := Prod.mk.injEq .. ▸ Except.ok.inj runs
      rfl
    case h_6 =>
      obtain ⟨written, loads, runs⟩ := Transition.bind_eq_ok.mp runs
      obtain ⟨rfl, _⟩ := Prod.mk.injEq .. ▸ Except.ok.inj runs
      simp only [writeDeadline] at loads
      split at loads
      · obtain rfl := Except.ok.inj loads
        rfl
      · obtain ⟨specRegs, loaded, loads⟩ := Transition.bind_eq_ok.mp loads
        obtain ⟨pllLoad, _, loaded⟩ := Transition.bind_eq_ok.mp loaded
        obtain rfl := Except.ok.inj loaded
        obtain rfl := Except.ok.inj loads
        rfl
    all_goals
      obtain ⟨rfl, _⟩ := Prod.mk.injEq .. ▸ Except.ok.inj runs
      rfl
  · obtain ⟨rfl, _⟩ := Prod.mk.injEq .. ▸ Except.ok.inj runs
    rfl

theorem commit_pllLoaded {ht ht' : HwThread id} {syncNotStalled : Bool} {dma dma' : Dma}
    (runs : commit ht syncNotStalled dma = .ok (ht', dma')) :
    ht'.specRegs.pllLoaded = ht.specRegs.pllLoaded := by
  obtain ⟨squashed, handled, moved, written, last, first, second, third, fourth, rfl⟩ :=
    commit_eq_ok.mp runs
  have retires : (retire last).specRegs.pllLoaded = last.specRegs.pllLoaded := by
    simp only [retire, returnFromTrap]
    split
    · split
      · rfl
      · split <;> rfl
    · rfl
  have special : last.specRegs.pllLoaded = written.specRegs.pllLoaded :=
    writeSpecialRegs_pllLoaded fourth
  have moves : moved.specRegs.pllLoaded = squashed.specRegs.pllLoaded := by
    change (unmoved moved).specRegs.pllLoaded = (unmoved squashed).specRegs.pllLoaded
    rw [(advance_unmoved second).1]
  have handles : squashed.specRegs.pllLoaded = ht.specRegs.pllLoaded := by
    obtain ⟨_, _, rfl⟩ | ⟨_, _, ⟨_, rfl⟩ | ⟨_, rfl⟩ | ⟨_, rfl⟩⟩ := handleExceptions_cases first
    · rfl
    · simp only [firstPass_eq, redirect_specRegs, HwThread.moveWindow, unwritten]
    · simp only [afterTrap, unwritten]
    · rfl
  rw [retires, special, writeRegs_frame third, ← handles]
  exact moves

end ExceptStage

namespace Regacc

variable {id : ThreadId}

theorem deadlineInstruction_pll {ht waited : HwThread id}
    (select : ht.inst.selectSpecialRegister = some .dt) (pll : numDeadlineTimers ≤ ht.inst.rd)
    (waits : ht.deadlineStalled = true ∨ ht.specRegs.pllLoaded = false)
    (runs : deadlineInstruction ht = .ok waited) : waited.deadlineStalled = true := by
  simp only [deadlineInstruction, select, if_true, Nat.not_lt.mpr pll, dif_neg, not_false_eq_true,
    destinationPhaselockloopDeadlines] at runs
  obtain ⟨load, _, runs⟩ := Transition.bind_eq_ok.mp runs
  split at runs
  · obtain rfl := Except.ok.inj runs
    rfl
  · split at runs
    · obtain rfl := Except.ok.inj runs
      rfl
    · rename_i loaded
      obtain rfl := Except.ok.inj runs
      exact waits.resolve_right (by simpa using loaded)

theorem deadlineInstruction_empties {ht waited : HwThread id}
    (select : ht.inst.selectSpecialRegister = some .dt) (pll : numDeadlineTimers ≤ ht.inst.rd)
    (through : waited.deadlineStalled = false) (runs : deadlineInstruction ht = .ok waited) :
    waited.specRegs.pllLoaded = false := by
  simp only [deadlineInstruction, select, if_true, Nat.not_lt.mpr pll, dif_neg, not_false_eq_true,
    destinationPhaselockloopDeadlines] at runs
  obtain ⟨load, _, runs⟩ := Transition.bind_eq_ok.mp runs
  split at runs
  · obtain rfl := Except.ok.inj runs
    cases through
  · split at runs
    · obtain rfl := Except.ok.inj runs
      cases through
    · obtain rfl := Except.ok.inj runs
      rfl

theorem deadlineInstruction_pllLoaded {ht waited : HwThread id}
    (other : ¬ (ht.inst.selectSpecialRegister = some .dt ∧ numDeadlineTimers ≤ ht.inst.rd))
    (runs : deadlineInstruction ht = .ok waited) :
    waited.specRegs.pllLoaded = ht.specRegs.pllLoaded := by
  by_cases select : ht.inst.selectSpecialRegister = some .dt
  · have regular : ht.inst.rd < numDeadlineTimers :=
      Nat.not_le.mp fun pll => other ⟨select, pll⟩
    simp only [deadlineInstruction, select, regular, if_true, dif_pos, Except.ok.injEq,
      destinationRegularDeadlines] at runs
    subst runs
    split <;> rfl
  · rw [deadlineInstruction_of_ne select] at runs
    rw [Except.ok.inj runs]

end Regacc

namespace Pass

variable {id : ThreadId} {σ : Type}

/-- The thread as a stage leaves it, before the ticks that follow. -/
def ended (p : Pass id σ) : Stage → Option (HwThread id)
  | .fetch =>
      (Fetch.behavior p.round.instructionMemory p.start p.round.fetchMemory).toOption.map Prod.fst
  | .decode => some (Decode.behavior p.fetched)
  | .regacc => (Regacc.behavior p.decoded).toOption
  | .execute => some (Execute.behavior p.accessed)
  | .mem => (Mem.behavior p.round.dataMem p.executed p.round.memory).toOption.map Prod.fst
  | .except =>
      (ExceptStage.behavior p.arrived p.round.syncTable p.round.dma).toOption.map Prod.fst

/-- The values that are loaded into the PLL timer in the course of a pass. -/
def pllLoads (p : Pass id σ) : List Word :=
  [Stage.fetch, .decode, .regacc, .execute, .mem, .except].flatMap fun stage =>
    match p.ended stage with
    | some ht => ht.specRegs.pllLoads (p.round.ticks stage)
    | none => []

/-- A deadline instruction on the PLL timer reaches the register access for the first
time. -/
def entersPll (p : Pass id σ) : Prop :=
  p.runs = true ∧ IsPllWord p.word ∧ p.start.deadlineStalled = false

instance (p : Pass id σ) : Decidable p.entersPll := inferInstanceAs (Decidable (_ ∧ _ ∧ _))

/-- The value that it is to load. -/
def pllValue (p : Pass id σ) : Word :=
  if p.decoded.inst.useImm then p.decoded.inst.imm else p.decoded.readReg p.decoded.inst.rs2

/-- A deadline instruction on the PLL timer reaches the register access once its value
has been taken out of the mailbox. -/
def acknowledged (p : Pass id σ) : Prop :=
  p.runs = true ∧ IsPllWord p.word ∧ p.decoded.specRegs.pllLoaded = true ∧
    (p.decoded.specRegs.getPllLoad (p.decoded.inst.rd - 8)).toOption = some 0

instance (p : Pass id σ) : Decidable p.acknowledged := inferInstanceAs (Decidable (_ ∧ _ ∧ _ ∧ _))

/-- The wait is over: the instruction commits, and does not fill the mailbox again. -/
structure Completes (p : Pass id σ) : Prop where
  released : p.accessed.deadlineStalled = false
  commits : p.arrived.isTrapped = false → p.commits = true
  advances : p.arrived.isTrapped = false → p.finished.pc =
    if p.start.branchSlot ≠ 0 then p.start.branchSlot else p.start.pc + 4
  silent : p.arrived.isTrapped = false →
    (p.ended .except).map (fun ht => ht.specRegs.pllLoad) = some p.arrived.specRegs.pllLoad

variable {p : Pass id σ}

theorem Decoded.select_rd (decoded : p.Decoded) :
    p.decoded.inst.selectSpecialRegister =
        (Instruction.ofWord p.word).selectSpecialRegister ∧
      p.decoded.inst.rd = (Instruction.ofWord p.word).rd :=
  ⟨Instruction.of_meaning Instruction.selectSpecialRegister (fun _ => rfl) decoded.meaning,
    Instruction.of_meaning Instruction.rd (fun _ => rfl) decoded.meaning⟩

end Pass

structure HwThread.AwaitsPll {id : ThreadId} (ht : HwThread id) : Prop where
  stalled : ht.deadlineStalled = true
  word : IsPllWord ht.inst.inst

namespace Pass

variable {id : ThreadId} {σ : Type} {p : Pass id σ}

theorem Valid.awaits_pll (valid : p.Valid) (coherent : p.start.Coherent) (present : p.runs = true)
    (pll : IsPllWord p.word)
    (waits : p.start.deadlineStalled = true ∨ p.start.specRegs.pllLoaded = false) :
    p.finished.AwaitsPll ∧ p.commits = false := by
  have ready := valid.ready coherent.enabled
  have decoded := valid.decoded_latch coherent (by simpa [runs] using present)
  obtain ⟨select, rd⟩ := decoded.select_rd
  have stalled := ready.unchanged HwThread.deadlineStalled (fun _ => rfl) (fun _ => rfl)
  have loaded := ready.unchanged (fun ht => ht.specRegs.pllLoaded) (fun _ => rfl) (fun _ => rfl)
  obtain ⟨waited, accessed⟩ := valid.accesses coherent.enabled present
  have held : p.arrived.deadlineStalled = true := by
    rw [accessed.deadlineStalled]
    exact Regacc.deadlineInstruction_pll (select.trans pll.1) (rd ▸ pll.2)
      (by rwa [stalled, loaded]) accessed.waiting
  refine ⟨⟨?_, ?_⟩, by simp [commits, reachesCommit, held]⟩
  · rw [(valid.finished_latch coherent.enabled).2.2.2.1, held]
  · rw [valid.finished_word coherent present]
    exact pll

theorem Valid.empties_pll (valid : p.Valid)
    (coherent : p.start.Coherent) (present : p.runs = true) (pll : IsPllWord p.word)
    (reaches : reachesCommit p.arrived = true) : p.finished.specRegs.pllLoaded = false := by
  have arrives := valid.arrives coherent.enabled
  obtain ⟨select, rd⟩ := (valid.decoded_latch coherent (by simpa [runs] using present)).select_rd
  have through : p.arrived.deadlineStalled = false := by
    simp only [reachesCommit, Bool.and_eq_true, Bool.not_eq_true'] at reaches
    exact reaches.1.2
  obtain ⟨absent, _⟩ | ⟨_, waited, waiting, _, control, _⟩ := valid.access_cases coherent.enabled
  · rw [absent] at present
    cases present
  have same := valid.arrived_control.1.trans control
  have checked : ∀ {α : Type} (view : HwThread id → α),
      (∀ ht : HwThread id, view ht.control = view ht) →
      (∀ ht : HwThread id, view (Regacc.operands ht) = view ht) →
      (∀ (ht : HwThread id) state trapType,
        view { ht with trapped := state, trapType := trapType } = view ht) →
      view p.arrived = view waited := fun view blind kept still =>
    (HwThread.of_control view blind same).trans
      ((kept _).trans (Regacc.checkDeadline_unchanged view still waited))
  have empty : p.arrived.specRegs.pllLoaded = false := by
    rw [checked (fun ht => ht.specRegs.pllLoaded) (fun _ => rfl) (fun _ => rfl) fun _ _ _ => rfl]
    apply Regacc.deadlineInstruction_empties (select.trans pll.1) (rd ▸ pll.2) _ waiting
    rw [← through]
    exact (checked HwThread.deadlineStalled (fun _ => rfl) (fun _ => rfl) fun _ _ _ => rfl).symm
  obtain ⟨ht, last, _, ⟨_, kept, _⟩ | ⟨_, never, _⟩ | ⟨_, _, _, committed⟩⟩ :=
    valid.finish_cases arrives.enabled
  · rw [HwThread.of_control (fun ht => ht.specRegs.pllLoaded) (fun _ => rfl) (last.trans kept), empty]
  · rw [reaches] at never
    cases never
  · rw [HwThread.of_control (fun ht => ht.specRegs.pllLoaded) (fun _ => rfl) last,
      ExceptStage.commit_pllLoaded committed, ExceptStage.arrive_specRegs, empty]

theorem Valid.pllLoaded_of_other (valid : p.Valid) (coherent : p.start.Coherent)
    (other : p.runs = true → ¬ IsPllWord p.word) :
    p.finished.specRegs.pllLoaded = p.start.specRegs.pllLoaded := by
  have ready := valid.ready coherent.enabled
  have arrives := valid.arrives coherent.enabled
  have loaded := ready.unchanged (fun ht => ht.specRegs.pllLoaded) (fun _ => rfl) (fun _ => rfl)
  have arrived : p.arrived.specRegs.pllLoaded = p.decoded.specRegs.pllLoaded := by
    obtain ⟨_, control, _⟩ | ⟨present, waited, waiting, _, control, _⟩ :=
      valid.access_cases coherent.enabled
    · exact HwThread.of_control (fun ht => ht.specRegs.pllLoaded) (fun _ => rfl)
        (valid.arrived_control.1.trans control)
    · have decoded := valid.decoded_latch coherent (by simpa [runs] using present)
      obtain ⟨select, rd⟩ := decoded.select_rd
      rw [HwThread.of_control (fun ht => ht.specRegs.pllLoaded) (fun _ => rfl)
        (valid.arrived_control.1.trans control)]
      calc (Regacc.checkDeadline waited).specRegs.pllLoaded
          = waited.specRegs.pllLoaded :=
            Regacc.checkDeadline_unchanged (fun ht => ht.specRegs.pllLoaded) (fun _ _ _ => rfl) waited
        _ = p.decoded.specRegs.pllLoaded := by
            apply Regacc.deadlineInstruction_pllLoaded _ waiting
            rw [select, rd]
            exact other present
  rw [← loaded, ← arrived]
  obtain ⟨ht, control, _, ⟨_, same, _⟩ | ⟨_, _, same, _⟩ | ⟨_, _, _, committed⟩⟩ :=
    valid.finish_cases arrives.enabled
  · exact HwThread.of_control (fun ht => ht.specRegs.pllLoaded) (fun _ => rfl) (control.trans same)
  · rw [HwThread.of_control (fun ht => ht.specRegs.pllLoaded) (fun _ => rfl) (control.trans same),
      ExceptStage.arrive_specRegs]
  · rw [HwThread.of_control (fun ht => ht.specRegs.pllLoaded) (fun _ => rfl) control,
      ExceptStage.commit_pllLoaded committed, ExceptStage.arrive_specRegs]

theorem Valid.guards_pll (valid : p.Valid) (coherent : p.start.Coherent)
    (guarded : p.start.specRegs.pllLoaded = true → p.start.AwaitsPll) :
    p.finished.specRegs.pllLoaded = true → p.finished.AwaitsPll := by
  intro loaded
  by_cases pll : p.runs = true ∧ IsPllWord p.word
  · refine (valid.awaits_pll coherent pll.1 pll.2 ?_).1
    cases before : p.start.specRegs.pllLoaded with
    | false => exact Or.inr rfl
    | true => exact Or.inl (guarded before).stalled
  · have same := valid.pllLoaded_of_other coherent fun present word => pll ⟨present, word⟩
    have awaits := guarded (same.symm.trans loaded)
    have held : Fetch.isHeld p.start = true := by simp [Fetch.isHeld, awaits.stalled]
    obtain ⟨present, word⟩ := valid.held_word coherent held
    exact absurd ⟨present, by rw [Pass.word, word]; exact awaits.word⟩ pll

end Pass

namespace Run

variable {id : ThreadId} {σ : Type}

/-- The instruction that a pass takes up waits until it commits, and has then loaded its
value exactly once, and left the mailbox empty. -/
structure Delivers (run : Run id σ) (n m : Nat) : Prop where
  waits : ∀ k, n ≤ k → k < m → (run.entry k).finished.deadlineStalled = true
  completes : (run.entry m).commits = true
  once : (List.range' n (m + 1 - n)).flatMap (fun k => (run.entry k).pllLoads) =
    [(run.entry n).pllValue - 1]
  empty : (run.entry m).finished.specRegs.pllLoad 0 = 0

theorem guarded_pll (run : Run id σ) {n : Nat} (bound : n < run.length) :
    (run.entry n).start.specRegs.pllLoaded = true → (run.entry n).start.AwaitsPll := by
  have invariant := run.invariant (fun _ ht => ht.Coherent ∧
    (ht.specRegs.pllLoaded = true → ht.AwaitsPll)) ?_ ?_ bound
  · exact invariant.2
  · obtain ⟨pc, windowReg, same⟩ := run.reset
    rw [same]
    exact ⟨HwThread.coherent_reset pc windowReg, fun loaded => by cases loaded⟩
  · rintro n bound ⟨coherent, guarded⟩
    exact ⟨(run.valid n bound).coherent_finished coherent,
      (run.valid n bound).guards_pll coherent guarded⟩

theorem awaits_forever (run : Run id σ) {n m : Nat} (enters : (run.entry n).entersPll)
    (later : n ≤ m) (bound : m < run.length) :
    (run.entry m).finished.AwaitsPll ∧ (run.entry m).commits = false := by
  obtain ⟨present, pll, free⟩ := enters
  induction m, later using Nat.le_induction with
  | base =>
      apply (run.valid n bound).awaits_pll (run.coherent bound) present pll
      right
      cases loaded : (run.entry n).start.specRegs.pllLoaded with
      | false => rfl
      | true =>
          rw [(run.guarded_pll bound loaded).stalled] at free
          cases free
  | succ m later ih =>
      obtain ⟨awaits, _⟩ := ih (by omega)
      rw [← run.linked m bound] at awaits
      have held : Fetch.isHeld (run.entry (m + 1)).start = true := by
        simp [Fetch.isHeld, awaits.stalled]
      have valid := run.valid (m + 1) bound
      obtain ⟨present, word⟩ := valid.held_word (run.coherent bound) held
      exact valid.awaits_pll (run.coherent bound) present (by rw [Pass.word, word]; exact awaits.word)
        (Or.inl awaits.stalled)

/-- No deadline instruction on the PLL timer is ever delivered. -/
theorem never_delivers (run : Run id σ) (n m : Nat) (enters : (run.entry n).entersPll)
    (later : n ≤ m) (bound : m < run.length) : ¬ run.Delivers n m := by
  intro delivers
  have never := (run.awaits_forever enters later bound).2
  rw [delivers.completes] at never
  cases never

/-- An empty mailbox releases no deadline instruction. -/
theorem never_completes (run : Run id σ) {n : Nat} (bound : n < run.length)
    (acknowledged : (run.entry n).acknowledged) : ¬ (run.entry n).Completes := by
  obtain ⟨present, pll, loaded, _⟩ := acknowledged
  have valid := run.valid n bound
  have coherent := run.coherent bound
  have marked : (run.entry n).start.specRegs.pllLoaded = true :=
    ((valid.ready coherent.enabled).unchanged (fun ht => ht.specRegs.pllLoaded) (fun _ => rfl)
      (fun _ => rfl)).symm.trans loaded
  have waited := (run.guarded_pll bound marked).stalled
  have held := (valid.awaits_pll coherent present pll (Or.inl waited)).1.stalled
  rw [(valid.finished_latch coherent.enabled).2.2.2.1,
    HwThread.of_control HwThread.deadlineStalled (fun _ => rfl) valid.arrived_control.1] at held
  intro completes
  rw [completes.released] at held
  cases held

def pllProgram : List (Round Unit) :=
  let round := Round.ofProgram (fun _ => deadWord 8 0 2) false .create
  let ticking := { round with ticks := fun stage => if stage = .except then 1 else 0 }
  [ticking, ticking, ticking]

theorem never_delivers_waits :
    ∃ run : Run 0 Unit, (run.entry 0).entersPll ∧ ¬ run.Delivers 0 2 := by
  obtain ⟨run, holds⟩ := Run.exists_of_check
    (fun length (entry : Nat → Pass 0 Unit) => length == 3 && decide (entry 0).entersPll)
    pllProgram (by decide +kernel)
  simp only [Bool.and_eq_true, beq_iff_eq, decide_eq_true_eq] at holds
  exact ⟨run, holds.2, run.never_delivers 0 2 holds.2 (by decide) (by omega)⟩

theorem never_completes_waits :
    ∃ run : Run 0 Unit, (run.entry 1).acknowledged ∧ ¬ (run.entry 1).Completes := by
  obtain ⟨run, holds⟩ := Run.exists_of_check
    (fun length (entry : Nat → Pass 0 Unit) => length == 3 && decide (entry 1).acknowledged)
    pllProgram (by decide +kernel)
  simp only [Bool.and_eq_true, beq_iff_eq, decide_eq_true_eq] at holds
  exact ⟨run, holds.2, run.never_completes (by omega) holds.2⟩

/-- The mailbox is empty in the second round; the instruction does not commit, and fills
the mailbox again in the third. -/
theorem posted_twice :
    ∃ run : Run 0 Unit, (run.entry 1).acknowledged ∧ ¬ (run.entry 1).Completes ∧
      (run.entry 1).commits = false ∧ (run.entry 2).arrived.specRegs.pllLoad 0 = 0 ∧
      ((run.entry 2).ended .except).map (fun ht => ht.specRegs.pllLoad 0) = some 2 := by
  obtain ⟨run, holds⟩ := Run.exists_of_check
    (fun length (entry : Nat → Pass 0 Unit) =>
      length == 3 && decide (entry 1).acknowledged && (entry 1).accessed.deadlineStalled &&
        !(entry 1).commits && (entry 2).arrived.specRegs.pllLoad 0 == 0 &&
        ((entry 2).ended .except).map (fun ht => ht.specRegs.pllLoad 0) == some 2)
    pllProgram (by decide +kernel)
  simp only [Bool.and_eq_true, Bool.not_eq_true', beq_iff_eq, decide_eq_true_eq] at holds
  obtain ⟨⟨⟨⟨⟨_, acknowledged⟩, stalled⟩, stops⟩, empty⟩, filled⟩ := holds
  refine ⟨run, acknowledged, fun completes => ?_, stops, empty, filled⟩
  rw [completes.released] at stalled
  cases stalled

/-- The timer is loaded again in the third round, and the instruction still waits. -/
theorem delivered_twice :
    ∃ run : Run 0 Unit, (run.entry 0).entersPll ∧ (run.entry 0).pllValue = 2 ∧
      (List.range' 0 3).flatMap (fun k => (run.entry k).pllLoads) = [1, 1] ∧
      (run.entry 2).finished.deadlineStalled = true := by
  obtain ⟨run, holds⟩ := Run.exists_of_check
    (fun length (entry : Nat → Pass 0 Unit) =>
      length == 3 && decide (entry 0).entersPll && (entry 0).pllValue == 2 &&
        (List.range' 0 3).flatMap (fun k => (entry k).pllLoads) == [1, 1] &&
        (entry 2).finished.deadlineStalled)
    pllProgram (by decide +kernel)
  simp only [Bool.and_eq_true, beq_iff_eq, decide_eq_true_eq] at holds
  exact ⟨run, holds.1.1.1.2, holds.1.1.2, holds.1.2, holds.2⟩

end Run

end PretIss
