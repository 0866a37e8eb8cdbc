import PretIss.Thread.Registers
import PretIss.Transfer.Passes

/-! What a squashed instruction leaves behind. Its special register write is taken away
and its register write replaced by that of an address; but the special register that it
selects is still selected, and its other flags still hold. -/

namespace PretIss

variable {id : ThreadId} {σ : Type}

namespace ExceptStage

/-- The special register that a register write takes its value from. -/
def selected (i : Instruction) (r : SpecialReg) : Option Word :=
  match i.selectSpecialRegister with
  | some .y => some r.y
  | some .asr => if inside : i.rs1 < 32 then some (r.asr ⟨i.rs1, inside⟩) else none
  | some .psr => some r.getPsr
  | some .wim => some r.wim
  | some .tbr => some r.tbr
  | some .dt | some .mem2sp | none => none

theorem specialValue_eq {ht : HwThread id} {value : Word}
    (runs : specialValue ht ht.inst.selectSpecialRegister = .ok value) :
    value = (selected ht.inst ht.specRegs).getD ht.inst.aluResult := by
  unfold selected
  rcases select : ht.inst.selectSpecialRegister with _ | mux
  · rw [select] at runs
    exact (Except.ok.inj runs).symm
  · rw [select] at runs
    cases mux with
    | asr =>
        simp only [specialValue, SpecialReg.getAsr, arrayGet] at runs
        split at runs
        · rename_i inside
          obtain rfl := Except.ok.inj runs
          have small : ht.inst.rs1 < 32 := by omega
          simp [small]
        · cases runs
    | _ => exact (Except.ok.inj runs).symm

theorem writeRegs_eq {ht ht' : HwThread id} (asks : ht.inst.writeRegisters = true)
    (runs : writeRegs ht = .ok ht') :
    ht' = ht.writeReg ht.inst.rd ((selected ht.inst ht.specRegs).getD ht.inst.aluResult) := by
  simp only [writeRegs, asks, if_true] at runs
  obtain ⟨value, selects, runs⟩ := Transition.bind_eq_ok.mp runs
  rw [← specialValue_eq selects]
  exact (Except.ok.inj runs).symm

theorem commit_squashed {ht ht' : HwThread id} {syncNotStalled : Bool} {dma dma' : Dma}
    (stops : squashes ht = true) (runs : commit ht syncNotStalled dma = .ok (ht', dma')) :
    dma' = dma ∧ ∃ squashed written, handleExceptions ht = .ok (squashed, false) ∧
      writeRegs squashed = .ok written ∧ ht' = retire written := by
  obtain ⟨squashed, handled, moved, written, last, first, second, third, fourth, rfl⟩ :=
    commit_eq_ok.mp runs
  obtain rfl : handled = false := by
    obtain ⟨goes, _⟩ | ⟨_, never, _⟩ := handleExceptions_cases first
    · rw [stops] at goes
      cases goes
    · exact never
  obtain rfl := Except.ok.inj second
  have unwritten := (handleExceptions_squashed stops first).1
  have kept : written.inst.writeSpecialRegisters = false := by
    rw [writeRegs_frame third]
    exact unwritten
  simp only [writeSpecialRegs, kept, Bool.false_eq_true, if_false, Except.ok.injEq,
    Prod.mk.injEq] at fourth
  obtain ⟨rfl, rfl⟩ := fourth
  exact ⟨rfl, squashed, written, first, third, rfl⟩

theorem retire_of_et {ht : HwThread id} (et : ht.specRegs.et = true) :
    ∃ state trapType, retire ht =
        { ht with trapped := state, trapType := trapType, cntInstr := ht.cntInstr + 1 } ∧
      (ht.inst.isRett = true → state = .trapped) ∧
      (ht.inst.isRett = false → state = ht.trapped ∧ trapType = ht.trapType) := by
  simp only [retire, returnFromTrap, et, if_true]
  split
  · rename_i rett
    split
    · exact ⟨.trapped, 0x03, rfl, fun _ => rfl, by simp [rett]⟩
    · exact ⟨.trapped, 0x02, rfl, fun _ => rfl, by simp [rett]⟩
  · rename_i plain
    exact ⟨ht.trapped, ht.trapType, rfl, by simp [plain], fun _ => ⟨rfl, rfl⟩⟩

structure Saves (ht ht' : HwThread id) (rd : Nat) (address : Word) : Prop where
  regs : ht'.regs = ht.regs.setReg rd
    ((selected ht.inst { ht.specRegs with currWp := ht'.specRegs.currWp }).getD address)
    ht'.specRegs.currWp
  specRegs : ht'.specRegs =
    { ht.specRegs with currWp := ht'.specRegs.currWp, dtStatus := ht'.specRegs.dtStatus }

theorem selected_eq {i j : Instruction} {r r' : SpecialReg} (same : i.operation = j.operation)
    (currWp : r.currWp = r'.currWp) (y : j.selectSpecialRegister = some .y → r.y = r'.y)
    (settings : r.settings = r'.settings) : selected i r = selected j r' := by
  have select := Instruction.of_operation Instruction.selectSpecialRegister (fun _ => rfl) same
  have rs1 := Instruction.of_operation Instruction.rs1 (fun _ => rfl) same
  have psr : r.getPsr = r'.getPsr := by
    change { r.settings with currWp := r.currWp }.getPsr =
      { r'.settings with currWp := r'.currWp }.getPsr
    rw [settings, currWp]
  have asr : r.settings.asr = r'.settings.asr := by rw [settings]
  have wim : r.settings.wim = r'.settings.wim := by rw [settings]
  have tbr : r.settings.tbr = r'.settings.tbr := by rw [settings]
  change r.asr = r'.asr at asr
  change r.wim = r'.wim at wim
  change r.tbr = r'.tbr at tbr
  simp only [selected, select, rs1, psr, asr, wim, tbr]
  split
  · rename_i reads
    rw [y reads]
  all_goals rfl

/-- A squashed pass whose register write is redirected. -/
theorem saves_of_redirect {ht squashed written : HwThread id} {rd : Nat} {address : Word}
    (third : writeRegs squashed = .ok written) (asks : squashed.inst.writeRegisters = true)
    (target : squashed.inst.rd = rd) (value : squashed.inst.aluResult = address)
    (operation : squashed.inst.operation = ht.inst.operation) (regs : squashed.regs = ht.regs)
    (specRegs : squashed.specRegs =
      { ht.specRegs with
        currWp := squashed.specRegs.currWp, dtStatus := squashed.specRegs.dtStatus })
    (et : ht.specRegs.et = true) :
    Saves ht (retire written) rd address ∧
      (retire written).specRegs = squashed.specRegs ∧
      (retire written).pc = squashed.pc ∧ (retire written).branchSlot = squashed.branchSlot ∧
      (retire written).inst = squashed.inst ∧
      (ht.inst.isRett = true → (retire written).trapped = .trapped) ∧
      (ht.inst.isRett = false → (retire written).trapped = squashed.trapped ∧
        (retire written).trapType = squashed.trapType) := by
  have write := writeRegs_eq asks third
  have still : written.specRegs.et = true := by
    rw [write]
    exact (congrArg SpecialReg.et specRegs).trans et
  have same : squashed.inst.isRett = ht.inst.isRett :=
    Instruction.of_operation Instruction.isRett (fun _ => rfl) operation
  obtain ⟨state, trapType, retired, returns, plain⟩ := retire_of_et still
  have inst : written.inst = squashed.inst := by
    rw [write]
    rfl
  rw [inst, same] at returns plain
  have stored : (retire written).specRegs = squashed.specRegs := by
    rw [retired, write]
    rfl
  refine ⟨⟨?_, by rw [stored]; exact specRegs⟩, stored, ?_, ?_, ?_, ?_, ?_⟩
  · have y : squashed.specRegs.y = ht.specRegs.y := by rw [specRegs]
    have settings : squashed.specRegs.settings = ht.specRegs.settings := by
      rw [specRegs]
      rfl
    have chosen : selected squashed.inst squashed.specRegs =
        selected ht.inst { ht.specRegs with currWp := squashed.specRegs.currWp } :=
      selected_eq operation rfl (fun _ => y) settings
    rw [stored, ← chosen, retired, write, ← regs, target, value]
    rfl
  · rw [retired, write]
    rfl
  · rw [retired, write]
    rfl
  · rw [retired]
    exact inst
  · intro rett
    rw [retired]
    exact returns rett
  · intro rett
    rw [retired]
    obtain ⟨trapped, type⟩ := plain rett
    rw [write] at trapped type
    exact ⟨trapped, type⟩

/-- The first pass of a trap opens a window and saves the program counter there. -/
theorem commit_firstPass {ht ht' : HwThread id} {syncNotStalled : Bool} {dma dma' : Dma}
    (et : ht.specRegs.et = true) (pending : ht.trapped = .trapped)
    (runs : commit ht syncNotStalled dma = .ok (ht', dma')) :
    dma' = dma ∧ Saves ht ht' 17 ht.pc ∧
      ht'.specRegs.currWp = (ht.specRegs.currWp + (-1)) % registerWindows ∧
      ht'.specRegs.dtStatus = ht.specRegs.dtStatus ∧
      ht'.pc = ht.pc ∧ ht'.branchSlot = ht.branchSlot ∧
      (ht.inst.isRett = true → ht'.trapped = .trapped) ∧
      (ht.inst.isRett = false → ht'.trapped = .trapped2 ∧ ht'.trapType = ht.trapType) := by
  have stops : squashes ht = true := by
    simp [squashes, HwThread.isTrapped, pending, et, ExceptionState.isTrapped]
  obtain ⟨rfl, squashed, written, first, third, rfl⟩ := commit_squashed stops runs
  have same : squashed = firstPass (unwritten ht) := by
    obtain ⟨goes, _⟩ | ⟨_, _, ⟨_, same⟩ | ⟨second, _⟩ | ⟨error, _⟩⟩ := handleExceptions_cases first
    · rw [stops] at goes
      cases goes
    · exact same
    · rw [pending] at second
      cases second
    · rw [pending] at error
      cases error
  rw [firstPass_eq] at same
  have specRegs : squashed.specRegs =
      { ht.specRegs with currWp := (ht.specRegs.currWp + (-1)) % registerWindows } := by
    rw [same]
    rfl
  obtain ⟨saves, stored, pc, slot, _, rett, plain⟩ :=
    @saves_of_redirect _ ht _ _ 17 ht.pc third (by rw [same]; rfl)
      (by rw [same]; rfl) (by rw [same]; rfl) (by rw [same]; rfl) (by rw [same]; rfl)
      (by rw [specRegs]) et
  refine ⟨rfl, saves, ?_, ?_, pc.trans ?_, slot.trans ?_, rett, fun never => ?_⟩
  · rw [stored, specRegs]
  · rw [stored, specRegs]
  · rw [same]
    rfl
  · rw [same]
    rfl
  · obtain ⟨trapped, trapType⟩ := plain never
    refine ⟨trapped.trans ?_, trapType.trans ?_⟩
    · rw [same]
    · rw [same]
      rfl

/-- The second pass saves the next program counter and enters the trap table. -/
theorem commit_secondPass {ht ht' : HwThread id} {syncNotStalled : Bool} {dma dma' : Dma}
    (et : ht.specRegs.et = true) (pending : ht.trapped = .trapped2)
    (runs : commit ht syncNotStalled dma = .ok (ht', dma')) :
    dma' = dma ∧ Saves ht ht' 18 (npc ht) ∧ ht'.specRegs.currWp = ht.specRegs.currWp ∧
      (∀ timer, ht'.specRegs.dtStatus timer =
        if ht.trapType = deadlineTrap timer then .unset else ht.specRegs.dtStatus timer) ∧
      ht'.pc = ht.specRegs.tbr ||| (trapOffset ht <<< 4) ∧ ht'.branchSlot = 0 ∧
      (ht.inst.isRett = true → ht'.trapped = .trapped) ∧
      (ht.inst.isRett = false → ht'.trapped = .normal) := by
  have stops : squashes ht = true := by
    simp [squashes, HwThread.isTrapped, pending, et, ExceptionState.isTrapped]
  obtain ⟨rfl, squashed, written, first, third, rfl⟩ := commit_squashed stops runs
  have same : squashed = afterTrap (unwritten ht) := by
    obtain ⟨goes, _⟩ | ⟨_, _, ⟨second, _⟩ | ⟨_, same⟩ | ⟨error, _⟩⟩ := handleExceptions_cases first
    · rw [stops] at goes
      cases goes
    · rw [pending] at second
      cases second
    · exact same
    · rw [pending] at error
      cases error
  have specRegs : squashed.specRegs =
      { ht.specRegs with
        dtStatus := fun timer =>
          if ht.trapType = deadlineTrap timer then .unset else ht.specRegs.dtStatus timer } := by
    rw [same]
    rfl
  obtain ⟨saves, stored, pc, slot, _, rett, plain⟩ :=
    @saves_of_redirect _ ht _ _ 18 (npc ht) third (by rw [same]; rfl)
      (by rw [same]; rfl) (by rw [same]; rfl) (by rw [same]; rfl) (by rw [same]; rfl)
      (by rw [specRegs]) et
  refine ⟨rfl, saves, ?_, fun timer => ?_, pc.trans ?_, slot.trans ?_, rett, fun never => ?_⟩
  · rw [stored, specRegs]
  · rw [stored, specRegs]
  · rw [same]
    rfl
  · rw [same]
    rfl
  · exact (plain never).1.trans (by rw [same]; rfl)

end ExceptStage

namespace Pass

open ExceptStage (reachesCommit squashes)

variable {p : Pass id σ}

theorem Valid.squashed (valid : p.Valid) (squashed : p.isSquashed = true) :
    ∃ ht syncNotStalled, p.finished = p.round.after .except ht ∧
      ExceptStage.commit (ExceptStage.arrive p.arrived) syncNotStalled p.round.dma =
        .ok (ht, p.dma) := by
  simp only [isSquashed, reachesCommit, Bool.and_eq_true, Bool.not_eq_true'] at squashed
  obtain ⟨⟨⟨⟨enabled, fetch⟩, dead⟩, memory⟩, _⟩ := squashed
  obtain ⟨ht, runs, finished⟩ := valid.except
  obtain ⟨syncNotStalled, _, committed⟩ :=
    (ExceptStage.behavior_of_free enabled fetch dead memory).mp runs
  exact ⟨ht, syncNotStalled, finished, committed⟩

end Pass

end PretIss
