import PretIss.Thread.Control

/-! What the last stage does to a thread. A thread that reaches the commit either
retires its instruction or has it squashed by a pending trap, in one of two passes
that replace what the instruction would have written. -/

namespace PretIss.ExceptStage

variable {id : ThreadId}

def reachesCommit (ht : HwThread id) : Bool :=
  ht.enabled && !ht.fetchStalled && !ht.deadlineStalled && !ht.memoryStalled

def squashes (ht : HwThread id) : Bool := ht.isTrapped && ht.specRegs.et

def deadlineTrap (timer : Fin numDeadlineTimers) : BitVec 16 := 0x70 + BitVec.ofNat 16 timer.val

def takesTrap (ht : HwThread id) : Bool := squashes ht && ht.trapped == .trapped2

def setsTimer (ht : HwThread id) (timer : Fin numDeadlineTimers) : Bool :=
  !squashes ht && ht.inst.writeSpecialRegisters &&
    ht.inst.selectSpecialRegister == some .dt && ht.inst.rd == timer.val

def unwritten (ht : HwThread id) : HwThread id :=
  { ht with inst := { ht.inst with writeSpecialRegisters := false } }

theorem deadlineTrap_toNat (timer : Fin numDeadlineTimers) :
    (deadlineTrap timer).toNat = 0x70 + timer.val := by
  have bound : timer.val < 8 := timer.isLt
  rw [deadlineTrap, BitVec.toNat_add, BitVec.toNat_ofNat]
  change (0x70 + timer.val % 2 ^ 16) % 2 ^ 16 = _
  omega

theorem deadlineTrap_ne (timer : Fin numDeadlineTimers) :
    deadlineTrap timer ≠ 0x02 ∧ deadlineTrap timer ≠ 0x03 := by
  have number := deadlineTrap_toNat timer
  constructor <;> intro same <;> rw [same] at number <;> simp at number <;> omega

theorem deadlineTrap_injective : Function.Injective deadlineTrap := by
  intro first second same
  have same := congrArg BitVec.toNat same
  rw [deadlineTrap_toNat, deadlineTrap_toNat] at same
  exact Fin.ext (by omega)

theorem isNotDeadlineException_eq_false (trapType : BitVec 16) :
    isNotDeadlineException trapType = false := by
  cases found : isNotDeadlineException trapType with
  | false => rfl
  | true =>
      simp only [isNotDeadlineException, Bool.and_eq_true, BitVec.slt_iff_toInt_lt] at found
      have above : (0x7F : BitVec 16).toInt = 127 := rfl
      have below : (0x70 : BitVec 16).toInt = 112 := rfl
      omega

section

variable (ht : HwThread id) (increment : BitVec 16) (rd : Nat) (value : Word)

@[simp] theorem moveWindow_inst : (ht.moveWindow increment).inst = ht.inst := by rfl

@[simp] theorem moveWindow_dt : (ht.moveWindow increment).specRegs.dt = ht.specRegs.dt := by rfl

@[simp] theorem moveWindow_dtStatus :
    (ht.moveWindow increment).specRegs.dtStatus = ht.specRegs.dtStatus := by rfl

@[simp] theorem moveWindow_trapType : (ht.moveWindow increment).trapType = ht.trapType := by rfl

@[simp] theorem moveWindow_stalls :
    (ht.moveWindow increment).enabled = ht.enabled ∧
      (ht.moveWindow increment).fetchStalled = ht.fetchStalled ∧
      (ht.moveWindow increment).memoryStalled = ht.memoryStalled ∧
      (ht.moveWindow increment).deadlineStalled = ht.deadlineStalled ∧
      (ht.moveWindow increment).dbWordStalled = ht.dbWordStalled :=
  ⟨by rfl, by rfl, by rfl, by rfl, by rfl⟩

@[simp] theorem redirect_specRegs : (redirect ht rd value).specRegs = ht.specRegs := by rfl

@[simp] theorem redirect_trapType : (redirect ht rd value).trapType = ht.trapType := by rfl

@[simp] theorem redirect_inst :
    (redirect ht rd value).inst =
      { ht.inst with aluResult := value, rd := rd, writeRegisters := true } := by rfl

@[simp] theorem redirect_stalls :
    (redirect ht rd value).enabled = ht.enabled ∧
      (redirect ht rd value).fetchStalled = ht.fetchStalled ∧
      (redirect ht rd value).memoryStalled = ht.memoryStalled ∧
      (redirect ht rd value).deadlineStalled = ht.deadlineStalled ∧
      (redirect ht rd value).dbWordStalled = ht.dbWordStalled :=
  ⟨by rfl, by rfl, by rfl, by rfl, by rfl⟩

end

theorem firstPass_eq (ht : HwThread id) :
    firstPass ht = { redirect (ht.moveWindow (-1)) 17 ht.pc with trapped := .trapped2 } := by
  simp [firstPass, isNotDeadlineException_eq_false]

theorem trapOffset_toNat (ht : HwThread id) :
    (trapOffset ht).toNat =
      ht.trapType.toNat + if 0x8000 ≤ ht.trapType.toNat then 0xFFFF0000 else 0 := by
  have bound := ht.trapType.isLt
  rw [trapOffset, BitVec.toNat_signExtend, BitVec.toNat_setWidth, BitVec.msb_eq_decide,
    Nat.mod_eq_of_lt (by omega)]
  simp

/-- A deadline trap that is taken clears the status of its timer. -/
theorem clearStatus_eq {ht ht' : HwThread id} (runs : clearStatus ht = .ok ht') :
    ht' =
      { ht with
        specRegs :=
          { ht.specRegs with
            dtStatus := fun timer =>
              if ht.trapType = deadlineTrap timer then .unset
              else ht.specRegs.dtStatus timer } } := by
  have number := trapOffset_toNat ht
  have width := ht.trapType.isLt
  simp only [clearStatus, BitVec.le_def, BitVec.lt_def] at runs
  have low : (0x70 : Word).toNat = 0x70 := rfl
  have high : (0x79 : Word).toNat = 0x79 := rfl
  rw [low, high] at runs
  split at runs
  · rename_i range
    obtain ⟨specRegs, set, runs⟩ := Transition.bind_eq_ok.mp runs
    obtain ⟨dtStatus, stored, set⟩ := Transition.bind_eq_ok.mp set
    obtain rfl := Except.ok.inj set
    obtain rfl := Except.ok.inj runs
    simp only [arraySet] at stored
    split at stored
    · obtain rfl := Except.ok.inj stored
      congr 2
      funext timer
      have same : ht.trapType = deadlineTrap timer ↔
          timer.val = (trapOffset ht).toNat - 0x70 := by
        have bound : timer.val < 8 := timer.isLt
        constructor
        · intro trap
          have trap := congrArg BitVec.toNat trap
          rw [deadlineTrap_toNat] at trap
          rw [if_neg (by omega)] at number
          omega
        · intro index
          apply BitVec.eq_of_toNat_eq
          rw [deadlineTrap_toNat]
          split at number <;> omega
      rw [Function.update_apply]
      by_cases index : timer.val = (trapOffset ht).toNat - 0x70
      · rw [if_pos (Fin.ext (by simp only; omega)), if_pos (same.mpr index)]
      · rw [if_neg (fun equal => index (by have := congrArg Fin.val equal; simp only at this; omega)),
          if_neg (mt same.mp index)]
    · cases stored
  · rename_i range
    obtain rfl := Except.ok.inj runs
    have other : ∀ timer, ht.trapType ≠ deadlineTrap timer := by
      intro timer trap
      have bound : timer.val < 8 := timer.isLt
      have trap := congrArg BitVec.toNat trap
      rw [deadlineTrap_toNat] at trap
      rw [if_neg (by omega)] at number
      omega
    simp [other]

/-- The thread after the second pass. -/
def afterTrap (ht : HwThread id) : HwThread id :=
  { redirect ht 18 (npc ht) with
    trapped := .normal
    pc := ht.specRegs.tbr ||| (trapOffset ht <<< 4)
    branchSlot := 0
    specRegs :=
      { ht.specRegs with
        dtStatus := fun timer =>
          if ht.trapType = deadlineTrap timer then .unset else ht.specRegs.dtStatus timer } }

theorem secondPass_eq {ht ht' : HwThread id} (runs : secondPass ht = .ok ht') :
    ht' = afterTrap ht := by
  obtain ⟨cleared, clears, runs⟩ := Transition.bind_eq_ok.mp runs
  obtain rfl := Except.ok.inj runs
  obtain rfl := clearStatus_eq clears
  simp only [disableTraps, isNotDeadlineException_eq_false, Bool.false_eq_true, if_false]
  rfl

theorem handleExceptions_ite (ht : HwThread id) :
    handleExceptions ht =
      if squashes ht then
        if ht.trapped = .trapped then .ok (firstPass (unwritten ht), false)
        else if ht.trapped = .trapped2 then
          (secondPass (unwritten ht)).map fun squashed => (squashed, false)
        else .ok (unwritten ht, false)
      else .ok ({ ht with trapped := .normal }, true) := by
  by_cases pending : ht.isTrapped = true
  · by_cases enabled : ht.specRegs.et = true
    · simp only [handleExceptions, squashes, pending, enabled, Bool.and_self, Bool.not_true,
        Bool.false_eq_true, if_true, if_false]
      split
      · rename_i first
        rw [if_pos first]
        rfl
      · rename_i second
        rw [if_neg (by simp [second]), if_pos second]
        rfl
      · rename_i normal
        rw [if_neg (by simp [normal]), if_neg (by simp [normal])]
        rfl
      · rename_i error
        rw [if_neg (by simp [error]), if_neg (by simp [error])]
        rfl
    · simp only [handleExceptions, squashes, pending, enabled, Bool.and_false, Bool.not_true,
        Bool.not_false, Bool.false_eq_true, if_true, if_false]
  · have normal : ht.trapped = .normal := by
      rwa [Bool.not_eq_true, HwThread.isTrapped, ExceptionState.isTrapped_eq_false] at pending
    simp only [handleExceptions, squashes, pending, Bool.false_and, Bool.not_false,
      Bool.false_eq_true, if_true, if_false, ← normal]

/-- An instruction goes through, or is squashed in one of the two passes. -/
theorem handleExceptions_cases {ht ht' : HwThread id} {handled : Bool}
    (runs : handleExceptions ht = .ok (ht', handled)) :
    (squashes ht = false ∧ handled = true ∧ ht' = { ht with trapped := .normal }) ∨
      (squashes ht = true ∧ handled = false ∧
        ((ht.trapped = .trapped ∧ ht' = firstPass (unwritten ht)) ∨
          (ht.trapped = .trapped2 ∧ ht' = afterTrap (unwritten ht)) ∨
          (ht.trapped = .error ∧ ht' = unwritten ht))) := by
  simp only [handleExceptions] at runs
  cases pending : ht.isTrapped with
  | false =>
      simp only [pending, Bool.not_false, if_true, Except.ok.injEq, Prod.mk.injEq] at runs
      obtain ⟨rfl, rfl⟩ := runs
      have normal := (ExceptionState.isTrapped_eq_false _).mp pending
      exact Or.inl ⟨by simp [squashes, pending], rfl, by rw [← normal]⟩
  | true =>
      cases enabled : ht.specRegs.et with
      | false =>
          simp only [pending, enabled, Bool.not_true, Bool.false_eq_true, if_false, Bool.not_false,
            if_true, Except.ok.injEq, Prod.mk.injEq] at runs
          obtain ⟨rfl, rfl⟩ := runs
          exact Or.inl ⟨by simp [squashes, enabled], rfl, rfl⟩
      | true =>
          refine Or.inr ⟨by simp [squashes, pending, enabled], ?_⟩
          simp only [pending, enabled, Bool.not_true, Bool.false_eq_true, if_false] at runs
          split at runs
          · rename_i first
            simp only [Except.ok.injEq, Prod.mk.injEq] at runs
            exact ⟨runs.2.symm, Or.inl ⟨first, runs.1.symm⟩⟩
          · rename_i second
            obtain ⟨after, passes, runs⟩ := Transition.bind_eq_ok.mp runs
            simp only [pure, Except.pure, Except.ok.injEq, Prod.mk.injEq] at runs
            obtain ⟨rfl, rfl⟩ := runs
            exact ⟨rfl, Or.inr (Or.inl ⟨second, secondPass_eq passes⟩)⟩
          · rename_i normal
            rw [HwThread.isTrapped, show ht.trapped = .normal from normal] at pending
            cases pending
          · rename_i error
            simp only [Except.ok.injEq, Prod.mk.injEq] at runs
            exact ⟨runs.2.symm, Or.inr (Or.inr ⟨error, runs.1.symm⟩)⟩

def unmoved (ht : HwThread id) : HwThread id :=
  { ht with
    pc := 0
    branchSlot := 0
    specRegs := { ht.specRegs with icc := 0 }
    inst := { ht.inst with aluResult := 0 } }

theorem takeBranch_unmoved {ht ht' : HwThread id} (runs : takeBranch ht = .ok ht') :
    unmoved ht' = unmoved ht ∧ ht'.inst = ht.inst := by
  simp only [takeBranch] at runs
  split at runs
  · obtain ⟨offset, _, runs⟩ := Transition.bind_eq_ok.mp runs
    split at runs <;> obtain rfl := Except.ok.inj runs <;> exact ⟨rfl, rfl⟩
  · split at runs
    · obtain rfl := Except.ok.inj runs
      exact ⟨rfl, rfl⟩
    · split at runs <;> obtain rfl := Except.ok.inj runs <;> exact ⟨rfl, rfl⟩

theorem nextPc_unmoved (ht : HwThread id) :
    unmoved (nextPc (writeIcc ht)) = unmoved ht ∧ (nextPc (writeIcc ht)).inst = ht.inst := by
  unfold nextPc writeIcc
  split <;> split <;> first | exact ⟨rfl, rfl⟩ | split <;> exact ⟨rfl, rfl⟩

theorem advance_unmoved {ht ht' : HwThread id} {handled syncNotStalled : Bool}
    (runs : advance ht handled syncNotStalled = .ok ht') :
    unmoved ht' = unmoved ht ∧
      (ht.inst.jump = false → ht.inst.call = false → ht'.inst = ht.inst) := by
  simp only [advance] at runs
  split at runs
  · obtain ⟨taken, takes, runs⟩ := Transition.bind_eq_ok.mp runs
    obtain rfl := Except.ok.inj runs
    obtain ⟨moved, inst⟩ := takeBranch_unmoved takes
    obtain ⟨next, kept⟩ := nextPc_unmoved ht
    rw [kept] at inst
    have linked : unmoved (linkAddress taken) = unmoved taken := by
      unfold linkAddress
      split <;> rfl
    refine ⟨linked.trans (moved.trans next), fun jump call => ?_⟩
    simp [linkAddress, inst, jump, call]
  · obtain rfl := Except.ok.inj runs
    exact ⟨rfl, fun _ _ => rfl⟩

theorem writeRegs_frame {ht ht' : HwThread id} (runs : writeRegs ht = .ok ht') :
    ht' = { ht with regs := ht'.regs } := by
  simp only [writeRegs] at runs
  split at runs
  · obtain ⟨value, _, runs⟩ := Transition.bind_eq_ok.mp runs
    obtain rfl := Except.ok.inj runs
    rfl
  · obtain rfl := Except.ok.inj runs
    rfl

/-- A special register write touches no other part of the thread, and of the
timers only the one it loads. -/
theorem writeSpecialRegs_frame {ht ht' : HwThread id} {dma dma' : Dma}
    (runs : writeSpecialRegs ht dma = .ok (ht', dma')) :
    ht' = { ht with specRegs := ht'.specRegs } ∧
      ht'.specRegs.dtStatus = ht.specRegs.dtStatus ∧
      ∀ timer, ht'.specRegs.dt timer =
        if ht.inst.writeSpecialRegisters && ht.inst.selectSpecialRegister == some .dt &&
          ht.inst.rd == timer.val then ht.inst.aluResult else ht.specRegs.dt timer := by
  simp only [writeSpecialRegs] at runs
  cases writes : ht.inst.writeSpecialRegisters with
  | false =>
      simp only [writes, Bool.false_eq_true, if_false, Except.ok.injEq, Prod.mk.injEq] at runs
      obtain ⟨rfl, rfl⟩ := runs
      exact ⟨rfl, rfl, fun _ => by simp⟩
  | true =>
      simp only [writes, if_true] at runs
      split at runs
      case h_6 select =>
        obtain ⟨written, loads, runs⟩ := Transition.bind_eq_ok.mp runs
        simp only [pure, Except.pure, Except.ok.injEq, Prod.mk.injEq] at runs
        obtain ⟨rfl, rfl⟩ := runs
        simp only [writeDeadline] at loads
        split at loads
        · rename_i regular
          obtain rfl := Except.ok.inj loads
          refine ⟨rfl, rfl, fun timer => ?_⟩
          have own : timer = ⟨ht.inst.rd, regular⟩ ↔ ht.inst.rd = timer.val := by
            rw [Fin.ext_iff, eq_comm]
          simp only [SpecialReg.setDt, Function.update_apply, select, beq_self_eq_true,
            Bool.true_and, beq_iff_eq, own]
        · rename_i irregular
          obtain ⟨specRegs, loaded, loads⟩ := Transition.bind_eq_ok.mp loads
          obtain ⟨pllLoad, _, loaded⟩ := Transition.bind_eq_ok.mp loaded
          obtain rfl := Except.ok.inj loaded
          obtain rfl := Except.ok.inj loads
          refine ⟨rfl, rfl, fun timer => ?_⟩
          have other : (ht.inst.rd == timer.val) = false := by
            have bound := timer.isLt
            exact beq_eq_false_iff_ne.mpr (by omega)
          simp [other]
      case h_2 select =>
        obtain ⟨specRegs, stored, runs⟩ := Transition.bind_eq_ok.mp runs
        obtain ⟨asr, _, stored⟩ := Transition.bind_eq_ok.mp stored
        obtain rfl := Except.ok.inj stored
        simp only [pure, Except.pure, Except.ok.injEq, Prod.mk.injEq] at runs
        obtain ⟨rfl, rfl⟩ := runs
        exact ⟨rfl, rfl, fun _ => by simp [select]⟩
      all_goals
        rename_i select
        simp only [Except.ok.injEq, Prod.mk.injEq] at runs
        obtain ⟨rfl, rfl⟩ := runs
        exact ⟨rfl, rfl, fun _ => by simp [select, SpecialReg.setPsr]⟩

theorem retire_frame (ht : HwThread id) :
    (retire ht).inst = ht.inst ∧ (retire ht).enabled = ht.enabled ∧
      (retire ht).fetchStalled = ht.fetchStalled ∧
      (retire ht).memoryStalled = ht.memoryStalled ∧
      (retire ht).deadlineStalled = ht.deadlineStalled ∧
      (retire ht).dbWordStalled = ht.dbWordStalled ∧
      (retire ht).specRegs.dt = ht.specRegs.dt ∧
      (retire ht).specRegs.dtStatus = ht.specRegs.dtStatus := by
  simp only [retire, returnFromTrap]
  split
  · split
    · exact ⟨rfl, rfl, rfl, rfl, rfl, rfl, rfl, rfl⟩
    · split <;> exact ⟨rfl, rfl, rfl, rfl, rfl, rfl, rfl, rfl⟩
  · exact ⟨rfl, rfl, rfl, rfl, rfl, rfl, rfl, rfl⟩

theorem retire_trapped (ht : HwThread id) :
    ((retire ht).trapped = ht.trapped ∧ (retire ht).trapType = ht.trapType) ∨
      (ht.inst.isRett = true ∧ ((retire ht).trapType = 0x03 ∨ (retire ht).trapType = 0x02)) := by
  simp only [retire, returnFromTrap]
  split
  · rename_i rett
    split
    · exact Or.inr ⟨rett, Or.inl rfl⟩
    · split
      · exact Or.inr ⟨rett, Or.inr rfl⟩
      · exact Or.inl ⟨rfl, rfl⟩
  · exact Or.inl ⟨rfl, rfl⟩

/-- From a thread whose exceptions are handled to the end of the stage. -/
structure Retires (handled ht' : HwThread id) : Prop where
  enabled : ht'.enabled = handled.enabled
  fetchStalled : ht'.fetchStalled = handled.fetchStalled
  memoryStalled : ht'.memoryStalled = handled.memoryStalled
  deadlineStalled : ht'.deadlineStalled = handled.deadlineStalled
  dbWordStalled : ht'.dbWordStalled = handled.dbWordStalled
  operation : ht'.inst.operation = handled.inst.operation
  dbWord : ht'.inst.dbWordInstruction = handled.inst.dbWordInstruction
  dt : handled.inst.jump = false → handled.inst.call = false → ∀ timer,
    ht'.specRegs.dt timer =
      if handled.inst.writeSpecialRegisters && handled.inst.selectSpecialRegister == some .dt &&
        handled.inst.rd == timer.val then handled.inst.aluResult else handled.specRegs.dt timer
  keepsTimers : handled.inst.selectSpecialRegister ≠ some .dt →
    ht'.specRegs.dt = handled.specRegs.dt
  dtStatus : ht'.specRegs.dtStatus = handled.specRegs.dtStatus
  trap : (ht'.trapped = handled.trapped ∧ ht'.trapType = handled.trapType) ∨
    (handled.inst.isRett = true ∧ (ht'.trapType = 0x03 ∨ ht'.trapType = 0x02))

/-- The steps of a commit after the exceptions. -/
theorem commit_retires {ht ht' : HwThread id} {syncNotStalled : Bool} {dma dma' : Dma}
    (runs : commit ht syncNotStalled dma = .ok (ht', dma')) :
    ∃ squashed handled, handleExceptions ht = .ok (squashed, handled) ∧ Retires squashed ht' := by
  obtain ⟨squashed, handled, moved, written, last, first, second, third, fourth, rfl⟩ :=
    commit_eq_ok.mp runs
  refine ⟨squashed, handled, first, ?_⟩
  obtain ⟨unmoves, links⟩ := advance_unmoved second
  have registers := writeRegs_frame third
  obtain ⟨special, statuses, timers⟩ := writeSpecialRegs_frame fourth
  obtain ⟨inst, enabled, fetch, memory, dead, db, dt, status⟩ := retire_frame last
  have view : ∀ {α : Type} (f : HwThread id → α),
      (∀ (ht : HwThread id) regs specRegs,
        f { ht with regs := regs, specRegs := specRegs } = f ht) →
      (∀ ht, f (unmoved ht) = f ht) → f last = f squashed := by
    intro α f blind still
    rw [special, registers, ← still squashed, ← unmoves, still]
    exact blind moved _ _
  have loads : written.specRegs = moved.specRegs := by rw [registers]
  have same : written.inst = moved.inst := by rw [registers]
  have clocks : moved.specRegs.dt = squashed.specRegs.dt := by
    change (unmoved moved).specRegs.dt = (unmoved squashed).specRegs.dt
    rw [unmoves]
  refine
    { enabled := enabled.trans (view HwThread.enabled (fun _ _ _ => rfl) fun _ => rfl)
      fetchStalled := fetch.trans (view HwThread.fetchStalled (fun _ _ _ => rfl) fun _ => rfl)
      memoryStalled := memory.trans (view HwThread.memoryStalled (fun _ _ _ => rfl) fun _ => rfl)
      deadlineStalled := dead.trans (view HwThread.deadlineStalled (fun _ _ _ => rfl) fun _ => rfl)
      dbWordStalled := db.trans (view HwThread.dbWordStalled (fun _ _ _ => rfl) fun _ => rfl)
      operation := ?_, dbWord := ?_, dt := fun jump call timer => ?_, keepsTimers := fun other => ?_
      dtStatus := status.trans ?_, trap := ?_ }
  · rw [inst]
    exact view (fun ht => ht.inst.operation) (fun _ _ _ => rfl) fun _ => rfl
  · rw [inst]
    exact view (fun ht => ht.inst.dbWordInstruction) (fun _ _ _ => rfl) fun _ => rfl
  · rw [dt, timers, same, loads, links jump call, clocks]
  · rw [dt]
    funext timer
    have select : moved.inst.selectSpecialRegister = squashed.inst.selectSpecialRegister := by
      change (unmoved moved).inst.selectSpecialRegister = (unmoved squashed).inst.selectSpecialRegister
      rw [unmoves]
    rw [timers, same, loads, select, beq_eq_false_iff_ne.mpr other, clocks]
    simp
  · rw [statuses, loads]
    change (unmoved moved).specRegs.dtStatus = (unmoved squashed).specRegs.dtStatus
    rw [unmoves]
  · have trapped := view HwThread.trapped (fun _ _ _ => rfl) fun _ => rfl
    have trapType := view HwThread.trapType (fun _ _ _ => rfl) fun _ => rfl
    have rett := view (fun ht => ht.inst.isRett) (fun _ _ _ => rfl) fun _ => rfl
    rw [← trapped, ← trapType, ← rett]
    exact retire_trapped last

/-- What becomes of the stalls, the latch, the timers and the trap of a thread that
commits. -/
structure Commits (ht ht' : HwThread id) : Prop where
  enabled : ht'.enabled = ht.enabled
  fetchStalled : ht'.fetchStalled = ht.fetchStalled
  memoryStalled : ht'.memoryStalled = ht.memoryStalled
  deadlineStalled : ht'.deadlineStalled = ht.deadlineStalled
  dbWordStalled : ht'.dbWordStalled = ht.dbWordStalled
  operation : ht'.inst.operation = ht.inst.operation
  dbWord : ht'.inst.dbWordInstruction = ht.inst.dbWordInstruction
  dt : ht.inst.jump = false → ht.inst.call = false → ∀ timer, ht'.specRegs.dt timer =
    if setsTimer ht timer then ht.inst.aluResult else ht.specRegs.dt timer
  keepsTimers : ht.inst.selectSpecialRegister ≠ some .dt → ht'.specRegs.dt = ht.specRegs.dt
  dtStatus : ∀ timer, ht'.specRegs.dtStatus timer =
    if takesTrap ht = true ∧ ht.trapType = deadlineTrap timer then .unset
    else ht.specRegs.dtStatus timer
  trap : (ht'.trapType = ht.trapType ∧ (squashes ht = false → ht'.trapped = .normal) ∧
      (takesTrap ht = true → ht'.trapped = .normal)) ∨
    (ht.inst.isRett = true ∧ (ht'.trapType = 0x03 ∨ ht'.trapType = 0x02))

theorem handleExceptions_squashed {ht ht' : HwThread id} {handled : Bool}
    (stops : squashes ht = true) (runs : handleExceptions ht = .ok (ht', handled)) :
    ht'.inst.writeSpecialRegisters = false ∧ ht'.inst.operation = ht.inst.operation ∧
      ht'.inst.dbWordInstruction = ht.inst.dbWordInstruction ∧
      ht'.specRegs.dt = ht.specRegs.dt ∧ ht'.trapType = ht.trapType ∧
      (takesTrap ht = true → ht'.trapped = .normal) ∧
      ∀ timer, ht'.specRegs.dtStatus timer =
        if takesTrap ht = true ∧ ht.trapType = deadlineTrap timer then .unset
        else ht.specRegs.dtStatus timer := by
  obtain ⟨goes, _⟩ | ⟨_, _, ⟨trapped, rfl⟩ | ⟨trapped, rfl⟩ | ⟨trapped, rfl⟩⟩ :=
    handleExceptions_cases runs
  · simp [stops] at goes
  · have free : takesTrap ht = false := by simp [takesTrap, trapped]
    rw [firstPass_eq]
    simp [free, unwritten, Instruction.operation, Instruction.meaning]
  · simp [takesTrap, stops, trapped, afterTrap, unwritten, Instruction.operation,
      Instruction.meaning]
  · have free : takesTrap ht = false := by simp [takesTrap, trapped]
    simp [free, unwritten, Instruction.operation, Instruction.meaning]

theorem handleExceptions_stalls {ht ht' : HwThread id} {handled : Bool}
    (runs : handleExceptions ht = .ok (ht', handled)) :
    ht'.enabled = ht.enabled ∧ ht'.fetchStalled = ht.fetchStalled ∧
      ht'.memoryStalled = ht.memoryStalled ∧ ht'.deadlineStalled = ht.deadlineStalled ∧
      ht'.dbWordStalled = ht.dbWordStalled := by
  obtain ⟨_, _, rfl⟩ | ⟨_, _, ⟨_, rfl⟩ | ⟨_, rfl⟩ | ⟨_, rfl⟩⟩ := handleExceptions_cases runs
  · exact ⟨rfl, rfl, rfl, rfl, rfl⟩
  · simp [firstPass_eq, unwritten]
  · simp [afterTrap, unwritten]
  · exact ⟨rfl, rfl, rfl, rfl, rfl⟩

theorem commit_commits {ht ht' : HwThread id} {syncNotStalled : Bool} {dma dma' : Dma}
    (runs : commit ht syncNotStalled dma = .ok (ht', dma')) : Commits ht ht' := by
  obtain ⟨squashed, handled, first, retires⟩ := commit_retires runs
  have stalls : ht'.enabled = ht.enabled ∧ ht'.fetchStalled = ht.fetchStalled ∧
      ht'.memoryStalled = ht.memoryStalled ∧ ht'.deadlineStalled = ht.deadlineStalled ∧
      ht'.dbWordStalled = ht.dbWordStalled := by
    obtain ⟨enabled, fetch, memory, dead, db⟩ := handleExceptions_stalls first
    exact ⟨retires.enabled.trans enabled, retires.fetchStalled.trans fetch,
      retires.memoryStalled.trans memory, retires.deadlineStalled.trans dead,
      retires.dbWordStalled.trans db⟩
  obtain ⟨enabled, fetch, memory, dead, db⟩ := stalls
  cases stops : squashes ht with
  | false =>
      obtain ⟨_, _, rfl⟩ | ⟨stopped, _⟩ := handleExceptions_cases first
      · have free : takesTrap ht = false := by simp [takesTrap, stops]
        refine ⟨enabled, fetch, memory, dead, db, retires.operation, retires.dbWord,
          fun jump call timer => ?_, retires.keepsTimers, fun timer => ?_, ?_⟩
        · simpa [setsTimer, stops] using retires.dt jump call timer
        · simp [retires.dtStatus, free]
        · obtain ⟨trapped, trapType⟩ | rett := retires.trap
          · exact Or.inl ⟨trapType, fun _ => trapped, fun _ => trapped⟩
          · exact Or.inr rett
      · simp [stops] at stopped
  | true =>
      obtain ⟨special, operation, dbWord, dt, trapType, normal, status⟩ :=
        handleExceptions_squashed stops first
      have jump := Instruction.of_operation Instruction.jump (fun _ => rfl) operation
      have call := Instruction.of_operation Instruction.call (fun _ => rfl) operation
      have select :=
        Instruction.of_operation Instruction.selectSpecialRegister (fun _ => rfl) operation
      have rett := Instruction.of_operation Instruction.isRett (fun _ => rfl) operation
      refine ⟨enabled, fetch, memory, dead, db, retires.operation.trans operation,
        retires.dbWord.trans dbWord, fun _ _ timer => ?_, fun other => ?_, fun timer => ?_, ?_⟩
      · rw [retires.dt (by rw [jump]; assumption) (by rw [call]; assumption), special, dt]
        simp [setsTimer, stops]
      · rw [retires.keepsTimers (by rwa [select]), dt]
      · rw [retires.dtStatus, status]
      · obtain ⟨trapped, same⟩ | ⟨returns, other⟩ := retires.trap
        · exact Or.inl ⟨same.trans trapType, by simp [stops], fun taken =>
            trapped.trans (normal taken)⟩
        · exact Or.inr ⟨rett ▸ returns, other⟩

end PretIss.ExceptStage
