import PretIss.Thread.Registers

/-! Instructions that neither transfer control nor touch a special register. The last
stage moves the program counter past them, writes their condition codes and stores
their result, and does nothing else. -/

namespace PretIss

variable {id : ThreadId} {σ : Type}

structure Instruction.Straight (i : Instruction) : Prop where
  call : i.call = false
  branch : i.branch = false
  jump : i.jump = false
  isRett : i.isRett = false
  sync : i.syncInstruction = false
  select : i.selectSpecialRegister = none
  window : i.incrementWindowPointer = 0

theorem Instruction.Straight.waitless {i : Instruction} (straight : i.Straight) :
    i.selectSpecialRegister ≠ some .dt := by
  simp [straight.select]

theorem Instruction.Straight.of_operation {i j : Instruction} (straight : j.Straight)
    (same : i.operation = j.operation) : i.Straight := by
  have view : ∀ {α : Type} (f : Instruction → α), (∀ i : Instruction, f i.operation = f i) →
      f i = f j := fun f blind => Instruction.of_operation f blind same
  exact ⟨(view Instruction.call fun _ => rfl).trans straight.call,
    (view Instruction.branch fun _ => rfl).trans straight.branch,
    (view Instruction.jump fun _ => rfl).trans straight.jump,
    (view Instruction.isRett fun _ => rfl).trans straight.isRett,
    (view Instruction.syncInstruction fun _ => rfl).trans straight.sync,
    (view Instruction.selectSpecialRegister fun _ => rfl).trans straight.select,
    (view Instruction.incrementWindowPointer fun _ => rfl).trans straight.window⟩

namespace ExceptStage

def advanced (ht : HwThread id) : HwThread id :=
  if ht.dbWordStalled then ht else nextPc (writeIcc ht)

def deposited (ht : HwThread id) : HwThread id :=
  if ht.inst.writeRegisters then ht.writeReg ht.inst.rd ht.inst.aluResult else ht

def untrapped (ht : HwThread id) : HwThread id := { ht with trapped := .normal }

def counted (ht : HwThread id) : HwThread id := { ht with cntInstr := ht.cntInstr + 1 }

def retired (ht : HwThread id) : HwThread id := counted (deposited (advanced (untrapped ht)))

theorem handleExceptions_eq {ht : HwThread id} (goes : squashes ht = false) :
    handleExceptions ht = .ok (untrapped ht, true) := by
  unfold handleExceptions untrapped
  cases pending : ht.isTrapped with
  | false =>
      have normal := (ExceptionState.isTrapped_eq_false _).mp pending
      rw [← normal]
      rfl
  | true =>
      have off : ht.specRegs.et = false := by simpa [squashes, pending] using goes
      simp [off]

theorem incPc_straight {ht : HwThread id} (straight : ht.inst.Straight) :
    incPc ht = .ok (nextPc (writeIcc ht)) := by
  have kept := (nextPc_unmoved ht).2
  simp [incPc, takeBranch, branchCheck, linkAddress, kept, straight.call, straight.branch,
    straight.jump, bind, Except.bind, pure, Except.pure]

theorem advance_straight {ht : HwThread id} (straight : ht.inst.Straight) :
    advance ht true true = .ok (advanced ht) := by
  unfold advance advanced
  rw [incPc_straight straight]
  cases ht.dbWordStalled <;> rfl

theorem writeRegs_straight {ht : HwThread id} (straight : ht.inst.Straight) :
    writeRegs ht = .ok (deposited ht) := by
  unfold writeRegs deposited
  rw [straight.select]
  split <;> rfl

theorem writeSpecialRegs_straight {ht : HwThread id} (straight : ht.inst.Straight) (dma : Dma) :
    writeSpecialRegs ht dma = .ok (ht, dma) := by
  unfold writeSpecialRegs
  rw [straight.select]
  split <;> rfl

theorem retire_straight {ht : HwThread id} (straight : ht.inst.Straight) :
    retire ht = counted ht := by
  simp [retire, counted, straight.isRett]

theorem advanced_inst (ht : HwThread id) : (advanced ht).inst = ht.inst := by
  unfold advanced
  split
  · rfl
  · exact (nextPc_unmoved ht).2

theorem deposited_inst (ht : HwThread id) : (deposited ht).inst = ht.inst := by
  unfold deposited
  split <;> rfl

theorem advanced_eq (ht : HwThread id) :
    ∃ pc slot icc, advanced ht =
      { ht with pc := pc, branchSlot := slot, specRegs := { ht.specRegs with icc := icc } } := by
  unfold advanced nextPc writeIcc
  split
  · exact ⟨_, _, _, rfl⟩
  · split <;> split <;> first | exact ⟨_, _, _, rfl⟩ | split <;> exact ⟨_, _, _, rfl⟩

theorem retired_unchanged {α : Type} (view : HwThread id → α)
    (blind : ∀ (ht : HwThread id) state pc slot icc regs count,
      view { ht with
        trapped := state, pc := pc, branchSlot := slot, specRegs := { ht.specRegs with icc := icc }
        regs := regs, cntInstr := count } = view ht)
    (ht : HwThread id) : view (retired ht) = view ht := by
  obtain ⟨pc, slot, icc, moved⟩ := advanced_eq (untrapped ht)
  have stored : ∃ regs, deposited (advanced (untrapped ht)) =
      { advanced (untrapped ht) with regs := regs } := by
    unfold deposited
    split <;> exact ⟨_, rfl⟩
  obtain ⟨regs, stored⟩ := stored
  rw [retired, counted, stored, moved]
  exact blind ht _ _ _ _ _ _

theorem deposited_specRegs (ht : HwThread id) : (counted (deposited ht)).specRegs = ht.specRegs := by
  unfold deposited
  split <;> rfl

theorem nextPc_specRegs (ht : HwThread id) : (nextPc ht).specRegs = ht.specRegs := by
  unfold nextPc
  split
  · split <;> rfl
  · rfl

theorem retired_icc {ht : HwThread id} (whole : ht.dbWordStalled = false) :
    (retired ht).specRegs.icc = if ht.inst.writeIcc then ht.inst.icc else ht.specRegs.icc := by
  have flag : (untrapped ht).dbWordStalled = false := whole
  have written : ∀ ht : HwThread id, (writeIcc ht).specRegs.icc =
      if ht.inst.writeIcc then ht.inst.icc else ht.specRegs.icc := by
    intro ht
    unfold writeIcc
    cases ht.inst.writeIcc <;> rfl
  rw [retired, deposited_specRegs, advanced, flag, if_neg Bool.false_ne_true, nextPc_specRegs,
    written]
  rfl

theorem retired_specRegs {ht : HwThread id} (silent : ht.inst.writeIcc = false) :
    (retired ht).specRegs = ht.specRegs := by
  have unwritten : writeIcc (untrapped ht) = untrapped ht := by
    rw [writeIcc, show (untrapped ht).inst.writeIcc = false from silent, if_neg Bool.false_ne_true]
  rw [retired, deposited_specRegs, advanced, unwritten]
  split
  · rfl
  · rw [nextPc_specRegs]
    rfl

theorem deposited_counters (ht : HwThread id) :
    (counted (deposited ht)).pc = ht.pc ∧ (counted (deposited ht)).branchSlot = ht.branchSlot := by
  unfold deposited
  split <;> exact ⟨rfl, rfl⟩

theorem retired_half {ht : HwThread id} (half : ht.dbWordStalled = true) :
    (retired ht).pc = ht.pc ∧ (retired ht).branchSlot = ht.branchSlot := by
  have flag : (untrapped ht).dbWordStalled = true := half
  rw [retired, advanced, flag, if_pos rfl]
  exact deposited_counters (untrapped ht)

theorem retired_whole {ht : HwThread id} (whole : ht.dbWordStalled = false)
    (single : ht.inst.dbWordInstruction = false) :
    (retired ht).pc = npc ht ∧ (retired ht).branchSlot = 0 := by
  have moves : ∀ ht : HwThread id, ht.inst.dbWordInstruction = false →
      (nextPc ht).pc = npc ht ∧ (nextPc ht).branchSlot = 0 := by
    intro ht single
    unfold nextPc npc
    by_cases delayed : ht.branchSlot ≠ 0
    · simp only [if_pos delayed, single, Bool.not_false, if_true, and_self]
    · simp only [if_neg delayed, true_and]
      exact not_not.mp delayed
  have flag : (untrapped ht).dbWordStalled = false := whole
  have written : npc (writeIcc (untrapped ht)) = npc ht ∧
      (writeIcc (untrapped ht)).inst = ht.inst := by
    unfold writeIcc
    split <;> exact ⟨rfl, rfl⟩
  obtain ⟨pc, slot⟩ := moves (writeIcc (untrapped ht)) (by rw [written.2, single])
  rw [retired, advanced, flag, if_neg Bool.false_ne_true]
  exact ⟨(deposited_counters _).1.trans (pc.trans written.1), (deposited_counters _).2.trans slot⟩

theorem retired_regs (ht : HwThread id) :
    (retired ht).regs =
      if ht.inst.writeRegisters then
        ht.regs.setReg ht.inst.rd ht.inst.aluResult ht.specRegs.currWp
      else ht.regs := by
  obtain ⟨pc, slot, icc, moved⟩ := advanced_eq (untrapped ht)
  rw [retired, counted, moved, deposited]
  change (if ht.inst.writeRegisters then _ else _ : HwThread id).regs = _
  cases ht.inst.writeRegisters <;> rfl

theorem commit_straight {ht : HwThread id} (straight : ht.inst.Straight)
    (goes : squashes ht = false) (dma : Dma) : commit ht true dma = .ok (retired ht, dma) := by
  have handled : (untrapped ht).inst.Straight := straight
  have moved : (advanced (untrapped ht)).inst.Straight := by
    rw [advanced_inst]
    exact straight
  have stored : (deposited (advanced (untrapped ht))).inst.Straight := by
    rw [deposited_inst]
    exact moved
  refine commit_eq_ok.mpr ⟨_, true, _, _, _, handleExceptions_eq goes, advance_straight handled,
    writeRegs_straight moved, writeSpecialRegs_straight stored dma, ?_⟩
  rw [retire_straight stored, retired]

theorem checkSync_straight {ht : HwThread id} (straight : ht.inst.Straight)
    (syncTable : SyncTable) : checkSync ht syncTable = .ok (syncTable, true) := by
  simp [checkSync, straight.sync]

end ExceptStage

namespace Pass

open ExceptStage (reachesCommit squashes)

variable {p : Pass id σ}

theorem Valid.straight (valid : p.Valid) (coherent : p.start.Coherent) (commits : p.commits = true)
    (straight : (Instruction.ofWord p.word).Straight) :
    p.finished = p.round.after .except (ExceptStage.retired (ExceptStage.arrive p.arrived)) ∧
      p.syncTable = p.round.syncTable ∧ p.dma = p.round.dma := by
  have arrives := valid.arrives coherent.enabled
  simp only [Pass.commits, Bool.and_eq_true, Bool.not_eq_true'] at commits
  obtain ⟨reaches, goes⟩ := commits
  have present := runs_of_reachesCommit arrives reaches
  have latch : (ExceptStage.arrive p.arrived).inst.Straight := by
    rw [ExceptStage.arrive_inst]
    exact straight.of_operation (valid.arrived_operation coherent present)
  have free : squashes (ExceptStage.arrive p.arrived) = false := by
    simpa [squashes, HwThread.isTrapped] using goes
  simp only [reachesCommit, Bool.and_eq_true, Bool.not_eq_true'] at reaches
  obtain ⟨⟨⟨enabled, fetch⟩, dead⟩, memory⟩ := reaches
  obtain ⟨ht, runs, finished⟩ := valid.except
  obtain ⟨syncNotStalled, consulted, committed⟩ :=
    (ExceptStage.behavior_of_free enabled fetch dead memory).mp runs
  rw [ExceptStage.checkSync_straight latch] at consulted
  obtain ⟨table, rfl⟩ := Prod.mk.injEq .. ▸ Except.ok.inj consulted
  rw [ExceptStage.commit_straight latch free] at committed
  obtain ⟨rfl, dma⟩ := Prod.mk.injEq .. ▸ Except.ok.inj committed
  exact ⟨finished, table.symm, dma.symm⟩

end Pass

end PretIss
