import PretIss.Barrier.Accounting
import PretIss.Machine.Machines
import PretIss.Machine.Steady

/-! An instruction that waits at a barrier, as a step of the machines that share the table:
it changes the table, and if it passes the counters. -/

namespace PretIss

open Sparc (State Settles fields isSync meeting)
open ExceptStage (reachesCommit linked)

variable {id : ThreadId} {σ : Type}

theorem Sparc.decoded_of_sync {w : Word} (sync : isSync w = true) :
    (fields w).decodeOperation = { fields w with syncInstruction := true } :=
  decoded_of_arithmeticOp (beq_iff_eq.mp sync)

structure Instruction.Silent (i : Instruction) : Prop where
  writeRegisters : i.writeRegisters = false
  writeSpecialRegisters : i.writeSpecialRegisters = false
  writeIcc : i.writeIcc = false
  readMemory : i.readMemory = false
  writeMemory : i.writeMemory = false
  window : i.incrementWindowPointer = 0

theorem Sparc.silent_of_sync {w : Word} (sync : isSync w = true) :
    (Instruction.ofWord w).Silent := by
  have view : ∀ {α : Type} (f : Instruction → α),
      (∀ i : Instruction, f { i with writeRegisters := false } = f i) →
      f (Instruction.ofWord w) = f { fields w with syncInstruction := true } := fun f blind => by
    rw [of_fields w f blind, decoded_of_sync sync]
  refine ⟨?_, view _ fun _ => rfl, view _ fun _ => rfl, view _ fun _ => rfl, view _ fun _ => rfl,
    view _ fun _ => rfl⟩
  have quiet : (fields w).decodeOperation.writeRegisters = false := by
    rw [decoded_of_sync sync]
    rfl
  rw [Instruction.ofWord, Instruction.writeRegisters_decode]
  exact (congrArg (· && _) quiet).trans (Bool.false_and _)

theorem Sparc.settles_of_sync {w : Word} (sync : isSync w = true) :
    Settles (Instruction.ofWord w) := by
  apply Settles.ofWord
  rw [decoded_of_sync sync]
  refine ⟨rfl, rfl, ?_, ?_, ?_⟩ <;> intro same <;> cases same

theorem Sparc.quiet_of_sync {w : Word} (sync : isSync w = true) : ¬ IsAccess w := by
  have silent := silent_of_sync sync
  rw [IsAccess, silent.readMemory, silent.writeMemory]
  simp

namespace Pass

variable {p : Pass id σ}

/-- An instruction that waits at a barrier is fetched in this pass. -/
structure Meets (p : Pass id σ) : Prop where
  valid : p.Valid
  steady : p.start.Steady
  runs : p.runs = true
  free : Fetch.isHeld p.start = false
  sync : isSync p.word = true

theorem Meets.settles (meets : p.Meets) : Settles p.asked := Sparc.settles_of_sync meets.sync

theorem Meets.arrived (meets : p.Meets) : p.memory = p.round.memory ∧
    ∀ {α : Type} (view : Instruction → α),
      (∀ (i : Instruction) x y z rd double result icc, view { i with
        op1Value := x, op2Value := y, op3Value := z, rd := rd, dbWordInstruction := double
        aluResult := result, icc := icc } = view i) → view p.arrived.inst = view p.asked := by
  have coherent := meets.steady.coherent
  have silent := Sparc.silent_of_sync meets.sync
  have decoded := meets.valid.decoded_fresh coherent.enabled meets.runs meets.free
  obtain ⟨latch, valid⟩ := meets.valid.accessed_inst coherent.enabled meets.runs (by
    rw [decoded]
    exact meets.settles.waitless)
  have accessed : ∀ {α : Type} (view : Instruction → α),
      (∀ (i : Instruction) x y z rd double, view { i with
        op1Value := x, op2Value := y, op3Value := z, rd := rd
        dbWordInstruction := double } = view i) →
      view p.accessed.inst = view p.asked := fun view blind => by
    rw [latch, asked, ← decoded, Regacc.operands]
    exact blind p.decoded.inst _ _ _ _ _
  obtain ⟨memory, arrived⟩ := meets.valid.arrived_of_register
    ((accessed Instruction.readMemory fun _ _ _ _ _ _ => rfl).trans silent.readMemory)
    ((accessed Instruction.writeMemory fun _ _ _ _ _ _ => rfl).trans silent.writeMemory)
  have plain : p.accessed.inst.aluop ≠ .mul := by
    rw [accessed Instruction.aluop fun _ _ _ _ _ _ => rfl]
    exact meets.settles.aluop
  refine ⟨memory, fun view blind => ?_⟩
  rw [arrived, Round.inst_after, Round.inst_after, Execute.inst_behavior valid plain]
  exact (blind p.accessed.inst p.accessed.inst.op1Value p.accessed.inst.op2Value
    p.accessed.inst.op3Value p.accessed.inst.rd p.accessed.inst.dbWordInstruction _ _).trans
      (accessed view fun i x y z rd double => blind i x y z rd double i.aluResult i.icc)

theorem Meets.commits (meets : p.Meets) : p.commits = true ∧ p.finished.Steady ∧
    Fetch.isHeld p.finished = false := by
  obtain ⟨steady, ⟨commits, freed⟩ | ⟨_, access, _⟩⟩ :=
    Steady.present meets.valid meets.steady meets.runs meets.settles
  · exact ⟨commits, steady, freed⟩
  · exact absurd access (Sparc.quiet_of_sync meets.sync)

theorem Meets.consults (meets : p.Meets) : p.consults = true := by
  have reaches := meets.commits.1
  simp only [Pass.commits, Bool.and_eq_true] at reaches
  have sync : p.arrived.inst.syncInstruction = true := by
    rw [meets.arrived.2 Instruction.syncInstruction fun _ _ _ _ _ _ _ _ => rfl, asked,
      Sparc.of_fields p.word Instruction.syncInstruction fun _ => rfl,
      Sparc.decoded_of_sync meets.sync]
  rw [Pass.consults, reaches.1, sync]
  rfl

theorem Meets.consulted (meets : p.Meets) :
    p.round.syncTable.checkSyncTable (meeting p.word) id =
      .ok (p.syncTable, p.passesBarrier) := by
  have mask : p.barrier = meeting p.word := by
    rw [Pass.barrier, meets.arrived.2 Instruction.imm fun _ _ _ _ _ _ _ _ => rfl]
    exact congrArg (BitVec.setWidth 16) (Sparc.names_ofWord p.word).imm
  rw [← mask]
  exact meets.valid.consulted meets.steady.coherent.enabled meets.consults

/-- The last stage moves the counters at most. -/
theorem Meets.unchanged (meets : p.Meets) {α : Type} (view : HwThread id → α)
    (ticks : ∀ ht : HwThread id, view ht.pllTick = view ht)
    (blind : ∀ (ht : HwThread id) pc slot result cycles instr stalled state, view { ht with
      pc := pc, branchSlot := slot, inst := { ht.inst with aluResult := result }
      cntCycles := cycles, cntInstr := instr, dbWordStalled := stalled
      trapped := state } = view ht) : view p.finished = view p.arrived := by
  have arrives := meets.valid.arrives meets.steady.coherent.enabled
  have commits := meets.commits.1
  simp only [Pass.commits, reachesCommit, Bool.and_eq_true, Bool.not_eq_true'] at commits
  obtain ⟨⟨⟨⟨enabled, fetch⟩, dead⟩, memory⟩, goes⟩ := commits
  obtain ⟨ht, runs, finished⟩ := meets.valid.except
  obtain ⟨answer, _, committed⟩ := (ExceptStage.behavior_of_free enabled fetch dead memory).mp runs
  have latch : (ExceptStage.arrive p.arrived).inst = p.arrived.inst := ExceptStage.arrive_inst _
  have free : ExceptStage.squashes (ExceptStage.arrive p.arrived) = false := by
    simpa [ExceptStage.squashes, HwThread.isTrapped] using goes
  have silent := Sparc.silent_of_sync meets.sync
  have writes := (meets.arrived.2 Instruction.writeRegisters fun _ _ _ _ _ _ _ _ => rfl).trans
    silent.writeRegisters
  have special := (meets.arrived.2 Instruction.writeSpecialRegisters
    fun _ _ _ _ _ _ _ _ => rfl).trans silent.writeSpecialRegisters
  have flags := (meets.arrived.2 Instruction.writeIcc fun _ _ _ _ _ _ _ _ => rfl).trans
    silent.writeIcc
  have rett := (meets.arrived.2 Instruction.isRett fun _ _ _ _ _ _ _ _ => rfl).trans
    meets.settles.isRett
  obtain ⟨squashed, handled, moved, written, final, first, second, third, fourth, rfl⟩ :=
    ExceptStage.commit_eq_ok.mp committed
  rw [ExceptStage.handleExceptions_eq free] at first
  obtain ⟨rfl, rfl⟩ := Prod.mk.injEq .. ▸ Except.ok.inj first
  have latched : ExceptStage.Latched p.word
      (ExceptStage.untrapped (ExceptStage.arrive p.arrived)).inst := by
    obtain ⟨whole, _⟩ := meets.valid.whole meets.steady.coherent meets.runs meets.steady.single
      meets.settles
    change ExceptStage.Latched p.word (ExceptStage.arrive p.arrived).inst
    rw [latch]
    exact meets.valid.latched meets.steady.coherent meets.runs whole fun half => by
      rw [meets.steady.single] at half
      cases half
  have plain : (ExceptStage.untrapped (ExceptStage.arrive p.arrived)).inst.writeIcc = false :=
    (congrArg Instruction.writeIcc latch).trans flags
  -- Whether the counters move or not, nothing else does.
  have step : ∃ pc slot result, moved =
      { ExceptStage.untrapped (ExceptStage.arrive p.arrived) with
        pc := pc, branchSlot := slot
        inst := { (ExceptStage.arrive p.arrived).inst with aluResult := result } } := by
    unfold ExceptStage.advance at second
    split at second
    · rw [ExceptStage.incPc_eq latched] at second
      obtain rfl := Except.ok.inj second
      obtain ⟨pc, slot, transferred⟩ := ExceptStage.transferred_cases p.word
        (ExceptStage.untrapped (ExceptStage.arrive p.arrived))
      rw [transferred, ExceptStage.writeIcc, plain, if_neg Bool.false_ne_true,
        ExceptStage.linkAddress]
      split
      · exact ⟨pc, slot, _, rfl⟩
      · exact ⟨pc, slot, (ExceptStage.arrive p.arrived).inst.aluResult, rfl⟩
    · obtain rfl := Except.ok.inj second
      exact ⟨_, _, (ExceptStage.arrive p.arrived).inst.aluResult, rfl⟩
  obtain ⟨pc, slot, result, rfl⟩ := step
  obtain ⟨_, rfl⟩ | ⟨asks, _⟩ := ExceptStage.writeRegs_cases third
  · rw [ExceptStage.writeSpecialRegs] at fourth
    rw [if_neg (by simpa using special)] at fourth
    obtain ⟨rfl, _⟩ := Prod.mk.injEq .. ▸ Except.ok.inj fourth
    rw [finished, p.round.after_eq .except view ticks, ExceptStage.retire,
      if_neg (by simpa using rett)]
    obtain same | same := ExceptStage.arrive_cases p.arrived
    · rw [same]
      exact blind p.arrived _ _ _ _ _ _ _
    · rw [same]
      exact blind p.arrived _ _ _ _ _ _ _
  · exact absurd (asks.symm.trans ((congrArg Instruction.writeRegisters latch).trans writes))
      Bool.noConfusion

/-- What a program sees of it: the counters move if the table lets the thread pass. -/
theorem Meets.exec (meets : p.Meets) (m : Contents) : Sparc.stateOf p.finished m =
    { p.before m with
      counters := if p.passesBarrier then (p.before m).counters.next 4 .sequential
        else (p.before m).counters } := by
  have coherent := meets.steady.coherent
  have commits := meets.commits.1
  have consults := meets.consults
  obtain ⟨word, single⟩ := meets.valid.sync_single coherent consults
  have plain := Sparc.transfer_of_sync word p.arrived.specRegs.icc p.start.pc
    p.arrived.inst.aluResult
  have counters : ExceptStage.counters p.finished = if p.passesBarrier then
      (ExceptStage.counters p.start).next 4 .sequential else ExceptStage.counters p.start := by
    have sound : ExceptStage.Sound p.word p.arrived := by
      have none := (Sparc.transfer_of_sync word p.arrived.specRegs.icc p.arrived.pc
        p.arrived.inst.aluResult).1
      simp [ExceptStage.Sound, none]
    obtain ⟨answer, consulted, finished⟩ :=
      meets.valid.counters_committed coherent commits (fun _ => plain.2) sound
    have answered : p.passesBarrier = answer := by
      have sync : p.arrived.inst.syncInstruction = true := by
        simp only [Pass.consults, Bool.and_eq_true] at consults
        exact consults.2
      simp only [ExceptStage.checkSync, ExceptStage.arrive_inst, sync, if_true] at consulted
      have same := (meets.valid.consulted coherent.enabled consults).symm.trans consulted
      exact (Prod.mk.inj (Except.ok.inj same)).2
    rw [answered, finished, single, plain.1]
    rfl
  have regs : p.finished.regs = p.start.regs :=
    (meets.unchanged HwThread.regs (fun _ => rfl) fun _ _ _ _ _ _ _ _ => rfl).trans
      (meets.valid.carries coherent meets.runs).regs
  have special : p.finished.specRegs.visible = p.start.specRegs.visible := by
    have settings := meets.unchanged (fun ht => ht.specRegs.visible) (fun _ => rfl)
      fun _ _ _ _ _ _ _ _ => rfl
    have other : p.arrived.inst.aluop ≠ .mul := by
      rw [meets.arrived.2 Instruction.aluop fun _ _ _ _ _ _ _ _ => rfl]
      exact meets.settles.aluop
    have window := (Sparc.silent_of_sync meets.sync).window
    rw [settings, meets.valid.visible_arrived coherent meets.runs other, asked, window]
    have still : p.start.specRegs.visible.currWp + 0 = p.start.specRegs.visible.currWp :=
      BitVec.add_zero _
    rw [still]
    exact congrArg (fun w => { p.start.specRegs.visible with currWp := w })
      (Sparc.wrap_wrap p.start.specRegs.currWp)
  rw [Sparc.stateOf, counters, regs, special]
  rfl

end Pass

end PretIss
