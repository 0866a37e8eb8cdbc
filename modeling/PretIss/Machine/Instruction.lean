import PretIss.Machine.Commit

/-! A pass of a thread against a step of the sequential machine. -/

namespace PretIss

open Sparc (State Ordinary)

variable {id : ThreadId} {σ : Type}

theorem Execute.inst_behavior {ht : HwThread id} (valid : ht.isNotValid = false)
    (plain : ht.inst.aluop ≠ .mul) :
    (behavior ht).inst = { ht.inst with
      aluResult := aluValue ht
      icc := if ht.inst.writeIcc then geticc { ht.inst with aluResult := aluValue ht }
        else ht.inst.icc } := by
  simp only [behavior, performAluOperations, valid, plain, Bool.false_eq_true, if_false]
  split <;> rfl

/-- What a program sees of its thread and of the memory. -/
def Sparc.stateOf (ht : HwThread id) (m : Contents) : State where
  counters := ExceptStage.counters ht
  regs := ht.regs
  special := ht.specRegs.visible
  memory := m

theorem Sparc.reg_stateOf (ht : HwThread id) (m : Contents) (r : BitVec 5) :
    (stateOf ht m).reg r = ht.readReg r.toNat :=
  ht.regs.getReg_mod r.toNat ht.specRegs.currWp

namespace Pass

open ExceptStage (linked)

variable {p : Pass id σ} {m : Contents}

/-- The state in which a pass begins. -/
abbrev before (p : Pass id σ) (m : Contents) : State := Sparc.stateOf p.start m

theorem operand1_before (p : Pass id σ) (m : Contents) :
    (p.before m).operand1 p.word = p.start.readReg p.asked.rs1 := by
  rw [State.operand1, Sparc.reg_stateOf, (Sparc.names_ofWord p.word).rs1]

theorem operand2_before (p : Pass id σ) (m : Contents) :
    (p.before m).operand2 p.word =
      if p.asked.useImm then p.asked.imm else p.start.readReg p.asked.rs2 := by
  obtain ⟨_, rs2, imm, useImm, _⟩ := Sparc.names_ofWord p.word
  rw [State.operand2, Sparc.reg_stateOf, rs2, imm, useImm]

theorem Valid.visible_arrived (valid : p.Valid) (coherent : p.start.Coherent)
    (runs : p.runs = true) (other : p.arrived.inst.aluop ≠ .mul) :
    p.arrived.specRegs.visible = { p.start.specRegs.visible with
      currWp := (p.start.specRegs.visible.currWp + p.asked.incrementWindowPointer) %
        registerWindows } := by
  obtain ⟨_, settings, window, operation⟩ := valid.carries coherent runs
  obtain ⟨accessed, arrived⟩ := valid.accessed_y coherent.enabled
  have aluop : p.accessed.inst.aluop ≠ .mul := by
    rw [← HwThread.of_control (fun ht => ht.inst.aluop) (fun _ => rfl) valid.arrived_control.1]
    exact other
  have y : p.arrived.specRegs.y = p.start.specRegs.y := by
    rw [arrived, Execute.y_behavior, if_neg fun multiplies => aluop multiplies.2.1, accessed]
  have wraps : ∀ a b : BitVec 16, (a + b) % registerWindows % registerWindows =
      (a % registerWindows + b) % registerWindows := by
    intro a b
    apply BitVec.eq_of_toNat_eq
    change (a.toNat + b.toNat) % 65536 % 32 % 32 = (a.toNat % 32 + b.toNat) % 65536 % 32
    omega
  rw [SpecialReg.visible, settings, y, window, wraps]
  rfl

theorem Retires.visible_arrived (retires : p.Retires) :
    p.arrived.specRegs.visible = { p.start.specRegs.visible with
      currWp := (p.start.specRegs.visible.currWp + p.asked.incrementWindowPointer) %
        registerWindows } :=
  retires.valid.visible_arrived retires.coherent retires.runs retires.settled.aluop

structure Fresh (p : Pass id σ) : Prop extends p.Retires where
  free : Fetch.isHeld p.start = false
  quiet : ¬ IsAccess p.word

theorem Fresh.accessed (fresh : p.Fresh) (m : Contents) :
    p.accessed.inst = { p.asked with
        op1Value := (p.before m).operand1 p.word
        op2Value := (p.before m).operand2 p.word
        op3Value := p.start.readReg p.asked.rd } ∧
      p.accessed.isNotValid = false := by
  have runs := fresh.toRetires.runs
  have decoded := fresh.valid.decoded_fresh fresh.coherent.enabled runs fresh.free
  obtain ⟨latch, valid⟩ := fresh.valid.accessed_inst fresh.coherent.enabled runs (by
    rw [decoded]
    exact fresh.toRetires.settles.waitless)
  refine ⟨?_, valid⟩
  have half : Regacc.secondHalf p.decoded = false := by
    rw [fresh.valid.second_half fresh.coherent runs fresh.toRetires.settles.waitless]
    exact fresh.single
  have reads : ∀ r, p.decoded.readReg r = p.start.readReg r := fun r =>
    (fresh.valid.ready fresh.coherent.enabled).unchanged (fun ht => ht.readReg r) (fun _ => rfl)
      fun _ => rfl
  have still : ∀ x : Word, x + 0 = x := BitVec.add_zero
  rw [latch, Regacc.operands, Regacc.destination, half, decoded]
  simp only [reads, Bool.false_eq_true, if_false, Bool.not_false, Bool.and_true, operand1_before,
    operand2_before, still]

theorem Fresh.reads (fresh : p.Fresh) :
    p.asked.readMemory = false ∧ p.asked.writeMemory = false := by
  have quiet := fresh.quiet
  simp only [IsAccess, not_or, Bool.not_eq_true] at quiet
  exact quiet

theorem Fresh.arrived (fresh : p.Fresh) : p.arrived.inst = { p.accessed.inst with
    aluResult := Execute.aluValue p.accessed
    icc := if p.accessed.inst.writeIcc then
        Execute.geticc { p.accessed.inst with aluResult := Execute.aluValue p.accessed }
      else p.accessed.inst.icc } := by
  obtain ⟨latch, valid⟩ := fresh.accessed ⟨fun _ => .create, .empty, .empty⟩
  obtain ⟨reads, writes⟩ := fresh.reads
  have aluop : p.accessed.inst.aluop ≠ .mul := by
    rw [latch]
    exact fresh.toRetires.settles.aluop
  rw [(fresh.valid.arrived_of_register (by rw [latch]; exact reads) (by rw [latch]; exact writes)).2,
    Round.inst_after, Round.inst_after, Execute.inst_behavior valid aluop]

theorem Fresh.carry (fresh : p.Fresh) (m : Contents) :
    p.accessed.specRegs.icc.getLsbD 0 = (p.before m).carry := by
  have settings := (fresh.valid.carries fresh.coherent fresh.toRetires.runs).settings
  have arrived : p.arrived.specRegs.settings.icc = p.start.specRegs.settings.icc := by rw [settings]
  have accessed := HwThread.of_control (fun ht => ht.specRegs.icc) (fun _ => rfl)
    fresh.valid.arrived_control.1
  exact congrArg (·.getLsbD 0) (accessed.symm.trans arrived)

abbrev writing (p : Pass id σ) : HwThread id := linked p.word p.committing

theorem writing_latch {α : Type} (p : Pass id σ) (view : Instruction → α)
    (blind : ∀ (i : Instruction) aluResult, view { i with aluResult := aluResult } = view i) :
    view p.writing.inst = view p.arrived.inst := by
  rw [ExceptStage.linked_latch view blind, p.committing_eq HwThread.inst fun _ _ _ _ => rfl]

theorem Retires.result (retires : p.Retires) (unlinked : Sparc.links p.word = false) :
    p.writing.inst.aluResult = p.arrived.inst.aluResult := by
  have latch := p.committing_eq HwThread.inst fun _ _ _ _ => rfl
  have decodes := retires.latched.decodes
  simp only [Sparc.links, Bool.or_eq_false_iff] at unlinked
  have rett := Sparc.isRett_of_ordinary retires.ordinary
  rw [ExceptStage.linked_aluResult, latch]
  · rw [latch, decodes.call, unlinked.1]
  · rw [latch, decodes.jump, unlinked.2, rett]
    rfl

theorem Retires.returnAddress (retires : p.Retires) (linked : Sparc.links p.word = true) :
    p.writing.inst.aluResult = ExceptStage.npc p.start - 4 := by
  have carried := retires.valid.carried retires.coherent.enabled
  have npc := p.committing_eq ExceptStage.npc fun _ _ _ _ => rfl
  rw [ExceptStage.linked_of_links (by
    rw [p.committing_eq HwThread.inst fun _ _ _ _ => rfl]
    exact retires.latched) linked, npc, ExceptStage.npc, ExceptStage.npc, carried.1, carried.2.1]

theorem Retires.visible_writing (retires : p.Retires) :
    p.writing.specRegs.visible = { p.start.specRegs.visible with
      currWp := (p.start.specRegs.visible.currWp + p.asked.incrementWindowPointer) %
        registerWindows
      icc := if p.asked.writeIcc then p.arrived.inst.icc else p.start.specRegs.visible.icc } := by
  have arrived := retires.visible_arrived
  have latch := p.committing_eq HwThread.inst fun _ _ _ _ => rfl
  have registers := p.committing_eq HwThread.specRegs fun _ _ _ _ => rfl
  have asks : p.arrived.inst.writeIcc = p.asked.writeIcc :=
    Instruction.of_operation Instruction.writeIcc (fun _ => rfl)
      (retires.valid.arrived_operation retires.coherent retires.runs)
  have unchanged := ExceptStage.linked_unchanged HwThread.specRegs (fun _ _ _ _ => rfl) p.word
    p.committing
  obtain ⟨icc, written, flags⟩ := ExceptStage.writeIcc_eq p.committing
  rw [unchanged, written]
  change { p.committing.specRegs.visible with icc := icc } = _
  rw [flags, registers, arrived, latch, asks]
  have same : p.arrived.specRegs.visible.icc = p.start.specRegs.visible.icc := by rw [arrived]
  rw [show p.arrived.specRegs.icc = p.start.specRegs.visible.icc from same]

end Pass

end PretIss
