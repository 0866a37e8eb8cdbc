import PretIss.Machine.Decoder
import PretIss.Transfer.Passes

/-! An instruction of the sequential machine in a pass: the latch that it has after the
register access, and the last stage taken apart, whatever it writes. -/

namespace PretIss

open Sparc (Settles)

variable {id : ThreadId} {σ : Type}

def SpecialReg.visible (r : SpecialReg) : SpecialReg :=
  { r.settings with currWp := r.currWp % registerWindows, y := r.y }

theorem Sparc.Settles.of_operation {i j : Instruction} (settles : Settles j)
    (single : i.dbWordInstruction = false) (same : i.operation = j.operation) : Settles i := by
  have view : ∀ {α : Type} (f : Instruction → α), (∀ i : Instruction, f i.operation = f i) →
      f i = f j := fun f blind => Instruction.of_operation f blind same
  have select := view Instruction.selectSpecialRegister fun _ => rfl
  exact ⟨(view Instruction.isRett fun _ => rfl).trans settles.isRett,
    single,
    fun multiplies => settles.aluop ((view Instruction.aluop fun _ => rfl).symm.trans multiplies),
    fun deadline => settles.waitless (select.symm.trans deadline),
    fun moves => settles.transferless (select.symm.trans moves)⟩

namespace ExceptStage

def linked (w : Word) (ht : HwThread id) : HwThread id := linkAddress (transferred w ht)

theorem transferred_cases (w : Word) (ht : HwThread id) :
    ∃ pc slot, transferred w ht = { writeIcc ht with pc := pc, branchSlot := slot } := by
  unfold transferred stepped
  split <;> exact ⟨_, _, rfl⟩

theorem linked_unchanged {α : Type} (view : HwThread id → α)
    (blind : ∀ (ht : HwThread id) pc slot aluResult,
      view { ht with
        pc := pc, branchSlot := slot, inst := { ht.inst with aluResult := aluResult } } = view ht)
    (w : Word) (ht : HwThread id) : view (linked w ht) = view (writeIcc ht) := by
  obtain ⟨pc, slot, moved⟩ := transferred_cases w ht
  rw [linked, moved, linkAddress]
  split
  · exact blind (writeIcc ht) pc slot _
  · exact blind (writeIcc ht) pc slot (writeIcc ht).inst.aluResult

theorem writeIcc_eq (ht : HwThread id) : ∃ icc,
    writeIcc ht = { ht with specRegs := { ht.specRegs with icc := icc } } ∧
      icc = if ht.inst.writeIcc then ht.inst.icc else ht.specRegs.icc := by
  unfold writeIcc
  split <;> exact ⟨_, rfl, rfl⟩

theorem linked_latch {α : Type} (view : Instruction → α)
    (blind : ∀ (i : Instruction) aluResult, view { i with aluResult := aluResult } = view i)
    (w : Word) (ht : HwThread id) : view (linked w ht).inst = view ht.inst := by
  rw [linked_unchanged (fun ht => view ht.inst) (fun ht _ _ _ => blind ht.inst _) w ht]
  obtain ⟨icc, same, _⟩ := writeIcc_eq ht
  rw [same]

theorem linked_aluResult {w : Word} {ht : HwThread id} (call : ht.inst.call = false)
    (jump : ht.inst.jump = false) : (linked w ht).inst.aluResult = ht.inst.aluResult := by
  obtain ⟨icc, same, _⟩ := writeIcc_eq ht
  obtain ⟨pc, slot, moved⟩ := transferred_cases w ht
  rw [linked, moved, same, linkAddress]
  simp [call, jump]

theorem linked_of_links {w : Word} {ht : HwThread id} (latched : Latched w ht.inst)
    (jumps : Sparc.links w = true) : (linked w ht).inst.aluResult = npc ht - 4 := by
  obtain ⟨target, delayed⟩ :=
    transfer_of_links jumps ht.specRegs.icc ht.pc ht.inst.aluResult
  have decodes := latched.decodes
  have asks : (ht.inst.jump || ht.inst.call) = true := by
    rw [decodes.jump, decodes.call]
    simp only [Sparc.links, Bool.or_eq_true] at jumps ⊢
    tauto
  simp only [linked, transferred, delayed, linkAddress, inst_stepped, asks, if_true]
  rfl

theorem commit_settled {w : Word} {ht last : HwThread id} {dma dma' : Dma}
    (latched : Latched w ht.inst) (settles : Settles ht.inst) (goes : squashes ht = false)
    (single : ht.dbWordStalled = false) (committed : commit ht true dma = .ok (last, dma')) :
    ∃ written final, writeRegs (linked w (untrapped ht)) = .ok written ∧
      writeSpecialRegs written dma = .ok (final, dma') ∧ last = counted final := by
  obtain ⟨squashed, handled, moved, written, final, first, second, third, fourth, rfl⟩ :=
    commit_eq_ok.mp committed
  rw [handleExceptions_eq goes] at first
  obtain ⟨rfl, rfl⟩ := Prod.mk.injEq .. ▸ Except.ok.inj first
  have whole : (untrapped ht).dbWordStalled = false := single
  have latch : Latched w (untrapped ht).inst := latched
  simp only [advance, whole, Bool.not_false, Bool.and_self, if_true, incPc_eq latch] at second
  obtain rfl := Except.ok.inj second
  refine ⟨written, final, third, fourth, ?_⟩
  have kept : final.inst.isRett = false := by
    rw [(writeSpecialRegs_frame fourth).1, writeRegs_frame third]
    exact (linked_latch Instruction.isRett (fun _ _ => rfl) w (untrapped ht)).trans settles.isRett
  rw [retire, kept]
  rfl

theorem writeRegs_cases {ht written : HwThread id} (runs : writeRegs ht = .ok written) :
    (ht.inst.writeRegisters = false ∧ written = ht) ∨
      (ht.inst.writeRegisters = true ∧ ∃ value,
        specialValue ht ht.inst.selectSpecialRegister = .ok value ∧
        written = ht.writeReg ht.inst.rd value) := by
  unfold writeRegs at runs
  cases writes : ht.inst.writeRegisters with
  | false =>
      rw [writes, if_neg Bool.false_ne_true] at runs
      exact Or.inl ⟨rfl, (Except.ok.inj runs).symm⟩
  | true =>
      rw [writes, if_pos rfl] at runs
      obtain ⟨value, reads, last⟩ := Transition.bind_eq_ok.mp runs
      exact Or.inr ⟨rfl, value, reads, (Except.ok.inj last).symm⟩

end ExceptStage

namespace Pass

open ExceptStage (reachesCommit squashes linked)

variable {p : Pass id σ}

structure Retires (p : Pass id σ) : Prop where
  valid : p.Valid
  coherent : p.start.Coherent
  commits : p.commits = true
  single : p.start.dbWordStalled = false
  ordinary : Sparc.Ordinary p.word = true

theorem Retires.runs (retires : p.Retires) : p.runs = true := by
  have commits := retires.commits
  simp only [Pass.commits, Bool.and_eq_true] at commits
  exact runs_of_reachesCommit (retires.valid.arrives retires.coherent.enabled) commits.1

theorem Retires.settles (retires : p.Retires) : Settles p.asked :=
  Sparc.settles_ofWord retires.ordinary

theorem Valid.whole (valid : p.Valid) (coherent : p.start.Coherent) (runs : p.runs = true)
    (single : p.start.dbWordStalled = false) (settles : Settles p.asked) :
    p.arrived.inst.dbWordInstruction = false ∧ p.arrived.dbWordStalled = false := by
  obtain ⟨waited, accessed⟩ := valid.accesses coherent.enabled runs
  have decoded : p.decoded.inst.dbWordInstruction = false := by
    have keeps := valid.decoded_latch coherent (by simpa [Pass.runs] using runs)
    exact keeps.dbWord.trans settles.dbWord
  constructor
  · rw [accessed.dbWord, decoded]
    rfl
  · rw [accessed.dbWordStalled, single]
    rfl

theorem Retires.whole (retires : p.Retires) : p.arrived.inst.dbWordInstruction = false ∧
    p.arrived.dbWordStalled = false :=
  retires.valid.whole retires.coherent retires.runs retires.single retires.settles

theorem Retires.latched (retires : p.Retires) : ExceptStage.Latched p.word p.arrived.inst :=
  retires.valid.latched retires.coherent retires.runs retires.whole.1 fun half => by
    rw [retires.single] at half
    cases half

theorem Retires.settled (retires : p.Retires) : Settles p.arrived.inst :=
  retires.settles.of_operation retires.whole.1
    (retires.valid.arrived_operation retires.coherent retires.runs)

theorem Retires.syncless (retires : p.Retires) : p.arrived.inst.syncInstruction = false :=
  (Instruction.of_operation Instruction.syncInstruction (fun _ => rfl)
    (retires.valid.arrived_operation retires.coherent retires.runs)).trans
      (Sparc.syncless_ofWord retires.ordinary)

theorem Retires.committed (retires : p.Retires) :
    ∃ written final, ExceptStage.writeRegs (linked p.word p.committing) = .ok written ∧
      ExceptStage.writeSpecialRegs written p.round.dma = .ok (final, p.dma) ∧
      p.finished = p.round.after .except (ExceptStage.counted final) := by
  have arrives := retires.valid.arrives retires.coherent.enabled
  have commits := retires.commits
  simp only [Pass.commits, Bool.and_eq_true, Bool.not_eq_true'] at commits
  obtain ⟨reaches, goes⟩ := commits
  obtain ⟨single, whole⟩ := retires.whole
  have latch : (ExceptStage.arrive p.arrived).inst = p.arrived.inst := ExceptStage.arrive_inst _
  have free : squashes (ExceptStage.arrive p.arrived) = false := by
    simpa [squashes, HwThread.isTrapped] using goes
  simp only [reachesCommit, Bool.and_eq_true, Bool.not_eq_true'] at reaches
  obtain ⟨⟨⟨enabled, fetch⟩, dead⟩, memory⟩ := reaches
  obtain ⟨ht, runs, finished⟩ := retires.valid.except
  obtain ⟨syncNotStalled, consulted, committed⟩ :=
    (ExceptStage.behavior_of_free enabled fetch dead memory).mp runs
  have table : ExceptStage.checkSync (ExceptStage.arrive p.arrived) p.round.syncTable =
      .ok (p.round.syncTable, true) := by
    simp [ExceptStage.checkSync, retires.syncless]
  rw [table] at consulted
  obtain ⟨_, rfl⟩ := Prod.mk.injEq .. ▸ Except.ok.inj consulted
  obtain ⟨written, final, third, fourth, rfl⟩ := ExceptStage.commit_settled
    (by rw [latch]; exact retires.latched) (by rw [latch]; exact retires.settled) free
    (by rw [ExceptStage.arrive_dbWordStalled, single, whole]; rfl) committed
  exact ⟨written, final, third, fourth, finished⟩

end Pass

end PretIss
