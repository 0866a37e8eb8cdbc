import PretIss.Arithmetic.Compare
import PretIss.Library.Relational
import PretIss.Model.Equality
import PretIss.Pipeline.Calls

/-! Threads that the comparison calls equal. They may differ in their counters and in four
other fields, and they run alike as long as no stage reads one of these. -/

namespace PretIss

variable {id : ThreadId} {σ : Type}

structure Omitted where
  cntCycles : BitVec 32
  cntInstr : BitVec 32
  dbWordStalled : Bool
  impVer : BitVec 8
  dtStatus : Fin numDeadlineTimers → DtStatus
  incrementWindowPointer : BitVec 16

namespace HwThread

def omitted (ht : HwThread id) : Omitted where
  cntCycles := ht.cntCycles
  cntInstr := ht.cntInstr
  dbWordStalled := ht.dbWordStalled
  impVer := ht.specRegs.impVer
  dtStatus := ht.specRegs.dtStatus
  incrementWindowPointer := ht.inst.incrementWindowPointer

def withOmitted (o : Omitted) (ht : HwThread id) : HwThread id :=
  { ht with
    cntCycles := o.cntCycles
    cntInstr := o.cntInstr
    dbWordStalled := o.dbWordStalled
    specRegs := { ht.specRegs with impVer := o.impVer, dtStatus := o.dtStatus }
    inst := { ht.inst with incrementWindowPointer := o.incrementWindowPointer } }

end HwThread

open HwThread (withOmitted)

theorem Instruction.equals_iff {i j : Instruction} :
    i.equals j = true ↔ j = { i with incrementWindowPointer := j.incrementWindowPointer } := by
  cases i
  cases j
  simp only [equals, Bool.and_eq_true, beq_iff_eq, Instruction.mk.injEq]
  tauto

theorem SpecialReg.equals_iff {r q : SpecialReg} :
    r.equals q = true ↔ q = { r with impVer := q.impVer, dtStatus := q.dtStatus } := by
  cases r
  cases q
  simp only [equals, Bool.and_eq_true, beq_iff_eq, decide_eq_true_eq, SpecialReg.mk.injEq, forall_and, ← funext_iff]
  tauto

theorem RegisterFile.equals_iff {r q : RegisterFile} : r.equals q = true ↔ q = r := by
  cases r
  cases q
  simp only [equals, Bool.and_eq_true, decide_eq_true_eq, RegisterFile.mk.injEq, ← funext_iff]
  tauto

theorem HwThread.equals_iff {a b : HwThread id} :
    a.equals b = true ↔ b = a.withOmitted b.omitted := by
  obtain ⟨⟩ := a
  obtain ⟨⟩ := b
  simp only [equals, Bool.and_eq_true, beq_iff_eq, Instruction.equals_iff, SpecialReg.equals_iff,
    RegisterFile.equals_iff, withOmitted, omitted, HwThread.mk.injEq]
  tauto

def Alike (a b : HwThread id) : Prop := ∃ o, b = a.withOmitted o

theorem HwThread.equals_iff_alike {a b : HwThread id} : a.equals b = true ↔ Alike a b := by
  rw [equals_iff]
  refine ⟨fun same => ⟨_, same⟩, ?_⟩
  rintro ⟨o, rfl⟩
  rfl

theorem Alike.of_eq {a b : HwThread id} (same : b = a.withOmitted b.omitted) : Alike a b :=
  ⟨b.omitted, same⟩

def AlikeIn {β : Type} (r s : HwThread id × β) : Prop := Alike r.1 s.1 ∧ r.2 = s.2

open Relational (Lifts)

section Stages

variable {a b : HwThread id}

theorem Fetch.alike (alike : Alike a b) (instructionMemory : FetchStageIf σ) (memory : σ) :
    Lifts AlikeIn (behavior instructionMemory a memory) (behavior instructionMemory b memory) := by
  obtain ⟨o, rfl⟩ := alike
  have enabled : (a.withOmitted o).enabled = a.enabled := rfl
  have held : isHeld (a.withOmitted o) = isHeld a := rfl
  have pc : (a.withOmitted o).pc = a.pc := rfl
  simp only [behavior, enabled, held, pc]
  cases a.enabled with
  | false => exact .ok ⟨⟨o, rfl⟩, rfl⟩
  | true =>
    cases isHeld a with
    | true => exact .ok ⟨.of_eq rfl, rfl⟩
    | false =>
      refine Lifts.bind (Lifts.refl (fun _ => rfl) _) ?_
      rintro found _ rfl
      have ends : (receive (countDown (a.withOmitted o)) found.2.1 found.2.2).inst.checkEndSim =
          (receive (countDown a) found.2.1 found.2.2).inst.checkEndSim := rfl
      simp only [ends]
      cases (receive (countDown a) found.2.1 found.2.2).inst.checkEndSim with
      | true => exact .error _
      | false => exact .ok ⟨.of_eq rfl, rfl⟩

theorem Instruction.decodeOperation_withIncrement (i : Instruction) (w : BitVec 16) :
    ∃ w', ({ i with incrementWindowPointer := w }).decodeOperation =
      { i.decodeOperation with incrementWindowPointer := w' } := by
  simp only [decodeOperation]
  cases Op1.ofCode i.op1 with
  | none => exact ⟨w, rfl⟩
  | some op =>
    cases op with
    | call => exact ⟨w, rfl⟩
    | sethiBranches =>
      simp only
      cases Op2.ofCode i.op2 with
      | none => exact ⟨w, rfl⟩
      | some op2 => cases op2 <;> exact ⟨w, rfl⟩
    | memory =>
      simp only
      cases Op3Memory.ofCode i.op3 with
      | none => exact ⟨w, rfl⟩
      | some op3 => cases op3 <;> exact ⟨w, rfl⟩
    | arithmeticEtc =>
      simp only
      cases Op3Arithmetic.ofCode i.op3 with
      | none => exact ⟨w, rfl⟩
      | some op3 => cases op3 <;> exact ⟨_, rfl⟩

theorem Instruction.decode_withIncrement (i : Instruction) (w : BitVec 16) :
    ∃ w', ({ i with incrementWindowPointer := w }).decode =
      { i.decode with incrementWindowPointer := w' } := by
  obtain ⟨w', same⟩ := i.decodeFields.decodeOperation_withIncrement w
  refine ⟨w', ?_⟩
  have fields : ({ i with incrementWindowPointer := w }).decodeFields =
      { i.decodeFields with incrementWindowPointer := w } := rfl
  simp only [decode, fields, same]
  split <;> rfl

theorem Decode.alike (alike : Alike a b) : Alike (behavior a) (behavior b) := by
  obtain ⟨o, rfl⟩ := alike
  have valid : (a.withOmitted o).isNotValid = a.isNotValid := rfl
  rw [behavior, behavior, valid]
  cases a.isNotValid with
  | true => exact ⟨o, rfl⟩
  | false =>
    obtain ⟨w, same⟩ := a.inst.decode_withIncrement o.incrementWindowPointer
    refine ⟨{ o with incrementWindowPointer := w }, ?_⟩
    change { a.withOmitted o with
      inst := ({ a.inst with incrementWindowPointer := o.incrementWindowPointer }).decode } = _
    rw [same]
    rfl

theorem Execute.aluValue_withOmitted (o : Omitted) (a : HwThread id) :
    aluValue (a.withOmitted o) = aluValue a := by
  have carry : (a.withOmitted o).specRegs.getCarryBit = a.specRegs.getCarryBit := by
    rw [SpecialReg.getCarryBit_eq, SpecialReg.getCarryBit_eq]
    rfl
  simp only [aluValue, carry]
  rfl

theorem Execute.alike (alike : Alike a b) : Alike (behavior a) (behavior b) := by
  obtain ⟨o, rfl⟩ := alike
  refine ⟨o, ?_⟩
  have coded : ∀ ht : HwThread id,
      (if (ht.withOmitted o).inst.writeIcc then
          { ht.withOmitted o with
            inst := { (ht.withOmitted o).inst with icc := geticc (ht.withOmitted o).inst } }
        else ht.withOmitted o) =
      withOmitted o
        (if ht.inst.writeIcc then { ht with inst := { ht.inst with icc := geticc ht.inst } }
        else ht) := by
    intro ht
    rw [apply_ite (withOmitted o)]
    rfl
  have valid : (a.withOmitted o).isNotValid = a.isNotValid := rfl
  have aluop : (a.withOmitted o).inst.aluop = a.inst.aluop := rfl
  have signs : (a.withOmitted o).inst.signedMultiply = a.inst.signedMultiply := rfl
  rw [behavior, behavior, valid, apply_ite (withOmitted o)]
  congr 1
  rw [performAluOperations, performAluOperations, aluop, signs, aluValue_withOmitted]
  by_cases multiply : a.inst.aluop = .mul
  · cases signed : a.inst.signedMultiply with
    | true =>
      simp only [if_pos multiply, if_true]
      exact coded (multiplyStep a)
    | false =>
      simp only [if_pos multiply, Bool.false_eq_true, if_false]
      exact coded a
  · simp only [if_neg multiply]
    exact coded { a with inst := { a.inst with aluResult := aluValue a } }

theorem Instruction.readData_withIncrement (i : Instruction) (w : BitVec 16) (dataIn : Word)
    (offset : Nat) :
    ({ i with incrementWindowPointer := w }).readData dataIn offset =
      { i.readData dataIn offset with incrementWindowPointer := w } := by
  simp only [readData]
  cases i.memorySize <;> rfl

theorem Mem.alike (alike : Alike a b) (dataMem : MemStageIf σ) (memory : σ) :
    Lifts AlikeIn (behavior dataMem a memory) (behavior dataMem b memory) := by
  obtain ⟨o, rfl⟩ := alike
  have valid : (a.withOmitted o).isNotValid = a.isNotValid := rfl
  have reads : (a.withOmitted o).inst.readMemory = a.inst.readMemory := rfl
  have writes : (a.withOmitted o).inst.writeMemory = a.inst.writeMemory := rfl
  simp only [behavior, valid, reads, writes]
  cases a.isNotValid with
  | true => exact .ok ⟨⟨o, rfl⟩, rfl⟩
  | false =>
    cases a.inst.readMemory with
    | true =>
      refine Lifts.bind (Lifts.refl (fun _ => rfl) _) ?_
      rintro ⟨memory', bits, stall⟩ _ rfl
      cases stall with
      | true => exact .ok ⟨.of_eq rfl, rfl⟩
      | false =>
        refine .ok ⟨⟨o, ?_⟩, rfl⟩
        have taken := a.inst.readData_withIncrement o.incrementWindowPointer bits
          (addrOffset a.inst.aluResult)
        change { a.withOmitted o with
          memoryStalled := false
          inst :=
            ({ a.inst with incrementWindowPointer := o.incrementWindowPointer }).readData bits
              (addrOffset a.inst.aluResult) } = _
        rw [taken]
        rfl
    | false =>
      cases a.inst.writeMemory with
      | false => exact .ok ⟨⟨o, rfl⟩, rfl⟩
      | true =>
        change Lifts AlikeIn (store dataMem a memory) (store dataMem (a.withOmitted o) memory)
        have result : (a.withOmitted o).inst.aluResult = a.inst.aluResult := rfl
        have size : (a.withOmitted o).inst.memorySize = a.inst.memorySize := rfl
        have data : ∀ oldData offset, (a.withOmitted o).inst.getWriteData oldData offset =
            a.inst.getWriteData oldData offset := fun _ _ => rfl
        simp only [store, result, size, data, pure_bind]
        split
        · refine Lifts.bind (Lifts.refl (fun _ => rfl) _) ?_
          rintro read _ rfl
          refine Lifts.bind (Lifts.refl (fun _ => rfl) _) ?_
          rintro ⟨memory', stall⟩ _ rfl
          exact .ok ⟨.of_eq rfl, rfl⟩
        · refine Lifts.bind (Lifts.refl (fun _ => rfl) _) ?_
          rintro ⟨memory', stall⟩ _ rfl
          exact .ok ⟨.of_eq rfl, rfl⟩

namespace Regacc

def waits (ht : HwThread id) : Bool :=
  match deadlineInstruction ht with
  | .ok waited => waited.deadlineStalled
  | .error _ => true

def reported (ht : HwThread id) : Option (Fin numDeadlineTimers) :=
  { ht.specRegs with
    dtStatus := fun timer =>
      if reloads ht timer then if deadbranch ht.inst then .set else .unset
      else ht.specRegs.dtStatus timer }.missedDeadline

/-- The stage finds the threads the same in what it reads and the comparison leaves out. -/
structure ReadsSame (a b : HwThread id) : Prop where
  increment : a.inst.incrementWindowPointer = b.inst.incrementWindowPointer
  dbWordStalled : waits a = false → a.dbWordStalled = b.dbWordStalled
  reported : a.isTrapped = false → reported a = reported b

theorem missedDeadline_waited {ht waited : HwThread id}
    (runs : deadlineInstruction ht = .ok waited) :
    waited.specRegs.missedDeadline = reported ht := by
  have statuses := funext (status_deadlineInstruction runs)
  simp only [SpecialReg.missedDeadline, reported, statuses]

theorem deadlineInstruction_alike (alike : Alike a b) :
    Lifts Alike (deadlineInstruction a) (deadlineInstruction b) := by
  obtain ⟨o, rfl⟩ := alike
  have select : (a.withOmitted o).inst.selectSpecialRegister = a.inst.selectSpecialRegister := rfl
  have rd : (a.withOmitted o).inst.rd = a.inst.rd := rfl
  simp only [deadlineInstruction, select, rd]
  split
  · split
    · rename_i regular
      simp only [destinationRegularDeadlines]
      have through : ((a.withOmitted o).specRegs.dt ⟨a.inst.rd, regular⟩).sle 0 = true ∨
          deadload (a.withOmitted o).inst = true ↔
          (a.specRegs.dt ⟨a.inst.rd, regular⟩).sle 0 = true ∨ deadload a.inst = true := Iff.rfl
      simp only [through]
      split <;> exact .ok (.of_eq rfl)
    · have loaded : (a.withOmitted o).specRegs.pllLoaded = a.specRegs.pllLoaded := rfl
      simp only [destinationPhaselockloopDeadlines, rd, loaded]
      refine Lifts.bind (Lifts.refl (fun _ => rfl) _) ?_
      rintro load _ rfl
      split
      · exact .ok (.of_eq rfl)
      · split <;> exact .ok (.of_eq rfl)
  · exact .ok ⟨o, rfl⟩

theorem checkDeadline_of_trapped {ht : HwThread id} (trapped : ht.isTrapped = true) :
    checkDeadline ht = ht := by
  obtain same | ⟨free, -⟩ := checkDeadline_cases ht
  · exact same
  · simp [trapped] at free

theorem checkDeadline_alike (alike : Alike a b)
    (reported : a.isTrapped = false → a.specRegs.missedDeadline = b.specRegs.missedDeadline) :
    Alike (checkDeadline a) (checkDeadline b) := by
  obtain ⟨o, rfl⟩ := alike
  have trapped : (a.withOmitted o).isTrapped = a.isTrapped := rfl
  cases pending : a.isTrapped with
  | true =>
    rw [checkDeadline_of_trapped pending, checkDeadline_of_trapped (trapped.trans pending)]
    exact ⟨o, rfl⟩
  | false =>
    simp only [checkDeadline, trapped, pending, ← reported pending]
    split
    · exact .of_eq rfl
    · exact ⟨o, rfl⟩

theorem operands_alike (alike : Alike a b)
    (increment : a.inst.incrementWindowPointer = b.inst.incrementWindowPointer)
    (dbWordStalled : a.deadlineStalled = false → a.dbWordStalled = b.dbWordStalled) :
    Alike (operands a) (operands b) := by
  obtain ⟨o, rfl⟩ := alike
  have half : secondHalf (a.withOmitted o) = secondHalf a := by
    change (o.dbWordStalled && !a.deadlineStalled) = (a.dbWordStalled && !a.deadlineStalled)
    cases waits : a.deadlineStalled with
    | true => simp
    | false =>
      rw [dbWordStalled waits]
      rfl
  have register : destination (a.withOmitted o) = destination a := by
    rw [destination, destination, half]
    rfl
  refine ⟨(operands (a.withOmitted o)).omitted, ?_⟩
  rw [operands, operands, half, register, ← increment]
  rfl

theorem alike (alike : Alike a b) (reads : a.isNotValid = false → ReadsSame a b) :
    Lifts Alike (behavior a) (behavior b) := by
  have valid : b.isNotValid = a.isNotValid := by
    obtain ⟨o, rfl⟩ := alike
    rfl
  have waiting := deadlineInstruction_alike alike
  simp only [behavior, valid]
  cases present : a.isNotValid with
  | true => exact .ok alike
  | false =>
    have reads := reads present
    obtain ⟨halt, first, second⟩ | ⟨a', b', first, second, next⟩ := waiting.cases_on
    · simp only [first, second]
      exact .error halt
    · simp only [first, second, operands_eq]
      have left := waits_deadlineInstruction first
      have right := waits_deadlineInstruction second
      refine .ok (operands_alike (checkDeadline_alike next fun free => ?_) ?_ fun through => ?_)
      · rw [missedDeadline_waited first, missedDeadline_waited second]
        exact reads.reported (by rwa [HwThread.isTrapped, ← left.trapped])
      · rw [checkDeadline_unchanged (fun ht => ht.inst) (fun _ _ _ => rfl),
          checkDeadline_unchanged (fun ht => ht.inst) (fun _ _ _ => rfl), left.operation,
          right.operation]
        exact reads.increment
      · rw [checkDeadline_unchanged HwThread.dbWordStalled (fun _ _ _ => rfl),
          checkDeadline_unchanged HwThread.dbWordStalled (fun _ _ _ => rfl), left.dbWordStalled,
          right.dbWordStalled]
        rw [checkDeadline_unchanged HwThread.deadlineStalled (fun _ _ _ => rfl)] at through
        exact reads.dbWordStalled (by simpa [waits, first] using through)

theorem waits_alike (alike : Alike a b) : waits b = waits a := by
  obtain ⟨halt, first, second⟩ | ⟨a', _, first, second, o, rfl⟩ :=
    (deadlineInstruction_alike alike).cases_on
  · rw [waits, waits, first, second]
  · rw [waits, waits, first, second]
    rfl

theorem rd_of_through {ht : HwThread id} (valid : ht.isNotValid = false)
    (through : waits ht = false) :
    ∃ ht', behavior ht = .ok ht' ∧
      ht'.inst.rd = if ht.dbWordStalled then ht.inst.rd + 1 else ht.inst.rd := by
  rw [waits] at through
  cases runs : deadlineInstruction ht with
  | error halt => simp [runs] at through
  | ok waited =>
    rw [runs] at through
    have left := waits_deadlineInstruction runs
    refine ⟨_, (behavior_eq_ok valid).mpr ⟨waited, runs, (operands_eq _).symm⟩, ?_⟩
    change destination (checkDeadline waited) = _
    rw [destination, secondHalf, checkDeadline_unchanged (fun ht => ht.inst) (fun _ _ _ => rfl),
      checkDeadline_unchanged HwThread.dbWordStalled (fun _ _ _ => rfl),
      checkDeadline_unchanged HwThread.deadlineStalled (fun _ _ _ => rfl), left.dbWordStalled,
      left.operation, show waited.deadlineStalled = false from through, Bool.not_false,
      Bool.and_true]

end Regacc

end Stages

end PretIss
