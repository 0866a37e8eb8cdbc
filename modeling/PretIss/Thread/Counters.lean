import PretIss.Thread.Commit

/-! The counters of a thread count its cycles and its instructions, and nothing else in the
thread depends on them: every stage does the same to a thread whatever they are. -/

namespace PretIss

variable {id : ThreadId} {σ : Type}

namespace HwThread

def withCounts (cycles instr : BitVec 32) (ht : HwThread id) : HwThread id :=
  { ht with cntCycles := cycles, cntInstr := instr }

theorem withCounts_self (ht : HwThread id) : ht.withCounts ht.cntCycles ht.cntInstr = ht := rfl

end HwThread

open HwThread (withCounts withCounts_self)

section

variable (cycles instr : BitVec 32)

theorem Fetch.behavior_withCounts (instructionMemory : FetchStageIf σ) (ht : HwThread id)
    (memory : σ) :
    behavior instructionMemory (ht.withCounts cycles instr) memory =
      (behavior instructionMemory ht memory).map fun r => (r.1.withCounts cycles instr, r.2) := by
  have enabled : (ht.withCounts cycles instr).enabled = ht.enabled := rfl
  have held : isHeld (ht.withCounts cycles instr) = isHeld ht := rfl
  have pc : (ht.withCounts cycles instr).pc = ht.pc := rfl
  have counts : countDown (ht.withCounts cycles instr) = (countDown ht).withCounts cycles instr := rfl
  simp only [behavior, enabled, held, pc, counts]
  cases ht.enabled with
  | false => rfl
  | true =>
      cases isHeld ht with
      | true => rfl
      | false =>
          cases instructionMemory.readInst memory id ht.pc with
          | error halt => rfl
          | ok found =>
              have ends : ∀ bits stall, (receive ((countDown ht).withCounts cycles instr) bits
                stall).inst.checkEndSim = (receive (countDown ht) bits stall).inst.checkEndSim :=
                  fun _ _ => rfl
              simp only [bind, Except.bind, ends, not_true_eq_false, Bool.false_eq_true, if_false]
              cases (receive (countDown ht) found.2.1 found.2.2).inst.checkEndSim <;> rfl

theorem Decode.behavior_withCounts (ht : HwThread id) :
    behavior (ht.withCounts cycles instr) = (behavior ht).withCounts cycles instr := by
  have valid : (ht.withCounts cycles instr).isNotValid = ht.isNotValid := rfl
  rw [behavior, behavior, valid]
  cases ht.isNotValid <;> rfl

theorem Execute.behavior_withCounts (ht : HwThread id) :
    behavior (ht.withCounts cycles instr) = (behavior ht).withCounts cycles instr := by
  have coded : ∀ ht : HwThread id,
      (if (ht.withCounts cycles instr).inst.writeIcc then
          { ht.withCounts cycles instr with
            inst := { ht.inst with icc := geticc (ht.withCounts cycles instr).inst } }
        else ht.withCounts cycles instr) =
      withCounts cycles instr
        (if ht.inst.writeIcc then { ht with inst := { ht.inst with icc := geticc ht.inst } }
        else ht) := by
    intro ht
    rw [apply_ite (withCounts cycles instr)]
    rfl
  have valid : (ht.withCounts cycles instr).isNotValid = ht.isNotValid := rfl
  have inst : (ht.withCounts cycles instr).inst = ht.inst := rfl
  rw [behavior, behavior, valid, apply_ite (withCounts cycles instr)]
  congr 1
  rw [performAluOperations, performAluOperations, inst]
  by_cases multiply : ht.inst.aluop = .mul
  · cases signed : ht.inst.signedMultiply with
    | true =>
        simp only [if_pos multiply, if_true]
        exact coded (multiplyStep ht)
    | false =>
        simp only [if_pos multiply, Bool.false_eq_true, if_false]
        exact coded ht
  · simp only [if_neg multiply]
    exact coded { ht with inst := { ht.inst with aluResult := aluValue ht } }

namespace Regacc

theorem deadlineInstruction_withCounts (ht : HwThread id) :
    deadlineInstruction (ht.withCounts cycles instr) =
      (deadlineInstruction ht).map (withCounts cycles instr) := by
  have selects : (ht.withCounts cycles instr).inst = ht.inst := rfl
  have regular : ∀ timer, destinationRegularDeadlines (ht.withCounts cycles instr) timer =
      (destinationRegularDeadlines ht timer).withCounts cycles instr := by
    intro timer
    rw [destinationRegularDeadlines, destinationRegularDeadlines,
      apply_ite (withCounts cycles instr)]
    rfl
  have mailbox : destinationPhaselockloopDeadlines (ht.withCounts cycles instr) =
      (destinationPhaselockloopDeadlines ht).map (withCounts cycles instr) := by
    have same : (ht.withCounts cycles instr).specRegs = ht.specRegs := rfl
    simp only [destinationPhaselockloopDeadlines, same, selects]
    cases ht.specRegs.getPllLoad (ht.inst.rd - 8) with
    | error halt => rfl
    | ok load =>
        simp only [bind, Except.bind]
        by_cases full : load ≠ 0
        · simp only [if_pos full]
          rfl
        · simp only [if_neg full]
          cases ht.specRegs.pllLoaded <;> rfl
  simp only [deadlineInstruction, selects, regular, mailbox]
  split
  · split <;> rfl
  · rfl

theorem checkDeadline_withCounts (ht : HwThread id) :
    checkDeadline (ht.withCounts cycles instr) = (checkDeadline ht).withCounts cycles instr := by
  have missed : (ht.withCounts cycles instr).specRegs = ht.specRegs := rfl
  have trapped : (ht.withCounts cycles instr).isTrapped = ht.isTrapped := rfl
  simp only [checkDeadline, missed, trapped]
  cases ht.specRegs.missedDeadline with
  | none => rfl
  | some timer => cases ht.isTrapped <;> rfl

theorem doubleWordInstruction_withCounts (ht : HwThread id) :
    doubleWordInstruction (ht.withCounts cycles instr) =
      (doubleWordInstruction ht).withCounts cycles instr := by
  rw [doubleWordInstruction, doubleWordInstruction, apply_ite (withCounts cycles instr)]
  rfl

theorem behavior_withCounts (ht : HwThread id) :
    behavior (ht.withCounts cycles instr) = (behavior ht).map (withCounts cycles instr) := by
  have valid : (ht.withCounts cycles instr).isNotValid = ht.isNotValid := rfl
  simp only [behavior, valid, deadlineInstruction_withCounts]
  cases ht.isNotValid with
  | true => rfl
  | false =>
      cases deadlineInstruction ht with
      | error halt => rfl
      | ok waited =>
          simp only [Except.map, bind, Except.bind, pure, Except.pure, checkDeadline_withCounts,
            doubleWordInstruction_withCounts]
          rfl

end Regacc

theorem Mem.behavior_withCounts (dataMem : MemStageIf σ) (ht : HwThread id) (memory : σ) :
    behavior dataMem (ht.withCounts cycles instr) memory =
      (behavior dataMem ht memory).map fun r => (r.1.withCounts cycles instr, r.2) := by
  have valid : (ht.withCounts cycles instr).isNotValid = ht.isNotValid := rfl
  have inst : (ht.withCounts cycles instr).inst = ht.inst := rfl
  simp only [behavior, load, store, valid, inst]
  cases ht.isNotValid with
  | true => rfl
  | false =>
      cases ht.inst.readMemory with
      | true =>
          cases dataMem.readData memory id (alignedAddr ht.inst.aluResult) with
          | error halt => rfl
          | ok found =>
              obtain ⟨memory', bits, stall⟩ := found
              cases stall <;> rfl
      | false =>
          cases ht.inst.writeMemory with
          | false => rfl
          | true =>
              by_cases word : ht.inst.memorySize ≠ .word
              · simp only [Bool.false_eq_true, if_false, if_true, if_pos word]
                cases dataMem.readData memory id (alignedAddr ht.inst.aluResult) with
                | error halt => rfl
                | ok found =>
                    simp only [bind, Except.bind, pure, Except.pure]
                    cases dataMem.writeData found.1 id (alignedAddr ht.inst.aluResult)
                      (ht.inst.getWriteData found.2.1 (addrOffset ht.inst.aluResult)) <;> rfl
              · simp only [Bool.false_eq_true, if_false, if_true, if_neg word, bind, Except.bind,
                  pure, Except.pure]
                cases dataMem.writeData memory id (alignedAddr ht.inst.aluResult)
                  (ht.inst.getWriteData 0xdeadbeef (addrOffset ht.inst.aluResult)) <;> rfl

namespace ExceptStage

def counts (ht : HwThread id) : BitVec 32 × BitVec 32 :=
  (if ht.enabled then cycles + 6 else cycles, if reachesCommit ht then instr + 1 else instr)

theorem setDwordState_withCounts (ht : HwThread id) :
    setDwordState (ht.withCounts cycles instr) = (setDwordState ht).withCounts cycles instr := by
  rw [setDwordState, setDwordState, apply_ite (withCounts cycles instr)]
  rfl

theorem deadStalled_withCounts (ht : HwThread id) :
    deadStalled (ht.withCounts cycles instr) =
      (deadStalled ht).map (withCounts cycles instr) := by
  have specRegs : (ht.withCounts cycles instr).specRegs = ht.specRegs := rfl
  have inst : (ht.withCounts cycles instr).inst = ht.inst := rfl
  simp only [deadStalled, specRegs, inst]
  cases ht.specRegs.pllLoaded && ht.inst.writeSpecialRegisters with
  | false => rfl
  | true => cases ht.specRegs.setPllLoad ht.inst.aluResult (ht.inst.rd - 8) <;> rfl

theorem firstPass_withCounts (ht : HwThread id) :
    firstPass (ht.withCounts cycles instr) = (firstPass ht).withCounts cycles instr := by
  simp only [firstPass, isNotDeadlineException_eq_false, Bool.false_eq_true, if_false]
  rfl

theorem secondPass_withCounts (ht : HwThread id) :
    secondPass (ht.withCounts cycles instr) = (secondPass ht).map (withCounts cycles instr) := by
  have entered : enterTrap (redirect (ht.withCounts cycles instr) 18
        (npc (ht.withCounts cycles instr))) =
      (enterTrap (redirect ht 18 (npc ht))).withCounts cycles instr := rfl
  rw [secondPass, secondPass, entered]
  generalize enterTrap (redirect ht 18 (npc ht)) = ht'
  have cleared : clearStatus (ht'.withCounts cycles instr) =
      (clearStatus ht').map (withCounts cycles instr) := by
    have offset : trapOffset (ht'.withCounts cycles instr) = trapOffset ht' := rfl
    have specRegs : (ht'.withCounts cycles instr).specRegs = ht'.specRegs := rfl
    simp only [clearStatus, offset, specRegs]
    by_cases deadline : 0x70 ≤ trapOffset ht' ∧ trapOffset ht' < 0x79
    · simp only [if_pos deadline]
      cases ht'.specRegs.setDtStatus .unset ((trapOffset ht').toNat - 0x70) <;> rfl
    · simp only [if_neg deadline]
      rfl
  rw [cleared]
  cases clearStatus ht' with
  | error halt => rfl
  | ok after =>
      simp only [Except.map, bind, Except.bind, disableTraps, isNotDeadlineException_eq_false,
        Bool.false_eq_true, if_false]
      rfl

theorem handleExceptions_withCounts (ht : HwThread id) :
    handleExceptions (ht.withCounts cycles instr) =
      (handleExceptions ht).map fun r => (r.1.withCounts cycles instr, r.2) := by
  have stops : squashes (ht.withCounts cycles instr) = squashes ht := rfl
  have trapped : (ht.withCounts cycles instr).trapped = ht.trapped := rfl
  have unwrites : unwritten (ht.withCounts cycles instr) =
      (unwritten ht).withCounts cycles instr := rfl
  rw [handleExceptions_ite, handleExceptions_ite, stops, trapped, unwrites, firstPass_withCounts,
    secondPass_withCounts]
  cases squashes ht with
  | false => rfl
  | true =>
      simp only [if_true]
      split
      · rfl
      · split
        · cases secondPass (unwritten ht) <;> rfl
        · rfl

theorem takeBranch_withCounts (ht : HwThread id) :
    takeBranch (ht.withCounts cycles instr) = (takeBranch ht).map (withCounts cycles instr) := by
  have checks : branchCheck (ht.withCounts cycles instr) = branchCheck ht := rfl
  have offset : addrCalc (ht.withCounts cycles instr) = addrCalc ht := rfl
  have inst : (ht.withCounts cycles instr).inst = ht.inst := rfl
  simp only [takeBranch, checks, offset, inst]
  cases branchCheck ht with
  | true =>
      cases addrCalc ht with
      | error halt => rfl
      | ok offset =>
          simp only [if_true, bind, Except.bind]
          cases !(ht.inst.branch && ht.inst.annul &&
            BranchConditions.ofCode ht.inst.conditionalBranch == some .ba) <;> rfl
  | false =>
      cases ht.inst.jump with
      | true => rfl
      | false => cases ht.inst.branch && ht.inst.annul <;> rfl

theorem incPc_withCounts (ht : HwThread id) :
    incPc (ht.withCounts cycles instr) = (incPc ht).map (withCounts cycles instr) := by
  have written : writeIcc (ht.withCounts cycles instr) =
      (writeIcc ht).withCounts cycles instr := by
    rw [writeIcc, writeIcc, apply_ite (withCounts cycles instr)]
    rfl
  have next : ∀ ht : HwThread id, nextPc (ht.withCounts cycles instr) =
      (nextPc ht).withCounts cycles instr := by
    intro ht
    rw [nextPc, nextPc, apply_ite (withCounts cycles instr), apply_ite (withCounts cycles instr)]
    rfl
  have links : ∀ ht : HwThread id, linkAddress (ht.withCounts cycles instr) =
      (linkAddress ht).withCounts cycles instr := by
    intro ht
    rw [linkAddress, linkAddress, apply_ite (withCounts cycles instr)]
    rfl
  rw [incPc, incPc, written, next, takeBranch_withCounts]
  cases takeBranch (nextPc (writeIcc ht)) with
  | error halt => rfl
  | ok moved => exact congrArg Except.ok (links moved)

theorem advance_withCounts (ht : HwThread id) (handled syncNotStalled : Bool) :
    advance (ht.withCounts cycles instr) handled syncNotStalled =
      (advance ht handled syncNotStalled).map (withCounts cycles instr) := by
  have waits : (ht.withCounts cycles instr).dbWordStalled = ht.dbWordStalled := rfl
  rw [advance, advance, waits, incPc_withCounts]
  cases handled && !ht.dbWordStalled && syncNotStalled <;> rfl

theorem writeRegs_withCounts (ht : HwThread id) :
    writeRegs (ht.withCounts cycles instr) = (writeRegs ht).map (withCounts cycles instr) := by
  have inst : (ht.withCounts cycles instr).inst = ht.inst := rfl
  have special : ∀ select, specialValue (ht.withCounts cycles instr) select =
    specialValue ht select := fun _ => rfl
  simp only [writeRegs, inst, special]
  cases ht.inst.writeRegisters with
  | false => rfl
  | true => cases specialValue ht ht.inst.selectSpecialRegister <;> rfl

theorem writeDeadline_withCounts (ht : HwThread id) :
    writeDeadline (ht.withCounts cycles instr) =
      (writeDeadline ht).map (withCounts cycles instr) := by
  have inst : (ht.withCounts cycles instr).inst = ht.inst := rfl
  have specRegs : (ht.withCounts cycles instr).specRegs = ht.specRegs := rfl
  simp only [writeDeadline, inst, specRegs]
  by_cases regular : ht.inst.rd < numDeadlineTimers
  · simp only [dif_pos regular]
    rfl
  · simp only [dif_neg regular]
    cases ht.specRegs.setPllLoad ht.inst.aluResult (ht.inst.rd - 8) <;> rfl

theorem writeSpecialRegs_withCounts (ht : HwThread id) (dma : Dma) :
    writeSpecialRegs (ht.withCounts cycles instr) dma =
      (writeSpecialRegs ht dma).map fun r => (r.1.withCounts cycles instr, r.2) := by
  have inst : (ht.withCounts cycles instr).inst = ht.inst := rfl
  have specRegs : (ht.withCounts cycles instr).specRegs = ht.specRegs := rfl
  have transfer : requestTransfer (ht.withCounts cycles instr) dma = requestTransfer ht dma := rfl
  simp only [writeSpecialRegs, inst, specRegs, transfer, writeDeadline_withCounts]
  cases ht.inst.writeSpecialRegisters with
  | false => rfl
  | true =>
      cases ht.inst.selectSpecialRegister with
      | none => rfl
      | some register =>
          cases register with
          | asr => cases ht.specRegs.setAsr ht.inst.aluResult ht.inst.rd <;> rfl
          | dt => cases writeDeadline ht <;> rfl
          | _ => rfl

theorem retire_withCounts (ht : HwThread id) :
    retire (ht.withCounts cycles instr) = (retire ht).withCounts cycles (instr + 1) := by
  have returns : returnFromTrap (ht.withCounts cycles instr) =
      (returnFromTrap ht).withCounts cycles instr := by
    rw [returnFromTrap, returnFromTrap, apply_ite (withCounts cycles instr),
      apply_ite (withCounts cycles instr)]
    rfl
  have inst : (ht.withCounts cycles instr).inst = ht.inst := rfl
  rw [retire, retire, returns, inst]
  cases ht.inst.isRett <;> rfl

theorem commit_withCounts (ht : HwThread id) (syncNotStalled : Bool) (dma : Dma) :
    commit (ht.withCounts cycles instr) syncNotStalled dma =
      (commit ht syncNotStalled dma).map fun r => (r.1.withCounts cycles (instr + 1), r.2) := by
  rw [commit, commit, handleExceptions_withCounts]
  cases handleExceptions ht with
  | error halt => rfl
  | ok squashed =>
      simp only [Except.map, bind, Except.bind, advance_withCounts]
      cases advance squashed.1 squashed.2 syncNotStalled with
      | error halt => rfl
      | ok moved =>
          simp only [writeRegs_withCounts]
          cases writeRegs moved with
          | error halt => rfl
          | ok written =>
              simp only [Except.map, writeSpecialRegs_withCounts]
              cases writeSpecialRegs written dma with
              | error halt => rfl
              | ok last => simp only [pure, Except.pure, retire_withCounts]

theorem behavior_withCounts (ht : HwThread id) (syncTable : SyncTable) (dma : Dma) :
    behavior (ht.withCounts cycles instr) syncTable dma =
      (behavior ht syncTable dma).map fun r =>
        (r.1.withCounts (counts cycles instr ht).1 (counts cycles instr ht).2, r.2) := by
  have enabled : (ht.withCounts cycles instr).enabled = ht.enabled := rfl
  have fetch : (ht.withCounts cycles instr).fetchStalled = ht.fetchStalled := rfl
  have count : countCycles (ht.withCounts cycles instr) =
    (countCycles ht).withCounts (cycles + 6) instr := rfl
  have arrives : arrive (ht.withCounts cycles instr) =
      (arrive ht).withCounts (cycles + 6) instr := setDwordState_withCounts _ _ (countCycles ht)
  have stalls : ∀ ht : HwThread id, ((ht.withCounts (cycles + 6) instr).deadlineStalled =
    ht.deadlineStalled ∧ (ht.withCounts (cycles + 6) instr).memoryStalled = ht.memoryStalled ∧
    checkSync (ht.withCounts (cycles + 6) instr) syncTable = checkSync ht syncTable) :=
      fun _ => ⟨rfl, rfl, rfl⟩
  simp only [behavior, counts, reachesCommit, enabled, fetch, count, arrives, stalls,
    deadStalled_withCounts, commit_withCounts, arrive_deadlineStalled, arrive_memoryStalled]
  by_cases present : ht.enabled = true
  · by_cases fetched : ht.fetchStalled = true
    · simp only [present, fetched]
      rfl
    · by_cases deadline : ht.deadlineStalled = true
      · simp only [present, fetched, deadline]
        cases deadStalled (arrive ht) <;> rfl
      · by_cases granted : ht.memoryStalled = true
        · simp only [present, fetched, deadline, granted]
          rfl
        · simp only [present, fetched, deadline, granted]
          cases checkSync (arrive ht) syncTable with
          | error halt => rfl
          | ok consulted =>
              simp only [bind, Except.bind]
              cases commit (arrive ht) consulted.2 dma <;> rfl
  · simp only [present]
    rfl

end ExceptStage

end

/-! So only the last stage counts. -/

theorem Fetch.cntInstr_behavior {instructionMemory : FetchStageIf σ} {ht ht' : HwThread id}
    {memory memory' : σ} (runs : behavior instructionMemory ht memory = .ok (ht', memory')) :
    ht'.cntInstr = ht.cntInstr := by
  have same := behavior_withCounts ht.cntCycles ht.cntInstr instructionMemory ht memory
  rw [withCounts_self, runs] at same
  exact congrArg (fun r => r.1.cntInstr) (Except.ok.inj same)

theorem Regacc.cntInstr_behavior {ht ht' : HwThread id} (runs : behavior ht = .ok ht') :
    ht'.cntInstr = ht.cntInstr := by
  have same := behavior_withCounts ht.cntCycles ht.cntInstr ht
  rw [withCounts_self, runs] at same
  have kept : ht' = withCounts ht.cntCycles ht.cntInstr ht' := Except.ok.inj same
  exact (congrArg HwThread.cntInstr kept).trans rfl

theorem Mem.cntInstr_behavior {dataMem : MemStageIf σ} {ht ht' : HwThread id}
    {memory memory' : σ} (runs : behavior dataMem ht memory = .ok (ht', memory')) :
    ht'.cntInstr = ht.cntInstr := by
  have same := behavior_withCounts ht.cntCycles ht.cntInstr dataMem ht memory
  rw [withCounts_self, runs] at same
  exact congrArg (fun r => r.1.cntInstr) (Except.ok.inj same)

theorem ExceptStage.cntInstr_behavior {ht ht' : HwThread id} {syncTable syncTable' : SyncTable}
    {dma dma' : Dma} (runs : behavior ht syncTable dma = .ok (ht', syncTable', dma')) :
    ht'.cntInstr = ht.cntInstr + if reachesCommit ht then 1 else 0 := by
  have same := behavior_withCounts ht.cntCycles ht.cntInstr ht syncTable dma
  rw [withCounts_self, runs] at same
  have grown : ht'.cntInstr = (counts ht.cntCycles ht.cntInstr ht).2 :=
    congrArg (fun r => r.1.cntInstr) (Except.ok.inj same)
  rw [grown]
  cases reaches : reachesCommit ht <;> simp [counts, reaches]

theorem Pass.Valid.cntInstr_finished {p : Pass id σ} (valid : p.Valid) :
    p.finished.cntInstr =
      p.start.cntInstr + if ExceptStage.reachesCommit p.arrived then 1 else 0 := by
  have after : ∀ stage ht, (p.round.after stage ht : HwThread id).cntInstr = ht.cntInstr :=
    fun stage ht => p.round.after_eq stage HwThread.cntInstr (fun _ => rfl) ht
  obtain ⟨fetched, fetches, first⟩ := valid.fetch
  obtain ⟨accessed, accesses, third⟩ := valid.regacc
  obtain ⟨arrived, arrives, fifth⟩ := valid.mem
  obtain ⟨finished, finishes, last⟩ := valid.except
  have decodes := Decode.behavior_withCounts p.fetched.cntCycles p.fetched.cntInstr p.fetched
  have executes := Execute.behavior_withCounts p.accessed.cntCycles p.accessed.cntInstr p.accessed
  rw [withCounts_self] at decodes executes
  rw [last, after, ExceptStage.cntInstr_behavior finishes, fifth, after,
    Mem.cntInstr_behavior arrives, valid.execute, after, executes]
  change p.accessed.cntInstr + _ = _
  rw [third, after, Regacc.cntInstr_behavior accesses, valid.decode, after, decodes]
  change p.fetched.cntInstr + _ = _
  rw [first, after, Fetch.cntInstr_behavior fetches]

end PretIss
