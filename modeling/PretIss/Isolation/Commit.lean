import PretIss.Isolation.Equality

/-! The last stage on two threads that the comparison calls equal. It reads the flag of a double
word where the program counter is to move, and the version where a register takes the processor
state. -/

namespace PretIss

variable {id : ThreadId} {a b : HwThread id}

open HwThread (withOmitted)
open Relational (Lifts)

namespace ExceptStage

def advances (ht : HwThread id) (syncTable : SyncTable) : Bool :=
  !squashes ht &&
    match checkSync ht syncTable with
    | .ok (_, syncNotStalled) => syncNotStalled
    | .error _ => false

def writesRegister (ht : HwThread id) : Bool :=
  ht.inst.writeRegisters ||
    squashes ht && (ht.trapped == .trapped || ht.trapped == .trapped2)

/-- The stage finds the threads the same in what it reads and the comparison leaves out. -/
structure ReadsSame (a b : HwThread id) (syncTable : SyncTable) : Prop where
  dbWordStalled : advances a syncTable = true → a.inst.dbWordInstruction = false →
    a.dbWordStalled = b.dbWordStalled
  impVer : writesRegister a = true → a.inst.selectSpecialRegister = some .psr →
    a.specRegs.impVer = b.specRegs.impVer

theorem setDwordState_alike (alike : Alike a b) : Alike (setDwordState a) (setDwordState b) := by
  obtain ⟨o, rfl⟩ := alike
  unfold setDwordState
  split <;> split <;> exact .of_eq rfl

theorem arrive_alike (alike : Alike a b) : Alike (arrive a) (arrive b) := by
  apply setDwordState_alike
  obtain ⟨o, rfl⟩ := alike
  exact .of_eq rfl

theorem deadStalled_alike (alike : Alike a b) : Lifts Alike (deadStalled a) (deadStalled b) := by
  obtain ⟨o, rfl⟩ := alike
  have posts : ((a.withOmitted o).specRegs.pllLoaded &&
      (a.withOmitted o).inst.writeSpecialRegisters) =
      (a.specRegs.pllLoaded && a.inst.writeSpecialRegisters) := rfl
  simp only [deadStalled, posts]
  split
  · change Lifts Alike _ (SpecialReg.setPllLoad (a.withOmitted o).specRegs a.inst.aluResult _ >>= _)
    simp only [SpecialReg.setPllLoad, bind_assoc]
    refine Lifts.bind (Lifts.refl (fun _ => rfl) _) ?_
    rintro pllLoad _ rfl
    exact .ok (.of_eq rfl)
  · exact .ok ⟨o, rfl⟩

theorem clearStatus_alike (alike : Alike a b) : Lifts Alike (clearStatus a) (clearStatus b) := by
  obtain ⟨o, rfl⟩ := alike
  have offset : trapOffset (a.withOmitted o) = trapOffset a := rfl
  simp only [clearStatus, offset]
  split
  · simp only [SpecialReg.setDtStatus, arraySet]
    split
    · exact .ok (.of_eq rfl)
    · exact .error _
  · exact .ok ⟨o, rfl⟩

theorem secondPass_alike (alike : Alike a b) : Lifts Alike (secondPass a) (secondPass b) := by
  have entered : Alike (enterTrap (redirect a 18 (npc a))) (enterTrap (redirect b 18 (npc b))) := by
    obtain ⟨o, rfl⟩ := alike
    exact .of_eq rfl
  rw [secondPass, secondPass]
  refine (clearStatus_alike entered).bind ?_
  intro a' b' next
  simp only [disableTraps, isNotDeadlineException_eq_false]
  exact .ok next

theorem handleExceptions_alike (alike : Alike a b) :
    Lifts AlikeIn (handleExceptions a) (handleExceptions b) := by
  have untrapped : Alike ({ a with trapped := .normal } : HwThread id)
      { b with trapped := .normal } := by
    obtain ⟨o, rfl⟩ := alike
    exact .of_eq rfl
  have squashed : Alike (unwritten a) (unwritten b) := by
    obtain ⟨o, rfl⟩ := alike
    exact .of_eq rfl
  have first : Alike (firstPass (unwritten a)) (firstPass (unwritten b)) := by
    rw [firstPass_eq, firstPass_eq]
    obtain ⟨o, rfl⟩ := alike
    exact .of_eq rfl
  have second := secondPass_alike squashed
  have stops : squashes b = squashes a ∧ b.trapped = a.trapped := by
    obtain ⟨o, rfl⟩ := alike
    exact ⟨rfl, rfl⟩
  rw [handleExceptions_ite, handleExceptions_ite, stops.1, stops.2]
  split
  · split
    · exact .ok ⟨first, rfl⟩
    · split
      · exact second.map fun _ _ next => ⟨next, rfl⟩
      · exact .ok ⟨squashed, rfl⟩
  · exact .ok ⟨untrapped, rfl⟩

theorem takeBranch_alike (alike : Alike a b) : Lifts Alike (takeBranch a) (takeBranch b) := by
  obtain ⟨o, rfl⟩ := alike
  have checks : branchCheck (a.withOmitted o) = branchCheck a := rfl
  have offset : addrCalc (a.withOmitted o) = addrCalc a := rfl
  have operation : (a.withOmitted o).inst.branch = a.inst.branch ∧
      (a.withOmitted o).inst.annul = a.inst.annul ∧
      (a.withOmitted o).inst.conditionalBranch = a.inst.conditionalBranch ∧
      (a.withOmitted o).inst.jump = a.inst.jump := ⟨rfl, rfl, rfl, rfl⟩
  simp only [takeBranch, checks, offset, operation]
  split
  · refine Lifts.bind (Lifts.refl (fun _ => rfl) _) ?_
    rintro offset _ rfl
    split <;> exact .ok (.of_eq rfl)
  · split
    · exact .ok (.of_eq rfl)
    · split
      · exact .ok (.of_eq rfl)
      · exact .ok ⟨o, rfl⟩

theorem incPc_alike (alike : Alike a b) : Lifts Alike (incPc a) (incPc b) := by
  have next : Alike (nextPc (writeIcc a)) (nextPc (writeIcc b)) := by
    obtain ⟨o, rfl⟩ := alike
    refine ⟨o, ?_⟩
    have written : writeIcc (a.withOmitted o) = (writeIcc a).withOmitted o := by
      rw [writeIcc, writeIcc, apply_ite (withOmitted o)]
      rfl
    rw [written, nextPc, nextPc, apply_ite (withOmitted o), apply_ite (withOmitted o)]
    rfl
  rw [incPc, incPc]
  refine (takeBranch_alike next).bind ?_
  rintro moved _ ⟨o, rfl⟩
  refine .ok ⟨o, ?_⟩
  rw [linkAddress, linkAddress, apply_ite (withOmitted o)]
  rfl

theorem advance_alike (alike : Alike a b) {handled syncNotStalled : Bool}
    (dbWordStalled : (handled && syncNotStalled) = true → a.dbWordStalled = b.dbWordStalled) :
    Lifts Alike (advance a handled syncNotStalled) (advance b handled syncNotStalled) := by
  have moves : (handled && !b.dbWordStalled && syncNotStalled) =
      (handled && !a.dbWordStalled && syncNotStalled) := by
    cases goes : handled && syncNotStalled with
    | true => rw [dbWordStalled goes]
    | false => cases handled <;> simp_all
  rw [advance, advance, moves]
  split
  · exact incPc_alike alike
  · exact .ok alike

theorem writeRegs_alike (alike : Alike a b) (impVer : a.inst.writeRegisters = true →
      a.inst.selectSpecialRegister = some .psr → a.specRegs.impVer = b.specRegs.impVer) :
    Lifts Alike (writeRegs a) (writeRegs b) := by
  obtain ⟨o, rfl⟩ := alike
  have writes : (a.withOmitted o).inst.writeRegisters = a.inst.writeRegisters := rfl
  have select : (a.withOmitted o).inst.selectSpecialRegister = a.inst.selectSpecialRegister := rfl
  simp only [writeRegs, writes, select]
  split
  · rename_i writing
    have value : specialValue (a.withOmitted o) a.inst.selectSpecialRegister =
        specialValue a a.inst.selectSpecialRegister := by
      cases selected : a.inst.selectSpecialRegister with
      | none => rfl
      | some register =>
        cases register with
        | psr =>
          have psr : (a.withOmitted o).specRegs.getPsr = a.specRegs.getPsr := by
            rw [SpecialReg.getPsr, SpecialReg.getPsr, ← impVer writing selected]
            rfl
          exact congrArg Except.ok psr
        | _ => rfl
    rw [value]
    refine Lifts.bind (Lifts.refl (fun _ => rfl) _) ?_
    rintro value _ rfl
    exact .ok (.of_eq rfl)
  · exact .ok ⟨o, rfl⟩

theorem writeSpecialRegs_alike (alike : Alike a b) (dma : Dma) :
    Lifts AlikeIn (writeSpecialRegs a dma) (writeSpecialRegs b dma) := by
  obtain ⟨o, rfl⟩ := alike
  have writes : (a.withOmitted o).inst.writeSpecialRegisters = a.inst.writeSpecialRegisters := rfl
  have select : (a.withOmitted o).inst.selectSpecialRegister = a.inst.selectSpecialRegister := rfl
  simp only [writeSpecialRegs, writes, select]
  split
  · cases a.inst.selectSpecialRegister with
    | none => exact .ok ⟨⟨o, rfl⟩, rfl⟩
    | some register =>
      cases register with
      | asr =>
        simp only [SpecialReg.setAsr, bind_assoc]
        refine Lifts.bind (Lifts.refl (fun _ => rfl) _) ?_
        rintro asr _ rfl
        exact .ok ⟨.of_eq rfl, rfl⟩
      | dt =>
        have loads : Lifts Alike (writeDeadline a) (writeDeadline (a.withOmitted o)) := by
          have rd : (a.withOmitted o).inst.rd = a.inst.rd := rfl
          simp only [writeDeadline, rd]
          split
          · exact .ok (.of_eq rfl)
          · simp only [SpecialReg.setPllLoad, bind_assoc]
            refine Lifts.bind (Lifts.refl (fun _ => rfl) _) ?_
            rintro pllLoad _ rfl
            exact .ok (.of_eq rfl)
        exact loads.bind fun _ _ next => .ok ⟨next, rfl⟩
      | _ => exact .ok ⟨.of_eq rfl, rfl⟩
  · exact .ok ⟨⟨o, rfl⟩, rfl⟩

theorem retire_alike (alike : Alike a b) : Alike (retire a) (retire b) := by
  obtain ⟨o, rfl⟩ := alike
  have rett : (a.withOmitted o).inst.isRett = a.inst.isRett := rfl
  have level : (a.withOmitted o).specRegs.s = a.specRegs.s := rfl
  have enabled : (a.withOmitted o).specRegs.et = a.specRegs.et := rfl
  simp only [retire, returnFromTrap, rett, level, enabled]
  split
  · split
    · exact .of_eq rfl
    · split <;> exact .of_eq rfl
  · exact .of_eq rfl

theorem moveWindow_impVer (ht : HwThread id) (increment : BitVec 16) :
    (ht.moveWindow increment).specRegs.impVer = ht.specRegs.impVer := by rfl

theorem handleExceptions_reads {ht ht' : HwThread id} {handled : Bool}
    (runs : handleExceptions ht = .ok (ht', handled)) :
    handled = !squashes ht ∧ ht'.specRegs.impVer = ht.specRegs.impVer ∧
      ht'.inst.selectSpecialRegister = ht.inst.selectSpecialRegister ∧
      (ht'.inst.writeRegisters = true → writesRegister ht = true) := by
  obtain ⟨goes, rfl, rfl⟩ | ⟨stops, rfl, ⟨trapped, rfl⟩ | ⟨trapped, rfl⟩ | ⟨trapped, rfl⟩⟩ :=
    handleExceptions_cases runs
  · refine ⟨by rw [goes]; rfl, rfl, rfl, fun writes => ?_⟩
    simp [writesRegister, show ht.inst.writeRegisters = true from writes]
  · rw [firstPass_eq]
    refine ⟨by rw [stops]; rfl, ?_, ?_, fun _ => by simp [writesRegister, stops, trapped]⟩
    · exact moveWindow_impVer (unwritten ht) (-1)
    · change (redirect ((unwritten ht).moveWindow (-1)) 17 ht.pc).inst.selectSpecialRegister = _
      rw [redirect_inst, moveWindow_inst]
      rfl
  · exact ⟨by rw [stops]; rfl, rfl, rfl, fun _ => by simp [writesRegister, stops, trapped]⟩
  · refine ⟨by rw [stops]; rfl, rfl, rfl, fun writes => ?_⟩
    simp [writesRegister, show ht.inst.writeRegisters = true from writes]

theorem advance_reads {ht ht' : HwThread id} {handled syncNotStalled : Bool}
    (runs : advance ht handled syncNotStalled = .ok ht') :
    ht'.specRegs.impVer = ht.specRegs.impVer ∧
      ht'.inst.selectSpecialRegister = ht.inst.selectSpecialRegister ∧
      ht'.inst.writeRegisters = ht.inst.writeRegisters := by
  obtain ⟨same, -⟩ := advance_unmoved runs
  exact ⟨congrArg (fun ht => ht.specRegs.impVer) same,
    congrArg (fun ht => ht.inst.selectSpecialRegister) same,
    congrArg (fun ht => ht.inst.writeRegisters) same⟩

theorem commit_alike (alike : Alike a b) {syncNotStalled : Bool} (dma : Dma)
    (dbWordStalled : (!squashes a && syncNotStalled) = true → a.dbWordStalled = b.dbWordStalled)
    (impVer : writesRegister a = true → a.inst.selectSpecialRegister = some .psr →
      a.specRegs.impVer = b.specRegs.impVer) :
    Lifts AlikeIn (commit a syncNotStalled dma) (commit b syncNotStalled dma) := by
  rw [commit, commit]
  refine (handleExceptions_alike alike).bind_ok ?_
  rintro ⟨a₁, handled⟩ ⟨b₁, _⟩ first second ⟨squashed, rfl⟩
  obtain ⟨goes, version₁, select₁, writes₁⟩ := handleExceptions_reads first
  obtain ⟨-, version₂, -, -⟩ := handleExceptions_reads second
  obtain ⟨-, -, -, -, stall₁⟩ := handleExceptions_stalls first
  obtain ⟨-, -, -, -, stall₂⟩ := handleExceptions_stalls second
  refine (advance_alike squashed fun moves => ?_).bind_ok ?_
  · rw [stall₁, stall₂]
    exact dbWordStalled (by rwa [goes] at moves)
  intro a₂ b₂ third fourth moved
  obtain ⟨version₃, select₃, writes₃⟩ := advance_reads third
  obtain ⟨version₄, -, -⟩ := advance_reads fourth
  refine (writeRegs_alike moved fun writes select => ?_).bind ?_
  · rw [version₃, version₁, version₄, version₂]
    exact impVer (writes₁ (writes₃ ▸ writes)) (by rw [← select₁, ← select₃, select])
  intro a₃ b₃ written
  refine (writeSpecialRegs_alike written dma).bind ?_
  rintro ⟨a₄, dma'⟩ ⟨b₄, _⟩ ⟨last, rfl⟩
  exact .ok ⟨retire_alike last, rfl⟩

theorem alike (alike : Alike a b) (syncTable : SyncTable) (dma : Dma)
    (reads : reachesCommit a = true → ReadsSame a b syncTable) :
    Lifts AlikeIn (behavior a syncTable dma) (behavior b syncTable dma) := by
  have stalls : b.enabled = a.enabled ∧ b.fetchStalled = a.fetchStalled ∧
      b.deadlineStalled = a.deadlineStalled ∧ b.memoryStalled = a.memoryStalled := by
    obtain ⟨o, rfl⟩ := alike
    exact ⟨rfl, rfl, rfl, rfl⟩
  have counted : Alike (countCycles a) (countCycles b) := by
    obtain ⟨o, rfl⟩ := alike
    exact .of_eq rfl
  have arrives := arrive_alike alike
  have dbWord : b.inst.dbWordInstruction = a.inst.dbWordInstruction := by
    obtain ⟨o, rfl⟩ := alike
    rfl
  have checks : checkSync (arrive b) syncTable = checkSync (arrive a) syncTable := by
    obtain ⟨o, rfl⟩ := alike
    rw [checkSync, checkSync, arrive_inst, arrive_inst]
    rfl
  simp only [behavior, stalls, arrive_deadlineStalled, arrive_memoryStalled, checks]
  cases present : a.enabled with
  | false => exact .ok ⟨alike, rfl⟩
  | true =>
    cases fetched : a.fetchStalled with
    | true => exact .ok ⟨counted, rfl⟩
    | false =>
      cases through : a.deadlineStalled with
      | true => exact (deadStalled_alike arrives).bind fun _ _ next => .ok ⟨next, rfl⟩
      | false =>
        cases granted : a.memoryStalled with
        | true => exact .ok ⟨arrives, rfl⟩
        | false =>
          have reads := reads (by simp [reachesCommit, present, fetched, through, granted])
          refine (Lifts.refl (R := Eq) (fun _ => rfl) _).bind_ok ?_
          rintro ⟨table, syncNotStalled⟩ _ consults - rfl
          refine (commit_alike arrives dma (fun moves => ?_) fun writes select => ?_).bind ?_
          · rw [arrive_dbWordStalled, arrive_dbWordStalled, dbWord]
            cases double : a.inst.dbWordInstruction with
            | true => simp
            | false =>
              rw [arrive_unchanged squashes (fun _ _ _ => rfl)] at moves
              rw [arrive_unchanged (fun ht => checkSync ht syncTable) (fun _ _ _ => rfl)] at consults
              rw [reads.dbWordStalled (by simpa [advances, consults] using moves) double]
          · rw [arrive_unchanged writesRegister (fun _ _ _ => rfl)] at writes
            rw [arrive_inst] at select
            rw [arrive_specRegs, arrive_specRegs]
            exact reads.impVer writes select
          · rintro ⟨a', dma'⟩ ⟨b', _⟩ ⟨next, rfl⟩
            exact .ok ⟨next, rfl⟩

end ExceptStage

end PretIss
