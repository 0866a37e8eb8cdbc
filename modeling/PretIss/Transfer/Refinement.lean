import PretIss.Transfer.Sparc
import PretIss.Thread.Outcome

/-! The move of the program counter against the rule of the architecture. The code
computes targets and return addresses from the counter it has already moved, so it is
right only if that counter moved on by one instruction; and a slot that holds zero
forgets its target. -/

namespace PretIss.ExceptStage

open DelayedTransfer Sparc

variable {id : ThreadId}

def counters (ht : HwThread id) : Counters 32 := ofSlot 4 ht.pc ht.branchSlot

/-- The latch of an instruction as it commits: a word decoded, its last half. -/
structure Latched (w : Word) (i : Instruction) : Prop where
  operation : i.operation = (Instruction.ofWord w).operation
  dbWord : i.dbWordInstruction = false
  link : links w → i.rd = link w ∧ i.writeRegisters = (link w != 0)

/-- The counters move as the architecture says, and the return address is written. -/
structure Follows (w : Word) (ht ht' : HwThread id) : Prop where
  moves : counters ht' =
    (counters ht).next 4 (transfer w ht.specRegs.icc ht.pc ht.inst.aluResult)
  links : links w → link w ≠ 0 → ∃ written, writeRegs ht' = .ok written ∧
    written.readReg (link w) = ht.pc

def drift (ht : HwThread id) : Word := npc ht - (ht.pc + 4)

def lead (w : Word) (ht : HwThread id) : Word :=
  if isCall w || isBranch w then drift ht else 0

structure Keeps (w : Word) (ht : HwThread id) (target : Word) : Prop where
  link : links w → link w ≠ 0 → drift ht = 0
  target : (lead w ht = 0 ∧ (target ≠ 0 ∨ npc ht + 4 = 0)) ∨
    (target + lead w ht = 0 ∧ target = npc ht + 4)

/-- Where the code follows the rule. -/
def Sound (w : Word) (ht : HwThread id) : Prop :=
  match transfer w ht.specRegs.icc ht.pc ht.inst.aluResult with
  | .sequential | .skipping => True
  | .delayed target => Keeps w ht target
  | .redirected _ => drift ht = 0

theorem Latched.decodes {w : Word} {i : Instruction} (latched : Latched w i) : Decodes w i :=
  (decodes_ofWord w).of_operation latched.operation

def stepped (ht : HwThread id) : HwThread id :=
  { writeIcc ht with pc := npc ht, branchSlot := 0 }

theorem nextPc_eq (ht : HwThread id) (single : ht.inst.dbWordInstruction = false) :
    nextPc (writeIcc ht) = stepped ht := by
  have kept : (writeIcc ht).inst = ht.inst ∧ (writeIcc ht).pc = ht.pc ∧
      (writeIcc ht).branchSlot = ht.branchSlot := by
    unfold writeIcc
    split <;> exact ⟨rfl, rfl, rfl⟩
  obtain ⟨inst, pc, slot⟩ := kept
  simp only [nextPc, stepped, npc, inst, pc, slot, single]
  split
  · rfl
  · rename_i none
    rw [not_not] at none
    rw [← none, ← slot]

theorem relative_eq (ht : HwThread id) (disp : Word) :
    npc ht + disp * 4 - 4 = ht.pc + disp * 4 + drift ht := by
  unfold drift
  generalize disp * 4 = distance
  bv_omega

theorem isBranch_of_isCall {w : Word} (call : isCall w = true) : isBranch w = false := by
  simp only [isCall, beq_iff_eq] at call
  simp [isBranch, call]

theorem code_ba (cond : BitVec 4) : (BranchConditions.ofCode cond.toNat == some .ba) = (cond == 8) := by
  revert cond
  decide

def transferred (w : Word) (ht : HwThread id) : HwThread id :=
  match transfer w ht.specRegs.icc ht.pc ht.inst.aluResult with
  | .sequential => stepped ht
  | .delayed target => { stepped ht with branchSlot := target + lead w ht }
  | .skipping => { stepped ht with pc := npc ht + 4 }
  | .redirected target => { stepped ht with pc := target + drift ht }

theorem stepped_eq (ht : HwThread id) (plain : ht.inst.writeIcc = false) :
    stepped ht = { ht with pc := npc ht, branchSlot := 0 } := by
  simp [stepped, writeIcc, plain]

theorem inst_stepped (ht : HwThread id) : (stepped ht).inst = ht.inst := by
  unfold stepped writeIcc
  split <;> rfl

theorem takeBranch_eq {w : Word} {ht : HwThread id} (latched : Latched w ht.inst) :
    takeBranch (stepped ht) = .ok (transferred w ht) := by
  have decodes := latched.decodes
  cases call : isCall w with
  | true =>
      have other := isBranch_of_isCall call
      have plain := decodes.writeIcc (by simp [decodes.call, call])
      simp only [stepped_eq ht plain, takeBranch, branchCheck, addrCalc, transferred, transfer, lead,
        decodes.call, decodes.branch, decodes.pc, decodes.disp30, call, other]
      simp [bind, Except.bind, pure, Except.pure]
      exact relative_eq ht (disp30 w)
  | false =>
      cases branch : isBranch w with
      | true =>
          have plain := decodes.writeIcc (by simp [decodes.branch, branch])
          have jump : ht.inst.jump = false := by
            simp only [isBranch, Bool.and_eq_true, beq_iff_eq] at branch
            rw [decodes.jump, isJmpl, isRett, branch.1]
            rfl
          simp only [stepped_eq ht plain, takeBranch, branchCheck, addrCalc, transferred, transfer,
            lead, decodes.call, decodes.branch, decodes.pc, decodes.disp22, decodes.annul,
            decodes.condition, conditionHolds_eq, code_ba, call, branch, jump,
            Bool.true_and]
          cases taken (cond w) ht.specRegs.icc with
          | true =>
              cases annul w && cond w == 8 with
              | true =>
                  simp [bind, Except.bind, pure, Except.pure]
                  exact relative_eq ht (disp22 w)
              | false =>
                  simp [bind, Except.bind, pure, Except.pure]
                  exact relative_eq ht (disp22 w)
          | false => cases annul w <;> simp
      | false =>
          simp only [takeBranch, branchCheck, transferred, transfer, lead, inst_stepped, decodes.call,
            decodes.branch, decodes.jump, call, branch]
          cases isJmpl w || isRett w <;> simp

theorem incPc_eq {w : Word} {ht : HwThread id} (latched : Latched w ht.inst) :
    incPc ht = .ok (linkAddress (transferred w ht)) := by
  simp only [incPc, nextPc_eq ht latched.dbWord, takeBranch_eq latched]
  rfl

theorem counters_linkAddress (ht : HwThread id) : counters (linkAddress ht) = counters ht := by
  unfold linkAddress
  split <;> rfl

theorem moves_iff (w : Word) (ht : HwThread id) :
    counters (transferred w ht) =
        (counters ht).next 4 (transfer w ht.specRegs.icc ht.pc ht.inst.aluResult) ↔
      match transfer w ht.specRegs.icc ht.pc ht.inst.aluResult with
      | .sequential | .skipping => True
      | .delayed target => (lead w ht = 0 ∧ (target ≠ 0 ∨ npc ht + 4 = 0)) ∨
          (target + lead w ht = 0 ∧ target = npc ht + 4)
      | .redirected _ => drift ht = 0 := by
  unfold transferred
  cases transfer w ht.specRegs.icc ht.pc ht.inst.aluResult with
  | sequential => exact iff_of_true (ofSlot_zero 4 (npc ht)) trivial
  | skipping => exact iff_of_true (ofSlot_zero 4 (npc ht + 4)) trivial
  | delayed target =>
      have same : target + lead w ht = target ↔ lead w ht = 0 := by
        constructor <;> bv_omega
      have held : ofSlot 4 (npc ht) (target + lead w ht) = ⟨npc ht, target⟩ ↔ _ := ofSlot_eq_iff
      rwa [same] at held
  | redirected target =>
      have next : counters ({ stepped ht with pc := target + drift ht } : HwThread id) =
          ⟨target + drift ht, target + drift ht + 4⟩ := ofSlot_zero 4 (target + drift ht)
      simp only [next, Counters.next, Counters.mk.injEq]
      constructor
      · intro same
        bv_omega
      · intro none
        rw [none]
        simp

theorem transfer_of_links {w : Word} (links : links w) (icc : BitVec 8) (pc aluResult : Word) :
    ∃ target, transfer w icc pc aluResult = .delayed target := by
  cases call : isCall w with
  | true => exact ⟨pc + disp30 w * 4, by simp only [transfer, call, if_true]⟩
  | false =>
      have jump : isJmpl w = true := by simpa [Sparc.links, call] using links
      have branch : isBranch w = false := by
        simp only [isJmpl, Bool.and_eq_true, beq_iff_eq] at jump
        simp [isBranch, jump.1]
      exact ⟨aluResult, by simp [transfer, call, jump, branch]⟩

theorem links_iff {w : Word} {ht : HwThread id} (latched : Latched w ht.inst) (jumps : links w)
    (kept : link w ≠ 0) :
    (∃ written, writeRegs (linkAddress (transferred w ht)) = .ok written ∧
      written.readReg (link w) = ht.pc) ↔ drift ht = 0 := by
  obtain ⟨rd, writes⟩ := latched.link jumps
  obtain ⟨target, delayed⟩ := transfer_of_links jumps ht.specRegs.icc ht.pc ht.inst.aluResult
  have decodes := latched.decodes
  have asks : (ht.inst.jump || ht.inst.call) = true := by
    rw [decodes.jump, decodes.call]
    simp only [Sparc.links, Bool.or_eq_true] at jumps ⊢
    tauto
  have select : ht.inst.selectSpecialRegister = none := by
    apply decodes.select
    simp only [Bool.or_eq_true] at asks ⊢
    tauto
  have linked : linkAddress (transferred w ht) =
      { stepped ht with
        branchSlot := target + lead w ht
        inst := { ht.inst with aluResult := npc ht - 4 } } := by
    simp only [transferred, delayed, linkAddress, inst_stepped, asks, if_true]
    rfl
  have stored : writeRegs (linkAddress (transferred w ht)) =
      .ok ((linkAddress (transferred w ht)).writeReg (link w) (npc ht - 4)) := by
    simp [linked, writeRegs, writes, kept, select, specialValue, rd, bind, Except.bind, pure,
      Except.pure]
  rw [stored]
  simp only [Except.ok.injEq, exists_eq_left', HwThread.readReg, HwThread.writeReg,
    RegisterFile.get_set_same, drift]
  constructor <;> intro same <;> bv_omega

theorem follows_of_unlinked {w : Word} {ht : HwThread id} (other : links w = false) :
    Follows w ht (linkAddress (transferred w ht)) ↔
      counters (transferred w ht) =
        (counters ht).next 4 (transfer w ht.specRegs.icc ht.pc ht.inst.aluResult) := by
  constructor
  · intro follows
    rw [← counters_linkAddress]
    exact follows.moves
  · intro moves
    rw [← counters_linkAddress] at moves
    exact ⟨moves, fun jumps => absurd jumps (by simp [other])⟩

theorem follows_iff {w : Word} {ht : HwThread id} (latched : Latched w ht.inst) :
    Follows w ht (linkAddress (transferred w ht)) ↔ Sound w ht := by
  have moves := moves_iff w ht
  cases jumps : links w with
  | false =>
      rw [follows_of_unlinked jumps, moves, Sound]
      cases transfer w ht.specRegs.icc ht.pc ht.inst.aluResult with
      | sequential => exact Iff.rfl
      | skipping => exact Iff.rfl
      | redirected target => exact Iff.rfl
      | delayed target =>
          constructor
          · exact fun target => ⟨fun links => absurd links (by simp [jumps]), target⟩
          · exact fun keeps => keeps.target
  | true =>
      obtain ⟨target, delayed⟩ := transfer_of_links jumps ht.specRegs.icc ht.pc ht.inst.aluResult
      simp only [Sound, delayed] at moves ⊢
      constructor
      · intro follows
        have move := follows.moves
        rw [counters_linkAddress, delayed, moves] at move
        exact ⟨fun links kept => (links_iff latched links kept).mp (follows.links links kept), move⟩
      · intro keeps
        refine ⟨?_, fun links kept => (links_iff latched links kept).mpr (keeps.link links kept)⟩
        rw [counters_linkAddress, delayed]
        exact moves.mpr keeps.target

/-- The code follows the rule of the architecture exactly where it is sound. -/
theorem incPc_follows_iff (w : Word) (ht : HwThread id) (latched : Latched w ht.inst) :
    (∃ ht', incPc ht = .ok ht' ∧ Follows w ht ht') ↔ Sound w ht := by
  rw [← follows_iff latched, incPc_eq latched]
  simp only [Except.ok.injEq, exists_eq_left']

/-- A branch always, and where it stands. -/
def branchAlways (disp : BitVec 22) : Word := 0#2 ++ 0#1 ++ 8#4 ++ 2#3 ++ disp

/-- A thread at address 4 with a branch in its latch and a target pending. -/
def branching (slot : Word) : HwThread 0 :=
  { HwThread.reset 0 4 fun _ => 0 with
    branchSlot := slot, inst := Instruction.ofWord (branchAlways 4) }

theorem latched_branching (slot : Word) : Latched (branchAlways 4) (branching slot).inst :=
  ⟨rfl, show (Instruction.ofWord (branchAlways 4)).dbWordInstruction = false by decide,
    fun jumps => absurd jumps (by decide)⟩

theorem incPc_follows_iff_branch :
    ∃ ht', incPc (branching 0) = .ok ht' ∧ Follows (branchAlways 4) (branching 0) ht' :=
  (incPc_follows_iff _ _ (latched_branching 0)).mpr
    ⟨fun jumps => absurd jumps (by decide), Or.inl ⟨by decide, Or.inl (by decide)⟩⟩

/-- In the slot of a branch to 16, the branch at address 4 goes to 28 instead of 20. -/
theorem incPc_misses :
    ¬ ∀ (id : ThreadId) (w : Word) (ht : HwThread id), Latched w ht.inst →
      ∃ ht', incPc ht = .ok ht' ∧ Follows w ht ht' := by
  intro always
  obtain ⟨ht', moved, follows⟩ := always 0 _ _ (latched_branching 16)
  rw [incPc_eq (latched_branching 16)] at moved
  obtain rfl := Except.ok.inj moved
  have move := follows.moves
  rw [counters_linkAddress] at move
  have pending : (counters (transferred (branchAlways 4) (branching 16))).npc = 28 := by decide
  rw [move] at pending
  revert pending
  decide

end PretIss.ExceptStage
