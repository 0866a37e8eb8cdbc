import PretIss.Library.DelayedTransfer
import PretIss.Model.ExceptStage
import PretIss.Thread.Latch

/-! The control transfers of the architecture, read off the bits of a word: which words
transfer, under which conditions and where to. The decoder finds the same. -/

namespace PretIss.Sparc

open DelayedTransfer (Transfer)

section

variable (w : Word)

def op : BitVec 2 := w.extractLsb' 30 2

def op2 : BitVec 3 := w.extractLsb' 22 3

def op3 : BitVec 6 := w.extractLsb' 19 6

def cond : BitVec 4 := w.extractLsb' 25 4

def annul : Bool := w.getLsbD 29

def disp30 : Word := (w.setWidth 30).signExtend 32

def disp22 : Word := (w.setWidth 22).signExtend 32

def isCall : Bool := op w == 1

def isBranch : Bool := op w == 0 && op2 w == 2

def isJmpl : Bool := op w == 2 && op3 w == 0x38

def isRett : Bool := op w == 2 && op3 w == 0x39

def links : Bool := isCall w || isJmpl w

def link : Nat := if isCall w then 15 else (w.extractLsb' 25 5).toNat

end

/-- The test that the lower bits of a condition name. -/
def test (cond : BitVec 4) (n z v c : Bool) : Bool :=
  match (cond.setWidth 3).toNat with
  | 0 => false
  | 1 => z
  | 2 => z || (n ^^ v)
  | 3 => n ^^ v
  | 4 => c || z
  | 5 => c
  | 6 => n
  | _ => v

def taken (cond : BitVec 4) (icc : BitVec 8) : Bool :=
  cond.msb ^^ test cond (icc.getLsbD 3) (icc.getLsbD 2) (icc.getLsbD 1) (icc.getLsbD 0)

/-- What a word does to the program counters, at its address, for these condition codes
and for this sum of its operands. -/
def transfer (w : Word) (icc : BitVec 8) (pc aluResult : Word) : Transfer 32 :=
  if isCall w then .delayed (pc + disp30 w * 4)
  else if isBranch w then
    if taken (cond w) icc then
      if annul w && cond w == 8 then .redirected (pc + disp22 w * 4)
      else .delayed (pc + disp22 w * 4)
    else if annul w then .skipping
    else .sequential
  else if isJmpl w || isRett w then .delayed aluResult
  else .sequential

theorem field_eq (w mask : Word) (low width : Nat) (ones : mask.toNat >>> low = 2 ^ width - 1) :
    ((w &&& mask) >>> low).toNat = (w.extractLsb' low width).toNat := by
  rw [BitVec.toNat_ushiftRight, BitVec.toNat_and, Nat.shiftRight_and_distrib, ones,
    Nat.and_two_pow_sub_one_eq_mod, BitVec.extractLsb'_toNat]

theorem op1_eq (w : Word) : (w >>> 30).toNat = (op w).toNat := by
  have bound : w.toNat >>> 30 < 4 := by
    rw [Nat.shiftRight_eq_div_pow]
    have width := w.isLt
    omega
  rw [op, BitVec.toNat_ushiftRight, BitVec.extractLsb'_toNat, Nat.mod_eq_of_lt bound]

theorem bit_eq (w : Word) : ((w &&& 0x20000000) >>> 29 != 0) = annul w := by
  have low := field_eq w 0x20000000 29 1 rfl
  rw [annul, Bool.eq_iff_iff, bne_iff_ne, ne_eq, BitVec.toNat_eq, low]
  rw [BitVec.extractLsb'_toNat, ← BitVec.testBit_toNat, Nat.testBit_eq_decide_div_mod_eq,
    Nat.shiftRight_eq_div_pow]
  simp

theorem signExtend_eq {width : Nat} (x : BitVec width) (small : width ≤ 32) (some : 0 < width) :
    (x.setWidth 32 <<< (32 - width)).sshiftRight (32 - width) = x.signExtend 32 := by
  apply BitVec.eq_of_getLsbD_eq
  intro i bound
  have top : 31 - (32 - width) = width - 1 := by omega
  have above : ¬ 31 < 32 - width := by omega
  simp only [BitVec.getLsbD_sshiftRight, BitVec.getLsbD_signExtend, BitVec.getLsbD_shiftLeft,
    BitVec.getLsbD_setWidth, BitVec.msb_eq_getLsbD_last]
  by_cases low : i < width
  · have inside : 32 - width + i < 32 := by omega
    simp [low, bound, inside, Nat.not_le.mpr bound]
  · have outside : ¬ 32 - width + i < 32 := by omega
    simp [low, bound, outside, Nat.not_le.mpr bound, top, above]
    omega

theorem mask_eq (w mask : Word) {width : Nat} (ones : mask = (BitVec.allOnes width).setWidth 32) :
    w &&& mask = (w.setWidth width).setWidth 32 := by
  rw [ones]
  apply BitVec.eq_of_getLsbD_eq
  intro i bound
  simp only [BitVec.getLsbD_and, BitVec.getLsbD_setWidth, BitVec.getLsbD_allOnes]
  by_cases low : i < width <;> simp [low, bound]

theorem disp30_eq (w : Word) : ((w &&& 0x3FFFFFFF) <<< 2).sshiftRight 2 = disp30 w := by
  rw [mask_eq w 0x3FFFFFFF (show _ = (BitVec.allOnes 30).setWidth 32 by decide)]
  exact signExtend_eq (w.setWidth 30) (by decide) (by decide)

theorem disp22_eq (w : Word) : ((w &&& 0x003FFFFF) <<< 10).sshiftRight 10 = disp22 w := by
  rw [mask_eq w 0x003FFFFF (show _ = (BitVec.allOnes 22).setWidth 32 by decide)]
  exact signExtend_eq (w.setWidth 22) (by decide) (by decide)

/-- What the last stage asks of a latch to move the program counter. -/
structure Decodes (w : Word) (i : Instruction) : Prop where
  call : i.call = isCall w
  branch : i.branch = isBranch w
  jump : i.jump = (isJmpl w || isRett w)
  annul : i.annul = annul w
  condition : i.conditionalBranch = (cond w).toNat
  disp30 : i.disp30 = disp30 w
  disp22 : i.disp22 = disp22 w
  pc : i.pc = 0
  writeIcc : i.call || i.branch || i.jump → i.writeIcc = false
  select : i.call || i.branch || i.jump → i.selectSpecialRegister = none

def fields (w : Word) : Instruction := (Instruction.nop.setInst w).decodeFields

theorem decodeOperation_fields (i : Instruction) :
    i.decodeOperation.annul = i.annul ∧
      i.decodeOperation.conditionalBranch = i.conditionalBranch ∧
      i.decodeOperation.disp30 = i.disp30 ∧ i.decodeOperation.disp22 = i.disp22 ∧
      i.decodeOperation.pc = i.pc := by
  obtain decoded | decoded | ⟨op, decoded⟩ | ⟨op, decoded⟩ | ⟨op, decoded⟩ :=
    i.decodeOperation_cases <;> rw [decoded]
  · exact ⟨rfl, rfl, rfl, rfl, rfl⟩
  · exact ⟨rfl, rfl, rfl, rfl, rfl⟩
  · rcases op with _ | op
    · exact ⟨rfl, rfl, rfl, rfl, rfl⟩
    · cases op <;> exact ⟨rfl, rfl, rfl, rfl, rfl⟩
  · rcases op with _ | op
    · exact ⟨rfl, rfl, rfl, rfl, rfl⟩
    · cases op <;> exact ⟨rfl, rfl, rfl, rfl, rfl⟩
  · rcases op with _ | op
    · exact ⟨rfl, rfl, rfl, rfl, rfl⟩
    · cases op <;> exact ⟨rfl, rfl, rfl, rfl, rfl⟩

structure Plain (i : Instruction) : Prop where
  call : i.call = false
  branch : i.branch = false
  jump : i.jump = false
  writeIcc : i.writeIcc = false
  select : i.selectSpecialRegister = none

structure Asks (i : Instruction) (calls branches jumps : Bool) : Prop where
  call : i.call = calls
  branch : i.branch = branches
  jump : i.jump = jumps
  writeIcc : calls || branches || jumps → i.writeIcc = false
  select : calls || branches || jumps → i.selectSpecialRegister = none

theorem asks_decodeMemory {i : Instruction} (plain : Plain i) (op : Option Op3Memory) :
    Asks (i.decodeMemory op) false false false := by
  obtain ⟨call, branch, jump, _, _⟩ := plain
  rcases op with _ | op
  · exact ⟨call, branch, jump, by simp, by simp⟩
  · cases op <;> exact ⟨call, branch, jump, by simp, by simp⟩

theorem asks_decodeSethiBranches {i : Instruction} (plain : Plain i) (op : Option Op2) :
    Asks (i.decodeSethiBranches op) false (decide (op = some .bicc)) false := by
  obtain ⟨call, branch, jump, writeIcc, select⟩ := plain
  rcases op with _ | op
  · exact ⟨call, branch, jump, by simp, by simp⟩
  · cases op with
    | bicc => exact ⟨call, rfl, jump, fun _ => writeIcc, fun _ => select⟩
    | sethi | fbfcc | cbccc => exact ⟨call, branch, jump, by simp, by simp⟩

theorem asks_decodeArithmetic {i : Instruction} (plain : Plain i) (op : Option Op3Arithmetic) :
    Asks (i.decodeArithmetic op) false false (decide (op = some .jmpl ∨ op = some .rett)) := by
  obtain ⟨call, branch, jump, writeIcc, select⟩ := plain
  rcases op with _ | op
  · exact ⟨call, branch, jump, by simp, by simp⟩
  · cases op with
    | jmpl => exact ⟨call, branch, rfl, fun _ => writeIcc, fun _ => select⟩
    | rett => exact ⟨call, branch, rfl, fun _ => writeIcc, fun _ => select⟩
    | _ => exact ⟨call, branch, jump, by simp, by simp⟩

theorem op2_bicc : ∀ code : BitVec 3, decide (Op2.ofCode code.toNat = some .bicc) = (code == 2) := by
  decide

theorem op3_jump : ∀ code : BitVec 6,
    decide (Op3Arithmetic.ofCode code.toNat = some .jmpl ∨
      Op3Arithmetic.ofCode code.toNat = some .rett) = (code == 0x38 || code == 0x39) := by
  decide

theorem op_cases : ∀ code : BitVec 2, code = 0 ∨ code = 1 ∨ code = 2 ∨ code = 3 := by decide

theorem asks_decodeOperation (w : Word) :
    Asks (fields w).decodeOperation (isCall w) (isBranch w) (isJmpl w || isRett w) := by
  have plain : Plain (fields w) := ⟨rfl, rfl, rfl, rfl, rfl⟩
  have op1 : (fields w).op1 = (op w).toNat := op1_eq w
  have code2 : (fields w).op2 = (op2 w).toNat := field_eq w 0x01C00000 22 3 rfl
  have code3 : (fields w).op3 = (op3 w).toNat := field_eq w 0x01F80000 19 6 rfl
  rw [Instruction.decodeOperation, op1, code2, code3, isCall, isBranch, isJmpl, isRett]
  obtain format | format | format | format := op_cases (op w) <;> rw [format]
  · have asks := asks_decodeSethiBranches plain (Op2.ofCode (op2 w).toNat)
    rw [op2_bicc] at asks
    exact asks
  · exact ⟨rfl, rfl, rfl, fun _ => rfl, fun _ => rfl⟩
  · have asks := asks_decodeArithmetic plain (Op3Arithmetic.ofCode (op3 w).toNat)
    rw [op3_jump] at asks
    exact asks
  · exact asks_decodeMemory plain _

theorem of_fields {α : Type} (w : Word) (view : Instruction → α)
    (blind : ∀ i : Instruction, view { i with writeRegisters := false } = view i) :
    view (Instruction.ofWord w) = view (fields w).decodeOperation := by
  obtain same | same := Instruction.decode_eq (Instruction.nop.setInst w)
  · exact congrArg view same
  · exact (congrArg view same).trans (blind _)

theorem decodes_ofWord (w : Word) : Decodes w (Instruction.ofWord w) := by
  obtain ⟨call, branch, jump, writeIcc, select⟩ := asks_decodeOperation w
  obtain ⟨annul, condition, far, near, pc⟩ := decodeOperation_fields (fields w)
  have code : (fields w).conditionalBranch = (cond w).toNat := field_eq w 0x1E000000 25 4 rfl
  have calls := (of_fields w Instruction.call fun _ => rfl).trans call
  have branches := (of_fields w Instruction.branch fun _ => rfl).trans branch
  have jumps := (of_fields w Instruction.jump fun _ => rfl).trans jump
  constructor
  case call => exact calls
  case branch => exact branches
  case jump => exact jumps
  case annul => exact (of_fields w Instruction.annul fun _ => rfl).trans (annul.trans (bit_eq w))
  case condition =>
    exact (of_fields w Instruction.conditionalBranch fun _ => rfl).trans (condition.trans code)
  case disp30 => exact (of_fields w Instruction.disp30 fun _ => rfl).trans (far.trans (disp30_eq w))
  case disp22 => exact (of_fields w Instruction.disp22 fun _ => rfl).trans (near.trans (disp22_eq w))
  case pc => exact (of_fields w Instruction.pc fun _ => rfl).trans pc
  case writeIcc =>
    intro transfers
    rw [calls, branches, jumps] at transfers
    exact (of_fields w Instruction.writeIcc fun _ => rfl).trans (writeIcc transfers)
  case select =>
    intro transfers
    rw [calls, branches, jumps] at transfers
    exact (of_fields w Instruction.selectSpecialRegister fun _ => rfl).trans (select transfers)

theorem Decodes.of_operation {w : Word} {i j : Instruction} (decodes : Decodes w j)
    (same : i.operation = j.operation) : Decodes w i := by
  have view : ∀ {α : Type} (f : Instruction → α), (∀ i : Instruction, f i.operation = f i) →
      f i = f j := fun f blind => Instruction.of_operation f blind same
  have call := view Instruction.call fun _ => rfl
  have branch := view Instruction.branch fun _ => rfl
  have jump := view Instruction.jump fun _ => rfl
  refine ⟨call.trans decodes.call, branch.trans decodes.branch, jump.trans decodes.jump,
    (view Instruction.annul fun _ => rfl).trans decodes.annul,
    (view Instruction.conditionalBranch fun _ => rfl).trans decodes.condition,
    (view Instruction.disp30 fun _ => rfl).trans decodes.disp30,
    (view Instruction.disp22 fun _ => rfl).trans decodes.disp22,
    (view Instruction.pc fun _ => rfl).trans decodes.pc, fun transfers => ?_,
    fun transfers => ?_⟩
  · rw [call, branch, jump] at transfers
    exact (view Instruction.writeIcc fun _ => rfl).trans (decodes.writeIcc transfers)
  · rw [call, branch, jump] at transfers
    exact (view Instruction.selectSpecialRegister fun _ => rfl).trans (decodes.select transfers)

theorem icc_bit (icc : BitVec 8) (i : Nat) (inside : i < 8) :
    (icc &&& BitVec.twoPow 8 i != 0) = icc.getLsbD i := by
  rw [BitVec.and_twoPow]
  cases bit : icc.getLsbD i with
  | false => rfl
  | true =>
      rw [if_pos rfl, bne_iff_ne, ne_eq, BitVec.toNat_eq, BitVec.toNat_twoPow_of_lt inside]
      exact Nat.two_pow_pos i |>.ne'

theorem conditionHolds_eq (icc : BitVec 8) (cond : BitVec 4) :
    ExceptStage.conditionHolds icc (BranchConditions.ofCode cond.toNat) = taken cond icc := by
  have neg : (icc &&& 0x08 != 0) = icc.getLsbD 3 := icc_bit icc 3 (by decide)
  have zero : (icc &&& 0x04 != 0) = icc.getLsbD 2 := icc_bit icc 2 (by decide)
  have ovfl : (icc &&& 0x02 != 0) = icc.getLsbD 1 := icc_bit icc 1 (by decide)
  have carry : (icc &&& 0x01 != 0) = icc.getLsbD 0 := icc_bit icc 0 (by decide)
  simp only [ExceptStage.conditionHolds, taken, neg, zero, ovfl, carry]
  generalize icc.getLsbD 3 = n, icc.getLsbD 2 = z, icc.getLsbD 1 = v, icc.getLsbD 0 = c
  revert cond n z v c
  decide

end PretIss.Sparc
