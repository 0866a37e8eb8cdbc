import PretIss.Model.Regacc

/-! The register windows of nested calls. A `SAVE` moves to the next window, a `RESTORE` moves
back, and the windows overlap in a circle of 512 registers: the ins of the callee are the outs
of its caller. A caller's own registers are out of reach of its callees until the circle
closes, 31 windows on. -/

namespace PretIss

variable {id : ThreadId}

inductive WindowStep where
  | save | restore
  | write (registerNumber : Nat) (value : Word)

namespace HwThread

/-- What these instructions do to the window, and what a register write does. -/
def follow (ht : HwThread id) : WindowStep → HwThread id
  | .save => Regacc.thirdOperand { ht with inst := ht.inst.decodeArithmetic (some .save) }
  | .restore => Regacc.thirdOperand { ht with inst := ht.inst.decodeArithmetic (some .restore) }
  | .write registerNumber value => ht.writeReg registerNumber value

def followAll (ht : HwThread id) (steps : List WindowStep) : HwThread id :=
  steps.foldl follow ht

end HwThread

/-- The depth of the calls after these steps, where they are at most 30 deep, return no further
than they were called, and write only while nested, to registers 1 to 31. -/
def WindowStep.depth : Nat → List WindowStep → Option Nat
  | depth, [] => some depth
  | depth, .save :: rest => if depth < 30 then WindowStep.depth (depth + 1) rest else none
  | depth, .restore :: rest => if 0 < depth then WindowStep.depth (depth - 1) rest else none
  | depth, .write registerNumber _ :: rest =>
      if 0 < depth ∧ 1 ≤ registerNumber ∧ registerNumber ≤ 31 then WindowStep.depth depth rest
      else none

namespace RegisterFile

theorem windowIndex_val (registerNumber : Nat) (windowPointer : BitVec 16) :
    (windowIndex registerNumber windowPointer).val =
      (16 * windowPointer.toNat + (registerNumber - 8)) % 512 := by
  simp only [windowIndex, registerWindows, BitVec.toNat_mul]
  simp
  omega

theorem get_set_deeper (r : RegisterFile) {windowPointer deeper : BitVec 16} {depth n m : Nat}
    (nested : 0 < depth) (shallow : depth ≤ 30)
    (below : deeper.toNat = (windowPointer.toNat + 32 - depth) % 32)
    (window : windowPointer.toNat < 32) (value : Word) (written : n ≤ 31) (own : 16 ≤ m)
    (bound : m ≤ 31) : (r.setReg n value deeper).getReg m windowPointer = r.getReg m windowPointer := by
  have high : ¬ m < 8 := by omega
  by_cases low : n < 8
  · simp [getReg, setReg, low, high]
  · have apart : windowIndex m windowPointer ≠ windowIndex n deeper := by
      intro same
      have same := congrArg Fin.val same
      rw [windowIndex_val, windowIndex_val, below] at same
      omega
    simp [getReg, setReg, low, high, apart]

theorem getReg_ins (r : RegisterFile) {windowPointer deeper : BitVec 16}
    (below : deeper.toNat = (windowPointer.toNat + 31) % 32) {i : Nat} (small : i < 8) :
    r.getReg (24 + i) deeper = r.getReg (8 + i) windowPointer := by
  have same : windowIndex (24 + i) deeper = windowIndex (8 + i) windowPointer := by
    apply Fin.ext
    rw [windowIndex_val, windowIndex_val, below]
    omega
  rw [getReg, getReg, dif_neg (by omega), dif_neg (by omega), same]

end RegisterFile

namespace HwThread

theorem moveWindow_toNat (ht : HwThread id) (increment : BitVec 16) :
    (ht.moveWindow increment).specRegs.currWp.toNat =
      (ht.specRegs.currWp.toNat + increment.toNat) % 32 := by
  simp only [moveWindow, registerWindows, BitVec.toNat_umod, BitVec.toNat_add]
  simp

theorem follow_save (ht : HwThread id) :
    (ht.follow .save).regs = ht.regs ∧
      (ht.follow .save).specRegs.currWp.toNat = (ht.specRegs.currWp.toNat + 31) % 32 := by
  refine ⟨rfl, ?_⟩
  have moved := moveWindow_toNat ht (-1)
  calc (ht.follow .save).specRegs.currWp.toNat
      = (ht.moveWindow (-1)).specRegs.currWp.toNat := rfl
    _ = (ht.specRegs.currWp.toNat + 31) % 32 := by
      rw [moved]
      simp
      omega

theorem follow_restore (ht : HwThread id) :
    (ht.follow .restore).regs = ht.regs ∧
      (ht.follow .restore).specRegs.currWp.toNat = (ht.specRegs.currWp.toNat + 1) % 32 :=
  ⟨rfl, moveWindow_toNat ht 1⟩

structure Below (caller : HwThread id) (depth : Nat) (ht : HwThread id) : Prop where
  shallow : depth ≤ 30
  window : ht.specRegs.currWp.toNat = (caller.specRegs.currWp.toNat + 32 - depth) % 32
  kept : ∀ n, 16 ≤ n → n ≤ 31 →
    ht.regs.getReg n caller.specRegs.currWp = caller.regs.getReg n caller.specRegs.currWp

section

variable {caller : HwThread id} (first : caller.specRegs.currWp.toNat < 32)

include first

theorem Below.followAll {depth last : Nat} {ht : HwThread id} {steps : List WindowStep}
    (below : Below caller depth ht) (nested : WindowStep.depth depth steps = some last) :
    Below caller last (ht.followAll steps) := by
  induction steps generalizing depth ht with
  | nil =>
      obtain rfl := Option.some.inj nested
      exact below
  | cons step rest ih =>
      obtain ⟨shallow, window, kept⟩ := below
      cases step with
      | save =>
          simp only [WindowStep.depth, Option.ite_none_right_eq_some] at nested
          obtain ⟨regs, moved⟩ := ht.follow_save
          refine ih ⟨by omega, ?_, fun n own bound => ?_⟩ nested.2
          · rw [moved, window]
            omega
          · rw [regs]
            exact kept n own bound
      | restore =>
          simp only [WindowStep.depth, Option.ite_none_right_eq_some] at nested
          obtain ⟨regs, moved⟩ := ht.follow_restore
          refine ih ⟨by omega, ?_, fun n own bound => ?_⟩ nested.2
          · rw [moved, window]
            omega
          · rw [regs]
            exact kept n own bound
      | write registerNumber value =>
          simp only [WindowStep.depth, Option.ite_none_right_eq_some] at nested
          refine ih ⟨shallow, window, fun n own bound => ?_⟩ nested.2
          rw [← kept n own bound]
          exact RegisterFile.get_set_deeper ht.regs nested.1.1 shallow window first value
            nested.1.2.2 own bound

/-- Calls and returns that match leave the window and the caller's locals and ins as they were,
and a callee finds the outs of its caller in its ins. -/
theorem window_discipline :
    (∀ steps, WindowStep.depth 0 steps = some 0 →
        (caller.followAll steps).specRegs.currWp = caller.specRegs.currWp ∧
          ∀ n, 16 ≤ n → n ≤ 31 → (caller.followAll steps).readReg n = caller.readReg n) ∧
      ∀ i, i < 8 → (caller.follow .save).readReg (24 + i) = caller.readReg (8 + i) := by
  constructor
  · intro steps nested
    have start : Below caller 0 caller :=
      ⟨Nat.zero_le 30, by omega, fun _ _ _ => rfl⟩
    have last := start.followAll first nested
    have window : (caller.followAll steps).specRegs.currWp = caller.specRegs.currWp := by
      apply BitVec.eq_of_toNat_eq
      rw [last.window]
      omega
    refine ⟨window, fun n own bound => ?_⟩
    rw [readReg, window]
    exact last.kept n own bound
  · intro i small
    obtain ⟨regs, moved⟩ := caller.follow_save
    rw [readReg, regs]
    exact caller.regs.getReg_ins moved small

end

theorem window_discipline_create :
    (∀ steps, WindowStep.depth 0 steps = some 0 →
        ((create 0 0 fun _ => 0).followAll steps).specRegs.currWp =
            (create 0 0 fun _ => 0).specRegs.currWp ∧
          ∀ n, 16 ≤ n → n ≤ 31 →
            ((create 0 0 fun _ => 0).followAll steps).readReg n =
              (create 0 0 fun _ => 0).readReg n) ∧
      ∀ i, i < 8 →
        ((create 0 0 fun _ => 0).follow .save).readReg (24 + i) =
          (create 0 0 fun _ => 0).readReg (8 + i) :=
  window_discipline (by decide)

end HwThread

end PretIss
