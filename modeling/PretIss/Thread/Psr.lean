import Mathlib.Tactic.IntervalCases
import PretIss.Library.BitField
import PretIss.Thread.Stable

/-! The processor state register packs fields that are kept apart, without masking them.
Every stage keeps the packed fields within their places, so what is read can be written
back; and what is written reads back in the places that the register has. -/

namespace PretIss

namespace SpecialReg

theorem getElem_bit (flag : Bool) {i : Nat} (inside : i < 32) :
    (bit flag)[i] = (decide (i = 0) && flag) := by
  cases flag <;> simp [bit, BitVec.getElem_one]

theorem setPsr_eq (r : SpecialReg) (x : Word) :
    r.setPsr x =
      { r with
        impVer := ((x &&& 0xFF000000) >>> 24).setWidth 8
        icc := ((x &&& 0x00F00000) >>> 20).setWidth 8
        ec := x.getLsbD 13
        ef := x.getLsbD 12
        pil := ((x &&& 0x00000F00) >>> 8).setWidth 8
        s := x.getLsbD 7
        ps := x.getLsbD 6
        et := x.getLsbD 5
        currWp := (x &&& 0x0000001F).setWidth 16 } := by
  have single := fun (mask : Word) (n : Nat) => @BitField.cut_bit 32 x mask n
  simp only [setPsr, single 0x2000 13 (by decide) (by decide),
    single 0x1000 12 (by decide) (by decide), single 0x80 7 (by decide) (by decide),
    single 0x40 6 (by decide) (by decide), single 0x20 5 (by decide) (by decide)]

/-- The fields that have less room in the register than they have bits fit into it. -/
def Fits (r : SpecialReg) : Prop :=
  r.icc.toNat < 16 ∧ r.pil.toNat < 16 ∧ r.currWp.toNat < 32

theorem getPsr_setPsr (r : SpecialReg) (x : Word) : (r.setPsr x).getPsr = x &&& 0xFFF03FFF := by
  rw [setPsr_eq]
  apply BitVec.eq_of_getLsbD_eq
  intro i inside
  interval_cases i <;> simp [getPsr, getElem_bit]

theorem Fits.setPsr_getPsr {r : SpecialReg} (fits : r.Fits) : r.setPsr r.getPsr = r := by
  obtain ⟨codes, icc⟩ := BitField.exists_narrow 4 r.icc fits.1
  obtain ⟨level, pil⟩ := BitField.exists_narrow 4 r.pil fits.2.1
  obtain ⟨window, currWp⟩ := BitField.exists_narrow 5 r.currWp fits.2.2
  rw [setPsr_eq]
  cases r
  simp only at icc pil currWp
  subst icc pil currWp
  simp only [mk.injEq, and_true, true_and]
  refine ⟨?impVer, ?currWp, ?icc, ?s, ?ps, ?et, ?ec, ?ef, ?pil⟩
  case impVer | currWp | icc | pil =>
    apply BitVec.eq_of_getLsbD_eq
    intro i inside
    interval_cases i <;> simp [getPsr, getElem_bit]
  case s | ps | et | ec | ef => simp [getPsr, getElem_bit]

theorem fits_setPsr (r : SpecialReg) (x : Word) : (r.setPsr x).Fits :=
  ⟨Nat.lt_of_le_of_lt (BitField.toNat_cut_le x 0x00F00000 20 8) (by decide),
    Nat.lt_of_le_of_lt (BitField.toNat_cut_le x 0x00000F00 8 8) (by decide),
    Nat.lt_of_le_of_lt (BitField.toNat_cut_le x 0x0000001F 0 16) (by decide)⟩

end SpecialReg

theorem Instruction.icc_decode (i : Instruction) : i.decode.icc = i.icc := by
  rw [view_decode Instruction.icc (fun _ => rfl), i.decodeFields.kept_decodeOperation.2.2.2]
  rfl

variable {id : ThreadId}

namespace HwThread

def PsrFits (ht : HwThread id) : Prop := ht.specRegs.Fits ∧ ht.inst.icc.toNat < 16

theorem geticc_lt {i : Instruction} (small : i.icc.toNat < 16) :
    (Execute.geticc i).toNat < 16 := by
  have bound : ∀ {x y : BitVec 8}, x.toNat < 16 → y.toNat < 16 → (x ||| y).toNat < 16 := by
    intro x y left right
    rw [BitVec.toNat_or]
    exact Nat.or_lt_two_pow (n := 4) left right
  simp only [Execute.geticc]
  refine bound (bound (bound (bound small ?_) ?_) ?_) ?_ <;> split <;> decide

theorem PsrFits.moveWindow {ht : HwThread id} (fits : PsrFits ht) (increment : BitVec 16) :
    PsrFits (ht.moveWindow increment) := by
  refine ⟨⟨fits.1.1, fits.1.2.1, ?_⟩, fits.2⟩
  simp only [HwThread.moveWindow, BitVec.toNat_umod]
  exact Nat.mod_lt _ (by decide)

theorem stable_psrFits : Stable (fun _ : HwThread id => True) PsrFits where
  count := fun _ _ _ fits => fits
  stall := fun _ _ _ fits => fits
  settle := fun _ _ fits => fits
  raise := fun _ _ _ fits => fits
  move := fun _ _ _ fits => fits
  window := fun _ increment fits => fits.moveWindow increment
  receive := fun _ _ _ _ fits => ⟨fits.1, Nat.zero_lt_succ 15⟩
  decode := fun ht fits => ⟨fits.1, ht.inst.icc_decode ▸ fits.2⟩
  regacc := fun ht ht' _ fits runs => by
    obtain ⟨_, rfl⟩ | ⟨_, waited, _, waits, rfl⟩ := Regacc.behavior_cases runs
    · exact fits
    · have still : PsrFits (Regacc.checkDeadline waited) := by
        apply (Regacc.checkDeadline_unchanged PsrFits (fun _ _ _ => rfl) waited).mpr
        unfold PsrFits
        rw [waits.specRegs, waits.operation]
        exact fits
      exact still.moveWindow (Regacc.checkDeadline waited).inst.incrementWindowPointer
  compute := fun _ _ _ _ fits => fits
  codes := fun _ fits => ⟨fits.1, geticc_lt fits.2⟩
  squash := fun _ fits => fits
  redirect := fun _ _ _ _ fits => fits
  writeReg := fun _ _ _ fits => fits
  icc := fun _ fits => ⟨⟨fits.2, fits.1.2⟩, fits.2⟩
  psr := fun ht value fits => ⟨ht.specRegs.fits_setPsr value, fits.2⟩
  mode := fun _ _ _ fits => fits
  plain := fun _ _ _ _ _ fits => fits
  timers := fun _ _ _ _ _ fits => fits

end HwThread

namespace Core

/-- In every state that a core can reach, the status register of a thread can be written
back as it was read; and what is written to one reads back in the fields that it has. -/
theorem psr_round_trip {c c' : Core} {labels : List Phase} (fresh : c.IsFresh)
    (runs : Transition.run step labels c = .ok c') :
    (∀ id,
      (c'.pool id).specRegs.icc.toNat < 16 ∧ (c'.pool id).specRegs.pil.toNat < 16 ∧
        (c'.pool id).specRegs.currWp.toNat < 32 ∧
        (c'.pool id).specRegs.setPsr (c'.pool id).specRegs.getPsr = (c'.pool id).specRegs) ∧
      ∀ (r : SpecialReg) (x : Word), (r.setPsr x).getPsr = x &&& 0xFFF03FFF := by
  refine ⟨fun id => ?_, SpecialReg.getPsr_setPsr⟩
  have start : ∀ id, HwThread.PsrFits (c.pool id) := by
    intro id
    obtain ⟨pc, enabled, regs, same⟩ := fresh id
    rw [same]
    exact ⟨SpecialReg.fits_setPsr _ _, Nat.zero_lt_succ 15⟩
  have fits := holds_of_run (fun _ => HwThread.stable_psrFits) start runs id
  exact ⟨fits.1.1, fits.1.2.1, fits.1.2.2, fits.1.setPsr_getPsr⟩

/-- A write to the status register, a comparison and a SAVE. -/
def changesPsr : List Word := [0x81882500, 0x80A02001, 0x9DE3A000]

theorem psr_round_trip_changed :
    ∃ c, Transition.run step (phasesOf 24) (running 2 changesPsr) = .ok c ∧
      (c.pool 2).specRegs.icc = 9 ∧ (c.pool 2).specRegs.pil = 5 ∧
      (c.pool 2).specRegs.currWp = 31 ∧
      (c.pool 2).specRegs.setPsr (c.pool 2).specRegs.getPsr = (c.pool 2).specRegs := by
  have returns : (Transition.run step (phasesOf 24) (running 2 changesPsr)).toOption.any
      (fun c => (c.pool 2).specRegs.icc == 9 && (c.pool 2).specRegs.pil == 5 &&
        (c.pool 2).specRegs.currWp == 31) = true := by
    decide +kernel
  obtain ⟨c, runs, changed⟩ := Transition.exists_of_any returns
  simp only [Bool.and_eq_true, beq_iff_eq] at changed
  obtain ⟨⟨icc, pil⟩, window⟩ := changed
  exact ⟨c, runs, icc, pil, window,
    ((psr_round_trip (running_isFresh 2 changesPsr) runs).1 2).2.2.2⟩

end Core

end PretIss
