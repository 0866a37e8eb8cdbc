import PretIss.Model.Definitions

/-! The special registers: the fields of the processor state register, the
ancillary registers, and the deadline and PLL timers with their statuses. -/

namespace PretIss

structure SpecialReg where
  impVer : BitVec 8
  currWp : BitVec 16
  icc : BitVec 8
  s : Bool
  ps : Bool
  tbr : Word
  wim : Word
  et : Bool
  ec : Bool
  ef : Bool
  pil : BitVec 8
  asr : Fin 32 → Word
  y : Word
  dt : Fin numDeadlineTimers → Word
  plldt : Fin numPllTimers → Word
  pllLoad : Fin numPllTimers → Word
  pllLoaded : Bool
  dtStatus : Fin numDeadlineTimers → DtStatus

namespace SpecialReg

def setPsr (r : SpecialReg) (fromRegister : Word) : SpecialReg :=
  { r with
    impVer := ((fromRegister &&& 0xFF000000) >>> 24).setWidth 8
    icc := ((fromRegister &&& 0x00F00000) >>> 20).setWidth 8
    ec := (fromRegister &&& 0x00002000) >>> 13 != 0
    ef := (fromRegister &&& 0x00001000) >>> 12 != 0
    pil := ((fromRegister &&& 0x00000F00) >>> 8).setWidth 8
    s := (fromRegister &&& 0x00000080) >>> 7 != 0
    ps := (fromRegister &&& 0x00000040) >>> 6 != 0
    et := (fromRegister &&& 0x00000020) >>> 5 != 0
    currWp := (fromRegister &&& 0x0000001F).setWidth 16 }

def bit (flag : Bool) : Word := if flag then 1 else 0

def getPsr (r : SpecialReg) : Word :=
  (r.impVer.setWidth 32 <<< 24) ||| (r.icc.setWidth 32 <<< 20) ||| (bit r.ec <<< 13) |||
    (bit r.ef <<< 12) ||| (r.pil.setWidth 32 <<< 8) ||| (bit r.s <<< 7) ||| (bit r.ps <<< 6) |||
    (bit r.et <<< 5) ||| r.currWp.setWidth 32

def getCarryBit (r : SpecialReg) : Word :=
  if r.getPsr &&& 0x00100000 ≠ 0 then 1 else 0

/-- The constructor ends by loading the processor state register, which puts the
thread in supervisor mode with traps enabled. -/
def create : SpecialReg :=
  setPsr
    { impVer := 0, currWp := 0, icc := 0, s := false, ps := false, tbr := 0x20, wim := 0x2
      et := false, ec := false, ef := false, pil := 0
      asr := fun i => if i.val = 17 then 0xB07 else 0
      y := 0, dt := fun _ => 0, plldt := fun _ => 0, pllLoad := fun _ => 0, pllLoaded := false
      dtStatus := fun _ => .unset }
    0xF30000E0

/-- The loop keeps the last timer it finds, so with several missed deadlines the
highest number is reported. -/
def missedDeadline (r : SpecialReg) : Option (Fin numDeadlineTimers) :=
  (List.finRange numDeadlineTimers).foldl
    (fun found i => if r.dtStatus i = .missed then some i else found) none

/-- The timers are counted down whatever their value; the test for a miss looks
one further round ahead. -/
def decrementDeadlineTimers (r : SpecialReg) : SpecialReg :=
  { r with
    dt := fun i => r.dt i - 1
    dtStatus := fun i =>
      if (r.dt i - 1 - 1).slt 0 ∧ r.dtStatus i = .set then .missed else r.dtStatus i }

def decrementPllTimers (r : SpecialReg) : SpecialReg :=
  { r with
    plldt := fun i =>
      if 0 < r.plldt i then r.plldt i - 1
      else if r.pllLoad i ≠ 0 then r.pllLoad i - 1
      else r.plldt i
    pllLoad := fun i =>
      if 0 < r.plldt i then r.pllLoad i
      else if r.pllLoad i ≠ 0 then 0
      else r.pllLoad i }

def getAsr (r : SpecialReg) (index : Int) : Except Halt Word := arrayGet r.asr index

def setAsr (r : SpecialReg) (value : Word) (index : Int) : Except Halt SpecialReg := do
  let asr ← arraySet r.asr index value
  return { r with asr }

def setDt (r : SpecialReg) (value : Word) (index : Fin numDeadlineTimers) : SpecialReg :=
  { r with dt := Function.update r.dt index value }

def getPllLoad (r : SpecialReg) (index : Int) : Except Halt Word := arrayGet r.pllLoad index

def setPllLoad (r : SpecialReg) (value : Word) (index : Int) : Except Halt SpecialReg := do
  let pllLoad ← arraySet r.pllLoad index value
  return { r with pllLoad }

def setDtStatus (r : SpecialReg) (value : DtStatus) (index : Int) : Except Halt SpecialReg := do
  let dtStatus ← arraySet r.dtStatus index value
  return { r with dtStatus }

/-- A trap is never reported for a timer whose status is not `missed`. -/
theorem status_of_missed (r : SpecialReg) (i : Fin numDeadlineTimers)
    (found : r.missedDeadline = some i) : r.dtStatus i = .missed := by
  have keep : ∀ (l : List (Fin numDeadlineTimers)) (start : Option (Fin numDeadlineTimers)),
      (∀ j, start = some j → r.dtStatus j = .missed) →
      ∀ j, l.foldl (fun found i => if r.dtStatus i = .missed then some i else found) start =
        some j → r.dtStatus j = .missed := by
    intro l
    induction l with
    | nil => exact fun start first => first
    | cons head tail ih =>
        intro start first
        rw [List.foldl_cons]
        apply ih
        intro j same
        split at same
        · simp_all
        · exact first j same
  exact keep _ none (by simp) i found

/-- With no timer missed, none is reported. -/
theorem missed_none_iff (r : SpecialReg) :
    r.missedDeadline = none ↔ ∀ i, r.dtStatus i ≠ .missed := by
  have keep : ∀ (l : List (Fin numDeadlineTimers)) (start : Option (Fin numDeadlineTimers)),
      l.foldl (fun found i => if r.dtStatus i = .missed then some i else found) start = none ↔
        start = none ∧ ∀ i ∈ l, r.dtStatus i ≠ .missed := by
    intro l
    induction l with
    | nil => simp
    | cons head tail ih =>
        intro start
        rw [List.foldl_cons, ih]
        by_cases missed : r.dtStatus head = .missed <;> simp [missed]
  simpa [missedDeadline] using keep (List.finRange numDeadlineTimers) none

end SpecialReg

end PretIss
