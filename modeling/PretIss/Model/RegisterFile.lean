import PretIss.Model.Definitions

/-! The register file of a thread: eight global registers and 512 window
registers that a window number and a register number index circularly. Only the
global registers are cleared by the constructor. -/

namespace PretIss

structure RegisterFile where
  globalReg : Fin 8 → Word
  windowReg : Fin (16 * registerWindows) → Word

namespace RegisterFile

def create (windowReg : Fin (16 * registerWindows) → Word) : RegisterFile where
  globalReg := fun _ => 0
  windowReg := windowReg

/-- The window address is an `unsigned short`, so its product wraps there before
the sum is reduced modulo the number of window registers. -/
def windowIndex (registerNumber : Nat) (windowPointer : BitVec 16) :
    Fin (16 * registerWindows) :=
  ⟨((windowPointer * 16).toNat + (registerNumber - 8)) % (16 * registerWindows),
    Nat.mod_lt _ (by decide)⟩

def getReg (r : RegisterFile) (registerNumber : Nat) (windowPointer : BitVec 16) : Word :=
  if h : registerNumber < 8 then r.globalReg ⟨registerNumber, h⟩
  else r.windowReg (windowIndex registerNumber windowPointer)

def setReg (r : RegisterFile) (registerNumber : Nat) (value : Word)
    (windowPointer : BitVec 16) : RegisterFile :=
  if h : registerNumber < 8 then
    { r with globalReg := Function.update r.globalReg ⟨registerNumber, h⟩ value }
  else
    { r with
      windowReg := Function.update r.windowReg (windowIndex registerNumber windowPointer) value }

/-- A register write is visible at the same number and window. -/
@[simp] theorem get_set_same (r : RegisterFile) (registerNumber : Nat) (value : Word)
    (windowPointer : BitVec 16) :
    (r.setReg registerNumber value windowPointer).getReg registerNumber windowPointer = value := by
  by_cases h : registerNumber < 8 <;> simp [getReg, setReg, h]

/-- Within one window, distinct register numbers below 40 name distinct registers. -/
theorem get_set_of_ne (r : RegisterFile) (first second : Nat) (value : Word)
    (windowPointer : BitVec 16) (different : first ≠ second) (small : first < 40)
    (bound : second < 40) :
    (r.setReg first value windowPointer).getReg second windowPointer =
      r.getReg second windowPointer := by
  by_cases low : first < 8 <;> by_cases other : second < 8
  · simp [getReg, setReg, low, other, different.symm]
  · simp [getReg, setReg, low, other]
  · simp [getReg, setReg, low, other]
  · have distinct : windowIndex second windowPointer ≠ windowIndex first windowPointer := by
      intro same
      have same := congrArg Fin.val same
      simp only [windowIndex, registerWindows] at same
      omega
    simp [getReg, setReg, low, other, distinct]

end RegisterFile

end PretIss
