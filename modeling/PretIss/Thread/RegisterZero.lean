import PretIss.Thread.Stable

/-! Register 0 is no different from the others in the register file. It stays zero because
no latch ever asks for a write to it: decoding drops the request, and whatever replaces the
destination later names another register. -/

namespace PretIss

variable {id : ThreadId}

theorem RegisterFile.getReg_zero (r : RegisterFile) (windowPointer : BitVec 16) :
    r.getReg 0 windowPointer = r.globalReg 0 := rfl

theorem RegisterFile.set_global_zero (r : RegisterFile) {registerNumber : Nat}
    (other : registerNumber ≠ 0) (value : Word) (windowPointer : BitVec 16) :
    (r.setReg registerNumber value windowPointer).globalReg 0 = r.globalReg 0 := by
  unfold setReg
  split
  · apply Function.update_of_ne
    intro same
    exact other (congrArg Fin.val same).symm
  · rfl

def Instruction.SparesZero (i : Instruction) : Prop := i.rd = 0 → i.writeRegisters = false

theorem Instruction.sparesZero_decode (i : Instruction) : i.decode.SparesZero := by
  intro zero
  rw [writeRegisters_decode, zero]
  simp

namespace HwThread

def KeepsZero (ht : HwThread id) : Prop := ht.inst.SparesZero ∧ ht.regs.getReg 0 0 = 0

theorem KeepsZero.of_destination {ht : HwThread id} (other : ht.inst.rd ≠ 0)
    (zero : ht.regs.getReg 0 0 = 0) : ht.KeepsZero :=
  ⟨fun same => absurd same other, zero⟩

/-- Every stage keeps register 0 and the latch that spares it. -/
theorem stable_keepsZero : Stable (fun _ : HwThread id => True) KeepsZero where
  count := fun _ _ _ kept => kept
  stall := fun _ _ _ kept => kept
  settle := fun _ _ kept => kept
  raise := fun _ _ _ kept => kept
  move := fun _ _ _ kept => kept
  window := fun _ _ kept => kept
  receive := fun _ _ _ _ kept => ⟨fun _ => rfl, kept.2⟩
  decode := fun ht kept => ⟨ht.inst.sparesZero_decode, kept.2⟩
  regacc := fun ht ht' _ kept runs => by
    obtain ⟨_, rfl⟩ | ⟨_, waited, _, waits, rfl⟩ := Regacc.behavior_cases runs
    · exact kept
    · have still : KeepsZero (Regacc.checkDeadline waited) := by
        apply (Regacc.checkDeadline_unchanged KeepsZero (fun _ _ _ => rfl) waited).mpr
        unfold KeepsZero
        rw [waits.regs, waits.operation]
        exact kept
      have rd : (Regacc.operands (Regacc.checkDeadline waited)).inst.rd =
          Regacc.destination (Regacc.checkDeadline waited) := rfl
      cases second : Regacc.secondHalf (Regacc.checkDeadline waited) with
      | true =>
          refine KeepsZero.of_destination ?_ still.2
          rw [rd, Regacc.destination, second, if_pos rfl]
          exact Nat.succ_ne_zero _
      | false =>
          refine ⟨fun zero => still.1 ?_, still.2⟩
          rwa [rd, Regacc.destination, second, if_neg Bool.false_ne_true] at zero
  compute := fun _ _ _ _ kept => kept
  codes := fun _ kept => kept
  squash := fun _ kept => kept
  redirect := fun ht rd value which kept => by
    refine KeepsZero.of_destination ?_ kept.2
    obtain rfl | rfl := which
    · exact Nat.succ_ne_zero 16
    · exact Nat.succ_ne_zero 17
  writeReg := fun ht value writes kept => by
    have other : ht.inst.rd ≠ 0 := by
      intro same
      rw [kept.1 same] at writes
      cases writes
    exact ⟨kept.1, (ht.regs.set_global_zero other value _).trans kept.2⟩
  icc := fun _ kept => kept
  psr := fun _ _ kept => kept
  mode := fun _ _ _ kept => kept
  plain := fun _ _ _ _ _ kept => kept
  timers := fun _ _ _ _ _ kept => kept

end HwThread

namespace Core

/-- In every state that a core reaches, register 0 of every thread reads zero in every
window. -/
theorem register_zero {c c' : Core} {labels : List Phase} (fresh : c.IsFresh)
    (zero : ∀ id windowPointer, (c.pool id).regs.getReg 0 windowPointer = 0)
    (runs : Transition.run step labels c = .ok c') (id : ThreadId) (windowPointer : BitVec 16) :
    (c'.pool id).regs.getReg 0 windowPointer = 0 := by
  have start : ∀ id, HwThread.KeepsZero (c.pool id) := by
    intro id
    obtain ⟨pc, enabled, regs, same⟩ := fresh id
    refine ⟨?_, zero id 0⟩
    rw [same]
    exact fun _ => rfl
  rw [RegisterFile.getReg_zero]
  exact (holds_of_run (fun _ => HwThread.stable_keepsZero) start runs id).2

/-- Register 1 becomes 5, 7 is written to register 0, and the two are added to register 2. -/
def writesZero : List Word := [0x82102005, 0x80102007, 0x84000001]

theorem register_zero_written :
    ∃ c, Transition.run step (phasesOf 24) (running 2 writesZero) = .ok c ∧
      (c.pool 2).regs.getReg 2 0 = 5 ∧ (c.pool 2).regs.getReg 0 3 = 0 := by
  have returns : (Transition.run step (phasesOf 24) (running 2 writesZero)).toOption.any
      (fun c => (c.pool 2).regs.getReg 2 0 == 5) = true := by
    decide +kernel
  obtain ⟨c, runs, sum⟩ := Transition.exists_of_any returns
  refine ⟨c, runs, eq_of_beq sum, ?_⟩
  refine register_zero (running_isFresh 2 writesZero) (fun id windowPointer => ?_) runs 2 3
  by_cases own : id = 2 <;> simp [running, create, oneThread, own] <;> rfl

end Core

end PretIss
