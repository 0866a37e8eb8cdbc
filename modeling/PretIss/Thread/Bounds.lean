import PretIss.Thread.Indices
import PretIss.Thread.Registers
import PretIss.Thread.Program

/-! Which indices can leave their arrays. A field of an instruction word has five bits, so an
index goes outside only where the code computes it from a field: the number of a PLL timer,
and the register after register 31. -/

namespace PretIss

namespace Instruction

theorem rd_decodeOperation (i : Instruction) :
    i.decodeOperation.rd = if Op1.ofCode i.op1 = some .call then 15 else i.rd := by
  simp only [decodeOperation]
  rcases Op1.ofCode i.op1 with _ | op
  · rfl
  · cases op with
    | call => rfl
    | sethiBranches =>
        rcases Op2.ofCode i.op2 with _ | op
        · rfl
        · cases op <;> rfl
    | memory =>
        rcases Op3Memory.ofCode i.op3 with _ | op
        · rfl
        · cases op <;> rfl
    | arithmeticEtc =>
        rcases Op3Arithmetic.ofCode i.op3 with _ | op
        · rfl
        · cases op <;> rfl

theorem select_decodeOperation {i j : Instruction} (op1 : i.op1 = j.op1) (op2 : i.op2 = j.op2)
    (op3 : i.op3 = j.op3) (rs1 : i.rs1 = j.rs1) (rd : i.rd = j.rd) :
    i.decodeOperation.selectSpecialRegister = j.decodeOperation.selectSpecialRegister ∨
      (i.decodeOperation.selectSpecialRegister = i.selectSpecialRegister ∧
        j.decodeOperation.selectSpecialRegister = j.selectSpecialRegister) := by
  simp only [decodeOperation, op1, op2, op3]
  rcases Op1.ofCode j.op1 with _ | op
  · exact Or.inr ⟨rfl, rfl⟩
  · cases op with
    | call => exact Or.inr ⟨rfl, rfl⟩
    | sethiBranches =>
        rcases Op2.ofCode j.op2 with _ | op
        · exact Or.inr ⟨rfl, rfl⟩
        · cases op <;> exact Or.inr ⟨rfl, rfl⟩
    | memory =>
        rcases Op3Memory.ofCode j.op3 with _ | op
        · exact Or.inr ⟨rfl, rfl⟩
        · cases op <;> first | exact Or.inr ⟨rfl, rfl⟩ | exact Or.inl rfl
    | arithmeticEtc =>
        rcases Op3Arithmetic.ofCode j.op3 with _ | op
        · exact Or.inr ⟨rfl, rfl⟩
        · cases op <;> simp [decodeArithmetic, rs1, rd]

theorem rd_decode (i : Instruction) : i.decode.rd = (ofWord i.inst).rd := by
  have rd := view_decode Instruction.rd (fun _ => rfl)
  rw [ofWord, rd, rd, rd_decodeOperation, rd_decodeOperation]
  rfl

theorem select_decode (i : Instruction) :
    i.decode.selectSpecialRegister = (ofWord i.inst).selectSpecialRegister ∨
      (i.decode.selectSpecialRegister = i.selectSpecialRegister ∧
        (ofWord i.inst).selectSpecialRegister = none) := by
  have select := view_decode Instruction.selectSpecialRegister (fun _ => rfl)
  rw [ofWord, select, select]
  exact @select_decodeOperation i.decodeFields (nop.setInst i.inst).decodeFields rfl rfl rfl rfl rfl

theorem fields_decode (i : Instruction) :
    i.decode.rd < 32 ∧ i.decode.rs1 < 32 ∧ i.decode.rs2 < 32 := by
  have field : ∀ (x mask : Word) (shift : Nat), mask.toNat / 2 ^ shift = 31 →
      ((x &&& mask) >>> shift).toNat < 32 := by
    intro x mask shift width
    rw [BitVec.toNat_ushiftRight, BitVec.toNat_and, Nat.shiftRight_eq_div_pow]
    have bound := Nat.div_le_div_right (c := 2 ^ shift) (Nat.and_le_right (n := x.toNat) (m := mask.toNat))
    omega
  obtain ⟨_, rs1, rs2, _⟩ := i.decodeFields.kept_decodeOperation
  rw [view_decode Instruction.rd (fun _ => rfl), view_decode Instruction.rs1 (fun _ => rfl),
    view_decode Instruction.rs2 (fun _ => rfl), rd_decodeOperation, rs1, rs2]
  refine ⟨?_, field i.inst 0x0007C000 14 rfl, field i.inst 0x1F 0 rfl⟩
  split
  · decide
  · exact field i.inst 0x3E000000 25 rfl

end Instruction

namespace Access

theorem inBounds_register {registerNumber : Nat} (small : registerNumber < 32) :
    (register registerNumber).InBounds :=
  ⟨Int.natCast_nonneg _, Int.ofNat_lt.mpr small⟩

theorem inBounds_timer {rd : Nat} (regular : rd < numDeadlineTimers) :
    (dt rd).InBounds ∧ (dtStatus rd).InBounds :=
  ⟨⟨Int.natCast_nonneg _, Int.ofNat_lt.mpr regular⟩,
    Int.natCast_nonneg _, Int.ofNat_lt.mpr regular⟩

theorem inBounds_pllLoad {rd : Nat} (last : rd = 8) : (pllLoad (rd - 8)).InBounds := by
  subst last
  decide

end Access

variable {id : ThreadId} {σ : Type}

namespace Regacc

/-- The instruction names a timer, and the second half of a double word a register. -/
def Bounded (ht : HwThread id) : Prop :=
  (ht.inst.selectSpecialRegister = some .dt → ht.inst.rd ≤ 8) ∧
    (secondHalf ht = true → ht.inst.rd ≠ 31)

def Settled (ht : HwThread id) : Prop :=
  (ht.inst.rd = (Instruction.ofWord ht.inst.inst).rd ∧
    ht.inst.rd < 32 ∧ ht.inst.rs1 < 32 ∧ ht.inst.rs2 < 32) ∧
    (ht.deadlineStalled = true → ht.inst.selectSpecialRegister = some .dt)

theorem doubleWord_rd (ht : HwThread id) : (doubleWordInstruction ht).inst.rd = destination ht := by
  unfold doubleWordInstruction destination secondHalf
  split <;> rfl

/-- What a deadline instruction does to the flags that the mailbox of the PLL timer goes by. -/
theorem deadlineInstruction_cases {ht waited : HwThread id}
    (runs : deadlineInstruction ht = .ok waited) :
    (ht.inst.selectSpecialRegister ≠ some .dt ∧ waited = ht) ∨
      (ht.inst.selectSpecialRegister = some .dt ∧ ht.inst.rd < 8 ∧
        waited.specRegs.pllLoaded = ht.specRegs.pllLoaded) ∨
      (ht.inst.selectSpecialRegister = some .dt ∧ ht.inst.rd = 8 ∧
        (waited.deadlineStalled = true ∨
          (ht.specRegs.pllLoaded = true ∧ waited.specRegs.pllLoaded = false ∧
            waited.deadlineStalled = ht.deadlineStalled))) := by
  by_cases select : ht.inst.selectSpecialRegister = some .dt
  · right
    by_cases regular : ht.inst.rd < numDeadlineTimers
    · left
      simp only [deadlineInstruction, select, regular, if_true, dif_pos, Except.ok.injEq] at runs
      refine ⟨select, regular, ?_⟩
      subst runs
      unfold destinationRegularDeadlines
      split <;> rfl
    · right
      simp only [deadlineInstruction, select, regular, if_true, dif_neg, not_false_eq_true,
        destinationPhaselockloopDeadlines] at runs
      obtain ⟨load, loads, runs⟩ := Transition.bind_eq_ok.mp runs
      have inside := (arrayGet_returns_iff ht.specRegs.pllLoad (ht.inst.rd - 8)).mp ⟨load, loads⟩
      have only : (numPllTimers : Int) = 1 := rfl
      refine ⟨select, by omega, ?_⟩
      split at runs
      · obtain rfl := Except.ok.inj runs
        exact Or.inl rfl
      · cases loaded : ht.specRegs.pllLoaded with
        | false =>
            simp only [loaded, Bool.false_eq_true, not_false_eq_true, if_true] at runs
            obtain rfl := Except.ok.inj runs
            exact Or.inl rfl
        | true =>
            simp only [loaded, not_true_eq_false, if_false] at runs
            obtain rfl := Except.ok.inj runs
            exact Or.inr ⟨rfl, rfl, rfl⟩
  · rw [deadlineInstruction_of_ne select] at runs
    exact Or.inl ⟨select, (Except.ok.inj runs).symm⟩

end Regacc

namespace HwThread

/-- What a thread keeps between all its calls: its trap is none beyond the timers, a deadline
instruction in the latch comes from its word, and the mailbox is in use only by a thread that
waits for the PLL timer. -/
def Sound (ht : HwThread id) : Prop :=
  (ht.trapType.toNat < 0x78 ∧
    (ht.inst.selectSpecialRegister = some .dt →
      (Instruction.ofWord ht.inst.inst).selectSpecialRegister = some .dt)) ∧
    (ht.deadlineStalled = true →
      (Instruction.ofWord ht.inst.inst).selectSpecialRegister = some .dt) ∧
    (ht.specRegs.pllLoaded = true →
      ht.deadlineStalled = true ∧ (Instruction.ofWord ht.inst.inst).rd = 8)

theorem Sound.settled {ht : HwThread id} (sound : ht.Sound) :
    Regacc.Settled ({ ht with inst := ht.inst.decode } : HwThread id) := by
  obtain ⟨rd, rs1, rs2⟩ := ht.inst.fields_decode
  refine ⟨⟨?_, rd, rs1, rs2⟩, fun waits => ?_⟩
  · change ht.inst.decode.rd = (Instruction.ofWord ht.inst.decode.inst).rd
    rw [Instruction.inst_decode]
    exact ht.inst.rd_decode
  · have word := sound.2.1 waits
    obtain select | ⟨_, none⟩ := ht.inst.select_decode
    · exact select.trans word
    · rw [none] at word
      cases word

theorem Sound.decode {ht : HwThread id} (sound : ht.Sound) :
    Sound ({ ht with inst := ht.inst.decode } : HwThread id) := by
  obtain ⟨⟨trap, latch⟩, waits, mailbox⟩ := sound
  have word : (Instruction.ofWord ht.inst.decode.inst) = Instruction.ofWord ht.inst.inst := by
    rw [Instruction.inst_decode]
  refine ⟨⟨trap, fun select => ?_⟩, fun stalled => ?_, fun loaded => ?_⟩
  · simp only [word]
    obtain same | ⟨same, _⟩ := ht.inst.select_decode
    · exact same.symm.trans select
    · exact latch (same.symm.trans select)
  · simp only [word]
    exact waits stalled
  · simp only [word]
    exact mailbox loaded

theorem Sound.checkDeadline {ht : HwThread id} (sound : ht.Sound) :
    (Regacc.checkDeadline ht).Sound := by
  obtain same | ⟨_, timer, _, same⟩ := Regacc.checkDeadline_cases ht <;> rw [same]
  · exact sound
  · refine ⟨⟨?_, sound.1.2⟩, sound.2⟩
    have number := ExceptStage.deadlineTrap_toNat timer
    have bound : timer.val < 8 := timer.isLt
    change (ExceptStage.deadlineTrap timer).toNat < 0x78
    omega

theorem Sound.deadlineInstruction {ht waited : HwThread id} (sound : ht.Sound)
    (settled : Regacc.Settled ht) (runs : Regacc.deadlineInstruction ht = .ok waited) :
    waited.Sound := by
  have waits := Regacc.waits_deadlineInstruction runs
  obtain ⟨⟨trap, latch⟩, stalled, mailbox⟩ := sound
  have word : waited.inst.inst = ht.inst.inst := by rw [waits.operation]
  have select : waited.inst.selectSpecialRegister = ht.inst.selectSpecialRegister := by
    rw [waits.operation]
  unfold Sound
  rw [waits.trapType, word, select]
  refine ⟨⟨trap, latch⟩, ?_⟩
  obtain ⟨_, rfl⟩ | ⟨deadline, small, same⟩ | ⟨deadline, last, stalls⟩ :=
    Regacc.deadlineInstruction_cases runs
  · exact ⟨stalled, mailbox⟩
  · refine ⟨fun _ => latch deadline, fun loaded => ?_⟩
    have other := (mailbox (same.symm.trans loaded)).2
    have own := settled.1.1
    omega
  · refine ⟨fun _ => latch deadline, fun loaded => ⟨?_, settled.1.1.symm.trans last⟩⟩
    obtain stalls | ⟨_, empty, _⟩ := stalls
    · exact stalls
    · rw [empty] at loaded
      cases loaded

theorem stable_sound :
    Stable (fun ht : HwThread id => ht.isNotValid = false → Regacc.Settled ht) Sound where
  count := fun _ _ _ sound => sound
  stall := fun _ _ _ sound => sound
  settle := fun _ _ sound => sound
  raise := fun ht trapType which sound => by
    refine ⟨⟨?_, sound.1.2⟩, sound.2⟩
    have small : ∀ trapType : BitVec 16, trapType = 0x02 ∨ trapType = 0x03 →
        trapType.toNat < 0x78 := by
      rintro _ (rfl | rfl) <;> decide
    exact small trapType which
  move := fun _ _ _ sound => sound
  window := fun _ _ sound => sound
  receive := fun ht bits stall free sound => by
    simp only [Fetch.isHeld, Bool.or_eq_false_iff] at free
    have waitless : ht.deadlineStalled ≠ true := by simp [free.1.2]
    refine ⟨⟨sound.1.1, fun select => ?_⟩, fun waits => absurd waits waitless, fun loaded => ?_⟩
    · cases select
    · exact absurd (sound.2.2 loaded).1 waitless
  decode := fun _ sound => sound.decode
  regacc := fun ht ht' settled sound runs => by
    obtain ⟨_, rfl⟩ | ⟨valid, waited, waits, _, rfl⟩ := Regacc.behavior_cases runs
    · exact sound
    · exact (sound.deadlineInstruction (settled valid) waits).checkDeadline
  compute := fun _ _ _ _ sound => sound
  codes := fun _ sound => sound
  squash := fun _ sound => sound
  redirect := fun _ _ _ _ sound => sound
  writeReg := fun _ _ _ sound => sound
  icc := fun _ sound => sound
  psr := fun _ _ sound => sound
  mode := fun _ _ _ sound => sound
  plain := fun _ _ _ _ _ sound => sound
  timers := fun _ _ _ _ _ sound => sound

def Aimed (ht : HwThread id) : Prop :=
  ht.isNotValid = false →
    (ht.inst.rs1 < 32 ∧ ht.inst.rd < 32) ∧
      (ht.inst.selectSpecialRegister = some .dt → ht.deadlineStalled = false → ht.inst.rd ≤ 8) ∧
      (ht.specRegs.pllLoaded = true → ht.inst.rd = 8)

theorem Aimed.of_control {ht ht' : HwThread id} (aimed : ht.Aimed)
    (same : ht'.control = ht.control) : ht'.Aimed := by
  have view := HwThread.of_control Aimed (fun _ => rfl) same
  exact view.mpr aimed

end HwThread

namespace Regacc

theorem destination_lt {ht waited : HwThread id} (sound : ht.Sound) (settled : Settled ht)
    (bounded : Bounded ht) (waits : deadlineInstruction ht = .ok waited) :
    destination waited < 32 ∧
      (ht.inst.selectSpecialRegister = some .dt → destination waited ≤ 8) ∧
      (waited.specRegs.pllLoaded = true → destination waited = 8) := by
  have rd : waited.inst.rd = ht.inst.rd := by rw [(waits_deadlineInstruction waits).operation]
  obtain ⟨⟨word, small, _⟩, stalled⟩ := settled
  have mailbox := sound.2.2
  have pll : waited.deadlineStalled = true → destination waited = ht.inst.rd := by
    intro stalls
    simp [destination, secondHalf, stalls, rd]
  obtain ⟨other, rfl⟩ | ⟨_, below, same⟩ | ⟨_, last, stalls⟩ := deadlineInstruction_cases waits
  · refine ⟨?_, fun select => absurd select other, fun loaded => ?_⟩
    · unfold destination
      split
      · rename_i second
        have allowed := bounded.2 second
        omega
      · exact small
    · exact absurd (stalled (mailbox loaded).1) other
  · have near : destination waited ≤ ht.inst.rd + 1 := by
      unfold destination
      split <;> omega
    refine ⟨by omega, fun _ => by omega, fun loaded => ?_⟩
    have own := (mailbox (same.symm.trans loaded)).2
    omega
  · have waits : waited.deadlineStalled = true := by
      obtain stalls | ⟨loaded, _, same⟩ := stalls
      · exact stalls
      · exact same.trans (mailbox loaded).1
    have own := pll waits
    exact ⟨by omega, fun _ => by omega, fun _ => by omega⟩

theorem aimed_behavior {ht ht' : HwThread id} (sound : ht.Sound)
    (settled : ht.isNotValid = false → Settled ht) (bounded : ht.isNotValid = false → Bounded ht)
    (runs : behavior ht = .ok ht') : ht'.Aimed := by
  obtain ⟨invalid, rfl⟩ | ⟨valid, waited, waits, changes, rfl⟩ := behavior_cases runs
  · intro valid
    rw [invalid] at valid
    cases valid
  · intro _
    obtain ⟨bound, timer, mailbox⟩ :=
      destination_lt sound (settled valid) (bounded valid) waits
    have view : ∀ {α : Type} (f : HwThread id → α),
        (∀ (ht : HwThread id) state trapType,
          f { ht with trapped := state, trapType := trapType } = f ht) →
        f (checkDeadline waited) = f waited :=
      fun f blind => checkDeadline_unchanged f blind waited
    have rd : (operands (checkDeadline waited)).inst.rd = destination waited :=
      view destination fun _ _ _ => rfl
    have rs1 : (operands (checkDeadline waited)).inst.rs1 = ht.inst.rs1 := by
      have same : waited.inst.rs1 = ht.inst.rs1 := by rw [changes.operation]
      exact (view (fun ht => ht.inst.rs1) fun _ _ _ => rfl).trans same
    have select : (operands (checkDeadline waited)).inst.selectSpecialRegister =
        ht.inst.selectSpecialRegister := by
      have same : waited.inst.selectSpecialRegister = ht.inst.selectSpecialRegister := by
        rw [changes.operation]
      exact (view (fun ht => ht.inst.selectSpecialRegister) fun _ _ _ => rfl).trans same
    have loaded : (operands (checkDeadline waited)).specRegs.pllLoaded =
        waited.specRegs.pllLoaded := view (fun ht => ht.specRegs.pllLoaded) fun _ _ _ => rfl
    rw [rd, rs1, select, loaded]
    exact ⟨⟨(settled valid).1.2.2.1, bound⟩, fun deadline _ => timer deadline, mailbox⟩

/-- Where a register access is allowed, all its indices are inside. -/
theorem accesses_inBounds {ht : HwThread id} (sound : ht.Sound)
    (settled : ht.isNotValid = false → Settled ht) (bounded : ht.isNotValid = false → Bounded ht) :
    ∀ access ∈ accesses ht, access.InBounds := by
  unfold accesses
  cases valid : ht.isNotValid with
  | true => simp
  | false =>
      have settled := settled valid
      have bounded := bounded valid
      rw [if_neg Bool.false_ne_true, List.forall_mem_append]
      constructor
      · unfold deadlineAccesses
        split
        · rename_i select
          have near := bounded.1 select
          split
          · rename_i regular
            rw [List.forall_mem_cons, List.forall_mem_singleton]
            exact Access.inBounds_timer regular
          · rename_i irregular
            rw [List.forall_mem_singleton]
            exact Access.inBounds_pllLoad (Nat.le_antisymm near (Nat.le_of_not_lt irregular))
        · simp
      · cases waits : deadlineInstruction ht with
        | error halt => simp
        | ok waited =>
            have changes := waits_deadlineInstruction waits
            have bound := (destination_lt sound settled bounded waits).1
            have rs1 : waited.inst.rs1 < 32 := by
              rw [changes.operation]
              exact settled.1.2.2.1
            have rs2 : waited.inst.rs2 < 32 := by
              rw [changes.operation]
              exact settled.1.2.2.2
            simp only
            rw [List.forall_mem_append]
            refine ⟨by decide, ?_⟩
            simp only [operandAccesses, doubleWord_rd, List.cons_append, List.forall_mem_cons,
              List.forall_mem_append]
            refine ⟨Access.inBounds_register rs1, ?_, Access.inBounds_register bound, by simp⟩
            split
            · simp
            · rw [List.forall_mem_singleton]
              exact Access.inBounds_register rs2

end Regacc

namespace ExceptStage

theorem inBounds_trap {ht : HwThread id} (sound : ht.Sound) :
    ∀ access ∈ trapAccesses ht, access.InBounds := by
  unfold trapAccesses
  split
  · rename_i clears
    have number := trapOffset_toNat ht
    have small := sound.1.1
    have low : 0x70 ≤ (trapOffset ht).toNat := clears.2.1
    rw [if_neg (by omega)] at number
    rw [List.forall_mem_singleton]
    have timers : ((numDeadlineTimers : Nat) : Int) = 8 := rfl
    constructor <;> simp only [Access.position, Access.size] <;> omega
  · simp

/-- What a commit goes by once the exceptions are handled. A squashed instruction writes no
special register, and a register of the trap. -/
theorem inBounds_writes {ht squashed : HwThread id} {handled : Bool}
    (aimed : (ht.inst.rs1 < 32 ∧ ht.inst.rd < 32) ∧
      (ht.inst.selectSpecialRegister = some .dt → ht.inst.rd ≤ 8))
    (runs : handleExceptions ht = .ok (squashed, handled)) :
    ∀ access ∈ writeAccesses squashed ++ writeSpecialAccesses squashed, access.InBounds := by
  obtain ⟨⟨rs1, rd⟩, timer⟩ := aimed
  have source : squashed.inst.rs1 = ht.inst.rs1 ∧ squashed.inst.rd < 32 ∧
      (squashed.inst.writeSpecialRegisters = true →
        squashed.inst.rd = ht.inst.rd ∧
          squashed.inst.selectSpecialRegister = ht.inst.selectSpecialRegister) := by
    obtain ⟨_, _, rfl⟩ | ⟨_, _, ⟨_, rfl⟩ | ⟨_, rfl⟩ | ⟨_, rfl⟩⟩ := handleExceptions_cases runs
    · exact ⟨rfl, rd, fun _ => ⟨rfl, rfl⟩⟩
    · rw [firstPass_eq]
      exact ⟨rfl, (by decide : 17 < 32), fun writes => by cases writes⟩
    · exact ⟨rfl, (by decide : 18 < 32), fun writes => by cases writes⟩
    · exact ⟨rfl, rd, fun writes => by cases writes⟩
  obtain ⟨same, small, own⟩ := source
  rw [List.forall_mem_append]
  constructor
  · unfold writeAccesses
    split
    · rw [List.forall_mem_append, List.forall_mem_singleton]
      refine ⟨?_, Access.inBounds_register small⟩
      split
      · rw [List.forall_mem_singleton, same]
        exact ⟨Int.natCast_nonneg _, Int.ofNat_lt.mpr rs1⟩
      · simp
    · simp
  · unfold writeSpecialAccesses
    split
    · rename_i writes
      obtain ⟨number, selected⟩ := own writes
      split
      · rw [List.forall_mem_singleton]
        exact ⟨Int.natCast_nonneg _, Int.ofNat_lt.mpr small⟩
      · rename_i deadline
        have near := timer (selected.symm.trans deadline)
        split
        · rename_i regular
          rw [List.forall_mem_singleton]
          exact (Access.inBounds_timer regular).1
        · rename_i irregular
          rw [List.forall_mem_singleton]
          refine Access.inBounds_pllLoad (Nat.le_antisymm ?_ (Nat.le_of_not_lt irregular))
          exact number.trans_le near
      · simp
    · simp

theorem accesses_inBounds {ht : HwThread id} (sound : ht.Sound) (aimed : ht.Aimed) :
    ∀ access ∈ accesses ht, access.InBounds := by
  have arrived := HwThread.stable_sound.arrive sound
  have still : ∀ {α : Type} (view : HwThread id → α), (∀ (ht : HwThread id) cycles stalled,
      view { ht with cntCycles := cycles, dbWordStalled := stalled } = view ht) →
      view (arrive ht) = view ht := fun view blind => arrive_unchanged view blind ht
  have inst : (arrive ht).inst = ht.inst := still HwThread.inst fun _ _ _ => rfl
  unfold accesses
  cases valid : ht.isNotValid with
  | true => simp
  | false =>
      obtain ⟨bound, timer, mailbox⟩ := aimed valid
      rw [if_neg Bool.false_ne_true]
      cases waits : ht.deadlineStalled with
      | true =>
          unfold deadAccesses
          rw [if_pos rfl, inst]
          split
          · rename_i mails
            rw [Bool.and_eq_true] at mails
            have loaded := (still (fun ht => ht.specRegs.pllLoaded) fun _ _ _ => rfl).symm.trans
              mails.1
            rw [List.forall_mem_singleton]
            exact Access.inBounds_pllLoad (mailbox loaded)
          · simp
      | false =>
          rw [if_neg Bool.false_ne_true]
          split
          · simp
          · rw [commitAccesses, List.forall_mem_append]
            refine ⟨inBounds_trap arrived, ?_⟩
            cases handles : handleExceptions (arrive ht) with
            | error halt => simp
            | ok result =>
                refine inBounds_writes ?_ handles
                rw [inst]
                exact ⟨bound, fun select => timer select waits⟩

end ExceptStage

/-- The calls in which the code computes an index keep to the numbers there are. -/
def Call.Bounded : Call id → Prop
  | .stage .regacc ht => ht.isNotValid = false → Regacc.Bounded ht
  | _ => True

namespace Call

def InBounds (call : Call id) : Prop := ∀ access ∈ call.accesses, access.InBounds

theorem bounded_of_inBounds {call : Call id} (inside : call.InBounds) : call.Bounded := by
  rcases call with ⟨stage, ht⟩ | _
  · cases stage with
    | regacc =>
        intro valid
        have listed : ∀ access, access ∈ Regacc.accesses ht → access.InBounds := inside
        simp only [Regacc.accesses, valid, Bool.false_eq_true, if_false] at listed
        have timer : ht.inst.selectSpecialRegister = some .dt → ht.inst.rd ≤ 8 := by
          intro select
          by_contra beyond
          have irregular : ¬ ht.inst.rd < numDeadlineTimers := by
            have timers : numDeadlineTimers = 8 := rfl
            omega
          have named := listed (.pllLoad (ht.inst.rd - 8))
            (List.mem_append_left _ (by simp [Regacc.deadlineAccesses, select, irregular]))
          have only : ((numPllTimers : Nat) : Int) = 1 := rfl
          simp only [Access.InBounds, Access.position, Access.size] at named
          omega
        refine ⟨timer, fun second last => ?_⟩
        have other : ht.inst.selectSpecialRegister ≠ some .dt := by
          intro select
          have near := timer select
          omega
        rw [Regacc.deadlineInstruction_of_ne other] at listed
        have rd : (Regacc.doubleWordInstruction ht).inst.rd = 32 := by
          rw [Regacc.doubleWord_rd, Regacc.destination, if_pos second, last]
        have named := listed (.register 32) (List.mem_append_right _ (List.mem_append_right _ (by
          simp [Regacc.operandAccesses, rd])))
        exact absurd named (by decide)
    | _ => trivial
  · trivial

end Call

namespace Round

variable {round : Round σ}

theorem inBounds_clock (stage : Stage) : ∀ call : Call id, call ∈ round.clock stage → call.InBounds := by
  intro call member
  obtain rfl := List.eq_of_mem_replicate member
  have inside : ∀ access ∈ (List.range numPllTimers).flatMap fun i =>
      [Access.plldt i, Access.pllLoad i], access.InBounds := by decide
  exact inside

theorem inBounds_callsFromMem {executed : HwThread id} (sound : executed.Sound)
    (aimed : executed.Aimed) : ∀ call ∈ round.callsFromMem executed, call.InBounds := by
  unfold callsFromMem
  rw [List.forall_mem_cons]
  refine ⟨by simp [Call.InBounds, Call.accesses], ?_⟩
  cases access : Mem.behavior round.dataMem executed round.memory with
  | error halt => simp
  | ok result =>
      obtain ⟨arrived, memory⟩ := result
      have last : (round.after .mem arrived).Aimed :=
        aimed.of_control ((round.control_after .mem arrived).trans (Mem.control_behavior access).1)
      have kept := HwThread.stable_sound.mem sound access
      simp only
      rw [List.forall_mem_append, List.forall_mem_singleton]
      exact ⟨inBounds_clock .mem,
        ExceptStage.accesses_inBounds (HwThread.stable_sound.after _ _ kept) last⟩

theorem inBounds_callsFromRegacc {decoded : HwThread id} (sound : decoded.Sound)
    (settled : decoded.isNotValid = false → Regacc.Settled decoded)
    (bounded : decoded.isNotValid = false → Regacc.Bounded decoded) :
    ∀ call ∈ round.callsFromRegacc decoded, call.InBounds := by
  unfold callsFromRegacc
  rw [List.forall_mem_cons]
  refine ⟨Regacc.accesses_inBounds sound settled bounded, ?_⟩
  cases runs : Regacc.behavior decoded with
  | error halt => simp
  | ok accessed =>
      have kept := HwThread.stable_sound.after round .regacc
        (HwThread.stable_sound.regacc decoded accessed settled sound runs)
      have aimed := (Regacc.aimed_behavior sound settled bounded runs).of_control
        (round.control_after .regacc accessed)
      simp only [List.forall_mem_append, List.forall_mem_cons]
      refine ⟨inBounds_clock .regacc, by simp [Call.InBounds, Call.accesses],
        inBounds_clock .execute, ?_⟩
      apply inBounds_callsFromMem
      · exact HwThread.stable_sound.after _ _ (HwThread.stable_sound.execute kept)
      · exact aimed.of_control
          ((round.control_after .execute _).trans (Execute.control_behavior _))

theorem settled_decoded {fetched : HwThread id} (sound : fetched.Sound) :
    (round.after .decode (Decode.behavior fetched)).isNotValid = false →
      Regacc.Settled (round.after .decode (Decode.behavior fetched)) := by
  intro valid
  rw [round.after_eq .decode HwThread.isNotValid (fun _ => rfl)] at valid
  rw [round.after_eq .decode Regacc.Settled (fun _ => rfl)]
  cases absent : fetched.isNotValid with
  | true => simp [Decode.behavior, absent] at valid
  | false =>
      have decodes : Decode.behavior fetched = { fetched with inst := fetched.inst.decode } := by
        simp [Decode.behavior, absent]
      rw [decodes]
      exact sound.settled

theorem inBounds_calls {start : HwThread id} (sound : start.Sound)
    (bounded : ∀ call ∈ round.calls start, call.Bounded) :
    ∀ call ∈ round.calls start, call.InBounds := by
  unfold calls at bounded ⊢
  rw [List.forall_mem_cons]
  constructor
  · simp only [Call.InBounds, Call.accesses, Fetch.accesses]
    split
    · decide
    · simp
  · cases fetches : Fetch.behavior round.instructionMemory start round.fetchMemory with
    | error halt => simp
    | ok result =>
        obtain ⟨fetched, memory⟩ := result
        rw [fetches] at bounded
        have kept := HwThread.stable_sound.after round .fetch
          (HwThread.stable_sound.fetch sound fetches)
        simp only [List.forall_mem_append, List.forall_mem_cons] at bounded ⊢
        refine ⟨inBounds_clock .fetch, by simp [Call.InBounds, Call.accesses],
          inBounds_clock .decode, ?_⟩
        apply inBounds_callsFromRegacc
        · exact HwThread.stable_sound.after _ _ (HwThread.stable_sound.decodes kept)
        · exact settled_decoded kept
        · have allowed := bounded.2.2.2.2
          rw [callsFromRegacc, List.forall_mem_cons] at allowed
          exact allowed.1

theorem sound_step {start finished : HwThread id} (sound : start.Sound)
    (moves : round.step start = .ok finished) : finished.Sound := by
  obtain ⟨p, passes, moves⟩ := Transition.bind_eq_ok.mp moves
  obtain rfl := Except.ok.inj moves
  obtain ⟨rfl, rfl, valid⟩ := Round.pass_eq_ok.mp passes
  obtain ⟨fetched, fetches, fetch⟩ := valid.fetch
  obtain ⟨accessed, reads, access⟩ := valid.regacc
  obtain ⟨arrived, answers, mem⟩ := valid.mem
  obtain ⟨last, commits, except⟩ := valid.except
  have stable := @HwThread.stable_sound id
  have fetched : p.fetched.Sound := fetch ▸ stable.after _ _ (stable.fetch sound fetches)
  have decoded : p.decoded.Sound := valid.decode ▸ stable.after _ _ (stable.decodes fetched)
  have settled : p.decoded.isNotValid = false → Regacc.Settled p.decoded :=
    valid.decode ▸ settled_decoded fetched
  have accessed : p.accessed.Sound :=
    access ▸ stable.after _ _ (stable.regacc p.decoded accessed settled decoded reads)
  have executed : p.executed.Sound := valid.execute ▸ stable.after _ _ (stable.execute accessed)
  have arrived : p.arrived.Sound := mem ▸ stable.after _ _ (stable.mem executed answers)
  exact except ▸ stable.after _ _ (stable.except arrived commits)

end Round

/-- A run keeps all its indices inside their arrays, and its register numbers below 32,
exactly if no deadline instruction names a timer beyond the only PLL timer and no second half
of a double word follows register 31. -/
theorem Run.in_bounds_iff (pc : Word) (windowReg : Fin (16 * registerWindows) → Word)
    (rounds : List (Round σ)) :
    (∀ call ∈ Run.calls id pc windowReg rounds,
        ∀ access ∈ call.accesses, access.InBounds) ↔
      ∀ call ∈ Run.calls id pc windowReg rounds, call.Bounded := by
  constructor
  · intro inside call member
    exact Call.bounded_of_inBounds (inside call member)
  · intro bounded call member
    obtain ⟨entry, taken, made⟩ := List.mem_flatMap.mp member
    have start : (HwThread.reset id pc windowReg).Sound := by
      refine ⟨⟨Nat.zero_lt_succ _, fun select => ?_⟩, fun waits => ?_, fun loaded => ?_⟩
      · cases select
      · cases waits
      · cases loaded
    have sound := Transition.holds_trail Round.step HwThread.Sound (fun _ _ => True)
      (fun round ht ht' _ sound moves => round.sound_step sound moves) start
      (fun _ _ => trivial) entry taken
    exact Round.inBounds_calls sound
      (fun call made => bounded call (List.mem_flatMap.mpr ⟨entry, taken, made⟩)) call made

/-- A deadline instruction of timer 9 reads the mailbox of a PLL timer that is not there, and
a double word loaded to register 31 goes on to register 32. -/
theorem Run.outside_bounds :
    (¬ ∀ call ∈ Run.calls 0 0 (fun _ => 0)
        [Round.ofProgram (fun _ => deadWord 9 1 5) false .create],
      ∀ access ∈ call.accesses, access.InBounds) ∧
    ¬ ∀ call ∈ Run.calls 0 0 (fun _ => 0)
        (List.replicate 2 (Round.ofProgram (fun _ => 3#2 ++ 31#5 ++ 3#6 ++ 0#5 ++ 1#1 ++ 0#13)
          false .create)),
      ∀ access ∈ call.accesses, access.InBounds := by
  constructor <;> decide +kernel

end PretIss
