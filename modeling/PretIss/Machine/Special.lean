import PretIss.Machine.Result

/-! The special registers after an instruction that was fetched in its pass: the flags, the
window, and what is written to them. -/

namespace PretIss

open Sparc (State link links fields)

namespace Sparc

variable {w : Word}

theorem flagged_writeIcc {operation : Op3Arithmetic} (ordinary : Ordinary w = true)
    (known : arithmeticOp w = some operation) (x y : Word) (carry : Bool) :
    ((fields w).decodeArithmetic (some operation)).writeIcc =
      (flagged operation x y carry).isSome := by
  rw [Ordinary, known] at ordinary
  cases operation with
  | mulscc | rett | sync => cases ordinary
  | _ => rfl

theorem computed_of_flagged {operation : Op3Arithmetic} {x y : Word} {carry : Bool} {flags : Flags}
    (sets : flagged operation x y carry = some flags) :
    ∃ value, computed operation x y carry = some value := by
  cases operation <;> first | exact ⟨_, rfl⟩ | cases sets

theorem wrap_wrap (x : BitVec 16) : x % registerWindows % registerWindows = x % registerWindows := by
  apply BitVec.eq_of_toNat_eq
  change x.toNat % 32 % 32 = x.toNat % 32
  omega

theorem operated_eq {operation : Op3Arithmetic} (ordinary : Ordinary w = true)
    (known : arithmeticOp w = some operation)
    (keeps : ((fields w).decodeArithmetic (some operation)).writeSpecialRegisters = false)
    (s : State) (wraps : s.special.currWp % registerWindows = s.special.currWp) :
    s.operated w operation = { s.special with
      currWp := (s.special.currWp +
        ((fields w).decodeArithmetic (some operation)).incrementWindowPointer) % registerWindows
      icc := ((flagged operation (s.operand1 w) (s.operand2 w) s.carry).map Execute.iccOf).getD
        s.special.icc } := by
  have unmoved : s.special.currWp + 0 = s.special.currWp := BitVec.add_zero _
  have still : (s.special.currWp + 0) % registerWindows = s.special.currWp := by
    rw [unmoved, wraps]
  have blank : (fields w).incrementWindowPointer = 0 := rfl
  rw [Ordinary, known] at ordinary
  cases operation with
  | mulscc | rett | sync => cases ordinary
  | wry | wrpsr | wrwim | wrtbr => cases keeps
  | save =>
      have back : s.special.currWp - 1 = s.special.currWp + -1 := BitVec.sub_eq_add_neg _ _
      simp only [State.operated, Instruction.decodeArithmetic, flagged, back]
      rfl
  | restore => rfl
  | _ =>
      simp only [State.operated, Instruction.decodeArithmetic, flagged, blank, still]
      rfl

theorem special_of_writes {operation : Op3Arithmetic}
    (writes : ((fields w).decodeArithmetic (some operation)).writeSpecialRegisters = true) :
    ((fields w).decodeArithmetic (some operation)).aluop = .xor ∧
      ((fields w).decodeArithmetic (some operation)).writeIcc = false ∧
      ((fields w).decodeArithmetic (some operation)).incrementWindowPointer = 0 ∧
      operation ≠ .jmpl := by
  cases operation with
  | wry | wrpsr | wrwim | wrtbr => exact ⟨rfl, rfl, rfl, (by intro same; cases same)⟩
  | _ => cases writes

theorem writeRegisters_of_special
    (writes : (fields w).decodeOperation.writeSpecialRegisters = true) :
    (fields w).decodeOperation.writeRegisters = false := by
  have blank : (fields w).writeSpecialRegisters = false ∧ (fields w).writeRegisters = false :=
    ⟨rfl, rfl⟩
  obtain decoded | decoded | ⟨op, decoded⟩ | ⟨op, decoded⟩ | ⟨op, decoded⟩ :=
    (fields w).decodeOperation_cases <;> rw [decoded] at writes ⊢
  · simp [blank] at writes
  · simp [blank] at writes
  · rcases op with _ | op
    · cases writes
    · cases op <;> cases writes
  · rcases op with _ | op
    · cases writes
    · cases op <;> first | rfl | cases writes
  · rcases op with _ | op
    · cases writes
    · cases op <;> first | rfl | cases writes

end Sparc

theorem setAsr_toNat (r : SpecialReg) (value : Word) (index : BitVec 5) :
    r.setAsr value index.toNat = .ok { r with asr := Function.update r.asr index.toFin value } := by
  rw [SpecialReg.setAsr, arraySet, dif_pos ⟨by omega, by have := index.isLt; omega⟩]
  rfl

theorem SpecialReg.visible_setPsr (r : SpecialReg) (value : Word) :
    (r.setPsr value).visible = r.visible.setPsr value := by
  have small : (value &&& 0x0000001F).setWidth 16 % registerWindows =
      (value &&& 0x0000001F).setWidth 16 := by
    apply BitVec.eq_of_toNat_eq
    have bound : (value &&& 0x0000001F).toNat < 32 := by
      rw [BitVec.toNat_and]
      exact Nat.and_lt_two_pow (n := 5) value.toNat (by decide)
    rw [BitVec.toNat_umod, BitVec.toNat_setWidth]
    change (value &&& 0x0000001F).toNat % 65536 % 32 = (value &&& 0x0000001F).toNat % 65536
    omega
  simp only [visible, settings, setPsr, small]

variable {id : ThreadId} {σ : Type}

/-- The write of a special register by the operation that asks for it. -/
theorem ExceptStage.visible_special {w : Word} {s : State} {operation : Op3Arithmetic}
    {written final : HwThread id} {dma dma' : Dma}
    (known : Sparc.arithmeticOp w = some operation)
    (asks : ((fields w).decodeArithmetic (some operation)).writeSpecialRegisters = true)
    (writes : written.inst.writeSpecialRegisters = true)
    (select : written.inst.selectSpecialRegister =
      ((fields w).decodeArithmetic (some operation)).selectSpecialRegister)
    (rd : written.inst.rd = link w)
    (result : written.inst.aluResult = s.operand1 w ^^^ s.operand2 w)
    (visible : written.specRegs.visible = s.special)
    (runs : writeSpecialRegs written dma = .ok (final, dma')) :
    final.specRegs.visible = s.operated w operation := by
  have other : Sparc.format w ≠ some .call := by
    rw [Sparc.format_of_arithmeticOp known]
    intro same
    cases same
  rw [Sparc.link_of_ne other] at rd
  rw [writeSpecialRegs, writes, if_pos rfl, select, result] at runs
  cases operation with
  | wrpsr =>
      obtain ⟨rfl, _⟩ := Prod.mk.injEq .. ▸ Except.ok.inj runs
      rw [SpecialReg.visible_setPsr, visible]
      rfl
  | wrwim | wrtbr =>
      obtain ⟨rfl, _⟩ := Prod.mk.injEq .. ▸ Except.ok.inj runs
      rw [State.operated, ← visible]
      rfl
  | wry =>
      have number : (fields w).rd = (Sparc.rd w).toNat := (Sparc.fields_codes w).2.2.2
      have zero : (Sparc.rd w).toNat ≠ 0 ↔ ¬ Sparc.rd w = 0 := by
        rw [ne_eq, BitVec.toNat_eq]
        rfl
      simp only [Instruction.decodeArithmetic, number, zero, ite_not] at runs
      simp only [State.operated, ← visible]
      by_cases none : Sparc.rd w = 0
      · simp only [none, if_true] at runs ⊢
        obtain ⟨rfl, _⟩ := Prod.mk.injEq .. ▸ Except.ok.inj runs
        rfl
      · simp only [none, if_false] at runs ⊢
        rw [rd, setAsr_toNat] at runs
        obtain ⟨rfl, _⟩ := Prod.mk.injEq .. ▸ Except.ok.inj runs
        rfl
  | _ => cases asks

namespace Pass

variable {p : Pass id σ}

theorem visible_wraps (p : Pass id σ) (m : Contents) :
    (p.before m).special.currWp % registerWindows = (p.before m).special.currWp :=
  Sparc.wrap_wrap p.start.specRegs.currWp

/-- The flags of an operation. -/
theorem Fresh.flags (fresh : p.Fresh) (m : Contents) {operation : Op3Arithmetic} {flags : Flags}
    (known : Sparc.arithmeticOp p.word = some operation)
    (sets : Sparc.flagged operation ((p.before m).operand1 p.word)
      ((p.before m).operand2 p.word) (p.before m).carry = some flags) :
    p.arrived.inst.icc = Execute.iccOf flags := by
  obtain ⟨latch, _⟩ := fresh.accessed m
  have decoded := Sparc.decoded_of_arithmeticOp known
  have view : ∀ {α : Type} (f : Instruction → α),
      (∀ i : Instruction, f { i with writeRegisters := false } = f i) →
      f p.asked = f ((fields p.word).decodeArithmetic (some operation)) := fun f blind => by
    rw [asked, Sparc.of_fields p.word f blind, decoded]
  obtain ⟨value, computes⟩ := Sparc.computed_of_flagged sets
  have result := fresh.computed m known computes
  have writes : p.accessed.inst.writeIcc = true := by
    rw [latch]
    refine (view Instruction.writeIcc fun _ => rfl).trans ?_
    rw [Sparc.flagged_writeIcc fresh.ordinary known, sets]
    rfl
  have blank : p.accessed.inst.icc = 0 := by
    rw [latch]
    refine (view Instruction.icc fun _ => rfl).trans ?_
    cases operation <;> rfl
  have value_eq : Execute.aluValue p.accessed = value := by
    rw [← result, fresh.arrived]
  have aluop : p.accessed.inst.aluop =
      ((fields p.word).decodeArithmetic (some operation)).aluop := by
    rw [latch]
    exact view Instruction.aluop fun _ => rfl
  have agrees : Sparc.computed operation p.accessed.inst.op1Value p.accessed.inst.op2Value
      (p.before m).carry = some (Execute.aluValue p.accessed) := by
    rw [latch, value_eq]
    exact computes
  have flags_eq : Sparc.flagged operation p.accessed.inst.op1Value p.accessed.inst.op2Value
      (p.before m).carry = some flags := by
    rw [latch]
    exact sets
  rw [fresh.arrived]
  simp only [writes, if_true]
  exact Sparc.geticc_flagged blank aluop agrees flags_eq

theorem Fresh.visible_operated (fresh : p.Fresh) (m : Contents) {operation : Op3Arithmetic}
    (known : Sparc.arithmeticOp p.word = some operation)
    (keeps : ((fields p.word).decodeArithmetic (some operation)).writeSpecialRegisters = false) :
    p.writing.specRegs.visible = (p.before m).operated p.word operation := by
  have decoded := Sparc.decoded_of_arithmeticOp known
  have view : ∀ {α : Type} (f : Instruction → α),
      (∀ i : Instruction, f { i with writeRegisters := false } = f i) →
      f p.asked = f ((fields p.word).decodeArithmetic (some operation)) := fun f blind => by
    rw [asked, Sparc.of_fields p.word f blind, decoded]
  have icc : (if p.asked.writeIcc then p.arrived.inst.icc else p.start.specRegs.visible.icc) =
      ((Sparc.flagged operation ((p.before m).operand1 p.word) ((p.before m).operand2 p.word)
        (p.before m).carry).map Execute.iccOf).getD p.start.specRegs.visible.icc := by
    rw [view Instruction.writeIcc fun _ => rfl, Sparc.flagged_writeIcc fresh.ordinary known]
    cases sets : Sparc.flagged operation ((p.before m).operand1 p.word)
      ((p.before m).operand2 p.word) (p.before m).carry with
    | none => rfl
    | some flags => exact fresh.flags m known sets
  rw [Sparc.operated_eq fresh.ordinary known keeps _ (p.visible_wraps m),
    fresh.toRetires.visible_writing, icc, view Instruction.incrementWindowPointer fun _ => rfl]
  rfl

theorem Fresh.xored (fresh : p.Fresh) (m : Contents) {operation : Op3Arithmetic}
    (known : Sparc.arithmeticOp p.word = some operation)
    (writes : ((fields p.word).decodeArithmetic (some operation)).writeSpecialRegisters = true) :
    p.writing.inst.aluResult =
      (p.before m).operand1 p.word ^^^ (p.before m).operand2 p.word := by
  obtain ⟨xor, _, _, other⟩ := Sparc.special_of_writes writes
  obtain ⟨latch, _⟩ := fresh.accessed m
  have aluop : p.asked.aluop = .xor := by
    rw [asked, Sparc.of_fields p.word Instruction.aluop fun _ => rfl,
      Sparc.decoded_of_arithmeticOp known, xor]
  have unlinked : links p.word = false := by
    rw [Sparc.links_of_arithmeticOp known, decide_eq_false other]
  rw [fresh.toRetires.result unlinked, fresh.arrived]
  simp only [Execute.aluValue, latch, aluop]

theorem Fresh.visible_writing (fresh : p.Fresh) (m : Contents)
    (silent : (fields p.word).decodeOperation.writeSpecialRegisters = false) :
    p.writing.specRegs.visible = (p.before m).nextSpecial p.word := by
  rw [State.nextSpecial]
  cases known : Sparc.arithmeticOp p.word with
  | none =>
      have idle := Sparc.idle_of_none known (Sparc.memoryOp_of_quiet fresh.ordinary fresh.quiet)
      exact fresh.visible_still idle.writeIcc idle.window
  | some operation =>
      rw [Sparc.decoded_of_arithmeticOp known] at silent
      exact fresh.visible_operated m known silent

/-- The special registers after an instruction. -/
theorem Fresh.special (fresh : p.Fresh) (m : Contents) :
    p.finished.specRegs.visible = (p.before m).nextSpecial p.word := by
  obtain ⟨written, final, registers, special, finished⟩ := fresh.toRetires.committed
  have frame := ExceptStage.writeRegs_frame registers
  have latch : written.inst = p.writing.inst := by rw [frame]
  have unwritten : written.specRegs = p.writing.specRegs := by rw [frame]
  have writes := fresh.field Instruction.writeSpecialRegisters fun _ _ _ _ _ _ _ => rfl
  have select := fresh.field Instruction.selectSpecialRegister fun _ _ _ _ _ _ _ => rfl
  have last : p.finished.specRegs.visible = final.specRegs.visible := by
    rw [finished, p.round.after_eq .except (fun ht => ht.specRegs.visible) fun _ => rfl]
    rfl
  rw [← latch] at writes select
  rw [last]
  cases asks : (fields p.word).decodeOperation.writeSpecialRegisters with
  | false =>
      rw [asks] at writes
      rw [ExceptStage.writeSpecialRegs, writes, if_neg Bool.false_ne_true] at special
      obtain ⟨rfl, _⟩ := Prod.mk.injEq .. ▸ Except.ok.inj special
      rw [unwritten]
      exact fresh.visible_writing m asks
  | true =>
      have idle := Sparc.idle_of_none (w := p.word)
      cases known : Sparc.arithmeticOp p.word with
      | none =>
          have quiet := Sparc.memoryOp_of_quiet fresh.ordinary fresh.quiet
          rw [(idle known quiet).special] at asks
          cases asks
      | some operation =>
          have decoded := Sparc.decoded_of_arithmeticOp known
          rw [decoded] at asks select writes
          obtain ⟨_, silent, window, _⟩ := Sparc.special_of_writes asks
          have still := fresh.visible_still (by rw [decoded, silent]) (by rw [decoded, window])
          have result := fresh.xored m known asks
          rw [← latch] at result
          rw [← unwritten] at still
          have rd := (congrArg Instruction.rd latch).trans fresh.register
          rw [State.nextSpecial, known]
          exact ExceptStage.visible_special known asks (writes.trans asks) select rd result still
            special

end Pass

end PretIss
