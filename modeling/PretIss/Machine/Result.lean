import PretIss.Machine.Instruction

/-! What an instruction that was fetched in its pass writes: its register, and the special
registers. -/

namespace PretIss

open Sparc (State link links fields)

theorem getAsr_toNat (r : SpecialReg) (index : BitVec 5) :
    r.getAsr index.toNat = .ok (r.asr index.toFin) := by
  rw [SpecialReg.getAsr, arrayGet, dif_pos ⟨by omega, by have := index.isLt; omega⟩]
  rfl

variable {id : ThreadId} {σ : Type}

namespace Pass

variable {p : Pass id σ}

theorem Fresh.latch {α : Type} (fresh : p.Fresh) (view : Instruction → α)
    (blind : ∀ (i : Instruction) x y z result icc,
      view { i with
        op1Value := x, op2Value := y, op3Value := z, aluResult := result, icc := icc } = view i) :
    view p.writing.inst = view p.asked := by
  obtain ⟨latch, _⟩ := fresh.accessed ⟨fun _ => .create, .empty, .empty⟩
  have result : ∀ (i : Instruction) result, view { i with aluResult := result } = view i :=
    fun i result => (blind i i.op1Value i.op2Value i.op3Value result i.icc)
  rw [p.writing_latch view result, fresh.arrived, latch]
  exact blind p.asked _ _ _ _ _

theorem Fresh.field {α : Type} (fresh : p.Fresh) (view : Instruction → α)
    (blind : ∀ (i : Instruction) x y z result icc writes,
      view { i with
        op1Value := x, op2Value := y, op3Value := z, aluResult := result, icc := icc
        writeRegisters := writes } = view i) :
    view p.writing.inst = view (fields p.word).decodeOperation := by
  rw [fresh.latch view fun i x y z result icc => blind i x y z result icc i.writeRegisters]
  exact Sparc.of_fields p.word view fun i =>
    blind i i.op1Value i.op2Value i.op3Value i.aluResult i.icc false

theorem Fresh.register (fresh : p.Fresh) : p.writing.inst.rd = link p.word :=
  (fresh.latch Instruction.rd fun _ _ _ _ _ _ => rfl).trans (Sparc.names_ofWord p.word).rd

theorem Fresh.writes (fresh : p.Fresh) (m : Contents) : p.writing.inst.writeRegisters =
    (((p.before m).delivered id p.word).isSome && link p.word != 0) := by
  rw [fresh.latch Instruction.writeRegisters fun _ _ _ _ _ _ => rfl, asked, Instruction.ofWord,
    Instruction.writeRegisters_decode, ← Instruction.ofWord, (Sparc.names_ofWord p.word).rd]
  exact congrArg (· && _) (Sparc.asks_delivered fresh.ordinary (p.before m) id)

theorem Fresh.computed (fresh : p.Fresh) (m : Contents) {operation : Op3Arithmetic} {value : Word}
    (known : Sparc.arithmeticOp p.word = some operation)
    (computes : Sparc.computed operation ((p.before m).operand1 p.word)
      ((p.before m).operand2 p.word) (p.before m).carry = some value) :
    p.arrived.inst.aluResult = value := by
  obtain ⟨latch, _⟩ := fresh.accessed m
  have decoded := Sparc.decoded_of_arithmeticOp known
  have view : ∀ {α : Type} (f : Instruction → α),
      (∀ i : Instruction, f { i with writeRegisters := false } = f i) →
      f p.asked = f ((fields p.word).decodeArithmetic (some operation)) := fun f blind => by
    rw [asked, Sparc.of_fields p.word f blind, decoded]
  have aluop : p.accessed.inst.aluop =
      ((fields p.word).decodeArithmetic (some operation)).aluop := by
    rw [latch]
    exact view Instruction.aluop fun _ => rfl
  have carries : p.accessed.inst.carry =
      ((fields p.word).decodeArithmetic (some operation)).carry := by
    rw [latch]
    exact view Instruction.carry fun _ => rfl
  rw [fresh.arrived]
  apply Sparc.aluValue_computed aluop carries
  rw [fresh.carry m, latch]
  exact computes

theorem Fresh.visible_still (fresh : p.Fresh)
    (silent : (fields p.word).decodeOperation.writeIcc = false)
    (window : (fields p.word).decodeOperation.incrementWindowPointer = 0) :
    p.writing.specRegs.visible = p.start.specRegs.visible := by
  have writing := fresh.toRetires.visible_writing
  have icc : p.asked.writeIcc = false :=
    (Sparc.of_fields p.word Instruction.writeIcc fun _ => rfl).trans silent
  have increment : p.asked.incrementWindowPointer = 0 :=
    (Sparc.of_fields p.word Instruction.incrementWindowPointer fun _ => rfl).trans window
  have wraps : ∀ x : BitVec 16, (x % registerWindows + 0) % registerWindows = x % registerWindows := by
    intro x
    apply BitVec.eq_of_toNat_eq
    change (x.toNat % 32 + 0) % 65536 % 32 = x.toNat % 32
    omega
  have still : (p.start.specRegs.visible.currWp + 0) % registerWindows =
      p.start.specRegs.visible.currWp := wraps _
  rw [writing, icc, increment, still]
  rfl

theorem Retires.window_writing (retires : p.Retires) :
    p.writing.specRegs.currWp = p.writing.specRegs.visible.currWp := by
  have unchanged := ExceptStage.linked_unchanged (fun ht => ht.specRegs.currWp) (fun _ _ _ _ => rfl)
    p.word p.committing
  obtain ⟨icc, written, _⟩ := ExceptStage.writeIcc_eq p.committing
  have arrived := p.committing_eq (fun ht => ht.specRegs.currWp) fun _ _ _ _ => rfl
  have carries := (retires.valid.carries retires.coherent retires.runs).currWp
  have wrapped : ∀ x : BitVec 16, x % registerWindows = x % registerWindows % registerWindows := by
    intro x
    apply BitVec.eq_of_toNat_eq
    change x.toNat % 32 = x.toNat % 32 % 32
    omega
  have same : p.writing.specRegs.currWp = p.arrived.specRegs.currWp := by
    rw [unchanged, written]
    exact arrived
  change p.writing.specRegs.currWp = p.writing.specRegs.currWp % registerWindows
  rw [same, carries]
  exact wrapped _

/-- The special registers that are read as the register is written. -/
theorem Fresh.stateRead (fresh : p.Fresh) (m : Contents) {operation : Op3Arithmetic} {value : Word}
    (known : Sparc.arithmeticOp p.word = some operation) (other : operation ≠ .jmpl)
    (reads : (p.before m).stateRead p.word operation = some value) :
    ExceptStage.specialValue p.writing
      ((fields p.word).decodeArithmetic (some operation)).selectSpecialRegister = .ok value := by
  have rs1 := fresh.field Instruction.rs1 fun _ _ _ _ _ _ _ => rfl
  rw [(Sparc.names_decodeOperation p.word).rs1] at rs1
  have still := fresh.visible_still
  rw [Sparc.decoded_of_arithmeticOp known] at still
  have psr : p.writing.specRegs.getPsr = p.writing.specRegs.visible.getPsr := by
    rw [SpecialReg.getPsr, fresh.toRetires.window_writing]
    rfl
  cases operation with
  | rdpsr =>
      rw [← Option.some.inj reads]
      change Except.ok p.writing.specRegs.getPsr = _
      rw [psr, still rfl rfl]
      rfl
  | rdwim | rdtbr =>
      rw [← Option.some.inj reads]
      change _ = Except.ok _
      rw [State.special, before, Sparc.stateOf, ← still rfl rfl]
      rfl
  | rdasr =>
      have select : ((fields p.word).decodeArithmetic (some .rdasr)).selectSpecialRegister =
          if Sparc.rs1 p.word = 0 then some .y else some .asr := by
        have number : (fields p.word).rs1 = (Sparc.rs1 p.word).toNat :=
          (Sparc.fields_operands p.word).1
        have zero : (Sparc.rs1 p.word).toNat ≠ 0 ↔ ¬ Sparc.rs1 p.word = 0 := by
          rw [ne_eq, BitVec.toNat_eq]
          rfl
        simp only [Instruction.decodeArithmetic, number, zero, ite_not]
      have visible := still rfl rfl
      have read : (if Sparc.rs1 p.word = 0 then (p.before m).special.y
          else (p.before m).special.asr (Sparc.rs1 p.word).toFin) = value := Option.some.inj reads
      rw [select, ← read, State.special, before, Sparc.stateOf, ← visible]
      by_cases zero : Sparc.rs1 p.word = 0
      · simp only [zero, if_true]
        rfl
      · simp only [zero, if_false]
        change p.writing.specRegs.getAsr p.writing.inst.rs1 = _
        rw [rs1]
        exact getAsr_toNat p.writing.specRegs (Sparc.rs1 p.word)
  | jmpl => exact absurd rfl other
  | _ => cases reads

/-- What is written to the register. -/
theorem Fresh.value (fresh : p.Fresh) (m : Contents) {value : Word}
    (delivers : (p.before m).delivered id p.word = some value) (named : link p.word ≠ 0)
    (linkable : links p.word = true → link p.word ≠ 0 → ExceptStage.drift p.start = 0) :
    ExceptStage.specialValue p.writing p.writing.inst.selectSpecialRegister = .ok value := by
  have select := fresh.field Instruction.selectSpecialRegister fun _ _ _ _ _ _ _ => rfl
  have address : links p.word = true →
      (.ok p.writing.inst.aluResult : Except Halt Word) = .ok (p.before m).counters.pc := by
    intro jumps
    have near := linkable jumps named
    rw [fresh.toRetires.returnAddress jumps]
    simp only [ExceptStage.drift] at near
    congr 1
    change ExceptStage.npc p.start - 4 = p.start.pc
    generalize ExceptStage.npc p.start = next at near
    bv_omega
  rw [select]
  have quiet := Sparc.memoryOp_of_quiet fresh.ordinary fresh.quiet
  obtain ⟨near, _⟩ | ⟨call, code⟩ | ⟨arithmetic, _⟩ | ⟨memory, _⟩ := Sparc.format_cases p.word
  · have constant : (if Sparc.isSethi p.word then some (p.word.setWidth 22 ++ 0#10) else none) =
        some value := by rw [← delivers, State.delivered, near]
    cases sethi : Sparc.isSethi p.word with
    | false =>
        rw [sethi] at constant
        cases constant
    | true =>
        rw [sethi] at constant
        obtain ⟨latch, _⟩ := fresh.accessed m
        have decoded := Sparc.decoded_sethi near sethi
        have unlinked := Sparc.links_of_sethiBranches near
        have aluop : p.asked.aluop = .sethi := by
          rw [asked, Sparc.of_fields p.word Instruction.aluop fun _ => rfl, decoded]
        have shifted : Execute.aluValue p.accessed = p.asked.disp22 <<< 10 := by
          simp only [Execute.aluValue, latch, aluop]
        rw [decoded]
        change Except.ok p.writing.inst.aluResult = _
        rw [fresh.toRetires.result unlinked, fresh.arrived, ← Option.some.inj constant,
          ← Sparc.disp22_shifted, ← (Sparc.decodes_ofWord p.word).disp22]
        exact congrArg Except.ok shifted
  · have jumps : links p.word = true := by
      rw [Sparc.links, Sparc.isCall, code]
      rfl
    have counter : some (p.before m).counters.pc = some value := by
      rw [← delivers, State.delivered, call]
    rw [Sparc.decoded_call call, ← Option.some.inj counter]
    exact address jumps
  · have bound : ((Sparc.arithmeticOp p.word).bind fun operation =>
        (Sparc.computed operation ((p.before m).operand1 p.word) ((p.before m).operand2 p.word)
          (p.before m).carry).or ((p.before m).stateRead p.word operation)) = some value := by
      rw [← delivers, State.delivered, arithmetic]
    obtain ⟨operation, known, result⟩ := Option.bind_eq_some_iff.mp bound
    rw [Sparc.decoded_of_arithmeticOp known]
    obtain computes | ⟨_, reads⟩ := Option.or_eq_some_iff.mp result
    · obtain ⟨none, other⟩ := Sparc.select_of_computed (w := p.word) computes
      have unlinked : links p.word = false := by
        rw [Sparc.links_of_arithmeticOp known, decide_eq_false other]
      rw [none]
      change Except.ok p.writing.inst.aluResult = _
      rw [fresh.toRetires.result unlinked, fresh.computed m known computes]
    · by_cases jump : operation = .jmpl
      · subst jump
        have jumps : links p.word = true := Sparc.links_of_arithmeticOp known
        rw [← Option.some.inj reads]
        exact address jumps
      · exact fresh.stateRead m known jump reads
  · rw [State.delivered, memory] at delivers
    simp only [quiet, Option.bind_none] at delivers
    cases delivers

end Pass

end PretIss
