import PretIss.Arithmetic.Shift
import PretIss.Machine.Architecture
import PretIss.Thread.Access

/-! The decoder and the execute stage against the sequential machine. For the words that
the machine has, the latch names the registers of the word, asks for what the instruction
delivers and sets, and the execute stage computes it. -/

namespace PretIss.Sparc

section

variable (w : Word)

theorem fields_operands :
    (fields w).rs1 = (rs1 w).toNat ∧ (fields w).rs2 = (rs2 w).toNat ∧
      (fields w).imm = simm13 w ∧ (fields w).useImm = usesConstant w := by
  have low : (w &&& 0x0000001F).toNat = (rs2 w).toNat := by
    have field := field_eq w 0x0000001F 0 5 rfl
    rwa [BitVec.ushiftRight_zero] at field
  refine ⟨field_eq w 0x0007C000 14 5 rfl, low, ?_, ?_⟩
  · change ((w &&& 0x00001FFF) <<< 19).sshiftRight 19 = _
    rw [mask_eq w 0x00001FFF (show _ = (BitVec.allOnes 13).setWidth 32 by decide)]
    exact signExtend_eq (w.setWidth 13) (by decide) (by decide)
  · -- The decoder shifts the bit by one place less than its position.
    change ((w &&& 0x00002000) >>> 12 != 0) = _
    have shifted : (w &&& BitVec.twoPow 32 13) >>> 12 = if w.getLsbD 13 then 2 else 0 := by
      rw [BitVec.and_twoPow]
      cases w.getLsbD 13 <;> rfl
    have bit : ((if w.getLsbD 13 then (2 : Word) else 0) != 0) = w.getLsbD 13 := by
      cases w.getLsbD 13 <;> rfl
    exact (congrArg (· != 0) shifted).trans bit

theorem fields_codes :
    (fields w).op1 = (op w).toNat ∧ (fields w).op2 = (op2 w).toNat ∧
      (fields w).op3 = (op3 w).toNat ∧ (fields w).rd = (rd w).toNat :=
  ⟨op1_eq w, field_eq w 0x01C00000 22 3 rfl, field_eq w 0x01F80000 19 6 rfl,
    field_eq w 0x3E000000 25 5 rfl⟩

theorem disp22_shifted : disp22 w <<< 10 = w.setWidth 22 ++ 0#10 := by
  apply BitVec.eq_of_getLsbD_eq
  intro i inside
  rw [disp22, BitVec.getLsbD_shiftLeft, BitVec.getLsbD_append, BitVec.getLsbD_signExtend]
  by_cases low : i < 10
  · simp [low]
  · have within : i - 10 < 22 := by omega
    have below : i - 10 < 32 := by omega
    simp [low, inside, within, below]

end

section

variable {w : Word}

theorem format_cases (w : Word) :
    (format w = some .sethiBranches ∧ op w = 0) ∨ (format w = some .call ∧ op w = 1) ∨
      (format w = some .arithmeticEtc ∧ op w = 2) ∨ (format w = some .memory ∧ op w = 3) := by
  unfold format
  obtain code | code | code | code := op_cases (op w) <;> rw [code]
  · exact Or.inl ⟨rfl, rfl⟩
  · exact Or.inr (Or.inl ⟨rfl, rfl⟩)
  · exact Or.inr (Or.inr (Or.inl ⟨rfl, rfl⟩))
  · exact Or.inr (Or.inr (Or.inr ⟨rfl, rfl⟩))

theorem code_format (w : Word) : Op1.ofCode (fields w).op1 = format w := by
  rw [(fields_codes w).1, format]

theorem decoded_call (call : format w = some .call) : (fields w).decodeOperation =
    { fields w with call := true, aluop := .add, writeRegisters := true, rd := 15 } := by
  simp only [Instruction.decodeOperation, code_format, call]

theorem decoded_sethiBranches (near : format w = some .sethiBranches) :
    (fields w).decodeOperation = (fields w).decodeSethiBranches (Op2.ofCode (op2 w).toNat) := by
  simp only [Instruction.decodeOperation, code_format, near, (fields_codes w).2.1]

theorem decoded_arithmetic (arithmetic : format w = some .arithmeticEtc) :
    (fields w).decodeOperation = (fields w).decodeArithmetic (arithmeticOp w) := by
  simp only [Instruction.decodeOperation, code_format, arithmetic, (fields_codes w).2.2.1,
    arithmeticOp, if_true]

theorem decoded_memory (memory : format w = some .memory) :
    (fields w).decodeOperation = (fields w).decodeMemory (memoryOp w) := by
  simp only [Instruction.decodeOperation, code_format, memory, (fields_codes w).2.2.1, memoryOp,
    if_true]

theorem arithmeticOp_of_ne (other : format w ≠ some .arithmeticEtc) : arithmeticOp w = none :=
  if_neg other

theorem memoryOp_of_ne (other : format w ≠ some .memory) : memoryOp w = none := if_neg other

structure Settles (i : Instruction) : Prop where
  isRett : i.isRett = false
  dbWord : i.dbWordInstruction = false
  aluop : i.aluop ≠ .mul
  waitless : i.selectSpecialRegister ≠ some .dt
  transferless : i.selectSpecialRegister ≠ some .mem2sp

theorem settles_decodeOperation (ordinary : Ordinary w = true) :
    Settles (fields w).decodeOperation := by
  obtain ⟨near, _⟩ | ⟨call, _⟩ | ⟨arithmetic, _⟩ | ⟨memory, _⟩ := format_cases w
  · rw [decoded_sethiBranches near]
    rcases Op2.ofCode (op2 w).toNat with _ | operation
    · refine ⟨rfl, rfl, ?_, ?_, ?_⟩ <;> intro same <;> cases same
    · cases operation <;> refine ⟨rfl, rfl, ?_, ?_, ?_⟩ <;> intro same <;> cases same
  · rw [decoded_call call]
    refine ⟨rfl, rfl, ?_, ?_, ?_⟩ <;> intro same <;> cases same
  · rw [decoded_arithmetic arithmetic]
    rcases known : arithmeticOp w with _ | operation
    · refine ⟨rfl, rfl, ?_, ?_, ?_⟩ <;> intro same <;> cases same
    · rw [Ordinary, known] at ordinary
      cases operation with
      | mulscc | rett | sync => cases ordinary
      | rdasr | wry =>
          refine ⟨rfl, rfl, (by intro same; cases same), ?_, ?_⟩ <;>
            simp only [Instruction.decodeArithmetic] <;> split <;> intro same <;> cases same
      | _ => refine ⟨rfl, rfl, ?_, ?_, ?_⟩ <;> intro same <;> cases same
  · rw [decoded_memory memory]
    rcases known : memoryOp w with _ | operation
    · refine ⟨rfl, rfl, ?_, ?_, ?_⟩ <;> intro same <;> cases same
    · have none : arithmeticOp w = none := arithmeticOp_of_ne (by simp [memory])
      rw [Ordinary, known, none] at ordinary
      cases operation with
      | ldd | std | dead | mem2sp => cases ordinary
      | _ => refine ⟨rfl, rfl, ?_, ?_, ?_⟩ <;> intro same <;> cases same

theorem Settles.ofWord (settles : Settles (fields w).decodeOperation) :
    Settles (Instruction.ofWord w) := by
  have select := of_fields w Instruction.selectSpecialRegister fun _ => rfl
  exact ⟨(of_fields w Instruction.isRett fun _ => rfl).trans settles.isRett,
    (of_fields w Instruction.dbWordInstruction fun _ => rfl).trans settles.dbWord,
    fun multiplies =>
      settles.aluop ((of_fields w Instruction.aluop fun _ => rfl).symm.trans multiplies),
    fun deadline => settles.waitless (select.symm.trans deadline),
    fun moves => settles.transferless (select.symm.trans moves)⟩

theorem settles_ofWord (ordinary : Ordinary w = true) : Settles (Instruction.ofWord w) :=
  (settles_decodeOperation ordinary).ofWord

theorem syncless_ofWord (ordinary : Ordinary w = true) :
    (Instruction.ofWord w).syncInstruction = false := by
  rw [of_fields w Instruction.syncInstruction fun _ => rfl]
  obtain ⟨near, _⟩ | ⟨call, _⟩ | ⟨arithmetic, _⟩ | ⟨memory, _⟩ := format_cases w
  · rw [decoded_sethiBranches near]
    rcases Op2.ofCode (op2 w).toNat with _ | operation
    · rfl
    · cases operation <;> rfl
  · rw [decoded_call call]
    rfl
  · rw [decoded_arithmetic arithmetic]
    rcases known : arithmeticOp w with _ | operation
    · rfl
    · rw [Ordinary, known] at ordinary
      cases operation with
      | sync => cases ordinary
      | _ => rfl
  · rw [decoded_memory memory]
    rcases memoryOp w with _ | operation
    · rfl
    · cases operation <;> rfl

theorem isRett_of_ordinary (ordinary : Ordinary w = true) : isRett w = false := by
  cases rett : isRett w with
  | false => rfl
  | true =>
      simp only [isRett, Bool.and_eq_true, beq_iff_eq] at rett
      have known : arithmeticOp w = some .rett := by
        rw [arithmeticOp, format, rett.1, rett.2]
        rfl
      rw [Ordinary, known] at ordinary
      cases ordinary

structure Names (w : Word) (i : Instruction) : Prop where
  rs1 : i.rs1 = (rs1 w).toNat
  rs2 : i.rs2 = (rs2 w).toNat
  imm : i.imm = simm13 w
  useImm : i.useImm = usesConstant w
  rd : i.rd = link w

theorem link_of_ne (other : format w ≠ some .call) : link w = (rd w).toNat := by
  have calls : isCall w = false := by
    obtain ⟨_, code⟩ | ⟨call, _⟩ | ⟨_, code⟩ | ⟨_, code⟩ := format_cases w
    · rw [isCall, code]
      rfl
    · exact absurd call other
    · rw [isCall, code]
      rfl
    · rw [isCall, code]
      rfl
  rw [link, calls, if_neg Bool.false_ne_true, rd]

theorem names_decodeOperation (w : Word) : Names w (fields w).decodeOperation := by
  obtain ⟨one, two, constant, uses⟩ := fields_operands w
  have field := (fields_codes w).2.2.2
  obtain ⟨near, _⟩ | ⟨call, code⟩ | ⟨arithmetic, _⟩ | ⟨memory, _⟩ := format_cases w
  · rw [decoded_sethiBranches near]
    have target := field.trans (link_of_ne (by simp [near])).symm
    rcases Op2.ofCode (op2 w).toNat with _ | operation
    · exact ⟨one, two, constant, uses, target⟩
    · cases operation <;> exact ⟨one, two, constant, uses, target⟩
  · rw [decoded_call call]
    refine ⟨one, two, constant, uses, ?_⟩
    rw [link, isCall, code]
    rfl
  · rw [decoded_arithmetic arithmetic]
    have target := field.trans (link_of_ne (by simp [arithmetic])).symm
    rcases arithmeticOp w with _ | operation
    · exact ⟨one, two, constant, uses, target⟩
    · cases operation <;> exact ⟨one, two, constant, uses, target⟩
  · rw [decoded_memory memory]
    have target := field.trans (link_of_ne (by simp [memory])).symm
    rcases memoryOp w with _ | operation
    · exact ⟨one, two, constant, uses, target⟩
    · cases operation <;> exact ⟨one, two, constant, uses, target⟩

theorem names_ofWord (w : Word) : Names w (Instruction.ofWord w) := by
  obtain ⟨one, two, constant, uses, target⟩ := names_decodeOperation w
  exact ⟨(of_fields w Instruction.rs1 fun _ => rfl).trans one,
    (of_fields w Instruction.rs2 fun _ => rfl).trans two,
    (of_fields w Instruction.imm fun _ => rfl).trans constant,
    (of_fields w Instruction.useImm fun _ => rfl).trans uses,
    (of_fields w Instruction.rd fun _ => rfl).trans target⟩

theorem op2_sethi :
    ∀ code : BitVec 3, decide (Op2.ofCode code.toNat = some .sethi) = (code == 4) := by
  decide

theorem isSethi_eq (near : format w = some .sethiBranches) :
    isSethi w = decide (Op2.ofCode (op2 w).toNat = some .sethi) := by
  obtain ⟨_, code⟩ | ⟨other, _⟩ | ⟨other, _⟩ | ⟨other, _⟩ := format_cases w
  · rw [isSethi, code, op2_sethi]
    rfl
  all_goals
    rw [near] at other
    cases other

theorem asks_delivered (ordinary : Ordinary w = true) (s : State) (id : ThreadId) :
    (fields w).decodeOperation.writeRegisters = (s.delivered id w).isSome := by
  obtain ⟨near, _⟩ | ⟨call, _⟩ | ⟨arithmetic, _⟩ | ⟨memory, _⟩ := format_cases w
  · have delivered : s.delivered id w = if isSethi w then some (w.setWidth 22 ++ 0#10) else none := by
      rw [State.delivered, near]
    rw [decoded_sethiBranches near, delivered, isSethi_eq near]
    rcases Op2.ofCode (op2 w).toNat with _ | operation
    · rfl
    · cases operation <;> rfl
  · rw [decoded_call call, State.delivered, call]
    rfl
  · rw [decoded_arithmetic arithmetic, State.delivered, arithmetic]
    rcases known : arithmeticOp w with _ | operation
    · rfl
    · rw [Ordinary, known] at ordinary
      cases operation <;> first | rfl | cases ordinary
  · rw [decoded_memory memory, State.delivered, memory]
    rcases known : memoryOp w with _ | operation
    · rfl
    · have none : arithmeticOp w = none := arithmeticOp_of_ne (by simp [memory])
      rw [Ordinary, known, none] at ordinary
      cases operation <;> first | rfl | cases ordinary

theorem aluValue_computed {id : ThreadId} {ht : HwThread id} {operation : Op3Arithmetic}
    {value : Word}
    (aluop : ht.inst.aluop = ((fields w).decodeArithmetic (some operation)).aluop)
    (carries : ht.inst.carry = ((fields w).decodeArithmetic (some operation)).carry)
    (computes : computed operation ht.inst.op1Value ht.inst.op2Value
      (ht.specRegs.icc.getLsbD 0) = some value) : Execute.aluValue ht = value := by
  cases operation with
  | add | addcc | save | restore =>
      obtain rfl := Option.some.inj computes
      simp only [Execute.aluValue, aluop, carries, Instruction.decodeArithmetic]
      exact BitVec.add_zero _
  | sub | subcc =>
      obtain rfl := Option.some.inj computes
      simp only [Execute.aluValue, aluop, carries, Instruction.decodeArithmetic]
      exact BitVec.sub_zero _
  | addx | addxcc | subx | subxcc =>
      obtain rfl := Option.some.inj computes
      simp only [Execute.aluValue, aluop, carries, Instruction.decodeArithmetic,
        SpecialReg.getCarryBit_eq]
      rfl
  | and | andcc | or | orcc | xor | xorcc | andn | andncc | orn | orncc | xnor | xnorcc =>
      obtain rfl := Option.some.inj computes
      simp only [Execute.aluValue, aluop, Instruction.decodeArithmetic]
  | sll | srl | sra =>
      obtain rfl := Option.some.inj computes
      simp only [Execute.aluValue, aluop, Instruction.decodeArithmetic, Execute.shiftAmount_eq,
        Execute.shiftRightLogical_eq]
  | _ => cases computes

theorem geticc_logic {i : Instruction} (fresh : i.icc = 0) (adds : i.aluop ≠ .add)
    (multiplies : i.aluop ≠ .mul) (subtracts : i.aluop ≠ .sub) :
    Execute.geticc i = Execute.iccOf (logicFlags i.aluResult) := by
  simp only [Execute.geticc, Execute.iccOf, logicFlags, fresh, beq_eq_false_iff_ne.mpr adds,
    beq_eq_false_iff_ne.mpr multiplies, beq_eq_false_iff_ne.mpr subtracts, Bool.or_self,
    Bool.false_and, Bool.false_eq_true, if_false, Execute.zero_or]
  rfl

theorem geticc_flagged {i : Instruction} {operation : Op3Arithmetic} {carry : Bool} {flags : Flags}
    (fresh : i.icc = 0)
    (aluop : i.aluop = ((fields w).decodeArithmetic (some operation)).aluop)
    (computes : computed operation i.op1Value i.op2Value carry = some i.aluResult)
    (flagged : flagged operation i.op1Value i.op2Value carry = some flags) :
    Execute.geticc i = Execute.iccOf flags := by
  cases operation with
  | addcc =>
      obtain rfl := Option.some.inj flagged
      have result := (Option.some.inj computes).symm.trans (BitVec.add_zero _).symm
      exact Execute.geticc_add fresh (Or.inl aluop) rfl rfl result
  | addxcc =>
      obtain rfl := Option.some.inj flagged
      exact Execute.geticc_add fresh (Or.inl aluop) rfl rfl (Option.some.inj computes).symm
  | subcc =>
      obtain rfl := Option.some.inj flagged
      have result := (Option.some.inj computes).symm.trans (BitVec.sub_zero _).symm
      exact Execute.geticc_sub fresh aluop rfl rfl result
  | subxcc =>
      obtain rfl := Option.some.inj flagged
      exact Execute.geticc_sub fresh aluop rfl rfl (Option.some.inj computes).symm
  | andcc | orcc | xorcc | andncc | orncc | xnorcc =>
      obtain rfl := Option.some.inj flagged
      rw [Option.some.inj computes]
      apply geticc_logic fresh <;> rw [aluop] <;> intro same <;> cases same
  | _ => cases flagged

theorem format_of_arithmeticOp {operation : Op3Arithmetic} (known : arithmeticOp w = some operation) :
    format w = some .arithmeticEtc := by
  by_contra other
  rw [arithmeticOp_of_ne other] at known
  cases known

theorem decoded_of_arithmeticOp {operation : Op3Arithmetic}
    (known : arithmeticOp w = some operation) :
    (fields w).decodeOperation = (fields w).decodeArithmetic (some operation) := by
  rw [decoded_arithmetic (format_of_arithmeticOp known), known]

theorem format_of_memoryOp {operation : Op3Memory} (known : memoryOp w = some operation) :
    format w = some .memory := by
  by_contra other
  rw [memoryOp_of_ne other] at known
  cases known

theorem decoded_of_memoryOp {operation : Op3Memory} (known : memoryOp w = some operation) :
    (fields w).decodeOperation = (fields w).decodeMemory (some operation) := by
  rw [decoded_memory (format_of_memoryOp known), known]

theorem isAccess_iff : IsAccess w ↔ (fields w).decodeOperation.readMemory = true ∨
    (fields w).decodeOperation.writeMemory = true := by
  rw [IsAccess, of_fields w Instruction.readMemory fun _ => rfl,
    of_fields w Instruction.writeMemory fun _ => rfl]

theorem isAccess_of_memoryOp {operation : Op3Memory} (ordinary : Ordinary w = true)
    (known : memoryOp w = some operation) : IsAccess w := by
  have none : arithmeticOp w = none := by
    apply arithmeticOp_of_ne
    rw [format_of_memoryOp known]
    intro same
    cases same
  rw [isAccess_iff, decoded_of_memoryOp known]
  rw [Ordinary, none, known] at ordinary
  cases operation with
  | st | stb | sth => exact Or.inr rfl
  | ld | ldub | lduh | ldsb | ldsh => exact Or.inl rfl
  | ldd | std | dead | mem2sp => cases ordinary

theorem memoryOp_of_quiet (ordinary : Ordinary w = true) (quiet : ¬ IsAccess w) :
    memoryOp w = none := by
  cases known : memoryOp w with
  | none => rfl
  | some operation => exact absurd (isAccess_of_memoryOp ordinary known) quiet

structure Idle (i : Instruction) : Prop where
  writeIcc : i.writeIcc = false
  window : i.incrementWindowPointer = 0
  special : i.writeSpecialRegisters = false
  select : i.selectSpecialRegister = none

theorem idle_of_none (plain : arithmeticOp w = none) (quiet : memoryOp w = none) :
    Idle (fields w).decodeOperation := by
  obtain ⟨near, _⟩ | ⟨call, _⟩ | ⟨arithmetic, _⟩ | ⟨memory, _⟩ := format_cases w
  · rw [decoded_sethiBranches near]
    rcases Op2.ofCode (op2 w).toNat with _ | operation
    · exact ⟨rfl, rfl, rfl, rfl⟩
    · cases operation <;> exact ⟨rfl, rfl, rfl, rfl⟩
  · rw [decoded_call call]
    exact ⟨rfl, rfl, rfl, rfl⟩
  · rw [decoded_arithmetic arithmetic, plain]
    exact ⟨rfl, rfl, rfl, rfl⟩
  · rw [decoded_memory memory, quiet]
    exact ⟨rfl, rfl, rfl, rfl⟩

theorem decoded_sethi (near : format w = some .sethiBranches) (sethi : isSethi w = true) :
    (fields w).decodeOperation = { fields w with aluop := .sethi, writeRegisters := true } := by
  have known : Op2.ofCode (op2 w).toNat = some .sethi := by
    simpa [sethi] using (isSethi_eq near).symm
  rw [decoded_sethiBranches near, known]
  rfl

theorem links_of_sethiBranches (near : format w = some .sethiBranches) : links w = false := by
  obtain ⟨_, code⟩ | ⟨other, _⟩ | ⟨other, _⟩ | ⟨other, _⟩ := format_cases w
  · rw [links, isCall, isJmpl, code]
    rfl
  all_goals
    rw [near] at other
    cases other

theorem links_of_arithmeticOp {operation : Op3Arithmetic} (known : arithmeticOp w = some operation) :
    links w = decide (operation = .jmpl) := by
  have format := format_of_arithmeticOp known
  obtain ⟨other, _⟩ | ⟨other, _⟩ | ⟨_, code⟩ | ⟨other, _⟩ := format_cases w
  · rw [format] at other
    cases other
  · rw [format] at other
    cases other
  · have codes : ∀ c : BitVec 6, (c == 0x38) =
        decide (Op3Arithmetic.ofCode c.toNat = some .jmpl) := by decide
    rw [arithmeticOp, if_pos format] at known
    rw [links, isCall, isJmpl, code, codes, known]
    simp
  · rw [format] at other
    cases other

theorem select_of_computed {operation : Op3Arithmetic} {x y value : Word} {carry : Bool}
    (computes : computed operation x y carry = some value) :
    ((fields w).decodeArithmetic (some operation)).selectSpecialRegister = none ∧
      operation ≠ .jmpl := by
  refine ⟨?_, ?_⟩
  · cases operation <;> first | rfl | cases computes
  · rintro rfl
    cases computes

end

end PretIss.Sparc
