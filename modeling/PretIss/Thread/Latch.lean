import PretIss.Model.Instruction

/-! The latch of a thread that is held for another pass. Its word is decoded again
over the flags and results of the pass before; since decoding raises the same
flags each time, the word keeps its meaning. -/

namespace PretIss.Instruction

def ofWord (w : Word) : Instruction := (nop.setInst w).decode

def meaning (i : Instruction) : Instruction :=
  { i with
    aluResult := 0, icc := 0, op1Value := 0, op2Value := 0, op3Value := 0
    dbWordInstruction := false, writeRegisters := false, writeSpecialRegisters := false }

def operation (i : Instruction) : Instruction := { i.meaning with rd := 0 }

theorem of_operation {α : Type} {i j : Instruction} (view : Instruction → α)
    (blind : ∀ i : Instruction, view i.operation = view i) (same : i.operation = j.operation) :
    view i = view j := by
  rw [← blind i, same, blind]

theorem of_meaning {α : Type} {i j : Instruction} (view : Instruction → α)
    (blind : ∀ i : Instruction, view i.meaning = view i) (same : i.meaning = j.meaning) :
    view i = view j := by
  rw [← blind i, same, blind]

structure Keeps (w : Word) (i : Instruction) : Prop where
  operation : i.operation = (ofWord w).operation
  dbWord : i.dbWordInstruction = true → (ofWord w).dbWordInstruction = true

theorem decodeArithmetic_again (i : Instruction) (op : Option Op3Arithmetic) :
    (i.decodeArithmetic op).decodeArithmetic op = i.decodeArithmetic op := by
  rcases op with _ | op
  · rfl
  · cases op <;> rfl

theorem decodeMemory_again (i : Instruction) (op : Option Op3Memory) :
    (i.decodeMemory op).decodeMemory op = i.decodeMemory op := by
  rcases op with _ | op
  · rfl
  · cases op <;> rfl

theorem decodeSethiBranches_again (i : Instruction) (op : Option Op2) :
    (i.decodeSethiBranches op).decodeSethiBranches op = i.decodeSethiBranches op := by
  rcases op with _ | op
  · rfl
  · cases op <;> rfl

theorem decodeFields_decodeArithmetic (i : Instruction) (op : Option Op3Arithmetic) :
    (i.decodeFields.decodeArithmetic op).decodeFields = i.decodeFields.decodeArithmetic op := by
  rcases op with _ | op
  · rfl
  · cases op <;> rfl

theorem decodeFields_decodeMemory (i : Instruction) (op : Option Op3Memory) :
    (i.decodeFields.decodeMemory op).decodeFields = i.decodeFields.decodeMemory op := by
  rcases op with _ | op
  · rfl
  · cases op <;> rfl

theorem decodeFields_decodeSethiBranches (i : Instruction) (op : Option Op2) :
    (i.decodeFields.decodeSethiBranches op).decodeFields =
      i.decodeFields.decodeSethiBranches op := by
  rcases op with _ | op
  · rfl
  · cases op <;> rfl

theorem meaning_decodeArithmetic (i : Instruction) (op : Option Op3Arithmetic) :
    (i.decodeArithmetic op).meaning = (i.meaning.decodeArithmetic op).meaning := by
  rcases op with _ | op
  · rfl
  · cases op <;> simp only [decodeArithmetic, meaning] <;> rfl

theorem meaning_decodeMemory (i : Instruction) (op : Option Op3Memory) :
    (i.decodeMemory op).meaning = (i.meaning.decodeMemory op).meaning := by
  rcases op with _ | op
  · rfl
  · cases op <;> simp only [decodeMemory, meaning]

theorem meaning_decodeSethiBranches (i : Instruction) (op : Option Op2) :
    (i.decodeSethiBranches op).meaning = (i.meaning.decodeSethiBranches op).meaning := by
  rcases op with _ | op
  · rfl
  · cases op <;> rfl

theorem meaning_decodeOperation (i : Instruction) :
    i.decodeOperation.meaning = i.meaning.decodeOperation.meaning := by
  have codes : i.meaning.op1 = i.op1 ∧ i.meaning.op2 = i.op2 ∧ i.meaning.op3 = i.op3 :=
    ⟨rfl, rfl, rfl⟩
  simp only [decodeOperation, codes.1, codes.2.1, codes.2.2]
  rcases Op1.ofCode i.op1 with _ | op
  · rfl
  · cases op with
    | call => rfl
    | sethiBranches => exact meaning_decodeSethiBranches i _
    | memory => exact meaning_decodeMemory i _
    | arithmeticEtc => exact meaning_decodeArithmetic i _

theorem decodeOperation_cases (i : Instruction) :
    i.decodeOperation = { i with unimplemented := true } ∨
      i.decodeOperation =
        { i with call := true, aluop := .add, writeRegisters := true, rd := 15 } ∨
      (∃ op, i.decodeOperation = i.decodeSethiBranches op) ∨
      (∃ op, i.decodeOperation = i.decodeMemory op) ∨
      ∃ op, i.decodeOperation = i.decodeArithmetic op := by
  simp only [decodeOperation]
  rcases Op1.ofCode i.op1 with _ | op
  · exact Or.inl rfl
  · cases op with
    | call => exact Or.inr (Or.inl rfl)
    | sethiBranches => exact Or.inr (Or.inr (Or.inl ⟨_, rfl⟩))
    | memory => exact Or.inr (Or.inr (Or.inr (Or.inl ⟨_, rfl⟩)))
    | arithmeticEtc => exact Or.inr (Or.inr (Or.inr (Or.inr ⟨_, rfl⟩)))

theorem kept_decodeOperation (i : Instruction) :
    i.decodeOperation.inst = i.inst ∧ i.decodeOperation.rs1 = i.rs1 ∧
      i.decodeOperation.rs2 = i.rs2 ∧ i.decodeOperation.icc = i.icc := by
  obtain decoded | decoded | ⟨op, decoded⟩ | ⟨op, decoded⟩ | ⟨op, decoded⟩ :=
    i.decodeOperation_cases <;> rw [decoded]
  · exact ⟨rfl, rfl, rfl, rfl⟩
  · exact ⟨rfl, rfl, rfl, rfl⟩
  · rcases op with _ | op
    · exact ⟨rfl, rfl, rfl, rfl⟩
    · cases op <;> exact ⟨rfl, rfl, rfl, rfl⟩
  · rcases op with _ | op
    · exact ⟨rfl, rfl, rfl, rfl⟩
    · cases op <;> exact ⟨rfl, rfl, rfl, rfl⟩
  · rcases op with _ | op
    · exact ⟨rfl, rfl, rfl, rfl⟩
    · cases op <;> exact ⟨rfl, rfl, rfl, rfl⟩

theorem inst_decodeOperation (i : Instruction) : i.decodeOperation.inst = i.inst :=
  i.kept_decodeOperation.1

theorem decodeOperation_again (i : Instruction) :
    i.decodeFields.decodeOperation.decodeFields.decodeOperation =
      i.decodeFields.decodeOperation := by
  have same : i.decodeFields.decodeOperation.inst = i.inst := inst_decodeOperation _
  have op1 : i.decodeFields.decodeOperation.decodeFields.op1 = i.decodeFields.op1 :=
    congrArg (fun w : Word => (w >>> 30).toNat) same
  have op2 : i.decodeFields.decodeOperation.decodeFields.op2 = i.decodeFields.op2 :=
    congrArg (fun w : Word => ((w &&& 0x01C00000) >>> 22).toNat) same
  have op3 : i.decodeFields.decodeOperation.decodeFields.op3 = i.decodeFields.op3 :=
    congrArg (fun w : Word => ((w &&& 0x01F80000) >>> 19).toNat) same
  rw [decodeOperation, op1, op2, op3]
  rcases code : Op1.ofCode i.decodeFields.op1 with _ | op
  · simp only [decodeOperation, code]
    rfl
  · cases op with
    | call =>
        simp only [decodeOperation, code]
        rfl
    | sethiBranches =>
        simp only [decodeOperation, code]
        rw [decodeFields_decodeSethiBranches, decodeSethiBranches_again]
    | memory =>
        simp only [decodeOperation, code]
        rw [decodeFields_decodeMemory, decodeMemory_again]
    | arithmeticEtc =>
        simp only [decodeOperation, code]
        rw [decodeFields_decodeArithmetic, decodeArithmetic_again]

theorem meaning_decode (i : Instruction) :
    i.decode.meaning = i.decodeFields.decodeOperation.meaning := by
  simp only [decode]
  split <;> rfl

theorem inst_ofWord (w : Word) : (ofWord w).inst = w :=
  calc (ofWord w).inst = (ofWord w).meaning.inst := rfl
    _ = (nop.setInst w).decodeFields.decodeOperation.meaning.inst :=
        congrArg Instruction.inst (meaning_decode _)
    _ = w := inst_decodeOperation _

theorem meaning_decode_of_keeps {w : Word} {i : Instruction} (keeps : i.Keeps w) :
    i.decode.meaning = (ofWord w).meaning := by
  have fields : i.decodeFields.meaning =
      (nop.setInst w).decodeFields.decodeOperation.decodeFields.meaning := by
    have same : i.operation = (nop.setInst w).decodeFields.decodeOperation.operation := by
      rw [keeps.operation]
      exact congrArg (fun j : Instruction => { j with rd := 0 }) (meaning_decode _)
    calc i.decodeFields.meaning = i.operation.decodeFields.meaning := rfl
      _ = (nop.setInst w).decodeFields.decodeOperation.operation.decodeFields.meaning := by
          rw [same]
      _ = _ := rfl
  rw [meaning_decode, meaning_decodeOperation, fields, ← meaning_decodeOperation,
    decodeOperation_again]
  exact (meaning_decode _).symm

def IsBlank (i : Instruction) : Prop :=
  i.dbWordInstruction = false ∧ i.writeRegisters = false ∧ i.writeSpecialRegisters = false

def RaisedOver (before blank after : Instruction) : Prop :=
  after.dbWordInstruction = (before.dbWordInstruction || blank.dbWordInstruction) ∧
    after.writeRegisters = (before.writeRegisters || blank.writeRegisters) ∧
    after.writeSpecialRegisters = (before.writeSpecialRegisters || blank.writeSpecialRegisters)

theorem raised_decodeArithmetic {i blank : Instruction} (fresh : blank.IsBlank)
    (op : Option Op3Arithmetic) :
    i.RaisedOver (blank.decodeArithmetic op) (i.decodeArithmetic op) := by
  obtain ⟨db, registers, special⟩ := fresh
  rcases op with _ | op
  · simp [RaisedOver, decodeArithmetic, db, registers, special]
  · cases op <;> simp [RaisedOver, decodeArithmetic, db, registers, special]

theorem raised_decodeMemory {i blank : Instruction} (fresh : blank.IsBlank)
    (op : Option Op3Memory) : i.RaisedOver (blank.decodeMemory op) (i.decodeMemory op) := by
  obtain ⟨db, registers, special⟩ := fresh
  rcases op with _ | op
  · simp [RaisedOver, decodeMemory, db, registers, special]
  · cases op <;> simp [RaisedOver, decodeMemory, db, registers, special]

theorem raised_decodeSethiBranches {i blank : Instruction} (fresh : blank.IsBlank)
    (op : Option Op2) :
    i.RaisedOver (blank.decodeSethiBranches op) (i.decodeSethiBranches op) := by
  obtain ⟨db, registers, special⟩ := fresh
  rcases op with _ | op
  · simp [RaisedOver, decodeSethiBranches, db, registers, special]
  · cases op <;> simp [RaisedOver, decodeSethiBranches, db, registers, special]

theorem raised_decodeOperation (i blank : Instruction) (fresh : blank.IsBlank)
    (op1 : i.op1 = blank.op1) (op2 : i.op2 = blank.op2) (op3 : i.op3 = blank.op3) :
    i.RaisedOver blank.decodeOperation i.decodeOperation := by
  simp only [decodeOperation, op1, op2, op3]
  rcases Op1.ofCode blank.op1 with _ | op
  · simp [RaisedOver, fresh.1, fresh.2.1, fresh.2.2]
  · cases op with
    | call => simp [RaisedOver, fresh.1, fresh.2.2]
    | sethiBranches => exact raised_decodeSethiBranches fresh _
    | memory => exact raised_decodeMemory fresh _
    | arithmeticEtc => exact raised_decodeArithmetic fresh _

theorem raised_of_keeps {w : Word} {i : Instruction} (keeps : i.Keeps w) :
    i.RaisedOver (nop.setInst w).decodeFields.decodeOperation i.decodeFields.decodeOperation := by
  have word : i.inst = w := (congrArg Instruction.inst keeps.operation).trans (inst_ofWord w)
  exact raised_decodeOperation i.decodeFields (nop.setInst w).decodeFields ⟨rfl, rfl, rfl⟩
    (congrArg (fun w : Word => (w >>> 30).toNat) word)
    (congrArg (fun w : Word => ((w &&& 0x01C00000) >>> 22).toNat) word)
    (congrArg (fun w : Word => ((w &&& 0x01F80000) >>> 19).toNat) word)

theorem decode_of_keeps {w : Word} {i : Instruction} (keeps : i.Keeps w) :
    i.decode.meaning = (ofWord w).meaning ∧
      i.decode.dbWordInstruction = (ofWord w).dbWordInstruction ∧
      i.decode.writeSpecialRegisters =
        (i.writeSpecialRegisters || (ofWord w).writeSpecialRegisters) := by
  refine ⟨meaning_decode_of_keeps keeps, ?_⟩
  obtain ⟨db, _, special⟩ := raised_of_keeps keeps
  have flags : ∀ j : Instruction, j.decode.dbWordInstruction =
      j.decodeFields.decodeOperation.dbWordInstruction ∧ j.decode.writeSpecialRegisters =
      j.decodeFields.decodeOperation.writeSpecialRegisters := by
    intro j
    simp only [decode]
    split <;> exact ⟨rfl, rfl⟩
  rw [(flags i).1, (flags i).2, db, special]
  have own := flags (nop.setInst w)
  refine ⟨?_, by rw [ofWord, own.2]⟩
  have kept := keeps.dbWord
  rw [ofWord, own.1] at kept ⊢
  change (i.dbWordInstruction || _) = _
  cases old : i.dbWordInstruction with
  | false => rfl
  | true => simpa using (kept old).symm

theorem decodeOperation_deadline {i : Instruction} (blank : i.selectSpecialRegister = none)
    (select : i.decodeOperation.selectSpecialRegister = some .dt) :
    i.decodeOperation = { i with aluop := .addDead, selectSpecialRegister := some .dt } := by
  obtain decoded | decoded | ⟨op, decoded⟩ | ⟨op, decoded⟩ | ⟨op, decoded⟩ :=
    i.decodeOperation_cases <;> rw [decoded] at select ⊢
  · simp [blank] at select
  · simp [blank] at select
  · rcases op with _ | op
    · simp [decodeSethiBranches, blank] at select
    · cases op <;> simp [decodeSethiBranches, blank] at select
  · rcases op with _ | op
    · simp [decodeMemory, blank] at select
    · cases op <;> simp [decodeMemory, blank] at select ⊢
  · rcases op with _ | op
    · simp [decodeArithmetic, blank] at select
    · cases op <;> simp [decodeArithmetic, blank] at select <;> split at select <;> cases select

theorem decodeOperation_mem2sp {i : Instruction} (blank : i.selectSpecialRegister = none)
    (select : i.decodeOperation.selectSpecialRegister = some .mem2sp) :
    i.decodeOperation =
      { i with
        writeSpecialRegisters := true, aluop := .add, selectSpecialRegister := some .mem2sp } := by
  obtain decoded | decoded | ⟨op, decoded⟩ | ⟨op, decoded⟩ | ⟨op, decoded⟩ :=
    i.decodeOperation_cases <;> rw [decoded] at select ⊢
  · simp [blank] at select
  · simp [blank] at select
  · rcases op with _ | op
    · simp [decodeSethiBranches, blank] at select
    · cases op <;> simp [decodeSethiBranches, blank] at select
  · rcases op with _ | op
    · simp [decodeMemory, blank] at select
    · cases op <;> simp [decodeMemory, blank] at select ⊢
  · rcases op with _ | op
    · simp [decodeArithmetic, blank] at select
    · cases op <;> simp [decodeArithmetic, blank] at select <;> split at select <;> cases select

theorem decodeOperation_sync {i : Instruction} (blank : i.syncInstruction = false)
    (sync : i.decodeOperation.syncInstruction = true) :
    i.decodeOperation = { i with syncInstruction := true } := by
  obtain decoded | decoded | ⟨op, decoded⟩ | ⟨op, decoded⟩ | ⟨op, decoded⟩ :=
    i.decodeOperation_cases <;> rw [decoded] at sync ⊢
  · simp [blank] at sync
  · simp [blank] at sync
  · rcases op with _ | op
    · simp [decodeSethiBranches, blank] at sync
    · cases op <;> simp [decodeSethiBranches, blank] at sync
  · rcases op with _ | op
    · simp [decodeMemory, blank] at sync
    · cases op <;> simp [decodeMemory, blank] at sync
  · rcases op with _ | op
    · simp [decodeArithmetic, blank] at sync
    · cases op <;> simp [decodeArithmetic, blank] at sync ⊢

theorem decodeOperation_rett {i : Instruction} (blank : i.isRett = false)
    (rett : i.decodeOperation.isRett = true) :
    i.decodeOperation =
      { i with isRett := true, jump := true, aluop := .add, incrementWindowPointer := 1 } := by
  obtain decoded | decoded | ⟨op, decoded⟩ | ⟨op, decoded⟩ | ⟨op, decoded⟩ :=
    i.decodeOperation_cases <;> rw [decoded] at rett ⊢
  · simp [blank] at rett
  · simp [blank] at rett
  · rcases op with _ | op
    · simp [decodeSethiBranches, blank] at rett
    · cases op <;> simp [decodeSethiBranches, blank] at rett
  · rcases op with _ | op
    · simp [decodeMemory, blank] at rett
    · cases op <;> simp [decodeMemory, blank] at rett
  · rcases op with _ | op
    · simp [decodeArithmetic, blank] at rett
    · cases op <;> simp [decodeArithmetic, blank] at rett ⊢

theorem decodeOperation_dbWord {i : Instruction} (blank : i.dbWordInstruction = false)
    (double : i.decodeOperation.dbWordInstruction = true) :
    i.decodeOperation = { i with aluop := .add, writeMemory := true, dbWordInstruction := true } ∨
      i.decodeOperation =
        { i with
          aluop := .add, writeRegisters := true, readMemory := true, memorySize := .doubleword,
          dbWordInstruction := true } := by
  obtain decoded | decoded | ⟨op, decoded⟩ | ⟨op, decoded⟩ | ⟨op, decoded⟩ :=
    i.decodeOperation_cases <;> rw [decoded] at double ⊢
  · simp [blank] at double
  · simp [blank] at double
  · rcases op with _ | op
    · simp [decodeSethiBranches, blank] at double
    · cases op <;> simp [decodeSethiBranches, blank] at double
  · rcases op with _ | op
    · simp [decodeMemory, blank] at double
    · cases op <;> simp [decodeMemory, blank] at double ⊢
  · rcases op with _ | op
    · simp [decodeArithmetic, blank] at double
    · cases op <;> simp [decodeArithmetic, blank] at double

theorem writeRegisters_decode (i : Instruction) :
    i.decode.writeRegisters =
      (i.decodeFields.decodeOperation.writeRegisters && i.decode.rd != 0) := by
  simp only [decode]
  split
  · rename_i zero
    simp [zero]
  · rename_i some
    simp [some]

theorem writeRegisters_of_keeps {w : Word} {i : Instruction} (keeps : i.Keeps w)
    (same : i.writeRegisters = (ofWord w).writeRegisters) :
    i.decode.writeRegisters = (ofWord w).writeRegisters := by
  have rd : i.decode.rd = (ofWord w).rd :=
    of_meaning Instruction.rd (fun _ => rfl) (meaning_decode_of_keeps keeps)
  have raised : i.decodeFields.decodeOperation.writeRegisters =
      (i.writeRegisters || (nop.setInst w).decodeFields.decodeOperation.writeRegisters) :=
    (raised_of_keeps keeps).2.1
  rw [writeRegisters_decode, rd, raised, same, ofWord, writeRegisters_decode]
  cases (nop.setInst w).decodeFields.decodeOperation.writeRegisters <;> simp

theorem decode_eq (i : Instruction) :
    i.decode = i.decodeFields.decodeOperation ∨
      i.decode = { i.decodeFields.decodeOperation with writeRegisters := false } := by
  simp only [decode]
  split
  · exact Or.inr rfl
  · exact Or.inl rfl

theorem view_decode {α : Type} (view : Instruction → α)
    (blind : ∀ i : Instruction, view { i with writeRegisters := false } = view i)
    (i : Instruction) : view i.decode = view i.decodeFields.decodeOperation := by
  obtain same | same := i.decode_eq <;> rw [same]
  exact blind _

theorem inst_decode (i : Instruction) : i.decode.inst = i.inst := by
  rw [view_decode Instruction.inst (fun _ => rfl), inst_decodeOperation]
  rfl

theorem ofWord_deadline {w : Word} (select : (ofWord w).selectSpecialRegister = some .dt) :
    ofWord w =
      { (nop.setInst w).decodeFields with
        aluop := .addDead, selectSpecialRegister := some .dt } := by
  have operation := decodeOperation_deadline (i := (nop.setInst w).decodeFields) rfl
    ((view_decode Instruction.selectSpecialRegister (fun _ => rfl) _).symm.trans select)
  obtain same | same := decode_eq (nop.setInst w) <;> rw [ofWord, same, operation]
  rfl

theorem ofWord_mem2sp {w : Word} (select : (ofWord w).selectSpecialRegister = some .mem2sp) :
    (ofWord w).writeSpecialRegisters = true ∧ (ofWord w).isRett = false ∧
      (ofWord w).jump = false ∧ (ofWord w).call = false := by
  have operation := decodeOperation_mem2sp (i := (nop.setInst w).decodeFields) rfl
    ((view_decode Instruction.selectSpecialRegister (fun _ => rfl) _).symm.trans select)
  obtain same | same := decode_eq (nop.setInst w) <;> rw [ofWord, same, operation]
  · exact ⟨rfl, rfl, rfl, rfl⟩
  · exact ⟨rfl, rfl, rfl, rfl⟩

theorem ofWord_sync {w : Word} (sync : (ofWord w).syncInstruction = true) :
    ofWord w = { (nop.setInst w).decodeFields with syncInstruction := true } := by
  have operation := decodeOperation_sync (i := (nop.setInst w).decodeFields) rfl
    ((view_decode Instruction.syncInstruction (fun _ => rfl) _).symm.trans sync)
  obtain same | same := decode_eq (nop.setInst w) <;> rw [ofWord, same, operation]
  rfl

theorem ofWord_rett {w : Word} (rett : (ofWord w).isRett = true) :
    ofWord w =
      { (nop.setInst w).decodeFields with
        isRett := true, jump := true, aluop := .add, incrementWindowPointer := 1 } := by
  have operation := decodeOperation_rett (i := (nop.setInst w).decodeFields) rfl
    ((view_decode Instruction.isRett (fun _ => rfl) _).symm.trans rett)
  obtain same | same := decode_eq (nop.setInst w) <;> rw [ofWord, same, operation]
  rfl

theorem ofWord_dbWord {w : Word} (double : (ofWord w).dbWordInstruction = true) :
    ofWord w =
        { (nop.setInst w).decodeFields with
          aluop := .add, writeMemory := true, dbWordInstruction := true } ∨
      ofWord w =
        { (nop.setInst w).decodeFields with
          aluop := .add, readMemory := true, memorySize := .doubleword, dbWordInstruction := true
          writeRegisters := (nop.setInst w).decodeFields.rd != 0 } := by
  have decoded := decodeOperation_dbWord (i := (nop.setInst w).decodeFields) rfl
    ((view_decode Instruction.dbWordInstruction (fun _ => rfl) _).symm.trans double)
  simp only [ofWord, decode]
  obtain store | load := decoded
  · left
    rw [store]
    split <;> rfl
  · right
    rw [load]
    split
    · rename_i zero
      change (nop.setInst w).decodeFields.rd = 0 at zero
      rw [zero]
      rfl
    · rename_i some
      change (nop.setInst w).decodeFields.rd ≠ 0 at some
      rw [bne_iff_ne.mpr some]

end PretIss.Instruction
