import PretIss.Model.Definitions

/-! The `instruction` class: the latch that a thread carries through the
pipeline. The defaults of the fields are the values `initialize` gives them.
`decode` only raises flags, so a latch that is decoded again keeps every flag an
earlier pass raised. -/

namespace PretIss

structure Instruction where
  aluop : Alu := .nop
  aluResult : Word := 0
  annul : Bool := false
  branch : Bool := false
  call : Bool := false
  carry : Bool := false
  conditionalBranch : Nat := 0
  dbWordInstruction : Bool := false
  disp30 : Word := 0
  disp22 : Word := 0
  icc : BitVec 8 := 0
  incrementWindowPointer : BitVec 16 := 0
  imm : Word := 0
  inst : Word
  jump : Bool := false
  memorySize : MemorySize := .word
  op1 : Nat := 0
  op1Value : Word := 0
  op2 : Nat := 4
  op2Value : Word := 0
  op3 : Nat := 0
  op3Value : Word := 0
  pc : Word := 0
  readMemory : Bool := false
  rs1 : Nat := 0
  rs1sel : Srcmux := .ra
  rs2 : Nat := 0
  rs2sel : Srcmux := .ra
  rd : Nat := 0
  rdsel : Srcmux := .ra
  selectSpecialRegister : Option SregMux := none
  signedMultiply : Bool := false
  unimplemented : Bool := false
  useImm : Bool := false
  writeIcc : Bool := false
  writeRegisters : Bool := false
  writeSpecialRegisters : Bool := false
  writeMemory : Bool := false
  isRett : Bool := false
  syncInstruction : Bool := false

namespace Instruction

def initialized (i : Instruction) : Instruction := { inst := i.inst }

/-- The default constructor holds a NOP. -/
def nop : Instruction := { inst := 0x01000000 }

def setInst (i : Instruction) (inbits : Word) : Instruction :=
  { i.initialized with inst := inbits }

def decodeArithmetic (i : Instruction) : Option Op3Arithmetic → Instruction
  | some .mulscc =>
      { i with aluop := .mul, writeRegisters := true, signedMultiply := true, writeIcc := true }
  | some .add => { i with aluop := .add, writeRegisters := true }
  | some .addx => { i with aluop := .add, writeRegisters := true, carry := true }
  | some .addxcc =>
      { i with aluop := .add, writeRegisters := true, writeIcc := true, carry := true }
  | some .and => { i with aluop := .and, writeRegisters := true }
  | some .or => { i with aluop := .or, writeRegisters := true }
  | some .xor => { i with aluop := .xor, writeRegisters := true }
  | some .sub => { i with aluop := .sub, writeRegisters := true }
  | some .subx => { i with aluop := .sub, writeRegisters := true, carry := true }
  | some .subxcc =>
      { i with aluop := .sub, writeRegisters := true, carry := true, writeIcc := true }
  | some .andn => { i with aluop := .andn, writeRegisters := true }
  | some .orn => { i with aluop := .orn, writeRegisters := true }
  | some .xnor => { i with aluop := .xnor, writeRegisters := true }
  | some .addcc => { i with aluop := .add, writeRegisters := true, writeIcc := true }
  | some .andcc => { i with aluop := .and, writeRegisters := true, writeIcc := true }
  | some .orcc => { i with aluop := .or, writeRegisters := true, writeIcc := true }
  | some .xorcc => { i with aluop := .xor, writeRegisters := true, writeIcc := true }
  | some .subcc => { i with aluop := .sub, writeRegisters := true, writeIcc := true }
  | some .andncc => { i with aluop := .andn, writeRegisters := true, writeIcc := true }
  | some .orncc => { i with aluop := .orn, writeRegisters := true, writeIcc := true }
  | some .xnorcc => { i with aluop := .xnor, writeRegisters := true, writeIcc := true }
  | some .jmpl => { i with jump := true, writeRegisters := true, aluop := .add }
  | some .rett =>
      { i with isRett := true, jump := true, aluop := .add, incrementWindowPointer := 1 }
  | some .save =>
      { i with incrementWindowPointer := -1, aluop := .add, writeRegisters := true }
  | some .restore =>
      { i with incrementWindowPointer := 1, aluop := .add, writeRegisters := true }
  | some .sll => { i with aluop := .sll, writeRegisters := true }
  | some .srl => { i with aluop := .srl, writeRegisters := true }
  | some .sra => { i with aluop := .sra, writeRegisters := true }
  | some .rdpsr => { i with selectSpecialRegister := some .psr, writeRegisters := true }
  | some .rdasr =>
      { i with
        selectSpecialRegister := if i.rs1 ≠ 0 then some .asr else some .y,
        writeRegisters := true }
  | some .rdwim => { i with selectSpecialRegister := some .wim, writeRegisters := true }
  | some .rdtbr => { i with selectSpecialRegister := some .tbr, writeRegisters := true }
  | some .dead => i
  | some .wry =>
      { i with
        selectSpecialRegister := if i.rd ≠ 0 then some .asr else some .y,
        writeSpecialRegisters := true, aluop := .xor }
  | some .wrpsr =>
      { i with selectSpecialRegister := some .psr, aluop := .xor, writeSpecialRegisters := true }
  | some .wrwim =>
      { i with selectSpecialRegister := some .wim, aluop := .xor, writeSpecialRegisters := true }
  | some .wrtbr =>
      { i with selectSpecialRegister := some .tbr, aluop := .xor, writeSpecialRegisters := true }
  | some .sync => { i with syncInstruction := true }
  | none => { i with unimplemented := true }

def decodeMemory (i : Instruction) : Option Op3Memory → Instruction
  | some .st => { i with aluop := .add, writeMemory := true }
  | some .stb => { i with aluop := .add, writeMemory := true, memorySize := .unsignedByte }
  | some .std => { i with aluop := .add, writeMemory := true, dbWordInstruction := true }
  | some .sth => { i with aluop := .add, writeMemory := true, memorySize := .unsignedHalfword }
  | some .ld => { i with aluop := .add, writeRegisters := true, readMemory := true }
  | some .ldub =>
      { i with
        aluop := .add, writeRegisters := true, readMemory := true, memorySize := .unsignedByte }
  | some .lduh =>
      { i with
        aluop := .add, writeRegisters := true, readMemory := true,
        memorySize := .unsignedHalfword }
  | some .ldsb =>
      { i with
        aluop := .add, writeRegisters := true, readMemory := true, memorySize := .signedByte }
  | some .ldsh =>
      { i with
        aluop := .add, writeRegisters := true, readMemory := true, memorySize := .signedHalfword }
  | some .ldd =>
      { i with
        aluop := .add, writeRegisters := true, readMemory := true, memorySize := .doubleword,
        dbWordInstruction := true }
  | some .dead => { i with aluop := .addDead, selectSpecialRegister := some .dt }
  | some .mem2sp =>
      { i with
        writeSpecialRegisters := true, aluop := .add, selectSpecialRegister := some .mem2sp }
  | none => { i with unimplemented := true }

def decodeSethiBranches (i : Instruction) : Option Op2 → Instruction
  | some .sethi => { i with aluop := .sethi, writeRegisters := true }
  | some .bicc => { i with branch := true }
  | _ => { i with unimplemented := true }

/-- The bit fields of the word, before the switch on `_op1`. -/
def decodeFields (i : Instruction) : Instruction :=
  { i with
    op1 := (i.inst >>> 30).toNat
    op2 := ((i.inst &&& 0x01C00000) >>> 22).toNat
    op3 := ((i.inst &&& 0x01F80000) >>> 19).toNat
    rd := ((i.inst &&& 0x3E000000) >>> 25).toNat
    rs1 := ((i.inst &&& 0x0007C000) >>> 14).toNat
    useImm := (i.inst &&& 0x00002000) >>> 12 != 0
    imm := ((i.inst &&& 0x00001FFF) <<< 19).sshiftRight 19
    rs2 := (i.inst &&& 0x0000001F).toNat
    conditionalBranch := ((i.inst &&& 0x1E000000) >>> 25).toNat
    annul := (i.inst &&& 0x20000000) >>> 29 != 0
    disp30 := ((i.inst &&& 0x3FFFFFFF) <<< 2).sshiftRight 2
    disp22 := ((i.inst &&& 0x003FFFFF) <<< 10).sshiftRight 10 }

/-- The switch of `decode` on `_op1`. -/
def decodeOperation (i : Instruction) : Instruction :=
  match Op1.ofCode i.op1 with
  | some .call => { i with call := true, aluop := .add, writeRegisters := true, rd := 15 }
  | some .sethiBranches => i.decodeSethiBranches (Op2.ofCode i.op2)
  | some .memory => i.decodeMemory (Op3Memory.ofCode i.op3)
  | some .arithmeticEtc => i.decodeArithmetic (Op3Arithmetic.ofCode i.op3)
  | none => { i with unimplemented := true }

def decode (i : Instruction) : Instruction :=
  let i := i.decodeFields.decodeOperation
  if i.rd = 0 then { i with writeRegisters := false } else i

def checkEndSim (i : Instruction) : Bool := i.inst == 0x22222222

/-- The byte or halfword is taken out of a big-endian word by two shifts. -/
def readData (i : Instruction) (dataIn : Word) (offset : Nat) : Instruction :=
  let shamt := offset * 8
  match i.memorySize with
  | .signedByte => { i with aluResult := (dataIn <<< shamt).sshiftRight 24 }
  | .unsignedByte => { i with aluResult := (dataIn <<< shamt) >>> 24 }
  | .signedHalfword => { i with aluResult := (dataIn <<< shamt).sshiftRight 16 }
  | .unsignedHalfword => { i with aluResult := (dataIn <<< shamt) >>> 16 }
  | .word | .doubleword => { i with aluResult := dataIn }

/-- A shift by a negative amount, which a misaligned halfword would ask for, is
outside what the language defines; the subtraction stops at zero there. -/
def getWriteData (i : Instruction) (oldData : Word) (offset : Nat) : Word :=
  let (shamt, mask) : Nat × Word :=
    match i.memorySize with
    | .signedByte | .unsignedByte => ((3 - offset) * 8, 0xFF <<< ((3 - offset) * 8))
    | .signedHalfword | .unsignedHalfword => ((2 - offset) * 8, 0xFFFF <<< ((2 - offset) * 8))
    | .word | .doubleword => (0, 0xFFFFFFFF)
  ((i.op3Value <<< shamt) &&& mask) ||| (oldData &&& ~~~mask)

end Instruction

end PretIss
