import PretIss.Arithmetic.Compare
import PretIss.Memory.Bytes
import PretIss.Memory.Contents

/-! The integer unit as a sequential machine. A state is what a program can see of its
thread, and a step executes the instruction at the program counter at once. Loads and
stores find their words as the thread does, in its scratchpad first. The multiply step,
the return from a trap, double words and the instructions for deadlines, barriers and
transfers are left out. -/

namespace PretIss.Sparc

open DelayedTransfer (Counters)

section

variable (w : Word)

def rd : BitVec 5 := w.extractLsb' 25 5

def rs1 : BitVec 5 := w.extractLsb' 14 5

def rs2 : BitVec 5 := w.extractLsb' 0 5

def usesConstant : Bool := w.getLsbD 13

def simm13 : Word := (w.setWidth 13).signExtend 32

def format : Option Op1 := Op1.ofCode (op w).toNat

def arithmeticOp : Option Op3Arithmetic :=
  if format w = some .arithmeticEtc then Op3Arithmetic.ofCode (op3 w).toNat else none

def memoryOp : Option Op3Memory :=
  if format w = some .memory then Op3Memory.ofCode (op3 w).toNat else none

def isSethi : Bool := op w == 0 && op2 w == 4

def Ordinary : Bool :=
  match arithmeticOp w, memoryOp w with
  | some .mulscc, _ | some .rett, _ | some .sync, _ => false
  | _, some .ldd | _, some .std | _, some .dead | _, some .mem2sp => false
  | _, _ => true

end

def logicFlags (result : Word) : Flags where
  negative := result.msb
  zero := result == 0
  overflow := false
  carry := false

section

variable (operation : Op3Arithmetic) (x y : Word) (carry : Bool)

/-- What an operation computes of its operands and the carry bit. -/
def computed : Option Word :=
  match operation with
  | .add | .addcc | .save | .restore => some (x + y)
  | .addx | .addxcc => some (Flags.sum x y carry)
  | .sub | .subcc => some (x - y)
  | .subx | .subxcc => some (Flags.difference x y carry)
  | .and | .andcc => some (x &&& y)
  | .or | .orcc => some (x ||| y)
  | .xor | .xorcc => some (x ^^^ y)
  | .andn | .andncc => some (x &&& ~~~y)
  | .orn | .orncc => some (x ||| ~~~y)
  | .xnor | .xnorcc => some (~~~(x ^^^ y))
  | .sll => some (x <<< (y.toNat % 32))
  | .srl => some (x >>> (y.toNat % 32))
  | .sra => some (x.sshiftRight (y.toNat % 32))
  | _ => none

/-- The flags that it sets, if it sets them. -/
def flagged : Option Flags :=
  match operation with
  | .addcc => some (.ofSum x y false)
  | .addxcc => some (.ofSum x y carry)
  | .subcc => some (.ofDifference x y false)
  | .subxcc => some (.ofDifference x y carry)
  | .andcc => some (logicFlags (x &&& y))
  | .orcc => some (logicFlags (x ||| y))
  | .xorcc => some (logicFlags (x ^^^ y))
  | .andncc => some (logicFlags (x &&& ~~~y))
  | .orncc => some (logicFlags (x ||| ~~~y))
  | .xnorcc => some (logicFlags (~~~(x ^^^ y)))
  | _ => none

end

/-- What a load takes of the word that it finds. -/
def loadedPart (operation : Op3Memory) (word : Word) (offset : Nat) : Option Word :=
  let part (size : SubWord) (signed : Bool) : Word :=
    SubWord.widen signed (word.extractLsb' (size.place offset) (8 * size.bytes))
  match operation with
  | .ld => some word
  | .ldsb => some (part .byte true)
  | .ldub => some (part .byte false)
  | .ldsh => some (part .halfword true)
  | .lduh => some (part .halfword false)
  | _ => none

/-- The word that a store leaves in place of an old one. -/
def mergedWord (operation : Op3Memory) (value old : Word) (offset : Nat) : Option Word :=
  let part (size : SubWord) : Word :=
    BitField.splice (size.place offset) (8 * size.bytes) value old
  match operation with
  | .st => some value
  | .stb => some (part .byte)
  | .sth => some (part .halfword)
  | _ => none

def inWord (operation : Op3Memory) (offset : Nat) : Bool :=
  match operation with
  | .ldsh | .lduh | .sth => offset + 2 ≤ 4
  | _ => true

structure State where
  counters : Counters 32
  regs : RegisterFile
  special : SpecialReg
  memory : Contents

namespace State

variable (s : State) (id : ThreadId) (w : Word)

def reg (r : BitVec 5) : Word := s.regs.getReg r.toNat s.special.currWp

def carry : Bool := s.special.icc.getLsbD 0

def operand1 : Word := s.reg (rs1 w)

def operand2 : Word := if usesConstant w then simm13 w else s.reg (rs2 w)

def address : Word := s.operand1 w + s.operand2 w

/-- The instruction to be executed. -/
def word : Word := s.memory.value id s.counters.pc

def found : Word := s.memory.value id (Mem.alignedAddr (s.address w))

def stateRead : Op3Arithmetic → Option Word
  | .rdasr => some (if rs1 w = 0 then s.special.y else s.special.asr (rs1 w).toFin)
  | .rdpsr => some s.special.getPsr
  | .rdwim => some s.special.wim
  | .rdtbr => some s.special.tbr
  | .jmpl => some s.counters.pc
  | _ => none

/-- What an instruction leaves in its register. -/
def delivered : Option Word :=
  match format w with
  | some .call => some s.counters.pc
  | some .sethiBranches => if isSethi w then some (w.setWidth 22 ++ 0#10) else none
  | some .arithmeticEtc => (arithmeticOp w).bind fun operation =>
      (computed operation (s.operand1 w) (s.operand2 w) s.carry).or (s.stateRead w operation)
  | some .memory => (memoryOp w).bind fun operation =>
      loadedPart operation (s.found id w) (Mem.addrOffset (s.address w))
  | none => none

/-- The special registers after an operation: the next window, or what is written to one of
them, or the flags. -/
def operated (operation : Op3Arithmetic) : SpecialReg :=
  let value := s.operand1 w ^^^ s.operand2 w
  match operation with
  | .save => { s.special with currWp := (s.special.currWp - 1) % registerWindows }
  | .restore => { s.special with currWp := (s.special.currWp + 1) % registerWindows }
  | .wry =>
      if rd w = 0 then { s.special with y := value }
      else { s.special with asr := Function.update s.special.asr (rd w).toFin value }
  | .wrpsr => s.special.setPsr value
  | .wrwim => { s.special with wim := value }
  | .wrtbr => { s.special with tbr := value }
  | _ =>
      match flagged operation (s.operand1 w) (s.operand2 w) s.carry with
      | some flags => { s.special with icc := Execute.iccOf flags }
      | none => s.special

def nextSpecial : SpecialReg :=
  match arithmeticOp w with
  | some operation => s.operated w operation
  | none => s.special

def nextRegs : RegisterFile :=
  match s.delivered id w with
  | some value =>
      if link w = 0 then s.regs else s.regs.setReg (link w) value (s.nextSpecial w).currWp
  | none => s.regs

def nextMemory : Contents :=
  match (memoryOp w).bind fun operation =>
      mergedWord operation (s.reg (rd w)) (s.found id w) (Mem.addrOffset (s.address w)) with
  | some data => s.memory.put id (Mem.alignedAddr (s.address w)) data
  | none => s.memory

def exec : State where
  counters := s.counters.next 4 (transfer w s.special.icc s.counters.pc (s.address w))
  regs := s.nextRegs id w
  special := s.nextSpecial w
  memory := s.nextMemory id w

/-- One instruction. -/
def step : State := s.exec id (s.word id)

def Tracks : Prop :=
  match transfer w s.special.icc s.counters.pc (s.address w) with
  | .sequential | .skipping => True
  | .redirected _ => s.counters.npc = s.counters.pc + 4
  | .delayed target => target ≠ 0 ∧
      (isCall w || isBranch w || link w != 0 → s.counters.npc = s.counters.pc + 4)

instance : Decidable (s.Tracks w) := by
  unfold Tracks
  split <;> infer_instance

end State

end PretIss.Sparc
