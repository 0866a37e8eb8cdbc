import Mathlib.Algebra.Group.Int.Defs
import Mathlib.Algebra.Group.Nat.Defs
import Mathlib.Algebra.GroupWithZero.Nat
import Mathlib.Data.Fintype.Basic
import Mathlib.Logic.Function.Basic

/-! Constants, enumerations and machine words of the simulator, together with
the ways in which one of its calls does not return. Registers, addresses
and ALU values are 32-bit words; whether one is read as signed is decided where
it is compared or shifted. -/

namespace PretIss

abbrev Word := BitVec 32

/-- `fetch` throws on the END word, the memory wheel asserts and divides, and an array
index past its bound leaves the behaviour that the language defines. -/
inductive Halt where
  | endSimulation
  | assertionFailed
  | arithmeticException
  | outOfBounds
  deriving DecidableEq, Repr

abbrev maxThread : Nat := 1000
abbrev numThreads : Nat := 6
abbrev memDelay : BitVec 32 := 15
abbrev burstDelay : BitVec 32 := 4
abbrev scratchSize : Nat := 0x10000
abbrev registerWindows : Nat := 32
abbrev numDeadlineTimers : Nat := 8
abbrev numPllTimers : Nat := 1

instance : NeZero numThreads := ⟨by decide⟩

abbrev ThreadId := Fin numThreads

/-- A read of a C array at an `int` index. -/
def arrayGet {α : Type} {n : Nat} (array : Fin n → α) (index : Int) : Except Halt α :=
  if h : 0 ≤ index ∧ index < n then .ok (array ⟨index.toNat, by omega⟩)
  else .error .outOfBounds

/-- A write to a C array at an `int` index. -/
def arraySet {α : Type} {n : Nat} (array : Fin n → α) (index : Int) (value : α) :
    Except Halt (Fin n → α) :=
  if h : 0 ≤ index ∧ index < n then .ok (Function.update array ⟨index.toNat, by omega⟩ value)
  else .error .outOfBounds

inductive Alu where
  | nop | add | addDead | sub | and | or | xor | sll | srl | sra | xnor | andn | orn | sethi | mul
  deriving DecidableEq, Repr

inductive BranchConditions where
  | ba | bn | bne | be | bg | ble | bge | bl | bgu | bleu | bcc | bcs | bpos | bneg | bvc | bvs
  deriving DecidableEq, Repr

def BranchConditions.ofCode : Nat → Option BranchConditions
  | 8 => some .ba
  | 0 => some .bn
  | 9 => some .bne
  | 1 => some .be
  | 10 => some .bg
  | 2 => some .ble
  | 11 => some .bge
  | 3 => some .bl
  | 12 => some .bgu
  | 4 => some .bleu
  | 13 => some .bcc
  | 5 => some .bcs
  | 14 => some .bpos
  | 6 => some .bneg
  | 15 => some .bvc
  | 7 => some .bvs
  | _ => none

inductive MemorySize where
  | signedByte | unsignedByte | signedHalfword | unsignedHalfword | word | doubleword
  deriving DecidableEq, Repr

inductive Op1 where
  | sethiBranches | call | arithmeticEtc | memory
  deriving DecidableEq, Repr

def Op1.ofCode : Nat → Option Op1
  | 0 => some .sethiBranches
  | 1 => some .call
  | 2 => some .arithmeticEtc
  | 3 => some .memory
  | _ => none

inductive Op2 where
  | bicc | sethi | fbfcc | cbccc
  deriving DecidableEq, Repr

def Op2.ofCode : Nat → Option Op2
  | 2 => some .bicc
  | 4 => some .sethi
  | 6 => some .fbfcc
  | 7 => some .cbccc
  | _ => none

/-- `RDY` and `RDASR` share a code, and so do `WRY` and `WRASR`. -/
inductive Op3Arithmetic where
  | add | and | or | xor | sub | subx | subxcc | andn | orn | xnor | addcc | addx | addxcc
  | andcc | orcc | xorcc | subcc | andncc | orncc | xnorcc | sll | srl | sra
  | rdasr | rdpsr | rdwim | rdtbr | dead | wry | wrpsr | wrwim | wrtbr
  | jmpl | rett | save | restore | mulscc | sync
  deriving DecidableEq, Repr

def Op3Arithmetic.ofCode : Nat → Option Op3Arithmetic
  | 0x0 => some .add
  | 0x1 => some .and
  | 0x2 => some .or
  | 0x3 => some .xor
  | 0x4 => some .sub
  | 0xC => some .subx
  | 0x1C => some .subxcc
  | 0x5 => some .andn
  | 0x6 => some .orn
  | 0x7 => some .xnor
  | 0x10 => some .addcc
  | 0x8 => some .addx
  | 0x18 => some .addxcc
  | 0x11 => some .andcc
  | 0x12 => some .orcc
  | 0x13 => some .xorcc
  | 0x14 => some .subcc
  | 0x15 => some .andncc
  | 0x16 => some .orncc
  | 0x17 => some .xnorcc
  | 0x25 => some .sll
  | 0x26 => some .srl
  | 0x27 => some .sra
  | 0x28 => some .rdasr
  | 0x29 => some .rdpsr
  | 0x2A => some .rdwim
  | 0x2B => some .rdtbr
  | 0x2C => some .dead
  | 0x30 => some .wry
  | 0x31 => some .wrpsr
  | 0x32 => some .wrwim
  | 0x33 => some .wrtbr
  | 0x38 => some .jmpl
  | 0x39 => some .rett
  | 0x3C => some .save
  | 0x3D => some .restore
  | 0x24 => some .mulscc
  | 0x2D => some .sync
  | _ => none

/-- The codes `decode_memory` switches on; `DEAD` and `MEM2SP` are borrowed from
the arithmetic and coprocessor enumerations. -/
inductive Op3Memory where
  | ld | st | stb | std | sth | ldsb | ldsh | ldub | lduh | ldd | dead | mem2sp
  deriving DecidableEq, Repr

def Op3Memory.ofCode : Nat → Option Op3Memory
  | 0x0 => some .ld
  | 0x4 => some .st
  | 0x5 => some .stb
  | 0x7 => some .std
  | 0x6 => some .sth
  | 0x9 => some .ldsb
  | 0xA => some .ldsh
  | 0x1 => some .ldub
  | 0x2 => some .lduh
  | 0x3 => some .ldd
  | 0x2C => some .dead
  | 0x34 => some .mem2sp
  | _ => none

inductive Srcmux where
  | ra | ex | me | imm | zero | xc
  deriving DecidableEq, Repr

/-- The value 0 of `_select_special_register`, no special register, is `none`
in the records that hold one of these. -/
inductive SregMux where
  | y | asr | psr | wim | tbr | dt | mem2sp
  deriving DecidableEq, Repr

inductive ExceptionState where
  | normal | trapped | trapped2 | error
  deriving DecidableEq, Repr

inductive DtStatus where
  | unset | set | missed
  deriving DecidableEq, Repr

inductive TransferState where
  | idle | complete | busy | scheduled
  deriving DecidableEq, Repr

end PretIss
