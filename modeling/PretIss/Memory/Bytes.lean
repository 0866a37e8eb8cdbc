import PretIss.Library.BitField
import PretIss.Model.Mem
import PretIss.Thread.Latch

/-! Bytes and halfwords of big-endian words. A store shifts a value to its place in the word
and keeps the rest of the word with a mask; a load shifts the place to the top of the word
and down again. The two agree at every offset at which the bytes lie in one word. -/

namespace PretIss

/-- The size of an access to a part of a word. -/
inductive SubWord where
  | byte | halfword
  deriving DecidableEq, Repr

namespace SubWord

def bytes : SubWord → Nat
  | .byte => 1
  | .halfword => 2

def storeOp : SubWord → Op3Memory
  | .byte => .stb
  | .halfword => .sth

/-- The load of this size, with the sign or with zeros. -/
def loadOp : SubWord → Bool → Op3Memory
  | .byte, true => .ldsb
  | .byte, false => .ldub
  | .halfword, true => .ldsh
  | .halfword, false => .lduh

def memorySize : SubWord → Bool → MemorySize
  | .byte, true => .signedByte
  | .byte, false => .unsignedByte
  | .halfword, true => .signedHalfword
  | .halfword, false => .unsignedHalfword

def widen {length : Nat} (signed : Bool) (part : BitVec length) : Word :=
  if signed then part.signExtend 32 else part.setWidth 32

/-- What a load should return of a value of which this many bytes were stored. -/
def extend (size : SubWord) (signed : Bool) (value : Word) : Word :=
  widen signed (value.extractLsb' 0 (8 * size.bytes))

def place (size : SubWord) (offset : Nat) : Nat := 8 * (4 - (offset + size.bytes))

theorem inside_of_aligned {size : SubWord} {addr : Word} (aligned : addr.toNat % size.bytes = 0) :
    Mem.addrOffset addr + size.bytes ≤ 4 := by
  have offset : Mem.addrOffset addr = addr.toNat % 4 := by
    rw [Mem.addrOffset, BitVec.toNat_umod]
    rfl
  rw [offset]
  cases size with
  | byte =>
      change addr.toNat % 4 + 1 ≤ 4
      omega
  | halfword =>
      change addr.toNat % 2 = 0 at aligned
      change addr.toNat % 4 + 2 ≤ 4
      omega

end SubWord

def byteAt (k : Nat) (word : Word) : BitVec 8 := word.extractLsb' (8 * (3 - k)) 8

namespace Instruction

def memoryOp (word : Word) : Option Op3Memory :=
  let i := (nop.setInst word).decodeFields
  if Op1.ofCode i.op1 = some .memory then Op3Memory.ofCode i.op3 else none

def Performs (i : Instruction) (op : Op3Memory) : Prop :=
  ∃ word, memoryOp word = some op ∧ i.operation = (ofWord word).operation

theorem Performs.view {α : Type} {i : Instruction} {op : Op3Memory} (performs : i.Performs op)
    (view : Instruction → α) (blind : ∀ i : Instruction, view i.operation = view i)
    (free : ∀ i : Instruction, view { i with writeRegisters := false } = view i) :
    ∃ word, view i = view ((nop.setInst word).decodeFields.decodeMemory (some op)) := by
  obtain ⟨word, encodes, latch⟩ := performs
  refine ⟨word, ?_⟩
  simp only [memoryOp] at encodes
  split at encodes
  · rename_i memory
    have decoded : (nop.setInst word).decodeFields.decodeOperation =
        (nop.setInst word).decodeFields.decodeMemory (some op) := by
      rw [decodeOperation, memory, ← encodes]
    calc view i = view (ofWord word) := of_operation view blind latch
      _ = view (nop.setInst word).decodeFields.decodeOperation := view_decode view free _
      _ = _ := congrArg view decoded
  · cases encodes

section

variable {i : Instruction} {size : SubWord}

theorem Performs.store (performs : i.Performs size.storeOp) :
    i.readMemory = false ∧ i.writeMemory = true ∧ i.memorySize = size.memorySize false := by
  obtain ⟨word, reads⟩ := performs.view Instruction.readMemory (fun _ => rfl) fun _ => rfl
  obtain ⟨word', writes⟩ := performs.view Instruction.writeMemory (fun _ => rfl) fun _ => rfl
  obtain ⟨word'', sizes⟩ := performs.view Instruction.memorySize (fun _ => rfl) fun _ => rfl
  rw [reads, writes, sizes]
  cases size with
  | byte => exact ⟨rfl, rfl, rfl⟩
  | halfword => exact ⟨rfl, rfl, rfl⟩

theorem Performs.load {signed : Bool} (performs : i.Performs (size.loadOp signed)) :
    i.readMemory = true ∧ i.memorySize = size.memorySize signed := by
  obtain ⟨word, reads⟩ := performs.view Instruction.readMemory (fun _ => rfl) fun _ => rfl
  obtain ⟨word', sizes⟩ := performs.view Instruction.memorySize (fun _ => rfl) fun _ => rfl
  rw [reads, sizes]
  cases size with
  | byte => cases signed <;> exact ⟨rfl, rfl⟩
  | halfword => cases signed <;> exact ⟨rfl, rfl⟩

variable {offset : Nat} (inside : offset + size.bytes ≤ 4)

include inside

theorem getWriteData_eq_splice {signed : Bool} (sizes : i.memorySize = size.memorySize signed)
    (oldData : Word) : i.getWriteData oldData offset =
      BitField.splice (size.place offset) (8 * size.bytes) i.op3Value oldData := by
  cases size with
  | byte =>
      have shift : (3 - offset) * 8 = SubWord.byte.place offset := by
        change offset + 1 ≤ 4 at inside
        change (3 - offset) * 8 = 8 * (4 - (offset + 1))
        omega
      cases signed <;> simp only [getWriteData, sizes, SubWord.memorySize, shift] <;> rfl
  | halfword =>
      have shift : (2 - offset) * 8 = SubWord.halfword.place offset := by
        change offset + 2 ≤ 4 at inside
        change (2 - offset) * 8 = 8 * (4 - (offset + 2))
        omega
      cases signed <;> simp only [getWriteData, sizes, SubWord.memorySize, shift] <;> rfl

theorem readData_eq_widen {signed : Bool} (sizes : i.memorySize = size.memorySize signed)
    (dataIn : Word) : (i.readData dataIn offset).aluResult =
      SubWord.widen signed (dataIn.extractLsb' (size.place offset) (8 * size.bytes)) := by
  have fits : size.place offset + 8 * size.bytes ≤ 32 := by
    unfold SubWord.place
    omega
  have up : 32 - (size.place offset + 8 * size.bytes) = offset * 8 := by
    unfold SubWord.place
    omega
  have some : 0 < 8 * size.bytes := by
    cases size <;> decide
  have zeros := BitField.ushiftRight_shiftLeft dataIn fits
  have signs := BitField.sshiftRight_shiftLeft dataIn some fits
  rw [up] at zeros signs
  cases size with
  | byte =>
      cases signed <;> simp only [readData, sizes, SubWord.memorySize]
      · exact zeros
      · exact signs
  | halfword =>
      cases signed <;> simp only [readData, sizes, SubWord.memorySize]
      · exact zeros
      · exact signs

theorem byteAt_getWriteData {signed : Bool} (sizes : i.memorySize = size.memorySize signed)
    (oldData : Word) {k : Nat} (bound : k < 4) : byteAt k (i.getWriteData oldData offset) =
      if offset ≤ k ∧ k < offset + size.bytes then
        byteAt (4 - size.bytes + (k - offset)) i.op3Value
      else byteAt k oldData := by
  rw [getWriteData_eq_splice inside sizes]
  unfold byteAt SubWord.place
  split
  · rename_i addressed
    rw [BitField.extract_splice _ _ (by omega) (by omega) (by omega)]
    congr 1
    omega
  · rename_i other
    rw [BitField.extract_splice_of_apart _ _ (by omega) (by omega)]

theorem readData_getWriteData {j : Instruction} {signed other : Bool}
    (stored : i.memorySize = size.memorySize other) (loads : j.memorySize = size.memorySize signed)
    (oldData : Word) : (j.readData (i.getWriteData oldData offset) offset).aluResult =
      size.extend signed i.op3Value := by
  rw [readData_eq_widen inside loads, getWriteData_eq_splice inside stored,
    BitField.extract_splice _ _ (by unfold SubWord.place; omega) le_rfl le_rfl, Nat.sub_self]
  rfl

end

end Instruction

end PretIss
