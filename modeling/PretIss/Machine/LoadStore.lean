import PretIss.Machine.Step

/-! Loads and stores, whether their word is fetched in the pass or kept from a pass that
stalled. -/

namespace PretIss

open Sparc (State link links fields)

theorem Mem.addrOffset_lt (addr : Word) : addrOffset addr < 4 := by
  rw [addrOffset, BitVec.toNat_umod]
  exact Nat.mod_lt _ (by decide)

namespace Sparc

variable {w : Word} {operation : Op3Memory}

theorem plain_of_memoryOp (known : memoryOp w = some operation) : arithmeticOp w = none := by
  apply arithmeticOp_of_ne
  rw [format_of_memoryOp known]
  intro same
  cases same

theorem transfer_of_memoryOp (known : memoryOp w = some operation) (icc : BitVec 8)
    (pc aluResult : Word) : transfer w icc pc aluResult = .sequential := by
  have format := format_of_memoryOp known
  obtain ⟨other, _⟩ | ⟨other, _⟩ | ⟨other, _⟩ | ⟨_, code⟩ := format_cases w
  · rw [format] at other
    cases other
  · rw [format] at other
    cases other
  · rw [format] at other
    cases other
  · rw [transfer, isCall, isBranch, isJmpl, isRett, code]
    rfl

theorem memoryOp_of_access (access : IsAccess w) : ∃ operation, memoryOp w = some operation := by
  cases known : memoryOp w with
  | some operation => exact ⟨operation, rfl⟩
  | none =>
      have silent : (fields w).decodeOperation.readMemory = false ∧
          (fields w).decodeOperation.writeMemory = false := by
        obtain ⟨near, _⟩ | ⟨call, _⟩ | ⟨arithmetic, _⟩ | ⟨memory, _⟩ := format_cases w
        · rw [decoded_sethiBranches near]
          rcases Op2.ofCode (op2 w).toNat with _ | op
          · exact ⟨rfl, rfl⟩
          · cases op <;> exact ⟨rfl, rfl⟩
        · rw [decoded_call call]
          exact ⟨rfl, rfl⟩
        · rw [decoded_arithmetic arithmetic]
          rcases arithmeticOp w with _ | op
          · exact ⟨rfl, rfl⟩
          · cases op <;> exact ⟨rfl, rfl⟩
        · rw [decoded_memory memory, known]
          exact ⟨rfl, rfl⟩
      rw [isAccess_iff, silent.1, silent.2] at access
      simp at access

section

variable (ordinary : Ordinary w = true) (known : memoryOp w = some operation) {offset : Nat}
  (less : offset < 4) (inside : inWord operation offset = true)

include ordinary known less inside

theorem loadedPart_eq (word : Word) : loadedPart operation word offset =
    if (Instruction.ofWord w).readMemory then some ((Instruction.ofWord w).loaded word offset)
    else none := by
  have size := of_fields w Instruction.memorySize fun _ => rfl
  have byte : offset + SubWord.byte.bytes ≤ 4 := less
  rw [of_fields w Instruction.readMemory fun _ => rfl, decoded_of_memoryOp known]
  rw [decoded_of_memoryOp known] at size
  rw [Ordinary, plain_of_memoryOp known, known] at ordinary
  have part : ∀ {size' : SubWord} (signed : Bool), offset + size'.bytes ≤ 4 →
      (Instruction.ofWord w).memorySize = size'.memorySize signed →
      SubWord.widen signed (word.extractLsb' (size'.place offset) (8 * size'.bytes)) =
        (Instruction.ofWord w).loaded word offset :=
    fun signed fits same => (Instruction.readData_eq_widen fits same word).symm
  cases operation with
  | ld =>
      have part : (Instruction.ofWord w).loaded word offset = word := by
        rw [Instruction.loaded, Instruction.readData, size]
        rfl
      rw [part]
      rfl
  | ldsb => exact congrArg some (part true byte size)
  | ldub => exact congrArg some (part false byte size)
  | ldsh => exact congrArg some (part true (of_decide_eq_true inside) size)
  | lduh => exact congrArg some (part false (of_decide_eq_true inside) size)
  | st | stb | sth => rfl
  | ldd | std | dead | mem2sp => cases ordinary

/-- The word that a store leaves; a load leaves none. -/
theorem mergedWord_eq (value old : Word) : mergedWord operation value old offset =
    if (Instruction.ofWord w).readMemory then none
    else some ((Instruction.ofWord w).stored value old offset) := by
  have size := of_fields w Instruction.memorySize fun _ => rfl
  have byte : offset + SubWord.byte.bytes ≤ 4 := less
  rw [of_fields w Instruction.readMemory fun _ => rfl, decoded_of_memoryOp known]
  rw [decoded_of_memoryOp known] at size
  rw [Ordinary, plain_of_memoryOp known, known] at ordinary
  have part : ∀ {size' : SubWord}, offset + size'.bytes ≤ 4 →
      (Instruction.ofWord w).memorySize = size'.memorySize false →
      (Instruction.ofWord w).stored value old offset =
        BitField.splice (size'.place offset) (8 * size'.bytes) value old := by
    intro size' fits same
    have other : (Instruction.ofWord w).memorySize ≠ .word := by
      rw [same]
      cases size' <;> intro same <;> cases same
    rw [Instruction.stored, if_pos other]
    exact Instruction.getWriteData_eq_splice (i := { Instruction.ofWord w with op3Value := value })
      fits same old
  cases operation with
  | st =>
      have kept : ∀ rest : Word, (value <<< 0 &&& 0xFFFFFFFF) ||| (rest &&& ~~~0xFFFFFFFF) = value := by
        intro rest
        have all : (0xFFFFFFFF : Word) = BitVec.allOnes 32 := rfl
        rw [all, BitVec.shiftLeft_zero, BitVec.and_allOnes, BitVec.not_allOnes, BitVec.and_zero,
          BitVec.or_zero]
      have whole : (Instruction.ofWord w).stored value old offset = value := by
        rw [Instruction.stored, Instruction.getWriteData, size]
        exact kept _
      rw [whole]
      rfl
  | stb => exact congrArg some (part byte size).symm
  | sth =>
      have half : offset + SubWord.halfword.bytes ≤ 4 := of_decide_eq_true inside
      exact congrArg some (part half size).symm
  | ld | ldsb | ldub | ldsh | lduh => rfl
  | ldd | std | dead | mem2sp => cases ordinary

end

end Sparc

variable {id : ThreadId}

namespace Pass

variable {p : Pass id MemoryController} {m : Contents}

theorem Valid.memory_stage (valid : p.Valid) {cycles : BitVec 32}
    (port : p.round.dataMem = MemoryController.memStageIf cycles) (holds : p.round.memory.Holds m) :
    p.arrived = p.round.after .mem (accessTo m cycles p.executed).1 ∧
      p.memory.Holds (accessTo m cycles p.executed).2 := by
  obtain ⟨ht, runs, arrived⟩ := valid.mem
  obtain ⟨after, accesses, kept⟩ := access_holds holds cycles p.executed
  rw [port, accesses] at runs
  obtain ⟨rfl, rfl⟩ := Prod.mk.injEq .. ▸ Except.ok.inj runs
  exact ⟨arrived, kept⟩

theorem address_before (p : Pass id MemoryController) (m : Contents) :
    (p.before m).address p.word = p.address := by
  rw [State.address, operand1_before, operand2_before]
  rfl

/-- A load or a store that is no double word, at its address. -/
structure Moves (p : Pass id MemoryController) (m : Contents) (cycles : BitVec 32) : Prop where
  valid : p.Valid
  coherent : p.start.Coherent
  present : p.runs = true
  access : IsAccess p.word
  single : p.start.dbWordStalled = false
  port : p.round.dataMem = MemoryController.memStageIf cycles
  holds : p.round.memory.Holds m

/-- What the memory stage makes of it. -/
structure Served (p : Pass id MemoryController) (m : Contents) (cycles : BitVec 32) : Prop where
  stalled : p.arrived.memoryStalled =
    !m.granted cycles id (Mem.alignedAddr ((p.before m).address p.word))
  waits : p.arrived.memoryStalled = true → p.memory.Holds m
  loads : p.arrived.memoryStalled = false → p.asked.readMemory = true → p.memory.Holds m ∧
    p.arrived.inst.aluResult = p.asked.loaded ((p.before m).found id p.word)
      (Mem.addrOffset ((p.before m).address p.word))
  stores : p.arrived.memoryStalled = false → p.asked.readMemory = false → p.memory.Holds
    (m.put id (Mem.alignedAddr ((p.before m).address p.word))
      (p.asked.stored ((p.before m).reg (Sparc.rd p.word)) ((p.before m).found id p.word)
        (Mem.addrOffset ((p.before m).address p.word))))

theorem Moves.served {cycles : BitVec 32} (moves : p.Moves m cycles) : p.Served m cycles := by
  have addressed := moves.valid.addressed moves.coherent moves.present moves.access
  have view : ∀ {α : Type} (f : Instruction → α), (∀ i : Instruction, f i.operation = f i) →
      f p.executed.inst = f p.asked :=
    fun f blind => Instruction.of_operation f blind addressed.operation
  have reads := view Instruction.readMemory fun _ => rfl
  have writes := view Instruction.writeMemory fun _ => rfl
  have size := view Instruction.memorySize fun _ => rfl
  have sum : p.executed.inst.aluResult = (p.before m).address p.word := by
    have whole : p.address + 0 = p.address := BitVec.add_zero _
    rw [addressed.sum, Pass.sum, moves.single, if_neg Bool.false_ne_true, whole, p.address_before m]
  have register : p.executed.inst.op3Value = (p.before m).reg (Sparc.rd p.word) := by
    obtain ⟨operation, known⟩ := Sparc.memoryOp_of_access moves.access
    have other : Sparc.format p.word ≠ some .call := by
      rw [Sparc.format_of_memoryOp known]
      intro same
      cases same
    have rd := (Sparc.names_ofWord p.word).rd
    rw [Sparc.link_of_ne other] at rd
    rw [addressed.value, Pass.register, moves.single, if_neg Bool.false_ne_true, Nat.add_zero, rd,
      Sparc.reg_stateOf]
  have address : accessAddr p.executed = Mem.alignedAddr ((p.before m).address p.word) := by
    rw [accessAddr, sum]
  obtain ⟨arrived, holds⟩ := moves.valid.memory_stage moves.port moves.holds
  have stalls : p.arrived.memoryStalled = (accessTo m cycles p.executed).1.memoryStalled := by
    rw [arrived, Round.memoryStalled_after]
  have result : p.arrived.inst = (accessTo m cycles p.executed).1.inst := by
    rw [arrived, Round.inst_after]
  simp only [accessTo, addressed.present, reads, writes, Bool.false_eq_true, if_false]
    at holds stalls result
  cases load : p.asked.readMemory with
  | true =>
      simp only [load, if_true, loadFrom] at holds stalls result
      rw [address] at stalls result
      cases granted : m.granted cycles id (Mem.alignedAddr ((p.before m).address p.word)) with
      | true =>
          rw [granted, if_pos rfl] at stalls result
          refine ⟨by rw [stalls, granted]; rfl, fun _ => holds, fun _ _ => ⟨holds, ?_⟩,
            fun _ store => absurd (load.symm.trans store) Bool.noConfusion⟩
          rw [result, State.found, ← sum]
          exact Instruction.loaded_of_size size _ _
      | false =>
          rw [granted, if_neg Bool.false_ne_true] at stalls
          have stalled : p.arrived.memoryStalled = true := stalls
          exact ⟨by rw [stalled, granted]; rfl, fun _ => holds,
            fun free => absurd (stalled.symm.trans free) Bool.noConfusion,
            fun free => absurd (stalled.symm.trans free) Bool.noConfusion⟩
  | false =>
      have store : p.asked.writeMemory = true := by
        rw [moves.access.accesses.stores, load, Bool.not_false]
      simp only [load, store, Bool.false_eq_true, if_false, if_true] at holds stalls
      rw [address] at stalls holds
      cases granted : m.granted cycles id (Mem.alignedAddr ((p.before m).address p.word)) with
      | true =>
          rw [granted, if_pos rfl, storedWord_eq size, register, sum, address] at holds
          rw [granted] at stalls
          exact ⟨by rw [stalls, granted],
            fun stalled => absurd (stalls.symm.trans stalled) Bool.noConfusion,
            fun _ reads => absurd (load.symm.trans reads) Bool.noConfusion, fun _ _ => holds⟩
      | false =>
          rw [granted, if_neg Bool.false_ne_true] at holds
          rw [granted] at stalls
          exact ⟨by rw [stalls, granted], fun _ => holds,
            fun free => absurd (stalls.symm.trans free) Bool.noConfusion,
            fun free => absurd (stalls.symm.trans free) Bool.noConfusion⟩

/-- A load or a store that the machine has, as it commits. -/
structure Access (p : Pass id MemoryController) (m : Contents) (cycles : BitVec 32) : Prop
    extends p.Moves m cycles, p.Retires where
  asks : p.decoded.inst.writeRegisters = p.asked.writeRegisters
  inside : ∀ operation, Sparc.memoryOp p.word = some operation →
    Sparc.inWord operation (Mem.addrOffset ((p.before m).address p.word)) = true

/-- It makes a step of the machine, whatever happened in between. -/
theorem Access.exec {cycles : BitVec 32} (step : p.Access m cycles) :
    p.memory.Holds ((p.before m).nextMemory id p.word) ∧
      Sparc.stateOf p.finished ((p.before m).nextMemory id p.word) =
        (p.before m).exec id p.word := by
  obtain ⟨operation, known⟩ := Sparc.memoryOp_of_access step.access
  have served := step.toMoves.served
  have offset := Mem.addrOffset_lt ((p.before m).address p.word)
  have inside := step.inside operation known
  have granted : p.arrived.memoryStalled = false := by
    have commits := step.commits
    simp only [Pass.commits, ExceptStage.reachesCommit, Bool.and_eq_true, Bool.not_eq_true']
      at commits
    exact commits.1.2
  have plain := Sparc.plain_of_memoryOp known
  have merged : (p.before m).nextMemory id p.word = if p.asked.readMemory then m else
      m.put id (Mem.alignedAddr ((p.before m).address p.word))
        (p.asked.stored ((p.before m).reg (Sparc.rd p.word)) ((p.before m).found id p.word)
          (Mem.addrOffset ((p.before m).address p.word))) := by
    rw [State.nextMemory, known, Option.bind_some,
      Sparc.mergedWord_eq step.ordinary known offset inside]
    cases p.asked.readMemory <;> rfl
  have holds : p.memory.Holds ((p.before m).nextMemory id p.word) := by
    rw [merged]
    cases load : p.asked.readMemory with
    | true => exact (served.loads granted load).1
    | false => exact served.stores granted load
  have special : p.finished.specRegs.visible = (p.before m).nextSpecial p.word := by
    obtain ⟨settings, y, window⟩ := step.valid.specRegs_finished step.coherent step.present
      step.access (Or.inl step.commits)
    rw [State.nextSpecial, plain, SpecialReg.visible, settings, y, window, Sparc.wrap_wrap]
    rfl
  have counters : ExceptStage.counters p.finished =
      ((p.before m).exec id p.word).counters := by
    obtain ⟨single, whole⟩ := step.toRetires.whole
    have through : p.finished.dbWordStalled = false := by
      rw [step.valid.flag_last step.coherent step.present, ExceptStage.arrive_dbWordStalled, single,
        whole]
      rfl
    obtain ⟨pc, slot⟩ := (step.valid.counters_access step.coherent step.present step.access
      step.commits).2 through
    rw [State.exec, Sparc.transfer_of_memoryOp known, ExceptStage.counters, pc, slot]
    exact DelayedTransfer.ofSlot_zero 4 _
  have regs : p.finished.regs = (p.before m).nextRegs id p.word := by
    have delivered : (p.before m).delivered id p.word = if p.asked.readMemory then
        some (p.asked.loaded ((p.before m).found id p.word)
          (Mem.addrOffset ((p.before m).address p.word))) else none := by
      rw [State.delivered, Sparc.format_of_memoryOp known]
      simp only [known, Option.bind_some]
      exact Sparc.loadedPart_eq step.ordinary known offset inside _
    have rd := (Sparc.names_ofWord p.word).rd
    have register : p.register = link p.word := by
      rw [Pass.register, step.toMoves.single, if_neg Bool.false_ne_true, Nat.add_zero, rd]
    rw [step.valid.regs_finished step.coherent step.present step.access step.commits, step.asks,
      step.access.writes, State.nextRegs, delivered, rd, register]
    cases load : p.asked.readMemory with
    | true =>
        rw [(served.loads granted load).2]
        by_cases zero : link p.word = 0
        · simp only [zero, bne_self_eq_false, Bool.and_false, Bool.false_eq_true, if_false, if_true]
          rfl
        · have still : (p.before m).nextSpecial p.word = p.start.specRegs.visible := by
            rw [State.nextSpecial, plain]
            rfl
          simp only [zero, bne_iff_ne, ne_eq, not_false_eq_true, Bool.true_and, if_true, if_false,
            still]
          exact (RegisterFile.setReg_mod _ _ _ _).symm
    | false => rfl
  exact ⟨holds, by rw [Sparc.stateOf, counters, special, regs]; rfl⟩

end Pass

end PretIss
