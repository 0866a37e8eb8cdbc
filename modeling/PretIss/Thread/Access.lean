import PretIss.Memory.Access
import PretIss.Memory.Scratchpad
import PretIss.Thread.Straight
import PretIss.Transfer.Passes

/-! A load or a store in a pass: the address and the register that it works on, the access
that it makes, and what it leaves when it commits. It is the same whether the word is
fetched in the pass or kept from a pass that stalled. -/

namespace PretIss

open ExceptStage (reachesCommit squashes)

variable {id : ThreadId}

def IsAccess (w : Word) : Prop :=
  (Instruction.ofWord w).readMemory = true ∨ (Instruction.ofWord w).writeMemory = true

instance (w : Word) : Decidable (IsAccess w) := inferInstanceAs (Decidable (_ ∨ _))

/-- A latch whose instruction adds its operands for an address and writes no special
register. -/
structure Instruction.Accesses (i : Instruction) : Prop where
  straight : i.Straight
  aluop : i.aluop = .add
  carry : i.carry = false
  writeIcc : i.writeIcc = false
  stores : i.writeMemory = !i.readMemory

theorem Instruction.accesses_fields {w : Word}
    (access : (Sparc.fields w).decodeOperation.readMemory = true ∨
      (Sparc.fields w).decodeOperation.writeMemory = true) :
    (Sparc.fields w).decodeOperation.Accesses ∧
      (Sparc.fields w).decodeOperation.writeRegisters =
        (Sparc.fields w).decodeOperation.readMemory := by
  have blank : (Sparc.fields w).readMemory = false ∧ (Sparc.fields w).writeMemory = false :=
    ⟨rfl, rfl⟩
  obtain decoded | decoded | ⟨op, decoded⟩ | ⟨op, decoded⟩ | ⟨op, decoded⟩ :=
    (Sparc.fields w).decodeOperation_cases <;> rw [decoded] at access ⊢
  · simp [blank] at access
  · simp [blank] at access
  · rcases op with _ | op
    · simp [decodeSethiBranches, blank] at access
    · cases op <;> simp [decodeSethiBranches, blank] at access
  · rcases op with _ | op
    · simp [decodeMemory, blank] at access
    · cases op <;>
        first
          | exact ⟨⟨⟨rfl, rfl, rfl, rfl, rfl, rfl, rfl⟩, rfl, rfl, rfl, rfl⟩, rfl⟩
          | simp [decodeMemory, blank] at access
  · rcases op with _ | op
    · simp [decodeArithmetic, blank] at access
    · cases op <;> simp [decodeArithmetic, blank] at access

theorem IsAccess.accesses {w : Word} (access : IsAccess w) : (Instruction.ofWord w).Accesses := by
  obtain same | same := Instruction.decode_eq (Instruction.nop.setInst w)
  · rw [IsAccess, Instruction.ofWord, same] at access
    rw [Instruction.ofWord, same]
    exact (Instruction.accesses_fields access).1
  · rw [IsAccess, Instruction.ofWord, same] at access
    obtain ⟨⟨straight, aluop, carry, writeIcc, stores⟩, _⟩ := Instruction.accesses_fields access
    rw [Instruction.ofWord, same]
    exact ⟨straight.of_operation rfl, aluop, carry, writeIcc, stores⟩

theorem IsAccess.writes {w : Word} (access : IsAccess w) :
    (Instruction.ofWord w).writeRegisters =
      ((Instruction.ofWord w).readMemory && (Instruction.ofWord w).rd != 0) := by
  have reads := Sparc.of_fields w Instruction.readMemory fun _ => rfl
  have writes := Sparc.of_fields w Instruction.writeMemory fun _ => rfl
  rw [IsAccess, reads, writes] at access
  rw [Instruction.ofWord, Instruction.writeRegisters_decode, ← Instruction.ofWord, reads]
  exact congrArg (· && _) (Instruction.accesses_fields access).2

def Instruction.address (i : Instruction) (reg : Nat → Word) : Word :=
  reg i.rs1 + if i.useImm then i.imm else reg i.rs2

/-- The part of a word that a load takes. -/
def Instruction.loaded (i : Instruction) (word : Word) (offset : Nat) : Word :=
  (i.readData word offset).aluResult

def Instruction.stored (i : Instruction) (value old : Word) (offset : Nat) : Word :=
  { i with op3Value := value }.getWriteData (if i.memorySize ≠ MemorySize.word then old else 0xdeadbeef) offset

/-- What an instruction that accesses memory makes of the registers and the memory. A second
half works on the next register and the next word. -/
def Instruction.effect (i : Instruction) (id : ThreadId) (window : BitVec 16) (second : Bool)
    (s : RegisterFile × Contents) : RegisterFile × Contents :=
  let reg := fun r => s.1.getReg r window
  let rd := i.rd + if second then 1 else 0
  let addr := i.address reg + if second then 4 else 0
  let word := s.2.value id (Mem.alignedAddr addr)
  if i.readMemory then
    (if i.rd = 0 then s.1 else s.1.setReg rd (i.loaded word (Mem.addrOffset addr)) window, s.2)
  else (s.1, s.2.put id (Mem.alignedAddr addr) (i.stored (reg rd) word (Mem.addrOffset addr)))

theorem Instruction.effect_mod (i : Instruction) (id : ThreadId) (window : BitVec 16)
    (second : Bool) (s : RegisterFile × Contents) :
    i.effect id (window % registerWindows) second s = i.effect id window second s := by
  simp only [effect, RegisterFile.getReg_mod, RegisterFile.setReg_mod]

theorem Instruction.loaded_of_size {i j : Instruction} (same : i.memorySize = j.memorySize)
    (word : Word) (offset : Nat) : (i.readData word offset).aluResult = j.loaded word offset := by
  rw [loaded, readData, readData, same]
  cases j.memorySize <;> rfl

theorem storedWord_eq {m : Contents} {ht : HwThread id} {i : Instruction}
    (same : ht.inst.memorySize = i.memorySize) :
    storedWord m ht = i.stored ht.inst.op3Value (m.value id (accessAddr ht))
      (Mem.addrOffset ht.inst.aluResult) := by
  rw [storedWord, Instruction.stored, Instruction.getWriteData, Instruction.getWriteData, same]

theorem Execute.behavior_adds {ht : HwThread id} (valid : ht.isNotValid = false)
    (adds : ht.inst.aluop = .add) (plain : ht.inst.carry = false)
    (silent : ht.inst.writeIcc = false) :
    behavior ht = { ht with
      inst := { ht.inst with aluResult := ht.inst.op1Value + ht.inst.op2Value } } := by
  simp [behavior, performAluOperations, aluValue, valid, adds, plain, silent]

namespace Pass

section

variable {σ : Type} {p : Pass id σ}

/-- The operation that the word of a pass asks for. -/
abbrev asked (p : Pass id σ) : Instruction := Instruction.ofWord p.word

def register (p : Pass id σ) : Nat := p.asked.rd + if p.start.dbWordStalled then 1 else 0

def address (p : Pass id σ) : Word := p.asked.address p.start.readReg

def sum (p : Pass id σ) : Word := p.address + if p.start.dbWordStalled then 4 else 0

def operand (p : Pass id σ) : Word :=
  p.start.readReg p.asked.rs1 + if p.start.dbWordStalled then 4 else 0

structure Addressed (p : Pass id σ) : Prop where
  present : p.executed.isNotValid = false
  operation : p.executed.inst.operation = p.asked.operation
  sum : p.executed.inst.aluResult = p.sum
  value : p.executed.inst.op3Value = p.start.readReg p.register
  register : p.arrived.inst.rd = p.register

theorem Valid.undelayed (valid : p.Valid) (coherent : p.start.Coherent) (present : p.runs = true)
    (other : p.asked.selectSpecialRegister ≠ some .dt) :
    p.start.deadlineStalled = false ∧ p.arrived.deadlineStalled = false := by
  have decoded := valid.decoded_latch coherent (by simpa [runs] using present)
  have operation := valid.arrived_operation coherent present
  constructor <;> apply Bool.eq_false_iff.mpr <;> intro stalled <;> apply other
  · have deadline := decoded.deadline stalled
    rwa [Instruction.of_meaning Instruction.selectSpecialRegister (fun _ => rfl) decoded.meaning]
      at deadline
  · have deadline := (valid.arrived_stalls coherent present).2 stalled
    rwa [Instruction.of_operation Instruction.selectSpecialRegister (fun _ => rfl) operation]
      at deadline

theorem Valid.reaches_of_other (valid : p.Valid) (coherent : p.start.Coherent)
    (present : p.runs = true) (other : p.asked.selectSpecialRegister ≠ some .dt)
    (quiet : ¬ IsAccess p.word) : reachesCommit p.arrived = true := by
  have arrives := valid.arrives coherent.enabled
  have granted : p.arrived.memoryStalled = false := by
    apply Bool.eq_false_iff.mpr
    intro stalled
    have operation := valid.arrived_operation coherent present
    have accesses := (valid.arrived_stalls coherent present).1 stalled
    rw [Instruction.of_operation Instruction.readMemory (fun _ => rfl) operation,
      Instruction.of_operation Instruction.writeMemory (fun _ => rfl) operation] at accesses
    exact quiet accesses
  have fetched : p.arrived.fetchStalled = false := by
    rw [arrives.fetchStalled]
    simpa [runs] using present
  simp [reachesCommit, arrives.enabled, fetched, (valid.undelayed coherent present other).2, granted]

theorem Valid.second_half (valid : p.Valid) (coherent : p.start.Coherent) (present : p.runs = true)
    (other : p.asked.selectSpecialRegister ≠ some .dt) :
    Regacc.secondHalf p.decoded = p.start.dbWordStalled := by
  have same := (valid.ready coherent.enabled).unchanged Regacc.secondHalf (fun _ => rfl) fun _ => rfl
  rw [same, Regacc.secondHalf, (valid.undelayed coherent present other).1]
  simp

theorem Valid.accessed_operand (valid : p.Valid) (coherent : p.start.Coherent)
    (present : p.runs = true) (other : p.asked.selectSpecialRegister ≠ some .dt) :
    p.accessed.isNotValid = false ∧ p.accessed.inst.op1Value = p.operand ∧
      p.accessed.inst.operation = p.asked.operation := by
  have decoded := (valid.decoded_latch coherent (by simpa [runs] using present)).meaning
  have view : ∀ {α : Type} (f : Instruction → α), (∀ i : Instruction, f i.meaning = f i) →
      f p.decoded.inst = f p.asked := fun f blind => Instruction.of_meaning f blind decoded
  obtain ⟨latch, accessed⟩ := valid.accessed_inst coherent.enabled present (by
    rwa [view Instruction.selectSpecialRegister fun _ => rfl])
  have reads : p.decoded.readReg p.asked.rs1 = p.start.readReg p.asked.rs1 :=
    (valid.ready coherent.enabled).unchanged (fun ht => ht.readReg p.asked.rs1) (fun _ => rfl)
      fun _ => rfl
  refine ⟨accessed, ?_, ?_⟩
  · rw [latch]
    calc (Regacc.operands p.decoded).inst.op1Value
        = p.decoded.readReg p.decoded.inst.rs1 +
            (if Regacc.secondHalf p.decoded then 4 else 0) := rfl
      _ = p.operand := by
          rw [valid.second_half coherent present other, view Instruction.rs1 fun _ => rfl, reads]
          rfl
  · rw [latch]
    calc (Regacc.operands p.decoded).inst.operation = p.decoded.inst.operation := rfl
      _ = p.asked.operation := view Instruction.operation fun _ => rfl

theorem Valid.asks_of_free (valid : p.Valid) (coherent : p.start.Coherent)
    (present : p.runs = true) (free : Fetch.isHeld p.start = false) :
    p.decoded.inst.writeRegisters = p.asked.writeRegisters :=
  congrArg Instruction.writeRegisters (valid.decoded_fresh coherent.enabled present free)

theorem Valid.asks_of_held (valid : p.Valid) (coherent : p.start.Coherent)
    (held : Fetch.isHeld p.start = true)
    (asks : p.start.inst.writeRegisters =
      (Instruction.ofWord p.start.inst.inst).writeRegisters) :
    p.decoded.inst.writeRegisters = p.asked.writeRegisters := by
  obtain ⟨present, word⟩ := valid.held_word coherent held
  obtain ⟨ht, _, inst, _, ⟨_, rfl, _⟩ | ⟨free, _⟩⟩ := valid.fetch_cases coherent.enabled
  · have latch : p.decoded.inst = p.start.inst.decode := by
      rw [valid.decoded_inst coherent.enabled (by simpa [runs] using present), inst]
      rfl
    rw [asked, Pass.word, word, latch]
    exact Instruction.writeRegisters_of_keeps (coherent.latch held) asks
  · rw [held] at free
    cases free

theorem Valid.addressed (valid : p.Valid) (coherent : p.start.Coherent) (present : p.runs = true)
    (access : IsAccess p.word) : p.Addressed := by
  have ready := valid.ready coherent.enabled
  have accesses := access.accesses
  have decoded := (valid.decoded_latch coherent (by simpa [runs] using present)).meaning
  have view : ∀ {α : Type} (f : Instruction → α), (∀ i : Instruction, f i.meaning = f i) →
      f p.decoded.inst = f p.asked := fun f blind => Instruction.of_meaning f blind decoded
  obtain ⟨latch, accessed⟩ := valid.accessed_inst coherent.enabled present (by
    rw [view Instruction.selectSpecialRegister fun _ => rfl, accesses.straight.select]
    simp)
  have reads : ∀ r, p.decoded.readReg r = p.start.readReg r := fun r =>
    ready.unchanged (fun ht => ht.readReg r) (fun _ => rfl) fun _ => rfl
  have half := valid.second_half coherent present accesses.straight.waitless
  have register : Regacc.destination p.decoded = p.register := by
    rw [Regacc.destination, half, view Instruction.rd fun _ => rfl, Pass.register]
    split <;> rfl
  have executed : p.executed = p.round.after .execute { p.accessed with
      inst := { p.accessed.inst with
        aluResult := p.accessed.inst.op1Value + p.accessed.inst.op2Value } } := by
    rw [valid.execute, Execute.behavior_adds accessed] <;> rw [latch]
    · exact (view Instruction.aluop fun _ => rfl).trans accesses.aluop
    · exact (view Instruction.carry fun _ => rfl).trans accesses.carry
    · exact (view Instruction.writeIcc fun _ => rfl).trans accesses.writeIcc
  refine ⟨?_, ?_, ?_, ?_, ?_⟩
  · rw [executed, p.round.after_eq .execute HwThread.isNotValid fun _ => rfl]
    exact accessed
  · rw [executed, Round.inst_after, latch]
    calc (Regacc.operands p.decoded).inst.operation = p.decoded.inst.operation := rfl
      _ = p.asked.operation := view Instruction.operation fun _ => rfl
  · rw [executed, Round.inst_after, latch]
    change p.decoded.readReg p.decoded.inst.rs1 + (if Regacc.secondHalf p.decoded then 4 else 0) +
      (if p.decoded.inst.useImm then p.decoded.inst.imm
        else p.decoded.readReg p.decoded.inst.rs2) = _
    rw [half, view Instruction.rs1 fun _ => rfl, view Instruction.rs2 fun _ => rfl,
      view Instruction.imm fun _ => rfl, view Instruction.useImm fun _ => rfl, reads, reads,
      Pass.sum, Pass.address, Instruction.address, BitVec.add_assoc, BitVec.add_assoc]
    exact congrArg (p.start.readReg p.asked.rs1 + ·) (BitVec.add_comm _ _)
  · rw [executed, Round.inst_after, latch, ← register, ← reads]
    rfl
  · rw [← register]
    have kept := HwThread.of_control (fun ht => ht.inst.rd) (fun _ => rfl) valid.arrived_control.1
    rw [kept, latch]
    rfl

theorem Valid.window_arrived (valid : p.Valid) (coherent : p.start.Coherent)
    (present : p.runs = true) (access : IsAccess p.word) :
    p.arrived.specRegs.currWp = p.start.specRegs.currWp % registerWindows := by
  have still : p.start.specRegs.currWp + 0 = p.start.specRegs.currWp := BitVec.add_zero _
  rw [(valid.carries coherent present).currWp, access.accesses.straight.window, still]

theorem Valid.specRegs_arrived (valid : p.Valid) (coherent : p.start.Coherent)
    (present : p.runs = true) (access : IsAccess p.word) :
    p.arrived.specRegs.settings = p.start.specRegs.settings ∧
      p.arrived.specRegs.y = p.start.specRegs.y := by
  refine ⟨(valid.carries coherent present).settings, ?_⟩
  have operation := valid.arrived_operation coherent present
  have same : p.arrived.inst.operation = p.accessed.inst.operation := HwThread.of_control
    (fun ht => ht.inst.operation) HwThread.operation_control valid.arrived_control.1
  have adds : p.accessed.inst.aluop = .add := by
    calc p.accessed.inst.aluop = p.arrived.inst.aluop :=
          (Instruction.of_operation Instruction.aluop (fun _ => rfl) same).symm
      _ = p.asked.aluop := Instruction.of_operation Instruction.aluop (fun _ => rfl) operation
      _ = .add := access.accesses.aluop
  obtain ⟨accessed, arrived⟩ := valid.accessed_y coherent.enabled
  rw [arrived, Execute.y_behavior, adds, if_neg (by simp), accessed]

theorem Valid.retires (valid : p.Valid) (coherent : p.start.Coherent) (commits : p.commits = true)
    (access : IsAccess p.word) {α : Type} (view : HwThread id → α)
    (blind : ∀ ht : HwThread id, view ht.pllTick = view ht) :
    view p.finished = view (ExceptStage.retired (ExceptStage.arrive p.arrived)) := by
  rw [(valid.straight coherent commits access.accesses.straight).1]
  exact p.round.after_eq .except view blind _

theorem Valid.waits (valid : p.Valid) (coherent : p.start.Coherent) (present : p.runs = true)
    (access : IsAccess p.word) (stalled : p.arrived.memoryStalled = true) {α : Type}
    (view : HwThread id → α) (blind : ∀ ht : HwThread id, view ht.pllTick = view ht) :
    view p.finished = view (ExceptStage.arrive p.arrived) := by
  have arrives := valid.arrives coherent.enabled
  have fetch : p.arrived.fetchStalled = false := by
    rw [arrives.fetchStalled]
    simpa [runs] using present
  obtain ⟨ht, ends, finished⟩ := valid.except
  rw [ExceptStage.behavior_of_memoryStalled arrives.enabled fetch
    (valid.undelayed coherent present access.accesses.straight.waitless).2 stalled] at ends
  obtain ⟨rfl, _⟩ := Prod.mk.injEq .. ▸ Except.ok.inj ends
  rw [finished]
  exact p.round.after_eq .except view blind _

theorem Valid.specRegs_finished (valid : p.Valid) (coherent : p.start.Coherent)
    (present : p.runs = true) (access : IsAccess p.word)
    (ends : p.commits = true ∨ p.arrived.memoryStalled = true) :
    p.finished.specRegs.settings = p.start.specRegs.settings ∧
      p.finished.specRegs.y = p.start.specRegs.y ∧
      p.finished.specRegs.currWp = p.start.specRegs.currWp % registerWindows := by
  obtain ⟨settings, y⟩ := valid.specRegs_arrived coherent present access
  have window := valid.window_arrived coherent present access
  rw [← settings, ← y, ← window]
  obtain commits | stalled := ends
  · have silent : (ExceptStage.arrive p.arrived).inst.writeIcc = false := by
      rw [ExceptStage.arrive_inst, ← access.accesses.writeIcc]
      exact Instruction.of_operation Instruction.writeIcc (fun _ => rfl)
        (valid.arrived_operation coherent present)
    have view : ∀ {α : Type} (f : SpecialReg → α),
        (∀ ht : HwThread id, f ht.pllTick.specRegs = f ht.specRegs) →
        f p.finished.specRegs = f p.arrived.specRegs := by
      intro α f blind
      rw [valid.retires coherent commits access (fun ht => f ht.specRegs) blind,
        ExceptStage.retired_specRegs silent, ExceptStage.arrive_specRegs]
    exact ⟨view SpecialReg.settings fun _ => rfl, view SpecialReg.y fun _ => rfl,
      view SpecialReg.currWp fun _ => rfl⟩
  · have view : ∀ {α : Type} (f : SpecialReg → α),
        (∀ ht : HwThread id, f ht.pllTick.specRegs = f ht.specRegs) →
        f p.finished.specRegs = f p.arrived.specRegs := by
      intro α f blind
      rw [valid.waits coherent present access stalled (fun ht => f ht.specRegs) blind,
        ExceptStage.arrive_specRegs]
    exact ⟨view SpecialReg.settings fun _ => rfl, view SpecialReg.y fun _ => rfl,
      view SpecialReg.currWp fun _ => rfl⟩

theorem Valid.regs_finished (valid : p.Valid) (coherent : p.start.Coherent)
    (present : p.runs = true) (access : IsAccess p.word) (commits : p.commits = true) :
    p.finished.regs =
      if p.decoded.inst.writeRegisters then
        p.start.regs.setReg p.register p.arrived.inst.aluResult p.start.specRegs.currWp
      else p.start.regs := by
  have addressed := valid.addressed coherent present access
  have regs : (ExceptStage.arrive p.arrived).regs = p.start.regs :=
    (ExceptStage.arrive_unchanged HwThread.regs (fun _ _ _ => rfl) _).trans
      (valid.carries coherent present).regs
  rw [valid.retires coherent commits access HwThread.regs fun _ => rfl, ExceptStage.retired_regs,
    ExceptStage.arrive_inst, ExceptStage.arrive_specRegs, regs, (valid.carried coherent.enabled).2.2,
    addressed.register, valid.window_arrived coherent present access, RegisterFile.setReg_mod]

theorem Valid.free_finished (valid : p.Valid) (coherent : p.start.Coherent)
    (present : p.runs = true) (access : IsAccess p.word) (commits : p.commits = true) :
    p.finished.memoryStalled = false ∧ p.finished.deadlineStalled = false ∧
      p.finished.trapped = .normal := by
  obtain ⟨_, _, memory, deadline, _⟩ := valid.finished_latch coherent.enabled
  have reaches : reachesCommit p.arrived = true := by
    simp only [Pass.commits, Bool.and_eq_true] at commits
    exact commits.1
  have normal : p.finished.trapped = .normal := by
    obtain ⟨_, _, never⟩ | ⟨_, _, ends, _⟩ | ⟨rett, _⟩ := (valid.finishes coherent).trap
    · rw [reaches] at never
      cases never
    · exact ends commits
    · rw [(access.accesses.straight.of_operation
        (valid.arrived_operation coherent present)).isRett] at rett
      cases rett
  simp only [reachesCommit, Bool.and_eq_true, Bool.not_eq_true'] at reaches
  exact ⟨memory.trans reaches.2, deadline.trans reaches.1.2, normal⟩

theorem Valid.counters_access (valid : p.Valid) (coherent : p.start.Coherent)
    (present : p.runs = true) (access : IsAccess p.word) (commits : p.commits = true) :
    (p.finished.dbWordStalled = true →
        p.finished.pc = p.start.pc ∧ p.finished.branchSlot = p.start.branchSlot) ∧
      (p.finished.dbWordStalled = false →
        p.finished.pc = ExceptStage.npc p.start ∧ p.finished.branchSlot = 0) := by
  have carried := valid.carried coherent.enabled
  have view : ∀ {α : Type} (f : HwThread id → α), (∀ ht : HwThread id, f ht.pllTick = f ht) →
      f p.finished = f (ExceptStage.retired (ExceptStage.arrive p.arrived)) :=
    fun f blind => valid.retires coherent commits access f blind
  have pc := ExceptStage.arrive_unchanged HwThread.pc (fun _ _ _ => rfl) p.arrived
  have slot := ExceptStage.arrive_unchanged HwThread.branchSlot (fun _ _ _ => rfl) p.arrived
  rw [valid.flag_last coherent present, view HwThread.pc fun _ => rfl,
    view HwThread.branchSlot fun _ => rfl]
  constructor
  · intro half
    rw [(ExceptStage.retired_half half).1, (ExceptStage.retired_half half).2, pc, slot]
    exact ⟨carried.1, carried.2.1⟩
  · intro whole
    have single : (ExceptStage.arrive p.arrived).inst.dbWordInstruction = false := by
      rw [ExceptStage.arrive_dbWordStalled, Bool.or_eq_false_iff] at whole
      rw [ExceptStage.arrive_inst]
      exact whole.2
    have next : ExceptStage.npc (ExceptStage.arrive p.arrived) = ExceptStage.npc p.start := by
      rw [ExceptStage.npc, ExceptStage.npc, pc, slot, carried.1, carried.2.1]
    rw [← next]
    exact ExceptStage.retired_whole whole single

theorem Valid.stalled_finished (valid : p.Valid) (coherent : p.start.Coherent)
    (present : p.runs = true) (access : IsAccess p.word) (stalled : p.arrived.memoryStalled = true) :
    p.finished.regs = p.start.regs ∧ p.finished.pc = p.start.pc ∧
      p.finished.branchSlot = p.start.branchSlot ∧ Fetch.isHeld p.finished = true ∧
      p.finished.inst.writeRegisters = p.decoded.inst.writeRegisters := by
  have carried := valid.carried coherent.enabled
  have view : ∀ {α : Type} (f : HwThread id → α), (∀ ht : HwThread id, f ht.pllTick = f ht) →
      (∀ (ht : HwThread id) cycles stalled,
        f { ht with cntCycles := cycles, dbWordStalled := stalled } = f ht) →
      f p.finished = f p.arrived := fun f blind counts =>
    (valid.waits coherent present access stalled f blind).trans
      (ExceptStage.arrive_unchanged f counts p.arrived)
  have memory := view HwThread.memoryStalled (fun _ => rfl) fun _ _ _ => rfl
  refine ⟨?_, ?_, ?_, ?_, ?_⟩
  · exact (view HwThread.regs (fun _ => rfl) fun _ _ _ => rfl).trans
      (valid.carries coherent present).regs
  · exact (view HwThread.pc (fun _ => rfl) fun _ _ _ => rfl).trans carried.1
  · exact (view HwThread.branchSlot (fun _ => rfl) fun _ _ _ => rfl).trans carried.2.1
  · simp [Fetch.isHeld, memory, stalled]
  · exact (view (fun ht => ht.inst.writeRegisters) (fun _ => rfl) fun _ _ _ => rfl).trans
      carried.2.2

end

structure Over (p : Pass id MemoryController) (m : Contents) : Prop where
  instructionMemory : ∃ cycles, p.round.instructionMemory = MemoryController.fetchStageIf cycles
  dataMem : ∃ cycles, p.round.dataMem = MemoryController.memStageIf cycles
  fetchMemory : p.round.fetchMemory.Holds m
  memory : p.round.memory.Holds m

variable {p : Pass id MemoryController} {m : Contents}

theorem Over.fetches (memories : p.Over m) (valid : p.Valid) (enabled : p.start.enabled = true)
    (present : p.runs = true) (free : Fetch.isHeld p.start = false) :
    p.word = m.value id p.start.pc := by
  obtain ⟨cycles, port⟩ := memories.instructionMemory
  obtain ⟨after, answer, _⟩ :=
    MemoryController.readInst_holds memories.fetchMemory cycles id p.start.pc
  have decoded := valid.decoded_inst enabled (by simpa [runs] using present)
  obtain ⟨ht, _, inst, _, ⟨held, _⟩ | ⟨_, bits, stall, reads, rfl⟩⟩ := valid.fetch_cases enabled
  · rw [free] at held
    cases held
  · rw [port] at reads
    have same : (after, m.value id p.start.pc, !m.granted cycles id p.start.pc) =
        (p.fetchMemory, bits, stall) := Except.ok.inj (answer.symm.trans reads)
    have latch : p.decoded.inst = Instruction.ofWord bits := by
      rw [decoded, inst]
      rfl
    rw [word, latch, Instruction.inst_ofWord]
    exact (congrArg (fun answer => answer.2.1) same).symm

/-- The memory after a load or a store, and the result of a load. -/
theorem Over.accessed (memories : p.Over m) (valid : p.Valid) (coherent : p.start.Coherent)
    (present : p.runs = true) (access : IsAccess p.word) :
    (p.arrived.memoryStalled = true → p.memory.Holds m) ∧
      (p.arrived.memoryStalled = false → p.asked.readMemory = true → p.memory.Holds m ∧
        p.arrived.inst.aluResult = p.asked.loaded (m.value id (Mem.alignedAddr p.sum))
          (Mem.addrOffset p.sum)) ∧
      (p.arrived.memoryStalled = false → p.asked.readMemory = false → p.memory.Holds
        (m.put id (Mem.alignedAddr p.sum) (p.asked.stored (p.start.readReg p.register)
          (m.value id (Mem.alignedAddr p.sum)) (Mem.addrOffset p.sum)))) := by
  have addressed := valid.addressed coherent present access
  have view : ∀ {α : Type} (f : Instruction → α), (∀ i : Instruction, f i.operation = f i) →
      f p.executed.inst = f p.asked :=
    fun f blind => Instruction.of_operation f blind addressed.operation
  have reads := view Instruction.readMemory fun _ => rfl
  have writes := view Instruction.writeMemory fun _ => rfl
  have size := view Instruction.memorySize fun _ => rfl
  have address : accessAddr p.executed = Mem.alignedAddr p.sum := by
    rw [accessAddr, addressed.sum]
  obtain ⟨cycles, port⟩ := memories.dataMem
  obtain ⟨ht, runs, arrived⟩ := valid.mem
  obtain ⟨after, accesses, holds⟩ := access_holds memories.memory cycles p.executed
  rw [port, accesses] at runs
  obtain ⟨rfl, rfl⟩ := Prod.mk.injEq .. ▸ Except.ok.inj runs
  have stalls : p.arrived.memoryStalled = (accessTo m cycles p.executed).1.memoryStalled := by
    rw [arrived, Round.memoryStalled_after]
  rw [stalls, arrived, Round.inst_after]
  simp only [accessTo, addressed.present, reads, writes, Bool.false_eq_true, if_false] at holds ⊢
  cases load : p.asked.readMemory with
  | true =>
      simp only [load, if_true, loadFrom] at holds ⊢
      cases granted : m.granted cycles id (accessAddr p.executed) with
      | true =>
          refine ⟨fun _ => holds, fun _ _ => ⟨holds, ?_⟩, fun _ store => ?_⟩
          · rw [if_pos rfl, ← address, ← addressed.sum]
            exact Instruction.loaded_of_size size _ _
          · cases store
      | false =>
          refine ⟨fun _ => holds, fun answered => ?_, fun _ store => ?_⟩
          · simp at answered
          · cases store
  | false =>
      have store : p.asked.writeMemory = true := by rw [access.accesses.stores, load, Bool.not_false]
      simp only [load, store, Bool.false_eq_true, if_false, if_true] at holds ⊢
      cases granted : m.granted cycles id (accessAddr p.executed) with
      | true =>
          rw [granted, if_pos rfl, storedWord_eq size, address, addressed.value, addressed.sum]
            at holds
          refine ⟨fun stalled => ?_, fun _ load => ?_, fun _ _ => holds⟩
          · cases stalled
          · cases load
      | false =>
          rw [granted, if_neg Bool.false_ne_true] at holds
          refine ⟨fun _ => holds, fun _ load => ?_, fun answered => ?_⟩
          · cases load
          · cases answered

theorem Over.effect (memories : p.Over m) (valid : p.Valid) (coherent : p.start.Coherent)
    (present : p.runs = true) (access : IsAccess p.word) (commits : p.commits = true)
    (asks : p.decoded.inst.writeRegisters = p.asked.writeRegisters) :
    p.finished.regs = (p.asked.effect id p.start.specRegs.currWp p.start.dbWordStalled
        (p.start.regs, m)).1 ∧
      p.memory.Holds (p.asked.effect id p.start.specRegs.currWp p.start.dbWordStalled
        (p.start.regs, m)).2 := by
  have granted : p.arrived.memoryStalled = false := by
    simp only [Pass.commits, reachesCommit, Bool.and_eq_true, Bool.not_eq_true'] at commits
    exact commits.1.2
  obtain ⟨_, loads, stores⟩ := memories.accessed valid coherent present access
  rw [valid.regs_finished coherent present access commits, asks, access.writes]
  cases load : p.asked.readMemory with
  | true =>
      obtain ⟨holds, result⟩ := loads granted load
      simp only [Instruction.effect, load, if_true]
      refine ⟨?_, holds⟩
      rw [result]
      by_cases zero : p.asked.rd = 0
      · simp [zero]
      · simp only [zero, Bool.true_and, bne_iff_ne, ne_eq, not_false_eq_true, if_true, if_false]
        rfl
  | false =>
      simp only [Instruction.effect, load, Bool.false_and, Bool.false_eq_true, if_false]
      exact ⟨trivial, stores granted load⟩

end Pass

end PretIss
