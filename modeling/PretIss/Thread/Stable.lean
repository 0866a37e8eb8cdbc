import PretIss.Model.Core
import PretIss.Thread.Commit

/-! What every stage keeps of a thread holds of every thread of a core, in whatever order
the stages are called: a core changes its threads by nothing else than its stages and the
ticks of the PLL clock. -/

namespace PretIss

namespace HwThread

variable {id : ThreadId}

/-- A property that the stages keep, the register access where it is allowed. Each field
is one of the changes that the stages are made of. -/
structure Stable (allowed holds : HwThread id → Prop) : Prop where
  count : ∀ ht cntCycles cntInstr, holds ht → holds { ht with cntCycles, cntInstr }
  stall : ∀ ht memoryStalled dbWordStalled, holds ht →
    holds { ht with memoryStalled, dbWordStalled }
  settle : ∀ ht state, holds ht → holds { ht with trapped := state }
  raise : ∀ ht trapType, trapType = 0x02 ∨ trapType = 0x03 → holds ht →
    holds { ht with trapType }
  move : ∀ ht pc branchSlot, holds ht → holds { ht with pc, branchSlot }
  window : ∀ ht increment, holds ht → holds (ht.moveWindow increment)
  receive : ∀ ht bits stall, Fetch.isHeld ht = false → holds ht →
    holds (Fetch.receive ht bits stall)
  decode : ∀ ht, holds ht → holds { ht with inst := ht.inst.decode }
  regacc : ∀ ht ht', allowed ht → holds ht → Regacc.behavior ht = .ok ht' → holds ht'
  compute : ∀ ht aluResult op1Value op2Value, holds ht →
    holds { ht with inst := { ht.inst with aluResult, op1Value, op2Value } }
  codes : ∀ ht, holds ht → holds { ht with inst := { ht.inst with icc := Execute.geticc ht.inst } }
  squash : ∀ ht, holds ht → holds (ExceptStage.unwritten ht)
  redirect : ∀ ht rd value, rd = 17 ∨ rd = 18 → holds ht → holds (ExceptStage.redirect ht rd value)
  writeReg : ∀ ht value, ht.inst.writeRegisters = true → holds ht →
    holds (ht.writeReg ht.inst.rd value)
  icc : ∀ ht, holds ht → holds { ht with specRegs := { ht.specRegs with icc := ht.inst.icc } }
  psr : ∀ ht value, holds ht → holds { ht with specRegs := ht.specRegs.setPsr value }
  mode : ∀ ht s et, holds ht → holds { ht with specRegs := { ht.specRegs with s, et } }
  plain : ∀ ht tbr wim asr y, holds ht →
    holds { ht with specRegs := { ht.specRegs with tbr, wim, asr, y } }
  timers : ∀ ht dt dtStatus plldt pllLoad, holds ht →
    holds { ht with specRegs := { ht.specRegs with dt, dtStatus, plldt, pllLoad } }

namespace Stable

variable {allowed holds : HwThread id → Prop} (stable : Stable allowed holds) {σ : Type}

include stable

theorem fetch {instructionMemory : FetchStageIf σ} {ht ht' : HwThread id} {memory memory' : σ}
    (kept : holds ht) (runs : Fetch.behavior instructionMemory ht memory = .ok (ht', memory')) :
    holds ht' := by
  cases enabled : ht.enabled with
  | false =>
      simp only [Fetch.behavior, enabled, Bool.false_eq_true, not_false_eq_true, if_true] at runs
      obtain ⟨rfl, _⟩ := Prod.mk.inj (Except.ok.inj runs)
      exact kept
  | true =>
      obtain ⟨_, rfl, _⟩ | ⟨free, bits, stall, _, rfl⟩ := Fetch.behavior_cases enabled runs
      · exact stable.timers ht _ _ _ _ kept
      · exact stable.receive _ bits stall free (stable.timers ht _ _ _ _ kept)

theorem decodes {ht : HwThread id} (kept : holds ht) : holds (Decode.behavior ht) := by
  unfold Decode.behavior
  cases valid : ht.isNotValid with
  | true => exact kept
  | false => exact stable.decode ht kept

theorem execute {ht : HwThread id} (kept : holds ht) : holds (Execute.behavior ht) := by
  unfold Execute.behavior Execute.performAluOperations
  have computed : holds (if ht.inst.aluop = .mul then
      if ht.inst.signedMultiply then Execute.multiplyStep ht else ht
      else { ht with inst := { ht.inst with aluResult := Execute.aluValue ht } }) := by
    split
    · split
      · have shifted := stable.plain ht ht.specRegs.tbr ht.specRegs.wim ht.specRegs.asr
          (Execute.shiftedY ht.inst.op1Value ht.specRegs.y) kept
        exact stable.compute _ _ _ _ shifted
      · exact kept
    · exact stable.compute ht _ _ _ kept
  have coded : ∀ ht : HwThread id, holds ht → holds (if ht.inst.writeIcc then
      { ht with inst := { ht.inst with icc := Execute.geticc ht.inst } } else ht) := by
    intro ht kept
    split
    · exact stable.codes ht kept
    · exact kept
  split
  · exact kept
  · exact coded _ computed

theorem load {ht : HwThread id} (rawData : Word) (offset : Nat) (kept : holds ht) :
    holds { ht with inst := ht.inst.readData rawData offset } := by
  unfold Instruction.readData
  split <;> exact stable.compute ht _ _ _ kept

theorem mem {dataMem : MemStageIf σ} {ht ht' : HwThread id} {memory memory' : σ} (kept : holds ht)
    (runs : Mem.behavior dataMem ht memory = .ok (ht', memory')) : holds ht' := by
  simp only [Mem.behavior] at runs
  split at runs
  · obtain ⟨rfl, _⟩ := Prod.mk.inj (Except.ok.inj runs)
    exact kept
  · split at runs
    · obtain ⟨⟨middle, rawData, stalled⟩, _, runs⟩ := Transition.bind_eq_ok.mp runs
      cases stalled with
      | true =>
          obtain ⟨rfl, _⟩ := Prod.mk.inj (Except.ok.inj runs)
          exact stable.stall ht true _ kept
      | false =>
          obtain ⟨rfl, _⟩ := Prod.mk.inj (Except.ok.inj runs)
          exact stable.load rawData _ (stable.stall ht false _ kept)
    · split at runs
      · obtain ⟨stalled, rfl⟩ := Mem.store_stall runs
        exact stable.stall ht stalled _ kept
      · obtain ⟨rfl, _⟩ := Prod.mk.inj (Except.ok.inj runs)
        exact kept

theorem arrive {ht : HwThread id} (kept : holds ht) : holds (ExceptStage.arrive ht) := by
  obtain same | same := ExceptStage.arrive_cases ht <;> rw [same]
  · exact stable.count ht _ _ kept
  · exact stable.stall _ _ true (stable.count ht _ _ kept)

theorem deadStalled {ht ht' : HwThread id} (kept : holds ht)
    (runs : ExceptStage.deadStalled ht = .ok ht') : holds ht' := by
  unfold ExceptStage.deadStalled at runs
  split at runs
  · obtain ⟨specRegs, stored, runs⟩ := Transition.bind_eq_ok.mp runs
    obtain ⟨pllLoad, _, stored⟩ := Transition.bind_eq_ok.mp stored
    obtain rfl := Except.ok.inj stored
    obtain rfl := Except.ok.inj runs
    exact stable.timers ht _ _ _ pllLoad kept
  · obtain rfl := Except.ok.inj runs
    exact kept

theorem handleExceptions {ht ht' : HwThread id} {handled : Bool} (kept : holds ht)
    (runs : ExceptStage.handleExceptions ht = .ok (ht', handled)) : holds ht' := by
  have squashed := stable.squash ht kept
  obtain ⟨_, _, rfl⟩ | ⟨_, _, ⟨_, rfl⟩ | ⟨_, rfl⟩ | ⟨_, rfl⟩⟩ :=
    ExceptStage.handleExceptions_cases runs
  · exact stable.settle ht _ kept
  · rw [ExceptStage.firstPass_eq]
    have moved := stable.window _ (-1) squashed
    exact stable.settle _ _ (stable.redirect _ 17 _ (Or.inl rfl) moved)
  · have saved := stable.redirect _ 18 (ExceptStage.npc (ExceptStage.unwritten ht)) (Or.inr rfl)
      squashed
    exact stable.timers _ _ _ _ _ (stable.move _ _ _ (stable.settle _ .normal saved))
  · exact squashed

theorem incPc {ht ht' : HwThread id} (kept : holds ht) (runs : ExceptStage.incPc ht = .ok ht') :
    holds ht' := by
  obtain ⟨taken, takes, runs⟩ := Transition.bind_eq_ok.mp runs
  obtain rfl := Except.ok.inj runs
  have written : holds (ExceptStage.writeIcc ht) := by
    unfold ExceptStage.writeIcc
    split
    · exact stable.icc ht kept
    · exact kept
  have next : holds (ExceptStage.nextPc (ExceptStage.writeIcc ht)) := by
    unfold ExceptStage.nextPc
    split
    · split
      · exact stable.move _ _ _ written
      · exact written
    · exact stable.move _ _ _ written
  have moved : holds taken := by
    simp only [ExceptStage.takeBranch] at takes
    split at takes
    · obtain ⟨offset, _, takes⟩ := Transition.bind_eq_ok.mp takes
      split at takes <;> obtain rfl := Except.ok.inj takes <;> exact stable.move _ _ _ next
    · split at takes
      · obtain rfl := Except.ok.inj takes
        exact stable.move _ _ _ next
      · split at takes <;> obtain rfl := Except.ok.inj takes
        · exact stable.move _ _ _ next
        · exact next
  unfold ExceptStage.linkAddress
  split
  · exact stable.compute taken _ _ _ moved
  · exact moved

theorem advance {ht ht' : HwThread id} {handled syncNotStalled : Bool} (kept : holds ht)
    (runs : ExceptStage.advance ht handled syncNotStalled = .ok ht') : holds ht' := by
  unfold ExceptStage.advance at runs
  split at runs
  · exact stable.incPc kept runs
  · obtain rfl := Except.ok.inj runs
    exact kept

theorem writeRegs {ht ht' : HwThread id} (kept : holds ht)
    (runs : ExceptStage.writeRegs ht = .ok ht') : holds ht' := by
  unfold ExceptStage.writeRegs at runs
  split at runs
  · rename_i writes
    obtain ⟨value, _, runs⟩ := Transition.bind_eq_ok.mp runs
    obtain rfl := Except.ok.inj runs
    exact stable.writeReg ht value writes kept
  · obtain rfl := Except.ok.inj runs
    exact kept

theorem writeSpecialRegs {ht ht' : HwThread id} {dma dma' : Dma} (kept : holds ht)
    (runs : ExceptStage.writeSpecialRegs ht dma = .ok (ht', dma')) : holds ht' := by
  simp only [ExceptStage.writeSpecialRegs] at runs
  split at runs
  · split at runs
    case h_2 =>
      obtain ⟨specRegs, stored, runs⟩ := Transition.bind_eq_ok.mp runs
      obtain ⟨asr, _, stored⟩ := Transition.bind_eq_ok.mp stored
      obtain rfl := Except.ok.inj stored
      obtain ⟨rfl, _⟩ := Prod.mk.inj (Except.ok.inj runs)
      exact stable.plain ht _ _ asr _ kept
    case h_3 =>
      obtain ⟨rfl, _⟩ := Prod.mk.inj (Except.ok.inj runs)
      exact stable.psr ht _ kept
    case h_6 =>
      obtain ⟨written, loads, runs⟩ := Transition.bind_eq_ok.mp runs
      obtain ⟨rfl, _⟩ := Prod.mk.inj (Except.ok.inj runs)
      simp only [ExceptStage.writeDeadline] at loads
      split at loads
      · obtain rfl := Except.ok.inj loads
        exact stable.timers ht _ _ _ _ kept
      · obtain ⟨specRegs, stored, loads⟩ := Transition.bind_eq_ok.mp loads
        obtain ⟨pllLoad, _, stored⟩ := Transition.bind_eq_ok.mp stored
        obtain rfl := Except.ok.inj stored
        obtain rfl := Except.ok.inj loads
        exact stable.timers ht _ _ _ pllLoad kept
    case h_1 | h_4 | h_5 =>
      obtain ⟨rfl, _⟩ := Prod.mk.inj (Except.ok.inj runs)
      exact stable.plain ht _ _ _ _ kept
    case h_7 | h_8 =>
      obtain ⟨rfl, _⟩ := Prod.mk.inj (Except.ok.inj runs)
      exact kept
  · obtain ⟨rfl, _⟩ := Prod.mk.inj (Except.ok.inj runs)
    exact kept

theorem retire {ht : HwThread id} (kept : holds ht) : holds (ExceptStage.retire ht) := by
  apply stable.count
  split
  · unfold ExceptStage.returnFromTrap
    split
    · exact stable.raise _ _ (Or.inr rfl) (stable.settle ht .trapped kept)
    · split
      · exact stable.raise _ _ (Or.inl rfl) (stable.settle ht .trapped kept)
      · exact stable.mode ht _ _ kept
  · exact kept

theorem commit {ht ht' : HwThread id} {syncNotStalled : Bool} {dma dma' : Dma} (kept : holds ht)
    (runs : ExceptStage.commit ht syncNotStalled dma = .ok (ht', dma')) : holds ht' := by
  obtain ⟨squashed, handled, moved, written, last, first, second, third, fourth, rfl⟩ :=
    ExceptStage.commit_eq_ok.mp runs
  have squashed := stable.handleExceptions kept first
  have moved := stable.advance squashed second
  have written := stable.writeRegs moved third
  exact stable.retire (stable.writeSpecialRegs written fourth)

theorem except {ht ht' : HwThread id} {syncTable syncTable' : SyncTable} {dma dma' : Dma}
    (kept : holds ht)
    (runs : ExceptStage.behavior ht syncTable dma = .ok (ht', syncTable', dma')) :
    holds ht' := by
  have arrived := stable.arrive kept
  simp only [ExceptStage.behavior] at runs
  split at runs
  · obtain ⟨rfl, _⟩ := Prod.mk.inj (Except.ok.inj runs)
    exact kept
  · split at runs
    · obtain ⟨rfl, _⟩ := Prod.mk.inj (Except.ok.inj runs)
      exact stable.count ht _ _ kept
    · split at runs
      · obtain ⟨mailed, mails, runs⟩ := Transition.bind_eq_ok.mp runs
        obtain ⟨rfl, _⟩ := Prod.mk.inj (Except.ok.inj runs)
        exact stable.deadStalled arrived mails
      · split at runs
        · obtain ⟨rfl, _⟩ := Prod.mk.inj (Except.ok.inj runs)
          exact arrived
        · obtain ⟨⟨table, syncNotStalled⟩, _, runs⟩ := Transition.bind_eq_ok.mp runs
          obtain ⟨⟨committed, engine⟩, commits, runs⟩ := Transition.bind_eq_ok.mp runs
          obtain ⟨rfl, _⟩ := Prod.mk.inj (Except.ok.inj runs)
          exact stable.commit arrived commits

theorem after (round : Round σ) (stage : Stage) {ht : HwThread id} (kept : holds ht) :
    holds (round.after stage ht) := by
  unfold Round.after
  induction round.ticks stage generalizing ht with
  | zero => exact kept
  | succ ticks ih =>
      rw [Function.iterate_succ_apply]
      exact ih (stable.timers ht _ _ _ _ kept)

end Stable

end HwThread

namespace Core

/-- The threads are as the controller creates them, enabled or not, with whatever a program
finds in its registers. -/
def IsFresh (c : Core) : Prop :=
  ∀ id, ∃ pc enabled regs, c.pool id = { HwThread.create id pc fun _ => 0 with enabled, regs }

theorem holds_setThread {holds : (id : ThreadId) → HwThread id → Prop} {c : Core} {t : ThreadId}
    {ht : HwThread t} (others : ∀ id, holds id (c.pool id)) (own : holds t ht) (id : ThreadId) :
    holds id ((c.setThread t ht).pool id) := by
  by_cases same : id = t
  · subst same
    simpa [setThread] using own
  · simpa [setThread, Function.update_of_ne same] using others id

section

variable {allowed holds : (id : ThreadId) → HwThread id → Prop}
  (stable : ∀ id, HwThread.Stable (allowed id) (holds id))

include stable

/-- A phase of the core keeps what the stages keep of each thread. -/
theorem step_holds {phase : Phase} {c c' : Core}
    (side : phase = .regaccStage → ∀ id, c.dToRa = some id → allowed id (c.pool id))
    (kept : ∀ id, holds id (c.pool id)) (moves : step phase c = .ok c') (id : ThreadId) :
    holds id (c'.pool id) := by
  cases phase with
  | exceptStage =>
      simp only [step, exceptStage] at moves
      split at moves
      · obtain rfl := Except.ok.inj moves
        exact kept id
      · rename_i t _
        obtain ⟨⟨ht, syncTable, dma⟩, runs, moves⟩ := Transition.bind_eq_ok.mp moves
        obtain rfl := Except.ok.inj moves
        exact holds_setThread kept ((stable t).except (kept t) runs) id
  | memoryStage =>
      simp only [step, memoryStage] at moves
      split at moves
      · obtain rfl := Except.ok.inj moves
        exact kept id
      · rename_i t _
        obtain ⟨⟨ht, memoryController⟩, runs, moves⟩ := Transition.bind_eq_ok.mp moves
        obtain rfl := Except.ok.inj moves
        exact holds_setThread kept ((stable t).mem (kept t) runs) id
  | executeStage =>
      obtain rfl := Except.ok.inj moves
      simp only [executeStage]
      split
      · exact kept id
      · rename_i t _
        exact holds_setThread kept ((stable t).execute (kept t)) id
  | regaccStage =>
      simp only [step, regaccStage] at moves
      split at moves
      · obtain rfl := Except.ok.inj moves
        exact kept id
      · rename_i t here
        obtain ⟨ht, runs, moves⟩ := Transition.bind_eq_ok.mp moves
        obtain rfl := Except.ok.inj moves
        exact holds_setThread kept ((stable t).regacc _ ht (side rfl t here) (kept t) runs) id
  | decodeStage =>
      obtain rfl := Except.ok.inj moves
      simp only [decodeStage]
      split
      · exact kept id
      · rename_i t _
        exact holds_setThread kept ((stable t).decodes (kept t)) id
  | fetchStage =>
      simp only [step, fetchStage] at moves
      split at moves
      · obtain rfl := Except.ok.inj moves
        exact kept id
      · rename_i t _
        obtain ⟨⟨ht, memoryController⟩, runs, moves⟩ := Transition.bind_eq_ok.mp moves
        obtain rfl := Except.ok.inj moves
        exact holds_setThread kept ((stable t).fetch (kept t) runs) id
  | pll =>
      obtain rfl := Except.ok.inj moves
      exact (stable id).timers _ _ _ _ _ (kept id)
  | dmaController =>
      obtain ⟨⟨dma, memoryController⟩, _, moves⟩ := Transition.bind_eq_ok.mp moves
      obtain rfl := Except.ok.inj moves
      exact kept id
  | memoryController | threadController | cycleCounter =>
      obtain rfl := Except.ok.inj moves
      exact kept id

end

theorem holds_of_run {holds : (id : ThreadId) → HwThread id → Prop}
    (stable : ∀ id, HwThread.Stable (fun _ => True) (holds id)) {labels : List Phase} {c c' : Core}
    (start : ∀ id, holds id (c.pool id)) (runs : Transition.run step labels c = .ok c')
    (id : ThreadId) : holds id (c'.pool id) :=
  Transition.invariant_run step (fun c => ∀ id, holds id (c.pool id)) (fun _ _ => True)
    (fun _ _ _ _ kept moves => step_holds stable (fun _ _ _ => trivial) kept moves) start
    (fun _ _ => trivial) runs id

def oneThread (t : ThreadId) : (id : ThreadId) → HwThread id := fun id =>
  if id = t then .reset id 4 fun i => if i = 1 then 16 else 0 else .create id 0 fun _ => 0

def inScratchpad (t : ThreadId) (program : List Word) : MemoryController :=
  { MemoryController.create with
    instScratchpad := Function.update (fun _ => .create) t
      { L1Scratch.create with
        mem := fun addr => if addr = 0 then none else program[addr.toNat / 4 - 1]? } }

/-- A core that is to run a program in one thread. -/
def running (t : ThreadId) (program : List Word) : Core :=
  create (oneThread t) (inScratchpad t program)

theorem running_isFresh (t : ThreadId) (program : List Word) : (running t program).IsFresh := by
  intro id
  by_cases own : id = t
  · refine ⟨4, true, (HwThread.reset id 4 fun i => if i = 1 then 16 else 0).regs, ?_⟩
    simp only [running, create, oneThread, if_pos own]
    rfl
  · refine ⟨0, false, (HwThread.create id 0 fun _ => 0).regs, ?_⟩
    simp only [running, create, oneThread, if_neg own]
    rfl

/-- The phases of so many calls of `behavior`. -/
def phasesOf (calls : Nat) : List Phase := (List.replicate calls phases).flatten

end Core

end PretIss
