import PretIss.Barrier.Table
import PretIss.Transfer.Passes
import PretIss.Thread.Program

/-! A thread passes its barriers as often as it commits instructions that wait at one.
The last stage consults the table before it knows whether the instruction commits, so
the two come apart when a trap squashes an instruction that waits. -/

namespace PretIss

open ExceptStage (reachesCommit squashes deadlineTrap counters)
open Sparc (transfer links)

variable {id : ThreadId} {σ : Type}

theorem Sparc.transfer_of_sync {w : Word} (sync : (Instruction.ofWord w).syncInstruction = true)
    (icc : BitVec 8) (pc aluResult : Word) :
    transfer w icc pc aluResult = .sequential ∧ links w = false := by
  have decodes := decodes_ofWord w
  rw [Instruction.ofWord_sync sync] at decodes
  have call : isCall w = false := decodes.call.symm
  have branch : isBranch w = false := decodes.branch.symm
  have jump : (isJmpl w || isRett w) = false := decodes.jump.symm
  have jmpl := (Bool.or_eq_false_iff.mp jump).1
  constructor
  · simp [transfer, call, branch, jump]
  · simp [links, call, jmpl]

namespace Pass

def consults (p : Pass id σ) : Bool := reachesCommit p.arrived && p.arrived.inst.syncInstruction

def barrier (p : Pass id σ) : BitVec 16 := p.arrived.inst.imm.setWidth 16

def passesBarrier (p : Pass id σ) : Bool :=
  p.consults &&
    match p.round.syncTable.checkSyncTable p.barrier id with
    | .ok (_, answer) => answer
    | .error _ => false

variable {p : Pass id σ}

theorem Valid.consulted (valid : p.Valid) (enabled : p.start.enabled = true)
    (consults : p.consults = true) :
    p.round.syncTable.checkSyncTable p.barrier id = .ok (p.syncTable, p.passesBarrier) := by
  have arrives := valid.arrives enabled
  have both := consults
  simp only [Pass.consults, Bool.and_eq_true] at both
  obtain ⟨reaches, sync⟩ := both
  obtain ⟨ht, _, _, ⟨fetch, _⟩ | ⟨_, never, _⟩ | ⟨_, answer, consulted, _⟩⟩ :=
    valid.finish_cases arrives.enabled
  · simp [reachesCommit, fetch] at reaches
  · simp [never] at reaches
  · simp only [ExceptStage.checkSync, ExceptStage.arrive_inst, sync, if_true] at consulted
    have answered : p.passesBarrier = answer := by
      rw [passesBarrier, consults, barrier, consulted]
      rfl
    rw [answered]
    exact consulted

theorem Valid.sync_single (valid : p.Valid) (coherent : p.start.Coherent)
    (consults : p.consults = true) :
    (Instruction.ofWord p.word).syncInstruction = true ∧
      (ExceptStage.arrive p.arrived).dbWordStalled = false := by
  simp only [Pass.consults, Bool.and_eq_true] at consults
  obtain ⟨reaches, sync⟩ := consults
  have present := runs_of_reachesCommit (valid.arrives coherent.enabled) reaches
  have decoded := valid.decoded_latch coherent (by simpa [runs] using present)
  obtain ⟨waited, accessed⟩ := valid.accesses coherent.enabled present
  have word : (Instruction.ofWord p.word).syncInstruction = true := by
    rw [← sync]
    exact (Instruction.of_operation Instruction.syncInstruction (fun _ => rfl)
      (valid.arrived_operation coherent present)).symm
  refine ⟨word, ?_⟩
  have single : p.arrived.inst.dbWordInstruction = false := by
    rw [accessed.dbWord, decoded.dbWord]
    change ((Instruction.ofWord p.word).dbWordInstruction && _) = false
    rw [Instruction.ofWord_sync word]
    rfl
  have awake : waited.deadlineStalled = false := by
    simp only [reachesCommit, Bool.and_eq_true, Bool.not_eq_true'] at reaches
    rw [← accessed.deadlineStalled, reaches.1.2]
  have first : p.arrived.dbWordStalled = false := by
    rw [accessed.dbWordStalled, awake, Bool.and_false]
  simp [ExceptStage.arrive, ExceptStage.setDwordState, ExceptStage.countCycles, single, first]

end Pass

namespace Run

def syncWord (mask : BitVec 13) : Word := 2#2 ++ 0#5 ++ 0x2D#6 ++ 0#5 ++ 1#1 ++ mask

end Run

end PretIss
