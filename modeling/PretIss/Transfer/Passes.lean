import PretIss.Transfer.Refinement

/-! The latch that a pass brings to the end of the pipeline is one that the rule speaks
about, so in a run the counters of a thread move by the rule as long as its transfers
are sound. -/

namespace PretIss

open ExceptStage (Latched Sound counters reachesCommit squashes)
open Sparc (links link isCall isJmpl fields transfer)

theorem Sparc.decodeOperation_of_links {i : Instruction} (jumps : links i.inst = true) :
    i.decodeFields.decodeOperation.writeRegisters = true ∧
      i.decodeFields.decodeOperation.rd = link i.inst := by
  have op1 : i.decodeFields.op1 = (Sparc.op i.inst).toNat := op1_eq i.inst
  have code : i.decodeFields.op3 = (Sparc.op3 i.inst).toNat := field_eq i.inst 0x01F80000 19 6 rfl
  have rd : i.decodeFields.rd = (i.inst.extractLsb' 25 5).toNat := field_eq i.inst 0x3E000000 25 5 rfl
  cases call : isCall i.inst with
  | true =>
      have format : Sparc.op i.inst = 1 := by simpa [isCall] using call
      rw [link, call, if_pos rfl, Instruction.decodeOperation, op1, format]
      exact ⟨rfl, rfl⟩
  | false =>
      have jump : isJmpl i.inst = true := by simpa [links, call] using jumps
      simp only [isJmpl, Bool.and_eq_true, beq_iff_eq] at jump
      rw [link, call, if_neg (by simp), Instruction.decodeOperation, op1, code, jump.1, jump.2]
      exact ⟨rfl, rd⟩

theorem Sparc.decode_of_links {i : Instruction} (jumps : links i.inst = true) :
    i.decode.rd = link i.inst ∧ i.decode.writeRegisters = (link i.inst != 0) := by
  obtain ⟨asks, rd⟩ := decodeOperation_of_links jumps
  simp only [Instruction.decode]
  by_cases zero : i.decodeFields.decodeOperation.rd = 0
  · rw [if_pos zero]
    refine ⟨rd, ?_⟩
    rw [← rd, zero]
    rfl
  · rw [if_neg zero]
    refine ⟨rd, asks.trans ?_⟩
    rw [← rd]
    exact (bne_iff_ne.mpr zero).symm

namespace Pass

variable {id : ThreadId} {σ : Type} {p : Pass id σ}

theorem Valid.carried (valid : p.Valid) (enabled : p.start.enabled = true) :
    p.arrived.pc = p.start.pc ∧ p.arrived.branchSlot = p.start.branchSlot ∧
      p.arrived.inst.writeRegisters = p.decoded.inst.writeRegisters := by
  have ready := valid.ready enabled
  have pc := ready.unchanged HwThread.pc (fun _ => rfl) (fun _ => rfl)
  have slot := ready.unchanged HwThread.branchSlot (fun _ => rfl) (fun _ => rfl)
  have arrived := valid.arrived_control.1
  obtain ⟨_, control, _⟩ | ⟨_, waited, _, waits, control, _⟩ := valid.access_cases enabled
  · have same := arrived.trans control
    exact ⟨(HwThread.of_control HwThread.pc (fun _ => rfl) same).trans pc,
      (HwThread.of_control HwThread.branchSlot (fun _ => rfl) same).trans slot,
      HwThread.of_control (fun ht => ht.inst.writeRegisters) (fun _ => rfl) same⟩
  · have same := arrived.trans control
    have checked : ∀ {α : Type} (view : HwThread id → α),
        (∀ (ht : HwThread id) state trapType,
          view { ht with trapped := state, trapType := trapType } = view ht) →
        view (Regacc.checkDeadline waited) = view waited :=
      fun view blind => Regacc.checkDeadline_unchanged view blind waited
    refine ⟨?_, ?_, ?_⟩
    · rw [HwThread.of_control HwThread.pc (fun _ => rfl) same, ← pc, ← waits.pc]
      exact checked HwThread.pc fun _ _ _ => rfl
    · rw [HwThread.of_control HwThread.branchSlot (fun _ => rfl) same, ← slot, ← waits.branchSlot]
      exact checked HwThread.branchSlot fun _ _ _ => rfl
    · rw [HwThread.of_control (fun ht => ht.inst.writeRegisters) (fun _ => rfl) same]
      calc (Regacc.checkDeadline waited).inst.writeRegisters
          = waited.inst.writeRegisters := checked (fun ht => ht.inst.writeRegisters) fun _ _ _ => rfl
        _ = p.decoded.inst.writeRegisters := by rw [waits.operation]

theorem Valid.latched (valid : p.Valid) (coherent : p.start.Coherent) (present : p.runs = true)
    (last : p.arrived.inst.dbWordInstruction = false)
    (whole : p.start.dbWordStalled = true → links p.word = false) :
    Latched p.word p.arrived.inst := by
  refine ⟨valid.arrived_operation coherent present, last, fun jumps => ?_⟩
  have decoded := valid.decoded_inst coherent.enabled (by simpa [runs] using present)
  have ready := valid.ready coherent.enabled
  obtain ⟨waited, accessed⟩ := valid.accesses coherent.enabled present
  have single : p.start.dbWordStalled = false := by
    cases stalled : p.start.dbWordStalled with
    | false => rfl
    | true => exact absurd jumps (by simp [whole stalled])
  have flag : waited.dbWordStalled = false := accessed.waits.dbWordStalled.trans
    ((ready.unchanged HwThread.dbWordStalled (fun _ => rfl) (fun _ => rfl)).trans single)
  have word : p.fetched.inst.inst = p.word := by
    rw [Pass.word, decoded, Instruction.inst_decode]
  obtain ⟨rd, writes⟩ := Sparc.decode_of_links (i := p.fetched.inst) (by rwa [word])
  rw [word, ← decoded] at rd writes
  constructor
  · rw [accessed.rd, Regacc.destination, Regacc.secondHalf, flag, accessed.waits.operation]
    exact rd
  · exact (valid.carried coherent.enabled).2.2.trans writes

def committing (p : Pass id σ) : HwThread id :=
  { ExceptStage.arrive p.arrived with trapped := .normal }

theorem committing_eq {α : Type} (p : Pass id σ) (view : HwThread id → α)
    (blind : ∀ (ht : HwThread id) cycles stalled state,
      view { ht with cntCycles := cycles, dbWordStalled := stalled, trapped := state } = view ht) :
    view p.committing = view p.arrived := by
  unfold committing
  obtain same | same := ExceptStage.arrive_cases p.arrived <;> rw [same]
  · exact blind p.arrived _ p.arrived.dbWordStalled _
  · exact blind p.arrived _ true _

theorem sound_committing (sound : Sound p.word p.arrived) : Sound p.word p.committing := by
  have moved := p.committing_eq
    (fun ht => transfer p.word ht.specRegs.icc ht.pc ht.inst.aluResult) fun _ _ _ _ => rfl
  have drift := p.committing_eq ExceptStage.drift fun _ _ _ _ => rfl
  have lead := p.committing_eq (ExceptStage.lead p.word) fun _ _ _ _ => rfl
  have npc := p.committing_eq ExceptStage.npc fun _ _ _ _ => rfl
  unfold Sound at sound ⊢
  rw [moved]
  revert sound
  cases transfer p.word p.arrived.specRegs.icc p.arrived.pc p.arrived.inst.aluResult with
  | sequential => exact fun _ => trivial
  | skipping => exact fun _ => trivial
  | redirected target => exact fun sound => drift.trans sound
  | delayed target =>
      intro keeps
      constructor
      · rw [drift]
        exact keeps.link
      · rw [lead, npc]
        exact keeps.target

theorem counters_retire {moved written last : HwThread id} {dma dma' : Dma}
    (registers : ExceptStage.writeRegs moved = .ok written)
    (special : ExceptStage.writeSpecialRegs written dma = .ok (last, dma')) :
    counters (ExceptStage.retire last) = counters moved := by
  have retired : counters (ExceptStage.retire last) = counters last := by
    simp only [ExceptStage.retire, ExceptStage.returnFromTrap]
    split
    · split
      · rfl
      · split <;> rfl
    · rfl
  calc counters (ExceptStage.retire last) = counters last := retired
    _ = counters written := by rw [(ExceptStage.writeSpecialRegs_frame special).1]; rfl
    _ = counters moved := by rw [ExceptStage.writeRegs_frame registers]; rfl

/-- An instruction that commits has the program counter moved past it, unless it waits at a
barrier or for its second half. -/
theorem Valid.counters_moved (valid : p.Valid) (enabled : p.start.enabled = true)
    (commits : p.commits = true) :
    ∃ syncNotStalled, ExceptStage.checkSync (ExceptStage.arrive p.arrived) p.round.syncTable =
        .ok (p.syncTable, syncNotStalled) ∧
      if !(ExceptStage.arrive p.arrived).dbWordStalled && syncNotStalled then
        ∃ moved, ExceptStage.incPc p.committing = .ok moved ∧ counters p.finished = counters moved
      else counters p.finished = counters p.committing := by
  have arrives := valid.arrives enabled
  simp only [Pass.commits, Bool.and_eq_true, Bool.not_eq_true'] at commits
  obtain ⟨reaches, goes⟩ := commits
  obtain ⟨ht, control, _,
      ⟨fetch, _⟩ | ⟨_, never, _⟩ | ⟨_, syncNotStalled, consulted, committed⟩⟩ :=
    valid.finish_cases arrives.enabled
  · simp [reachesCommit, fetch] at reaches
  · simp [never] at reaches
  have finish : counters p.finished = counters ht :=
    HwThread.of_control counters (fun _ => rfl) control
  refine ⟨syncNotStalled, consulted, ?_⟩
  obtain ⟨squashed, handled, moved, written, last, first, second, third, fourth, rfl⟩ :=
    ExceptStage.commit_eq_ok.mp committed
  rw [finish, counters_retire third fourth]
  obtain ⟨_, rfl, rfl⟩ | ⟨stops, _⟩ := ExceptStage.handleExceptions_cases first
  · simp only [ExceptStage.advance, Bool.true_and] at second
    split at second
    · rename_i moves
      rw [if_pos moves]
      exact ⟨moved, second, rfl⟩
    · rename_i stays
      obtain rfl := Except.ok.inj second
      rw [if_neg stays]
      rfl
  · have same : squashes (ExceptStage.arrive p.arrived) = squashes p.arrived := by
      simp [squashes, HwThread.isTrapped]
    rw [same, goes] at stops
    cases stops

theorem Valid.counters_committing (valid : p.Valid) (enabled : p.start.enabled = true) :
    counters p.committing = counters p.start := by
  have carried := valid.carried enabled
  rw [p.committing_eq counters fun _ _ _ _ => rfl, counters, counters, carried.1, carried.2.1]

/-- An instruction that commits leaves the counters where they are while it waits at a
barrier or for its second half, and moves them by the rule where that is sound. -/
theorem Valid.counters_committed (valid : p.Valid) (coherent : p.start.Coherent)
    (commits : p.commits = true) (whole : p.start.dbWordStalled = true → links p.word = false)
    (sound : Sound p.word p.arrived) :
    ∃ syncNotStalled, ExceptStage.checkSync (ExceptStage.arrive p.arrived) p.round.syncTable =
        .ok (p.syncTable, syncNotStalled) ∧
      counters p.finished =
        if !(ExceptStage.arrive p.arrived).dbWordStalled && syncNotStalled then
          (counters p.start).next 4
            (transfer p.word p.arrived.specRegs.icc p.start.pc p.arrived.inst.aluResult)
        else counters p.start := by
  have arrives := valid.arrives coherent.enabled
  have carried := valid.carried coherent.enabled
  have start := valid.counters_committing coherent.enabled
  obtain ⟨syncNotStalled, consulted, finish⟩ := valid.counters_moved coherent.enabled commits
  refine ⟨syncNotStalled, consulted, ?_⟩
  simp only [Pass.commits, Bool.and_eq_true, Bool.not_eq_true'] at commits
  rw [← start]
  split at finish
  · rename_i moves
    obtain ⟨moved, second, finish⟩ := finish
    rw [if_pos moves, finish]
    simp only [Bool.and_eq_true, Bool.not_eq_true'] at moves
    have single : p.arrived.inst.dbWordInstruction = false := by
      by_contra double
      simp only [Bool.not_eq_false] at double
      have stalled : (ExceptStage.arrive p.arrived).dbWordStalled = true := by
        cases before : p.arrived.dbWordStalled <;>
          simp [ExceptStage.arrive, ExceptStage.setDwordState, ExceptStage.countCycles, double,
            before]
      rw [stalled] at moves
      cases moves.1
    have latched : Latched p.word p.committing.inst := by
      rw [p.committing_eq HwThread.inst fun _ _ _ _ => rfl]
      exact valid.latched coherent (runs_of_reachesCommit arrives commits.1) single whole
    have follows := (ExceptStage.follows_iff latched).mpr (sound_committing sound)
    obtain rfl := Except.ok.inj ((ExceptStage.incPc_eq latched).symm.trans second)
    rw [follows.moves, p.committing_eq (fun ht => transfer p.word ht.specRegs.icc ht.pc
      ht.inst.aluResult) fun _ _ _ _ => rfl, carried.1]
  · rename_i stays
    rw [if_neg stays, finish]

end Pass

end PretIss
