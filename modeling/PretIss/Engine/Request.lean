import PretIss.Thread.Outcome

/-! The request of a transfer. Committing a `MEM2SP` writes the request registers of the
thread, nothing else does, and the thread is not held afterwards. -/

namespace PretIss

variable {id : ThreadId} {σ : Type}

def Instruction.isMem2sp (i : Instruction) : Bool := i.selectSpecialRegister == some .mem2sp

namespace ExceptStage

theorem writeSpecialRegs_dma {ht ht' : HwThread id} {dma dma' : Dma}
    (runs : writeSpecialRegs ht dma = .ok (ht', dma')) :
    dma' = if ht.inst.writeSpecialRegisters && ht.inst.isMem2sp then requestTransfer ht dma
      else dma := by
  simp only [writeSpecialRegs] at runs
  cases writes : ht.inst.writeSpecialRegisters with
  | false =>
      simp only [writes, Bool.false_eq_true, if_false, Except.ok.injEq, Prod.mk.injEq] at runs
      simp [runs.2]
  | true =>
      simp only [writes, if_true] at runs
      unfold Instruction.isMem2sp
      split at runs
      case h_2 select =>
        obtain ⟨specRegs, _, runs⟩ := Transition.bind_eq_ok.mp runs
        simp only [pure, Except.pure, Except.ok.injEq, Prod.mk.injEq] at runs
        simp [runs.2, select]
      case h_6 select =>
        obtain ⟨written, _, runs⟩ := Transition.bind_eq_ok.mp runs
        simp only [pure, Except.pure, Except.ok.injEq, Prod.mk.injEq] at runs
        simp [runs.2, select]
      all_goals
        rename_i select
        simp only [Except.ok.injEq, Prod.mk.injEq] at runs
        simp [← runs.2, select]

theorem commit_dma {ht ht' : HwThread id} {syncNotStalled : Bool} {dma dma' : Dma}
    (plain : ht.inst.isMem2sp = true → ht.inst.jump = false ∧ ht.inst.call = false)
    (runs : commit ht syncNotStalled dma = .ok (ht', dma')) :
    dma' = if !squashes ht && (ht.inst.writeSpecialRegisters && ht.inst.isMem2sp) then
      requestTransfer ht dma else dma := by
  obtain ⟨squashed, handled, moved, written, last, first, second, third, fourth, rfl⟩ :=
    commit_eq_ok.mp runs
  obtain ⟨unmoves, links⟩ := advance_unmoved second
  have registers := writeRegs_frame third
  have same : written.inst = moved.inst := by rw [registers]
  have writes : moved.inst.writeSpecialRegisters = squashed.inst.writeSpecialRegisters := by
    change (unmoved moved).inst.writeSpecialRegisters = (unmoved squashed).inst.writeSpecialRegisters
    rw [unmoves]
  have select : moved.inst.isMem2sp = squashed.inst.isMem2sp := by
    change (unmoved moved).inst.isMem2sp = (unmoved squashed).inst.isMem2sp
    rw [unmoves]
  rw [writeSpecialRegs_dma fourth, same, writes, select]
  cases stops : squashes ht with
  | true =>
      have off := (handleExceptions_squashed stops first).1
      simp [off]
  | false =>
      obtain ⟨_, _, rfl⟩ | ⟨stopped, _⟩ := handleExceptions_cases first
      · simp only [Bool.not_false, Bool.true_and]
        split
        · rename_i asks
          have straight := plain (Bool.and_eq_true .. ▸ asks).2
          rw [requestTransfer, same, links straight.1 straight.2]
          rfl
        · rfl
      · rw [stops] at stopped
        cases stopped

theorem behavior_dma {ht ht' : HwThread id} {syncTable syncTable' : SyncTable} {dma dma' : Dma}
    (plain : reachesCommit ht = true → ht.inst.isMem2sp = true →
      ht.inst.jump = false ∧ ht.inst.call = false)
    (runs : behavior ht syncTable dma = .ok (ht', syncTable', dma')) :
    dma' = if reachesCommit ht && !squashes ht && (ht.inst.writeSpecialRegisters && ht.inst.isMem2sp)
      then requestTransfer ht dma else dma := by
  cases enabled : ht.enabled with
  | false =>
      rw [behavior_of_disabled enabled] at runs
      simp only [Except.ok.injEq, Prod.mk.injEq] at runs
      simp [reachesCommit, enabled, runs.2.2]
  | true =>
      cases fetch : ht.fetchStalled with
      | true =>
          rw [behavior_of_fetchStalled enabled fetch] at runs
          simp only [Except.ok.injEq, Prod.mk.injEq] at runs
          simp [reachesCommit, fetch, runs.2.2]
      | false =>
          cases dead : ht.deadlineStalled with
          | true =>
              obtain ⟨_, _, rfl⟩ := (behavior_of_deadlineStalled enabled fetch dead).mp runs
              simp [reachesCommit, dead]
          | false =>
              cases memory : ht.memoryStalled with
              | true =>
                  rw [behavior_of_memoryStalled enabled fetch dead memory] at runs
                  simp only [Except.ok.injEq, Prod.mk.injEq] at runs
                  simp [reachesCommit, memory, runs.2.2]
              | false =>
                  obtain ⟨syncNotStalled, _, committed⟩ :=
                    (behavior_of_free enabled fetch dead memory).mp runs
                  have request : requestTransfer (arrive ht) dma = requestTransfer ht dma := by
                    simp [requestTransfer]
                  have squashed : squashes (arrive ht) = squashes ht := by
                    simp [squashes, HwThread.isTrapped]
                  have reaches : reachesCommit ht = true := by
                    simp [reachesCommit, enabled, fetch, dead, memory]
                  rw [commit_dma (by simpa using plain reaches) committed, request, squashed,
                    arrive_inst, reaches, Bool.true_and]

end ExceptStage

namespace Pass

open ExceptStage

variable {p : Pass id σ}

/-- The instruction that a pass commits asks for a transfer. -/
def requests (p : Pass id σ) : Bool := p.commits && p.arrived.inst.isMem2sp

/-- A request that arrives at the last stage is no jump or call or return, and it is
switched on. -/
theorem Valid.mem2sp_operation (valid : p.Valid) (coherent : p.start.Coherent)
    (present : p.runs = true) (asks : p.arrived.inst.isMem2sp = true) :
    p.arrived.inst.writeSpecialRegisters = true ∧ p.arrived.inst.isRett = false ∧
      p.arrived.inst.jump = false ∧ p.arrived.inst.call = false := by
  have operation := valid.arrived_operation coherent present
  have view : ∀ {α : Type} (f : Instruction → α), (∀ i : Instruction, f i.operation = f i) →
      f p.arrived.inst = f (Instruction.ofWord p.word) :=
    fun f blind => Instruction.of_operation f blind operation
  have select : (Instruction.ofWord p.word).selectSpecialRegister = some .mem2sp := by
    rw [← view Instruction.selectSpecialRegister (fun _ => rfl)]
    simpa [Instruction.isMem2sp] using asks
  obtain ⟨writes, rett, jump, call⟩ := Instruction.ofWord_mem2sp select
  refine ⟨?_, (view Instruction.isRett fun _ => rfl).trans rett,
    (view Instruction.jump fun _ => rfl).trans jump, (view Instruction.call fun _ => rfl).trans call⟩
  obtain ⟨waited, accessed⟩ := valid.accesses coherent.enabled present
  have free : p.decoded.inst.selectSpecialRegister ≠ some .dt := by
    rw [← Instruction.of_operation Instruction.selectSpecialRegister (fun _ => rfl) accessed.meaning,
      view Instruction.selectSpecialRegister (fun _ => rfl), select]
    simp
  have passes := accessed.waiting
  rw [Regacc.deadlineInstruction_of_ne free] at passes
  obtain rfl := Except.ok.inj passes
  rw [accessed.special]
  have decoded := valid.decoded_inst coherent.enabled (by simpa [runs] using present)
  obtain ⟨ht, _, inst, _, ⟨held, rfl, _⟩ | ⟨_, bits, stall, _, rfl⟩⟩ :=
    valid.fetch_cases coherent.enabled
  · have latch : p.decoded.inst = p.start.inst.decode := by
      rw [decoded, inst]
      rfl
    have word : p.word = p.start.inst.inst := by
      have same := (Instruction.decode_of_keeps (coherent.latch held)).1
      rw [word, latch, Instruction.of_meaning Instruction.inst (fun _ => rfl) same,
        Instruction.inst_ofWord]
    rw [latch, (Instruction.decode_of_keeps (coherent.latch held)).2.2, ← word, writes, Bool.or_true]
  · have latch : p.decoded.inst = Instruction.ofWord bits := by
      rw [decoded, inst]
      rfl
    have word : p.word = bits := by
      rw [Pass.word, latch, Instruction.inst_ofWord]
    rw [latch, ← word, writes]

theorem Valid.dma (valid : p.Valid) (coherent : p.start.Coherent) :
    p.dma = if p.requests then requestTransfer p.arrived p.round.dma else p.round.dma := by
  have arrives := valid.arrives coherent.enabled
  obtain ⟨ht, except, _⟩ := valid.except
  rw [behavior_dma (fun reaches asks =>
    (valid.mem2sp_operation coherent (runs_of_reachesCommit arrives reaches) asks).2.2) except]
  cases commits : p.commits with
  | false =>
      change (reachesCommit p.arrived && !squashes p.arrived) = false at commits
      simp [requests, Pass.commits, commits]
  | true =>
      change (reachesCommit p.arrived && !squashes p.arrived) = true at commits
      by_cases asks : p.arrived.inst.isMem2sp = true
      · have reaches := (Bool.and_eq_true .. ▸ commits).1
        have writes :=
          (valid.mem2sp_operation coherent (runs_of_reachesCommit arrives reaches) asks).1
        simp [requests, Pass.commits, commits, asks, writes]
      · simp [requests, asks]

theorem Valid.free_of_requests (valid : p.Valid) (coherent : p.start.Coherent)
    (asks : p.requests = true) : Fetch.isHeld p.finished = false := by
  have arrives := valid.arrives coherent.enabled
  obtain ⟨_, _, memory, dead, _⟩ := valid.finished_latch coherent.enabled
  obtain ⟨commits, mem2sp⟩ := Bool.and_eq_true .. ▸ asks
  have reaches := (Bool.and_eq_true .. ▸ commits).1
  have rett :=
    (valid.mem2sp_operation coherent (runs_of_reachesCommit arrives reaches) mem2sp).2.1
  have normal : p.finished.trapped = .normal := by
    obtain ⟨_, _, never⟩ | ⟨_, _, goes, _⟩ | ⟨returns, _⟩ := (valid.finishes coherent).trap
    · rw [never] at reaches
      cases reaches
    · exact goes commits
    · rw [rett] at returns
      cases returns
  simp only [reachesCommit, Bool.and_eq_true, Bool.not_eq_true'] at reaches
  simp [Fetch.isHeld, HwThread.isTrapped, memory, dead, reaches, normal]

end Pass

end PretIss
