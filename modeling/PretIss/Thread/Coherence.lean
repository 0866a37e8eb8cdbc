import PretIss.Thread.Commit

/-! A thread that is held for another pass keeps a decoded instruction, and the kind
of the instruction fits the stall. With this invariant, what a whole pass does to
the timers, their statuses and the trap is read off the stages. -/

namespace PretIss

variable {id : ThreadId} {σ : Type}

structure HwThread.Coherent (ht : HwThread id) : Prop where
  enabled : ht.enabled = true
  fetched : Fetch.isHeld ht = true → ht.fetchStalled = false
  latch : Fetch.isHeld ht = true → ht.inst.Keeps ht.inst.inst
  memory : ht.memoryStalled = true → ht.inst.readMemory = true ∨ ht.inst.writeMemory = true
  deadline : ht.deadlineStalled = true → ht.inst.selectSpecialRegister = some .dt

theorem HwThread.coherent_reset (pc : Word) (windowReg : Fin (16 * registerWindows) → Word) :
    (HwThread.reset id pc windowReg).Coherent where
  enabled := rfl
  fetched := fun _ => rfl
  latch := fun held => by
    simp [Fetch.isHeld, HwThread.reset, HwThread.create, isTrapped,
      ExceptionState.isTrapped] at held
  memory := fun stalled => by simp [HwThread.reset, HwThread.create] at stalled
  deadline := fun stalled => by simp [HwThread.reset, HwThread.create] at stalled

namespace Pass

structure Ready (p : Pass id σ) : Prop where
  state : p.decoded.state = (Fetch.countDown p.start).state
  memoryStalled : p.decoded.memoryStalled = p.start.memoryStalled
  fetchStalled : p.decoded.fetchStalled = p.fetched.fetchStalled

/-- The latch as it reaches the register access. -/
structure Decoded (p : Pass id σ) : Prop where
  meaning : p.decoded.inst.meaning = (Instruction.ofWord p.decoded.inst.inst).meaning
  dbWord : p.decoded.inst.dbWordInstruction =
    (Instruction.ofWord p.decoded.inst.inst).dbWordInstruction
  memory : p.start.memoryStalled = true →
    p.decoded.inst.readMemory = true ∨ p.decoded.inst.writeMemory = true
  deadline : p.start.deadlineStalled = true →
    p.decoded.inst.selectSpecialRegister = some .dt

variable {p : Pass id σ}

theorem Ready.unchanged {α : Type} (ready : p.Ready) (view : HwThread id → α)
    (blind : ∀ ht : HwThread id, view ht.state = view ht)
    (still : ∀ ht : HwThread id, view (Fetch.countDown ht) = view ht) :
    view p.decoded = view p.start :=
  (HwThread.of_state view blind ready.state).trans (still p.start)

theorem Valid.fetch_cases (valid : p.Valid) (enabled : p.start.enabled = true) :
    ∃ ht : HwThread id, p.fetched.control = ht.control ∧ p.fetched.inst = ht.inst ∧
      p.fetched.memoryStalled = ht.memoryStalled ∧
      ((Fetch.isHeld p.start = true ∧ ht = Fetch.countDown p.start ∧
        p.fetchMemory = p.round.fetchMemory) ∨
      (Fetch.isHeld p.start = false ∧ ∃ bits stall,
        p.round.instructionMemory.readInst p.round.fetchMemory id p.start.pc =
            .ok (p.fetchMemory, bits, stall) ∧
          ht = Fetch.receive (Fetch.countDown p.start) bits stall)) := by
  obtain ⟨ht, runs, fetched⟩ := valid.fetch
  refine ⟨ht, ?_, ?_, ?_, Fetch.behavior_cases enabled runs⟩
  · rw [fetched, Round.control_after]
  · rw [fetched, Round.inst_after]
  · rw [fetched, Round.memoryStalled_after]

theorem Valid.fetched_state (valid : p.Valid) (enabled : p.start.enabled = true) :
    p.fetched.state = (Fetch.countDown p.start).state ∧
      p.fetched.memoryStalled = p.start.memoryStalled := by
  obtain ⟨ht, control, _, memory, cases⟩ := valid.fetch_cases enabled
  have state : p.fetched.state = ht.state := by
    unfold HwThread.state
    rw [control]
  rw [state, memory]
  obtain ⟨_, rfl, _⟩ | ⟨_, bits, stall, _, rfl⟩ := cases <;> exact ⟨rfl, rfl⟩

theorem Valid.ready (valid : p.Valid) (enabled : p.start.enabled = true) : p.Ready := by
  obtain ⟨state, memory⟩ := valid.fetched_state enabled
  have decode : (Decode.behavior p.fetched).state = p.fetched.state ∧
      (Decode.behavior p.fetched).memoryStalled = p.fetched.memoryStalled ∧
      (Decode.behavior p.fetched).fetchStalled = p.fetched.fetchStalled := by
    unfold Decode.behavior
    split
    · exact ⟨rfl, rfl, rfl⟩
    · simp only [HwThread.state, HwThread.control, and_self]
  refine ⟨?_, ?_, ?_⟩
  · rw [← state, ← decode.1, valid.decode, Round.state_after]
  · rw [← memory, ← decode.2.1, valid.decode, Round.memoryStalled_after]
  · rw [← decode.2.2, valid.decode, Round.fetchStalled_after]

theorem Valid.fetched_enabled (valid : p.Valid) (enabled : p.start.enabled = true) :
    p.fetched.enabled = true :=
  (HwThread.of_state HwThread.enabled (fun _ => rfl) (valid.fetched_state enabled).1).trans enabled

theorem Valid.decoded_inst (valid : p.Valid) (enabled : p.start.enabled = true)
    (runs : p.fetched.fetchStalled = false) : p.decoded.inst = p.fetched.inst.decode := by
  rw [valid.decode, Round.inst_after]
  simp [Decode.behavior, HwThread.isNotValid, runs, valid.fetched_enabled enabled]

/-- Whether the word was fetched in this pass or kept from an earlier one, it
reaches the register access decoded. -/
theorem Valid.decoded_latch (valid : p.Valid) (coherent : p.start.Coherent)
    (runs : p.fetched.fetchStalled = false) : p.Decoded := by
  have decoded := valid.decoded_inst coherent.enabled runs
  obtain ⟨ht, _, inst, _, cases⟩ := valid.fetch_cases coherent.enabled
  obtain ⟨held, rfl, _⟩ | ⟨free, bits, stall, _, rfl⟩ := cases
  · have keeps := coherent.latch held
    have latch : p.decoded.inst = p.start.inst.decode := by
      rw [decoded, inst]
      rfl
    obtain ⟨meaning, db, _⟩ := Instruction.decode_of_keeps keeps
    have word : p.decoded.inst.inst = p.start.inst.inst := by
      rw [latch]
      exact (Instruction.of_meaning Instruction.inst (fun _ => rfl) meaning).trans
        (Instruction.inst_ofWord _)
    have operation : p.decoded.inst.operation = p.start.inst.operation := by
      rw [latch, keeps.operation]
      exact congrArg (fun i : Instruction => { i with rd := 0 }) meaning
    have reads := Instruction.of_operation Instruction.readMemory (fun _ => rfl) operation
    have writes := Instruction.of_operation Instruction.writeMemory (fun _ => rfl) operation
    have select :=
      Instruction.of_operation Instruction.selectSpecialRegister (fun _ => rfl) operation
    refine ⟨?_, ?_, fun stalled => ?_, fun stalled => ?_⟩
    · rw [word, latch, meaning]
    · rw [word, latch, db]
    · rw [reads, writes]
      exact coherent.memory stalled
    · rw [select]
      exact coherent.deadline stalled
  · have latch : p.decoded.inst = Instruction.ofWord bits := by
      rw [decoded, inst]
      rfl
    simp only [Fetch.isHeld, Bool.or_eq_false_iff] at free
    refine ⟨?_, ?_, fun stalled => ?_, fun stalled => ?_⟩
    · rw [latch, Instruction.inst_ofWord]
    · rw [latch, Instruction.inst_ofWord]
    · simp [free.1.1] at stalled
    · simp [free.1.2] at stalled

end Pass

end PretIss
