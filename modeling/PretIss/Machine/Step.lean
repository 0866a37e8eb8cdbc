import PretIss.Machine.Special

/-! A pass that fetches an instruction and commits it makes a step of the sequential
machine. -/

namespace PretIss

open Sparc (State link links fields)

variable {id : ThreadId} {σ : Type}

namespace Pass

variable {p : Pass id σ}

theorem Fresh.window_operated (fresh : p.Fresh) (m : Contents)
    (delivers : ((p.before m).delivered id p.word).isSome = true) :
    ((p.before m).nextSpecial p.word).currWp = p.writing.specRegs.currWp := by
  have asks := (Sparc.asks_delivered fresh.ordinary (p.before m) id).trans delivers
  have silent : (fields p.word).decodeOperation.writeSpecialRegisters = false := by
    by_contra writes
    rw [Sparc.writeRegisters_of_special (eq_true_of_ne_false writes)] at asks
    cases asks
  rw [fresh.toRetires.window_writing, fresh.visible_writing m silent]

/-- The registers after an instruction. -/
theorem Fresh.regs (fresh : p.Fresh) (m : Contents)
    (linkable : links p.word = true → link p.word ≠ 0 → ExceptStage.drift p.start = 0) :
    p.finished.regs = (p.before m).nextRegs id p.word := by
  obtain ⟨written, final, registers, special, finished⟩ := fresh.toRetires.committed
  have frame := (ExceptStage.writeSpecialRegs_frame special).1
  have start : p.writing.regs = p.start.regs := by
    have unchanged := ExceptStage.linked_unchanged HwThread.regs (fun _ _ _ _ => rfl) p.word
      p.committing
    obtain ⟨icc, same, _⟩ := ExceptStage.writeIcc_eq p.committing
    rw [unchanged, same, ← (fresh.valid.carries fresh.coherent fresh.toRetires.runs).regs]
    exact p.committing_eq HwThread.regs fun _ _ _ _ => rfl
  have last : p.finished.regs = written.regs := by
    rw [finished, p.round.after_eq .except HwThread.regs fun _ => rfl, ExceptStage.counted, frame]
  have writes := fresh.writes m
  rw [last, State.nextRegs]
  obtain ⟨silent, rfl⟩ | ⟨asks, value, reads, rfl⟩ := ExceptStage.writeRegs_cases registers
  · change p.writing.regs = _
    rw [start]
    rw [show (p.writing.inst.writeRegisters = false) from silent] at writes
    cases delivers : (p.before m).delivered id p.word with
    | none => rfl
    | some value =>
        have zero : link p.word = 0 := by simpa [delivers] using writes.symm
        rw [zero]
        rfl
  · rw [show (p.writing.inst.writeRegisters = true) from asks] at writes
    have both := writes.symm
    rw [Bool.and_eq_true, bne_iff_ne] at both
    obtain ⟨delivers, named⟩ := both
    have window := fresh.window_operated m delivers
    obtain ⟨result, delivers⟩ := Option.isSome_iff_exists.mp delivers
    have same := fresh.value m delivers named linkable
    obtain rfl := Except.ok.inj (same.symm.trans reads)
    rw [delivers]
    simp only [named, if_false]
    change p.writing.regs.setReg p.writing.inst.rd result p.writing.specRegs.currWp = _
    rw [start, fresh.register, window]
    rfl

theorem drift_start (p : Pass id σ) (m : Contents) (near : (p.before m).counters.npc =
    (p.before m).counters.pc + 4) : ExceptStage.drift p.start = 0 := by
  have next : ExceptStage.npc p.start = p.start.pc + 4 := near
  rw [ExceptStage.drift, next]
  exact BitVec.sub_self _

theorem Fresh.jumps (fresh : p.Fresh) (m : Contents) (jump : Sparc.isJmpl p.word = true) :
    p.arrived.inst.aluResult = (p.before m).address p.word := by
  obtain ⟨latch, _⟩ := fresh.accessed m
  have known : Sparc.arithmeticOp p.word = some .jmpl := by
    simp only [Sparc.isJmpl, Bool.and_eq_true, beq_iff_eq] at jump
    rw [Sparc.arithmeticOp, Sparc.format, jump.1, jump.2]
    rfl
  have decoded := Sparc.decoded_of_arithmeticOp known
  have aluop : p.asked.aluop = .add := by
    rw [asked, Sparc.of_fields p.word Instruction.aluop fun _ => rfl, decoded]
    rfl
  have carry : p.asked.carry = false := by
    rw [asked, Sparc.of_fields p.word Instruction.carry fun _ => rfl, decoded]
    rfl
  rw [fresh.arrived]
  simp only [Execute.aluValue, latch, aluop, carry, Bool.false_eq_true, if_false]
  exact BitVec.add_zero _

theorem Fresh.transfer (fresh : p.Fresh) (m : Contents) :
    Sparc.transfer p.word p.arrived.specRegs.icc p.arrived.pc p.arrived.inst.aluResult =
      Sparc.transfer p.word (p.before m).special.icc (p.before m).counters.pc
        ((p.before m).address p.word) := by
  have pc : p.arrived.pc = (p.before m).counters.pc :=
    (fresh.valid.carried fresh.coherent.enabled).1
  have arrived := fresh.toRetires.visible_arrived
  have icc : p.arrived.specRegs.visible.icc = (p.before m).special.icc := by
    rw [arrived]
    rfl
  have rett := Sparc.isRett_of_ordinary fresh.ordinary
  rw [show p.arrived.specRegs.icc = (p.before m).special.icc from icc, pc]
  cases jump : Sparc.isJmpl p.word with
  | true => rw [fresh.jumps m jump]
  | false => simp only [Sparc.transfer, jump, rett, Bool.or_self, Bool.false_eq_true, if_false]

theorem Fresh.sound (fresh : p.Fresh) (m : Contents) (tracks : (p.before m).Tracks p.word) :
    ExceptStage.Sound p.word p.arrived := by
  have carried := fresh.valid.carried fresh.coherent.enabled
  have drift : ExceptStage.drift p.arrived = ExceptStage.drift p.start := by
    rw [ExceptStage.drift, ExceptStage.drift, ExceptStage.npc, ExceptStage.npc, carried.1,
      carried.2.1]
  rw [ExceptStage.Sound, fresh.transfer m]
  rw [State.Tracks] at tracks
  split at tracks
  · rename_i same
    rw [same]
    trivial
  · rename_i same
    rw [same]
    trivial
  · rename_i target same
    rw [same]
    exact drift.trans (p.drift_start m tracks)
  · rename_i target same
    rw [same]
    obtain ⟨some, near⟩ := tracks
    constructor
    · intro _ named
      rw [drift]
      exact p.drift_start m (near (by simp [named]))
    · left
      refine ⟨?_, Or.inl some⟩
      rw [ExceptStage.lead, drift]
      split
      · rename_i counts
        exact p.drift_start m (near (by simp [counts]))
      · rfl

theorem linkable_of_tracks {s : State} {w : Word} (tracks : s.Tracks w) (jumps : links w = true)
    (named : link w ≠ 0) : s.counters.npc = s.counters.pc + 4 := by
  obtain ⟨target, delayed⟩ :=
    ExceptStage.transfer_of_links jumps s.special.icc s.counters.pc (s.address w)
  rw [State.Tracks, delayed] at tracks
  exact tracks.2 (by simp [named])

theorem Fresh.counters (fresh : p.Fresh) (m : Contents) (tracks : (p.before m).Tracks p.word) :
    ExceptStage.counters p.finished = ((p.before m).exec id p.word).counters := by
  obtain ⟨moves, consulted, finished⟩ := fresh.valid.counters_committed fresh.coherent fresh.commits
    (fun half => by rw [fresh.single] at half; cases half) (fresh.sound m tracks)
  have unsynced : ExceptStage.checkSync (ExceptStage.arrive p.arrived) p.round.syncTable =
      .ok (p.round.syncTable, true) := by
    simp [ExceptStage.checkSync, fresh.toRetires.syncless]
  rw [consulted] at unsynced
  obtain ⟨_, rfl⟩ := Prod.mk.injEq .. ▸ Except.ok.inj unsynced
  obtain ⟨single, whole⟩ := fresh.toRetires.whole
  have through : (ExceptStage.arrive p.arrived).dbWordStalled = false := by
    rw [ExceptStage.arrive_dbWordStalled, single, whole]
    rfl
  have pc : p.start.pc = p.arrived.pc := (fresh.valid.carried fresh.coherent.enabled).1.symm
  rw [finished, through]
  simp only [Bool.not_false, Bool.and_self, if_true]
  rw [pc, fresh.transfer m]
  rfl

theorem Fresh.exec (fresh : p.Fresh) (m : Contents) (tracks : (p.before m).Tracks p.word) :
    Sparc.stateOf p.finished m = (p.before m).exec id p.word := by
  have quiet := Sparc.memoryOp_of_quiet fresh.ordinary fresh.quiet
  have memory : (p.before m).nextMemory id p.word = m := by
    rw [State.nextMemory, quiet]
    rfl
  have regs := fresh.regs m fun jumps named =>
    p.drift_start m (linkable_of_tracks tracks jumps named)
  rw [Sparc.stateOf, fresh.counters m tracks, fresh.special m, regs, State.exec, memory]

end Pass

end PretIss
