import PretIss.Thread.Outcome

/-! The registers of a thread on their way to the last stage. Only the register access
moves the window, and only a multiply step writes the Y register; the register file and
the settings wait for the commit. -/

namespace PretIss

variable {id : ThreadId} {σ : Type}

def SpecialReg.settings (r : SpecialReg) : SpecialReg :=
  { r with
    currWp := 0, y := 0, dt := fun _ => 0, plldt := fun _ => 0, pllLoad := fun _ => 0
    pllLoaded := false, dtStatus := fun _ => .unset }

namespace RegisterFile

theorem windowIndex_mod (registerNumber : Nat) (windowPointer : BitVec 16) :
    windowIndex registerNumber (windowPointer % registerWindows) =
      windowIndex registerNumber windowPointer := by
  have wraps : ∀ n : Nat, n * 16 % 65536 % 512 = n % 32 * 16 := by
    intro n
    omega
  apply Fin.ext
  simp only [windowIndex, registerWindows]
  rw [Nat.add_mod, Nat.add_mod (windowPointer * 16).toNat]
  congr 2
  rw [BitVec.toNat_mul, BitVec.toNat_mul, BitVec.toNat_umod]
  change windowPointer.toNat % 32 * 16 % 65536 % 512 = windowPointer.toNat * 16 % 65536 % 512
  rw [wraps, wraps, Nat.mod_mod]

theorem getReg_mod (r : RegisterFile) (registerNumber : Nat) (windowPointer : BitVec 16) :
    r.getReg registerNumber (windowPointer % registerWindows) =
      r.getReg registerNumber windowPointer := by
  rw [getReg, getReg, windowIndex_mod]

theorem setReg_mod (r : RegisterFile) (registerNumber : Nat) (value : Word)
    (windowPointer : BitVec 16) :
    r.setReg registerNumber value (windowPointer % registerWindows) =
      r.setReg registerNumber value windowPointer := by
  rw [setReg, setReg, windowIndex_mod]

theorem set_set_same (r : RegisterFile) (registerNumber : Nat) (first second : Word)
    (windowPointer : BitVec 16) :
    (r.setReg registerNumber first windowPointer).setReg registerNumber second windowPointer =
      r.setReg registerNumber second windowPointer := by
  by_cases low : registerNumber < 8 <;> simp [setReg, low]

theorem set_get_same (r : RegisterFile) (registerNumber : Nat) (windowPointer : BitVec 16) :
    r.setReg registerNumber (r.getReg registerNumber windowPointer) windowPointer = r := by
  by_cases low : registerNumber < 8 <;> simp [setReg, getReg, low]

end RegisterFile

namespace ExceptStage

theorem arrive_dbWordStalled (ht : HwThread id) :
    (arrive ht).dbWordStalled = (ht.dbWordStalled || ht.inst.dbWordInstruction) := by
  unfold arrive setDwordState
  change (if (ht.inst.dbWordInstruction && !ht.dbWordStalled) = true then _ else _ :
    HwThread id).dbWordStalled = _
  cases ht.inst.dbWordInstruction <;> cases flag : ht.dbWordStalled <;>
    first | rfl | exact flag

theorem arrive_unchanged {α : Type} (view : HwThread id → α)
    (blind : ∀ (ht : HwThread id) cycles stalled,
      view { ht with cntCycles := cycles, dbWordStalled := stalled } = view ht)
    (ht : HwThread id) : view (arrive ht) = view ht := by
  obtain same | same := arrive_cases ht <;> rw [same]
  · exact blind ht _ ht.dbWordStalled
  · exact blind ht _ true

end ExceptStage

theorem Execute.y_behavior (ht : HwThread id) :
    (behavior ht).specRegs.y =
      if ht.isNotValid = false ∧ ht.inst.aluop = .mul ∧ ht.inst.signedMultiply = true then
        shiftedY ht.inst.op1Value ht.specRegs.y
      else ht.specRegs.y := by
  simp only [behavior, performAluOperations]
  cases ht.isNotValid with
  | true => simp
  | false =>
      by_cases multiplies : ht.inst.aluop = .mul
      · cases signed : ht.inst.signedMultiply with
        | true =>
            simp only [multiplies, Bool.false_eq_true, if_false, if_true, and_self]
            split <;> rfl
        | false =>
            simp only [multiplies, Bool.false_eq_true, if_false, if_true, and_false]
            split <;> rfl
      · simp only [multiplies, Bool.false_eq_true, if_false, false_and, and_false]
        split <;> rfl

theorem Mem.specRegs_behavior {dataMem : MemStageIf σ} {ht ht' : HwThread id} {memory memory' : σ}
    (runs : behavior dataMem ht memory = .ok (ht', memory')) : ht'.specRegs = ht.specRegs := by
  simp only [behavior] at runs
  split at runs
  · obtain ⟨rfl, _⟩ := Prod.mk.injEq .. ▸ Except.ok.inj runs
    rfl
  · split at runs
    · obtain ⟨⟨middle, rawData, stall⟩, answer, runs⟩ := Transition.bind_eq_ok.mp runs
      simp only [pure, Except.pure] at runs
      split at runs <;> obtain ⟨rfl, _⟩ := Prod.mk.injEq .. ▸ Except.ok.inj runs <;> rfl
    · split at runs
      · obtain ⟨stall, rfl⟩ := store_stall runs
        rfl
      · obtain ⟨rfl, _⟩ := Prod.mk.injEq .. ▸ Except.ok.inj runs
        rfl

namespace Pass

variable {p : Pass id σ}

theorem Valid.flag_last (valid : p.Valid) (coherent : p.start.Coherent) (present : p.runs = true) :
    p.finished.dbWordStalled = (ExceptStage.arrive p.arrived).dbWordStalled := by
  have arrives := valid.arrives coherent.enabled
  obtain ⟨ht, control, _, ⟨fetch, _⟩ | ⟨_, _, same, _⟩ | ⟨_, _, _, committed⟩⟩ :=
    valid.finish_cases arrives.enabled
  · rw [arrives.fetchStalled] at fetch
    simp [runs, fetch] at present
  · exact HwThread.of_control HwThread.dbWordStalled (fun _ => rfl) (control.trans same)
  · rw [HwThread.of_control HwThread.dbWordStalled (fun _ => rfl) control]
    exact (ExceptStage.commit_commits committed).dbWordStalled

theorem Valid.decoded_fresh (valid : p.Valid) (enabled : p.start.enabled = true)
    (present : p.runs = true) (free : Fetch.isHeld p.start = false) :
    p.decoded.inst = Instruction.ofWord p.word := by
  have decoded := valid.decoded_inst enabled (by simpa [runs] using present)
  obtain ⟨ht, _, inst, _, ⟨held, _⟩ | ⟨_, bits, stall, _, rfl⟩⟩ := valid.fetch_cases enabled
  · rw [free] at held
    cases held
  · have latch : p.decoded.inst = Instruction.ofWord bits := by
      rw [decoded, inst]
      rfl
    rw [word, latch, Instruction.inst_ofWord]

theorem Valid.accessed_inst (valid : p.Valid) (enabled : p.start.enabled = true)
    (present : p.runs = true) (other : p.decoded.inst.selectSpecialRegister ≠ some .dt) :
    p.accessed.inst = (Regacc.operands p.decoded).inst ∧ p.accessed.isNotValid = false := by
  have ready := valid.ready enabled
  have still : p.decoded.enabled = true :=
    (ready.unchanged HwThread.enabled (fun _ => rfl) (fun _ => rfl)).trans enabled
  have runs : p.decoded.isNotValid = false := by
    simp only [Pass.runs, Bool.not_eq_true'] at present
    simp [HwThread.isNotValid, still, ready.fetchStalled, present]
  obtain ⟨ht, reads, accessed⟩ := valid.regacc
  obtain ⟨waited, waits, rfl⟩ := (Regacc.behavior_eq_ok runs).mp reads
  rw [Regacc.deadlineInstruction_of_ne other] at waits
  obtain rfl := Except.ok.inj waits
  rw [Regacc.operands_eq] at accessed
  have view : ∀ {α : Type} (f : HwThread id → α), (∀ ht : HwThread id, f ht.pllTick = f ht) →
      (∀ (ht : HwThread id) state trapType,
        f (Regacc.operands { ht with trapped := state, trapType := trapType }) =
          f (Regacc.operands ht)) →
      f p.accessed = f (Regacc.operands p.decoded) := by
    intro α f blind calm
    rw [accessed, p.round.after_eq .regacc f blind]
    exact Regacc.checkDeadline_unchanged (fun ht => f (Regacc.operands ht)) calm p.decoded
  exact ⟨view HwThread.inst (fun _ => rfl) fun _ _ _ => rfl,
    (view HwThread.isNotValid (fun _ => rfl) fun _ _ _ => rfl).trans runs⟩

structure Carries (p : Pass id σ) : Prop where
  regs : p.arrived.regs = p.start.regs
  settings : p.arrived.specRegs.settings = p.start.specRegs.settings
  currWp : p.arrived.specRegs.currWp =
    (p.start.specRegs.currWp + (Instruction.ofWord p.word).incrementWindowPointer) %
      registerWindows
  operation : p.arrived.inst.operation = (Instruction.ofWord p.word).operation

theorem Valid.carries (valid : p.Valid) (coherent : p.start.Coherent) (present : p.runs = true) :
    p.Carries := by
  have ready := valid.ready coherent.enabled
  obtain ⟨absent, _⟩ | ⟨_, waited, _, waits, control, _⟩ := valid.access_cases coherent.enabled
  · rw [absent] at present
    cases present
  have same := valid.arrived_control.1.trans control
  have checked : ∀ {α : Type} (view : HwThread id → α),
      (∀ (ht : HwThread id) state trapType,
        view { ht with trapped := state, trapType := trapType } = view ht) →
      view (Regacc.checkDeadline waited) = view waited :=
    fun view blind => Regacc.checkDeadline_unchanged view blind waited
  have regs := ready.unchanged HwThread.regs (fun _ => rfl) (fun _ => rfl)
  have settings := ready.unchanged (fun ht => ht.specRegs.settings) (fun _ => rfl) (fun _ => rfl)
  have window := ready.unchanged (fun ht => ht.specRegs.currWp) (fun _ => rfl) (fun _ => rfl)
  have increment : waited.inst.incrementWindowPointer =
      (Instruction.ofWord p.word).incrementWindowPointer := by
    rw [waits.operation]
    exact Instruction.of_meaning Instruction.incrementWindowPointer (fun _ => rfl)
      (valid.decoded_latch coherent (by simpa [runs] using present)).meaning
  refine ⟨?_, ?_, ?_, valid.arrived_operation coherent present⟩
  · rw [HwThread.of_control HwThread.regs (fun _ => rfl) same, ← regs, ← waits.regs]
    exact checked HwThread.regs fun _ _ _ => rfl
  · rw [HwThread.of_control (fun ht => ht.specRegs.settings) (fun _ => rfl) same, ← settings]
    calc (Regacc.operands (Regacc.checkDeadline waited)).specRegs.settings
        = (Regacc.checkDeadline waited).specRegs.settings := rfl
      _ = waited.specRegs.settings :=
          checked (fun ht => ht.specRegs.settings) fun _ _ _ => rfl
      _ = p.decoded.specRegs.settings := by rw [waits.specRegs]; rfl
  · rw [HwThread.of_control (fun ht => ht.specRegs.currWp) (fun _ => rfl) same, ← window,
      ← increment]
    calc (Regacc.operands (Regacc.checkDeadline waited)).specRegs.currWp
        = ((Regacc.checkDeadline waited).specRegs.currWp +
            (Regacc.checkDeadline waited).inst.incrementWindowPointer) % registerWindows := rfl
      _ = (waited.specRegs.currWp + waited.inst.incrementWindowPointer) % registerWindows :=
          checked (fun ht => (ht.specRegs.currWp + ht.inst.incrementWindowPointer) %
            registerWindows) fun _ _ _ => rfl
      _ = (p.decoded.specRegs.currWp + waited.inst.incrementWindowPointer) % registerWindows := by
          rw [waits.specRegs]

theorem Valid.accessed_y (valid : p.Valid) (enabled : p.start.enabled = true) :
    p.accessed.specRegs.y = p.start.specRegs.y ∧
      p.arrived.specRegs.y = (Execute.behavior p.accessed).specRegs.y := by
  have still : ∀ stage (ht : HwThread id), (p.round.after stage ht).specRegs.y = ht.specRegs.y :=
    fun stage ht => p.round.after_eq stage (fun ht => ht.specRegs.y) (fun _ => rfl) ht
  constructor
  · obtain ⟨received, fetches, fetched⟩ := valid.fetch
    obtain ⟨accessed, reads, access⟩ := valid.regacc
    have first : received.specRegs.y = p.start.specRegs.y := by
      obtain ⟨_, rfl, _⟩ | ⟨_, bits, stall, _, rfl⟩ := Fetch.behavior_cases enabled fetches <;> rfl
    have second : (Decode.behavior p.fetched).specRegs.y = p.fetched.specRegs.y := by
      unfold Decode.behavior
      split <;> rfl
    have third : accessed.specRegs.y = p.decoded.specRegs.y := by
      obtain ⟨_, rfl⟩ | ⟨_, waited, _, waits, rfl⟩ := Regacc.behavior_cases reads
      · rfl
      · calc (Regacc.operands (Regacc.checkDeadline waited)).specRegs.y
            = (Regacc.checkDeadline waited).specRegs.y := rfl
          _ = waited.specRegs.y :=
              Regacc.checkDeadline_unchanged (fun ht => ht.specRegs.y) (fun _ _ _ => rfl) waited
          _ = p.decoded.specRegs.y := by rw [waits.specRegs]
    rw [access, still, third, valid.decode, still, second, fetched, still, first]
  · obtain ⟨arrived, runs, mem⟩ := valid.mem
    rw [mem, still, Mem.specRegs_behavior runs, valid.execute, still]

end Pass

end PretIss
