import PretIss.Model.MemoryController
import PretIss.Thread.Control

/-! A fetch that stalls. The memory returns the word all the same, and it is put into the
latch; every stage after the fetch passes over the thread, and the next fetch replaces the
latch. Only the test for the end of the simulation looks at the word before. -/

namespace PretIss

variable {id : ThreadId} {σ : Type}

/-- The word that ends the simulation. -/
abbrev endWord : Word := 0x22222222

theorem WheeledMem.isStalled_mem {w w' : WheeledMem} {cycles : BitVec 32} {tid : Int}
    {addr : Word} {stalled : Bool} (answers : w.isStalled cycles tid addr = .ok (w', stalled)) :
    w'.mem = w.mem := by
  simp only [isStalled, isStalledHelper] at answers
  cases divides : w.divides cycles with
  | false => simp [divides, bind, Except.bind, throw, throwThe, MonadExceptOf.throw] at answers
  | true => ?_
  simp only [divides, not_true_eq_false, if_false] at answers
  by_cases turn : tid ≠ w.currentThread cycles ∨
    (¬ w.isScheduled cycles .global tid ∧ ¬ w.accessing)
  · rw [if_pos turn] at answers
    by_cases busy : w.accessing = true
    · rw [if_pos busy] at answers
      cases answers
    · rw [if_neg busy] at answers
      obtain ⟨rfl, -⟩ := Prod.mk.inj (Except.ok.inj answers)
      rfl
  · rw [if_neg turn] at answers
    by_cases busy : w.accessing = true
    · by_cases other : w.requestedAddr = addr
      · simp [busy, other, pure, Except.pure] at answers
        obtain ⟨rfl, -⟩ := answers
        rfl
      · simp [busy, other, bind, Except.bind, throw, throwThe, MonadExceptOf.throw] at answers
    · simp [busy, pure, Except.pure] at answers
      obtain ⟨rfl, -⟩ := answers
      rfl

theorem MemoryController.word_of_stall {cycles : BitVec 32} {mc mc' : MemoryController}
    {addr bits : Word} (stalls : mc.readInst cycles id addr = .ok (mc', bits, true)) :
    bits = mc.mainMem.mem.read addr := by
  simp only [readInst, readData] at stalls
  split at stalls
  · cases stalls
  · split at stalls
    · cases stalls
    · split at stalls
      · obtain ⟨⟨wheel, data, stalled⟩, reads, stalls⟩ := Transition.bind_eq_ok.mp stalls
        obtain ⟨⟨after, answer⟩, answers, reads⟩ := Transition.bind_eq_ok.mp reads
        cases stalls
        cases reads
        rw [WheeledMem.isStalled_mem answers]
      · cases stalls

namespace Round

def afterAll (round : Round σ) (ht : HwThread id) : HwThread id :=
  round.after .except (round.after .mem (round.after .execute (round.after .regacc
    (round.after .decode (round.after .fetch ht)))))

def passedOver (round : Round σ) (start : HwThread id) (bits : Word) : HwThread id :=
  round.afterAll (ExceptStage.countCycles (Fetch.receive (Fetch.countDown start) bits true))

/-- The word is not acted on: the round ends, and only the latch of the thread has the word,
which the next fetch replaces whatever it is. -/
def Ignores (round : Round σ) (start : HwThread id) (bits : Word) : Prop :=
  (∃ p, round.pass start = .ok p ∧ p.finished = round.passedOver start bits ∧
      p.memory = round.memory ∧ p.syncTable = round.syncTable ∧ p.dma = round.dma) ∧
    ∀ {τ : Type} (next : FetchStageIf τ) (memory : τ) (i : Instruction),
      Fetch.behavior next { round.passedOver start bits with inst := i } memory =
        Fetch.behavior next (round.passedOver start bits) memory

theorem countCycles_after (round : Round σ) (stage : Stage) (ht : HwThread id) :
    ExceptStage.countCycles (round.after stage ht) =
      round.after stage (ExceptStage.countCycles ht) := by
  have apart : Function.Commute (@ExceptStage.countCycles id) HwThread.pllTick :=
    fun _ => rfl
  exact apart.iterate_right (round.ticks stage) ht

/-- After a fetch that stalls, the other stages pass over the thread. -/
theorem pass_of_stall {round : Round σ} {start : HwThread id} {memory : σ} {bits : Word}
    (enabled : start.enabled = true)
    (fetches : Fetch.behavior round.instructionMemory start round.fetchMemory =
      .ok (Fetch.receive (Fetch.countDown start) bits true, memory)) :
    ∃ p, round.pass start = .ok p ∧ p.finished = round.passedOver start bits ∧
      p.memory = round.memory ∧ p.syncTable = round.syncTable ∧ p.dma = round.dma := by
  let ht := Fetch.receive (Fetch.countDown start) bits true
  let fetched := round.after .fetch ht
  let decoded := round.after .decode fetched
  let accessed := round.after .regacc decoded
  let executed := round.after .execute accessed
  let arrived := round.after .mem executed
  have stalled : fetched.fetchStalled = true ∧ decoded.fetchStalled = true ∧
      accessed.fetchStalled = true ∧ executed.fetchStalled = true ∧
      arrived.fetchStalled = true := by
    refine ⟨?_, ?_, ?_, ?_, ?_⟩ <;>
      simp only [arrived, executed, accessed, decoded, fetched, fetchStalled_after] <;> rfl
  have passes : ∀ ht : HwThread id, ht.fetchStalled = true → ht.isNotValid = true :=
    fun ht stalled => by simp [HwThread.isNotValid, stalled]
  have kept : ∀ stage (ht : HwThread id), (round.after stage ht).enabled = ht.enabled :=
    fun stage => round.after_eq stage HwThread.enabled fun _ => rfl
  have present : arrived.enabled = true := by
    simp only [arrived, executed, accessed, decoded, fetched, kept]
    exact enabled
  let p : Pass id σ :=
    { round, start, fetched, decoded, accessed, executed, arrived
      finished := round.after .except (ExceptStage.countCycles arrived)
      fetchMemory := memory, memory := round.memory, syncTable := round.syncTable
      dma := round.dma }
  refine ⟨p, Round.pass_eq_ok.mpr ⟨rfl, rfl, ?_⟩, ?_, rfl, rfl, rfl⟩
  · exact
      { fetch := ⟨ht, fetches, rfl⟩
        decode := by rw [Decode.behavior, if_pos (passes _ stalled.1)]
        regacc := ⟨decoded, by rw [Regacc.behavior, if_pos (passes _ stalled.2.1)], rfl⟩
        execute := by rw [Execute.behavior, if_pos (passes _ stalled.2.2.1)]
        mem := ⟨executed, by rw [Mem.behavior, if_pos (passes _ stalled.2.2.2.1)], rfl⟩
        except := ⟨ExceptStage.countCycles arrived,
          ExceptStage.behavior_of_fetchStalled present stalled.2.2.2.2 _ _, rfl⟩ }
  · change round.after .except (ExceptStage.countCycles arrived) = _
    simp only [arrived, executed, accessed, decoded, fetched, countCycles_after]
    rfl

theorem fetch_replaces {ht : HwThread id} (enabled : ht.enabled = true)
    (free : Fetch.isHeld ht = false) {τ : Type} (next : FetchStageIf τ) (memory : τ)
    (i : Instruction) :
    Fetch.behavior next { ht with inst := i } memory = Fetch.behavior next ht memory := by
  generalize changed : { ht with inst := i } = ht'
  have same : ht'.enabled = true ∧ Fetch.isHeld ht' = false ∧ ht'.pc = ht.pc ∧
      ∀ bits stall, Fetch.receive (Fetch.countDown ht') bits stall =
        Fetch.receive (Fetch.countDown ht) bits stall := by
    rw [← changed]
    exact ⟨enabled, free, rfl, fun _ _ => rfl⟩
  simp only [Fetch.behavior, enabled, free, same, not_true_eq_false, Bool.false_eq_true, if_false]

/-- A word whose fetch stalls is not acted on, unless it is the one that ends the simulation. -/
theorem ignores_iff {round : Round MemoryController} {cycles : BitVec 32}
    (port : round.instructionMemory = MemoryController.fetchStageIf cycles) {start : HwThread id}
    (enabled : start.enabled = true) (free : Fetch.isHeld start = false)
    {memory : MemoryController} {bits : Word}
    (stalls : round.fetchMemory.readInst cycles id start.pc = .ok (memory, bits, true)) :
    round.Ignores start bits ↔ round.fetchMemory.mainMem.mem.read start.pc ≠ endWord := by
  have fetches : Fetch.behavior round.instructionMemory start round.fetchMemory =
      if bits = endWord then .error .endSimulation
      else .ok (Fetch.receive (Fetch.countDown start) bits true, memory) := by
    rw [port, Fetch.behavior, if_neg (not_not.mpr enabled), if_neg (by simp [free])]
    simp only [MemoryController.fetchStageIf, stalls, bind, Except.bind]
    by_cases ends : bits = endWord
    · rw [ends]
      rfl
    · have lasts : (Fetch.receive (Fetch.countDown start) bits true).inst.checkEndSim = false :=
        beq_eq_false_iff_ne.mpr ends
      simp only [lasts, ends, Bool.false_eq_true, if_false, pure, Except.pure]
  rw [← MemoryController.word_of_stall stalls]
  constructor
  · rintro ⟨⟨p, passes, -⟩, -⟩ ends
    obtain ⟨rfl, rfl, valid⟩ := pass_eq_ok.mp passes
    obtain ⟨ht, returns, -⟩ := valid.fetch
    rw [fetches, if_pos ends] at returns
    cases returns
  · intro goes
    rw [if_neg goes] at fetches
    refine ⟨pass_of_stall enabled fetches, fun next memory i => ?_⟩
    have view : ∀ {α : Type} (f : HwThread id → α), (∀ ht : HwThread id, f ht.pllTick = f ht) →
        f (round.passedOver start bits) =
          f (ExceptStage.countCycles (Fetch.receive (Fetch.countDown start) bits true)) := by
      intro α f blind
      simp only [passedOver, afterAll, round.after_eq _ f blind]
    exact fetch_replaces ((view HwThread.enabled fun _ => rfl).trans enabled)
      ((view Fetch.isHeld fun _ => rfl).trans free) next memory i

/-- A round in the first cycle, in which the wheel grants nothing to thread 0. -/
def firstCycle (fetchMemory : MemoryController) : Round MemoryController where
  instructionMemory := MemoryController.fetchStageIf 0
  dataMem := MemoryController.memStageIf 0
  fetchMemory := fetchMemory
  memory := fetchMemory
  syncTable := .create
  dma := .create
  ticks := fun _ => 0

/-- A main memory that holds one word, at the start of the memory of thread 0. -/
def holding (bits : Word) : MemoryController :=
  let mc := MemoryController.create
  { mc with mainMem := { mc.mainMem with mem := MemoryUnit.empty.addAddress 0x40000000 bits } }

/-- The word that ends the simulation does so although its fetch stalls. -/
theorem stalled_end_ends :
    (holding endWord).readInst 0 0 0x40000000 = .ok (holding endWord, endWord, true) ∧
      ((firstCycle (holding endWord)).pass (.reset 0 0x40000000 fun _ => 0)).map (fun _ => ()) =
        .error .endSimulation :=
  ⟨rfl, rfl⟩

theorem ignores_iff_nop :
    (firstCycle (holding 0x01000000)).Ignores (.reset 0 0x40000000 fun _ => 0) 0x01000000 ↔
      (holding 0x01000000).mainMem.mem.read 0x40000000 ≠ endWord :=
  have port : (firstCycle (holding 0x01000000)).instructionMemory =
    MemoryController.fetchStageIf 0 := rfl
  have stalls : (holding 0x01000000).readInst 0 0 0x40000000 =
    .ok (holding 0x01000000, 0x01000000, true) := rfl
  ignores_iff port rfl rfl stalls

end Round

end PretIss
