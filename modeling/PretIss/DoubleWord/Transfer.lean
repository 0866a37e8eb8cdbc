import PretIss.DoubleWord.Flag
import PretIss.Thread.Access

/-! What a load and a store of two words move. The second half fetches the word again and
reads its operands again, after the first half has written its register or its word of
memory. -/

namespace PretIss

open ExceptStage (reachesCommit squashes)

variable {id : ThreadId}

theorem IsDoubleWord.access {w : Word} (double : IsDoubleWord w) : IsAccess w := by
  obtain same | same := Instruction.ofWord_dbWord double <;> rw [IsAccess, same]
  · exact Or.inr rfl
  · exact Or.inl rfl

theorem IsDoubleWord.sources {w : Word} (double : IsDoubleWord w) :
    (Instruction.ofWord w).rs1 < 32 ∧ (Instruction.ofWord w).rs2 < 32 := by
  have first : (Sparc.fields w).rs1 < 32 := by
    have field : (Sparc.fields w).rs1 = _ := Sparc.field_eq w 0x0007C000 14 5 rfl
    rw [field]
    exact BitVec.isLt _
  have second : (Sparc.fields w).rs2 < 32 := by
    have field : (Sparc.fields w).rs2 = (w &&& 0x0000001F).toNat := rfl
    rw [field, BitVec.toNat_and]
    exact Nat.lt_of_le_of_lt Nat.and_le_right (by decide)
  obtain same | same := Instruction.ofWord_dbWord double <;> rw [same] <;> exact ⟨first, second⟩

theorem IsDoubleWord.address_congr {w : Word} (double : IsDoubleWord w) {reg reg' : Nat → Word}
    (same : ∀ r, r < 32 → reg r = reg' r) :
    (Instruction.ofWord w).address reg = (Instruction.ofWord w).address reg' := by
  rw [Instruction.address, Instruction.address, same _ double.sources.1, same _ double.sources.2]

theorem IsDoubleWord.destination {w : Word} (double : IsDoubleWord w) :
    (Instruction.ofWord w).rd < 32 := by
  have field : (Sparc.fields w).rd < 32 := by
    have field : (Sparc.fields w).rd = _ := Sparc.field_eq w 0x3E000000 25 5 rfl
    rw [field]
    exact BitVec.isLt _
  obtain same | same := Instruction.ofWord_dbWord double <;> rw [same] <;> exact field

theorem IsDoubleWord.whole {w : Word} (double : IsDoubleWord w) :
    (∀ word offset, (Instruction.ofWord w).readMemory = true →
        (Instruction.ofWord w).loaded word offset = word) ∧
      ∀ value old offset, (Instruction.ofWord w).readMemory = false →
        (Instruction.ofWord w).stored value old offset = value := by
  obtain same | same := Instruction.ofWord_dbWord double <;> rw [same]
  · refine ⟨fun _ _ load => ?_, fun value _ _ _ => ?_⟩
    · cases load
    · change value <<< 0 &&& BitVec.allOnes 32 ||| 0xdeadbeef &&& ~~~BitVec.allOnes 32 = _
      rw [BitVec.shiftLeft_zero, BitVec.and_allOnes, BitVec.not_allOnes, BitVec.and_zero,
        BitVec.or_zero]
  · refine ⟨fun _ _ _ => rfl, fun _ _ _ store => ?_⟩
    cases store

theorem IsDoubleWord.effect_load {w : Word} (double : IsDoubleWord w)
    (load : (Instruction.ofWord w).readMemory = true) (id : ThreadId) (window : BitVec 16)
    (regs : RegisterFile) (m : Contents) :
    (Instruction.ofWord w).effect id window false (regs, m) =
        (if (Instruction.ofWord w).rd = 0 then regs
          else regs.setReg (Instruction.ofWord w).rd (m.value id
            (Mem.alignedAddr ((Instruction.ofWord w).address (regs.getReg · window)))) window, m) ∧
      (Instruction.ofWord w).effect id window true (regs, m) =
        (if (Instruction.ofWord w).rd = 0 then regs
          else regs.setReg ((Instruction.ofWord w).rd + 1) (m.value id (Mem.alignedAddr
            ((Instruction.ofWord w).address (regs.getReg · window) + 4))) window, m) := by
  have same : ∀ addr : Word, addr + 0 = addr := fun addr => BitVec.add_zero addr
  simp only [Instruction.effect, load, if_true, double.whole.1 _ _ load, Bool.false_eq_true,
    if_false, same, Nat.add_zero, and_self]

theorem IsDoubleWord.effect_store {w : Word} (double : IsDoubleWord w)
    (store : (Instruction.ofWord w).readMemory = false) (id : ThreadId) (window : BitVec 16)
    (regs : RegisterFile) (m : Contents) :
    (Instruction.ofWord w).effect id window false (regs, m) =
        (regs, m.put id (Mem.alignedAddr ((Instruction.ofWord w).address (regs.getReg · window)))
          (regs.getReg (Instruction.ofWord w).rd window)) ∧
      (Instruction.ofWord w).effect id window true (regs, m) =
        (regs, m.put id
          (Mem.alignedAddr ((Instruction.ofWord w).address (regs.getReg · window) + 4))
          (regs.getReg ((Instruction.ofWord w).rd + 1) window)) := by
  have same : ∀ addr : Word, addr + 0 = addr := fun addr => BitVec.add_zero addr
  simp only [Instruction.effect, store, Bool.false_eq_true, if_false, double.whole.2 _ _ _ store,
    if_true, same, Nat.add_zero, and_self]

theorem Mem.alignedAddr_eq {addr : Word} (aligned : addr % 4 = 0) : alignedAddr addr = addr := by
  have multiple : addr.toNat % 4 = 0 := by simpa using congrArg BitVec.toNat aligned
  apply BitVec.eq_of_toNat_eq
  rw [alignedAddr, BitVec.toNat_mul, BitVec.toNat_udiv]
  change 4 * (addr.toNat / 4) % 4294967296 = addr.toNat
  omega

theorem Mem.alignedAddr_next (addr : Word) : alignedAddr addr ≠ alignedAddr (addr + 4) := by
  intro same
  have same := congrArg BitVec.toNat same
  have bound := addr.isLt
  rw [alignedAddr, alignedAddr, BitVec.toNat_mul, BitVec.toNat_mul, BitVec.toNat_udiv,
    BitVec.toNat_udiv, BitVec.toNat_add] at same
  change 4 * (addr.toNat / 4) % 4294967296 =
    4 * ((addr.toNat + 4) % 4294967296 / 4) % 4294967296 at same
  omega

/-- Two passes in which a double word commits twice, the second right after the first and
over the memory that the first leaves. Neither stalls, and no trap squashes them. -/
structure TwoHalves (first second : Pass id MemoryController) (m : Contents) : Prop where
  valid : first.Valid
  resumed : second.Valid
  linked : second.start = first.finished
  coherent : first.start.Coherent
  free : Fetch.isHeld first.start = false
  half : first.firstHalf
  commits : second.commits = true
  aligned : first.address % 8 = 0
  memories : first.Over m
  later : ∀ m', first.memory.Holds m' → second.Over m'

namespace Pass

variable {σ : Type}

def loadedRegs (p : Pass id σ) (m : Contents) : RegisterFile :=
  let window := p.start.specRegs.currWp
  let regs :=
    if p.asked.rd = 0 then p.start.regs
    else p.start.regs.setReg p.asked.rd (m.value id p.address) window
  regs.setReg (p.asked.rd + 1) (m.value id (p.address + 4)) window

def storedContents (p : Pass id σ) (m : Contents) : Contents :=
  (m.put id p.address (p.start.readReg p.asked.rd)).put id (p.address + 4)
    (p.start.readReg (p.asked.rd + 1))

def readAgain (p : Pass id σ) (m : Contents) (r : Nat) : Word :=
  if r = p.asked.rd then m.value id p.address else p.start.readReg r

theorem address_setReg {p : Pass id σ} (double : IsDoubleWord p.word) (held : Word) :
    p.asked.address ((p.start.regs.setReg p.asked.rd held p.start.specRegs.currWp).getReg ·
        p.start.specRegs.currWp) =
      p.asked.address fun r => if r = p.asked.rd then held else p.start.readReg r := by
  apply double.address_congr
  intro r small
  by_cases same : r = p.asked.rd
  · rw [if_pos same, same, RegisterFile.get_set_same]
  · have bound : p.asked.rd < 32 := double.destination
    rw [if_neg same, RegisterFile.get_set_of_ne _ _ _ _ _ (Ne.symm same) (by omega) (by omega)]
    rfl

end Pass

/-- Both halves are those of one instruction, which moves its two words, changes nothing
else and moves on once. -/
structure Moves (first second : Pass id MemoryController) (m : Contents) : Prop where
  word : second.word = first.word
  regs : second.finished.regs =
    if first.asked.readMemory then first.loadedRegs m else first.start.regs
  settings : second.finished.specRegs.settings = first.start.specRegs.settings
  y : second.finished.specRegs.y = first.start.specRegs.y
  memory : second.memory.Holds (if first.asked.readMemory then m else first.storedContents m)
  pc : second.finished.pc = ExceptStage.npc first.start
  branchSlot : second.finished.branchSlot = 0

/-- The first half spares what the second half needs: a store its own word, a load the
operands. A load of register 0 also drops its second word. -/
structure Spares (first : Pass id MemoryController) (m : Contents) : Prop where
  store : first.asked.readMemory = false → first.address = first.start.pc →
    first.start.readReg first.asked.rd = first.word
  load : first.asked.readMemory = true → first.asked.rd ≠ 0 →
    m.value id (Mem.alignedAddr (first.asked.address (first.readAgain m) + 4)) =
      m.value id (first.address + 4)
  zero : first.asked.readMemory = true → first.asked.rd = 0 →
    first.start.readReg 1 = m.value id (first.address + 4)

namespace TwoHalves

variable {first second : Pass id MemoryController} {m : Contents}

theorem aligned_first (halves : TwoHalves first second m) :
    Mem.alignedAddr first.address = first.address ∧
      Mem.alignedAddr (first.address + 4) = first.address + 4 := by
  have multiple : first.address.toNat % 8 = 0 := by
    simpa using congrArg BitVec.toNat halves.aligned
  constructor <;> apply Mem.alignedAddr_eq <;> apply BitVec.eq_of_toNat_eq
  · rw [BitVec.toNat_umod]
    change first.address.toNat % 4 = 0
    omega
  · rw [BitVec.toNat_umod, BitVec.toNat_add]
    change (first.address.toNat + 4) % 4294967296 % 4 = 0
    omega

theorem runs_first (halves : TwoHalves first second m) : first.runs = true := by
  have commits := halves.half.2.2
  simp only [Pass.commits, Bool.and_eq_true] at commits
  exact Pass.runs_of_reachesCommit (halves.valid.arrives halves.coherent.enabled) commits.1

/-- The thread as the second half finds it. -/
structure Resumes (first second : Pass id MemoryController) : Prop where
  coherent : second.start.Coherent
  runs : second.runs = true
  free : Fetch.isHeld second.start = false
  flag : second.start.dbWordStalled = true
  pc : second.start.pc = first.start.pc
  next : ExceptStage.npc second.start = ExceptStage.npc first.start
  regs : second.start.regs = first.finished.regs
  window : second.start.specRegs.currWp = first.start.specRegs.currWp % registerWindows

theorem resumes (halves : TwoHalves first second m) : Resumes first second := by
  obtain ⟨double, clear, commits⟩ := halves.half
  have present := halves.runs_first
  have access := double.access
  have coherent : second.start.Coherent := by
    rw [halves.linked]
    exact halves.valid.coherent_finished halves.coherent
  have runs : second.runs = true := by
    have commits := halves.commits
    simp only [Pass.commits, Bool.and_eq_true] at commits
    exact Pass.runs_of_reachesCommit (halves.resumed.arrives coherent.enabled) commits.1
  have flag : first.finished.dbWordStalled = true := by
    rw [halves.valid.flag_finished halves.coherent present, if_pos double, clear]
    rfl
  obtain ⟨pc, slot⟩ := (halves.valid.counters_access halves.coherent present access commits).1 flag
  obtain ⟨memory, deadline, trap⟩ :=
    halves.valid.free_finished halves.coherent present access commits
  obtain ⟨_, _, window⟩ :=
    halves.valid.specRegs_finished halves.coherent present access (Or.inl commits)
  refine ⟨coherent, runs, ?_, ?_, ?_, ?_, ?_, ?_⟩ <;> rw [halves.linked]
  · simp [Fetch.isHeld, memory, deadline, HwThread.isTrapped, trap]
  · exact flag
  · exact pc
  · rw [ExceptStage.npc, ExceptStage.npc, pc, slot]
  · exact window

theorem load_first (halves : TwoHalves first second m) (load : first.asked.readMemory = true) :
    second.Over m ∧ second.word = first.word ∧
      first.finished.regs =
        if first.asked.rd = 0 then first.start.regs
        else first.start.regs.setReg first.asked.rd (m.value id first.address)
          first.start.specRegs.currWp := by
  obtain ⟨double, clear, commits⟩ := halves.half
  have resumes := halves.resumes
  have asks := halves.valid.asks_of_free halves.coherent halves.runs_first halves.free
  obtain ⟨regs, kept⟩ := halves.memories.effect halves.valid halves.coherent halves.runs_first
    double.access commits asks
  rw [clear, (double.effect_load load id _ _ _).1] at regs kept
  have memories := halves.later m kept
  refine ⟨memories, ?_, ?_⟩
  · rw [memories.fetches halves.resumed resumes.coherent.enabled resumes.runs resumes.free,
      resumes.pc, halves.memories.fetches halves.valid halves.coherent.enabled halves.runs_first
        halves.free]
  · rw [regs, ← halves.aligned_first.1]
    rfl

theorem store_first (halves : TwoHalves first second m) (store : first.asked.readMemory = false) :
    second.Over (m.put id first.address (first.start.readReg first.asked.rd)) ∧
      first.finished.regs = first.start.regs ∧
      (second.word = first.word ↔ (first.address = first.start.pc →
        first.start.readReg first.asked.rd = first.word)) := by
  obtain ⟨double, clear, commits⟩ := halves.half
  have resumes := halves.resumes
  have asks := halves.valid.asks_of_free halves.coherent halves.runs_first halves.free
  obtain ⟨regs, kept⟩ := halves.memories.effect halves.valid halves.coherent halves.runs_first
    double.access commits asks
  rw [clear, (double.effect_store store id _ _ _).1] at regs kept
  have stored : first.memory.Holds (m.put id first.address (first.start.readReg first.asked.rd)) := by
    rw [← halves.aligned_first.1]
    exact kept
  have memories := halves.later _ stored
  refine ⟨memories, regs, ?_⟩
  have word := halves.memories.fetches halves.valid halves.coherent.enabled halves.runs_first
    halves.free
  rw [memories.fetches halves.resumed resumes.coherent.enabled resumes.runs resumes.free, resumes.pc,
    Contents.value_put]
  by_cases same : first.start.pc = first.address
  · simp [same]
  · simp [same, Ne.symm same, ← word]

theorem effect_second (halves : TwoHalves first second m) {m' : Contents}
    (memories : second.Over m') (word : second.word = first.word) :
    second.finished.regs = (first.asked.effect id first.start.specRegs.currWp true
        (first.finished.regs, m')).1 ∧
      second.memory.Holds (first.asked.effect id first.start.specRegs.currWp true
        (first.finished.regs, m')).2 := by
  have resumes := halves.resumes
  have access : IsAccess second.word := by
    rw [word]
    exact halves.half.1.access
  have asks := halves.resumed.asks_of_free resumes.coherent resumes.runs resumes.free
  have effect := memories.effect halves.resumed resumes.coherent resumes.runs access halves.commits
    asks
  rw [Pass.asked, word, resumes.flag, resumes.regs, resumes.window, Instruction.effect_mod] at effect
  exact effect

theorem load_second (halves : TwoHalves first second m) (load : first.asked.readMemory = true) :
    second.memory.Holds m ∧ second.finished.regs =
      if first.asked.rd = 0 then first.start.regs
      else (first.start.regs.setReg first.asked.rd (m.value id first.address)
        first.start.specRegs.currWp).setReg (first.asked.rd + 1)
        (m.value id (Mem.alignedAddr (first.asked.address (first.readAgain m) + 4)))
        first.start.specRegs.currWp := by
  have double := halves.half.1
  obtain ⟨memories, word, regs⟩ := halves.load_first load
  obtain ⟨result, kept⟩ := halves.effect_second memories word
  rw [(double.effect_load load id _ _ _).2] at result kept
  refine ⟨kept, result.trans ?_⟩
  rw [regs]
  by_cases none : first.asked.rd = 0
  · simp [none]
  · simp only [if_neg none, Pass.address_setReg double]
    rfl

theorem store_second (halves : TwoHalves first second m) (store : first.asked.readMemory = false)
    (word : second.word = first.word) :
    second.memory.Holds (first.storedContents m) ∧ second.finished.regs = first.start.regs := by
  obtain ⟨memories, regs, _⟩ := halves.store_first store
  obtain ⟨result, kept⟩ := halves.effect_second memories word
  rw [regs, (halves.half.1.effect_store store id _ _ _).2] at result kept
  refine ⟨?_, result⟩
  rw [Pass.storedContents, ← halves.aligned_first.2]
  exact kept

theorem regs_iff (halves : TwoHalves first second m) (load : first.asked.readMemory = true) :
    second.finished.regs = first.loadedRegs m ↔ Spares first m := by
  rw [(halves.load_second load).2, Pass.loadedRegs]
  by_cases none : first.asked.rd = 0
  · simp only [none, Nat.zero_add]
    constructor
    · intro same
      refine ⟨fun store => ?_, fun _ some => absurd none some, fun _ _ => ?_⟩
      · rw [load] at store
        cases store
      · have value := congrArg (fun regs => regs.getReg 1 first.start.specRegs.currWp) same
        simpa [HwThread.readReg] using value
    · intro spares
      rw [← spares.zero load none]
      exact (RegisterFile.set_get_same _ _ _).symm
  · simp only [if_neg none]
    constructor
    · intro same
      refine ⟨fun store => ?_, fun _ _ => ?_, fun _ zero => absurd zero none⟩
      · rw [load] at store
        cases store
      · have value := congrArg
          (fun regs => regs.getReg (first.asked.rd + 1) first.start.specRegs.currWp) same
        simpa using value
    · intro spares
      rw [spares.load load none]

/-- A load and a store of two words move both words exactly if the first half spares what
the second half needs. -/
theorem moves_iff_spares (halves : TwoHalves first second m) :
    Moves first second m ↔ Spares first m := by
  have resumes := halves.resumes
  have again : second.word = first.word → IsAccess second.word := by
    intro word
    rw [word]
    exact halves.half.1.access
  have counters : second.word = first.word →
      second.finished.pc = ExceptStage.npc first.start ∧ second.finished.branchSlot = 0 := by
    intro word
    have flag := halves.resumed.flag_finished resumes.coherent resumes.runs
    rw [word, if_pos halves.half.1, resumes.flag] at flag
    rw [← resumes.next]
    exact (halves.resumed.counters_access resumes.coherent resumes.runs (again word)
      halves.commits).2 flag
  have special : second.word = first.word →
      second.finished.specRegs.settings = first.start.specRegs.settings ∧
        second.finished.specRegs.y = first.start.specRegs.y := by
    intro word
    obtain ⟨before, beforeY, _⟩ := halves.valid.specRegs_finished halves.coherent
      halves.runs_first halves.half.1.access (Or.inl halves.half.2.2)
    obtain ⟨after, afterY, _⟩ := halves.resumed.specRegs_finished resumes.coherent resumes.runs
      (again word) (Or.inl halves.commits)
    rw [halves.linked] at after afterY
    exact ⟨after.trans before, afterY.trans beforeY⟩
  cases kind : first.asked.readMemory with
  | false =>
      obtain ⟨_, _, refetched⟩ := halves.store_first kind
      constructor
      · intro moves
        refine ⟨fun _ => refetched.mp moves.word, fun load => ?_, fun load => ?_⟩ <;>
          rw [kind] at load <;> cases load
      · intro spares
        have word := refetched.mpr (spares.store kind)
        obtain ⟨memory, regs⟩ := halves.store_second kind word
        obtain ⟨pc, slot⟩ := counters word
        obtain ⟨settings, y⟩ := special word
        exact ⟨word, by simpa [kind] using regs, settings, y, by simpa [kind] using memory, pc, slot⟩
  | true =>
      obtain ⟨_, word, _⟩ := halves.load_first kind
      have memory := (halves.load_second kind).1
      obtain ⟨pc, slot⟩ := counters word
      obtain ⟨settings, y⟩ := special word
      have stored := halves.regs_iff kind
      constructor
      · intro moves
        exact stored.mp (by simpa [kind] using moves.regs)
      · intro spares
        exact ⟨word, by simpa [kind] using stored.mpr spares, settings, y,
          by simpa [kind] using memory, pc, slot⟩

end TwoHalves

/-- A round over this controller alone, in the cycles of the fetch and of the access. -/
def Round.alone (mc : MemoryController) (fetch access : BitVec 32) : Round MemoryController where
  instructionMemory := MemoryController.fetchStageIf fetch
  dataMem := MemoryController.memStageIf access
  fetchMemory := mc
  memory := mc
  syncTable := .create
  dma := .create
  ticks := fun _ => 0

theorem Pass.over_alone {p : Pass id MemoryController} {mc : MemoryController} {m : Contents}
    {fetch access : BitVec 32} (alone : p.round = .alone mc fetch access) (holds : mc.Holds m) :
    p.Over m := by
  constructor <;> rw [alone]
  case instructionMemory => exact ⟨fetch, rfl⟩
  case dataMem => exact ⟨access, rfl⟩
  case fetchMemory => exact holds
  case memory => exact holds

namespace History

variable {start : HwThread id} {mc : MemoryController} {m : Contents}

def move (cycles : BitVec 32 × BitVec 32) (s : HwThread id × MemoryController) :
    Except Halt (Pass id MemoryController) :=
  (Round.alone s.2 cycles.1 cycles.2).pass s.1

def ended (p : Pass id MemoryController) : HwThread id × MemoryController := (p.finished, p.memory)

def checkAlone (start : HwThread id) (mc : MemoryController) (rounds : List (BitVec 32 × BitVec 32))
    (test : Nat → (Nat → Pass id MemoryController) → Bool) : Bool :=
  match Timeline.record move ended rounds (start, mc) with
  | .ok (first :: later) => test (later.length + 1) fun n => (first :: later).getD n first
  | _ => false

structure Alone (h : History id MemoryController) (m : Contents) : Prop where
  nonempty : 0 < h.length
  memories : (h.entry 0).Over m
  later : ∀ n, n + 1 < h.length → ∀ m', (h.entry n).memory.Holds m' → (h.entry (n + 1)).Over m'

theorem exists_alone (holds : mc.Holds m) (rounds : List (BitVec 32 × BitVec 32))
    (test : Nat → (Nat → Pass id MemoryController) → Bool)
    (passed : checkAlone start mc rounds test = true) :
    ∃ h : History id MemoryController, Alone h m ∧ (h.entry 0).start = start ∧
      test h.length h.entry = true := by
  unfold checkAlone at passed
  split at passed
  swap
  · cases passed
  rename_i first later returns
  have faithful : ∀ cycles s (p : Pass id MemoryController), move cycles s = .ok p →
      (p.start, p.round.memory) = s := by
    intro cycles s p moves
    obtain ⟨round, begins, _⟩ := Round.pass_eq_ok.mp moves
    rw [round, begins]
    rfl
  obtain ⟨moves, linked, begins⟩ := Timeline.record_linked
    (fun p : Pass id MemoryController => (p.start, p.round.memory)) faithful returns first
  have begins := begins (by simp)
  let h : History id MemoryController :=
    { length := later.length + 1
      entry := fun n => (first :: later).getD n first
      valid := fun n bound => by
        obtain ⟨cycles, moved⟩ := moves n (by simpa using bound)
        exact (Round.pass_eq_ok.mp moved).2.2
      linked := fun n bound => congrArg Prod.fst (linked n (by simpa using bound)) }
  have rounds : ∀ n, n < h.length → ∃ fetch access,
      (h.entry n).round = .alone (h.entry n).round.memory fetch access := by
    intro n bound
    obtain ⟨cycles, moved⟩ := moves n bound
    exact ⟨cycles.1, cycles.2, (Round.pass_eq_ok.mp moved).1⟩
  refine ⟨h, ⟨Nat.succ_pos _, ?_, fun n bound m' kept => ?_⟩, congrArg Prod.fst begins, passed⟩
  · obtain ⟨fetch, cycles, alone⟩ := rounds 0 (Nat.succ_pos _)
    have memory : first.round.memory = mc := congrArg Prod.snd begins
    exact Pass.over_alone alone (memory ▸ holds)
  · obtain ⟨fetch, cycles, alone⟩ := rounds (n + 1) bound
    have handed : (h.entry (n + 1)).round.memory = (h.entry n).memory :=
      congrArg Prod.snd (linked n bound)
    exact Pass.over_alone alone (handed ▸ kept)

end History

namespace TwoHalves

variable {m : Contents}

/-- Whether two rounds run the halves of one double word and the passes meet a test. -/
def check (start : HwThread id) (mc : MemoryController) (cycles : BitVec 32)
    (test : Pass id MemoryController → Pass id MemoryController → Bool) : Bool :=
  match (Round.alone mc cycles cycles).pass start with
  | .ok first =>
      match (Round.alone first.memory cycles cycles).pass first.finished with
      | .ok second =>
          !Fetch.isHeld start && decide first.firstHalf && second.commits &&
            first.address % 8 == 0 && test first second
      | .error _ => false
  | .error _ => false

theorem exists_of_check {start : HwThread id} {mc : MemoryController} (cycles : BitVec 32)
    (coherent : start.Coherent) (holds : mc.Holds m)
    (test : Pass id MemoryController → Pass id MemoryController → Bool)
    (passed : check start mc cycles test = true) :
    ∃ first second, TwoHalves first second m ∧ test first second = true := by
  unfold check at passed
  split at passed
  · rename_i first firstRuns
    split at passed
    · rename_i second secondRuns
      obtain ⟨firstRound, rfl, valid⟩ := Round.pass_eq_ok.mp firstRuns
      obtain ⟨secondRound, linked, resumed⟩ := Round.pass_eq_ok.mp secondRuns
      simp only [Bool.and_eq_true, Bool.not_eq_true', decide_eq_true_eq, beq_iff_eq] at passed
      obtain ⟨⟨⟨⟨free, half⟩, commits⟩, aligned⟩, passed⟩ := passed
      exact ⟨first, second, ⟨valid, resumed, linked, coherent, free, half, commits, aligned,
        Pass.over_alone firstRound holds, fun m' kept => Pass.over_alone secondRound kept⟩, passed⟩
    · cases passed
  · cases passed

/-- A load of two words through r4 or through its own register, and the words it loads. -/
def loading (rs1 : BitVec 5) : MemoryController :=
  let program := 3#2 ++ 2#5 ++ 0x03#6 ++ rs1 ++ 1#1 ++ 0x10#13
  let mem := ((MemoryUnit.empty.addAddress 0 program).addAddress 0x10 0x100).addAddress 0x14 7
  { MemoryController.create with mainMem := { MemoryController.create.mainMem with mem } }

theorem holds_loading (rs1 : BitVec 5) : (loading rs1).Holds (loading rs1).contents where
  contents := rfl
  built := ⟨rfl, rfl, rfl, rfl⟩

/-- Where the address is not in the register that is loaded, both words arrive. -/
theorem moves_iff_spared :
    ∃ first second : Pass 0 MemoryController,
      TwoHalves first second (loading 4).contents ∧ Moves first second (loading 4).contents ∧
        second.finished.readReg 3 = 7 := by
  obtain ⟨first, second, halves, tested⟩ := exists_of_check 95
    (@HwThread.coherent_reset 0 0 fun _ => 0) (holds_loading 4)
    (fun first second => first.asked.readMemory && first.asked.rd == 2 &&
      (loading 4).contents.value 0 (Mem.alignedAddr
          (first.asked.address (first.readAgain (loading 4).contents) + 4)) ==
        (loading 4).contents.value 0 (first.address + 4) &&
      second.finished.readReg 3 == 7) (by decide +kernel)
  simp only [Bool.and_eq_true, beq_iff_eq] at tested
  obtain ⟨⟨⟨load, rd⟩, same⟩, third⟩ := tested
  refine ⟨first, second, halves, halves.moves_iff_spares.mpr ⟨?_, fun _ _ => same, ?_⟩, third⟩
  · intro store
    rw [load] at store
    cases store
  · intro _ zero
    rw [rd] at zero
    cases zero

/-- Where it is, the second word is read from the address that was loaded. -/
theorem overwritten_address :
    ∃ first second : Pass 0 MemoryController,
      TwoHalves first second (loading 2).contents ∧ first.asked.rs1 = first.asked.rd ∧
        first.asked.rd = 2 ∧ ¬ Moves first second (loading 2).contents := by
  obtain ⟨first, second, halves, tested⟩ := exists_of_check 95
    (@HwThread.coherent_reset 0 0 fun _ => 0) (holds_loading 2)
    (fun first second => first.asked.readMemory && first.asked.rs1 == first.asked.rd &&
      first.asked.rd == 2 &&
      second.finished.regs.getReg 3 0 != (first.loadedRegs (loading 2).contents).getReg 3 0)
    (by decide +kernel)
  simp only [Bool.and_eq_true, beq_iff_eq, bne_iff_ne, ne_eq] at tested
  obtain ⟨⟨⟨load, source⟩, rd⟩, other⟩ := tested
  refine ⟨first, second, halves, source, rd, fun moves => other ?_⟩
  rw [moves.regs, load, if_pos rfl]

end TwoHalves

end PretIss
