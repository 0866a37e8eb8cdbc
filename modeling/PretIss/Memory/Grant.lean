import PretIss.Model.MemoryController
import PretIss.Wheel.Schedule

/-! What the memory controller of the program does, without the bookkeeping of
the wheel: the time slots in which the wheel grants an access, the contents of
the memories, and reads and writes as operations on the contents. -/

namespace PretIss

def slotGranted (cycles : BitVec 32) (tid : ThreadId) : Bool :=
  cycles.toNat % 19 ≤ 5 && tid.val == (1 + cycles.toNat % 114 / 19) % 6

namespace WheeledMem

/-- The wheel as the memory controller sets it up, with no access in progress. -/
structure Constructed (w : WheeledMem) : Prop where
  latD : w.latD = 14
  throughputD : w.throughputD = 4
  memoryWindow : w.memoryWindow = 19
  idle : w.accessing = false

theorem create_constructed : (create (memDelay - 1) burstDelay).Constructed where
  latD := rfl
  throughputD := rfl
  memoryWindow := rfl
  idle := rfl

/-- The wheel once an access of so many words has been started. -/
def start (w : WheeledMem) (addr : Word) (numWords : BitVec 32) : WheeledMem :=
  { w with remainingCycles := 14 + 4 * (numWords - 1), requestedAddr := addr }

theorem Constructed.start {w : WheeledMem} (built : w.Constructed) (addr : Word)
    (numWords : BitVec 32) : (w.start addr numWords).Constructed where
  latD := built.latD
  throughputD := built.throughputD
  memoryWindow := built.memoryWindow
  idle := built.idle

theorem Constructed.behavior {w : WheeledMem} (built : w.Constructed) :
    w.behavior.Constructed := by
  unfold WheeledMem.behavior
  split
  · exact ⟨built.latD, built.throughputD, built.memoryWindow, built.idle⟩
  · exact built

@[simp] theorem behavior_mem (w : WheeledMem) : w.behavior.mem = w.mem := by
  unfold WheeledMem.behavior
  split <;> rfl

theorem divides_constructed {w : WheeledMem} (built : w.Constructed) (cycles : BitVec 32) :
    w.divides cycles = true := by
  have length : w.memoryWindow.toNat = 19 := congrArg BitVec.toNat built.memoryWindow
  exact divides_of_room (by omega) (by omega) (by omega) cycles

theorem currentThread_constructed {w : WheeledMem} (built : w.Constructed)
    (cycles : BitVec 32) :
    w.currentThread cycles = ((1 + cycles.toNat % 114 / 19) % 6 : Nat) := by
  have length : w.memoryWindow.toNat = 19 := congrArg BitVec.toNat built.memoryWindow
  have place := windowCycle_lt (by omega) (by omega) (by omega) cycles (w := w)
  rw [currentThread_early (by omega) (by omega) (by omega) cycles (by omega), length]
  rfl

theorem isScheduled_constructed {w : WheeledMem} (built : w.Constructed) (cycles : BitVec 32)
    (acc : AccessorType) (tid : ThreadId) :
    w.isScheduled cycles acc tid.val = slotGranted cycles tid := by
  rw [Bool.eq_iff_iff]
  simp only [isScheduled, currentThread_constructed built, getDelay, built.latD,
    built.throughputD, built.memoryWindow, slotGranted, maxWords]
  by_cases turn : tid.val = (1 + cycles.toNat % 114 / 19) % 6
  · simp [turn, BitVec.le_def]
  · have turn' : (tid.val : Int) ≠ ((1 + cycles.toNat % 114 / 19) % 6 : Nat) := by
      exact_mod_cast turn
    rw [if_pos turn']
    simp [turn]

theorem isStalledHelper_constructed {w : WheeledMem} (built : w.Constructed)
    (cycles : BitVec 32) (acc : AccessorType) (tid : ThreadId) (addr : Word) (numWords : BitVec 32)
    (delay : (14 + 4 * (numWords - 1)).sle 0 = false) :
    w.isStalledHelper cycles acc tid.val addr numWords =
      .ok (if slotGranted cycles tid then w.start addr numWords else w,
        !slotGranted cycles tid) := by
  have divides := divides_constructed built cycles
  have scheduled := isScheduled_constructed built cycles acc tid
  have turn : slotGranted cycles tid = true → (tid.val : Int) = w.currentThread cycles := by
    intro granted
    rw [currentThread_constructed built]
    simp only [slotGranted, Bool.and_eq_true, beq_iff_eq] at granted
    exact_mod_cast granted.2
  cases granted : slotGranted cycles tid with
  | false =>
      rw [granted] at scheduled
      simp [isStalledHelper, divides, scheduled, built.idle, pure, Except.pure]
  | true =>
      rw [granted] at scheduled
      have turn := turn granted
      have total : w.getDelay acc numWords = 14 + 4 * (numWords - 1) := by
        rw [getDelay, built.latD, built.throughputD]
      rw [← total] at delay
      rw [start, ← total]
      simpa [isStalledHelper, divides, ← turn, scheduled, built.idle, pure, Except.pure] using delay

theorem read_constructed {w : WheeledMem} (built : w.Constructed) (cycles : BitVec 32)
    (tid : ThreadId) (addr : Word) :
    ∃ w', w.read cycles tid.val addr = .ok (w', w.mem.read addr, !slotGranted cycles tid) ∧
      w'.mem = w.mem ∧ w'.Constructed := by
  have answer := isStalledHelper_constructed built cycles .global tid addr 1 (by decide)
  refine ⟨if slotGranted cycles tid then w.start addr 1 else w, ?_, ?_, ?_⟩
  · change w.isStalledHelper cycles .global tid.val addr 1 = _ at answer
    simp only [read, isStalled, answer, bind, Except.bind, pure, Except.pure]
    split <;> rfl
  · split <;> rfl
  · split
    · exact built.start addr 1
    · exact built

theorem write_constructed {w : WheeledMem} (built : w.Constructed) (cycles : BitVec 32)
    (tid : ThreadId) (addr data : Word) :
    ∃ w', w.write cycles tid.val addr data = .ok (w', !slotGranted cycles tid) ∧
      w'.mem = (if slotGranted cycles tid then w.mem.addAddress addr data else w.mem) ∧
      w'.Constructed := by
  have answer := isStalledHelper_constructed built cycles .global tid addr 1 (by decide)
  change w.isStalledHelper cycles .global tid.val addr 1 = _ at answer
  cases granted : slotGranted cycles tid with
  | false =>
      refine ⟨w, ?_, rfl, built⟩
      rw [write, isStalled, answer, granted]
      rfl
  | true =>
      have started := built.start addr 1
      refine ⟨{ w.start addr 1 with mem := w.mem.addAddress addr data }, ?_, rfl, ?_⟩
      · rw [write, isStalled, answer, granted]
        rfl
      · exact ⟨started.latD, started.throughputD, started.memoryWindow, started.idle⟩

theorem readBurst_constructed {w : WheeledMem} (built : w.Constructed) (cycles : BitVec 32)
    (tid : ThreadId) (startAddr : Word) (numWords : BitVec 32)
    (delay : (14 + 4 * (numWords - 1)).sle 0 = false) :
    ∃ w', w.readBurst cycles tid.val startAddr numWords =
        .ok (w', (burstAddrs startAddr numWords).map w.mem.read, !slotGranted cycles tid) ∧
      w'.mem = w.mem ∧ w'.Constructed := by
  have answer := isStalledHelper_constructed built cycles .burst tid startAddr numWords delay
  refine ⟨if slotGranted cycles tid then w.start startAddr numWords else w, ?_, ?_, ?_⟩
  · simp only [readBurst, isStalledBurst, answer, bind, Except.bind, pure, Except.pure]
    split <;> rfl
  · split <;> rfl
  · split
    · exact built.start startAddr numWords
    · exact built

end WheeledMem

end PretIss
