import PretIss.DoubleWord.Underway

/-! Loads and stores whose accesses stall. A stalled instruction is kept and runs again, and
its stalled passes leave everything as it is, except that each pass of a double word turns
the flag over: after a stall the other half runs. -/

namespace PretIss

open ExceptStage (reachesCommit squashes)

variable {id : ThreadId}

def Pass.reload (p : Pass id σ) (m : Contents) (held : Word) : Word :=
  m.value id (Mem.alignedAddr
    (p.asked.address fun r => if r = p.asked.rd then held else p.start.readReg r))

def HwThread.flags (ht : HwThread id) : List Bool × ExceptionState :=
  ([ht.enabled, ht.fetchStalled, ht.memoryStalled, ht.deadlineStalled, ht.dbWordStalled], ht.trapped)

/-- The passes of one load or store, from the one that fetches it to the one in which it
completes, over memories that nothing else changes. No fetch stalls, and no trap squashes
it. -/
structure Episode (h : History id MemoryController) (m : Contents) : Prop where
  nonempty : 0 < h.length
  coherent : (h.entry 0).start.Coherent
  free : Fetch.isHeld (h.entry 0).start = false
  clear : (h.entry 0).start.dbWordStalled = false
  access : IsAccess (h.entry 0).word
  runs : ∀ n, n < h.length → (h.entry n).runs = true
  word : ∀ n, n < h.length → (h.entry n).word = (h.entry 0).word
  unsquashed : ∀ n, n < h.length → (h.entry n).isSquashed = false
  memories : (h.entry 0).Over m
  later : ∀ n, n + 1 < h.length → ∀ m', (h.entry n).memory.Holds m' → (h.entry (n + 1)).Over m'
  ends : ∀ n, n < h.length → ((h.entry n).completes = true ↔ n + 1 = h.length)

namespace History

/-- The pass in which the instruction completes. -/
def last (h : History id MemoryController) : Pass id MemoryController := h.entry (h.length - 1)

/-- How many accesses are granted before that pass. -/
def granted (h : History id MemoryController) : Nat :=
  Nat.count (fun n => (h.entry n).commits = true) (h.length - 1)

end History

/-- Two executions end alike, apart from timers and counts. -/
structure Agree (p q : Pass id MemoryController) : Prop where
  regs : p.finished.regs = q.finished.regs
  settings : p.finished.specRegs.settings = q.finished.specRegs.settings
  y : p.finished.specRegs.y = q.finished.specRegs.y
  window : p.finished.specRegs.currWp = q.finished.specRegs.currWp
  pc : p.finished.pc = q.finished.pc
  branchSlot : p.finished.branchSlot = q.finished.branchSlot
  flags : p.finished.flags = q.finished.flags
  memory : ∃ m m', p.memory.Holds m ∧ q.memory.Holds m' ∧ m.Same m'

/-- Performing the first half so many times makes no difference to performing it once. -/
structure Unnoticed (p : Pass id MemoryController) (m : Contents) (granted : Nat) : Prop where
  load : IsDoubleWord p.word → p.asked.readMemory = true → p.asked.rd ≠ 0 →
    (p.reload m)^[granted] (p.start.readReg p.asked.rd) = p.reload m (p.start.readReg p.asked.rd)
  store : IsDoubleWord p.word → p.asked.readMemory = false → granted = 0 →
    m.value id (Mem.alignedAddr p.address) = p.start.readReg p.asked.rd

namespace Episode

open Underway (Reached afterHalves)

variable {h : History id MemoryController} {m : Contents}

theorem underway (episode : Episode h m) {n : Nat} (bound : n < h.length) : Underway h m n where
  inside := bound
  coherent := episode.coherent
  free := episode.free
  access := episode.access
  runs := fun i before => episode.runs i (by omega)
  word := fun i before => episode.word i (by omega)
  unsquashed := fun i before => episode.unsquashed i (by omega)
  incomplete := fun i before => by
    apply Bool.eq_false_iff.mpr
    intro completes
    have last := (episode.ends i (by omega)).mp completes
    omega
  memories := episode.memories
  later := fun i before => episode.later i (by omega)

theorem reached (episode : Episode h m) {n : Nat} (bound : n < h.length) : Reached h m n :=
  (episode.underway bound).reached

theorem access_of (episode : Episode h m) {n : Nat} (bound : n < h.length) :
    IsAccess (h.entry n).word :=
  (episode.underway bound).access_of

theorem commits_or_stalls (episode : Episode h m) {n : Nat} (bound : n < h.length) :
    (h.entry n).commits = true ∨ (h.entry n).arrived.memoryStalled = true :=
  (h.valid n bound).stalls_or_commits (episode.reached bound).coherent (episode.runs n bound)
    (episode.access_of bound) (episode.unsquashed n bound)

theorem single_flag (episode : Episode h m) (single : ¬ IsDoubleWord (h.entry 0).word) {n : Nat}
    (bound : n < h.length) : (h.entry n).start.dbWordStalled = false := by
  induction n with
  | zero => exact episode.clear
  | succ n ih =>
      have before : n < h.length := by omega
      rw [h.linked n bound, (h.valid n before).flag_finished (episode.reached before).coherent
        (episode.runs n before), episode.word n before, if_neg single, ih before, Bool.false_and]

theorem flag_after (episode : Episode h m) {n : Nat} (bound : n < h.length) :
    (h.entry n).finished.dbWordStalled =
      (decide (IsDoubleWord (h.entry 0).word) && !(h.entry n).start.dbWordStalled) := by
  rw [(h.valid n bound).flag_finished (episode.reached bound).coherent (episode.runs n bound),
    episode.word n bound]
  by_cases double : IsDoubleWord (h.entry 0).word
  · simp [double]
  · simp [double, episode.single_flag double bound]

def outcome (p : Pass id MemoryController) (m : Contents) (n : Nat) : RegisterFile × Contents :=
  p.asked.effect id p.start.specRegs.currWp (decide (IsDoubleWord p.word)) (afterHalves p m n)

/-- The thread and the memory once an instruction that found the thread in this pass has
completed. -/
structure Completed (p last : Pass id MemoryController) (s : RegisterFile × Contents) : Prop where
  regs : last.finished.regs = s.1
  memory : last.memory.Holds s.2
  settings : last.finished.specRegs.settings = p.start.specRegs.settings
  y : last.finished.specRegs.y = p.start.specRegs.y
  window : last.finished.specRegs.currWp = p.start.specRegs.currWp % registerWindows
  pc : last.finished.pc = ExceptStage.npc p.start
  branchSlot : last.finished.branchSlot = 0
  flags : last.finished.flags = ([true, false, false, false, false], .normal)

/-- An episode ends as the number of accesses that were granted says. -/
theorem completed (episode : Episode h m) :
    Completed (h.entry 0) h.last (outcome (h.entry 0) m h.granted) := by
  have bound : h.length - 1 < h.length := Nat.sub_lt episode.nonempty Nat.one_pos
  have reached := episode.reached bound
  have valid := h.valid _ bound
  have present := episode.runs _ bound
  have access := episode.access_of bound
  have completes : h.last.completes = true :=
    (episode.ends _ bound).mpr (Nat.succ_pred_eq_of_pos episode.nonempty)
  simp only [Pass.completes, Bool.and_eq_true, Bool.not_eq_true'] at completes
  obtain ⟨commits, whole⟩ := completes
  have flag : h.last.finished.dbWordStalled = false :=
    (valid.flag_last reached.coherent present).trans whole
  have second : h.last.start.dbWordStalled = decide (IsDoubleWord (h.entry 0).word) := by
    have turned := episode.flag_after bound
    rw [← History.last, flag] at turned
    by_cases double : IsDoubleWord (h.entry 0).word
    · simpa [double] using turned
    · simpa [double, History.last] using episode.single_flag double bound
  obtain ⟨settings, y, window⟩ :=
    valid.specRegs_finished reached.coherent present access (Or.inl commits)
  obtain ⟨pc, slot⟩ := (valid.counters_access reached.coherent present access commits).2 flag
  obtain ⟨memory, deadline, trap⟩ :=
    valid.free_finished reached.coherent present access commits
  have effect := reached.memories.effect valid reached.coherent present access commits reached.asks
  have same : ∀ s, h.last.asked.effect id h.last.start.specRegs.currWp h.last.start.dbWordStalled s =
      (h.entry 0).asked.effect id (h.entry 0).start.specRegs.currWp
        (decide (IsDoubleWord (h.entry 0).word)) s := by
    intro s
    rw [second]
    exact (episode.underway bound).effect_eq reached _ s
  rw [← History.last, same, History.last, reached.regs] at effect
  constructor
  case regs => exact effect.1
  case memory => exact effect.2
  case settings => exact settings.trans reached.settings
  case y => exact y.trans reached.y
  case window => exact window.trans reached.window
  case pc =>
    refine pc.trans ?_
    rw [ExceptStage.npc, ExceptStage.npc, reached.pc, reached.branchSlot]
  case branchSlot => exact slot
  case flags =>
    have enabled := (valid.coherent_finished reached.coherent).enabled
    have fetch : h.last.finished.fetchStalled = false := by
      have arrives := valid.arrives reached.coherent.enabled
      have last := (valid.finished_latch reached.coherent.enabled).2.1
      rw [arrives.fetchStalled] at last
      refine last.trans ?_
      simpa [Pass.runs] using present
    rw [HwThread.flags, fetch, flag]
    exact congrArg₂ Prod.mk (by rw [History.last, enabled, memory, deadline]) trap

theorem granted_of_single (episode : Episode h m) (single : ¬ IsDoubleWord (h.entry 0).word) :
    h.granted = 0 := by
  rw [History.granted, Nat.count_iff_forall_not]
  intro n before commits
  have bound : n + 1 < h.length := by omega
  have half := (episode.underway bound).half_of_commits (episode.reached (by omega)) commits
  rw [episode.word n (by omega)] at half
  exact single half.2.2

theorem granted_of_free (episode : Episode h m)
    (free : ∀ n, n < h.length → (h.entry n).arrived.memoryStalled = false) :
    h.granted = if IsDoubleWord (h.entry 0).word then 1 else 0 := by
  by_cases double : IsDoubleWord (h.entry 0).word
  swap
  · rw [if_neg double, episode.granted_of_single double]
  have commits : ∀ n, n < h.length → (h.entry n).commits = true := by
    intro n bound
    obtain commits | stalled := episode.commits_or_stalls bound
    · exact commits
    · rw [free n bound] at stalled
      cases stalled
  have completes : ∀ n, n < h.length →
      (h.entry n).completes = (h.entry n).start.dbWordStalled := by
    intro n bound
    have flag := episode.flag_after bound
    rw [(h.valid n bound).flag_last (episode.reached bound).coherent (episode.runs n bound)]
      at flag
    simp [Pass.completes, commits n bound, flag, double]
  have first := completes 0 episode.nonempty
  have more : 1 < h.length := by
    have nonempty := episode.nonempty
    by_contra short
    have last := (episode.ends 0 nonempty).mpr (by omega)
    rw [first, episode.clear] at last
    cases last
  have second : (h.entry 1).completes = true := by
    rw [completes 1 more, h.linked 0 more, episode.flag_after episode.nonempty, episode.clear]
    simp [double]
  have length := (episode.ends 1 more).mp second
  rw [if_pos double, History.granted, ← length, Nat.count_succ]
  simp [commits 0 episode.nonempty]

theorem afterHalves_load {p : Pass id MemoryController} (double : IsDoubleWord p.word)
    (load : p.asked.readMemory = true) (n : Nat) :
    afterHalves p m n =
      (if p.asked.rd = 0 then p.start.regs
        else p.start.regs.setReg p.asked.rd ((p.reload m)^[n] (p.start.readReg p.asked.rd))
          p.start.specRegs.currWp, m) := by
  induction n with
  | zero =>
      have own := RegisterFile.set_get_same p.start.regs p.asked.rd p.start.specRegs.currWp
      split
      · rfl
      · exact congrArg (·, m) own.symm
  | succ n ih =>
      rw [afterHalves, Function.iterate_succ_apply', ← afterHalves, ih,
        (double.effect_load load id _ _ _).1]
      by_cases none : p.asked.rd = 0
      · simp only [if_pos none]
      · simp only [if_neg none, RegisterFile.set_set_same, Pass.address_setReg double,
          Function.iterate_succ_apply']
        rfl

theorem afterHalves_store {p : Pass id MemoryController} (double : IsDoubleWord p.word)
    (store : p.asked.readMemory = false) (n : Nat) :
    (afterHalves p m n).2.Same
      (if n = 0 then m else m.put id (Mem.alignedAddr p.address) (p.start.readReg p.asked.rd)) := by
  induction n with
  | zero => exact Contents.Same.refl m
  | succ n ih =>
      have regs := Underway.afterHalves_regs (m := m) store n
      have step : (afterHalves p m (n + 1)).2 = (afterHalves p m n).2.put id
          (Mem.alignedAddr p.address) (p.start.readReg p.asked.rd) := by
        rw [afterHalves, Function.iterate_succ_apply', ← afterHalves,
          ← Prod.mk.eta (p := afterHalves p m n), (double.effect_store store id _ _ _).1, regs]
        rfl
      rw [step]
      have written := ih.put id (Mem.alignedAddr p.address) (p.start.readReg p.asked.rd)
      split at written
      · exact written
      · apply written.trans
        apply Contents.same_put
        rw [Contents.value_put, if_pos rfl]

theorem outcome_of_double {p : Pass id MemoryController} (double : IsDoubleWord p.word) (n : Nat) :
    outcome p m n = p.asked.effect id p.start.specRegs.currWp true (afterHalves p m n) := by
  rw [outcome, decide_eq_true double]

theorem outcome_load {p : Pass id MemoryController} (double : IsDoubleWord p.word)
    (load : p.asked.readMemory = true) (some : p.asked.rd ≠ 0) (n : Nat) :
    (outcome p m n).1 = (outcome p m 1).1 ↔
      (p.reload m)^[n] (p.start.readReg p.asked.rd) = p.reload m (p.start.readReg p.asked.rd) := by
  rw [outcome_of_double double, outcome_of_double double, afterHalves_load double load,
    afterHalves_load double load, (double.effect_load load id _ _ _).2,
    (double.effect_load load id _ _ _).2]
  simp only [if_neg some, Function.iterate_one]
  constructor
  · intro same
    have bound : p.asked.rd < 32 := double.destination
    have value := congrArg
      (fun regs => regs.getReg p.asked.rd p.start.specRegs.currWp) same
    simpa [RegisterFile.get_set_of_ne _ _ _ _ _ (Nat.succ_ne_self p.asked.rd) (by omega)
      (by omega)] using value
  · intro same
    rw [same]

theorem outcome_store {p : Pass id MemoryController} (double : IsDoubleWord p.word)
    (store : p.asked.readMemory = false) (n : Nat) :
    (outcome p m n).2.Same (outcome p m 1).2 ↔
      (n = 0 → m.value id (Mem.alignedAddr p.address) = p.start.readReg p.asked.rd) := by
  have written : ∀ n, (outcome p m n).2 = (afterHalves p m n).2.put id
      (Mem.alignedAddr (p.address + 4)) (p.start.readReg (p.asked.rd + 1)) := by
    intro n
    have regs := Underway.afterHalves_regs (m := m) store n
    rw [outcome_of_double double, ← Prod.mk.eta (p := afterHalves p m n),
      (double.effect_store store id _ _ _).2, regs]
    rfl
  have first := afterHalves_store (m := m) double store 1
  have many := afterHalves_store (m := m) double store n
  rw [if_neg Nat.one_ne_zero] at first
  rw [written, written]
  constructor
  · rintro same rfl
    have value := same.value id (Mem.alignedAddr p.address)
    rw [Contents.value_put, Contents.value_put, if_neg (Mem.alignedAddr_next p.address),
      if_neg (Mem.alignedAddr_next p.address), first.value, Contents.value_put, if_pos rfl] at value
    exact value
  · intro already
    apply Contents.Same.put
    apply many.trans
    apply Contents.Same.trans _ first.symm
    by_cases none : n = 0
    · rw [if_pos none]
      exact (Contents.same_put (already none)).symm
    · rw [if_neg none]
      exact Contents.Same.refl _

/-- Where the first half is performed so many times and where it is performed once, the
outcome is the same if and only if the difference goes unnoticed. -/
theorem outcome_iff {p : Pass id MemoryController} (double : IsDoubleWord p.word) (n : Nat) :
    ((outcome p m n).1 = (outcome p m 1).1 ∧ (outcome p m n).2.Same (outcome p m 1).2) ↔
      Unnoticed p m n := by
  cases kind : p.asked.readMemory with
  | true =>
      have memory : ∀ n, (outcome p m n).2 = m := by
        intro n
        rw [outcome_of_double double, afterHalves_load double kind,
          (double.effect_load kind id _ _ _).2]
      rw [memory, memory]
      constructor
      · rintro ⟨regs, _⟩
        refine ⟨fun _ _ some => (outcome_load double kind some n).mp regs, fun _ store => ?_⟩
        rw [kind] at store
        cases store
      · intro unnoticed
        refine ⟨?_, Contents.Same.refl m⟩
        by_cases none : p.asked.rd = 0
        · rw [outcome_of_double double, outcome_of_double double, afterHalves_load double kind,
            afterHalves_load double kind]
          simp only [if_pos none]
        · exact (outcome_load double kind none n).mpr (unnoticed.load double kind none)
  | false =>
      have regs : ∀ n, (outcome p m n).1 = p.start.regs := by
        intro n
        rw [outcome_of_double double, ← Prod.mk.eta (p := afterHalves p m n),
          (double.effect_store kind id _ _ _).2, Underway.afterHalves_regs kind n]
      rw [regs, regs, outcome_store double kind]
      constructor
      · rintro ⟨_, already⟩
        refine ⟨fun _ load => ?_, fun _ _ => already⟩
        rw [kind] at load
        cases load
      · intro unnoticed
        exact ⟨rfl, unnoticed.store double kind⟩

/-- A load or a store that stalls ends as one that does not if and only if performing its
first half as often as it was makes no difference. -/
theorem agree_iff_unnoticed {stalled plain : History id MemoryController}
    (episode : Episode stalled m) (unstalled : Episode plain m)
    (same : (stalled.entry 0).start = (plain.entry 0).start)
    (free : ∀ n, n < plain.length → (plain.entry n).arrived.memoryStalled = false) :
    Agree stalled.last plain.last ↔ Unnoticed (stalled.entry 0) m stalled.granted := by
  have word : (plain.entry 0).word = (stalled.entry 0).word := by
    rw [unstalled.memories.fetches (plain.valid 0 unstalled.nonempty) unstalled.coherent.enabled
        (unstalled.runs 0 unstalled.nonempty) unstalled.free, ← same,
      episode.memories.fetches (stalled.valid 0 episode.nonempty) episode.coherent.enabled
        (episode.runs 0 episode.nonempty) episode.free]
  have ends := episode.completed
  have other := unstalled.completed
  have outcomes : ∀ n, outcome (plain.entry 0) m n = outcome (stalled.entry 0) m n := by
    intro n
    rw [outcome, outcome, afterHalves, afterHalves, Pass.asked, Pass.asked, word, same]
  rw [outcomes] at other
  have agree : Agree stalled.last plain.last ↔
      (outcome (stalled.entry 0) m stalled.granted).1 =
          (outcome (stalled.entry 0) m plain.granted).1 ∧
        (outcome (stalled.entry 0) m stalled.granted).2.Same
          (outcome (stalled.entry 0) m plain.granted).2 := by
    constructor
    · intro agree
      obtain ⟨m₁, m₂, first, second, reads⟩ := agree.memory
      rw [ends.memory.unique first, other.memory.unique second]
      exact ⟨ends.regs.symm.trans (agree.regs.trans other.regs), reads⟩
    · rintro ⟨regs, reads⟩
      refine ⟨?_, ?_, ?_, ?_, ?_, ?_, ?_, _, _, ends.memory, other.memory, reads⟩
      · rw [ends.regs, other.regs, regs]
      · rw [ends.settings, other.settings, same]
      · rw [ends.y, other.y, same]
      · rw [ends.window, other.window, same]
      · rw [ends.pc, other.pc, same]
      · rw [ends.branchSlot, other.branchSlot]
      · rw [ends.flags, other.flags]
  rw [agree, unstalled.granted_of_free free, word]
  by_cases double : IsDoubleWord (stalled.entry 0).word
  · rw [if_pos double]
    exact outcome_iff double stalled.granted
  · rw [if_neg double, episode.granted_of_single double]
    constructor
    · intro _
      exact ⟨fun pair => absurd pair double, fun pair => absurd pair double⟩
    · intro _
      exact ⟨rfl, Contents.Same.refl _⟩

section

variable {start : HwThread id} {mc : MemoryController}

def check (start : HwThread id) (mc : MemoryController) (rounds : List (BitVec 32 × BitVec 32))
    (test : Nat → (Nat → Pass id MemoryController) → Bool) : Bool :=
  History.checkAlone start mc rounds fun length entry =>
    !Fetch.isHeld start && !start.dbWordStalled && decide (IsAccess (entry 0).word) &&
      decide (∀ n, n < length → (entry n).runs = true ∧ (entry n).word = (entry 0).word ∧
        (entry n).isSquashed = false ∧ ((entry n).completes = true ↔ n + 1 = length)) &&
      test length entry

theorem exists_of_check (coherent : start.Coherent) (holds : mc.Holds m)
    (rounds : List (BitVec 32 × BitVec 32))
    (test : Nat → (Nat → Pass id MemoryController) → Bool)
    (passed : check start mc rounds test = true) :
    ∃ h : History id MemoryController, Episode h m ∧ (h.entry 0).start = start ∧
      test h.length h.entry = true := by
  obtain ⟨h, alone, starts, passed⟩ := History.exists_alone holds rounds _ passed
  simp only [Bool.and_eq_true, Bool.not_eq_true', decide_eq_true_eq] at passed
  obtain ⟨⟨⟨⟨free, clear⟩, access⟩, every⟩, passed⟩ := passed
  refine ⟨h, ?_, starts, passed⟩
  constructor
  case nonempty => exact alone.nonempty
  case coherent => exact starts ▸ coherent
  case free => exact starts ▸ free
  case clear => exact starts ▸ clear
  case access => exact access
  case runs => exact fun n bound => (every n bound).1
  case word => exact fun n bound => (every n bound).2.1
  case unsquashed => exact fun n bound => (every n bound).2.2.1
  case memories => exact alone.memories
  case later => exact alone.later
  case ends => exact fun n bound => (every n bound).2.2.2

end

/-- A first half that stalls an even number of times is performed once. -/
theorem agree_iff_unnoticed_even :
    ∃ stalled plain : History 0 MemoryController,
      Episode stalled (TwoHalves.loading 4).contents ∧ Episode plain (TwoHalves.loading 4).contents ∧
        (stalled.entry 0).arrived.memoryStalled = true ∧ Agree stalled.last plain.last := by
  obtain ⟨stalled, episode, starts, held⟩ := exists_of_check
    (@HwThread.coherent_reset 0 0 fun _ => 0) (TwoHalves.holds_loading 4)
    [(95, 0), (95, 0), (95, 95), (95, 95)]
    (fun length entry => (entry 0).arrived.memoryStalled &&
      Nat.count (fun n => (entry n).commits = true) (length - 1) == 1) (by decide +kernel)
  obtain ⟨plain, unstalled, begins, free⟩ := exists_of_check
    (@HwThread.coherent_reset 0 0 fun _ => 0) (TwoHalves.holds_loading 4) [(95, 95), (95, 95)]
    (fun length entry => decide (∀ n, n < length → (entry n).arrived.memoryStalled = false))
    (by decide +kernel)
  simp only [Bool.and_eq_true, beq_iff_eq] at held
  obtain ⟨waits, once⟩ := held
  have granted : stalled.granted = 1 := once
  refine ⟨stalled, plain, episode, unstalled, waits, ?_⟩
  apply (agree_iff_unnoticed episode unstalled (starts.trans begins.symm)
    (of_decide_eq_true free)).mpr
  rw [granted]
  exact ⟨fun _ _ _ => rfl, fun _ _ none => absurd none Nat.one_ne_zero⟩

/-- A first half that stalls once is never performed. -/
theorem skipped_half :
    ∃ stalled plain : History 0 MemoryController,
      Episode stalled (TwoHalves.loading 4).contents ∧ Episode plain (TwoHalves.loading 4).contents ∧
        (stalled.entry 0).start = (plain.entry 0).start ∧
        (∀ n, n < plain.length → (plain.entry n).arrived.memoryStalled = false) ∧
        ¬ Agree stalled.last plain.last := by
  obtain ⟨stalled, episode, starts, held⟩ := exists_of_check
    (@HwThread.coherent_reset 0 0 fun _ => 0) (TwoHalves.holds_loading 4) [(95, 0), (95, 95)]
    (fun length entry => (entry (length - 1)).finished.regs.getReg 2 0 == 0) (by decide +kernel)
  obtain ⟨plain, unstalled, begins, free⟩ := exists_of_check
    (@HwThread.coherent_reset 0 0 fun _ => 0) (TwoHalves.holds_loading 4) [(95, 95), (95, 95)]
    (fun length entry => decide (∀ n, n < length → (entry n).arrived.memoryStalled = false) &&
      (entry (length - 1)).finished.regs.getReg 2 0 == 0x100)
    (by decide +kernel)
  simp only [Bool.and_eq_true, beq_iff_eq, decide_eq_true_eq] at held free
  refine ⟨stalled, plain, episode, unstalled, starts.trans begins.symm, free.1, fun agree => ?_⟩
  have same := congrArg (fun regs => regs.getReg 2 0) agree.regs
  have differ := held.symm.trans (same.trans free.2)
  cases differ

end Episode

end PretIss
