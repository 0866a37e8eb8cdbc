import PretIss.DoubleWord.Transfer

/-! A load or a store on its way to completion. A pass of it that the memory stalls leaves
everything as it is, and one that commits without completing it has done the first half of
a double word. What the registers and the memory are later is told by the number of first
halves. -/

namespace PretIss

open ExceptStage (reachesCommit squashes)

variable {id : ThreadId}

/-- Memories in which every read gives the same: an absent word is one that holds zero. -/
structure Contents.Same (m m' : Contents) : Prop where
  spm : m.spm = m'.spm
  wordAt : ∀ location, m.wordAt location = m'.wordAt location

namespace Contents

variable {m m' : Contents}

theorem Same.value (same : m.Same m') (tid : ThreadId) (addr : Word) :
    m.value tid addr = m'.value tid addr := by
  have place : m.place tid addr = m'.place tid addr := by rw [Contents.place, Contents.place, same.spm]
  rw [Contents.value, Contents.value, place, same.spm]
  cases m'.place tid addr with
  | none => rfl
  | some location => exact same.wordAt location

theorem read_addAddress (unit : MemoryUnit) (addr data other : Word) :
    (unit.addAddress addr data).read other = if other = addr then data else unit.read other := by
  rw [MemoryUnit.read, MemoryUnit.addAddress_apply]
  split <;> rfl

/-- Writing a word that is there already changes nothing. -/
theorem same_put {tid : ThreadId} {addr data : Word} (already : m.value tid addr = data) :
    (m.put tid addr data).Same m := by
  subst already
  have unchanged : ∀ (unit : MemoryUnit) (addr other : Word),
      (unit.addAddress addr (unit.read addr)).read other = unit.read other := by
    intro unit addr other
    rw [read_addAddress]
    split
    · rename_i same
      rw [same]
    · rfl
  unfold put value
  rcases place : m.place tid addr with _ | location
  · have found : (m.spm tid).isAddrInSpm addr = true := by
      by_contra absent
      rw [Contents.place, if_neg absent] at place
      split at place <;> cases place
    have held : ((m.spm tid).mem addr).isSome = true := by
      rw [L1Scratch.isAddrInSpm] at found
      split at found
      · cases found
      · exact found
    have still : (m.spm tid).mem.addAddress addr ((m.spm tid).mem.read addr) = (m.spm tid).mem := by
      obtain ⟨word, stored⟩ := Option.isSome_iff_exists.mp held
      funext other
      rw [MemoryUnit.addAddress_apply, MemoryUnit.read, stored]
      split
      · rename_i same
        rw [same, stored]
        rfl
      · rfl
    refine ⟨?_, fun _ => rfl⟩
    change Function.update m.spm tid { m.spm tid with
      mem := (m.spm tid).mem.addAddress addr ((m.spm tid).mem.read addr) } = m.spm
    rw [still]
    exact Function.update_eq_self tid m.spm
  · cases location <;> refine ⟨rfl, fun location => ?_⟩ <;> cases location <;>
      first | rfl | exact unchanged _ _ _

theorem Same.put (same : m.Same m') (tid : ThreadId) (addr data : Word) :
    (m.put tid addr data).Same (m'.put tid addr data) := by
  have place : m.place tid addr = m'.place tid addr := by
    rw [Contents.place, Contents.place, same.spm]
  have reads : ∀ (unit unit' : MemoryUnit) (addr : Word), (∀ other, unit.read other = unit'.read other) →
      ∀ other, (unit.addAddress addr data).read other = (unit'.addAddress addr data).read other := by
    intro unit unit' addr agree other
    rw [read_addAddress, read_addAddress, agree]
  unfold Contents.put
  rw [place]
  rcases m'.place tid addr with _ | location
  · refine ⟨?_, same.wordAt⟩
    rw [setSpm, setSpm, same.spm]
  · cases location <;> refine ⟨same.spm, fun location => ?_⟩ <;> cases location
    · exact reads _ _ _ (fun other => same.wordAt (.main other)) _
    · exact same.wordAt (.mapped _)
    · exact same.wordAt (.main _)
    · exact reads _ _ _ (fun other => same.wordAt (.mapped other)) _

theorem Same.refl (m : Contents) : m.Same m := ⟨rfl, fun _ => rfl⟩

theorem Same.symm (same : m.Same m') : m'.Same m :=
  ⟨same.spm.symm, fun location => (same.wordAt location).symm⟩

theorem Same.trans {m'' : Contents} (same : m.Same m') (also : m'.Same m'') : m.Same m'' :=
  ⟨same.spm.trans also.spm, fun location => (same.wordAt location).trans (also.wordAt location)⟩

end Contents

theorem MemoryController.Holds.unique {mc : MemoryController} {m m' : Contents}
    (holds : mc.Holds m) (also : mc.Holds m') : m = m' :=
  holds.contents.symm.trans also.contents

namespace Pass

variable {σ : Type}

def completes (p : Pass id σ) : Bool :=
  p.commits && !(ExceptStage.arrive p.arrived).dbWordStalled

variable {p : Pass id σ}

theorem Valid.stalls_or_commits (valid : p.Valid)
    (coherent : p.start.Coherent) (present : p.runs = true) (access : IsAccess p.word)
    (unsquashed : p.isSquashed = false) : p.commits = true ∨ p.arrived.memoryStalled = true := by
  have arrives := valid.arrives coherent.enabled
  have fetch : p.arrived.fetchStalled = false := by
    rw [arrives.fetchStalled]
    simpa [runs] using present
  cases stalled : p.arrived.memoryStalled with
  | true => exact Or.inr rfl
  | false =>
      left
      have reaches : reachesCommit p.arrived = true := by
        simp [reachesCommit, arrives.enabled, fetch, stalled,
          (valid.undelayed coherent present access.accesses.straight.waitless).2]
      simp only [isSquashed, reaches, Bool.true_and] at unsquashed
      simp [commits, reaches, unsquashed]

theorem Valid.half_of_commits (valid : p.Valid) (coherent : p.start.Coherent)
    (present : p.runs = true) (commits : p.commits = true) (incomplete : p.completes = false) :
    p.start.dbWordStalled = false ∧ p.finished.dbWordStalled = true ∧ IsDoubleWord p.word := by
  have flag : p.finished.dbWordStalled = true := by
    rw [valid.flag_last coherent present]
    simpa [completes, commits] using incomplete
  have through : p.arrived.deadlineStalled = false := by
    simp only [Pass.commits, reachesCommit, Bool.and_eq_true, Bool.not_eq_true'] at commits
    exact commits.1.1.2
  have turned := valid.flag_finished coherent present
  rw [flag, through, Bool.and_false] at turned
  split at turned
  · rename_i double
    exact ⟨by simpa using turned, flag, double⟩
  · cases turned

end Pass

theorem windows_mod (window : BitVec 16) :
    window % registerWindows % registerWindows = window % registerWindows := by
  apply BitVec.eq_of_toNat_eq
  rw [BitVec.toNat_umod, BitVec.toNat_umod, Nat.mod_mod]


/-- Passes of one load or store from the one that fetches it, over memories that nothing
else changes. So many of them neither complete nor squash it. -/
structure Underway (h : History id MemoryController) (m : Contents) (n : Nat) : Prop where
  inside : n < h.length
  coherent : (h.entry 0).start.Coherent
  free : Fetch.isHeld (h.entry 0).start = false
  access : IsAccess (h.entry 0).word
  runs : ∀ i, i ≤ n → (h.entry i).runs = true
  word : ∀ i, i ≤ n → (h.entry i).word = (h.entry 0).word
  unsquashed : ∀ i, i < n → (h.entry i).isSquashed = false
  incomplete : ∀ i, i < n → (h.entry i).completes = false
  memories : (h.entry 0).Over m
  later : ∀ i, i < n → ∀ m', (h.entry i).memory.Holds m' → (h.entry (i + 1)).Over m'

namespace Underway

variable {h : History id MemoryController} {m : Contents} {n : Nat}

def afterHalves (p : Pass id MemoryController) (m : Contents) (n : Nat) : RegisterFile × Contents :=
  (p.asked.effect id p.start.specRegs.currWp false)^[n] (p.start.regs, m)

theorem afterHalves_regs {p : Pass id MemoryController} (store : p.asked.readMemory = false)
    (n : Nat) : (afterHalves p m n).1 = p.start.regs := by
  induction n with
  | zero => rfl
  | succ n ih =>
      rw [afterHalves, Function.iterate_succ_apply', ← afterHalves, ← ih, Instruction.effect, store,
        if_neg Bool.false_ne_true]

/-- The thread at the start of a pass. -/
structure Reached (h : History id MemoryController) (m : Contents) (n : Nat) : Prop where
  coherent : (h.entry n).start.Coherent
  regs : (h.entry n).start.regs =
    (afterHalves (h.entry 0) m (Nat.count (fun n => (h.entry n).commits = true) n)).1
  memories : (h.entry n).Over
    (afterHalves (h.entry 0) m (Nat.count (fun n => (h.entry n).commits = true) n)).2
  pc : (h.entry n).start.pc = (h.entry 0).start.pc
  branchSlot : (h.entry n).start.branchSlot = (h.entry 0).start.branchSlot
  settings : (h.entry n).start.specRegs.settings = (h.entry 0).start.specRegs.settings
  y : (h.entry n).start.specRegs.y = (h.entry 0).start.specRegs.y
  window : (h.entry n).start.specRegs.currWp % registerWindows =
    (h.entry 0).start.specRegs.currWp % registerWindows
  asks : (h.entry n).decoded.inst.writeRegisters = (h.entry n).asked.writeRegisters

theorem earlier (underway : Underway h m (n + 1)) : Underway h m n where
  inside := Nat.lt_of_succ_lt underway.inside
  coherent := underway.coherent
  free := underway.free
  access := underway.access
  runs := fun i bound => underway.runs i (Nat.le_succ_of_le bound)
  word := fun i bound => underway.word i (Nat.le_succ_of_le bound)
  unsquashed := fun i bound => underway.unsquashed i (Nat.lt_succ_of_lt bound)
  incomplete := fun i bound => underway.incomplete i (Nat.lt_succ_of_lt bound)
  memories := underway.memories
  later := fun i bound => underway.later i (Nat.lt_succ_of_lt bound)

theorem access_of (underway : Underway h m n) : IsAccess (h.entry n).word := by
  rw [underway.word n le_rfl]
  exact underway.access

theorem reached_zero (underway : Underway h m 0) : Reached h m 0 where
  coherent := underway.coherent
  regs := by simp [afterHalves]
  memories := by simpa [afterHalves] using underway.memories
  pc := rfl
  branchSlot := rfl
  settings := rfl
  y := rfl
  window := rfl
  asks := (h.valid 0 underway.inside).asks_of_free underway.coherent (underway.runs 0 le_rfl)
    underway.free

theorem commits_or_stalls (underway : Underway h m (n + 1)) (reached : Reached h m n) :
    (h.entry n).commits = true ∨ (h.entry n).arrived.memoryStalled = true :=
  (h.valid n underway.earlier.inside).stalls_or_commits reached.coherent
    (underway.runs n (Nat.le_succ n)) underway.earlier.access_of
    (underway.unsquashed n (Nat.lt_succ_self n))

theorem half_of_commits (underway : Underway h m (n + 1)) (reached : Reached h m n)
    (commits : (h.entry n).commits = true) :
    (h.entry n).start.dbWordStalled = false ∧ (h.entry n).finished.dbWordStalled = true ∧
      IsDoubleWord (h.entry n).word :=
  (h.valid n underway.earlier.inside).half_of_commits reached.coherent
    (underway.runs n (Nat.le_succ n)) commits (underway.incomplete n (Nat.lt_succ_self n))

theorem effect_eq (underway : Underway h m n) (reached : Reached h m n) (second : Bool)
    (s : RegisterFile × Contents) :
    (h.entry n).asked.effect id (h.entry n).start.specRegs.currWp second s =
      (h.entry 0).asked.effect id (h.entry 0).start.specRegs.currWp second s := by
  rw [Pass.asked, Pass.asked, underway.word n le_rfl, ← Instruction.effect_mod, reached.window,
    Instruction.effect_mod]

theorem Reached.moved (reached : Reached h m n) (underway : Underway h m (n + 1)) :
    let s := afterHalves (h.entry 0) m (Nat.count (fun n => (h.entry n).commits = true) (n + 1))
    (h.entry n).finished.regs = s.1 ∧ (h.entry n).memory.Holds s.2 := by
  have valid := h.valid n underway.earlier.inside
  have present := underway.runs n (Nat.le_succ n)
  have access := underway.earlier.access_of
  rw [Nat.count_succ]
  obtain commits | stalled := underway.commits_or_stalls reached
  · have effect := reached.memories.effect valid reached.coherent present access commits reached.asks
    rw [(underway.half_of_commits reached commits).1, underway.earlier.effect_eq reached,
      reached.regs] at effect
    rw [if_pos commits, afterHalves, Function.iterate_succ_apply']
    exact effect
  · have waits : (h.entry n).commits ≠ true := by
      intro commits
      simp [Pass.commits, reachesCommit, stalled] at commits
    rw [if_neg waits, (valid.stalled_finished reached.coherent present access stalled).1]
    exact ⟨reached.regs,
      (reached.memories.accessed valid reached.coherent present access).1 stalled⟩

theorem Reached.stays (reached : Reached h m n) (underway : Underway h m (n + 1)) :
    (h.entry n).finished.pc = (h.entry n).start.pc ∧
      (h.entry n).finished.branchSlot = (h.entry n).start.branchSlot := by
  have valid := h.valid n underway.earlier.inside
  have present := underway.runs n (Nat.le_succ n)
  have access := underway.earlier.access_of
  obtain commits | stalled := underway.commits_or_stalls reached
  · exact (valid.counters_access reached.coherent present access commits).1
      (underway.half_of_commits reached commits).2.1
  · obtain ⟨_, pc, slot, _⟩ := valid.stalled_finished reached.coherent present access stalled
    exact ⟨pc, slot⟩

theorem Reached.asks_next (reached : Reached h m n) (underway : Underway h m (n + 1)) :
    (h.entry (n + 1)).decoded.inst.writeRegisters = (h.entry (n + 1)).asked.writeRegisters := by
  have valid := h.valid n underway.earlier.inside
  have present := underway.runs n (Nat.le_succ n)
  have access := underway.earlier.access_of
  have linked := h.linked n underway.inside
  have coherent : (h.entry (n + 1)).start.Coherent := by
    rw [linked]
    exact valid.coherent_finished reached.coherent
  obtain commits | stalled := underway.commits_or_stalls reached
  · obtain ⟨memory, deadline, trap⟩ :=
      valid.free_finished reached.coherent present access commits
    apply (h.valid (n + 1) underway.inside).asks_of_free coherent (underway.runs (n + 1) le_rfl)
    rw [linked]
    simp [Fetch.isHeld, memory, deadline, HwThread.isTrapped, trap]
  · obtain ⟨_, _, _, held, asks⟩ := valid.stalled_finished reached.coherent present access stalled
    apply (h.valid (n + 1) underway.inside).asks_of_held coherent <;> rw [linked]
    · exact held
    · rw [asks, reached.asks, valid.finished_word reached.coherent present]

theorem Reached.step (reached : Reached h m n) (underway : Underway h m (n + 1)) :
    Reached h m (n + 1) := by
  have valid := h.valid n underway.earlier.inside
  have linked := h.linked n underway.inside
  obtain ⟨settings, y, window⟩ := valid.specRegs_finished reached.coherent
    (underway.runs n (Nat.le_succ n)) underway.earlier.access_of
    (underway.commits_or_stalls reached)
  obtain ⟨regs, holds⟩ := reached.moved underway
  obtain ⟨pc, slot⟩ := reached.stays underway
  constructor
  case memories => exact underway.later n (Nat.lt_succ_self n) _ holds
  case asks => exact reached.asks_next underway
  all_goals rw [linked]
  case coherent => exact valid.coherent_finished reached.coherent
  case regs => exact regs
  case pc => exact pc.trans reached.pc
  case branchSlot => exact slot.trans reached.branchSlot
  case settings => exact settings.trans reached.settings
  case y => exact y.trans reached.y
  case window => rw [window, reached.window, windows_mod]

theorem reached (underway : Underway h m n) : Reached h m n := by
  induction n with
  | zero => exact underway.reached_zero
  | succ n ih => exact (ih underway.earlier).step underway

end Underway

end PretIss
