import PretIss.Machine.Shared
import PretIss.Machine.Timed
import PretIss.Machine.Turn
import PretIss.Thread.Counters

/-! A pass of a thread beside the sequential machine: the thread waits for the instruction
that is due, keeps a load or a store that waits, or takes the machine a step on. -/

namespace PretIss

open Isolation (SameContents)
open Sparc (State Ordinary memoryOp)
open Sparc.State (Same Admissible)
open Core.History (fetchCall)

variable {t : ThreadId} {words : Set Location}

theorem Sparc.same_stateOf (ht : HwThread t) {m₁ m₂ : Contents}
    (same : SameContents t words m₁ m₂) : Same t words (stateOf ht m₁) (stateOf ht m₂) :=
  ⟨rfl, rfl, rfl, same⟩

theorem Sparc.State.Same.trans {s₁ s₂ s₃ : State} (first : Same t words s₁ s₂)
    (second : Same t words s₂ s₃) : Same t words s₁ s₃ :=
  ⟨first.counters.trans second.counters, first.regs.trans second.regs,
    first.special.trans second.special, first.memory.trans second.memory⟩

theorem Contents.delay_eq {m₁ m₂ : Contents} (same : SameContents t words m₁ m₂) (addr : Word)
    (turn pass : Nat) : m₁.delay t addr turn pass = m₂.delay t addr turn pass := by
  rw [delay, delay, same.place]

namespace Sparc.State

variable {s : State} {pass : Nat}

theorem completed_access (access : IsAccess (s.word t)) : s.completed t pass =
    s.fetched t pass + s.memory.delay t (Mem.alignedAddr (s.address (s.word t))) (dataTurn t)
      (s.fetched t pass) := by
  obtain ⟨operation, known⟩ := memoryOp_of_access access
  rw [completed, known]
  rfl

theorem completed_quiet (ordinary : Ordinary (s.word t) = true) (quiet : ¬ IsAccess (s.word t)) :
    s.completed t pass = s.fetched t pass := by
  rw [completed, memoryOp_of_quiet ordinary quiet]
  rfl

end Sparc.State

namespace Core.History

/-- The machine of a thread after some instructions, with its time. -/
def timed (h : History) (t : ThreadId) (k : Nat) : Sparc.Timed :=
  (Sparc.Timed.next t)^[k] ⟨Sparc.stateOf ((h.state 0).pool t) (h.contents 0), 0⟩

theorem timed_succ (h : History) (t : ThreadId) (k : Nat) :
    h.timed t (k + 1) = (h.timed t k).next t :=
  Function.iterate_succ_apply' ..

structure Keeps (x : Sparc.Timed) (ht : HwThread t) (pass : Nat) : Prop where
  word : ht.inst.inst = x.state.word t
  asks : ht.inst.writeRegisters = (Instruction.ofWord (x.state.word t)).writeRegisters
  access : IsAccess (x.state.word t)
  served : pass + x.state.memory.delay t (Mem.alignedAddr (x.state.address (x.state.word t)))
    (Sparc.dataTurn t) pass = x.state.completed t x.pass

def Due (x : Sparc.Timed) (ht : HwThread t) (pass : Nat) : Prop :=
  (Fetch.isHeld ht = false ∧ x.state.fetched t pass = x.state.fetched t x.pass) ∨
    (Fetch.isHeld ht = true ∧ Keeps x ht pass)

/-- What a thread is in a pass, when it has committed so many instructions. -/
structure Follows (h : History) (t : ThreadId) (words : Set Location) (m k : Nat) : Prop where
  steady : ((h.state (fetchCall t m)).pool t).Steady
  idle : (h.state (fetchCall t m)).held t = none
  counts : ((h.state (fetchCall t m)).pool t).cntInstr = BitVec.ofNat 32 k
  few : k ≤ m
  since : (h.timed t k).pass ≤ m
  same : Same t words
    (Sparc.stateOf ((h.state (fetchCall t m)).pool t) (h.contents (fetchCall t m)))
    (h.timed t k).state
  due : Due (h.timed t k) ((h.state (fetchCall t m)).pool t) m

/-- The instruction of a pass is the one that the machine has, and it is to commit in the pass
that its time says. -/
structure Given (x : Sparc.Timed) (p : Pass t MemoryController) (m : Nat) : Prop where
  runs : p.runs = true
  word : p.word = x.state.word t
  asks : p.decoded.inst.writeRegisters = p.asked.writeRegisters
  served : IsAccess p.word → m + x.state.memory.delay t
    (Mem.alignedAddr (x.state.address (x.state.word t))) (Sparc.dataTurn t) m =
      x.state.completed t x.pass
  fresh : ¬ IsAccess p.word → Fetch.isHeld p.start = false ∧ x.state.completed t x.pass = m

section

variable {h : History} {run : Run t MemoryController} {m k : Nat}
  (secluded : h.Private t words) (passes : h.Passes run) (complete : m < run.length)

include secluded passes complete

theorem Private.advance (finds : h.Finds words (fetchCall t m) (run.entry m))
    (asks : (run.entry m).requests = false) :
    (h.state (fetchCall t (m + 1))).held t = none ∧
      (run.entry m).finished = (h.state (fetchCall t (m + 1))).pool t ∧
      SameContents t words (run.entry m).memory.contents (h.contents (fetchCall t (m + 1))) := by
  have makes := passes.makes m complete
  have bound := passes.bound complete
  have next : fetchCall t (m + 1) = fetchCall t m + 5 + 1 := by
    unfold fetchCall
    omega
  have quiet : (h.state (fetchCall t m + 5)).ask t = none := by
    rw [ask, passes.requests_eq complete, asks]
    rfl
  have engine : (h.state (fetchCall t m + 5)).atEngine.held t = none := by
    rw [passes.held_atEngine secluded.built (by omega), quiet, finds.idle]
    rfl
  have away := (h.occupies secluded.short 5 (show fetchCall t m + 5 ≤ h.length by omega)).away (j := 4)
    (by decide)
  rw [next]
  refine ⟨?_, makes.finished, ?_⟩
  · rw [h.held_succ secluded.built (by omega), engine]
    split <;> rfl
  · rw [finds.left]
    exact secluded.call (by omega) engine away

variable (follows : h.Follows t words m k)

include follows

theorem Follows.finds : h.Finds words (fetchCall t m) (run.entry m) :=
  have bound := passes.bound complete
  secluded.finds bound (fun i => h.occupies secluded.short i (by omega)) (passes.makes m complete)
    follows.idle

theorem Follows.sees : (∃ mem, (run.entry m).round.fetchMemory.Holds mem ∧
      Same t words (Sparc.stateOf (run.entry m).start mem) (h.timed t k).state) ∧
    ∃ mem, (run.entry m).round.memory.Holds mem ∧
      Same t words (Sparc.stateOf (run.entry m).start mem) (h.timed t k).state := by
  have finds := follows.finds secluded passes complete
  have view : ∀ mem, SameContents t words (h.contents (fetchCall t m)) mem →
      Same t words (Sparc.stateOf (run.entry m).start mem) (h.timed t k).state := by
    intro mem same
    rw [(passes.makes m complete).start]
    exact (Sparc.same_stateOf _ same.symm).trans follows.same
  obtain ⟨first, fetch, sameFetch⟩ := finds.fetch
  obtain ⟨second, data, sameData⟩ := finds.data
  exact ⟨⟨first, fetch, view first sameFetch⟩, second, data, view second sameData⟩

omit secluded in
theorem Follows.start : (run.entry m).start.Steady ∧
    Due (h.timed t k) (run.entry m).start m := by
  rw [(passes.makes m complete).start]
  exact ⟨follows.steady, follows.due⟩

theorem Follows.runs_iff (free : Fetch.isHeld (run.entry m).start = false) :
    (run.entry m).runs = true ↔ (h.timed t k).state.memory.delay t
      (h.timed t k).state.counters.pc (Sparc.fetchTurn t) m = 0 := by
  obtain ⟨⟨mem, holds, same⟩, _⟩ := follows.sees secluded passes complete
  have makes := passes.makes m complete
  have bound := passes.bound complete
  have short := secluded.short
  have pc : (run.entry m).start.pc = (h.timed t k).state.counters.pc :=
    congrArg DelayedTransfer.Counters.pc same.counters
  rw [makes.valid.runs_eq (run.coherent complete).enabled makes.instructionMemory holds free,
    (h.counters (by omega)).2, pc, ← Contents.delay_eq same.memory]
  exact Contents.granted_iff_delay (Sparc.slotGranted_fetch t (by omega))

theorem Follows.given (admissible : Admissible t words (h.timed t k).state)
    (runs : (run.entry m).runs = true) : Given (h.timed t k) (run.entry m) m := by
  obtain ⟨steady, ⟨free, fetched⟩ | ⟨held, keeps⟩⟩ := follows.start passes complete
  · obtain ⟨⟨mem, holds, same⟩, _⟩ := follows.sees secluded passes complete
    have makes := passes.makes m complete
    have none := (follows.runs_iff secluded passes complete free).mp runs
    have now : (h.timed t k).state.fetched t (h.timed t k).pass = m := by
      rw [← fetched, State.fetched, none, Nat.add_zero]
    have word : (run.entry m).word = (h.timed t k).state.word t :=
      (makes.valid.fetches (run.coherent complete).enabled makes.instructionMemory holds runs
        free).trans (same.word admissible.fetch)
    refine ⟨runs, word, makes.valid.asks_of_free (run.coherent complete) runs free, ?_, ?_⟩
    · intro access
      rw [State.completed_access (word ▸ access), now]
    · intro quiet
      rw [State.completed_quiet admissible.ordinary (word ▸ quiet)]
      exact ⟨free, now⟩
  · have valid := run.valid m complete
    have word : (run.entry m).word = (h.timed t k).state.word t :=
      (valid.held_word (run.coherent complete) held).2.trans keeps.word
    have asks := keeps.asks
    rw [← keeps.word] at asks
    exact ⟨runs, word, valid.asks_of_held (run.coherent complete) held asks,
      fun _ => keeps.served, fun quiet => absurd (word ▸ keeps.access) quiet⟩

end

section

variable {h : History} {run : Run t MemoryController} {m k : Nat}
  (secluded : h.Private t words) (passes : h.Passes run) (complete : m < run.length)

include secluded passes complete

theorem Private.follow (finds : h.Finds words (fetchCall t m) (run.entry m))
    (asks : (run.entry m).requests = false) (steady : (run.entry m).finished.Steady)
    (counts : (run.entry m).finished.cntInstr = BitVec.ofNat 32 k) (few : k ≤ m + 1)
    (since : (h.timed t k).pass ≤ m + 1)
    (same : Same t words (Sparc.stateOf (run.entry m).finished (run.entry m).memory.contents)
      (h.timed t k).state)
    (due : Due (h.timed t k) (run.entry m).finished (m + 1)) : h.Follows t words (m + 1) k := by
  obtain ⟨idle, finished, memory⟩ := secluded.advance passes complete finds asks
  rw [finished] at steady counts same due
  exact ⟨steady, idle, counts, few, since, (Sparc.same_stateOf _ memory.symm).trans same, due⟩

variable (follows : h.Follows t words m k)

include follows

theorem Follows.stay (asks : (run.entry m).requests = false)
    (steady : (run.entry m).finished.Steady)
    (idles : ExceptStage.reachesCommit (run.entry m).arrived = false)
    (state : ∀ mem, Sparc.stateOf (run.entry m).finished mem =
      Sparc.stateOf (run.entry m).start mem)
    (memory : ∀ mem, (run.entry m).round.memory.Holds mem → (run.entry m).memory.Holds mem)
    (due : Due (h.timed t k) (run.entry m).finished (m + 1)) : h.Follows t words (m + 1) k := by
  obtain ⟨_, mem, holds, same⟩ := follows.sees secluded passes complete
  have counts : (run.entry m).finished.cntInstr = BitVec.ofNat 32 k := by
    rw [(run.valid m complete).cntInstr_finished, idles, (passes.makes m complete).start,
      follows.counts]
    exact BitVec.add_zero _
  refine secluded.follow passes complete (follows.finds secluded passes complete) asks steady counts
    (Nat.le_succ_of_le follows.few) (Nat.le_succ_of_le follows.since) ?_ due
  rw [state, (memory mem holds).contents]
  exact same

theorem Follows.step (asks : (run.entry m).requests = false)
    (steady : (run.entry m).finished.Steady) (commits : (run.entry m).commits = true)
    (free : Fetch.isHeld (run.entry m).finished = false)
    (done : (h.timed t k).state.completed t (h.timed t k).pass = m)
    (same : Same t words (Sparc.stateOf (run.entry m).finished (run.entry m).memory.contents)
      ((h.timed t k).state.step t)) : h.Follows t words (m + 1) (k + 1) := by
  have reaches : ExceptStage.reachesCommit (run.entry m).arrived = true := by
    simp only [Pass.commits, Bool.and_eq_true] at commits
    exact commits.1
  have counts : (run.entry m).finished.cntInstr = BitVec.ofNat 32 (k + 1) := by
    rw [(run.valid m complete).cntInstr_finished, reaches, (passes.makes m complete).start,
      follows.counts, BitVec.ofNat_add]
    rfl
  have pass : (h.timed t (k + 1)).pass = m + 1 := by
    rw [timed_succ, Sparc.Timed.next, done]
  refine secluded.follow passes complete (follows.finds secluded passes complete) asks steady counts
    (Nat.succ_le_succ follows.few) pass.le ?_ (Or.inl ⟨free, by rw [pass]⟩)
  rw [timed_succ]
  exact same

theorem Follows.absent (absent : (run.entry m).runs = false) : h.Follows t words (m + 1) k := by
  have valid := run.valid m complete
  obtain ⟨start, due⟩ := follows.start passes complete
  obtain ⟨steady, free, commits, state⟩ := Pass.Steady.absent valid start absent
  have idles : ExceptStage.reachesCommit (run.entry m).arrived = false := by
    by_contra reaches
    rw [Bool.not_eq_false] at reaches
    rw [Pass.runs_of_reachesCommit (valid.arrives start.coherent.enabled) reaches] at absent
    cases absent
  have memory := valid.memory_absent start.coherent absent
  refine follows.stay secluded passes complete ?_ steady idles state (fun mem holds => memory ▸ holds)
    ?_
  · rw [Pass.requests, commits, Bool.false_and]
  · obtain ⟨now, fetched⟩ | ⟨held, _⟩ := due
    · left
      refine ⟨free, ?_⟩
      have waits : (h.timed t k).state.memory.delay t (h.timed t k).state.counters.pc
          (Sparc.fetchTurn t) m ≠ 0 := by
        rw [Ne, ← follows.runs_iff secluded passes complete now, absent]
        exact Bool.false_ne_true
      have later := Contents.delay_succ waits
      rw [← fetched, State.fetched, State.fetched]
      omega
    · rw [(valid.held_word start.coherent held).1] at absent
      cases absent

variable (admissible : Admissible t words (h.timed t k).state)
  (given : Given (h.timed t k) (run.entry m) m)

include admissible given

theorem Follows.quiet (quiet : ¬ IsAccess (run.entry m).word) : h.Follows t words (m + 1) (k + 1) := by
  have valid := run.valid m complete
  obtain ⟨start, _⟩ := follows.start passes complete
  obtain ⟨_, mem, holds, same⟩ := follows.sees secluded passes complete
  obtain ⟨free, done⟩ := given.fresh quiet
  have ordinary : Ordinary (run.entry m).word = true := given.word ▸ admissible.ordinary
  have asks := valid.unasked start.coherent given.runs (Sparc.settles_ofWord ordinary)
  obtain ⟨steady, ⟨commits, freed⟩ | ⟨_, access, _⟩⟩ :=
    Pass.Steady.present valid start given.runs (Sparc.settles_ofWord ordinary)
  · have fresh : (run.entry m).Fresh := ⟨⟨valid, start.coherent, commits, start.single, ordinary⟩,
      free, quiet⟩
    have tracks : ((run.entry m).before mem).Tracks (run.entry m).word :=
      same.tracks (given.word ▸ admissible.tracks)
    refine follows.step secluded passes complete asks steady commits freed done ?_
    rw [fresh.memory, holds.contents, fresh.exec mem tracks, State.step, ← given.word]
    exact same.exec _ (given.word ▸ admissible.load)
  · exact absurd access quiet

/-- A load or a store commits when its slot comes, and is kept until then. -/
theorem Follows.access (access : IsAccess (run.entry m).word) :
    h.Follows t words (m + 1) k ∨ h.Follows t words (m + 1) (k + 1) := by
  have valid := run.valid m complete
  have makes := passes.makes m complete
  have bound := passes.bound complete
  have short := secluded.short
  obtain ⟨start, _⟩ := follows.start passes complete
  obtain ⟨_, mem, holds, same⟩ := follows.sees secluded passes complete
  have ordinary : Ordinary (run.entry m).word = true := given.word ▸ admissible.ordinary
  have asks := valid.unasked start.coherent given.runs (Sparc.settles_ofWord ordinary)
  have moves : (run.entry m).Moves mem (BitVec.ofNat 32 (fetchCall t m + 4)) :=
    ⟨valid, start.coherent, given.runs, access, start.single,
      by rw [makes.dataMem, (h.counters (by omega)).2], holds⟩
  have served := moves.served
  have address : ((run.entry m).before mem).address (run.entry m).word =
      (h.timed t k).state.address ((h.timed t k).state.word t) := by
    rw [← given.word]
    exact same.address _
  -- It is granted when nothing is left to wait for.
  have granted : (run.entry m).arrived.memoryStalled = false ↔ (h.timed t k).state.memory.delay t
      (Mem.alignedAddr ((h.timed t k).state.address ((h.timed t k).state.word t)))
      (Sparc.dataTurn t) m = 0 := by
    rw [served.stalled, Bool.not_eq_false', address, ← Contents.delay_eq same.memory]
    exact Contents.granted_iff_delay (Sparc.slotGranted_data t (by omega))
  have due := given.served access
  obtain ⟨steady, ⟨commits, freed⟩ | ⟨idles, _, stalled⟩⟩ :=
    Pass.Steady.present valid start given.runs (Sparc.settles_ofWord ordinary)
  · right
    have inside : ∀ operation, memoryOp (run.entry m).word = some operation →
        Sparc.inWord operation
          (Mem.addrOffset (((run.entry m).before mem).address (run.entry m).word)) = true := by
      intro operation known
      rw [address]
      exact admissible.inside operation (given.word ▸ known)
    have step : (run.entry m).Access mem (BitVec.ofNat 32 (fetchCall t m + 4)) :=
      { moves with commits, single := start.single, ordinary, asks := given.asks, inside }
    have reaches := commits
    simp only [Pass.commits, ExceptStage.reachesCommit, Bool.and_eq_true, Bool.not_eq_true']
      at reaches
    rw [granted.mp reaches.1.2, Nat.add_zero] at due
    obtain ⟨after, exec⟩ := step.exec
    refine follows.step secluded passes complete asks steady commits freed due.symm ?_
    rw [after.contents, exec, State.step, ← given.word]
    exact same.exec _ (given.word ▸ admissible.load)
  · left
    obtain ⟨held, word, writes, state⟩ :=
      Pass.Steady.stalls valid start given.runs access stalled
    have calm : ExceptStage.reachesCommit (run.entry m).arrived = false := by
      simp [ExceptStage.reachesCommit, stalled]
    refine follows.stay secluded passes complete asks steady calm state
      (fun other found => ?_) (Or.inr ⟨held, word.trans given.word, ?_, given.word ▸ access, ?_⟩)
    · exact ({ moves with holds := found } : (run.entry m).Moves other _).served.waits stalled
    · rw [writes, given.asks, Pass.asked, given.word]
    · have waits := granted.not.mp (by simp [stalled])
      have later := Contents.delay_succ waits
      omega

end

end Core.History

end PretIss
