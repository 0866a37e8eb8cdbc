import PretIss.Memory.Scratchpad

/-! What a thread reads back of what it wrote, while words are moved into and out of its
scratchpad. A word in the scratchpad is written there and not in the main memory; when
it is moved out, or moved in again, what was written is lost. -/

namespace PretIss

open Overlay

/-- The memories, and what a thread should read at each address: what it wrote there
last, or what the main memory held at the start. -/
structure Memories where
  controller : MemoryController
  expected : Word → Word

/-- What a thread asks of the memories in a cycle: a word, a word to be stored, or a
transfer into its scratchpad. -/
inductive WordAccess where
  | read (cycles : BitVec 32) (addr : Word)
  | write (cycles : BitVec 32) (addr data : Word)
  | transfer (cycles : BitVec 32) (source target : Word)

namespace Memories

/-- The request registers of a thread that asks for a transfer. -/
def request (tid : ThreadId) (source target : Word) : Dma :=
  ((Dma.create.setMemSource tid source).setSpmTarget tid target).makeTransfer tid

def step (tid : ThreadId) : WordAccess → Memories → Except Halt Memories
  | .read cycles addr, s => do
      let (controller, _, _) ← s.controller.readData cycles tid addr
      return { s with controller }
  | .write cycles addr data, s => do
      let (controller, stalled) ← s.controller.writeData cycles tid addr data
      return {
        controller
        expected := if stalled then s.expected else Function.update s.expected addr data }
  | .transfer cycles source target, s => do
      let (_, controller) ← Dma.serve cycles (request tid source target) s.controller tid
      return { s with controller }

/-- The wheel of the program, and a scratchpad that holds what the main memory holds. -/
structure Initial (tid : ThreadId) (s : Memories) : Prop where
  built : s.controller.mainMem.Constructed
  copied : ∀ addr data, MemoryController.isMainMem addr = true →
    (s.controller.instScratchpad tid).mem addr = some data →
    data = s.controller.mainMem.mem.read addr
  expected : s.expected = s.controller.mainMem.mem.read

/-- Every read below the mapped registers returns what it should, stalled or not. -/
def Transparent (tid : ThreadId) (s : Memories) : Prop :=
  ∀ cycles addr, MemoryController.isMainMem addr = true → ∃ controller stalled,
    s.controller.readData cycles tid addr = .ok (controller, s.expected addr, stalled)

/-- A transfer that completes moves in or out a word whose copy has been written since
it was made. -/
def Loses (tid : ThreadId) : WordAccess → Memories → Prop
  | .transfer cycles source target, s =>
      slotGranted cycles tid = true ∧ ∃ addr, MemoryController.isMainMem addr = true ∧
        (s.controller.instScratchpad tid).moves source target 0 (Contents.burstLength source) addr ∧
        Dirty (s.controller.instScratchpad tid).copies s.controller.mainMem.mem.read addr
  | _, _ => False

structure Kept (tid : ThreadId) (s : Memories) : Prop where
  built : s.controller.mainMem.Constructed
  value : ∀ addr, MemoryController.isMainMem addr = true →
    s.controller.contents.value tid addr = s.expected addr

variable {tid : ThreadId} {s : Memories}

theorem Kept.holds (kept : Kept tid s) : s.controller.Holds s.controller.contents :=
  ⟨rfl, kept.built⟩

theorem Kept.transparent (kept : Kept tid s) : Transparent tid s := by
  intro cycles addr low
  obtain ⟨after, answer, _⟩ := MemoryController.readData_holds kept.holds cycles tid addr
  rw [kept.value addr low] at answer
  exact ⟨after, _, answer⟩

theorem Initial.kept (initial : Initial tid s) : Kept tid s where
  built := initial.built
  value addr low := by
    rw [Contents.value_eq_view _ tid low, initial.expected]
    by_contra differs
    obtain ⟨data, held, other⟩ := (view_ne_iff addr).mp differs
    change (s.controller.instScratchpad tid).copies addr = some data at held
    unfold L1Scratch.copies at held
    split at held
    · cases held
    · exact other (initial.copied addr data low held)

theorem Kept.read (kept : Kept tid s) {cycles : BitVec 32} {addr : Word} {s' : Memories}
    (runs : step tid (.read cycles addr) s = .ok s') : Kept tid s' := by
  obtain ⟨after, answer, held⟩ := MemoryController.readData_holds kept.holds cycles tid addr
  simp only [step, answer, bind, Except.bind, pure, Except.pure, Except.ok.injEq] at runs
  subst runs
  refine ⟨held.built, fun other low => ?_⟩
  rw [held.contents]
  exact kept.value other low

theorem Kept.write (kept : Kept tid s) {cycles : BitVec 32} {addr data : Word} {s' : Memories}
    (runs : step tid (.write cycles addr data) s = .ok s') : Kept tid s' := by
  obtain ⟨after, answer, held⟩ := MemoryController.writeData_holds kept.holds cycles tid addr data
  simp only [step, answer, bind, Except.bind, pure, Except.pure, Except.ok.injEq] at runs
  subst runs
  refine ⟨held.built, fun other low => ?_⟩
  rw [held.contents]
  cases s.controller.contents.granted cycles tid addr with
  | false => exact kept.value other low
  | true =>
      simp only [Bool.not_true, Bool.false_eq_true, if_false, if_true]
      rw [Contents.value_put _ tid addr data other, Function.update_apply, kept.value other low]

theorem Kept.transfer (kept : Kept tid s) {cycles : BitVec 32} {source target : Word} {s' : Memories}
    (runs : step tid (.transfer cycles source target) s = .ok s') :
    s'.expected = s.expected ∧ s'.controller.Holds
      (if slotGranted cycles tid then s.controller.contents.transfer tid source target
        else s.controller.contents) := by
  obtain ⟨after, answer, held⟩ :=
    Dma.serve_holds kept.holds cycles (request tid source target) tid
  simp only [step, answer, bind, Except.bind, pure, Except.pure, Except.ok.injEq] at runs
  subst runs
  refine ⟨rfl, ?_⟩
  have busy : (request tid source target).transferComplete tid = .busy := by
    simp [request, Dma.makeTransfer, Dma.setTransferState]
  have registers : (request tid source target).memSourceReg tid = source ∧
      (request tid source target).spmTargetReg tid = target := by
    simp [request, Dma.makeTransfer, Dma.setTransferState, Dma.setMemSource, Dma.setSpmTarget]
  simpa [busy, registers.1, registers.2] using held

/-- A thread sees the words of a transfer change exactly where a copy is lost. -/
theorem Kept.transfer_value (kept : Kept tid s) {cycles : BitVec 32} {source target : Word}
    {s' : Memories} (runs : step tid (.transfer cycles source target) s = .ok s') :
    (∀ addr, MemoryController.isMainMem addr = true →
      s'.controller.contents.value tid addr = s'.expected addr) ↔
      ¬ Loses tid (.transfer cycles source target) s := by
  obtain ⟨expected, held⟩ := kept.transfer runs
  rw [expected]
  cases granted : slotGranted cycles tid with
  | false =>
      rw [granted] at held
      constructor
      · rintro _ ⟨starts, _⟩
        rw [granted] at starts
        cases starts
      · intro _ addr low
        rw [held.contents]
        exact kept.value addr low
  | true =>
      rw [granted] at held
      have seen : ∀ addr, MemoryController.isMainMem addr = true →
          (s'.controller.contents.value tid addr = s.expected addr ↔
            ¬ ((s.controller.instScratchpad tid).moves source target 0
                (Contents.burstLength source) addr ∧
              Dirty (s.controller.instScratchpad tid).copies s.controller.mainMem.mem.read addr)) := by
        intro addr low
        rw [← kept.value addr low, held.contents, Contents.value_eq_view _ tid low,
          Contents.value_eq_view _ tid low]
        exact (s.controller.contents.transfer_refreshes tid source target).view_iff addr
      constructor
      · rintro same ⟨_, addr, low, lost⟩
        exact (seen addr low).mp (same addr low) lost
      · intro safe addr low
        exact (seen addr low).mpr fun lost => safe ⟨granted, addr, low, lost⟩

theorem Kept.step (kept : Kept tid s) {access : WordAccess} {s' : Memories}
    (safe : ¬ Loses tid access s) (runs : Memories.step tid access s = .ok s') : Kept tid s' := by
  cases access with
  | read cycles addr => exact kept.read runs
  | write cycles addr data => exact kept.write runs
  | transfer cycles source target =>
      exact ⟨(kept.transfer runs).2.built, (kept.transfer_value runs).mpr safe⟩

theorem Kept.exposed (kept : Kept tid s) {access : WordAccess} {s' : Memories}
    (lost : Loses tid access s) (runs : Memories.step tid access s = .ok s') :
    ¬ Transparent tid s' := by
  cases access with
  | read cycles addr => exact lost.elim
  | write cycles addr data => exact lost.elim
  | transfer cycles source target =>
      intro transparent
      refine absurd lost ((kept.transfer_value runs).mp fun addr low => ?_)
      obtain ⟨controller, stalled, answer⟩ := transparent cycles addr low
      have holds : s'.controller.Holds s'.controller.contents := ⟨rfl, (kept.transfer runs).2.built⟩
      obtain ⟨after, value, _⟩ := MemoryController.readData_holds holds cycles tid addr
      rw [answer] at value
      simp only [Except.ok.injEq, Prod.mk.injEq] at value
      exact value.2.1.symm

theorem returns (built : s.controller.mainMem.Constructed) (access : WordAccess) :
    ∃ s', step tid access s = .ok s' ∧ s'.controller.mainMem.Constructed := by
  have holds : s.controller.Holds s.controller.contents := ⟨rfl, built⟩
  cases access with
  | read cycles addr =>
      obtain ⟨after, answer, held⟩ := MemoryController.readData_holds holds cycles tid addr
      simp only [step, answer]
      exact ⟨_, rfl, held.built⟩
  | write cycles addr data =>
      obtain ⟨after, answer, held⟩ := MemoryController.writeData_holds holds cycles tid addr data
      simp only [step, answer]
      exact ⟨_, rfl, held.built⟩
  | transfer cycles source target =>
      obtain ⟨after, answer, held⟩ := Dma.serve_holds holds cycles (request tid source target) tid
      simp only [step, answer]
      exact ⟨_, rfl, held.built⟩

/-- The scratchpad is transparent along a run exactly if no transfer of the run loses a
word. -/
theorem transparent_iff (tid : ThreadId) (accesses : List WordAccess) (s : Memories)
    (initial : Initial tid s) :
    (∀ state ∈ Transition.visited (step tid) accesses s, Transparent tid state) ↔
      ∀ entry ∈ Transition.trail (step tid) accesses s, ¬ Loses tid entry.1 entry.2 := by
  obtain ⟨final, runs, _⟩ := Transition.returns_run (step tid)
    (fun s => s.controller.mainMem.Constructed) (fun _ _ => True)
    (fun access _ _ built => returns built access) initial.built (fun _ _ => trivial)
  exact Transition.visited_iff_run (step tid) (Kept tid) (Transparent tid) (Loses tid)
    (fun _ _ => True) (fun _ kept => kept.transparent)
    (fun _ _ _ _ kept safe runs => kept.step safe runs)
    (fun _ _ _ _ kept lost runs => kept.exposed lost runs) initial.kept (fun _ _ => trivial) runs

/-- Memories in which nothing has been stored and nothing copied. -/
def blank : Memories where
  controller := .create
  expected := fun _ => 0

theorem initial_blank (tid : ThreadId) : Initial tid blank where
  built := WheeledMem.create_constructed
  copied _ _ _ held := by cases held
  expected := rfl

/-- A word that is moved in and then written. -/
def written : List WordAccess := [.transfer 0 0x1000 0, .write 0 0x1000 1, .read 0 0x1000]

theorem written_keeps : ∀ entry ∈ Transition.trail (step 1) written blank,
    ¬ Loses 1 entry.1 entry.2 := by
  rw [written, Transition.trail, List.forall_mem_cons]
  constructor
  · rintro ⟨_, addr, _, _, data, held, _⟩
    unfold L1Scratch.copies at held
    split at held <;> cases held
  · intro entry member
    split at member
    · have label := Transition.mem_of_mem_trail (step 1) entry member
      simp only [List.mem_cons, List.not_mem_nil, or_false] at label
      obtain label | label := label <;> rw [label] <;> exact id
    · cases member

/-- It reads as it was written. -/
theorem transparent_iff_kept :
    ∃ final, Transition.run (step 1) written blank = .ok final ∧ Transparent 1 final := by
  obtain ⟨final, runs, _⟩ := Transition.returns_run (step 1)
    (fun s => s.controller.mainMem.Constructed) (fun _ _ => True)
    (fun access _ _ built => returns built access) (initial_blank 1).built fun _ _ => trivial
  exact ⟨final, runs, (transparent_iff 1 written blank (initial_blank 1)).mpr written_keeps final
    (Transition.final_mem_visited (step 1) runs)⟩

def evicted : List WordAccess :=
  [.transfer 0 0x1000 0, .write 0 0x1000 1, .transfer 0 0x2000 0]

def rereads (s : Memories) : Bool :=
  match s.controller.readData 0 1 0x1000 with
  | .ok (_, data, _) => data == s.expected 0x1000
  | .error _ => false

theorem writes_lost :
    ¬ ∀ (tid : ThreadId) (accesses : List WordAccess) (s : Memories), Initial tid s →
      ∀ state ∈ Transition.visited (step tid) accesses s, Transparent tid state := by
  intro always
  have final : (match Transition.run (step 1) evicted blank with
    | .ok s => rereads s
    | .error _ => true) = false := by decide +kernel
  split at final
  · rename_i s runs
    obtain ⟨_, _, answer⟩ := always 1 evicted blank (initial_blank 1) s
      (Transition.final_mem_visited (step 1) runs) 0 0x1000 (by decide)
    rw [rereads, answer] at final
    simp at final
  · cases final

end Memories

end PretIss
