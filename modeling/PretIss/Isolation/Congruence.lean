import PretIss.Isolation.Commit
import PretIss.Thread.Counters
import PretIss.Thread.Stable

/-! Runs of two cores that differ in one thread only. Whatever relation of threads the stages
keep, the runs keep; so threads that the comparison calls equal stay so, as long as no stage
finds a difference in a field that it reads and the comparison leaves out. -/

namespace PretIss.Core

variable {t : ThreadId}

open Relational (Lifts Along along_of_keeps)

def Differ (R : HwThread t → HwThread t → Prop) (c d : Core) : Prop :=
  ∃ b, d = c.setThread t b ∧ R (c.pool t) b

/-- A relation that no stage breaks, the register access and the last stage under a condition
each. -/
structure StagesKeep (R regacc : HwThread t → HwThread t → Prop)
    (except : HwThread t → HwThread t → SyncTable → Prop) : Prop where
  fetch : ∀ {a b}, R a b → ∀ cycles memory, Lifts (fun r s => R r.1 s.1 ∧ r.2 = s.2)
    (Fetch.behavior (MemoryController.fetchStageIf cycles) a memory)
    (Fetch.behavior (MemoryController.fetchStageIf cycles) b memory)
  decode : ∀ {a b}, R a b → R (Decode.behavior a) (Decode.behavior b)
  regacc : ∀ {a b}, R a b → regacc a b → Lifts R (Regacc.behavior a) (Regacc.behavior b)
  execute : ∀ {a b}, R a b → R (Execute.behavior a) (Execute.behavior b)
  mem : ∀ {a b}, R a b → ∀ cycles memory, Lifts (fun r s => R r.1 s.1 ∧ r.2 = s.2)
    (Mem.behavior (MemoryController.memStageIf cycles) a memory)
    (Mem.behavior (MemoryController.memStageIf cycles) b memory)
  except : ∀ {a b}, R a b → ∀ syncTable dma, except a b syncTable →
    Lifts (fun r s => R r.1 s.1 ∧ r.2 = s.2)
      (ExceptStage.behavior a syncTable dma) (ExceptStage.behavior b syncTable dma)
  pll : ∀ {a b}, R a b → R a.pllTick b.pllTick

/-- The conditions of the stage that works on the thread. -/
def Meets (regacc : HwThread t → HwThread t → Prop)
    (except : HwThread t → HwThread t → SyncTable → Prop) (p : Phase) (c d : Core) : Prop :=
  match p with
  | .regaccStage => c.dToRa = some t → regacc (c.pool t) (d.pool t)
  | .exceptStage => c.memToExcept = some t → except (c.pool t) (d.pool t) c.syncTable
  | _ => True

section

variable {R : HwThread t → HwThread t → Prop} {c : Core} {b : HwThread t}

theorem differ_own {h h' : HwThread t} (related : R h h') :
    Differ R (c.setThread t h) ((c.setThread t b).setThread t h') := by
  refine ⟨h', ?_, by rwa [setThread_own]⟩
  simp [setThread]

theorem differ_away {u : ThreadId} (away : u ≠ t) (related : R (c.pool t) b) (h : HwThread u) :
    Differ R (c.setThread u h) ((c.setThread t b).setThread u h) := by
  refine ⟨b, ?_, ?_⟩
  · simp [setThread, Function.update_comm away]
  · simpa [setThread, Function.update_of_ne away.symm] using related

theorem setThread_pool_ne {u : ThreadId} (away : u ≠ t) : (c.setThread t b).pool u = c.pool u := by
  simp [setThread, Function.update_of_ne away]

variable {regacc : HwThread t → HwThread t → Prop}
  {except : HwThread t → HwThread t → SyncTable → Prop} (keeps : StagesKeep R regacc except)
  (related : R (c.pool t) b)

include keeps related

theorem StagesKeep.exceptStage
    (meets : c.memToExcept = some t → except (c.pool t) b c.syncTable) :
    Lifts (Differ R) (exceptStage c) (exceptStage (c.setThread t b)) := by
  have held : (c.setThread t b).memToExcept = c.memToExcept := rfl
  have table : (c.setThread t b).syncTable = c.syncTable := rfl
  have dma : (c.setThread t b).dma = c.dma := rfl
  simp only [Core.exceptStage, held, table, dma]
  cases latch : c.memToExcept with
  | none => exact .ok ⟨b, rfl, related⟩
  | some u =>
    by_cases own : u = t
    · subst own
      simp only [setThread_own]
      refine (keeps.except related _ _ (meets latch)).bind ?_
      rintro ⟨h, syncTable, dma⟩ ⟨h', _⟩ ⟨next, rfl⟩
      exact .ok (differ_own (c := { c with syncTable, dma }) next)
    · simp only [setThread_pool_ne own]
      refine Lifts.bind (Lifts.refl (fun _ => rfl) _) ?_
      rintro ⟨h, syncTable, dma⟩ _ rfl
      exact .ok (differ_away (c := { c with syncTable, dma }) own related h)

theorem StagesKeep.memoryStage :
    Lifts (Differ R) (memoryStage c) (memoryStage (c.setThread t b)) := by
  have held : (c.setThread t b).exToMem = c.exToMem := rfl
  have cycles : (c.setThread t b).cycles = c.cycles := rfl
  have memory : (c.setThread t b).memoryController = c.memoryController := rfl
  simp only [Core.memoryStage, held, cycles, memory]
  cases latch : c.exToMem with
  | none => exact .ok ⟨b, rfl, related⟩
  | some u =>
    by_cases own : u = t
    · subst own
      simp only [setThread_own]
      refine (keeps.mem related _ _).bind ?_
      rintro ⟨h, memoryController⟩ ⟨h', _⟩ ⟨next, rfl⟩
      exact .ok (differ_own (c := { c with memoryController, memToExcept := some u }) next)
    · simp only [setThread_pool_ne own]
      refine Lifts.bind (Lifts.refl (fun _ => rfl) _) ?_
      rintro ⟨h, memoryController⟩ _ rfl
      exact .ok (differ_away (c := { c with memoryController, memToExcept := some u }) own related h)

theorem StagesKeep.executeStage : Differ R (executeStage c) (executeStage (c.setThread t b)) := by
  have held : (c.setThread t b).raToEx = c.raToEx := rfl
  simp only [Core.executeStage, held]
  cases latch : c.raToEx with
  | none => exact ⟨b, rfl, related⟩
  | some u =>
    by_cases own : u = t
    · subst own
      simp only [setThread_own]
      exact differ_own (c := { c with exToMem := some u }) (keeps.execute related)
    · simp only [setThread_pool_ne own]
      exact differ_away (c := { c with exToMem := some u }) own related _

theorem StagesKeep.regaccStage (meets : c.dToRa = some t → regacc (c.pool t) b) :
    Lifts (Differ R) (regaccStage c) (regaccStage (c.setThread t b)) := by
  have held : (c.setThread t b).dToRa = c.dToRa := rfl
  simp only [Core.regaccStage, held]
  cases latch : c.dToRa with
  | none => exact .ok ⟨b, rfl, related⟩
  | some u =>
    by_cases own : u = t
    · subst own
      simp only [setThread_own]
      refine (keeps.regacc related (meets latch)).bind ?_
      intro h h' next
      exact .ok (differ_own (c := { c with raToEx := some u }) next)
    · simp only [setThread_pool_ne own]
      refine Lifts.bind (Lifts.refl (fun _ => rfl) _) ?_
      rintro h _ rfl
      exact .ok (differ_away (c := { c with raToEx := some u }) own related h)

theorem StagesKeep.decodeStage : Differ R (decodeStage c) (decodeStage (c.setThread t b)) := by
  have held : (c.setThread t b).fToD = c.fToD := rfl
  simp only [Core.decodeStage, held]
  cases latch : c.fToD with
  | none => exact ⟨b, rfl, related⟩
  | some u =>
    by_cases own : u = t
    · subst own
      simp only [setThread_own]
      exact differ_own (c := { c with dToRa := some u }) (keeps.decode related)
    · simp only [setThread_pool_ne own]
      exact differ_away (c := { c with dToRa := some u }) own related _

theorem StagesKeep.fetchStage :
    Lifts (Differ R) (fetchStage c) (fetchStage (c.setThread t b)) := by
  have held : (c.setThread t b).poolToF = c.poolToF := rfl
  have cycles : (c.setThread t b).cycles = c.cycles := rfl
  have memory : (c.setThread t b).memoryController = c.memoryController := rfl
  simp only [Core.fetchStage, held, cycles, memory]
  cases latch : c.poolToF with
  | none => exact .ok ⟨b, rfl, related⟩
  | some u =>
    by_cases own : u = t
    · subst own
      simp only [setThread_own]
      refine (keeps.fetch related _ _).bind ?_
      rintro ⟨h, memoryController⟩ ⟨h', _⟩ ⟨next, rfl⟩
      exact .ok (differ_own (c := { c with memoryController, fToD := some u }) next)
    · simp only [setThread_pool_ne own]
      refine Lifts.bind (Lifts.refl (fun _ => rfl) _) ?_
      rintro ⟨h, memoryController⟩ _ rfl
      exact .ok (differ_away (c := { c with memoryController, fToD := some u }) own related h)

theorem StagesKeep.pllBehavior : Differ R (pllBehavior c) (pllBehavior (c.setThread t b)) := by
  refine ⟨b.pllTick, ?_, keeps.pll related⟩
  simp only [Core.pllBehavior, setThread, Core.mk.injEq, true_and, and_true]
  funext u
  by_cases own : u = t
  · subst own
    simp only [Function.update_self]
    rfl
  · simp only [Function.update_of_ne own]

omit related in
theorem StagesKeep.step (p : Phase) {d : Core} (differ : Differ R c d)
    (meets : Meets regacc except p c d) : Lifts (Differ R) (step p c) (step p d) := by
  obtain ⟨b, rfl, related⟩ := differ
  cases p with
  | exceptStage =>
    exact keeps.exceptStage related fun own => by simpa [setThread_own] using meets own
  | memoryController => exact .ok ⟨b, rfl, related⟩
  | dmaController =>
    change Lifts (Differ R) (Core.dmaController c) (Core.dmaController (c.setThread t b))
    simp only [Core.dmaController]
    refine Lifts.bind (Lifts.refl (fun _ => rfl) _) ?_
    rintro ⟨dma, memoryController⟩ _ rfl
    exact .ok ⟨b, rfl, related⟩
  | memoryStage => exact keeps.memoryStage related
  | executeStage => exact .ok (keeps.executeStage related)
  | regaccStage =>
    exact keeps.regaccStage related fun own => by simpa [setThread_own] using meets own
  | decodeStage => exact .ok (keeps.decodeStage related)
  | fetchStage => exact keeps.fetchStage related
  | threadController => exact .ok ⟨b, rfl, related⟩
  | cycleCounter => exact .ok ⟨b, rfl, related⟩
  | pll => exact .ok (keeps.pllBehavior related)

end

/-- No stage that works on the thread finds a difference in a field that it reads and the
comparison leaves out. -/
def ReadsSame (t : ThreadId) : Phase → Core → Core → Prop :=
  Meets (t := t) (fun a b => a.isNotValid = false → Regacc.ReadsSame a b)
    (fun a b syncTable =>
      ExceptStage.reachesCommit a = true → ExceptStage.ReadsSame a b syncTable)

theorem stagesKeep_alike : StagesKeep (t := t) Alike
    (fun a b => a.isNotValid = false → Regacc.ReadsSame a b)
    (fun a b syncTable =>
      ExceptStage.reachesCommit a = true → ExceptStage.ReadsSame a b syncTable) where
  fetch alike _ memory := Fetch.alike alike _ memory
  decode := Decode.alike
  regacc := Regacc.alike
  execute := Execute.alike
  mem alike _ memory := Mem.alike alike _ memory
  except alike syncTable dma reads := ExceptStage.alike alike syncTable dma reads
  pll := by
    rintro a _ ⟨o, rfl⟩
    exact .of_eq rfl

/-- Two runs of a core with one thread in it or the other: both halt, and alike, or they end in
cores that differ in this thread only, and the comparison calls the two equal. So the memories,
the scratchpads and the barrier table are the same. -/
def Congruent (t : ThreadId) (run : List Phase) (c : Core) (b : HwThread t) : Prop :=
  (∃ halt, Transition.run step run c = .error halt ∧
    Transition.run step run (c.setThread t b) = .error halt) ∨
  ∃ c' b', Transition.run step run c = .ok c' ∧
    Transition.run step run (c.setThread t b) = .ok (c'.setThread t b') ∧
    (c'.pool t).equals b' = true ∧ (c'.pool t).pc = b'.pc

theorem congruent_of_alike {run : List Phase} {c : Core} {b : HwThread t}
    (alike : Alike (c.pool t) b) (reads : Along step (ReadsSame t) run c (c.setThread t b)) :
    Congruent t run c b := by
  have keeps : Lifts (Differ Alike) (Transition.run step run c)
      (Transition.run step run (c.setThread t b)) :=
    Lifts.run (fun p _ _ differ meets => stagesKeep_alike.step p differ meets) ⟨b, rfl, alike⟩ reads
  obtain ⟨halt, first, second⟩ | ⟨c', _, first, second, b', rfl, alike'⟩ := keeps.cases_on
  · exact Or.inl ⟨halt, first, second⟩
  · refine Or.inr ⟨c', b', first, second, HwThread.equals_iff_alike.mpr alike', ?_⟩
    obtain ⟨o, rfl⟩ := alike'
    rfl

/-! Threads that differ in their counters only meet the condition in every run. -/

section Counters

open HwThread (withCounts)

def CountsDiffer (a b : HwThread t) : Prop := ∃ cycles instr, b = a.withCounts cycles instr

theorem stagesKeep_counts : StagesKeep (t := t) CountsDiffer (fun _ _ => True)
    (fun _ _ _ => True) where
  fetch := by
    rintro a _ ⟨cycles, instr, rfl⟩ now memory
    rw [Fetch.behavior_withCounts]
    exact Lifts.of_map (fun r => ⟨⟨cycles, instr, rfl⟩, rfl⟩) _
  decode := by
    rintro a _ ⟨cycles, instr, rfl⟩
    exact ⟨cycles, instr, Decode.behavior_withCounts cycles instr a⟩
  regacc := by
    rintro a _ ⟨cycles, instr, rfl⟩ -
    rw [Regacc.behavior_withCounts]
    exact Lifts.of_map (fun ht => ⟨cycles, instr, rfl⟩) _
  execute := by
    rintro a _ ⟨cycles, instr, rfl⟩
    exact ⟨cycles, instr, Execute.behavior_withCounts cycles instr a⟩
  mem := by
    rintro a _ ⟨cycles, instr, rfl⟩ now memory
    rw [Mem.behavior_withCounts]
    exact Lifts.of_map (fun r => ⟨⟨cycles, instr, rfl⟩, rfl⟩) _
  except := by
    rintro a _ ⟨cycles, instr, rfl⟩ syncTable dma -
    rw [ExceptStage.behavior_withCounts]
    exact Lifts.of_map (fun r => ⟨⟨_, _, rfl⟩, rfl⟩) _
  pll := by
    rintro a _ ⟨cycles, instr, rfl⟩
    exact ⟨cycles, instr, rfl⟩

theorem readsSame_of_counts (p : Phase) (c d : Core) (differ : Differ (t := t) CountsDiffer c d) :
    ReadsSame t p c d := by
  obtain ⟨_, rfl, cycles, instr, rfl⟩ := differ
  cases p with
  | regaccStage =>
    intro own valid
    rw [setThread_own]
    exact ⟨rfl, fun _ => rfl, fun _ => rfl⟩
  | exceptStage =>
    intro own reaches
    rw [setThread_own]
    exact ⟨fun _ _ => rfl, fun _ _ => rfl⟩
  | _ => trivial

theorem along_withCounts (run : List Phase) (c : Core) (cycles instr : BitVec 32) :
    Along step (ReadsSame t) run c (c.setThread t ((c.pool t).withCounts cycles instr)) := by
  refine along_of_keeps (R := Differ CountsDiffer) (fun p c d differ => ?_) readsSame_of_counts run
    ⟨_, rfl, cycles, instr, rfl⟩
  refine stagesKeep_counts.step p differ ?_
  cases p <;> first | exact fun _ => trivial | trivial

end Counters

/-- Equality is a congruence of every run in which no stage finds a difference in a field that
it reads and the comparison leaves out. -/
theorem equals_congruent (t : ThreadId) (run : List Phase) (c : Core) (b : HwThread t)
    (equal : (c.pool t).equals b = true)
    (reads : Along step (ReadsSame t) run c (c.setThread t b)) : Congruent t run c b :=
  congruent_of_alike (HwThread.equals_iff_alike.mp equal) reads

/-- Register 1 becomes 5, and register 2 the word at the start of the program. -/
def loadsItself : List Word := [0x82102005, 0xC4002004]

/-- The program runs alike in a thread that has counted and in one that has not. -/
theorem equals_congruent_counted :
    (∃ c, Transition.run step (phasesOf 18) (running 0 loadsItself) = .ok c ∧
      (c.pool 0).regs.getReg 1 0 = 5 ∧ (c.pool 0).regs.getReg 2 0 = 0x82102005) ∧
    Congruent 0 (phasesOf 18) (running 0 loadsItself)
      (((running 0 loadsItself).pool 0).withCounts 6 1) := by
  have returns : (Transition.run step (phasesOf 18) (running 0 loadsItself)).toOption.any
      (fun c => (c.pool 0).regs.getReg 1 0 == 5 && (c.pool 0).regs.getReg 2 0 == 0x82102005) =
        true := by
    decide +kernel
  obtain ⟨c, runs, loaded⟩ := Transition.exists_of_any returns
  simp only [Bool.and_eq_true, beq_iff_eq] at loaded
  exact ⟨⟨c, runs, loaded⟩, equals_congruent 0 _ _ _ (HwThread.equals_iff_alike.mpr (.of_eq rfl))
    (along_withCounts _ _ 6 1)⟩

theorem not_congruent_of_double {c : Core} {b : HwThread t} (own : c.dToRa = some t)
    (equal : (c.pool t).equals b = true) (valid : (c.pool t).isNotValid = false)
    (through : Regacc.waits (c.pool t) = false) (double : (c.pool t).dbWordStalled ≠ b.dbWordStalled) :
    ¬ Congruent t [.regaccStage] c b := by
  have alike := HwThread.equals_iff_alike.mp equal
  have other : b.isNotValid = false ∧ Regacc.waits b = false ∧ b.inst.rd = (c.pool t).inst.rd := by
    refine ⟨?_, (Regacc.waits_alike alike).trans through, ?_⟩ <;> obtain ⟨o, rfl⟩ := alike
    · exact valid
    · rfl
  obtain ⟨a', first, rd⟩ := Regacc.rd_of_through valid through
  obtain ⟨b', second, rd'⟩ := Regacc.rd_of_through other.1 other.2.1
  have runs : ∀ {d : Core} {h : HwThread t}, d.dToRa = some t → Regacc.behavior (d.pool t) = .ok h →
      Transition.run step [.regaccStage] d = .ok { d.setThread t h with raToEx := some t } := by
    intro d h held accesses
    simp only [Transition.run, step, regaccStage, held, accesses, bind, Except.bind, pure,
      Except.pure]
  have left := runs own first
  have right := runs (d := c.setThread t b) own (by rwa [setThread_own])
  rintro (⟨halt, halts, -⟩ | ⟨c', h, returns, returns', same, -⟩)
  · cases left.symm.trans halts
  · obtain rfl := Except.ok.inj (left.symm.trans returns)
    have ends := congrArg (fun d : Core => d.pool t) (Except.ok.inj (right.symm.trans returns'))
    obtain ⟨o, alike'⟩ := HwThread.equals_iff_alike.mp same
    have registers : b'.inst.rd = a'.inst.rd := by
      have final : b' = h := by simpa [setThread] using ends
      rw [final, alike']
      change ((c.setThread t a').pool t).inst.rd = a'.inst.rd
      rw [setThread_own]
    rw [rd, rd', other.2.2] at registers
    revert registers double
    cases (c.pool t).dbWordStalled <;> cases b.dbWordStalled <;> simp

def doubleLoad : HwThread 0 :=
  { HwThread.create 0 0 fun _ => 0 with
    enabled := true
    inst := ({ Instruction.nop with inst := 0xC4184000 } : Instruction).decode }

/-- The same thread before the second word. -/
def halfLoaded : HwThread 0 := { doubleLoad with dbWordStalled := true }

/-- A core that is about to read the operands of the load. -/
def loadingCore : Core := { unloaded.setThread 0 doubleLoad with dToRa := some 0 }

theorem halfLoaded_apart :
    (loadingCore.pool 0).equals halfLoaded = true ∧
      ¬ Congruent 0 [.regaccStage] loadingCore halfLoaded := by
  have thread : loadingCore.pool 0 = doubleLoad := setThread_own unloaded doubleLoad
  have equal : doubleLoad.equals halfLoaded = true :=
    HwThread.equals_iff_alike.mpr (.of_eq rfl)
  refine ⟨by rw [thread, equal], not_congruent_of_double rfl (by rw [thread, equal]) ?_ ?_ ?_⟩
  · rw [thread]
    decide
  · rw [thread]
    decide
  · rw [thread]
    decide

end PretIss.Core
