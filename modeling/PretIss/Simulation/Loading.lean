import PretIss.Memory.Grant
import PretIss.Memory.SrecRecords
import PretIss.Model.Simulator
import PretIss.Pipeline.Threads

/-! What the simulator has loaded when it is created. The files of the threads are read one
after another into one memory, and the scratchpads of a thread are filled before the files of
the threads after it are read. -/

namespace PretIss

namespace Simulator

variable {files : ThreadId → ThreadFiles} {id : ThreadId} {ids : List ThreadId}
  {s s' : Loading} {parser : SrecParser} {pc : Word}

/-- The scratchpad of a thread with the words of its two files. -/
def loadScratchpad (memory : MemoryUnit) (file : ThreadFiles) (spm : L1Scratch) : L1Scratch :=
  let spm := match file.ispm with
    | none => spm
    | some text => StaticBoundParser.loadLines memory StaticBoundParser.instScratchStart
        (text.splitOn '\n') (0, 0) spm
  match file.dspm with
  | none => spm
  | some text => StaticBoundParser.loadLines memory StaticBoundParser.dataScratchStart
      (text.splitOn '\n') (0, 0) spm

/-- What a turn of the loop does with what the parser has found. -/
structure Turned (files : ThreadId → ThreadFiles) (id : ThreadId) (s : Loading)
    (parser : SrecParser) (pc : Word) (s' : Loading) : Prop where
  reader : s'.parser = parser
  mainMem : s'.memoryController.mainMem = { s.memoryController.mainMem with mem := parser.mem }
  memMappedIo : s'.memoryController.memMappedIo = s.memoryController.memMappedIo
  scratchpad : s'.memoryController.instScratchpad =
    Function.update s.memoryController.instScratchpad id
      (loadScratchpad parser.mem (files id) (s.memoryController.instScratchpad id))
  pool : s'.pool = Function.update s.pool id (startThread (s.pool id) pc)

theorem loadScratchpad_eq (mc : MemoryController) (file : ThreadFiles) :
    StaticBoundParser.loadDataSpm (StaticBoundParser.loadInstSpm mc id file.ispm) id file.dspm =
      { mc with
        instScratchpad := Function.update mc.instScratchpad id
          (loadScratchpad mc.mainMem.mem file (mc.instScratchpad id)) } := by
  obtain ⟨srec, ispm, dspm⟩ := file
  cases ispm <;> cases dspm <;>
    simp [StaticBoundParser.loadDataSpm, StaticBoundParser.loadInstSpm, StaticBoundParser.loadSpm,
      loadScratchpad]

theorem parseThread_of_ok (reads : s.parser.parse (files id).srec = .ok (parser, pc)) :
    ∃ s', parseThread files id s = .ok s' ∧ Turned files id s parser pc s' := by
  rw [parseThread, reads]
  exact ⟨_, rfl, by simp [loadScratchpad_eq, Loading.parser], by simp [loadScratchpad_eq],
    by simp [loadScratchpad_eq], by simp [loadScratchpad_eq], rfl⟩

theorem parseThread_of_error {halt : Halt} (fails : s.parser.parse (files id).srec = .error halt) :
    parseThread files id s = .error halt := by
  rw [parseThread, fails]
  rfl

theorem turned_of_parseThread (runs : parseThread files id s = .ok s') :
    ∃ parser pc, s.parser.parse (files id).srec = .ok (parser, pc) ∧
      Turned files id s parser pc s' := by
  cases reads : s.parser.parse (files id).srec with
  | error halt =>
      rw [parseThread_of_error reads] at runs
      exact nomatch runs
  | ok found =>
      obtain ⟨parser, pc⟩ := found
      obtain ⟨next, same, turned⟩ := parseThread_of_ok reads
      rw [same] at runs
      obtain rfl := Except.ok.inj runs
      exact ⟨parser, pc, rfl, turned⟩

theorem run_parseThread (files : ThreadId → ThreadFiles) (ids : List ThreadId) (s : Loading) :
    (Transition.run (parseThread files) ids s).map Loading.parser =
      (s.parser.parseFiles (ids.map fun id => (files id).srec)).map Prod.fst := by
  induction ids generalizing s with
  | nil => rfl
  | cons id ids ih =>
      rw [Transition.run, List.map_cons, SrecParser.parseFiles]
      cases reads : s.parser.parse (files id).srec with
      | error halt =>
          rw [parseThread_of_error reads]
          rfl
      | ok found =>
          obtain ⟨parser, pc⟩ := found
          obtain ⟨next, same, turned⟩ := parseThread_of_ok reads
          have later := ih next
          rw [same]
          rw [turned.reader] at later
          refine later.trans ?_
          cases more : parser.parseFiles (ids.map fun id => (files id).srec) with
          | error halt => simp [bind, Except.bind, more, Except.map]
          | ok rest => simp [bind, Except.bind, more, Except.map, pure, Except.pure]

theorem run_parseThread_other (other : id ∉ ids)
    (runs : Transition.run (parseThread files) ids s = .ok s') :
    s'.pool id = s.pool id ∧
      s'.memoryController.instScratchpad id = s.memoryController.instScratchpad id := by
  apply Transition.invariant_run (parseThread files)
    (fun now => now.pool id = s.pool id ∧
      now.memoryController.instScratchpad id = s.memoryController.instScratchpad id)
    (fun label _ => label ≠ id) _ ⟨rfl, rfl⟩ _ runs
  · rintro label now next different ⟨thread, spm⟩ turn
    obtain ⟨parser, pc, _, turned⟩ := turned_of_parseThread turn
    rw [turned.pool, turned.scratchpad, Function.update_of_ne different.symm,
      Function.update_of_ne different.symm]
    exact ⟨thread, spm⟩
  · intro entry member same
    exact other (same ▸ Transition.mem_of_mem_trail _ entry member)

theorem run_parseThread_memory (runs : Transition.run (parseThread files) ids s = .ok s') :
    s'.memoryController.mainMem = { s.memoryController.mainMem with mem := s'.parser.mem } ∧
      s'.memoryController.memMappedIo = s.memoryController.memMappedIo := by
  apply Transition.invariant_run (parseThread files)
    (fun now => now.memoryController.mainMem =
        { s.memoryController.mainMem with mem := now.parser.mem } ∧
      now.memoryController.memMappedIo = s.memoryController.memMappedIo)
    (fun _ _ => True) _ ⟨rfl, rfl⟩ (fun _ _ => trivial) runs
  rintro label now next _ ⟨memory, io⟩ turn
  obtain ⟨parser, pc, _, turned⟩ := turned_of_parseThread turn
  rw [turned.mainMem, turned.memMappedIo, turned.reader, memory]
  exact ⟨rfl, io⟩

theorem exists_turn (distinct : ids.Nodup) {first last : List ThreadId}
    (split : ids = first ++ id :: last)
    (runs : Transition.run (parseThread files) ids s = .ok s') :
    ∃ before after pc, (s.parser.parseFiles (first.map fun id => (files id).srec)).map Prod.fst =
        .ok before ∧
      before.parse (files id).srec = .ok (after, pc) ∧
      s'.pool id = startThread (s.pool id) pc ∧
      s'.memoryController.instScratchpad id =
        loadScratchpad after.mem (files id) (s.memoryController.instScratchpad id) := by
  subst split
  obtain ⟨middle, earlier, rest⟩ := (Transition.run_append_eq_ok _).mp runs
  obtain ⟨turn, own, later⟩ := (Transition.run_cons_eq_ok _).mp rest
  rw [List.nodup_append] at distinct
  obtain ⟨_, after, apart⟩ := distinct
  obtain ⟨thread, spm⟩ := run_parseThread_other
    (fun member => apart id member id List.mem_cons_self rfl) earlier
  obtain ⟨thread', spm'⟩ := run_parseThread_other (List.nodup_cons.mp after).1 later
  obtain ⟨parser, pc, reads, turned⟩ := turned_of_parseThread own
  have read := run_parseThread files first s
  rw [earlier] at read
  refine ⟨middle.parser, parser, pc, read.symm, reads, ?_, ?_⟩
  · rw [thread', turned.pool, Function.update_self, thread]
  · rw [spm', turned.scratchpad, Function.update_self, spm]

theorem startThread_reset (id : ThreadId) (pc pc' : Word)
    (windowReg : Fin (16 * registerWindows) → Word) :
    ∃ windowReg', startThread (HwThread.reset id pc windowReg) pc' =
        HwThread.reset id pc' windowReg' ∧
      (RegisterFile.create windowReg').getReg 14 0 = stackTop id ∧
      (RegisterFile.create windowReg').getReg 30 0 = stackTop id := by
  refine ⟨_, rfl, ?_, ?_⟩
  · exact RegisterFile.get_set_same _ 14 _ 0
  · exact (RegisterFile.get_set_of_ne _ 14 30 _ 0 (by decide) (by decide) (by decide)).trans
      (RegisterFile.get_set_same _ 30 _ 0)

def unloaded (windowReg : ThreadId → Fin (16 * registerWindows) → Word) : Loading where
  startingAddr := 0x40000000
  memoryController := .create
  pool := bareThreads windowReg

/-- The files that the parser reads. -/
def srecFiles (files : ThreadId → ThreadFiles) : List (Option (List Char)) :=
  (List.finRange numThreads).map fun id => (files id).srec

structure Created (files : ThreadId → ThreadFiles)
    (windowReg : ThreadId → Fin (16 * registerWindows) → Word) (loaded : Loading)
    (sim : Simulator) : Prop where
  loads : parseSrecFiles files (unloaded windowReg) = .ok loaded
  clock : sim.clock = .create 5
  pllClock : sim.pllClock = .create 1
  core : sim.core = .create loaded.pool loaded.memoryController

section

variable {windowReg : ThreadId → Fin (16 * registerWindows) → Word} {loaded : Loading}
  {sim : Simulator}

theorem created_of_create (made : create files windowReg = .ok sim) :
    ∃ loaded, Created files windowReg loaded sim := by
  obtain ⟨loaded, loads, same⟩ := Transition.bind_eq_ok.mp made
  obtain rfl := Except.ok.inj same
  exact ⟨loaded, loads, rfl, rfl, rfl⟩

theorem parseSrecFiles_reads (files : ThreadId → ThreadFiles)
    (windowReg : ThreadId → Fin (16 * registerWindows) → Word) :
    (parseSrecFiles files (unloaded windowReg)).map Loading.parser =
      ((SrecParser.create .empty).parseFiles (srecFiles files)).map Prod.fst :=
  run_parseThread files (List.finRange numThreads) (unloaded windowReg)

theorem map_eq_error {α β : Type} {f : α → β} {x : Except Halt α} {halt : Halt} :
    x.map f = .error halt ↔ x = .error halt := by
  cases x with
  | error _ => exact ⟨fun same => Except.error.inj same ▸ rfl, fun same => same ▸ rfl⟩
  | ok _ => exact ⟨nofun, nofun⟩

theorem create_eq_error {halt : Halt} : create files windowReg = .error halt ↔
    (SrecParser.create .empty).parseFiles (srecFiles files) = .error halt := by
  have same : create files windowReg = (parseSrecFiles files (unloaded windowReg)).map
      fun loaded => { clock := .create 5, pllClock := .create 1,
                      core := .create loaded.pool loaded.memoryController } := rfl
  rw [same, map_eq_error, ← map_eq_error (f := Loading.parser), parseSrecFiles_reads, map_eq_error]

theorem Created.memory (created : Created files windowReg loaded sim) :
    ∃ parser addrs, (SrecParser.create .empty).parseFiles (srecFiles files) = .ok (parser, addrs) ∧
      sim.core.memoryController.mainMem =
        { WheeledMem.create (memDelay - 1) burstDelay with mem := parser.mem } := by
  have read := parseSrecFiles_reads files windowReg
  rw [created.loads] at read
  cases found : (SrecParser.create .empty).parseFiles (srecFiles files) with
  | error _ =>
      rw [found] at read
      exact nomatch read
  | ok found' =>
      rw [found] at read
      refine ⟨found'.1, found'.2, rfl, ?_⟩
      rw [created.core, ← Except.ok.inj read]
      exact (run_parseThread_memory created.loads).1

theorem Created.built (created : Created files windowReg loaded sim) :
    sim.core.memoryController.mainMem.Constructed := by
  obtain ⟨parser, _, _, memory⟩ := created.memory
  rw [memory]
  have empty := WheeledMem.create_constructed
  exact ⟨empty.latD, empty.throughputD, empty.memoryWindow, empty.idle⟩

/-- What a thread starts with. -/
structure Starts (files : ThreadId → ThreadFiles) (t : ThreadId) (before after : SrecParser)
    (pc : Word) (core : Core) : Prop where
  earlier : ((SrecParser.create .empty).parseFiles ((srecFiles files).take t.val)).map Prod.fst =
    .ok before
  own : before.parse (files t).srec = .ok (after, pc)
  thread : ∃ windowReg, core.pool t = .reset t pc windowReg
  stack : (core.pool t).regs.getReg 14 0 = stackTop t ∧ (core.pool t).regs.getReg 30 0 = stackTop t
  scratchpad : core.memoryController.instScratchpad t =
    loadScratchpad after.mem (files t) .create

theorem Created.starts (created : Created files windowReg loaded sim) (t : ThreadId) :
    ∃ before after pc, Starts files t before after pc sim.core := by
  have split : List.finRange numThreads = (List.finRange numThreads).take t.val ++
      t :: (List.finRange numThreads).drop (t.val + 1) := by
    conv_lhs => rw [← List.take_append_drop t.val (List.finRange numThreads)]
    rw [List.drop_eq_getElem_cons (by simp)]
    simp
  obtain ⟨before, after, pc, earlier, own, thread, spm⟩ :=
    exists_turn (List.nodup_finRange numThreads) split created.loads
  obtain ⟨windowReg', same, sp, fp⟩ := startThread_reset t 0x40000000 pc (windowReg t)
  have pool : sim.core.pool t = .reset t pc windowReg' := by
    rw [created.core]
    exact thread.trans same
  refine ⟨before, after, pc, ?_, own, ⟨windowReg', pool⟩, ?_, ?_⟩
  · rw [srecFiles, ← List.map_take]
    exact earlier
  · rw [pool]
    exact ⟨sp, fp⟩
  · rw [created.core]
    exact spm

theorem Created.still (created : Created files windowReg loaded sim) :
    sim.core.pllBehavior = sim.core := by
  have threads : sim.core.pllBehavior.pool = sim.core.pool := by
    funext t
    obtain ⟨_, _, pc, starts⟩ := created.starts t
    obtain ⟨windowReg', thread⟩ := starts.thread
    change HwThread.pllTick (sim.core.pool t) = _
    rw [thread]
    exact Core.History.pllTick_reset pc windowReg' 1
  change { sim.core with pool := sim.core.pllBehavior.pool } = sim.core
  rw [threads]

end

/-- The simulator starts when the files of all threads can be read one after another. Every
thread starts in window 0 with its own stack, at the address that its file names or an earlier
one has left, and its scratchpads hold words of the memory from before the later files. -/
theorem loads_programs (files : ThreadId → ThreadFiles)
    (windowReg : ThreadId → Fin (16 * registerWindows) → Word) :
    (∀ halt, create files windowReg = .error halt ↔
      (SrecParser.create .empty).parseFiles (srecFiles files) = .error halt) ∧
    ∀ sim, create files windowReg = .ok sim →
      (∃ parser addrs,
        (SrecParser.create .empty).parseFiles (srecFiles files) = .ok (parser, addrs) ∧
        sim.core.memoryController.mainMem =
          { WheeledMem.create (memDelay - 1) burstDelay with mem := parser.mem }) ∧
      ∀ t, ∃ before after pc, Starts files t before after pc sim.core := by
  refine ⟨fun halt => create_eq_error, fun sim made => ?_⟩
  obtain ⟨loaded, created⟩ := created_of_create made
  exact ⟨created.memory, created.starts⟩

/-- Thread 0 has a program of two instructions, which it finds in its scratchpad. -/
def programFiles : ThreadId → ThreadFiles
  | 0 =>
      { srec := some "S30D40000000821020058410200344\nS70540000000BA\n".toList
        ispm := some "40000000 40000008\n".toList
        dspm := none }
  | _ => ⟨none, none, none⟩

theorem loads_programs_scratchpad :
    ∃ sim, create programFiles (fun _ _ => 0) = .ok sim ∧
      (sim.core.memoryController.instScratchpad 0).mem.read 0x40000004 = 0x84102003 ∧
      ∀ t, (sim.core.pool t).regs.getReg 14 0 = stackTop t := by
  have loads : (create programFiles (fun _ _ => 0)).toOption.any (fun sim =>
      (sim.core.memoryController.instScratchpad 0).mem.read 0x40000004 == 0x84102003) = true := by
    decide +kernel
  obtain ⟨sim, made, word⟩ := Transition.exists_of_any loads
  refine ⟨sim, made, eq_of_beq word, fun t => ?_⟩
  obtain ⟨_, _, _, starts⟩ := ((loads_programs programFiles _).2 sim made).2 t
  exact starts.stack.1

end Simulator

end PretIss
