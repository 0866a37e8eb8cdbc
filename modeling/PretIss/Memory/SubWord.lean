import PretIss.Engine.Service
import PretIss.Memory.Bytes
import PretIss.Pipeline.Calls

/-! Stores and loads of bytes and halfwords, wherever their word is. A store merges its bytes
with the word that it finds and writes the whole word back; no other word changes. Until
the word is written again, a load of the same size returns what was stored. -/

namespace PretIss

/-- A word of the memories: one in the scratchpad of a thread, or one that all threads
share. -/
inductive Cell where
  | scratch (tid : ThreadId) (addr : Word)
  | shared (location : Location)
  deriving DecidableEq, Repr

theorem MemoryUnit.read_addAddress (m : MemoryUnit) (addr data other : Word) :
    (m.addAddress addr data).read other = if other = addr then data else m.read other := by
  unfold read
  rw [addAddress_apply]
  split <;> rfl

theorem L1Scratch.isAddrInSpm_addAddress {spm : L1Scratch} {stored : Word}
    (held : spm.isAddrInSpm stored = true) (data addr : Word) :
    ({ spm with mem := spm.mem.addAddress stored data } : L1Scratch).isAddrInSpm addr =
      spm.isAddrInSpm addr := by
  simp only [isAddrInSpm, MemoryUnit.hasAddress, MemoryUnit.addAddress_apply] at held ⊢
  by_cases same : addr = stored
  · simp_all
  · rw [if_neg same]

namespace Contents

/-- The word that a thread reaches under an address. -/
def cell (m : Contents) (tid : ThreadId) (addr : Word) : Cell :=
  match m.place tid addr with
  | none => .scratch tid addr
  | some location => .shared location

def read (m : Contents) : Cell → Word
  | .scratch tid addr => (m.spm tid).mem.read addr
  | .shared location => m.wordAt location

theorem value_eq_read (m : Contents) (tid : ThreadId) (addr : Word) :
    m.value tid addr = m.read (m.cell tid addr) := by
  unfold value cell
  cases m.place tid addr <;> rfl

theorem cell_eq_main (m : Contents) {tid : ThreadId} {addr : Word}
    (main : m.cell tid addr = .shared (.main addr)) :
    (m.spm tid).isAddrInSpm addr = false ∧ MemoryController.isMainMem addr = true := by
  unfold cell place at main
  cases held : (m.spm tid).isAddrInSpm addr <;>
    cases low : MemoryController.isMainMem addr <;> simp [held, low] at main
  exact ⟨rfl, rfl⟩

theorem cell_put (m : Contents) (u : ThreadId) (stored data : Word) (tid : ThreadId) (addr : Word) :
    (m.put u stored data).cell tid addr = m.cell tid addr := by
  have found : ((m.put u stored data).spm tid).isAddrInSpm addr = (m.spm tid).isAddrInSpm addr := by
    by_cases own : u = tid
    · subst own
      cases held : (m.spm u).isAddrInSpm stored with
      | true =>
          simp only [put, place, held, if_true, setSpm, Function.update_self]
          exact L1Scratch.isAddrInSpm_addAddress held data addr
      | false => cases low : MemoryController.isMainMem stored <;> simp [put, place, held, low]
    · rw [Isolation.spm_put_of_ne m stored data own]
  simp only [cell, place, found]

theorem read_put (m : Contents) (u : ThreadId) (addr data : Word) (c : Cell) :
    (m.put u addr data).read c = if c = m.cell u addr then data else m.read c := by
  cases c with
  | shared location =>
      have same : Cell.shared location = m.cell u addr ↔ m.place u addr = some location := by
        unfold cell
        cases m.place u addr with
        | none => simp
        | some found => simp [eq_comm]
      simp only [read, Isolation.wordAt_put, same]
  | scratch tid other =>
      unfold cell put
      cases place : m.place u addr with
      | none =>
          simp only [read, setSpm, Cell.scratch.injEq]
          by_cases own : tid = u
          · subst own
            simp only [Function.update_self, MemoryUnit.read_addAddress, true_and]
          · rw [Function.update_of_ne own]
            simp [own]
      | some location => cases location <;> simp [read]

theorem value_put_of_ne (m : Contents) {u tid : ThreadId} {stored data addr : Word}
    (other : m.cell tid addr ≠ m.cell u stored) :
    (m.put u stored data).value tid addr = m.value tid addr := by
  rw [value_eq_read, cell_put, read_put, if_neg other, ← value_eq_read]

theorem value_transfer (m : Contents) {tid : ThreadId} {source target addr : Word}
    (kept : ¬ ((m.spm tid).moves source target 0 (burstLength source) addr ∧
      m.cell tid addr ≠ .shared (.main addr))) :
    (m.transfer tid source target).value tid addr = m.value tid addr := by
  have refreshes := m.transfer_refreshes tid source target
  have main : (m.transfer tid source target).main = m.main := rfl
  have mapped : (m.transfer tid source target).mapped = m.mapped := rfl
  by_cases moved : (m.spm tid).moves source target 0 (burstLength source) addr
  · obtain ⟨absent, low⟩ := m.cell_eq_main (not_not.mp fun other => kept ⟨moved, other⟩)
    have none : (m.spm tid).copies addr = none := by
      rw [← Option.not_isSome_iff_eq_none, copies_of_isAddrInSpm, absent]
      exact Bool.false_ne_true
    rw [value_eq_view _ tid low, value_eq_view _ tid low, main, refreshes.view_moved moved,
      Overlay.view, none, Option.getD_none]
  · cases low : MemoryController.isMainMem addr with
    | true => rw [value_eq_view _ tid low, value_eq_view _ tid low, main, refreshes.view_kept moved]
    | false =>
        rw [value_eq_mapped _ tid low, value_eq_mapped _ tid low, mapped, refreshes.kept addr moved]

end Contents

theorem Dma.wordAt_behavior {cycles : BitVec 32} {s s' : Dma × MemoryController}
    (built : s.2.mainMem.Constructed) (runs : behavior cycles s.1 s.2 = .ok s')
    (location : Location) : s'.2.contents.wordAt location = s.2.contents.wordAt location := by
  refine (Transition.invariant_run _ (fun state => state.2.mainMem.Constructed ∧
    state.2.contents.wordAt location = s.2.contents.wordAt location) (fun _ _ => True) ?_
    ⟨built, rfl⟩ (fun _ _ => trivial) runs).2
  rintro u middle after - ⟨ready, same⟩ served
  obtain ⟨ready, ⟨_, _, _, contents⟩ | ⟨_, _, contents⟩⟩ := Isolation.serve_effect ready served
  · refine ⟨ready, ?_⟩
    rw [contents, ← same]
    cases location <;> rfl
  · exact ⟨ready, by rw [contents, same]⟩

/-- What a completed store leaves: the bytes that it addresses hold the low bytes of the
value, and every other byte and word is as it was. -/
structure SubWord.Stored (size : SubWord) (id : ThreadId) (addr value : Word) (m m' : Contents) :
    Prop where
  cells : ∀ tid other, m'.cell tid other = m.cell tid other
  others : ∀ c, c ≠ m.cell id (Mem.alignedAddr addr) → m'.read c = m.read c
  bytes : ∀ k, k < 4 → byteAt k (m'.read (m.cell id (Mem.alignedAddr addr))) =
    if Mem.addrOffset addr ≤ k ∧ k < Mem.addrOffset addr + size.bytes then
      byteAt (4 - size.bytes + (k - Mem.addrOffset addr)) value
    else byteAt k (m.read (m.cell id (Mem.alignedAddr addr)))

namespace Core

/-- A valid thread is in the memory stage with this access to this address. -/
structure Accesses (c : Core) (id : ThreadId) (op : Op3Memory) (addr : Word) : Prop where
  latch : c.exToMem = some id
  valid : (c.pool id).isNotValid = false
  performs : (c.pool id).inst.Performs op
  address : (c.pool id).inst.aluResult = addr

/-- A phase writes the word that a thread finds under an address: a store to it completes, or
a transfer of the thread moves it in or out. A word of the main memory may be moved in,
since the thread then finds a copy of it. -/
def Writes (tid : ThreadId) (addr : Word) : Phase → Core → Prop
  | .memoryStage, c =>
      ∃ u, c.exToMem = some u ∧ (c.pool u).isNotValid = false ∧
        (c.pool u).inst.readMemory = false ∧ (c.pool u).inst.writeMemory = true ∧
        c.memoryController.contents.granted c.cycles u (accessAddr (c.pool u)) = true ∧
        c.memoryController.contents.cell tid addr =
          c.memoryController.contents.cell u (accessAddr (c.pool u))
  | .dmaController, c =>
      (c.dma.transferComplete tid = .busy ∧ slotGranted c.cycles tid = true) ∧
        (c.memoryController.instScratchpad tid).moves (c.dma.memSourceReg tid)
          (c.dma.spmTargetReg tid) 0 (Contents.burstLength (c.dma.memSourceReg tid)) addr ∧
        c.memoryController.contents.cell tid addr ≠ .shared (.main addr)
  | _, _ => False

variable {c d : Core} {tid : ThreadId} {addr : Word}

theorem memoryStage_value (built : c.memoryController.mainMem.Constructed)
    (quiet : ¬ Writes tid addr .memoryStage c) (runs : memoryStage c = .ok d) :
    d.memoryController.contents.value tid addr = c.memoryController.contents.value tid addr := by
  cases latch : c.exToMem with
  | none =>
      rw [memoryStage, latch] at runs
      obtain rfl := Except.ok.inj runs
      rfl
  | some u =>
      obtain ⟨after, answer, holds⟩ := access_holds ⟨rfl, built⟩ c.cycles (c.pool u)
      have accesses := memoryStage_at runs latch
      rw [answer] at accesses
      rw [← (Prod.mk.inj (Except.ok.inj accesses)).2, holds.contents]
      unfold accessTo
      split
      · rfl
      rename_i valid
      split
      · rfl
      rename_i noLoad
      split
      · rename_i store
        simp only
        split
        · rename_i granted
          apply Contents.value_put_of_ne
          intro same
          exact quiet ⟨u, latch, by simpa using valid, by simpa using noLoad, store, granted, same⟩
        · rfl
      · rfl

theorem dmaController_value (built : c.memoryController.mainMem.Constructed)
    (quiet : ¬ Writes tid addr .dmaController c) (runs : dmaController c = .ok d) :
    d.memoryController.contents.value tid addr = c.memoryController.contents.value tid addr := by
  obtain ⟨dma, mc, rfl, served⟩ := Isolation.dmaController_frame runs
  have turn := Dma.turn_behavior (t := tid) (s := (c.dma, c.memoryController)) built served
  have words := Dma.wordAt_behavior (s := (c.dma, c.memoryController)) built served
  by_cases active : c.dma.transferComplete tid = .busy ∧ slotGranted c.cycles tid = true
  · have same : Isolation.SameContents tid Set.univ mc.contents
        (c.memoryController.contents.transfer tid (c.dma.memSourceReg tid)
          (c.dma.spmTargetReg tid)) := by
      constructor
      · rw [turn.spm, if_pos active]
        simp [Contents.transfer, Contents.setSpm]
      · intro location _
        rw [words location]
        cases location <;> rfl
    rw [same.value addr fun _ _ => Set.mem_univ _]
    exact Contents.value_transfer _ fun moved => quiet ⟨active, moved⟩
  · have same : Isolation.SameContents tid Set.univ mc.contents c.memoryController.contents := by
      constructor
      · rw [turn.spm, if_neg active]
      · exact fun location _ => words location
    exact same.value addr fun _ _ => Set.mem_univ _

theorem fetchStage_value (built : c.memoryController.mainMem.Constructed)
    (runs : fetchStage c = .ok d) :
    d.memoryController.contents.value tid addr = c.memoryController.contents.value tid addr := by
  cases latch : c.poolToF with
  | none =>
      rw [fetchStage, latch] at runs
      obtain rfl := Except.ok.inj runs
      rfl
  | some u => rw [(fetch_holds ⟨rfl, built⟩ (fetchStage_at runs latch)).2.contents]

theorem step_value {phase : Phase} (built : c.memoryController.mainMem.Constructed)
    (quiet : ¬ Writes tid addr phase c) (moves : step phase c = .ok d) :
    d.memoryController.contents.value tid addr = c.memoryController.contents.value tid addr := by
  cases phase with
  | memoryStage => exact memoryStage_value built quiet moves
  | dmaController => exact dmaController_value built quiet moves
  | fetchStage => exact fetchStage_value built moves
  | memoryController =>
      obtain rfl := Except.ok.inj moves
      have holds := MemoryController.Holds.behavior ⟨rfl, built⟩
      exact congrArg (Contents.value · tid addr) holds.contents
  | exceptStage =>
      obtain ⟨pool, syncTable, dma, rfl⟩ := Isolation.exceptStage_frame moves
      rfl
  | regaccStage =>
      obtain ⟨pool, rfl⟩ := Isolation.regaccStage_frame moves
      rfl
  | executeStage =>
      obtain ⟨pool, same⟩ := Isolation.executeStage_frame c
      obtain rfl := Except.ok.inj moves
      rw [same]
  | decodeStage =>
      obtain ⟨pool, same⟩ := Isolation.decodeStage_frame c
      obtain rfl := Except.ok.inj moves
      rw [same]
  | threadController | cycleCounter | pll =>
      obtain rfl := Except.ok.inj moves
      rfl

theorem run_value {phases : List Phase} (built : c.memoryController.mainMem.Constructed)
    (quiet : ∀ entry ∈ Transition.trail step phases c, ¬ Writes tid addr entry.1 entry.2)
    (runs : Transition.run step phases c = .ok d) :
    d.memoryController.mainMem.Constructed ∧
      d.memoryController.contents.value tid addr = c.memoryController.contents.value tid addr := by
  apply Transition.invariant_run step (fun e => e.memoryController.mainMem.Constructed ∧
    e.memoryController.contents.value tid addr = c.memoryController.contents.value tid addr)
    (fun phase e => ¬ Writes tid addr phase e) _ ⟨built, rfl⟩ quiet runs
  rintro phase e f undisturbed ⟨ready, same⟩ moves
  exact ⟨Isolation.constructed_step phase ready moves, (step_value ready undisturbed moves).trans same⟩

theorem memoryStage_holds (built : c.memoryController.mainMem.Constructed)
    (latch : c.exToMem = some tid) :
    ∃ d, step .memoryStage c = .ok d ∧
      d.pool tid = (accessTo c.memoryController.contents c.cycles (c.pool tid)).1 ∧
      d.memoryController.Holds (accessTo c.memoryController.contents c.cycles (c.pool tid)).2 := by
  obtain ⟨mc, answer, holds⟩ := access_holds ⟨rfl, built⟩ c.cycles (c.pool tid)
  refine ⟨{ c.setThread tid (accessTo c.memoryController.contents c.cycles (c.pool tid)).1 with
    memoryController := mc, memToExcept := c.exToMem }, ?_, ?_, holds⟩
  · simp only [step, memoryStage, latch, answer, bind, Except.bind, pure, Except.pure]
  · exact Function.update_self tid _ _

variable {size : SubWord}

theorem Accesses.store (stores : c.Accesses tid size.storeOp addr) :
    accessTo c.memoryController.contents c.cycles (c.pool tid) =
      ({ c.pool tid with memoryStalled :=
          !c.memoryController.contents.granted c.cycles tid (Mem.alignedAddr addr) },
        if c.memoryController.contents.granted c.cycles tid (Mem.alignedAddr addr) then
          c.memoryController.contents.put tid (Mem.alignedAddr addr)
            ((c.pool tid).inst.getWriteData
              (c.memoryController.contents.value tid (Mem.alignedAddr addr)) (Mem.addrOffset addr))
        else c.memoryController.contents) := by
  obtain ⟨reads, writes, sizes⟩ := stores.performs.store
  have partialWord : (c.pool tid).inst.memorySize ≠ .word := by
    rw [sizes]
    cases size <;> decide
  simp only [accessTo, stores.valid, reads, writes, accessAddr, stores.address, storedWord,
    if_pos partialWord, Bool.false_eq_true, if_false, if_true]

theorem Accesses.load {signed : Bool} (loads : c.Accesses tid (size.loadOp signed) addr)
    (completes : (accessTo c.memoryController.contents c.cycles (c.pool tid)).1.memoryStalled = false) :
    (accessTo c.memoryController.contents c.cycles (c.pool tid)).1.inst =
      (c.pool tid).inst.readData (c.memoryController.contents.value tid (Mem.alignedAddr addr))
        (Mem.addrOffset addr) := by
  have reads := loads.performs.load.1
  simp only [accessTo, loads.valid, reads, Bool.false_eq_true, if_false, if_true, loadFrom,
    accessAddr, loads.address] at completes ⊢
  split at completes
  · rename_i granted
    rw [if_pos granted]
  · cases completes

theorem stored_put (inst : Instruction) (m : Contents) (tid : ThreadId)
    (sizes : inst.memorySize = size.memorySize false) (aligned : addr.toNat % size.bytes = 0) :
    size.Stored tid addr inst.op3Value m (m.put tid (Mem.alignedAddr addr)
      (inst.getWriteData (m.value tid (Mem.alignedAddr addr)) (Mem.addrOffset addr))) where
  cells _ _ := m.cell_put tid _ _ _ _
  others c other := by rw [Contents.read_put, if_neg other]
  bytes k bound := by
    rw [Contents.read_put, if_pos rfl,
      Instruction.byteAt_getWriteData (SubWord.inside_of_aligned aligned) sizes _ bound,
      Contents.value_eq_read]

/-- A store of a byte or a halfword returns. Stalled it changes nothing; completed it changes
the bytes it addresses, and whoever finds the word loads them back until it is written. -/
theorem sub_word_access (c : Core) (size : SubWord) (id : ThreadId) (addr : Word)
    (built : c.memoryController.mainMem.Constructed) (stores : c.Accesses id size.storeOp addr)
    (aligned : addr.toNat % size.bytes = 0) :
    ∃ d, step .memoryStage c = .ok d ∧
      ((d.pool id).memoryStalled = true →
        d.memoryController.contents = c.memoryController.contents) ∧
      ((d.pool id).memoryStalled = false →
        size.Stored id addr (c.pool id).inst.op3Value c.memoryController.contents
          d.memoryController.contents ∧
        ∀ reader, c.memoryController.contents.cell reader (Mem.alignedAddr addr) =
            c.memoryController.contents.cell id (Mem.alignedAddr addr) →
          ∀ phases e, Transition.run step phases d = .ok e →
            (∀ entry ∈ Transition.trail step phases d,
              ¬ Writes reader (Mem.alignedAddr addr) entry.1 entry.2) →
            ∀ signed, e.Accesses reader (size.loadOp signed) addr →
              ∃ f, step .memoryStage e = .ok f ∧ ((f.pool reader).memoryStalled = false →
                (f.pool reader).inst.aluResult =
                  size.extend signed (c.pool id).inst.op3Value)) := by
  obtain ⟨d, stored, thread, holds⟩ := memoryStage_holds built stores.latch
  rw [stores.store] at thread holds
  have sizes := stores.performs.store.2.2
  refine ⟨d, stored, ?_, ?_⟩
  · intro stalled
    rw [thread] at stalled
    simp only [Bool.not_eq_true'] at stalled
    simp only [stalled, Bool.false_eq_true, if_false] at holds
    exact holds.contents
  · intro completed
    rw [thread] at completed
    simp only [Bool.not_eq_false'] at completed
    simp only [completed, if_true] at holds
    rw [holds.contents]
    refine ⟨stored_put _ _ id sizes aligned, ?_⟩
    intro reader same phases e runs quiet signed loads
    obtain ⟨ready, value⟩ := run_value holds.built quiet runs
    have found : e.memoryController.contents.value reader (Mem.alignedAddr addr) =
        (c.pool id).inst.getWriteData
          (c.memoryController.contents.value id (Mem.alignedAddr addr)) (Mem.addrOffset addr) := by
      rw [value, holds.contents, Contents.value_eq_read, Contents.cell_put, Contents.read_put,
        if_pos same]
    obtain ⟨f, loaded, own, _⟩ := memoryStage_holds ready loads.latch
    refine ⟨f, loaded, ?_⟩
    intro arrived
    rw [own] at arrived ⊢
    rw [loads.load arrived, found]
    exact Instruction.readData_getWriteData (SubWord.inside_of_aligned aligned) sizes
      loads.performs.load.2 _

/-- Thread 1 stores a byte to a mapped register, and thread 2 loads it in the next stage. -/
def neighbours : Core :=
  { create (fun id =>
      { HwThread.create id 0 fun _ => 0 with
        enabled := true
        inst := if id = 1 then
            { Instruction.ofWord 0xC2286000 with aluResult := 0x80000201, op3Value := 0x1F0 }
          else { Instruction.ofWord 0xC4486001 with op1Value := 0x80000200, op2Value := 1 } })
      .create with
    exToMem := some 1
    raToEx := some 2 }

theorem sub_word_access_neighbours :
    ∃ d f, step .memoryStage neighbours = .ok d ∧
      Transition.run step [.executeStage, .memoryStage] d = .ok f ∧
      (f.pool 2).inst.aluResult = 0xFFFFFFF0 := by
  have stores : neighbours.Accesses 1 SubWord.byte.storeOp 0x80000201 :=
    ⟨rfl, by decide, ⟨0xC2286000, by decide, rfl⟩, by decide⟩
  obtain ⟨d, stored, -, completed⟩ := sub_word_access neighbours .byte 1 0x80000201
    WheeledMem.create_constructed stores (by decide)
  have after := stored
  obtain rfl := Except.ok.inj after
  obtain ⟨-, loaded⟩ := completed (by decide)
  obtain ⟨f, moves, result⟩ := loaded 2 (by decide) [.executeStage] _ rfl
    (by
      intro entry member
      obtain rfl := List.mem_singleton.mp member
      exact id)
    true ⟨rfl, by decide, ⟨0xC4486001, by decide, rfl⟩, by decide⟩
  have last := moves
  obtain rfl := Except.ok.inj last
  exact ⟨_, _, stored, moves, result (by decide)⟩

end Core

end PretIss
