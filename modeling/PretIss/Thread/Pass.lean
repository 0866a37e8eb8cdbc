import PretIss.Library.Timeline
import PretIss.Model.Regacc
import PretIss.Model.Execute
import PretIss.Model.Mem
import PretIss.Model.ExceptStage

/-! One pass of a thread through the pipeline. The rest of the core enters only
through the ports and memories, the barrier table and the DMA engine that the
thread meets on its way, and through ticks of the PLL clock, which may fall after
any stage. -/

namespace PretIss

inductive Stage where
  | fetch | decode | regacc | execute | mem | except
  deriving DecidableEq, Repr

/-- What the rest of the core contributes to a pass. -/
structure Round (σ : Type) where
  instructionMemory : FetchStageIf σ
  dataMem : MemStageIf σ
  fetchMemory : σ
  memory : σ
  syncTable : SyncTable
  dma : Dma
  ticks : Stage → Nat

/-- A pass: the thread after each stage, and what the pass leaves behind. -/
structure Pass (id : ThreadId) (σ : Type) where
  round : Round σ
  start : HwThread id
  fetched : HwThread id
  decoded : HwThread id
  accessed : HwThread id
  executed : HwThread id
  arrived : HwThread id
  finished : HwThread id
  fetchMemory : σ
  memory : σ
  syncTable : SyncTable
  dma : Dma

namespace HwThread

variable {id : ThreadId}

def pllTick (ht : HwThread id) : HwThread id :=
  { ht with specRegs := ht.specRegs.decrementPllTimers }

/-- A thread as the controller creates it, with the program counter and the stack
pointers of its program. -/
def reset (id : ThreadId) (pc : Word) (windowReg : Fin (16 * registerWindows) → Word) :
    HwThread id :=
  { create id pc windowReg with enabled := true }

end HwThread

section

variable {id : ThreadId} {σ : Type}

namespace Round

def after (round : Round σ) (stage : Stage) (ht : HwThread id) : HwThread id :=
  HwThread.pllTick^[round.ticks stage] ht

/-- The six stages in their order. -/
def pass (round : Round σ) (start : HwThread id) : Except Halt (Pass id σ) := do
  let (fetched, fetchMemory) ← Fetch.behavior round.instructionMemory start round.fetchMemory
  let fetched := round.after .fetch fetched
  let decoded := round.after .decode (Decode.behavior fetched)
  let accessed ← Regacc.behavior decoded
  let accessed := round.after .regacc accessed
  let executed := round.after .execute (Execute.behavior accessed)
  let (arrived, memory) ← Mem.behavior round.dataMem executed round.memory
  let arrived := round.after .mem arrived
  let (finished, syncTable, dma) ← ExceptStage.behavior arrived round.syncTable round.dma
  let finished := round.after .except finished
  return { round, start, fetched, decoded, accessed, executed, arrived, finished, fetchMemory
           memory, syncTable, dma }

end Round

namespace Pass

/-- The equations of a pass that returns, stage by stage. -/
structure Valid (p : Pass id σ) : Prop where
  fetch : ∃ ht, Fetch.behavior p.round.instructionMemory p.start p.round.fetchMemory =
    .ok (ht, p.fetchMemory) ∧ p.fetched = p.round.after .fetch ht
  decode : p.decoded = p.round.after .decode (Decode.behavior p.fetched)
  regacc : ∃ ht, Regacc.behavior p.decoded = .ok ht ∧ p.accessed = p.round.after .regacc ht
  execute : p.executed = p.round.after .execute (Execute.behavior p.accessed)
  mem : ∃ ht, Mem.behavior p.round.dataMem p.executed p.round.memory = .ok (ht, p.memory) ∧
    p.arrived = p.round.after .mem ht
  except : ∃ ht, ExceptStage.behavior p.arrived p.round.syncTable p.round.dma =
    .ok (ht, p.syncTable, p.dma) ∧ p.finished = p.round.after .except ht

end Pass

theorem Round.pass_eq_ok {round : Round σ} {start : HwThread id} {p : Pass id σ} :
    round.pass start = .ok p ↔ p.round = round ∧ p.start = start ∧ p.Valid := by
  simp only [pass, Transition.bind_eq_ok, Prod.exists, pure, Except.pure, Except.ok.injEq]
  constructor
  · rintro ⟨fetched, fetchMemory, first, accessed, third, arrived, memory, fifth, finished,
      syncTable, dma, last, rfl⟩
    exact ⟨rfl, rfl, ⟨fetched, first, rfl⟩, rfl, ⟨accessed, third, rfl⟩, rfl, ⟨arrived, fifth, rfl⟩,
      ⟨finished, last, rfl⟩⟩
  · rintro ⟨rfl, rfl, ⟨fetched, first, one⟩, two, ⟨accessed, third, three⟩, four,
      ⟨arrived, fifth, five⟩, finished, last, six⟩
    rw [two, one] at third
    rw [four, three] at fifth
    rw [five] at last
    refine ⟨fetched, p.fetchMemory, first, accessed, third, arrived, p.memory, fifth, finished,
      p.syncTable, p.dma, last, ?_⟩
    rw [← one, ← two, ← three, ← four, ← five, ← six]

/-- Passes that follow each other, from whatever state of the thread. -/
abbrev History (id : ThreadId) (σ : Type) :=
  Timeline (Pass.start : Pass id σ → HwThread id) Pass.finished Pass.Valid

/-- A list of rounds that all return makes a history. -/
def History.ofPasses {start : HwThread id} {rounds : List (Round σ)} {first : Pass id σ}
    {later : List (Pass id σ)}
    (returns : Timeline.record Round.pass Pass.finished rounds start = .ok (first :: later)) :
    History id σ where
  length := later.length + 1
  entry n := (first :: later).getD n first
  valid n bound := by
    have linked := Timeline.record_linked Pass.start
      (fun _ _ _ runs => (Round.pass_eq_ok.mp runs).2.1) returns first
    obtain ⟨round, moves⟩ := linked.1 n (by simpa using bound)
    exact (Round.pass_eq_ok.mp moves).2.2
  linked n bound :=
    (Timeline.record_linked Pass.start
      (fun _ _ _ runs => (Round.pass_eq_ok.mp runs).2.1) returns first).2.1 n (by simpa using bound)

/-- A run of a thread from reset. -/
structure Run (id : ThreadId) (σ : Type) extends
    Timeline (Pass.start : Pass id σ → HwThread id) Pass.finished Pass.Valid where
  reset : ∃ pc windowReg, (entry 0).start = .reset id pc windowReg

namespace Run

variable (pc : Word) (windowReg : Fin (16 * registerWindows) → Word)

/-- The passes that a list of rounds makes of a thread from reset. -/
def passes (rounds : List (Round σ)) : Except Halt (List (Pass id σ)) :=
  Timeline.record Round.pass Pass.finished rounds (.reset id pc windowReg)

/-- A list of rounds that all return makes a run. -/
def ofPasses {rounds : List (Round σ)} {first : Pass id σ} {later : List (Pass id σ)}
    (returns : passes pc windowReg rounds = .ok (first :: later)) : Run id σ where
  length := later.length + 1
  entry n := (first :: later).getD n first
  valid n bound := by
    have linked := Timeline.record_linked Pass.start
      (fun _ _ _ runs => (Round.pass_eq_ok.mp runs).2.1) returns first
    obtain ⟨round, moves⟩ := linked.1 n (by simpa using bound)
    exact (Round.pass_eq_ok.mp moves).2.2
  linked n bound :=
    (Timeline.record_linked Pass.start
      (fun _ _ _ runs => (Round.pass_eq_ok.mp runs).2.1) returns first).2.1 n (by simpa using bound)
  reset := ⟨pc, windowReg, (Timeline.record_linked Pass.start
    (fun _ _ _ runs => (Round.pass_eq_ok.mp runs).2.1) returns first).2.2 (by simp)⟩

end Run

end

end PretIss
