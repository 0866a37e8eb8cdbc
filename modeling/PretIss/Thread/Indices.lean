import PretIss.Thread.Stable

/-! The indices by which the stages reach into the state arrays of a thread, and the numbers
by which they name its registers. The model halts where an index is outside its array; a
register number it takes as it is, as the register file does. -/

namespace PretIss

inductive Access where
  | asr (index : Int)
  | dt (index : Int)
  | dtStatus (index : Int)
  | plldt (index : Int)
  | pllLoad (index : Int)
  | register (registerNumber : Nat)
  deriving DecidableEq, Repr

namespace Access

def size : Access → Nat
  | .asr _ => 32
  | .dt _ | .dtStatus _ => numDeadlineTimers
  | .plldt _ | .pllLoad _ => numPllTimers
  | .register _ => 32

def position : Access → Int
  | .asr index | .dt index | .dtStatus index | .plldt index | .pllLoad index => index
  | .register registerNumber => registerNumber

def InBounds (access : Access) : Prop := 0 ≤ access.position ∧ access.position < access.size

instance : DecidablePred InBounds := fun _ => instDecidableAnd

end Access

variable {id : ThreadId} {σ : Type}

/-- Counting down goes through all timers, which `decrement_deadline_timers` does for a thread
that is enabled. -/
def Fetch.accesses (ht : HwThread id) : List Access :=
  if ht.enabled then (List.range numDeadlineTimers).flatMap fun i => [.dt i, .dtStatus i] else []

namespace Regacc

def deadlineAccesses (ht : HwThread id) : List Access :=
  if ht.inst.selectSpecialRegister = some .dt then
    if ht.inst.rd < numDeadlineTimers then [.dt ht.inst.rd, .dtStatus ht.inst.rd]
    else [.pllLoad (ht.inst.rd - 8)]
  else []

def operandAccesses (ht : HwThread id) : List Access :=
  .register ht.inst.rs1 :: (if ht.inst.useImm then [] else [.register ht.inst.rs2]) ++
    [.register (doubleWordInstruction ht).inst.rd]

/-- Between the two, `missed_deadline` goes through the statuses of all timers. -/
def accesses (ht : HwThread id) : List Access :=
  if ht.isNotValid then []
  else
    deadlineAccesses ht ++
      match deadlineInstruction ht with
      | .ok waited =>
          (List.range numDeadlineTimers).map (fun i => .dtStatus i) ++ operandAccesses waited
      | .error _ => []

end Regacc

namespace ExceptStage

def deadAccesses (ht : HwThread id) : List Access :=
  if ht.specRegs.pllLoaded && ht.inst.writeSpecialRegisters then [.pllLoad (ht.inst.rd - 8)]
  else []

def trapAccesses (ht : HwThread id) : List Access :=
  if takesTrap ht ∧ 0x70 ≤ trapOffset ht ∧ trapOffset ht < 0x79 then
    [.dtStatus ((trapOffset ht).toNat - 0x70)]
  else []

def writeAccesses (ht : HwThread id) : List Access :=
  if ht.inst.writeRegisters then
    (if ht.inst.selectSpecialRegister = some .asr then [.asr ht.inst.rs1] else []) ++
      [.register ht.inst.rd]
  else []

def writeSpecialAccesses (ht : HwThread id) : List Access :=
  if ht.inst.writeSpecialRegisters then
    match ht.inst.selectSpecialRegister with
    | some .asr => [.asr ht.inst.rd]
    | some .dt =>
        if ht.inst.rd < numDeadlineTimers then [.dt ht.inst.rd] else [.pllLoad (ht.inst.rd - 8)]
    | _ => []
  else []

def commitAccesses (ht : HwThread id) : List Access :=
  trapAccesses ht ++
    match handleExceptions ht with
    | .ok (squashed, _) => writeAccesses squashed ++ writeSpecialAccesses squashed
    | .error _ => []

def accesses (ht : HwThread id) : List Access :=
  if ht.isNotValid then []
  else if ht.deadlineStalled then deadAccesses (arrive ht)
  else if ht.memoryStalled then []
  else commitAccesses (arrive ht)

end ExceptStage

/-- A call that a thread meets on its way: of a stage, or of the PLL clock. -/
inductive Call (id : ThreadId) where
  | stage (stage : Stage) (ht : HwThread id)
  | pll

namespace Call

/-- The stages that are left out reach into no array. -/
def accesses : Call id → List Access
  | .stage .fetch ht => Fetch.accesses ht
  | .stage .regacc ht => Regacc.accesses ht
  | .stage .except ht => ExceptStage.accesses ht
  | .stage .decode _ | .stage .execute _ | .stage .mem _ => []
  | .pll => (List.range numPllTimers).flatMap fun i => [.plldt i, .pllLoad i]

end Call

namespace Round

variable (round : Round σ)

def clock (stage : Stage) : List (Call id) := List.replicate (round.ticks stage) .pll

def callsFromMem (executed : HwThread id) : List (Call id) :=
  .stage .mem executed ::
    match Mem.behavior round.dataMem executed round.memory with
    | .ok (arrived, _) => round.clock .mem ++ [.stage .except (round.after .mem arrived)]
    | .error _ => []

def callsFromRegacc (decoded : HwThread id) : List (Call id) :=
  .stage .regacc decoded ::
    match Regacc.behavior decoded with
    | .ok accessed =>
        let accessed := round.after .regacc accessed
        round.clock .regacc ++ .stage .execute accessed ::
          (round.clock .execute ++
            round.callsFromMem (round.after .execute (Execute.behavior accessed)))
    | .error _ => []

/-- The calls that a pass makes, up to one that halts. -/
def calls (start : HwThread id) : List (Call id) :=
  .stage .fetch start ::
    match Fetch.behavior round.instructionMemory start round.fetchMemory with
    | .ok (fetched, _) =>
        let fetched := round.after .fetch fetched
        round.clock .fetch ++ .stage .decode fetched ::
          (round.clock .decode ++
            round.callsFromRegacc (round.after .decode (Decode.behavior fetched)))
    | .error _ => []

/-- A pass as a step from a thread to what becomes of it. -/
def step (round : Round σ) (start : HwThread id) : Except Halt (HwThread id) := do
  let p ← round.pass start
  return p.finished

end Round

/-- The calls of a thread that runs from reset, through all the rounds or up to a call that
halts. -/
def Run.calls (id : ThreadId) (pc : Word) (windowReg : Fin (16 * registerWindows) → Word)
    (rounds : List (Round σ)) : List (Call id) :=
  (Transition.trail Round.step rounds (HwThread.reset id pc windowReg)).flatMap fun entry =>
    entry.1.calls entry.2

/-! ### Where the model halts -/

theorem arrayGet_returns_iff {α : Type} {n : Nat} (array : Fin n → α) (index : Int) :
    (∃ value, arrayGet array index = .ok value) ↔ 0 ≤ index ∧ index < n := by
  unfold arrayGet
  split
  · rename_i inside
    exact iff_of_true ⟨_, rfl⟩ inside
  · rename_i outside
    exact iff_of_false (by simp) outside

namespace Regacc

end Regacc

namespace ExceptStage

end ExceptStage

end PretIss
