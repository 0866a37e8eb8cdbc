import PretIss.Machine.Architecture
import PretIss.Pipeline.Threads

/-! The sequential machine with its time. Time is counted in passes of the thread through
the pipeline. The slots of a thread come round every nineteen passes, once for a fetch and
once for a load or a store; an access to the main memory waits for its slot, and every
other access is served at once. -/

namespace PretIss

open Core.History (fetchCall)

namespace Sparc

def wait (turn pass : Nat) : Nat := (turn + 19 - pass % 19) % 19

def fetchTurn (id : ThreadId) : Nat := (3 * id.val + 16) % 19

def dataTurn (id : ThreadId) : Nat := (3 * id.val + 15) % 19

theorem wait_eq_zero {turn : Nat} (known : turn < 19) (pass : Nat) :
    wait turn pass = 0 ↔ pass % 19 = turn := by
  unfold wait
  omega

theorem wait_succ {turn pass : Nat} (waits : wait turn pass ≠ 0) :
    wait turn (pass + 1) + 1 = wait turn pass := by
  unfold wait at waits ⊢
  omega

theorem wait_le {turn pass later : Nat} (reached : later % 19 = turn) (future : pass ≤ later) :
    pass + wait turn pass ≤ later := by
  unfold wait
  omega

theorem wait_lt (turn pass : Nat) : wait turn pass < 19 := Nat.mod_lt _ (by decide)

theorem slotGranted_ofNat (id : ThreadId) {cycle : Nat} (small : cycle < 2 ^ 32) :
    slotGranted (BitVec.ofNat 32 cycle) id = true ↔
      cycle % 19 ≤ 5 ∧ id.val = (1 + cycle % 114 / 19) % 6 := by
  rw [slotGranted, BitVec.toNat_ofNat, Nat.mod_eq_of_lt small, Bool.and_eq_true, decide_eq_true_eq,
    beq_iff_eq]

theorem slotGranted_pass (id : ThreadId) (late pass : Nat)
    (small : fetchCall id pass + late < 2 ^ 32) :
    slotGranted (BitVec.ofNat 32 (fetchCall id pass + late)) id = true ↔
      (id.val + 1 + 6 * (pass % 19) + late) % 19 ≤ 5 ∧
        id.val = (1 + (id.val + 1 + 6 * (pass % 19) + late) % 114 / 19) % 6 := by
  have whole : fetchCall id pass + late =
      id.val + 1 + 6 * (pass % 19) + late + 114 * (pass / 19) := by
    unfold fetchCall
    omega
  have short : (id.val + 1 + 6 * (pass % 19) + late + 114 * (pass / 19)) % 19 =
      (id.val + 1 + 6 * (pass % 19) + late) % 19 := by
    omega
  rw [slotGranted_ofNat id small, whole, Nat.add_mul_mod_self_left, short]

theorem slotGranted_fetch (id : ThreadId) {pass : Nat} (small : fetchCall id pass < 2 ^ 32) :
    slotGranted (BitVec.ofNat 32 (fetchCall id pass)) id = true ↔
      wait (fetchTurn id) pass = 0 := by
  have turns : ∀ id : ThreadId, ∀ r : Fin 19, ((id.val + 1 + 6 * r.val + 0) % 19 ≤ 5 ∧
      id.val = (1 + (id.val + 1 + 6 * r.val + 0) % 114 / 19) % 6) ↔ r.val = fetchTurn id := by
    decide
  have turn : fetchTurn id < 19 := Nat.mod_lt _ (by decide)
  rw [wait_eq_zero turn, ← turns id ⟨pass % 19, Nat.mod_lt _ (by decide)⟩]
  exact slotGranted_pass id 0 pass small

theorem slotGranted_data (id : ThreadId) {pass : Nat} (small : fetchCall id pass + 4 < 2 ^ 32) :
    slotGranted (BitVec.ofNat 32 (fetchCall id pass + 4)) id = true ↔
      wait (dataTurn id) pass = 0 := by
  have turns : ∀ id : ThreadId, ∀ r : Fin 19, ((id.val + 1 + 6 * r.val + 4) % 19 ≤ 5 ∧
      id.val = (1 + (id.val + 1 + 6 * r.val + 4) % 114 / 19) % 6) ↔ r.val = dataTurn id := by
    decide
  have turn : dataTurn id < 19 := Nat.mod_lt _ (by decide)
  rw [wait_eq_zero turn, ← turns id ⟨pass % 19, Nat.mod_lt _ (by decide)⟩]
  exact slotGranted_pass id 4 pass small

end Sparc

/-- The passes that an access waits for its slot. -/
def Contents.delay (m : Contents) (id : ThreadId) (addr : Word) (turn pass : Nat) : Nat :=
  match m.place id addr with
  | some (.main _) => Sparc.wait turn pass
  | some (.mapped _) | none => 0

namespace Contents

variable {m : Contents} {id : ThreadId} {addr : Word} {turn pass : Nat}

theorem delay_succ (waits : m.delay id addr turn pass ≠ 0) :
    m.delay id addr turn (pass + 1) + 1 = m.delay id addr turn pass := by
  unfold delay at waits ⊢
  split at waits
  · exact Sparc.wait_succ waits
  · exact absurd rfl waits
  · exact absurd rfl waits

theorem delay_le (m : Contents) (id : ThreadId) (addr : Word) {turn pass later : Nat}
    (reached : later % 19 = turn) (future : pass ≤ later) :
    pass + m.delay id addr turn pass ≤ later := by
  unfold delay
  split
  · exact Sparc.wait_le reached future
  · exact future
  · exact future

theorem granted_iff_delay {cycles : BitVec 32}
    (slot : slotGranted cycles id = true ↔ Sparc.wait turn pass = 0) :
    m.granted cycles id addr = true ↔ m.delay id addr turn pass = 0 := by
  unfold granted delay
  cases m.place id addr with
  | none => simp
  | some location =>
      cases location with
      | main => exact slot
      | mapped => simp

end Contents

namespace Sparc

namespace State

variable (s : State) (id : ThreadId)

def fetched (pass : Nat) : Nat := pass + s.memory.delay id s.counters.pc (fetchTurn id) pass

def completed (pass : Nat) : Nat :=
  if (memoryOp (s.word id)).isSome then
    s.fetched id pass + s.memory.delay id (Mem.alignedAddr (s.address (s.word id))) (dataTurn id)
      (s.fetched id pass)
  else s.fetched id pass

theorem le_completed (pass : Nat) : s.fetched id pass ≤ s.completed id pass := by
  unfold completed
  split
  · exact Nat.le_add_right _ _
  · exact le_rfl

end State

structure Timed where
  state : State
  pass : Nat

def Timed.next (id : ThreadId) (x : Timed) : Timed where
  state := x.state.step id
  pass := x.state.completed id x.pass + 1

namespace Timed

variable (id : ThreadId)

def slot (x : Timed) : Nat := x.pass + wait (fetchTurn id) x.pass

theorem slot_next (x : Timed) : slot id (x.next id) ≤ slot id x + 19 := by
  have turn : slot id x % 19 = fetchTurn id := by
    have known : fetchTurn id < 19 := Nat.mod_lt _ (by decide)
    unfold slot wait
    omega
  have data : (slot id x + 18) % 19 = dataTurn id := by
    have both : (fetchTurn id + 18) % 19 = dataTurn id := by
      unfold fetchTurn dataTurn
      omega
    rw [← both, ← turn]
    omega
  have fetched : x.state.fetched id x.pass ≤ slot id x :=
    x.state.memory.delay_le id _ turn (Nat.le_add_right _ _)
  have done : x.state.completed id x.pass + 1 ≤ slot id x + 19 := by
    unfold State.completed
    split
    · have served := x.state.memory.delay_le id (Mem.alignedAddr (x.state.address
        (x.state.word id))) data (show x.state.fetched id x.pass ≤ slot id x + 18 by omega)
      omega
    · omega
  exact wait_le (by omega) done

theorem pass_le {x : Timed} {pass : Nat} (due : x.pass ≤ pass) (k : Nat) :
    ((next id)^[k] x).pass ≤ pass + 19 * k + 18 := by
  have turn : (pass + wait (fetchTurn id) pass) % 19 = fetchTurn id := by
    have known : fetchTurn id < 19 := Nat.mod_lt _ (by decide)
    unfold wait
    omega
  have first : slot id x ≤ pass + 18 := by
    have near := wait_le turn (show x.pass ≤ pass + wait (fetchTurn id) pass by omega)
    have short := wait_lt (fetchTurn id) pass
    unfold slot
    omega
  have reached : ∀ k, slot id ((next id)^[k] x) ≤ slot id x + 19 * k := by
    intro k
    induction k with
    | zero => exact le_rfl
    | succ k ih =>
        rw [Function.iterate_succ_apply']
        have step := slot_next id ((next id)^[k] x)
        omega
  have late := reached k
  unfold slot at late first
  omega

theorem pass_lt_next (x : Timed) : x.pass < (x.next id).pass := by
  have fetched : x.pass ≤ x.state.fetched id x.pass := Nat.le_add_right _ _
  exact Nat.lt_succ_of_le (fetched.trans (x.state.le_completed id x.pass))

end Timed

end Sparc

end PretIss
