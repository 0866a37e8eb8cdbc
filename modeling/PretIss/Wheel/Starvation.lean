import PretIss.Wheel.Schedule
import PretIss.Wheel.Windows

/-! How long a request has to wait. The windows are one cycle longer than a multiple
of the six pipeline slots, so the slots of a thread fall on the same offsets of its
window in every rotation: the memory stage on the first offset and the fetch stage on
the third. Whether a slot is ever served depends on how many offsets the delay leaves
open, and on how much of a rotation the `int` of the wheel counts right. -/

namespace PretIss

def WheelRequest.Issued (asked : WheelRequest) : Prop := asked.numWords = 1 ∨ asked.numWords = 4

def WheelStep.Issued : WheelStep → Prop
  | .request _ asked => asked.Issued
  | .behavior => True
  | .cycleCounter => True

namespace WheelState

open WheeledMem (construct windowOf delay opens_iff)

variable {latD throughputD : BitVec 32}

def ownTurn (tid : ThreadId) : Nat := (tid.val + 5) % 6

/-- The window of the thread begins before the cycles of a rotation become negative numbers,
or thread 0 gets it back because it is the one window before the wrap. -/
def InRange (tid : ThreadId) (window : Nat) : Prop :=
  ownTurn tid * window < 2 ^ 31 ∨ (tid = 0 ∧ 2 ^ 32 < 7 * window)

instance (tid : ThreadId) (window : Nat) : Decidable (InRange tid window) :=
  inferInstanceAs (Decidable (_ ∨ _))

theorem windowOf_of_room (positive : 1 ≤ latD.toInt)
    (room : 6 * (windowOf latD none).toNat ≤ 2 ^ 32) :
    (windowOf latD none).toNat = (latD.toNat + 5) / 6 * 6 + 1 ∧
      6 * (windowOf latD none).toNat < 2 ^ 32 ∧ (windowOf latD none).toNat ≤ latD.toNat + 6 := by
  obtain ⟨_, length⟩ | length | length := windowOf_none positive <;> omega

section Turn

variable (positive : 1 ≤ latD.toInt) (room : 6 * (windowOf latD none).toNat ≤ 2 ^ 32)
  (tid : ThreadId) {cycle : Nat} (known : cycle < 2 ^ 32)

include positive room

theorem slot_of_position (own : Rotation.turn (windowOf latD none).toNat 6 cycle = ownTurn tid) :
    cycle % 6 = (tid.val + 5 + Rotation.offset (windowOf latD none).toNat cycle) % 6 := by
  obtain ⟨length, _, _⟩ := windowOf_of_room positive room
  generalize (windowOf latD none).toNat = window at own length ⊢
  have single : window % 6 = 1 := by omega
  calc cycle % 6
      = (ownTurn tid * window + Rotation.offset window cycle) % 6 := by
        rw [Rotation.phase_eq (Dvd.intro_left window rfl) cycle, own]
    _ = (ownTurn tid + Rotation.offset window cycle) % 6 := by
        have whole : ownTurn tid * window % 6 = ownTurn tid % 6 := by
          rw [Nat.mul_mod, single, Nat.mul_one, Nat.mod_mod]
        rw [Nat.add_mod, whole, ← Nat.add_mod]
    _ = (tid.val + 5 + Rotation.offset window cycle) % 6 := by
        unfold ownTurn
        omega

include known

theorem currentThread_position {w : WheeledMem}
    (made : w.Made latD throughputD (windowOf latD none)) {turn offset : Nat}
    (own : Rotation.turn (windowOf latD none).toNat 6 cycle = turn)
    (inside : Rotation.offset (windowOf latD none).toNat cycle = offset) :
    (turn * (windowOf latD none).toNat + offset < 2 ^ 31 →
      w.currentThread (BitVec.ofNat 32 cycle) = ((1 + turn) % 6 : Nat)) ∧
    (2 ^ 31 ≤ turn * (windowOf latD none).toNat + offset →
      w.currentThread (BitVec.ofNat 32 cycle) =
        1 - ((2 ^ 32 - (turn * (windowOf latD none).toNat + offset)) /
          (windowOf latD none).toNat : Nat)) := by
  obtain ⟨length, wraps, _⟩ := windowOf_of_room positive room
  rw [← made.memoryWindow] at own inside length wraps ⊢
  have long : 0 < w.memoryWindow.toNat := by omega
  have short : w.memoryWindow.toNat < 2 ^ 31 := by omega
  have counter : (BitVec.ofNat 32 cycle).toNat = cycle := by
    rw [BitVec.toNat_ofNat, Nat.mod_eq_of_lt known]
  have position : (w.windowCycle (BitVec.ofNat 32 cycle)).toNat =
      turn * w.memoryWindow.toNat + offset := by
    rw [WheeledMem.windowCycle_toNat wraps, counter, Rotation.position_eq, own, inside]
  constructor
  · intro early
    rw [WheeledMem.currentThread_early long short wraps _ (position ▸ early), counter, own]
  · intro late
    rw [WheeledMem.currentThread_late long short wraps _ (position ▸ late), position]

theorem turn_of_own {w : WheeledMem} (made : w.Made latD throughputD (windowOf latD none))
    (own : Rotation.turn (windowOf latD none).toNat 6 cycle = ownTurn tid)
    (near : Rotation.offset (windowOf latD none).toNat cycle ≤ 2)
    (range : InRange tid (windowOf latD none).toNat) :
    ((tid.val : Nat) : Int) = w.currentThread (BitVec.ofNat 32 cycle) := by
  obtain ⟨early, late⟩ := currentThread_position positive room known made own rfl
  obtain ⟨length, wraps, _⟩ := windowOf_of_room positive room
  generalize (windowOf latD none).toNat = window at *
  generalize Rotation.offset window cycle = offset at *
  have bound : tid.val < 6 := tid.isLt
  by_cases before : ownTurn tid * window + offset < 2 ^ 31
  · rw [early before]
    unfold ownTurn
    omega
  · rw [late (by omega)]
    obtain first | ⟨rfl, last⟩ := range
    · exfalso
      have turn : ownTurn tid < 6 := Nat.mod_lt _ (by decide)
      interval_cases ownTurn tid <;> omega
    · have five : ownTurn 0 = 5 := rfl
      have single : (2 ^ 32 - (ownTurn 0 * window + offset)) / window = 1 := by
        rw [five]
        exact Nat.div_eq_of_lt_le (by omega) (by omega)
      rw [single]
      rfl

theorem own_of_turn {w : WheeledMem} (made : w.Made latD throughputD (windowOf latD none))
    (near : Rotation.offset (windowOf latD none).toNat cycle ≤ 6)
    (turn : ((tid.val : Nat) : Int) = w.currentThread (BitVec.ofNat 32 cycle)) :
    Rotation.turn (windowOf latD none).toNat 6 cycle = ownTurn tid ∧
      InRange tid (windowOf latD none).toNat := by
  obtain ⟨early, late⟩ := currentThread_position positive room known made rfl rfl
  obtain ⟨length, wraps, _⟩ := windowOf_of_room positive room
  have slots : Rotation.turn (windowOf latD none).toNat 6 cycle < 6 :=
    Rotation.turn_lt (by decide) cycle
  generalize (windowOf latD none).toNat = window at *
  generalize Rotation.offset window cycle = offset at *
  generalize Rotation.turn window 6 cycle = place at *
  have bound : tid.val < 6 := tid.isLt
  by_cases before : place * window + offset < 2 ^ 31
  · rw [early before] at turn
    have own : place = ownTurn tid := by
      unfold ownTurn
      omega
    exact ⟨own, .inl (by rw [← own]; omega)⟩
  · rw [late (by omega)] at turn
    -- the quotient is one: less is beyond the last window, more is a negative number
    have few : (2 ^ 32 - (place * window + offset)) / window < 2 := by omega
    rw [Nat.div_lt_iff_lt_mul (by omega)] at few
    have last : place = 5 := by
      interval_cases place <;> omega
    subst last
    have single : (2 ^ 32 - (5 * window + offset)) / window = 1 :=
      Nat.div_eq_of_lt_le (by omega) (by omega)
    have zero : tid = 0 := Fin.ext (by rw [single] at turn; change tid.val = 0; omega)
    subst zero
    exact ⟨rfl, .inr ⟨rfl, by omega⟩⟩

end Turn

/-- Every full rotation before the counter wraps has a cycle of this pipeline slot in
which the wheel grants the thread whatever it asks for. -/
def Served (latD throughputD : BitVec 32) (tid : ThreadId) (slot : Nat) : Prop :=
  ∀ first : Nat, first + 6 * (windowOf latD none).toNat ≤ 2 ^ 32 →
    ∃ cycle, first ≤ cycle ∧ cycle < first + 6 * (windowOf latD none).toNat ∧
      cycle % 6 = (tid.val + slot) % 6 ∧
      ∀ s : WheelState, s.Reachable (fun label _ => label.Issued) latD throughputD none →
        s.elapsed = cycle → ∀ asked : WheelRequest, asked.Issued →
          ∃ wheel, asked.call s.wheel s.cycles tid.val = .ok (wheel, false)

theorem delay_pos_of_issued {asked : WheelRequest} (issued : asked.Issued)
    (positive : 1 ≤ latD.toInt) (bursts : 0 < (delay latD throughputD 4).toInt) :
    0 < (delay latD throughputD asked.numWords).toInt := by
  obtain single | burst := issued
  · rw [single, WheeledMem.delay_word]
    omega
  · rw [burst]
    exact bursts

theorem Reachable.idle_of_issued (positive : 1 ≤ latD.toInt)
    (bursts : 0 < (delay latD throughputD 4).toInt) {s : WheelState}
    (reached : s.Reachable (fun label _ => label.Issued) latD throughputD none) :
    s.wheel.Idle latD throughputD (windowOf latD none) := by
  obtain ⟨labels, issued, runs⟩ := reached
  refine Reachable.idle ⟨labels, fun entry member => ?_, runs⟩
  obtain ⟨label, before⟩ := entry
  have asked := issued _ member
  cases label with
  | request tid asked => exact fun _ => delay_pos_of_issued asked positive bursts
  | behavior => exact trivial
  | cycleCounter => exact trivial

theorem served_of_offset (positive : 1 ≤ latD.toInt)
    (bursts : 0 < (delay latD throughputD 4).toInt) (tid : ThreadId)
    (range : InRange tid (windowOf latD none).toNat) {slot place : Nat} (near : place ≤ 2)
    (phase : (tid.val + 5 + place) % 6 = (tid.val + slot) % 6)
    (fits : latD.toNat + place ≤ (windowOf latD none).toNat) :
    Served latD throughputD tid slot := by
  intro first bound
  have inside : place < (windowOf latD none).toNat := by
    have some := (latD_toNat positive).1
    omega
  obtain ⟨cycle, later, before, turn, offset⟩ := Rotation.exists_position
    (show ownTurn tid < 6 from Nat.mod_lt _ (by decide)) inside first
  have known : cycle < 2 ^ 32 := by omega
  refine ⟨cycle, later, by omega, ?_, ?_⟩
  · rw [slot_of_position positive (by omega) tid turn, offset, phase]
  · intro s reached time asked issued
    have idle := reached.idle_of_issued positive bursts
    have counter : s.cycles = BitVec.ofNat 32 cycle := by rw [cycles, time]
    have left : latD.toNat ≤ left latD s := by
      rw [left, counter, BitVec.toNat_ofNat, Nat.mod_eq_of_lt known]
      change latD.toNat ≤ _ - Rotation.offset _ cycle
      omega
    have thread := turn_of_own positive (by omega) tid known idle.toMade turn (by omega) range
    rw [← opens_iff, WheeledMem.Opens, idle.divides, divides_none positive, idle.accessing,
      isScheduled_iff positive idle.toMade, idle.getDelay, counter]
    exact ⟨rfl, ⟨thread, left⟩, delay_pos_of_issued issued positive bursts⟩

theorem reachable_cycle (latD throughputD : BitVec 32) (memoryWindow : Option (BitVec 32))
    (cycle : Nat) :
    Reachable (fun label _ => label.Issued) latD throughputD memoryWindow
      ⟨construct latD throughputD memoryWindow, cycle⟩ := by
  refine ⟨List.replicate cycle .cycleCounter, ?_, ?_⟩
  · intro entry member
    rw [(List.mem_replicate.mp (Transition.mem_of_mem_trail step entry member)).2]
    exact trivial
  · induction cycle with
    | zero => rfl
    | succ cycle ih =>
        rw [List.replicate_succ', Transition.run_append_eq_ok]
        exact ⟨_, ih, rfl⟩

theorem Served.grants {tid : ThreadId} {slot : Nat} (served : Served latD throughputD tid slot)
    (positive : 1 ≤ latD.toInt) (room : 6 * (windowOf latD none).toNat ≤ 2 ^ 32)
    {asked : WheelRequest} (issued : asked.Issued) :
    InRange tid (windowOf latD none).toNat ∧ 0 < (delay latD throughputD asked.numWords).toInt ∧
      ∃ place, (tid.val + 5 + place) % 6 = (tid.val + slot) % 6 ∧
        latD.toNat + place ≤ (windowOf latD none).toNat := by
  obtain ⟨cycle, _, before, phase, grants⟩ := served 0 (by omega)
  have reached := reachable_cycle latD throughputD none cycle
  obtain ⟨_, _, shorter⟩ := windowOf_of_room positive room
  have known : cycle < 2 ^ 32 := by omega
  have opened := opens_iff.mpr (grants _ reached rfl asked issued)
  have idle := WheeledMem.construct_idle latD throughputD none
  rw [WheeledMem.Opens, idle.accessing, isScheduled_iff positive reached.made,
    idle.getDelay] at opened
  obtain ⟨_, ⟨turn, left⟩, delayed⟩ := opened
  rw [WheelState.left, cycles, BitVec.toNat_ofNat, Nat.mod_eq_of_lt known] at left
  change latD.toNat ≤ _ - Rotation.offset _ cycle at left
  have inside : Rotation.offset (windowOf latD none).toNat cycle < (windowOf latD none).toNat :=
    Rotation.offset_lt (by omega) cycle
  obtain ⟨own, range⟩ := own_of_turn positive room tid known idle.toMade (by omega) turn
  refine ⟨range, delayed, Rotation.offset (windowOf latD none).toNat cycle, ?_, by omega⟩
  rw [← slot_of_position positive room tid own, phase]

/-- Fetches and data accesses are served in every rotation exactly if the delay is no
multiple of six, the delay of a burst does not overflow and the window is in range, or if no
rotation ends before the counter wraps. -/
theorem no_starvation_iff (latD throughputD : BitVec 32) (positive : 1 ≤ latD.toInt)
    (tid : ThreadId) :
    (Served latD throughputD tid 1 ∧ Served latD throughputD tid 5) ↔
      (2 ^ 32 < 6 * (windowOf latD none).toNat ∨
        (¬ 6 ∣ latD.toNat ∧ 0 < (delay latD throughputD 4).toInt ∧
          InRange tid (windowOf latD none).toNat)) := by
  have shorter := latD_lt_windowOf positive
  by_cases never : 2 ^ 32 < 6 * (windowOf latD none).toNat
  · simp only [never, true_or, iff_true]
    exact ⟨fun first bound => absurd bound (by omega), fun first bound => absurd bound (by omega)⟩
  · have room : 6 * (windowOf latD none).toNat ≤ 2 ^ 32 := by omega
    obtain ⟨length, _, _⟩ := windowOf_of_room positive room
    simp only [never, false_or]
    constructor
    · rintro ⟨fetch, data⟩
      obtain ⟨_, _, place, phase, fits⟩ := fetch.grants positive room
        (show (WheelRequest.read 0).Issued from .inl rfl)
      obtain ⟨range, bursts, _⟩ := data.grants positive room
        (show (WheelRequest.readBurst 0 4).Issued from .inr rfl)
      exact ⟨by omega, bursts, range⟩
    · rintro ⟨other, bursts, range⟩
      exact ⟨served_of_offset positive bursts tid range (le_refl 2) (by omega) (by omega),
        served_of_offset positive bursts tid range (Nat.zero_le 2) rfl (by omega)⟩

/-- The delays that the memory controller gives its wheel. -/
theorem no_starvation_iff_program : Served 14 4 0 1 ∧ Served 14 4 0 5 :=
  (no_starvation_iff 14 4 (by decide) 0).mpr (.inr (by decide))

/-- With a delay of six cycles no fetch is ever granted. -/
theorem fetch_starves :
    ¬ ∀ (latD throughputD : BitVec 32) (tid : ThreadId), 1 ≤ latD.toInt → 0 ≤ throughputD.toInt →
      Served latD throughputD tid 1 ∧ Served latD throughputD tid 5 := by
  intro always
  obtain ⟨_, _, place, phase, fits⟩ := (always 6 4 0 (by decide) (by decide)).1.grants (by decide)
    (by decide) (show (WheelRequest.read 0).Issued from .inl rfl)
  change 6 + place ≤ 7 at fits
  change (0 + 5 + place) % 6 = 1 at phase
  omega

end WheelState

end PretIss
