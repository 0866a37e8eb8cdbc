import PretIss.Isolation.Stages
import PretIss.Memory.Scratchpad

/-! One turn of the transfer engine. It serves a pending transfer in the slots of its
thread and leaves the other threads alone; the words of a transfer that fits are in
their slots afterwards. -/

namespace PretIss

variable {t : ThreadId}

namespace L1Scratch

structure Places (spm : L1Scratch) (source target : Word) (i : Nat) (data : Word) : Prop where
  inside : inSpmRange (target + BitVec.ofNat 32 (i * 4)) = true
  slot : spm.mainMemoryAddress (slotOf (target + BitVec.ofNat 32 (i * 4))) =
    source + BitVec.ofNat 32 (i * 4)
  word : spm.mem (source + BitVec.ofNat 32 (i * 4)) = some data

/-- The slots of a transfer are in the scratchpad, the source does not run past the end of
the addresses, and no slot but the first remembers a word that the transfer has placed
before. -/
structure Fits (spm : L1Scratch) (source target : Word) : Prop where
  within : source < source + 16
  inside : ∀ i, i < 4 → inSpmRange (target + BitVec.ofNat 32 (i * 4)) = true
  apart : ∀ i j, i < j → j < 4 →
    spm.mainMemoryAddress (slotOf (target + BitVec.ofNat 32 (j * 4))) ≠
      source + BitVec.ofNat 32 (i * 4)

theorem sources_ne {source : Word} {i j : Nat} (early : i < 4) (late : j < 4) (other : i ≠ j) :
    source + BitVec.ofNat 32 (i * 4) ≠ source + BitVec.ofNat 32 (j * 4) := by
  intro same
  have numbers := congrArg BitVec.toNat (BitVec.add_right_inj source |>.mp same)
  simp only [BitVec.toNat_ofNat] at numbers
  omega

variable {spm : L1Scratch} {source target data : Word}

theorem places_addAddr {i : Nat} (inside : inSpmRange (target + BitVec.ofNat 32 (i * 4)) = true) :
    (spm.addAddr (source + BitVec.ofNat 32 (i * 4)) (target + BitVec.ofNat 32 (i * 4)) data).Places
      source target i data where
  inside := inside
  slot := by rw [addAddr_mainMemoryAddress spm inside, Function.update_self]
  word := by rw [addAddr_mem spm inside, MemoryUnit.addAddress_apply, if_pos rfl]

theorem Places.addAddr {i j : Nat} (places : spm.Places source target i data) (early : i < 4)
    (late : j < 4) (other : i ≠ j) (kept : spm.mainMemoryAddress
      (slotOf (target + BitVec.ofNat 32 (j * 4))) ≠ source + BitVec.ofNat 32 (i * 4))
    (new : Word) :
    (spm.addAddr (source + BitVec.ofNat 32 (j * 4)) (target + BitVec.ofNat 32 (j * 4)) new).Places
      source target i data := by
  cases inside : inSpmRange (target + BitVec.ofNat 32 (j * 4)) with
  | false => rwa [addAddr_of_outside spm inside]
  | true =>
      refine ⟨places.inside, ?_, ?_⟩
      · rw [addAddr_mainMemoryAddress spm inside,
          Function.update_of_ne (slotOf_ne early late other places.inside inside), places.slot]
      · rw [addAddr_mem spm inside, MemoryUnit.addAddress_apply,
          if_neg (sources_ne early late other), MemoryUnit.removeAddress_apply, if_neg kept.symm,
          places.word]

/-- The words from the first on join those that are placed already. -/
theorem places_moveData (backing : Word → Word) (words : List Word) (spm : L1Scratch) (first : Nat)
    (short : first + words.length ≤ 4)
    (inside : ∀ i, i < 4 → inSpmRange (target + BitVec.ofNat 32 (i * 4)) = true)
    (apart : ∀ i j, i < j → first ≤ j → j < 4 →
      spm.mainMemoryAddress (slotOf (target + BitVec.ofNat 32 (j * 4))) ≠
        source + BitVec.ofNat 32 (i * 4))
    (placed : ∀ i, i < first →
      spm.Places source target i (backing (source + BitVec.ofNat 32 (i * 4))))
    (copied : ∀ i (inside : i < words.length),
      words[i] = backing (source + BitVec.ofNat 32 ((first + i) * 4))) :
    ∀ i, i < first + words.length →
      ((words.zipIdx first).foldl
        (fun spm word => spm.addAddr (source + BitVec.ofNat 32 (word.2 * 4))
          (target + BitVec.ofNat 32 (word.2 * 4)) word.1) spm).Places source target i
        (backing (source + BitVec.ofNat 32 (i * 4))) := by
  induction words generalizing spm first with
  | nil => simpa using placed
  | cons word rest ih =>
      rw [List.length_cons] at short ⊢
      have fresh : word = backing (source + BitVec.ofNat 32 (first * 4)) := copied 0 (by simp)
      have own := inside first (by omega)
      rw [List.zipIdx_cons, List.foldl_cons, show first + (rest.length + 1) =
        first + 1 + rest.length by omega]
      apply ih _ (first + 1) (by omega)
      · intro i j before later bound
        rw [addAddr_mainMemoryAddress spm own, Function.update_of_ne
          (slotOf_ne bound (by omega) (by omega) (inside j bound) own)]
        exact apart i j before (by omega) bound
      · intro i before
        obtain earlier | rfl := Nat.lt_or_eq_of_le (Nat.le_of_lt_succ before)
        · exact (placed i earlier).addAddr (by omega) (by omega) (by omega)
            (apart i first earlier le_rfl (by omega)) word
        · rw [← fresh]
          exact places_addAddr own
      · intro i bound
        have word := copied (i + 1) (by simpa using bound)
        rwa [List.getElem_cons_succ, show first + (i + 1) = first + 1 + i by omega] at word

theorem Fits.places (fits : spm.Fits source target) (backing : Word → Word) {i : Nat} (bound : i < 4) :
    (Dma.moveData spm source target ((WheeledMem.burstAddrs source 4).map backing)).Places
      source target i (backing (source + BitVec.ofNat 32 (i * 4))) := by
  have burst : WheeledMem.burstAddrs source 4 =
      (List.range 4).map fun n => source + BitVec.ofNat 32 (4 * n) := if_pos fits.within
  apply places_moveData backing _ spm 0
  · rw [List.length_map, burst, List.length_map, List.length_range]
  · exact fits.inside
  · exact fun i j before _ bound => fits.apart i j before bound
  · simp
  · intro i inside
    simp only [burst, List.getElem_map, List.getElem_range]
    rw [Nat.zero_add, Nat.mul_comm]
  · rw [List.length_map, burst, List.length_map, List.length_range, Nat.zero_add]
    exact bound

end L1Scratch

namespace Dma

structure Passes (t : ThreadId) (s s' : Dma × MemoryController) : Prop where
  built : s'.2.mainMem.Constructed
  main : s'.2.contents.main = s.2.contents.main
  spm : s'.2.contents.spm t = s.2.contents.spm t
  source : s'.1.memSourceReg = s.1.memSourceReg
  target : s'.1.spmTargetReg = s.1.spmTargetReg
  state : s'.1.transferComplete t = s.1.transferComplete t

theorem Passes.refl {s : Dma × MemoryController} (built : s.2.mainMem.Constructed) : Passes t s s :=
  ⟨built, rfl, rfl, rfl, rfl, rfl⟩

theorem Passes.trans {s s' s'' : Dma × MemoryController} (first : Passes t s s')
    (second : Passes t s' s'') : Passes t s s'' where
  built := second.built
  main := second.main.trans first.main
  spm := second.spm.trans first.spm
  source := second.source.trans first.source
  target := second.target.trans first.target
  state := second.state.trans first.state

variable {cycles : BitVec 32} {s s' : Dma × MemoryController}

theorem passes_serve {u : ThreadId} (other : u ≠ t) (built : s.2.mainMem.Constructed)
    (served : serve cycles s.1 s.2 u = .ok s') : Passes t s s' := by
  obtain ⟨ready, ⟨_, _, dma, contents⟩ | ⟨_, dma, contents⟩⟩ := Isolation.serve_effect built served
  · constructor
    · exact ready
    · rw [contents]
      rfl
    · rw [contents]
      exact Function.update_of_ne other.symm _ _
    · rw [dma]
      rfl
    · rw [dma]
      rfl
    · rw [dma]
      exact Function.update_of_ne other.symm _ _
  · constructor <;> simp [ready, dma, contents]

theorem passes_run {threads : List ThreadId} (away : t ∉ threads) (built : s.2.mainMem.Constructed)
    (runs : Transition.run (fun id (s : Dma × MemoryController) => serve cycles s.1 s.2 id) threads s =
      .ok s') : Passes t s s' := by
  apply Transition.invariant_run _ (Passes t s) (fun u _ => u ≠ t) _ (Passes.refl built) _ runs
  · intro u middle after other passes served
    exact passes.trans (passes_serve other passes.built served)
  · rintro entry member rfl
    exact away (Transition.mem_of_mem_trail _ entry member)

/-- The side of a thread after the turn of the engine. -/
structure Turn (t : ThreadId) (cycles : BitVec 32) (s s' : Dma × MemoryController) : Prop where
  built : s'.2.mainMem.Constructed
  main : s'.2.contents.main = s.2.contents.main
  source : s'.1.memSourceReg = s.1.memSourceReg
  target : s'.1.spmTargetReg = s.1.spmTargetReg
  state : s'.1.transferComplete t =
    if s.1.transferComplete t = .busy ∧ slotGranted cycles t = true then .idle
    else s.1.transferComplete t
  spm : s'.2.contents.spm t =
    if s.1.transferComplete t = .busy ∧ slotGranted cycles t = true then
      moveData (s.2.contents.spm t) (s.1.memSourceReg t) (s.1.spmTargetReg t)
        ((WheeledMem.burstAddrs (s.1.memSourceReg t) 4).map s.2.contents.main.read)
    else s.2.contents.spm t

/-- A turn serves the thread once, between the turns of the others. -/
theorem turn_behavior (built : s.2.mainMem.Constructed) (runs : behavior cycles s.1 s.2 = .ok s') :
    Turn t cycles s s' := by
  obtain ⟨before, after, split⟩ := List.append_of_mem (List.mem_finRange t)
  have once : (List.finRange numThreads).Nodup := List.nodup_finRange numThreads
  rw [split, List.nodup_append, List.nodup_cons] at once
  have early : t ∉ before := fun member => once.2.2 t member t List.mem_cons_self rfl
  have late : t ∉ after := once.2.1.1
  rw [behavior, split, Transition.run_append_eq_ok] at runs
  obtain ⟨middle, first, runs⟩ := runs
  obtain ⟨served, own, last⟩ := (Transition.run_cons_eq_ok _).mp runs
  have head := passes_run early built first
  obtain ⟨ready, effect⟩ := Isolation.serve_effect head.built own
  have tail := passes_run late ready last
  rw [head.state] at effect
  obtain ⟨busy, granted, dma, contents⟩ | ⟨idle, dma, contents⟩ := effect
  · constructor
    · exact tail.built
    · rw [tail.main, contents]
      exact head.main
    · rw [tail.source, dma]
      exact head.source
    · rw [tail.target, dma]
      exact head.target
    · rw [if_pos ⟨busy, granted⟩, tail.state, dma]
      exact Function.update_self t _ _
    · rw [if_pos ⟨busy, granted⟩, tail.spm, contents, ← head.spm, ← head.main, ← head.source,
        ← head.target]
      exact Function.update_self t _ _
  · constructor
    · exact tail.built
    · rw [tail.main, contents, head.main]
    · rw [tail.source, dma, head.source]
    · rw [tail.target, dma, head.target]
    · rw [if_neg idle, tail.state, dma, head.state]
    · rw [if_neg idle, tail.spm, contents, head.spm]

end Dma

end PretIss
