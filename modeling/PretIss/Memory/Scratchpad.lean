import PretIss.Library.Overlay
import PretIss.Memory.Contents

/-! The scratchpad as copies in front of the main memory. A transfer refreshes the copies
it moves in and drops those it moves out; a write goes to the copy, where there is
one. -/

namespace PretIss

open Overlay

namespace L1Scratch

/-- The slot of an address of the scratchpad. -/
def slotOf (spmAddr : Word) : Fin (scratchSize / 4) :=
  ⟨spmAddr.toNat / 4 % (scratchSize / 4), slot_lt spmAddr⟩

def copies (spm : L1Scratch) (addr : Word) : Option Word :=
  if addr = 0 then none else spm.mem addr

def displaces (spm : L1Scratch) (memAddr spmAddr addr : Word) : Prop :=
  inSpmRange spmAddr = true ∧ (addr = memAddr ∨ addr = spm.mainMemoryAddress (slotOf spmAddr))

def moves (spm : L1Scratch) (source target : Word) (first count : Nat) (addr : Word) : Prop :=
  ∃ i, first ≤ i ∧ i < first + count ∧
    spm.displaces (source + BitVec.ofNat 32 (i * 4)) (target + BitVec.ofNat 32 (i * 4)) addr

theorem addAddr_of_outside (spm : L1Scratch) {spmAddr : Word} (outside : inSpmRange spmAddr = false)
    (memAddr data : Word) : spm.addAddr memAddr spmAddr data = spm := by
  simp [addAddr, outside]

section

variable (spm : L1Scratch) {spmAddr : Word} (inside : inSpmRange spmAddr = true)
  (memAddr data : Word)

include inside

theorem addAddr_mem : (spm.addAddr memAddr spmAddr data).mem =
    (spm.mem.removeAddress (spm.mainMemoryAddress (slotOf spmAddr))).addAddress memAddr data := by
  simp only [addAddr, inside, if_true]
  rfl

theorem addAddr_mainMemoryAddress : (spm.addAddr memAddr spmAddr data).mainMemoryAddress =
    Function.update spm.mainMemoryAddress (slotOf spmAddr) memAddr := by
  simp only [addAddr, inside, if_true]
  rfl

end

theorem addAddr_refreshes (spm : L1Scratch) (backing : Word → Word) (memAddr spmAddr : Word) :
    Refreshes (spm.displaces memAddr spmAddr) backing spm.mem
      (spm.addAddr memAddr spmAddr (backing memAddr)).mem := by
  cases inside : inSpmRange spmAddr with
  | false =>
      rw [addAddr_of_outside spm inside]
      exact Refreshes.refl.congr (by simp [displaces, inside])
  | true =>
      rw [addAddr_mem spm inside]
      constructor
      · rintro addr ⟨_, moved⟩
        rw [MemoryUnit.addAddress_apply]
        split
        · rename_i new
          exact Or.inr (by rw [new])
        · rename_i old
          rw [MemoryUnit.removeAddress_apply, if_pos (moved.resolve_left old)]
          exact Or.inl rfl
      · intro addr other
        simp only [displaces, inside, true_and, not_or] at other
        rw [MemoryUnit.addAddress_apply, if_neg other.1, MemoryUnit.removeAddress_apply,
          if_neg other.2]

theorem slotOf_ne {target : Word} {i j : Nat} (early : i < 4) (late : j < 4) (other : i ≠ j)
    (first : inSpmRange (target + BitVec.ofNat 32 (i * 4)) = true)
    (second : inSpmRange (target + BitVec.ofNat 32 (j * 4)) = true) :
    slotOf (target + BitVec.ofNat 32 (i * 4)) ≠ slotOf (target + BitVec.ofNat 32 (j * 4)) := by
  simp only [inSpmRange, Bool.and_eq_true, beq_iff_eq, decide_eq_true_eq, scratchSize] at first second
  simp only [slotOf, scratchSize, ne_eq, Fin.mk.injEq]
  have one := congrArg BitVec.toNat first.1
  have two := congrArg BitVec.toNat second.1
  have three := BitVec.lt_def.mp first.2
  have four := BitVec.lt_def.mp second.2
  simp at one two three four ⊢
  omega

theorem displaces_addAddr (spm : L1Scratch) {source target data memAddr addr : Word} {i j : Nat}
    (early : i < 4) (late : j < 4) (other : i ≠ j) :
    (spm.addAddr source (target + BitVec.ofNat 32 (i * 4)) data).displaces memAddr
        (target + BitVec.ofNat 32 (j * 4)) addr ↔
      spm.displaces memAddr (target + BitVec.ofNat 32 (j * 4)) addr := by
  cases first : inSpmRange (target + BitVec.ofNat 32 (i * 4)) with
  | false => rw [addAddr_of_outside spm first]
  | true =>
      unfold displaces
      cases second : inSpmRange (target + BitVec.ofNat 32 (j * 4)) with
      | false => simp
      | true =>
          rw [addAddr_mainMemoryAddress spm first,
            Function.update_of_ne (slotOf_ne early late other first second).symm]

/-- Words moved from the first on, with what the backing memory holds. -/
theorem moveData_refreshes (backing : Word → Word) (source target : Word) (words : List Word)
    (spm : L1Scratch) (first : Nat) (short : first + words.length ≤ 4)
    (copied : ∀ i (inside : i < words.length),
      words[i] = backing (source + BitVec.ofNat 32 ((first + i) * 4))) :
    Refreshes (spm.moves source target first words.length) backing spm.mem
      ((words.zipIdx first).foldl
        (fun spm word => spm.addAddr (source + BitVec.ofNat 32 (word.2 * 4))
          (target + BitVec.ofNat 32 (word.2 * 4)) word.1) spm).mem := by
  induction words generalizing spm first with
  | nil =>
      apply Refreshes.refl.congr
      intro addr
      simp only [moves, List.length_nil, Nat.add_zero, iff_false, not_exists]
      omega
  | cons word rest ih =>
      rw [List.length_cons] at short
      have fresh : word = backing (source + BitVec.ofNat 32 (first * 4)) := copied 0 (by simp)
      have one := spm.addAddr_refreshes backing (source + BitVec.ofNat 32 (first * 4))
        (target + BitVec.ofNat 32 (first * 4))
      rw [← fresh] at one
      have others := ih (spm.addAddr (source + BitVec.ofNat 32 (first * 4))
        (target + BitVec.ofNat 32 (first * 4)) word) (first + 1) (by omega) (by
          intro i inside
          have word := copied (i + 1) (by simpa using inside)
          rwa [List.getElem_cons_succ, show first + (i + 1) = first + 1 + i by omega] at word)
      apply (one.trans others).congr
      intro addr
      simp only [moves, List.length_cons]
      constructor
      · rintro ⟨i, above, below, moved⟩
        obtain rfl | later := Nat.eq_or_lt_of_le above
        · exact Or.inl moved
        · exact Or.inr ⟨i, later, by omega,
            (displaces_addAddr spm (by omega) (by omega) (by omega)).mpr moved⟩
      · rintro (moved | ⟨i, above, below, moved⟩)
        · exact ⟨first, le_refl first, by omega, moved⟩
        · exact ⟨i, by omega, by omega,
            (displaces_addAddr spm (by omega) (by omega) (by omega)).mp moved⟩

theorem copies_refreshes {before after : L1Scratch} {moved : Word → Prop} {backing : Word → Word}
    (refreshes : Refreshes moved backing before.mem after.mem) :
    Refreshes moved backing before.copies after.copies where
  fresh addr member := by
    unfold copies
    split
    · exact Or.inl rfl
    · exact refreshes.fresh addr member
  kept addr other := by
    unfold copies
    rw [refreshes.kept addr other]

end L1Scratch

namespace Contents

def burstLength (source : Word) : Nat := (WheeledMem.burstAddrs source 4).length

theorem transfer_refreshes (m : Contents) (tid : ThreadId) (source target : Word) :
    Refreshes ((m.spm tid).moves source target 0 (burstLength source)) m.main.read
      (m.spm tid).copies ((m.transfer tid source target).spm tid).copies := by
  apply L1Scratch.copies_refreshes
  have count : ((WheeledMem.burstAddrs source 4).map m.main.read).length = burstLength source :=
    List.length_map _
  have moved : ((m.transfer tid source target).spm tid) = Dma.moveData (m.spm tid) source target
      ((WheeledMem.burstAddrs source 4).map m.main.read) := by
    simp [transfer, setSpm]
  rw [moved, ← count]
  apply L1Scratch.moveData_refreshes
  · rw [List.length_map]
    unfold WheeledMem.burstAddrs
    split <;> simp
  · intro i inside
    simp only [WheeledMem.burstAddrs] at inside ⊢
    split at inside
    · simp_all [Nat.mul_comm]
    · simp at inside

theorem value_eq_view (m : Contents) (tid : ThreadId) {addr : Word}
    (low : MemoryController.isMainMem addr = true) :
    m.value tid addr = view (m.spm tid).copies m.main.read addr := by
  simp only [value, place, view, L1Scratch.copies, L1Scratch.isAddrInSpm, MemoryUnit.hasAddress, low]
  by_cases zero : addr = 0
  · simp only [zero, if_true]
    rfl
  · simp only [if_neg zero]
    cases held : (m.spm tid).mem addr with
    | none => rfl
    | some data =>
        simp only [Option.isSome_some, if_true, MemoryUnit.read, held, Option.getD_some]

theorem copies_of_isAddrInSpm (spm : L1Scratch) (addr : Word) :
    (spm.copies addr).isSome = spm.isAddrInSpm addr := by
  unfold L1Scratch.copies L1Scratch.isAddrInSpm MemoryUnit.hasAddress
  split <;> rfl

theorem value_put_scratch (m : Contents) (tid : ThreadId) {addr data other : Word}
    (held : (m.spm tid).isAddrInSpm addr = true) :
    view ((m.put tid addr data).spm tid).copies (m.put tid addr data).main.read other =
      if other = addr then data else view (m.spm tid).copies m.main.read other := by
  have nonzero : addr ≠ 0 := by
    rintro rfl
    simp [L1Scratch.isAddrInSpm] at held
  simp only [put, place, held, if_true, setSpm, Function.update_self, view, L1Scratch.copies,
    MemoryUnit.addAddress_apply]
  by_cases same : other = addr
  · subst same
    simp only [if_neg nonzero, if_true, Option.getD_some]
  · simp only [if_neg same]

theorem value_put_main (m : Contents) (tid : ThreadId) {addr data other : Word}
    (absent : (m.spm tid).isAddrInSpm addr = false)
    (low : MemoryController.isMainMem addr = true) :
    view ((m.put tid addr data).spm tid).copies (m.put tid addr data).main.read other =
      if other = addr then data else view (m.spm tid).copies m.main.read other := by
  simp only [put, place, absent, low, Bool.false_eq_true, if_false, if_true, view, MemoryUnit.read,
    MemoryUnit.addAddress_apply]
  by_cases same : other = addr
  · subst same
    have none : (m.spm tid).copies other = none := by
      rw [← Option.not_isSome_iff_eq_none, copies_of_isAddrInSpm, absent]
      simp
    simp only [none, if_true, Option.getD_none, Option.getD_some]
  · simp only [if_neg same]

theorem value_eq_mapped (m : Contents) (tid : ThreadId) {addr : Word}
    (high : MemoryController.isMainMem addr = false) :
    m.value tid addr = ((m.spm tid).copies addr).getD (m.mapped.read addr) := by
  have nonzero : addr ≠ 0 := by
    rintro rfl
    cases high
  simp only [value, place, L1Scratch.copies, L1Scratch.isAddrInSpm, MemoryUnit.hasAddress, high,
    if_neg nonzero]
  cases held : (m.spm tid).mem addr with
  | none => rfl
  | some data => simp only [Option.isSome_some, if_true, MemoryUnit.read, held, Option.getD_some]

/-- The mapped registers change where they are written only. -/
theorem value_put_mapped (m : Contents) (tid : ThreadId) (addr data : Word) {other : Word}
    (high : MemoryController.isMainMem other = false) :
    (m.put tid addr data).value tid other = if other = addr then data else m.value tid other := by
  rw [value_eq_mapped _ tid high, value_eq_mapped _ tid high]
  cases held : (m.spm tid).isAddrInSpm addr with
  | true =>
      have nonzero : addr ≠ 0 := by
        rintro rfl
        simp [L1Scratch.isAddrInSpm] at held
      simp only [put, place, held, if_true, setSpm, Function.update_self, L1Scratch.copies,
        MemoryUnit.addAddress_apply]
      by_cases same : other = addr
      · subst same
        simp only [if_neg nonzero, if_true, Option.getD_some]
      · simp only [if_neg same]
  | false =>
      cases own : MemoryController.isMainMem addr with
      | true =>
          have different : other ≠ addr := by
            rintro rfl
            rw [high] at own
            cases own
          simp only [put, place, held, own, if_neg different, Bool.false_eq_true, if_false, if_true]
      | false =>
          simp only [put, place, held, own, Bool.false_eq_true, if_false, MemoryUnit.read,
            MemoryUnit.addAddress_apply]
          by_cases same : other = addr
          · subst same
            have none : (m.spm tid).copies other = none := by
              rw [← Option.not_isSome_iff_eq_none, copies_of_isAddrInSpm, held]
              simp
            simp only [none, if_true, Option.getD_none, Option.getD_some]
          · simp only [if_neg same]

theorem value_put (m : Contents) (tid : ThreadId) (addr data other : Word) :
    (m.put tid addr data).value tid other = if other = addr then data else m.value tid other := by
  cases low : MemoryController.isMainMem other with
  | false => exact value_put_mapped m tid addr data low
  | true =>
      rw [value_eq_view _ tid low, value_eq_view _ tid low]
      cases held : (m.spm tid).isAddrInSpm addr with
      | true => exact value_put_scratch m tid held
      | false =>
          cases own : MemoryController.isMainMem addr with
          | true => exact value_put_main m tid held own
          | false =>
              have different : other ≠ addr := by
                rintro rfl
                rw [low] at own
                cases own
              rw [if_neg different]
              simp only [put, place, held, own, Bool.false_eq_true, if_false]

end Contents

end PretIss
