import Mathlib.Data.BitVec

/-! Delayed control transfer. A machine keeps the address of the instruction it
executes and of the one that follows; a transfer takes effect one instruction late,
and may annul the instruction in between. A machine can keep a single counter and a
slot for a pending target instead, where the slot zero stands for none. -/

namespace DelayedTransfer

variable {width : Nat}

structure Counters (width : Nat) where
  pc : BitVec width
  npc : BitVec width
  deriving DecidableEq

inductive Transfer (width : Nat) where
  | sequential
  | delayed (target : BitVec width)
  | skipping
  | redirected (target : BitVec width)

def Counters.next (step : BitVec width) (c : Counters width) : Transfer width → Counters width
  | .sequential => ⟨c.npc, c.npc + step⟩
  | .delayed target => ⟨c.npc, target⟩
  | .skipping => ⟨c.npc + step, c.npc + step + step⟩
  | .redirected target => ⟨target, target + step⟩

def ofSlot (step pc slot : BitVec width) : Counters width :=
  ⟨pc, if slot ≠ 0 then slot else pc + step⟩

@[simp] theorem ofSlot_zero (step pc : BitVec width) : ofSlot step pc 0 = ⟨pc, pc + step⟩ := by
  simp [ofSlot]

theorem ofSlot_eq_iff {step pc slot target : BitVec width} :
    ofSlot step pc slot = ⟨pc, target⟩ ↔
      (slot = target ∧ (target ≠ 0 ∨ pc + step = 0)) ∨ (slot = 0 ∧ target = pc + step) := by
  unfold ofSlot
  by_cases none : slot = 0
  · subst none
    simp only [ne_eq, not_true_eq_false, if_false, Counters.mk.injEq, true_and]
    constructor
    · intro next
      exact Or.inr next.symm
    · rintro (⟨rfl, zero | zero⟩ | next)
      · exact absurd rfl zero
      · exact zero
      · exact next.symm
  · simp only [ne_eq, none, not_false_eq_true, if_true, Counters.mk.injEq, true_and, false_and,
      or_false]
    constructor
    · rintro rfl
      exact ⟨rfl, Or.inl none⟩
    · exact fun held => held.1

end DelayedTransfer
