import Mathlib.Logic.Basic

/-! A memory some of whose words have copies in front of it. A copy is read and written
in place of its word, so it may come to differ from it; the word that is read then
depends on whether the copy is there. -/

namespace Overlay

variable {α β : Type*}

def view (copies : α → Option β) (backing : α → β) (a : α) : β := (copies a).getD (backing a)

def Dirty (copies : α → Option β) (backing : α → β) (a : α) : Prop :=
  ∃ b, copies a = some b ∧ b ≠ backing a

structure Refreshes (moved : α → Prop) (backing : α → β) (before after : α → Option β) :
    Prop where
  fresh : ∀ a, moved a → after a = none ∨ after a = some (backing a)
  kept : ∀ a, ¬ moved a → after a = before a

variable {moved later : α → Prop} {backing : α → β} {before middle after : α → Option β}

theorem Refreshes.refl : Refreshes (fun _ => False) backing before before where
  fresh _ none := none.elim
  kept _ _ := rfl

theorem Refreshes.congr (refreshes : Refreshes moved backing before after)
    (same : ∀ a, later a ↔ moved a) : Refreshes later backing before after where
  fresh a member := refreshes.fresh a ((same a).mp member)
  kept a other := refreshes.kept a (mt (same a).mpr other)

theorem Refreshes.trans (first : Refreshes moved backing before middle)
    (second : Refreshes later backing middle after) :
    Refreshes (fun a => moved a ∨ later a) backing before after where
  fresh a member := by
    by_cases again : later a
    · exact second.fresh a again
    · rw [second.kept a again]
      exact first.fresh a (member.resolve_right again)
  kept a other := by
    obtain ⟨notFirst, notSecond⟩ := not_or.mp other
    rw [second.kept a notSecond, first.kept a notFirst]

theorem Refreshes.view_moved (refreshes : Refreshes moved backing before after) {a : α}
    (member : moved a) : view after backing a = backing a := by
  obtain gone | copied := refreshes.fresh a member
  · rw [view, gone, Option.getD_none]
  · rw [view, copied, Option.getD_some]

theorem Refreshes.view_kept (refreshes : Refreshes moved backing before after) {a : α}
    (other : ¬ moved a) : view after backing a = view before backing a := by
  unfold view
  rw [refreshes.kept a other]

theorem view_ne_iff (a : α) : view before backing a ≠ backing a ↔ Dirty before backing a := by
  unfold view Dirty
  cases before a with
  | none => simp
  | some b => simp

theorem Refreshes.view_iff (refreshes : Refreshes moved backing before after) (a : α) :
    view after backing a = view before backing a ↔ ¬ (moved a ∧ Dirty before backing a) := by
  by_cases member : moved a
  · rw [refreshes.view_moved member, ← view_ne_iff, eq_comm]
    simp [member]
  · simp [refreshes.view_kept member, member]

end Overlay
