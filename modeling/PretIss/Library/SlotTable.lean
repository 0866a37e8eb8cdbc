import Mathlib.Data.List.Infix
import Mathlib.Data.Set.Card
import Mathlib.Data.Set.Finite.Range

/-! A store of bounded size: a map from keys to values, and a table of slots that
remembers for each slot the key it was last filled with. Filling a slot first takes out
of the map the key that the slot remembers. A key may have been put into several slots,
and any of them takes it out again. -/

universe u v w

structure SlotTable (ι : Type u) (α : Type v) (β : Type w) where
  held : α → Option β
  name : ι → α

namespace SlotTable

variable {ι : Type u} {α : Type v} {β : Type w}

def Named (t : SlotTable ι α β) : Prop :=
  ∀ key, (t.held key).isSome → ∃ slot, t.name slot = key

theorem Named.ncard_le {t : SlotTable ι α β} [Fintype ι] (named : t.Named) :
    {key | (t.held key).isSome}.ncard ≤ Fintype.card ι := by
  have remembered : {key | (t.held key).isSome} ⊆ Set.range t.name := named
  calc {key | (t.held key).isSome}.ncard
      ≤ (Set.range t.name).ncard := Set.ncard_le_ncard remembered (Set.finite_range t.name)
    _ ≤ (Set.univ : Set ι).ncard := by
      rw [← Set.image_univ]
      exact Set.ncard_image_le Set.finite_univ
    _ = Fintype.card ι := by rw [Set.ncard_univ, Nat.card_eq_fintype_card]

variable [DecidableEq ι] [DecidableEq α]

inductive Command (ι : Type u) (α : Type v) (β : Type w) where
  | store (slot : ι) (key : α) (value : β)
  | revise (key : α) (value : β)
  | idle

def perform (t : SlotTable ι α β) : Command ι α β → SlotTable ι α β
  | .store slot key value =>
      { held := Function.update (Function.update t.held (t.name slot) none) key (some value)
        name := Function.update t.name slot key }
  | .revise key value =>
      if (t.held key).isSome then
        { t with held := Function.update t.held key (some value) }
      else t
  | .idle => t

def performAll (t : SlotTable ι α β) (commands : List (Command ι α β)) : SlotTable ι α β :=
  commands.foldl perform t

theorem held_store (t : SlotTable ι α β) (slot : ι) (key other : α) (value : β) :
    (t.perform (.store slot key value)).held other =
      if other = key then some value else if other = t.name slot then none else t.held other := by
  simp only [perform, Function.update_apply]

theorem name_store (t : SlotTable ι α β) (slot other : ι) (key : α) (value : β) :
    (t.perform (.store slot key value)).name other = if other = slot then key else t.name other := by
  simp only [perform, Function.update_apply]

theorem held_revise (t : SlotTable ι α β) (key other : α) (value : β) :
    (t.perform (.revise key value)).held other =
      if other = key then (t.held key).map fun _ => value else t.held other := by
  simp only [perform]
  cases found : t.held key with
  | none =>
      by_cases same : other = key
      · simp [same, found]
      · simp [same]
  | some old => simp [Function.update_apply]

theorem name_revise (t : SlotTable ι α β) (key : α) (value : β) :
    (t.perform (.revise key value)).name = t.name := by
  simp only [perform]
  split <;> rfl

theorem Named.perform {t : SlotTable ι α β} (named : t.Named) (command : Command ι α β) :
    (t.perform command).Named := by
  intro key found
  cases command with
  | store slot key' value =>
      by_cases same : key = key'
      · exact ⟨slot, by rw [name_store, if_pos rfl, same]⟩
      · rw [held_store, if_neg same] at found
        by_cases old : key = t.name slot
        · simp [old] at found
        · rw [if_neg old] at found
          obtain ⟨other, known⟩ := named key found
          have elsewhere : other ≠ slot := by
            rintro rfl
            exact old known.symm
          exact ⟨other, by rw [name_store, if_neg elsewhere, known]⟩
  | revise key' value =>
      rw [held_revise] at found
      rw [name_revise]
      by_cases same : key = key'
      · rw [if_pos same, Option.isSome_map, ← same] at found
        exact named key found
      · rw [if_neg same] at found
        exact named key found
  | idle => exact named key found

theorem Named.performAll {t : SlotTable ι α β} (named : t.Named)
    (commands : List (Command ι α β)) : (t.performAll commands).Named := by
  induction commands generalizing t with
  | nil => exact named
  | cons command rest ih => exact ih (named.perform command)

def promise (key : α) (before : Option (ι × β)) : Command ι α β → Option (ι × β)
  | .store slot key' value =>
      if key' = key then some (slot, value) else before.filter fun kept => kept.1 ≠ slot
  | .revise key' value => if key' = key then before.map fun kept => (kept.1, value) else before
  | .idle => before

def promised (key : α) (commands : List (Command ι α β)) : Option (ι × β) :=
  commands.foldl (promise key) none

def Keeps (t : SlotTable ι α β) (key : α) (promised : Option (ι × β)) : Prop :=
  ∀ slot value, promised = some (slot, value) → t.held key = some value

/-- A promised key is taken out through a slot that received it before the slot that
received it last. -/
def EvictsElsewhere (t : SlotTable ι α β) (key : α) (promised : Option (ι × β)) :
    Command ι α β → Prop
  | .store slot key' _ =>
      key' ≠ key ∧ t.name slot = key ∧ ∃ last value, promised = some (last, value) ∧ last ≠ slot
  | .revise _ _ | .idle => False

theorem promise_store_of_ne {key key' : α} (other : key' ≠ key) (before : Option (ι × β))
    (slot last : ι) (value' value : β) :
    promise key before (.store slot key' value') = some (last, value) ↔
      before = some (last, value) ∧ last ≠ slot := by
  simp [promise, other, Option.filter_eq_some_iff]

theorem keeps_perform_iff {t : SlotTable ι α β} {key : α} {before : Option (ι × β)}
    (kept : t.Keeps key before) (command : Command ι α β) :
    (t.perform command).Keeps key (promise key before command) ↔
      ¬ t.EvictsElsewhere key before command := by
  cases command with
  | store slot' key' value' =>
      unfold Keeps
      simp only [EvictsElsewhere, held_store]
      by_cases same : key' = key
      · simp [promise, same]
      · simp only [promise_store_of_ne same, if_neg (Ne.symm same)]
        by_cases old : key = t.name slot'
        · simp [← old, same]
        · simp only [if_neg old, Ne.symm old, false_and, and_false, not_false_eq_true, iff_true]
          rintro slot value ⟨earlier, _⟩
          exact kept slot value earlier
  | revise key' value' =>
      simp only [EvictsElsewhere, not_false_eq_true, iff_true]
      intro slot value after
      rw [held_revise]
      simp only [promise] at after
      by_cases same : key' = key
      · rw [if_pos same] at after
        obtain ⟨old, earlier, changed⟩ := Option.map_eq_some_iff.mp after
        rw [if_pos same.symm, same, kept old.1 old.2 earlier, Option.map_some]
        exact congrArg some (Prod.mk.inj changed).2
      · rw [if_neg same] at after
        rw [if_neg (Ne.symm same)]
        exact kept slot value after
  | idle => simpa [EvictsElsewhere, Keeps, promise, perform] using kept

/-- All through a list of commands a key is held as promised, exactly if none of them takes
it out elsewhere. -/
theorem keeps_iff (t : SlotTable ι α β) (key : α) (commands : List (Command ι α β)) :
    (∀ earlier, earlier <+: commands →
        (t.performAll earlier).Keeps key (promised key earlier)) ↔
      ∀ earlier command, earlier ++ [command] <+: commands →
        ¬ (t.performAll earlier).EvictsElsewhere key (promised key earlier) command := by
  induction commands using List.reverseRecOn with
  | nil =>
      constructor
      · intro _ earlier command longer
        cases List.append_ne_nil_of_right_ne_nil earlier (List.cons_ne_nil command [])
          (List.prefix_nil.mp longer)
      · intro _ earlier shorter slot value last
        rw [List.prefix_nil.mp shorter] at last
        cases last
  | append_singleton commands command ih =>
      have step : (t.performAll commands).Keeps key (promised key commands) → _ :=
        fun kept => keeps_perform_iff kept command
      simp only [List.prefix_concat_iff]
      constructor
      · intro all earlier last found
        have before := ih.mp fun earlier shorter => all earlier (Or.inr shorter)
        obtain same | shorter := found
        · obtain ⟨rfl, one⟩ := List.append_inj' same rfl
          obtain rfl := List.singleton_inj.mp one
          rw [← step (all earlier (Or.inr (List.prefix_refl earlier)))]
          simpa [performAll, promised, List.foldl_append] using
            all (earlier ++ [last]) (Or.inl rfl)
        · exact before earlier last shorter
      · intro none earlier found
        have before := ih.mpr fun earlier last shorter => none earlier last (Or.inr shorter)
        obtain rfl | shorter := found
        · have kept := (step (before commands (List.prefix_refl commands))).mpr
            (none commands command (Or.inl rfl))
          simpa [performAll, promised, List.foldl_append] using kept
        · exact before earlier shorter

section

variable (slot : Nat → ι) (value : α → β)

def fill : Nat → List α → SlotTable ι α β → SlotTable ι α β
  | _, [], t => t
  | n, key :: rest, t => fill (n + 1) rest (t.perform (.store (slot n) key (value key)))

def fillAll (lists : List (List α)) (t : SlotTable ι α β) : SlotTable ι α β :=
  lists.foldl (fun t keys => fill slot value 0 keys t) t

def Remembers (t : SlotTable ι α β) (first last : Nat) (key : α) : Prop :=
  ∃ i, i < last ∧ first ≤ i ∧ t.name (slot i) = key

instance (t : SlotTable ι α β) (first last : Nat) (key : α) :
    Decidable (Remembers slot t first last key) :=
  inferInstanceAs (Decidable (∃ i, i < last ∧ first ≤ i ∧ t.name (slot i) = key))

variable {slot value}

theorem name_fill_of_other {keys : List α} {n : Nat} {t : SlotTable ι α β} {other : ι}
    (outside : ∀ i, n ≤ i → i < n + keys.length → other ≠ slot i) :
    (fill slot value n keys t).name other = t.name other := by
  induction keys generalizing n t with
  | nil => rfl
  | cons key rest ih =>
      rw [List.length_cons] at outside
      rw [fill, ih fun i above below => outside i (by omega) (by omega), name_store,
        if_neg (outside n (le_refl n) (by omega))]

section

variable (value) {bound : Nat} (distinct : ∀ i j, i < j → j < bound → slot i ≠ slot j)

include distinct

theorem name_fill_first {key : α} {rest : List α} {n : Nat} (t : SlotTable ι α β)
    (short : n + (key :: rest).length ≤ bound) :
    (fill slot value n (key :: rest) t).name (slot n) = key := by
  rw [List.length_cons] at short
  rw [fill, name_fill_of_other fun i above below => distinct n i (by omega) (by omega), name_store,
    if_pos rfl]

theorem remembers_store {t : SlotTable ι α β} {n last : Nat} (short : last ≤ bound)
    (key other : α) (content : β) :
    Remembers slot (t.perform (.store (slot n) key content)) (n + 1) last other ↔
      Remembers slot t (n + 1) last other := by
  refine exists_congr fun i => and_congr_right fun below => and_congr_right fun above => ?_
  rw [name_store, if_neg (distinct n i (by omega) (by omega)).symm]

theorem held_fill_of_not_mem {keys : List α} {n : Nat} (t : SlotTable ι α β) {key : α}
    (short : n + keys.length ≤ bound) (absent : key ∉ keys) :
    (fill slot value n keys t).held key =
      if Remembers slot t n (n + keys.length) key then none else t.held key := by
  induction keys generalizing n t with
  | nil =>
      have nowhere : ¬ Remembers slot t n (n + 0) key := fun ⟨i, below, above, _⟩ => by omega
      rw [fill, List.length_nil, if_neg nowhere]
  | cons first rest ih =>
      rw [List.mem_cons, not_or] at absent
      rw [List.length_cons] at short ⊢
      have slots : Remembers slot t n (n + (rest.length + 1)) key ↔
          t.name (slot n) = key ∨ Remembers slot t (n + 1) (n + 1 + rest.length) key := by
        constructor
        · rintro ⟨i, below, above, known⟩
          obtain rfl | later := Nat.eq_or_lt_of_le above
          · exact Or.inl known
          · exact Or.inr ⟨i, by omega, later, known⟩
        · rintro (known | ⟨i, below, above, known⟩)
          · exact ⟨n, by omega, le_refl n, known⟩
          · exact ⟨i, by omega, by omega, known⟩
      rw [fill, ih _ (by omega) absent.2, held_store, if_neg absent.1]
      simp only [remembers_store distinct (show n + 1 + rest.length ≤ bound by omega), slots,
        eq_comm (a := key)]
      by_cases old : t.name (slot n) = key <;> simp [old]

theorem held_fill_getElem {keys : List α} {n j : Nat} (t : SlotTable ι α β) (inside : j < keys.length)
    (short : n + keys.length ≤ bound) (different : keys.Nodup) :
    (fill slot value n keys t).held keys[j] =
      if Remembers slot t (n + j + 1) (n + keys.length) keys[j] then none
      else some (value keys[j]) := by
  induction keys generalizing n t j with
  | nil => cases inside
  | cons first rest ih =>
      rw [List.nodup_cons] at different
      rw [List.length_cons] at short inside
      have tail : n + 1 + rest.length ≤ bound := by omega
      cases j with
      | zero =>
          simp only [List.getElem_cons_zero, fill,
            held_fill_of_not_mem value distinct _ tail different.1, held_store, if_true,
            remembers_store distinct tail, List.length_cons, Nat.add_zero,
            show n + (rest.length + 1) = n + 1 + rest.length by omega]
      | succ j =>
          have later := ih (t.perform (.store (slot n) first (value first))) (by omega) tail
            different.2 (j := j)
          simp only [List.getElem_cons_succ, fill, later, List.length_cons,
            show n + (rest.length + 1) = n + 1 + rest.length by omega,
            show n + (j + 1) + 1 = n + 1 + j + 1 by omega]
          congr 1
          refine propext (exists_congr fun i => and_congr_right fun below => and_congr_right fun above => ?_)
          rw [name_store, if_neg (distinct n i (by omega) (by omega)).symm]

theorem held_fillAll_none {lists : List (List α)} {t : SlotTable ι α β} {key : α}
    (short : ∀ keys ∈ lists, keys.length ≤ bound) (absent : ∀ keys ∈ lists, key ∉ keys)
    (lost : t.held key = none) : (fillAll slot value lists t).held key = none := by
  induction lists generalizing t with
  | nil => exact lost
  | cons keys rest ih =>
      rw [List.forall_mem_cons] at short absent
      refine ih short.2 absent.2 ?_
      rw [held_fill_of_not_mem value distinct t (by simpa using short.1) absent.1, lost]
      split <;> rfl

theorem held_fillAll_first {lists : List (List α)} {t : SlotTable ι α β}
    (short : ∀ keys ∈ lists, keys.length ≤ bound)
    (absent : ∀ keys ∈ lists, t.name (slot 0) ∉ keys)
    (later : ∃ keys ∈ lists, keys ≠ []) :
    (fillAll slot value lists t).held (t.name (slot 0)) = none := by
  induction lists generalizing t with
  | nil =>
      obtain ⟨keys, member, _⟩ := later
      cases member
  | cons keys rest ih =>
      rw [List.forall_mem_cons] at short absent
      cases keys with
      | nil =>
          obtain ⟨keys, member, nonempty⟩ := later
          obtain rfl | later := List.mem_cons.mp member
          · exact absurd rfl nonempty
          · exact ih short.2 absent.2 ⟨keys, later, nonempty⟩
      | cons key keys =>
          rw [fillAll, List.foldl_cons]
          refine held_fillAll_none value distinct short.2 absent.2 ?_
          rw [held_fill_of_not_mem value distinct t (by simpa using short.1) absent.1]
          exact if_pos ⟨0, by simp, le_refl 0, rfl⟩

theorem lost_of_two {lists : List (List α)} (t : SlotTable ι α β)
    (short : ∀ keys ∈ lists, keys.length ≤ bound) (disjoint : lists.Pairwise List.Disjoint)
    (two : 2 ≤ (lists.filter (!·.isEmpty)).length) :
    ∃ keys ∈ lists, ∃ key ∈ keys, (fillAll slot value lists t).held key = none := by
  induction lists generalizing t with
  | nil => cases two
  | cons keys rest ih =>
      rw [List.forall_mem_cons] at short
      rw [List.pairwise_cons] at disjoint
      cases keys with
      | nil =>
          obtain ⟨keys, member, lost⟩ := ih t short.2 disjoint.2 two
          exact ⟨keys, List.mem_cons_of_mem [] member, lost⟩
      | cons key keys =>
          have named := name_fill_first value distinct t
            (show 0 + (key :: keys).length ≤ bound by simpa using short.1)
          have later : ∃ keys ∈ rest, keys ≠ [] := by
            have one : 1 ≤ (rest.filter (!·.isEmpty)).length := by simpa using two
            obtain ⟨keys, member⟩ := List.exists_mem_of_length_pos one
            obtain ⟨member, nonempty⟩ := List.mem_filter.mp member
            exact ⟨keys, member, by simpa using nonempty⟩
          refine ⟨key :: keys, List.mem_cons_self, key, List.mem_cons_self, ?_⟩
          have lost := held_fillAll_first value distinct short.2
            (t := fill slot value 0 (key :: keys) t)
            (by
              rw [named]
              exact fun others member => disjoint.1 others member List.mem_cons_self)
            later
          rwa [named] at lost

end

theorem fillAll_eq_fill {lists : List (List α)} (t : SlotTable ι α β)
    (few : (lists.filter (!·.isEmpty)).length ≤ 1) :
    fillAll slot value lists t = fill slot value 0 lists.flatten t := by
  have nothing : ∀ (lists : List (List α)) (t : SlotTable ι α β), (∀ keys ∈ lists, keys = []) →
      fillAll slot value lists t = t ∧ lists.flatten = [] := by
    intro lists
    induction lists with
    | nil => exact fun t _ => ⟨rfl, rfl⟩
    | cons keys rest ih =>
        intro t empty
        rw [List.forall_mem_cons] at empty
        obtain ⟨rfl, empty⟩ := empty
        exact ih t empty
  induction lists generalizing t with
  | nil => rfl
  | cons keys rest ih =>
      cases keys with
      | nil => exact ih t few
      | cons key keys =>
          have none : ∀ others ∈ rest, others = [] := by simpa using few
          have same := nothing rest (fill slot value 0 (key :: keys) t) none
          rw [List.flatten_cons, same.2, List.append_nil]
          exact same.1

end

end SlotTable
