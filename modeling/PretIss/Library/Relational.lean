import PretIss.Library.Transition

/-! Two runs of one machine, side by side. A relation between states is lifted to results that
may be failures; a step that keeps it keeps it over whole runs, under a condition that is asked
only of the pairs of states the two runs go through. -/

namespace Relational

universe u v w

variable {ε : Type u} {α β : Type v} {σ : Type w}

inductive Lifts (R : α → α → Prop) : Except ε α → Except ε α → Prop where
  | error (e : ε) : Lifts R (.error e) (.error e)
  | ok {a b : α} (related : R a b) : Lifts R (.ok a) (.ok b)

theorem Lifts.refl {R : α → α → Prop} (related : ∀ a, R a a) (x : Except ε α) : Lifts R x x := by
  cases x with
  | error e => exact .error e
  | ok a => exact .ok (related a)

theorem Lifts.of_map {R : α → α → Prop} {f : α → α} (related : ∀ a, R a (f a)) (x : Except ε α) :
    Lifts R x (x.map f) := by
  cases x with
  | error e => exact .error e
  | ok a => exact .ok (related a)

theorem Lifts.bind {R : α → α → Prop} {S : β → β → Prop} {x y : Except ε α}
    {f g : α → Except ε β} (lifts : Lifts R x y) (rest : ∀ a b, R a b → Lifts S (f a) (g b)) :
    Lifts S (x >>= f) (y >>= g) := by
  cases lifts with
  | error e => exact .error e
  | ok related => exact rest _ _ related

theorem Lifts.bind_ok {R : α → α → Prop} {S : β → β → Prop} {x y : Except ε α}
    {f g : α → Except ε β} (lifts : Lifts R x y)
    (rest : ∀ a b, x = .ok a → y = .ok b → R a b → Lifts S (f a) (g b)) :
    Lifts S (x >>= f) (y >>= g) := by
  cases lifts with
  | error e => exact .error e
  | ok related => exact rest _ _ rfl rfl related

theorem Lifts.map {R : α → α → Prop} {S : β → β → Prop} {x y : Except ε α} {f g : α → β}
    (lifts : Lifts R x y) (rest : ∀ a b, R a b → S (f a) (g b)) : Lifts S (x.map f) (y.map g) := by
  cases lifts with
  | error e => exact .error e
  | ok related => exact .ok (rest _ _ related)

theorem Lifts.cases_on {R : α → α → Prop} {x y : Except ε α} (lifts : Lifts R x y) :
    (∃ e, x = .error e ∧ y = .error e) ∨ ∃ a b, x = .ok a ∧ y = .ok b ∧ R a b := by
  cases lifts with
  | error e => exact Or.inl ⟨e, rfl, rfl⟩
  | ok related => exact Or.inr ⟨_, _, rfl, rfl, related⟩

section

variable (step : α → σ → Except ε σ) (side : α → σ → σ → Prop)

/-- A condition on the pairs of states at which two runs take a step. -/
def Along : List α → σ → σ → Prop
  | [], _, _ => True
  | a :: rest, s, t =>
    side a s t ∧ ∀ s' t', step a s = .ok s' → step a t = .ok t' → Along rest s' t'

variable {step side}

theorem Lifts.run {R : σ → σ → Prop}
    (keeps : ∀ a s t, R s t → side a s t → Lifts R (step a s) (step a t)) {labels : List α}
    {s t : σ} (related : R s t) (along : Along step side labels s t) :
    Lifts R (Transition.run step labels s) (Transition.run step labels t) := by
  induction labels generalizing s t with
  | nil => exact .ok related
  | cons a rest ih =>
    obtain ⟨first, later⟩ := along
    rw [Transition.run, Transition.run]
    obtain ⟨e, fails, fails'⟩ | ⟨s', t', runs, runs', next⟩ :=
      (keeps a s t related first).cases_on
    · rw [fails, fails']
      exact .error e
    · rw [runs, runs']
      exact ih next (later s' t' runs runs')

theorem along_of_keeps {R : σ → σ → Prop}
    (keeps : ∀ a s t, R s t → Lifts R (step a s) (step a t))
    (holds : ∀ a s t, R s t → side a s t) (labels : List α) {s t : σ} (related : R s t) :
    Along step side labels s t := by
  induction labels generalizing s t with
  | nil => trivial
  | cons a rest ih =>
    refine ⟨holds a s t related, fun s' t' runs runs' => ?_⟩
    obtain ⟨e, fails, -⟩ | ⟨u, w, goes, goes', next⟩ := (keeps a s t related).cases_on
    · cases fails.symm.trans runs
    · cases goes.symm.trans runs
      cases goes'.symm.trans runs'
      exact ih next

end

end Relational
