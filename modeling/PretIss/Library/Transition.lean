import Mathlib.Logic.Function.Basic
import Mathlib.Data.List.Basic

/-! Runs of a machine whose steps are labelled and may fail. A run is a list of
labels; its trail lists each label with the state it was applied to. Properties
of whole runs follow from a property of one step, under side conditions that are
asked only of the steps on the trail. -/

namespace Transition

universe u v w

variable {ε : Type u} {α : Type v} {σ : Type w}

theorem bind_eq_ok {β γ : Type v} {x : Except ε β} {f : β → Except ε γ} {c : γ} :
    (x >>= f) = .ok c ↔ ∃ b, x = .ok b ∧ f b = .ok c := by
  cases x with
  | error e => simp [bind, Except.bind]
  | ok b => simp [bind, Except.bind]

theorem exists_of_any {x : Except ε σ} {test : σ → Bool} (passes : x.toOption.any test = true) :
    ∃ s, x = .ok s ∧ test s = true := by
  cases x with
  | error _ => cases passes
  | ok s => exact ⟨s, rfl, passes⟩

section

variable (step : α → σ → Except ε σ)

def run : List α → σ → Except ε σ
  | [], s => .ok s
  | a :: rest, s =>
      match step a s with
      | .ok s' => run rest s'
      | .error e => .error e

/-- The labels of a run with the states they are applied to, up to a failure. -/
def trail : List α → σ → List (α × σ)
  | [], _ => []
  | a :: rest, s =>
      (a, s) :: match step a s with
        | .ok s' => trail rest s'
        | .error _ => []

@[simp] theorem run_nil (s : σ) : run step [] s = .ok s := rfl

theorem run_cons_eq_ok {a : α} {rest : List α} {s final : σ} :
    run step (a :: rest) s = .ok final ↔
      ∃ middle, step a s = .ok middle ∧ run step rest middle = .ok final := by
  rw [run]
  cases step a s with
  | error e => simp
  | ok middle => simp

theorem run_append_eq_ok {first second : List α} {s final : σ} :
    run step (first ++ second) s = .ok final ↔
      ∃ middle, run step first s = .ok middle ∧ run step second middle = .ok final := by
  induction first generalizing s with
  | nil => simp
  | cons a rest ih => simp [run_cons_eq_ok, ih]; grind

@[simp] theorem trail_nil (s : σ) : trail step [] s = [] := rfl

theorem trail_cons_of_ok {a : α} {rest : List α} {s middle : σ} (first : step a s = .ok middle) :
    trail step (a :: rest) s = (a, s) :: trail step rest middle := by
  simp [trail, first]

theorem mem_of_mem_trail {labels : List α} {s : σ} :
    ∀ entry ∈ trail step labels s, entry.1 ∈ labels := by
  induction labels generalizing s with
  | nil => simp
  | cons a rest ih =>
      intro entry member
      rw [trail, List.mem_cons] at member
      obtain rfl | later := member
      · exact List.mem_cons_self
      · split at later
        · exact List.mem_cons_of_mem _ (ih entry later)
        · simp at later

theorem invariant_run (holds : σ → Prop) (allowed : α → σ → Prop)
    (preserved : ∀ a s s', allowed a s → holds s → step a s = .ok s' → holds s')
    {labels : List α} {s final : σ} (start : holds s)
    (side : ∀ entry ∈ trail step labels s, allowed entry.1 entry.2)
    (runs : run step labels s = .ok final) : holds final := by
  induction labels generalizing s with
  | nil => simp_all
  | cons a rest ih =>
      obtain ⟨middle, first, later⟩ := (run_cons_eq_ok step).mp runs
      rw [trail_cons_of_ok step first, List.forall_mem_cons] at side
      exact ih (preserved a s middle side.1 start first) side.2 later

theorem holds_trail (holds : σ → Prop) (allowed : α → σ → Prop)
    (preserved : ∀ a s s', allowed a s → holds s → step a s = .ok s' → holds s')
    {labels : List α} {s : σ} (start : holds s)
    (side : ∀ entry ∈ trail step labels s, allowed entry.1 entry.2) :
    ∀ entry ∈ trail step labels s, holds entry.2 := by
  induction labels generalizing s with
  | nil => simp
  | cons a rest ih =>
      cases first : step a s with
      | error e => simpa [trail, first] using start
      | ok middle =>
          rw [trail_cons_of_ok step first, List.forall_mem_cons] at side ⊢
          exact ⟨start, ih (preserved a s middle side.1 start first) side.2⟩

theorem returns_run (holds : σ → Prop) (allowed : α → σ → Prop)
    (progress : ∀ a s, allowed a s → holds s → ∃ s', step a s = .ok s' ∧ holds s')
    {labels : List α} {s : σ} (start : holds s)
    (side : ∀ entry ∈ trail step labels s, allowed entry.1 entry.2) :
    ∃ final, run step labels s = .ok final ∧ holds final := by
  induction labels generalizing s with
  | nil => exact ⟨s, rfl, start⟩
  | cons a rest ih =>
      obtain ⟨middle, first, kept⟩ := progress a s (side (a, s) (by simp [trail])) start
      rw [trail_cons_of_ok step first, List.forall_mem_cons] at side
      obtain ⟨final, later, last⟩ := ih kept side.2
      exact ⟨final, (run_cons_eq_ok step).mpr ⟨middle, first, later⟩, last⟩

theorem error_run (holds : σ → Prop) (allowed : α → σ → Prop) (known : ε → Prop)
    (preserved : ∀ a s s', allowed a s → holds s → step a s = .ok s' → holds s')
    (fails : ∀ a s e, allowed a s → holds s → step a s = .error e → known e)
    {labels : List α} {s : σ} {e : ε} (start : holds s)
    (side : ∀ entry ∈ trail step labels s, allowed entry.1 entry.2)
    (stops : run step labels s = .error e) : known e := by
  induction labels generalizing s with
  | nil => cases stops
  | cons a rest ih =>
      cases first : step a s with
      | error e' =>
          simp only [run, first, Except.error.injEq] at stops
          exact stops ▸ fails a s e' (side (a, s) (by simp [trail])) start first
      | ok middle =>
          rw [trail_cons_of_ok step first, List.forall_mem_cons] at side
          simp only [run, first] at stops
          exact ih (preserved a s middle side.1 start first) side.2 stops

/-- The states of a run, the first and the last included. -/
def visited : List α → σ → List σ
  | [], s => [s]
  | a :: rest, s =>
      s :: match step a s with
        | .ok s' => visited rest s'
        | .error _ => []

theorem visited_cons_of_ok {a : α} {rest : List α} {s middle : σ}
    (first : step a s = .ok middle) :
    visited step (a :: rest) s = s :: visited step rest middle := by
  simp [visited, first]

theorem head_mem_visited (labels : List α) (s : σ) : s ∈ visited step labels s := by
  cases labels <;> simp [visited]

theorem final_mem_visited {labels : List α} {s final : σ} (runs : run step labels s = .ok final) :
    final ∈ visited step labels s := by
  induction labels generalizing s with
  | nil =>
      obtain rfl := Except.ok.inj runs
      exact head_mem_visited step [] s
  | cons a rest ih =>
      obtain ⟨middle, first, later⟩ := (run_cons_eq_ok step).mp runs
      rw [visited_cons_of_ok step first]
      exact List.mem_cons_of_mem s (ih later)

theorem visited_iff_run (good seen : σ → Prop) (fault : α → σ → Prop) (allowed : α → σ → Prop)
    (safe : ∀ s, good s → seen s)
    (preserved : ∀ a s s', allowed a s → good s → ¬ fault a s → step a s = .ok s' → good s')
    (exposed : ∀ a s s', allowed a s → good s → fault a s → step a s = .ok s' → ¬ seen s')
    {labels : List α} {s final : σ} (start : good s)
    (side : ∀ entry ∈ trail step labels s, allowed entry.1 entry.2)
    (runs : run step labels s = .ok final) :
    (∀ state ∈ visited step labels s, seen state) ↔
      ∀ entry ∈ trail step labels s, ¬ fault entry.1 entry.2 := by
  induction labels generalizing s with
  | nil => simpa [visited] using safe s start
  | cons a rest ih =>
      obtain ⟨middle, first, later⟩ := (run_cons_eq_ok step).mp runs
      rw [trail_cons_of_ok step first, List.forall_mem_cons] at side
      rw [trail_cons_of_ok step first, visited_cons_of_ok step first, List.forall_mem_cons,
        List.forall_mem_cons]
      by_cases bad : fault a s
      · constructor
        · intro all
          exact absurd (all.2 middle (head_mem_visited step rest middle))
            (exposed a s middle side.1 start bad first)
        · intro none
          exact absurd bad none.1
      · rw [ih (preserved a s middle side.1 start bad first) side.2 later]
        simp [bad, safe s start]

theorem simulation_run (related : σ → σ → Prop) (left right : α → σ → Prop)
    (preserved : ∀ a s₁ s₂ s₁' s₂', left a s₁ → right a s₂ → related s₁ s₂ →
      step a s₁ = .ok s₁' → step a s₂ = .ok s₂' → related s₁' s₂')
    {labels : List α} {s₁ s₂ final₁ final₂ : σ} (start : related s₁ s₂)
    (side₁ : ∀ entry ∈ trail step labels s₁, left entry.1 entry.2)
    (side₂ : ∀ entry ∈ trail step labels s₂, right entry.1 entry.2)
    (runs₁ : run step labels s₁ = .ok final₁) (runs₂ : run step labels s₂ = .ok final₂) :
    related final₁ final₂ := by
  induction labels generalizing s₁ s₂ with
  | nil => simp_all
  | cons a rest ih =>
      obtain ⟨middle₁, first₁, later₁⟩ := (run_cons_eq_ok step).mp runs₁
      obtain ⟨middle₂, first₂, later₂⟩ := (run_cons_eq_ok step).mp runs₂
      rw [trail_cons_of_ok step first₁, List.forall_mem_cons] at side₁
      rw [trail_cons_of_ok step first₂, List.forall_mem_cons] at side₂
      exact ih (preserved a s₁ s₂ middle₁ middle₂ side₁.1 side₂.1 start first₁ first₂)
        side₁.2 side₂.2 later₁ later₂

end

end Transition
