import Mathlib.Data.List.AList
import Mathlib.Order.Bounds.Basic

/-! Dictionaries that are merged one key at a time, and the greatest value of a key over
several of them. -/

namespace Dictionary

abbrev Dict (κ ν : Type*) := AList fun _ : κ => ν

variable {κ ν : Type*} [DecidableEq κ]

structure Changes (step : Dict κ ν → κ → ν → Dict κ ν) (change : Option ν → ν → Option ν) :
    Prop where
  own : ∀ dest k v, (step dest k v).lookup k = change (dest.lookup k) v
  other : ∀ dest k v k', k' ≠ k → (step dest k v).lookup k' = dest.lookup k'

theorem foldl_insert {δ : Type*} {step : δ → κ → ν → δ} {src : Dict κ ν} {k : κ} (new : k ∉ src)
    (v : ν) (dest : δ) : (src.insert k v).foldl step dest = src.foldl step (step dest k v) := by
  rw [AList.foldl, AList.entries_insert_of_notMem new]
  rfl

theorem Changes.lookup_foldl {step : Dict κ ν → κ → ν → Dict κ ν}
    {change : Option ν → ν → Option ν} (changes : Changes step change) (dest src : Dict κ ν)
    (k : κ) :
    (src.foldl step dest).lookup k =
      (src.lookup k).elim (dest.lookup k) (change (dest.lookup k)) := by
  induction src using AList.insertRec generalizing dest with
  | H0 => rfl
  | IH key v src new ih =>
    rw [foldl_insert new, ih]
    by_cases same : k = key
    · subst same
      rw [AList.lookup_insert, AList.lookup_eq_none.mpr new]
      exact changes.own dest k v
    · rw [AList.lookup_insert_ne same, changes.other dest key v k same]

def values (dicts : List (Dict κ ν)) (k : κ) : Set ν := {v | ∃ d ∈ dicts, d.lookup k = some v}

theorem values_concat (dicts : List (Dict κ ν)) (d : Dict κ ν) (k : κ) :
    values (dicts ++ [d]) k = (d.lookup k).elim (values dicts k) (insert · (values dicts k)) := by
  ext v
  cases found : d.lookup k <;>
    simp [values, or_and_right, exists_or, found, or_comm, eq_comm]

section Values

variable [LinearOrder ν]

structure Greatest (s : Set ν) (value : Option ν) : Prop where
  greatest : ∀ v, value = some v → IsGreatest s v
  empty : value = none → s = ∅

theorem Greatest.none : Greatest (∅ : Set ν) none := ⟨nofun, fun _ => rfl⟩

theorem Greatest.exists_of_mem {s : Set ν} {value : Option ν} (greatest : Greatest s value) {v : ν}
    (member : v ∈ s) : ∃ top, value = some top ∧ IsGreatest s top := by
  cases found : value with
  | none => exact absurd member (greatest.empty found ▸ Set.notMem_empty v)
  | some top => exact ⟨top, rfl, greatest.greatest top found⟩

def larger : Option ν → ν → Option ν
  | .none, v => some v
  | some top, v => some (max top v)

theorem Greatest.add {s : Set ν} {value : Option ν} (greatest : Greatest s value) (v : ν) :
    Greatest (insert v s) (larger value v) := by
  refine ⟨fun top is => ?_, fun is => ?_⟩
  · cases found : value with
    | none =>
      obtain rfl : v = top := Option.some_injective ν (by rw [← is, found, larger])
      rw [greatest.empty found, insert_empty_eq]
      exact isGreatest_singleton
    | some old =>
      obtain rfl : max old v = top := Option.some_injective ν (by rw [← is, found, larger])
      rw [max_comm]
      exact (greatest.greatest old found).insert v
  · cases value <;> cases is

theorem Greatest.lookup (d : Dict κ ν) (k : κ) : Greatest (values [d] k) (d.lookup k) := by
  rw [← List.nil_append [d], values_concat]
  have none : values ([] : List (Dict κ ν)) k = ∅ := by simp [values]
  rw [none]
  cases d.lookup k with
  | none => exact Greatest.none
  | some v => exact Greatest.none.add v

end Values

end Dictionary
