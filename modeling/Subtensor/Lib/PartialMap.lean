import Mathlib.Tactic

/-!
# Maps with a list of their keys

A map to `Option` that is written at one key at a time, beside a list that names
the keys it has.
-/

namespace Subtensor.Lib.PartialMap

variable {K V : Type} [DecidableEq K] {m : K → Option V} {keys : List K} {k k' : K} {v w : V}

/-- What is read after a write is what was written, or it was there before. -/
theorem update_some_cases (h : Function.update m k (some v) k' = some w) :
    (k' = k ∧ v = w) ∨ (k' ≠ k ∧ m k' = some w) := by
  rcases eq_or_ne k' k with rfl | hne
  · rw [Function.update_self, Option.some.injEq] at h
    exact .inl ⟨rfl, h⟩
  · rw [Function.update_of_ne hne] at h
    exact .inr ⟨hne, h⟩

/-- What is read after a removal was there before, under another key. -/
theorem update_none_eq_some (h : Function.update m k none k' = some w) :
    k' ≠ k ∧ m k' = some w := by
  rcases eq_or_ne k' k with rfl | hne
  · rw [Function.update_self] at h
    cases h
  · rw [Function.update_of_ne hne] at h
    exact ⟨hne, h⟩

/-- The list names the keys of the map. -/
def ListsKeys (m : K → Option V) (keys : List K) : Prop := ∀ k, (m k).isSome ↔ k ∈ keys

omit [DecidableEq K] in
theorem ListsKeys.mem (h : ListsKeys m keys) (hk : m k = some v) : k ∈ keys := by
  rw [← h, hk]
  rfl

theorem ListsKeys.concat (h : ListsKeys m keys) (k : K) (v : V) :
    ListsKeys (Function.update m k (some v)) (keys ++ [k]) := by
  intro k'
  rw [List.mem_append, List.mem_singleton, ← h k']
  rcases eq_or_ne k' k with rfl | hne
  · simp
  · simp [hne]

theorem ListsKeys.filter (h : ListsKeys m keys) (k : K) :
    ListsKeys (Function.update m k none) (keys.filter fun k' => decide (k' ≠ k)) := by
  intro k'
  rw [List.mem_filter, decide_eq_true_iff, ← h k']
  rcases eq_or_ne k' k with rfl | hne
  · simp
  · simp [hne]

end Subtensor.Lib.PartialMap
