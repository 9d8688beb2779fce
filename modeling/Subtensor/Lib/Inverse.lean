import Mathlib.Tactic

/-!
# Relations that are stored twice

A map that assigns a value to some keys is stored as itself and as the list
of the keys of each value (`IsInverse`), or as two maps that are inverse to each
other (`IsPartialBijection`). This file says when the two copies agree, and which
updates keep them in agreement.
-/

namespace Subtensor.Lib

variable {K V : Type}

/-- The lists of `g` are the preimages of `f`, without duplicates. -/
structure IsInverse (f : K → Option V) (g : V → List K) : Prop where
  mem : ∀ k v, f k = some v ↔ k ∈ g v
  nodup : ∀ v, (g v).Nodup

namespace IsInverse

variable {f f' : K → Option V} {g : V → List K} {k : K} {v w : V} {l : List K}

section

variable [DecidableEq K] [DecidableEq V]

/-- A key that no other value has is assigned to a value. -/
theorem assign (h : IsInverse f g) (hk : f k = none ∨ f k = some v)
    (hl : ∀ k', k' ∈ l ↔ k' ∈ g v ∨ k' = k) (hnodup : l.Nodup) :
    IsInverse (Function.update f k (some v)) (Function.update g v l) := by
  constructor
  · intro k' v'
    by_cases hv : v' = v
    · subst hv
      rw [Function.update_self, hl, ← h.mem]
      by_cases hk' : k' = k
      · subst hk'
        simp
      · simp [hk']
    · rw [Function.update_of_ne hv, ← h.mem]
      by_cases hk' : k' = k
      · subst hk'
        rw [Function.update_self]
        constructor
        · intro heq
          exact absurd (Option.some.inj heq).symm hv
        · intro heq
          rcases hk with hk | hk
          · rw [hk] at heq
            cases heq
          · rw [hk] at heq
            exact absurd (Option.some.inj heq).symm hv
      · rw [Function.update_of_ne hk']
  · intro v'
    by_cases hv : v' = v
    · subst hv
      rwa [Function.update_self]
    · rw [Function.update_of_ne hv]
      exact h.nodup v'

/-- A key loses its value. -/
theorem unassign (h : IsInverse f g) (hk : f k = some v)
    (hl : ∀ k', k' ∈ l ↔ k' ∈ g v ∧ k' ≠ k) (hnodup : l.Nodup) :
    IsInverse (Function.update f k none) (Function.update g v l) := by
  constructor
  · intro k' v'
    by_cases hk' : k' = k
    · subst hk'
      rw [Function.update_self]
      refine ⟨nofun, ?_⟩
      intro hmem
      by_cases hv : v' = v
      · subst hv
        rw [Function.update_self] at hmem
        exact absurd rfl ((hl k').mp hmem).2
      · rw [Function.update_of_ne hv, ← h.mem, hk] at hmem
        exact absurd (Option.some.inj hmem).symm hv
    · rw [Function.update_of_ne hk', h.mem]
      by_cases hv : v' = v
      · subst hv
        rw [Function.update_self, hl]
        simp [hk']
      · rw [Function.update_of_ne hv]
  · intro v'
    by_cases hv : v' = v
    · subst hv
      rwa [Function.update_self]
    · rw [Function.update_of_ne hv]
      exact h.nodup v'

/-- All keys of one value go to another. -/
theorem moveAll (h : IsInverse f g) (hf' : ∀ k, f' k = if k ∈ g v then some w else f k)
    (hl : ∀ k, k ∈ l ↔ k ∈ g v ∨ k ∈ g w) (hnodup : l.Nodup) :
    IsInverse f' (Function.update (Function.update g v []) w l) := by
  constructor
  · intro k v'
    rw [hf']
    by_cases hw : v' = w
    · subst hw
      rw [Function.update_self, hl]
      by_cases hmem : k ∈ g v
      · simp [hmem]
      · simp [hmem, h.mem]
    · rw [Function.update_of_ne hw]
      by_cases hv : v' = v
      · subst hv
        by_cases hmem : k ∈ g v'
        · simp [hmem, Ne.symm hw]
        · simp [hmem, h.mem]
      · rw [Function.update_of_ne hv]
        by_cases hmem : k ∈ g v
        · have hfk := (h.mem k v).mpr hmem
          have hnot : k ∉ g v' := by
            rw [← h.mem, hfk]
            intro heq
            exact hv (Option.some.inj heq).symm
          simp [hmem, hnot, Ne.symm hw]
        · simp [hmem, h.mem]
  · intro v'
    by_cases hw : v' = w
    · subst hw
      rwa [Function.update_self]
    · rw [Function.update_of_ne hw]
      by_cases hv : v' = v
      · subst hv
        rw [Function.update_self]
        exact List.nodup_nil
      · rw [Function.update_of_ne hv]
        exact h.nodup v'

end

end IsInverse

/-! ## Two maps -/

/-- Each of the two maps is the inverse of the other. -/
def IsPartialBijection (f : K → Option V) (g : V → Option K) : Prop :=
  ∀ k v, f k = some v ↔ g v = some k

namespace IsPartialBijection

variable {f : K → Option V} {g : V → Option K} {k : K} {v v₀ : V}

theorem empty : IsPartialBijection (fun _ : K => (none : Option V)) (fun _ => none) := by
  intro k v
  simp

section

variable [DecidableEq K] [DecidableEq V]

/-- A new pair. -/
theorem insert (h : IsPartialBijection f g) (hk : f k = none) (hv : g v = none) :
    IsPartialBijection (Function.update f k (some v)) (Function.update g v (some k)) := by
  intro k' v'
  by_cases hk' : k' = k
  · subst hk'
    by_cases hv' : v' = v
    · subst hv'
      simp
    · simp only [Function.update_self, Function.update_of_ne hv', Option.some.injEq,
        Ne.symm hv', false_iff]
      rw [← h, hk]
      nofun
  · by_cases hv' : v' = v
    · subst hv'
      simp only [Function.update_self, Function.update_of_ne hk', Option.some.injEq,
        Ne.symm hk', iff_false]
      rw [h, hv]
      nofun
    · rw [Function.update_of_ne hk', Function.update_of_ne hv']
      exact h k' v'

/-- The value of a key gives way to a new one. -/
theorem replace (h : IsPartialBijection f g) (hk : f k = some v₀) (hv : g v = none) :
    IsPartialBijection (Function.update f k (some v))
      (Function.update (Function.update g v₀ none) v (some k)) := by
  intro k' v'
  have hv₀ : g v₀ = some k := (h k v₀).mp hk
  by_cases hk' : k' = k
  · subst hk'
    by_cases hv' : v' = v
    · subst hv'
      simp
    · simp only [Function.update_self, Function.update_of_ne hv', Option.some.injEq,
        Ne.symm hv', false_iff]
      by_cases hv'' : v' = v₀
      · subst hv''
        simp
      · rw [Function.update_of_ne hv'', ← h, hk]
        intro heq
        exact hv'' (Option.some.inj heq).symm
  · by_cases hv' : v' = v
    · subst hv'
      simp only [Function.update_self, Function.update_of_ne hk', Option.some.injEq,
        Ne.symm hk', iff_false]
      rw [h, hv]
      nofun
    · rw [Function.update_of_ne hk', Function.update_of_ne hv']
      by_cases hv'' : v' = v₀
      · subst hv''
        rw [Function.update_self, h, hv₀]
        simp [Ne.symm hk']
      · rw [Function.update_of_ne hv'']
        exact h k' v'

end

end IsPartialBijection

end Subtensor.Lib
