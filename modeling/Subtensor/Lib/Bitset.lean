import Mathlib.Tactic
import Mathlib.Data.Set.Image

/-!
# Sets of naturals stored in words

A set of naturals is stored as a map from word indexes to words of `w` bits:
the number `i` is the bit `i % w` of the word `i / w`. A coarser layer over
such a set stores the indexes of its words that are not zero.
-/

namespace Subtensor.Lib

variable {w : ℕ}

/-- `words` stores exactly the set `Q`. -/
def Represents (words : ℕ → BitVec w) (Q : Set ℕ) : Prop :=
  ∀ i, (words (i / w)).getLsbD (i % w) = true ↔ i ∈ Q

/-- The indexes of the words that hold an element of `Q`. -/
def coarsen (w : ℕ) (Q : Set ℕ) : Set ℕ := (· / w) '' Q

namespace Represents

variable {words : ℕ → BitVec w} {Q : Set ℕ}

theorem empty : Represents (fun _ => (0 : BitVec w)) ∅ := by
  intro i
  simp

theorem bit_iff (h : Represents words Q) {k b : ℕ} (hb : b < w) :
    (words k).getLsbD b = true ↔ k * w + b ∈ Q := by
  have hdiv : (k * w + b) / w = k := by
    rw [Nat.mul_comm, Nat.mul_add_div (by omega), Nat.div_eq_of_lt hb, Nat.add_zero]
  have hmod : (k * w + b) % w = b := by
    rw [Nat.mul_comm, Nat.mul_add_mod, Nat.mod_eq_of_lt hb]
  have := h (k * w + b)
  rwa [hdiv, hmod] at this

/-- A set has one representation. -/
theorem unique {words' : ℕ → BitVec w} (h : Represents words Q) (h' : Represents words' Q) :
    words = words' := by
  ext k b hb
  rw [← BitVec.getLsbD_eq_getElem, ← BitVec.getLsbD_eq_getElem, Bool.eq_iff_iff, h.bit_iff hb,
    h'.bit_iff hb]

/-- A word is zero exactly when the set has no element in it. -/
theorem eq_zero_iff (h : Represents words Q) (k : ℕ) :
    words k = 0 ↔ k ∉ coarsen w Q := by
  constructor
  · rintro h0 ⟨j, hj, rfl⟩
    have := (h j).mpr hj
    have h0' : words (j / w) = 0 := h0
    rw [h0'] at this
    simp at this
  · intro hk
    apply BitVec.eq_of_getLsbD_eq
    intro b hb
    rw [Bool.eq_iff_iff]
    constructor
    · intro hbit
      have hmem := (h.bit_iff hb).mp hbit
      refine absurd ⟨_, hmem, ?_⟩ hk
      show (k * w + b) / w = k
      rw [Nat.mul_comm, Nat.mul_add_div (by omega), Nat.div_eq_of_lt hb, Nat.add_zero]
    · simp

theorem getLsbD_mask {b j : ℕ} (hj : j < w) :
    (1#w <<< b).getLsbD j = decide (b = j) := by
  rw [BitVec.getLsbD_shiftLeft, BitVec.getLsbD_one]
  by_cases h : b = j
  · simp [h, hj]
    omega
  · simp [h, hj]
    omega

/-- Setting the bit of `k` inserts `k`. -/
theorem insert (h : Represents words Q) (hw : 0 < w) (k : ℕ) :
    Represents (Function.update words (k / w) (words (k / w) ||| 1#w <<< (k % w)))
      (Insert.insert k Q) := by
  intro i
  by_cases hi : i / w = k / w
  · rw [hi, Function.update_self, BitVec.getLsbD_or, getLsbD_mask (Nat.mod_lt i hw),
      Bool.or_eq_true, decide_eq_true_eq, ← hi, h i, Set.mem_insert_iff, or_comm]
    refine or_congr_left ⟨fun hmod => ?_, fun hik => by rw [hik]⟩
    rw [← Nat.div_add_mod i w, ← Nat.div_add_mod k w, hi, hmod]
  · rw [Function.update_of_ne hi, h i, Set.mem_insert_iff]
    have hik : i ≠ k := fun h => hi (by rw [h])
    simp [hik]

/-- Clearing the bit of `k` removes `k`. -/
theorem erase (h : Represents words Q) (hw : 0 < w) (k : ℕ) :
    Represents (Function.update words (k / w) (words (k / w) &&& ~~~(1#w <<< (k % w))))
      (Q \ {k}) := by
  intro i
  by_cases hi : i / w = k / w
  · rw [hi, Function.update_self, BitVec.getLsbD_and, BitVec.getLsbD_not,
      getLsbD_mask (Nat.mod_lt i hw), ← hi]
    have hmod : k % w = i % w ↔ i = k := by
      refine ⟨fun hmod => ?_, fun hik => by rw [hik]⟩
      rw [← Nat.div_add_mod i w, ← Nat.div_add_mod k w, hi, hmod]
    simp only [Nat.mod_lt i hw, decide_true, Bool.true_and, Bool.and_eq_true, hmod, h i,
      Set.mem_sdiff, Set.mem_singleton_iff, Bool.not_eq_eq_eq_not, Bool.not_true,
      decide_eq_false_iff_not]
  · rw [Function.update_of_ne hi, h i]
    have hik : i ≠ k := fun h => hi (by rw [h])
    simp [hik]

theorem congr {Q' : Set ℕ} (h : Represents words Q) (hQ : Q = Q') : Represents words Q' :=
  hQ ▸ h

end Represents

theorem coarsen_insert (Q : Set ℕ) (k : ℕ) :
    coarsen w (insert k Q) = insert (k / w) (coarsen w Q) := Set.image_insert_eq

section Removal

/-! `R` is what is left of `Q` after `k` may have been removed. -/

variable {Q R : Set ℕ} {k : ℕ} (hsub : R ⊆ Q) (hrest : Q \ {k} ⊆ R)

include hrest in
theorem mem_coarsen_of_ne {i : ℕ} (hi : i ∈ coarsen w Q) (hne : i ≠ k / w) :
    i ∈ coarsen w R := by
  obtain ⟨j, hj, rfl⟩ := hi
  exact ⟨j, hrest ⟨hj, fun h => hne (by rw [h])⟩, rfl⟩

include hsub hrest

/-- The word of `k` stays in the coarser layer while it holds an element. -/
theorem coarsen_eq_of_mem (hk : k / w ∈ coarsen w R) : coarsen w R = coarsen w Q := by
  apply Set.Subset.antisymm (Set.image_mono hsub)
  intro i hi
  by_cases hik : i = k / w
  · rwa [hik]
  · exact mem_coarsen_of_ne hrest hi hik

theorem coarsen_eq_of_notMem (hk : k / w ∉ coarsen w R) :
    coarsen w R = coarsen w Q \ {k / w} := by
  apply Set.Subset.antisymm
  · intro i hi
    exact ⟨Set.image_mono hsub hi, fun h => hk (h ▸ hi)⟩
  · rintro i ⟨hi, hne⟩
    exact mem_coarsen_of_ne hrest hi hne

/-- Clearing the bit of the word of `k` in the coarser layer when that word
has become zero. -/
theorem Represents.eraseWord {below above : ℕ → BitVec w} (hw : 0 < w)
    (hb : Represents below R) (ha : Represents above (coarsen w Q)) :
    Represents (if below (k / w) = 0 then
        Function.update above (k / w / w) (above (k / w / w) &&& ~~~(1#w <<< (k / w % w)))
      else above) (coarsen w R) := by
  by_cases h0 : below (k / w) = 0
  · rw [if_pos h0, coarsen_eq_of_notMem hsub hrest ((hb.eq_zero_iff _).mp h0)]
    exact ha.erase hw _
  · rw [if_neg h0, coarsen_eq_of_mem hsub hrest (not_not.mp (mt (hb.eq_zero_iff _).mpr h0))]
    exact ha

end Removal

end Subtensor.Lib
