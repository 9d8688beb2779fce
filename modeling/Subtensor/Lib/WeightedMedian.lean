import Mathlib.Tactic

/-!
# Weighted medians

Items have a score and a weight. A score is the median at some level when the
items below it weigh at most the level, and those up to it weigh more. There is
at most one such score. A search keeps a window: a part of the items, with the
weight below it and the weight up to its end; both sides of a pivot are windows
again.
-/

namespace Subtensor.Lib

variable {ι α : Type} [LinearOrder α]

/-! ## Weights -/

section

variable (score : ι → α) (weight : ι → ℤ)

def totalWeight (l : List ι) : ℤ := (l.map weight).sum

/-- The weight of the items with a smaller score. -/
def weightBelow (l : List ι) (v : α) : ℤ :=
  (l.map fun i => if score i < v then weight i else 0).sum

/-- The weight of the items with at most this score. -/
def weightUpTo (l : List ι) (v : α) : ℤ :=
  (l.map fun i => if score i ≤ v then weight i else 0).sum

structure IsWeightedMedian (l : List ι) (level : ℤ) (v : α) : Prop where
  below : weightBelow score weight l v ≤ level
  upTo : level < weightUpTo score weight l v

end

variable {score : ι → α} {weight : ι → ℤ} {l l' part whole : List ι} {v p : α}

theorem weightBelow_perm (h : l.Perm l') (v : α) :
    weightBelow score weight l v = weightBelow score weight l' v := (h.map _).sum_eq

theorem weightUpTo_perm (h : l.Perm l') (v : α) :
    weightUpTo score weight l v = weightUpTo score weight l' v := (h.map _).sum_eq

theorem weightUpTo_le_weightBelow (hnonneg : ∀ i ∈ l, 0 ≤ weight i) {v v' : α} (h : v < v') :
    weightUpTo score weight l v ≤ weightBelow score weight l v' := by
  refine List.sum_le_sum fun i hi => ?_
  have hweight := hnonneg i hi
  by_cases hle : score i ≤ v
  · rw [if_pos hle, if_pos (hle.trans_lt h)]
  · rw [if_neg hle]
    split_ifs
    · exact hweight
    · exact le_rfl

/-- There is at most one median. -/
theorem IsWeightedMedian.unique (hnonneg : ∀ i ∈ l, 0 ≤ weight i) {level : ℤ} {v v' : α}
    (h : IsWeightedMedian score weight l level v)
    (h' : IsWeightedMedian score weight l level v') : v = v' := by
  have hnot : ∀ {v v' : α}, IsWeightedMedian score weight l level v →
      IsWeightedMedian score weight l level v' → ¬v < v' := by
    intro v v' h h' hlt
    exact absurd (h.upTo.trans_le (weightUpTo_le_weightBelow hnonneg hlt)) h'.below.not_gt
  exact le_antisymm (not_lt.mp (hnot h' h)) (not_lt.mp (hnot h h'))

/-! ## The sides of a pivot -/

section

variable (score weight part)

theorem totalWeight_filter_lt (p : α) :
    totalWeight weight (part.filter fun i => score i < p) = weightBelow score weight part p := by
  induction part with
  | nil => rfl
  | cons i part ih =>
      unfold totalWeight weightBelow at *
      by_cases h : score i < p <;> simp [h, ih]

theorem totalWeight_filter_gt (p : α) :
    totalWeight weight (part.filter fun i => p < score i) + weightUpTo score weight part p =
      totalWeight weight part := by
  induction part with
  | nil => rfl
  | cons i part ih =>
      unfold totalWeight weightUpTo at *
      by_cases h : p < score i
      · simp [h, ← ih, add_assoc]
      · simp [h, not_lt.mp h, ← ih]
        ring

theorem weightBelow_filter_lt (h : v ≤ p) :
    weightBelow score weight (part.filter fun i => score i < p) v =
      weightBelow score weight part v := by
  induction part with
  | nil => rfl
  | cons i part ih =>
      unfold weightBelow at *
      by_cases hp : score i < p
      · simp [hp, ih]
      · simp [hp, ih, not_lt.mpr (h.trans (not_lt.mp hp))]

theorem weightUpTo_filter_lt (h : v < p) :
    weightUpTo score weight (part.filter fun i => score i < p) v =
      weightUpTo score weight part v := by
  induction part with
  | nil => rfl
  | cons i part ih =>
      unfold weightUpTo at *
      by_cases hp : score i < p
      · simp [hp, ih]
      · simp [hp, ih, not_le.mpr (h.trans_le (not_lt.mp hp))]

theorem weightBelow_filter_gt (h : p < v) :
    weightUpTo score weight part p + weightBelow score weight (part.filter fun i => p < score i) v =
      weightBelow score weight part v := by
  induction part with
  | nil => rfl
  | cons i part ih =>
      unfold weightUpTo weightBelow at *
      by_cases hp : p < score i
      · simp [hp, not_le.mpr hp, ← ih]
        ring
      · simp [hp, not_lt.mp hp, (not_lt.mp hp).trans_lt h, ← ih, add_assoc]

theorem weightUpTo_filter_gt (h : p < v) :
    weightUpTo score weight part p + weightUpTo score weight (part.filter fun i => p < score i) v =
      weightUpTo score weight part v := by
  induction part with
  | nil => rfl
  | cons i part ih =>
      unfold weightUpTo at *
      by_cases hp : p < score i
      · simp [hp, not_le.mpr hp, ← ih]
        ring
      · simp [hp, not_lt.mp hp, ((not_lt.mp hp).trans_lt h).le, ← ih, add_assoc]

end

/-! ## Windows -/

/-- A part of the items, where `lo` weighs less than any score of the part and
`hi` as much as all scores up to its largest. -/
structure MedianWindow (score : ι → α) (weight : ι → ℤ) (whole part : List ι)
    (lo hi : ℤ) : Prop where
  total : lo + totalWeight weight part = hi
  below : ∀ i ∈ part, lo + weightBelow score weight part (score i) =
    weightBelow score weight whole (score i)
  upTo : ∀ i ∈ part, lo + weightUpTo score weight part (score i) =
    weightUpTo score weight whole (score i)

namespace MedianWindow

variable {lo hi : ℤ} {i : ι}

theorem start (score : ι → α) (weight : ι → ℤ) (h : whole.Perm part) :
    MedianWindow score weight whole part 0 (totalWeight weight whole) where
  total := by rw [zero_add]; exact (h.symm.map _).sum_eq
  below := fun i _ => by rw [zero_add, weightBelow_perm h]
  upTo := fun i _ => by rw [zero_add, weightUpTo_perm h]

theorem lower (h : MedianWindow score weight whole part lo hi) (hi : i ∈ part) :
    MedianWindow score weight whole (part.filter fun j => score j < score i) lo
      (weightBelow score weight whole (score i)) where
  total := by rw [totalWeight_filter_lt, h.below i hi]
  below := by
    intro j hj
    obtain ⟨hj, hlt⟩ := List.mem_filter.mp hj
    rw [weightBelow_filter_lt _ _ _ (of_decide_eq_true hlt).le, h.below j hj]
  upTo := by
    intro j hj
    obtain ⟨hj, hlt⟩ := List.mem_filter.mp hj
    rw [weightUpTo_filter_lt _ _ _ (of_decide_eq_true hlt), h.upTo j hj]

theorem upper (h : MedianWindow score weight whole part lo hi) (hi' : i ∈ part) :
    MedianWindow score weight whole (part.filter fun j => score i < score j)
      (weightUpTo score weight whole (score i)) hi where
  total := by
    have hsplit := totalWeight_filter_gt score weight part (score i)
    rw [← h.upTo i hi', ← h.total, ← hsplit]
    ring
  below := by
    intro j hj
    obtain ⟨hj, hlt⟩ := List.mem_filter.mp hj
    rw [← h.upTo i hi', add_assoc, weightBelow_filter_gt _ _ _ (of_decide_eq_true hlt),
      h.below j hj]
  upTo := by
    intro j hj
    obtain ⟨hj, hlt⟩ := List.mem_filter.mp hj
    rw [← h.upTo i hi', add_assoc, weightUpTo_filter_gt _ _ _ (of_decide_eq_true hlt), h.upTo j hj]

/-- A window that holds the level is not empty. -/
theorem ne_nil (h : MedianWindow score weight whole part lo hi) (hlt : lo < hi) : part ≠ [] := by
  rintro rfl
  have htotal := h.total
  rw [show totalWeight weight ([] : List ι) = 0 from rfl, add_zero] at htotal
  exact hlt.ne htotal

/-- In a window of one item, the item is the median. -/
theorem singleton (h : MedianWindow score weight whole [i] lo hi) {level : ℤ} (hlo : lo ≤ level)
    (hhi : level < hi) : IsWeightedMedian score weight whole level (score i) := by
  have hbelow := h.below i List.mem_cons_self
  have hupTo := h.upTo i List.mem_cons_self
  have htotal := h.total
  simp only [weightBelow, weightUpTo, totalWeight, List.map_cons, List.map_nil, List.sum_cons,
    List.sum_nil, lt_irrefl, le_refl, if_true, if_false] at hbelow hupTo htotal
  constructor
  · unfold weightBelow
    omega
  · unfold weightUpTo
    omega

end MedianWindow

end Subtensor.Lib
