import Subtensor.Weights.SetWeights

/-!
# Vectors of scores

The functions on vectors that an epoch uses (`epoch/math.rs`). An index out of
range and an assertion that fails end the computation.
-/

namespace Subtensor

open Lib

/-! ## Conversions -/

/-- `fixed64_to_fixed32`: the bits that do not fit are dropped. -/
def fixed64ToFixed32 (x : I64F64) : I32F32 := .sat (x.bits / 2 ^ 32)

def u16ToFixed (x : U16) : I32F32 := .ofInt x.val

def fixedToFixedU16Proportion (x : I32F32) : I32F32 := x.safeDiv (.ofInt 65535)

def fixedProportionToU16 (x : I32F32) : U16 := (x.satMul (.ofInt 65535)).toWord 16

/-! ## Scores -/

/-- `inplace_normalize_64`. -/
def normalize64 (xs : List I64F64) : List I64F64 :=
  let sum : I64F64 := .wrap (xs.map (·.bits)).sum
  if sum.bits = 0 then xs else xs.map fun value => value.safeDiv sum

/-- `inplace_mask_vector`: what is masked becomes zero. -/
def maskVector (mask : List Bool) (vector : List I32F32) : Option (List I32F32) :=
  if mask.isEmpty then some vector
  else if mask.length = vector.length then
    some (List.zipWith (fun m value => if m then 0 else value) mask vector)
  else none

/-- `is_topk_nonzero`. The sort is stable. -/
def isTopkNonzero (vector : List I32F32) (k : ℕ) : List Bool :=
  let result := vector.map fun elem => decide (elem.bits ≠ 0)
  if vector.length < k then result
  else
    let score := fun idx => (vector[idx]?).map (·.bits)
    let idxs := (List.range vector.length).mergeSort fun a b => (score a).getD 0 ≤ (score b).getD 0
    (idxs.take (vector.length - k)).foldl (fun result idx => result.set idx false) result

def vecdiv (x y : List I32F32) : Option (List I32F32) :=
  if x.length = y.length then
    some (List.zipWith (fun a b => if b.bits ≠ 0 then a.safeDiv b else 0) x y)
  else none

/-- `checked_mul` with `unwrap_or_default`. -/
def Lib.IFixed.mulOrZero {i f : ℕ} (a b : IFixed i f) : IFixed i f :=
  if h : -2 ^ (i + f - 1) ≤ a.bits * b.bits / 2 ^ f ∧ a.bits * b.bits / 2 ^ f < 2 ^ (i + f - 1) then
    ⟨a.bits * b.bits / 2 ^ f, h.1, h.2⟩
  else 0

def vecMul (a b : List I32F32) : List I32F32 := List.zipWith IFixed.mulOrZero a b

/-- The smaller of two numbers. -/
def Lib.IFixed.least {i f : ℕ} (a b : IFixed i f) : IFixed i f := if a.bits ≤ b.bits then a else b

/-- The larger of two numbers. -/
def Lib.IFixed.greatest {i f : ℕ} (a b : IFixed i f) : IFixed i f :=
  if a.bits ≤ b.bits then b else a

/-- `saturating_div`, which fails on a zero divisor. -/
def Lib.IFixed.satDiv {i f : ℕ} (a b : IFixed i f) : Option (IFixed i f) :=
  if b.bits = 0 then none else some (.sat ((a.bits * 2 ^ f).tdiv b.bits))

def clampValue (value low high : I32F32) : I32F32 := (value.least high).greatest low

/-! ## The weighted median -/

/-- What the loop of `weighted_median` collects on both sides of the pivot. -/
structure MedianSplit where
  loStake : I32F32
  hiStake : I32F32
  lower : List ℕ
  upper : List ℕ

def MedianSplit.start : MedianSplit := ⟨0, 0, [], []⟩

def medianStep (stake score : List I32F32) (pivot : I32F32) (split : MedianSplit) (idx : ℕ) :
    Option MedianSplit :=
  match score[idx]? with
  | none => none
  | some value =>
      if value.bits = pivot.bits then some split
      else match stake[idx]? with
      | none => none
      | some amount =>
          if value.bits < pivot.bits then
            some { split with
              loStake := split.loStake.satAdd amount, lower := split.lower ++ [idx] }
          else
            some { split with
              hiStake := split.hiStake.satAdd amount, upper := split.upper ++ [idx] }

/-- `weighted_median`, with a bound on the number of calls. -/
def weightedMedianWithin (stake score : List I32F32) (minority : I32F32) :
    ℕ → List ℕ → I32F32 → I32F32 → Option I32F32
  | 0, _, _, _ => some 0
  | calls + 1, partition, lo, hi =>
      match partition with
      | [] => some 0
      | [idx] => score[idx]?
      | _ =>
          if ¬stake.length = score.length then none
          else match (partition[partition.length / 2]?).bind (score[·]?) with
          | none => none
          | some pivot =>
              match partition.foldlM (medianStep stake score pivot) .start with
              | none => none
              | some split =>
                  let below := lo.satAdd split.loStake
                  let above := hi.satSub split.hiStake
                  if below.bits ≤ minority.bits ∧ minority.bits < above.bits then some pivot
                  else if minority.bits < below.bits ∧ ¬split.lower.isEmpty then
                    weightedMedianWithin stake score minority calls split.lower lo below
                  else if above.bits ≤ minority.bits ∧ ¬split.upper.isEmpty then
                    weightedMedianWithin stake score minority calls split.upper above hi
                  else some pivot

/-- Every call has a smaller partition, so that as many calls are enough as the
partition is long. -/
def weightedMedian (stake score : List I32F32) (partition : List ℕ)
    (minority lo hi : I32F32) : Option I32F32 :=
  weightedMedianWithin stake score minority partition.length partition lo hi

def isBelow (score : List I32F32) (pivot : I32F32) (idx : ℕ) : Bool :=
  (score[idx]?).any fun value => value.bits < pivot.bits

def isAbove (score : List I32F32) (pivot : I32F32) (idx : ℕ) : Bool :=
  (score[idx]?).any fun value => pivot.bits < value.bits

/-- A pass over a partition in range finds what is on both sides. -/
theorem foldlM_medianStep {stake score : List I32F32} (hlen : stake.length = score.length)
    (pivot : I32F32) {partition : List ℕ} (h : ∀ idx ∈ partition, idx < score.length)
    (split : MedianSplit) : ∃ lo hi, partition.foldlM (medianStep stake score pivot) split =
      some ⟨lo, hi, split.lower ++ partition.filter (isBelow score pivot),
        split.upper ++ partition.filter (isAbove score pivot)⟩ := by
  induction partition generalizing split with
  | nil => exact ⟨split.loStake, split.hiStake, by simp⟩
  | cons idx partition ih =>
      have hidx := h idx List.mem_cons_self
      have hscore : score[idx]? = some score[idx] := List.getElem?_eq_getElem hidx
      have hstake : stake[idx]? = some (stake.get ⟨idx, hlen ▸ hidx⟩) := List.getElem?_eq_getElem _
      have htail : ∀ idx ∈ partition, idx < score.length :=
        fun i hi => h i (List.mem_cons_of_mem idx hi)
      have hbelow : isBelow score pivot idx = decide (score[idx].bits < pivot.bits) := by
        unfold isBelow
        rw [hscore]
        rfl
      have habove : isAbove score pivot idx = decide (pivot.bits < score[idx].bits) := by
        unfold isAbove
        rw [hscore]
        rfl
      rw [List.foldlM_cons, List.filter_cons, List.filter_cons, hbelow, habove]
      unfold medianStep
      simp only [hscore, hstake]
      rcases lt_trichotomy score[idx].bits pivot.bits with hlt | heq | hgt
      · rw [if_neg hlt.ne, if_pos hlt, if_pos (decide_eq_true hlt), if_neg (by simp [hlt.le])]
        obtain ⟨lo, hi, hfold⟩ := ih htail _
        refine ⟨lo, hi, hfold.trans ?_⟩
        rw [List.append_assoc, List.singleton_append]
      · rw [if_pos heq, if_neg (by simp [heq]), if_neg (by simp [heq])]
        exact ih htail split
      · rw [if_neg hgt.ne', if_neg hgt.le.not_gt, if_neg (by simp [hgt.le]),
          if_pos (decide_eq_true hgt)]
        obtain ⟨lo, hi, hfold⟩ := ih htail _
        refine ⟨lo, hi, hfold.trans ?_⟩
        rw [List.append_assoc, List.singleton_append]

/-- The pivot is on neither side. -/
theorem length_filter_lt {score : List I32F32} {pivot : I32F32} {partition : List ℕ} {idx : ℕ}
    (hmem : idx ∈ partition) (hpivot : score[idx]? = some pivot) :
    (partition.filter (isBelow score pivot)).length < partition.length ∧
      (partition.filter (isAbove score pivot)).length < partition.length := by
  rw [List.length_filter_lt_length_iff_exists, List.length_filter_lt_length_iff_exists]
  refine ⟨⟨idx, hmem, ?_⟩, ⟨idx, hmem, ?_⟩⟩
  · simp [isBelow, hpivot]
  · simp [isAbove, hpivot]

/-- The median of scores in range is zero or one of them. -/
theorem weightedMedianWithin_ok {stake score : List I32F32} (hlen : stake.length = score.length)
    (minority : I32F32) (calls : ℕ) {partition : List ℕ} (hcalls : partition.length ≤ calls)
    (h : ∀ idx ∈ partition, idx < score.length) (lo hi : I32F32) :
    ∃ value, weightedMedianWithin stake score minority calls partition lo hi = some value ∧
      (value = 0 ∨ value ∈ score) := by
  induction calls generalizing partition lo hi with
  | zero => exact ⟨0, rfl, Or.inl rfl⟩
  | succ calls ih =>
      unfold weightedMedianWithin
      split
      · exact ⟨0, rfl, Or.inl rfl⟩
      · rename_i idx
        have hidx := h idx List.mem_cons_self
        exact ⟨score[idx], List.getElem?_eq_getElem hidx, Or.inr (List.getElem_mem hidx)⟩
      · rename_i hnil _
        have hpos : partition.length / 2 < partition.length :=
          Nat.div_lt_self (List.length_pos_iff.mpr hnil) one_lt_two
        have hmem := List.getElem_mem hpos
        have hidx := h _ hmem
        have hpivot : (partition[partition.length / 2]?).bind (score[·]?) =
            some score[partition[partition.length / 2]] := by
          rw [List.getElem?_eq_getElem hpos, Option.bind_some, List.getElem?_eq_getElem hidx]
        obtain ⟨hbelow, habove⟩ := length_filter_lt hmem (List.getElem?_eq_getElem hidx)
        obtain ⟨loStake, hiStake, hfold⟩ := foldlM_medianStep hlen
          score[partition[partition.length / 2]] h .start
        rw [if_neg (not_not.mpr hlen), hpivot]
        simp only [hfold]
        have hfiltered : ∀ p : ℕ → Bool, ∀ idx ∈ partition.filter p, idx < score.length :=
          fun p idx hmem => h idx (List.mem_filter.mp hmem).1
        split
        · exact ⟨_, rfl, Or.inr (List.getElem_mem hidx)⟩
        · split
          · exact ih (Nat.le_of_lt_succ (hbelow.trans_le hcalls)) (hfiltered _) _ _
          · split
            · exact ih (Nat.le_of_lt_succ (habove.trans_le hcalls)) (hfiltered _) _ _
            · exact ⟨_, rfl, Or.inr (List.getElem_mem hidx)⟩

theorem weightedMedian_ok {stake score : List I32F32} (hlen : stake.length = score.length)
    {partition : List ℕ} (h : ∀ idx ∈ partition, idx < score.length) (minority lo hi : I32F32) :
    ∃ value, weightedMedian stake score partition minority lo hi = some value ∧
      (value = 0 ∨ value ∈ score) :=
  weightedMedianWithin_ok hlen minority _ le_rfl h lo hi

end Subtensor
