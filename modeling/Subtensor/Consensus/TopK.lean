import Subtensor.Consensus.Vector
import Subtensor.Lib.Ranking

/-!
# Validator permits

An epoch gives permits to the validators with the largest stakes
(`is_topk_nonzero`): the marks of those that have a stake, but for the lowest
ones of a stable sort. Zeros are the lowest numbers, so clearing them takes no
mark away while there are enough of them.
-/

namespace Subtensor

open Lib

/-- The number at a position. -/
def bitsAt (vector : List I32F32) (idx : ℕ) : ℤ := ((vector[idx]?).map (·.bits)).getD 0

/-- The marks are cleared at the lowest positions, also if there are none to be
cleared. -/
theorem isTopkNonzero_eq (vector : List I32F32) (k : ℕ) :
    isTopkNonzero vector k =
      ((ranking (bitsAt vector) vector.length).take (vector.length - k)).foldl
        (fun result idx => result.set idx false)
        (vector.map fun elem => decide (elem.bits ≠ 0)) := by
  unfold isTopkNonzero
  dsimp only
  split
  · rename_i hlt
    rw [Nat.sub_eq_zero_of_le hlt.le, List.take_zero, List.foldl_nil]
  · rfl

section

variable {vector : List I32F32} {k : ℕ}

theorem length_isTopkNonzero : (isTopkNonzero vector k).length = vector.length := by
  rw [isTopkNonzero_eq, length_foldl_set, List.length_map]

theorem bitsAt_of_getElem? {i : ℕ} {x : I32F32} (h : vector[i]? = some x) :
    bitsAt vector i = x.bits := by
  unfold bitsAt
  rw [h]
  rfl

/-- The positions that are not among the lowest. -/
def topPositions (vector : List I32F32) (k : ℕ) : List ℕ :=
  (ranking (bitsAt vector) vector.length).drop (vector.length - k)

/-- A position is marked if its number is not zero and it is not one of the
lowest. -/
theorem getElem?_isTopkNonzero {i : ℕ} (hi : i < vector.length) :
    (isTopkNonzero vector k)[i]? =
      some (decide (bitsAt vector i ≠ 0) && decide (i ∈ topPositions vector k)) := by
  have hsplit := List.take_append_drop (vector.length - k)
    (ranking (bitsAt vector) vector.length)
  have hmem : i ∈ ranking (bitsAt vector) vector.length := mem_ranking.mpr hi
  have hnodup : (ranking (bitsAt vector) vector.length).Nodup := ranking_nodup
  have hmarks : (vector.map fun elem => decide (elem.bits ≠ 0))[i]? =
      some (decide (bitsAt vector i ≠ 0)) := by
    rw [List.getElem?_map, List.getElem?_eq_getElem hi, Option.map_some,
      bitsAt_of_getElem? (List.getElem?_eq_getElem hi)]
  rw [isTopkNonzero_eq, getElem?_foldl_set, hmarks, Option.map_some]
  rw [← hsplit, List.mem_append] at hmem
  rw [← hsplit] at hnodup
  by_cases htop : i ∈ topPositions vector k
  · have hlow : i ∉ (ranking (bitsAt vector) vector.length).take (vector.length - k) :=
      fun hlow => List.disjoint_of_nodup_append hnodup hlow htop
    rw [if_neg hlow, decide_eq_true htop, Bool.and_true]
  · rw [if_pos (hmem.resolve_right htop), decide_eq_false htop, Bool.and_false]

theorem isTopkNonzero_eq_map : isTopkNonzero vector k =
    (List.range vector.length).map fun i =>
      decide (bitsAt vector i ≠ 0) && decide (i ∈ topPositions vector k) := by
  apply List.ext_getElem?
  intro i
  by_cases hi : i < vector.length
  · rw [getElem?_isTopkNonzero hi, List.getElem?_map, List.getElem?_range hi, Option.map_some]
  · rw [List.getElem?_eq_none (length_isTopkNonzero.le.trans (not_lt.mp hi)),
      List.getElem?_eq_none]
    rw [List.length_map, List.length_range]
    exact not_lt.mp hi

/-- The numbers that are not zero are counted at their positions. -/
theorem countP_bitsAt : (List.range vector.length).countP (fun i => decide (bitsAt vector i ≠ 0)) =
    vector.countP fun x => decide (x.bits ≠ 0) := by
  have hmap : (List.range vector.length).map (bitsAt vector) = vector.map (·.bits) := by
    apply List.ext_getElem?
    intro i
    by_cases hi : i < vector.length
    · rw [List.getElem?_map, List.getElem?_range hi, List.getElem?_map,
        List.getElem?_eq_getElem hi, Option.map_some, Option.map_some,
        bitsAt_of_getElem? (List.getElem?_eq_getElem hi)]
    · rw [List.getElem?_eq_none, List.getElem?_eq_none]
      · rw [List.length_map]
        exact not_lt.mp hi
      · rw [List.length_map, List.length_range]
        exact not_lt.mp hi
  have hcount := congrArg (List.countP fun b => decide (b ≠ 0)) hmap
  rw [List.countP_map, List.countP_map] at hcount
  exact hcount

/-- Zeros are the lowest of numbers that are not negative. -/
theorem bitsAt_ne_zero_of_rankedBefore (hnonneg : ∀ x ∈ vector, 0 ≤ x.bits) {i j : ℕ}
    (hij : RankedBefore (bitsAt vector) i j) (hi : bitsAt vector i ≠ 0) :
    bitsAt vector j ≠ 0 := by
  have hscore : 0 ≤ bitsAt vector i := by
    unfold bitsAt
    cases hx : vector[i]? with
    | none => exact le_rfl
    | some x => exact hnonneg x (List.mem_of_getElem? hx)
  rcases hij with hlt | ⟨heq, -⟩
  · omega
  · rwa [← heq]

theorem count_isTopkNonzero (hnonneg : ∀ x ∈ vector, 0 ≤ x.bits) :
    (isTopkNonzero vector k).count true =
      min k (vector.countP fun x => decide (x.bits ≠ 0)) := by
  have hsplit := List.take_append_drop (vector.length - k)
    (ranking (bitsAt vector) vector.length)
  have hnodup : (ranking (bitsAt vector) vector.length).Nodup := ranking_nodup
  have hcut : (topPositions vector k).countP (fun i => decide (bitsAt vector i ≠ 0)) =
      min (vector.length - (vector.length - k))
        (vector.countP fun x => decide (x.bits ≠ 0)) := by
    unfold topPositions
    rw [countP_drop, length_ranking, ranking_perm.countP_eq, countP_bitsAt]
    refine ranking_pairwise.imp ?_
    intro i j hij hi
    exact decide_eq_true (bitsAt_ne_zero_of_rankedBefore hnonneg hij (of_decide_eq_true hi))
  have hmarked : (isTopkNonzero vector k).count true =
      (topPositions vector k).countP fun i => decide (bitsAt vector i ≠ 0) := by
    have hperm : (ranking (bitsAt vector) vector.length).Perm (List.range vector.length) :=
      ranking_perm
    rw [isTopkNonzero_eq_map, List.count, List.countP_map, ← hperm.countP_eq, ← hsplit,
      List.countP_append]
    rw [← hsplit] at hnodup
    have hlow : ((ranking (bitsAt vector) vector.length).take (vector.length - k)).countP
        ((· == true) ∘ fun i =>
          decide (bitsAt vector i ≠ 0) && decide (i ∈ topPositions vector k)) = 0 := by
      rw [List.countP_eq_zero]
      intro i hi
      have hnot : i ∉ topPositions vector k := List.disjoint_of_nodup_append hnodup hi
      simp [hnot]
    rw [hlow, Nat.zero_add]
    apply List.countP_congr
    intro i hi
    have htop : i ∈ topPositions vector k := hi
    simp [htop]
  have hle : vector.countP (fun x => decide (x.bits ≠ 0)) ≤ vector.length := List.countP_le_length
  rw [hmarked, hcut]
  omega

/-- What is marked is ranked after what is not. -/
theorem rankedBefore_of_marks {i j : ℕ} (hi : i ∈ topPositions vector k)
    (hj : j ∉ topPositions vector k) (hlt : j < vector.length) :
    RankedBefore (bitsAt vector) j i := by
  have hsplit := List.take_append_drop (vector.length - k)
    (ranking (bitsAt vector) vector.length)
  have hmem : j ∈ ranking (bitsAt vector) vector.length := mem_ranking.mpr hlt
  have hpairwise : (ranking (bitsAt vector) vector.length).Pairwise
    (RankedBefore (bitsAt vector)) := ranking_pairwise
  rw [← hsplit, List.mem_append] at hmem
  rw [← hsplit] at hpairwise
  exact (List.pairwise_append.mp hpairwise).2.2 j (hmem.resolve_right hj) i hi

end

/-- **Permits select the top stakes.** For every vector of numbers that are not
negative and every `k`: the smaller of `k` and the number of entries that are
not zero are marked, what is marked is not zero, and what is marked is greater
than what is not marked and not zero, or is the same and has the larger
index. -/
theorem isTopkNonzero_top (vector : List I32F32) (hnonneg : ∀ x ∈ vector, 0 ≤ x.bits) (k : ℕ) :
    (isTopkNonzero vector k).length = vector.length ∧
      (isTopkNonzero vector k).count true =
        min k (vector.countP fun x => decide (x.bits ≠ 0)) ∧
      (∀ (i : ℕ) (x : I32F32), vector[i]? = some x → (isTopkNonzero vector k)[i]? = some true → x.bits ≠ 0) ∧
      ∀ (i j : ℕ) (x y : I32F32), vector[i]? = some x → vector[j]? = some y →
        (isTopkNonzero vector k)[i]? = some true → (isTopkNonzero vector k)[j]? = some false →
        y.bits ≠ 0 → y.bits < x.bits ∨ y.bits = x.bits ∧ j < i := by
  refine ⟨length_isTopkNonzero, count_isTopkNonzero hnonneg, ?_, ?_⟩
  · intro i x hx hmarked
    rw [getElem?_isTopkNonzero (List.getElem?_eq_some_iff.mp hx).1, Option.some_inj,
      Bool.and_eq_true] at hmarked
    rw [← bitsAt_of_getElem? hx]
    exact of_decide_eq_true hmarked.1
  · intro i j x y hx hy hi hj hne
    have hjlt := (List.getElem?_eq_some_iff.mp hy).1
    rw [getElem?_isTopkNonzero (List.getElem?_eq_some_iff.mp hx).1, Option.some_inj,
      Bool.and_eq_true] at hi
    rw [getElem?_isTopkNonzero hjlt, Option.some_inj, bitsAt_of_getElem? hy, decide_eq_true hne,
      Bool.true_and] at hj
    have hbefore := rankedBefore_of_marks (of_decide_eq_true hi.2) (of_decide_eq_false hj) hjlt
    unfold RankedBefore at hbefore
    rwa [bitsAt_of_getElem? hx, bitsAt_of_getElem? hy] at hbefore

/-- Two of three equal stakes have a permit. -/
theorem isTopkNonzero_top_ties :
    (isTopkNonzero [.ofInt 5, 0, .ofInt 5, .ofInt 3, .ofInt 5] 2).count true = 2 := by
  have htop := isTopkNonzero_top [.ofInt 5, 0, .ofInt 5, .ofInt 3, .ofInt 5] (by decide +kernel) 2
  exact htop.2.1.trans (by decide +kernel)

end Subtensor
