import Mathlib.Tactic

/-!
# Rankings by a score

The positions below `n` in the order of their scores. The sort is stable, so
positions of equal scores are ranked by their number. A predicate on the scores
that is kept upwards holds of an end of the ranking, and what is cut off from
the front costs it the least it can.
-/

namespace Subtensor.Lib

variable {α : Type} [LinearOrder α]

def ranking (score : ℕ → α) (n : ℕ) : List ℕ :=
  (List.range n).mergeSort fun a b => score a ≤ score b

/-- One position is ranked before another. -/
def RankedBefore (score : ℕ → α) (a b : ℕ) : Prop :=
  score a < score b ∨ score a = score b ∧ a < b

section

variable {score : ℕ → α} {n : ℕ}

theorem ranking_perm : (ranking score n).Perm (List.range n) := List.mergeSort_perm _ _

theorem mem_ranking {i : ℕ} : i ∈ ranking score n ↔ i < n := by
  rw [ranking_perm.mem_iff, List.mem_range]

theorem ranking_nodup : (ranking score n).Nodup :=
  ranking_perm.nodup_iff.mpr List.nodup_range

theorem length_ranking : (ranking score n).length = n := by
  rw [ranking_perm.length_eq, List.length_range]

/-- The scores rise along a ranking. -/
theorem ranking_sorted : (ranking score n).Pairwise fun a b => score a ≤ score b := by
  have h : (ranking score n).Pairwise fun a b => decide (score a ≤ score b) = true := by
    apply List.pairwise_mergeSort
    · intro a b c hab hbc
      exact decide_eq_true ((of_decide_eq_true hab).trans (of_decide_eq_true hbc))
    · intro a b
      simpa using le_total (score a) (score b)
  exact h.imp of_decide_eq_true

/-- Two positions of a list without duplicates occur in one order only. -/
theorem not_pair_sublist {l : List ℕ} (hnodup : l.Nodup) {a b : ℕ} (hab : [a, b].Sublist l)
    (hba : [b, a].Sublist l) : False := by
  have hidx : l.Pairwise fun x y => l.idxOf x < l.idxOf y := by
    rw [List.pairwise_iff_getElem]
    intro i j hi hj hij
    rw [hnodup.idxOf_getElem i hi, hnodup.idxOf_getElem j hj]
    exact hij
  have h : l.idxOf a < l.idxOf b := by simpa using hidx.sublist hab
  have h' : l.idxOf b < l.idxOf a := by simpa using hidx.sublist hba
  exact absurd h' h.le.not_gt

/-- Positions of equal scores are ranked by their number. -/
theorem ranking_pairwise : (ranking score n).Pairwise (RankedBefore score) := by
  rw [List.pairwise_iff_forall_sublist]
  intro a b hab
  have hle : score a ≤ score b := by simpa using ranking_sorted.sublist hab
  have hne : a ≠ b := by
    rintro rfl
    simpa using ranking_nodup.sublist hab
  rcases hle.lt_or_eq with hlt | heq
  · exact .inl hlt
  · refine .inr ⟨heq, ?_⟩
    by_contra hnot
    have hlt : b < a := by omega
    have ha : a < n := mem_ranking.mp (hab.subset (by simp))
    -- the other order is that of the positions, and the sort keeps it
    have hrange : [b, a].Sublist (List.range n) := by
      have hpair : ([b] ++ [a]).Sublist (List.range a ++ [a]) :=
        (List.singleton_sublist.mpr (List.mem_range.mpr hlt)).append (List.Sublist.refl [a])
      rw [← List.range_succ] at hpair
      exact hpair.trans (List.range_sublist.mpr ha)
    refine not_pair_sublist ranking_nodup hab ?_
    apply List.pair_sublist_mergeSort
    · intro x y z hxy hyz
      exact decide_eq_true ((of_decide_eq_true hxy).trans (of_decide_eq_true hyz))
    · intro x y
      simpa using le_total (score x) (score y)
    · exact decide_eq_true heq.ge
    · exact hrange

end

/-- A predicate that is kept along a list holds of its end, so what is cut off
from the front costs it as little as possible. -/
theorem countP_drop {β : Type} {p : β → Bool} {l : List β}
    (h : l.Pairwise fun a b => p a = true → p b = true) (d : ℕ) :
    (l.drop d).countP p = min (l.length - d) (l.countP p) := by
  induction l generalizing d with
  | nil => simp
  | cons a rest ih =>
      obtain ⟨hhead, hrest⟩ := List.pairwise_cons.mp h
      cases d with
      | zero =>
          rw [List.drop_zero, Nat.sub_zero]
          exact (min_eq_right List.countP_le_length).symm
      | succ d =>
          rw [List.drop_succ_cons, ih hrest, List.length_cons, Nat.add_sub_add_right]
          by_cases ha : p a = true
          · have hall : rest.countP p = rest.length :=
              List.countP_eq_length.mpr fun b hb => hhead b hb ha
            rw [List.countP_cons_of_pos ha, hall]
            omega
          · rw [List.countP_cons_of_neg ha]

/-! ## Marks that are cleared -/

/-- Clearing positions of a list of marks leaves the others. -/
theorem getElem?_foldl_set (cleared : List ℕ) (marks : List Bool) (i : ℕ) :
    (cleared.foldl (fun marks idx => marks.set idx false) marks)[i]? =
      if i ∈ cleared then (marks[i]?).map fun _ => false else marks[i]? := by
  induction cleared generalizing marks with
  | nil => simp
  | cons a rest ih =>
      rw [List.foldl_cons, ih, List.getElem?_set]
      by_cases heq : a = i
      · subst heq
        by_cases hlt : a < marks.length
        · simp [hlt]
        · simp [hlt]
      · simp [heq, Ne.symm heq]

theorem length_foldl_set (cleared : List ℕ) (marks : List Bool) :
    (cleared.foldl (fun marks idx => marks.set idx false) marks).length = marks.length := by
  induction cleared generalizing marks with
  | nil => rfl
  | cons a rest ih => rw [List.foldl_cons, ih, List.length_set]

end Subtensor.Lib
