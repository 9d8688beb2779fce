import Subtensor.Consensus.Mass
import Subtensor.Consensus.SparseSpec
import Subtensor.Lib.WeightedMedian

/-!
# The weighted median of an epoch

`weighted_median` narrows a window of neurons around a pivot until the pivot is
the median: the stake below it is at most the minority, and the stake up to it
is more. On the columns of a matrix, the sparse loop writes the entries of each
column into zeros, and so finds the medians of the dense matrix.
-/

namespace Subtensor

open Lib

/-! ## Stakes and scores by index -/

def scoreAt (score : List I32F32) (idx : ℕ) : ℤ := ((score[idx]?).getD 0).bits

def stakeAt (stake : List I32F32) (idx : ℕ) : ℤ := ((stake[idx]?).getD 0).bits

variable {stake score : List I32F32} {minority : I32F32} {part : List ℕ}

theorem scoreAt_of_eq {idx : ℕ} {value : I32F32} (h : score[idx]? = some value) :
    scoreAt score idx = value.bits := by
  rw [scoreAt, h, Option.getD_some]

theorem filter_isBelow {pivot : I32F32} (h : ∀ idx ∈ part, idx < score.length) :
    part.filter (isBelow score pivot) = part.filter fun idx => scoreAt score idx < pivot.bits := by
  refine List.filter_congr fun idx hidx => ?_
  have hvalue : score[idx]? = some (score.get ⟨idx, h idx hidx⟩) := List.getElem?_eq_getElem _
  rw [isBelow, scoreAt_of_eq hvalue, hvalue]
  rfl

theorem filter_isAbove {pivot : I32F32} (h : ∀ idx ∈ part, idx < score.length) :
    part.filter (isAbove score pivot) = part.filter fun idx => pivot.bits < scoreAt score idx := by
  refine List.filter_congr fun idx hidx => ?_
  have hvalue : score[idx]? = some (score.get ⟨idx, h idx hidx⟩) := List.getElem?_eq_getElem _
  rw [isAbove, scoreAt_of_eq hvalue, hvalue]
  rfl

/-! ## The pass over a partition -/

/-- A step of the pass, by the side on which the score is. -/
theorem medianStep_eq {pivot value amount : I32F32} {idx : ℕ} (hvalue : score[idx]? = some value)
    (hamount : stake[idx]? = some amount) (split : MedianSplit) :
    medianStep stake score pivot split idx = some
      (if value.bits = pivot.bits then split
      else if value.bits < pivot.bits then
        { split with loStake := split.loStake.satAdd amount, lower := split.lower ++ [idx] }
      else
        { split with hiStake := split.hiStake.satAdd amount, upper := split.upper ++ [idx] }) := by
  unfold medianStep
  simp only [hvalue, hamount]
  split_ifs <;> rfl

/-- The stakes on both sides of the pivot are added up. -/
theorem foldlM_medianStep_stakes (hlen : stake.length = score.length)
    (hnonneg : ∀ idx, 0 ≤ stakeAt stake idx) (pivot : I32F32)
    (h : ∀ idx ∈ part, idx < score.length) {split out : MedianSplit}
    (hout : part.foldlM (medianStep stake score pivot) split = some out)
    (hlo : 0 ≤ split.loStake.bits) (hhi : 0 ≤ split.hiStake.bits)
    (hfits : split.loStake.bits + split.hiStake.bits + totalWeight (stakeAt stake) part < 2 ^ 63) :
    out.loStake.bits = split.loStake.bits +
        weightBelow (scoreAt score) (stakeAt stake) part pivot.bits ∧
      out.hiStake.bits = split.hiStake.bits +
        totalWeight (stakeAt stake) (part.filter fun idx => pivot.bits < scoreAt score idx) := by
  induction part generalizing split with
  | nil =>
      cases hout
      exact ⟨(add_zero _).symm, (add_zero _).symm⟩
  | cons idx part ih =>
      have hidx := h idx List.mem_cons_self
      obtain ⟨value, hvalue⟩ : ∃ value, score[idx]? = some value :=
        ⟨_, List.getElem?_eq_getElem hidx⟩
      obtain ⟨amount, hamount⟩ : ∃ amount, stake[idx]? = some amount :=
        ⟨_, List.getElem?_eq_getElem (hlen ▸ hidx)⟩
      have hstake : stakeAt stake idx = amount.bits := by rw [stakeAt, hamount, Option.getD_some]
      have hpos : 0 ≤ amount.bits := hstake ▸ hnonneg idx
      have hrest : 0 ≤ totalWeight (stakeAt stake) part := by
        refine List.sum_nonneg fun x hx => ?_
        obtain ⟨j, -, rfl⟩ := List.mem_map.mp hx
        exact hnonneg j
      have htail : ∀ idx ∈ part, idx < score.length :=
        fun i hi => h i (List.mem_cons_of_mem idx hi)
      have htotal : totalWeight (stakeAt stake) (idx :: part) =
          amount.bits + totalWeight (stakeAt stake) part := hstake ▸ List.sum_cons
      have hbelow : weightBelow (scoreAt score) (stakeAt stake) (idx :: part) pivot.bits =
          (if value.bits < pivot.bits then amount.bits else 0) +
            weightBelow (scoreAt score) (stakeAt stake) part pivot.bits := by
        rw [← scoreAt_of_eq hvalue, ← hstake]
        exact List.sum_cons
      rw [List.foldlM_cons, medianStep_eq hvalue hamount, Option.bind_eq_bind,
        Option.bind_some] at hout
      rw [List.filter_cons, scoreAt_of_eq hvalue, hbelow]
      rcases lt_trichotomy value.bits pivot.bits with hlt | heq | hgt
      · rw [if_neg hlt.ne, if_pos hlt] at hout
        have hadd := bits_satAdd_of_lt hlo hpos (by omega)
        obtain ⟨hlo', hhi'⟩ := ih htail hout (by dsimp only; omega) hhi (by dsimp only; omega)
        rw [if_pos hlt, if_neg (by simp [hlt.le]), hlo', hhi', hadd]
        exact ⟨add_assoc _ _ _, rfl⟩
      · rw [if_pos heq] at hout
        obtain ⟨hlo', hhi'⟩ := ih htail hout hlo hhi (by omega)
        rw [if_neg heq.not_lt, if_neg (by simp [heq]), zero_add]
        exact ⟨hlo', hhi'⟩
      · rw [if_neg hgt.ne', if_neg hgt.le.not_gt] at hout
        have hadd := bits_satAdd_of_lt hhi hpos (by omega)
        obtain ⟨hlo', hhi'⟩ := ih htail hout hlo (by dsimp only; omega) (by dsimp only; omega)
        have hside : totalWeight (stakeAt stake) (idx :: part.filter fun idx =>
            pivot.bits < scoreAt score idx) = amount.bits + totalWeight (stakeAt stake)
              (part.filter fun idx => pivot.bits < scoreAt score idx) := hstake ▸ List.sum_cons
        rw [if_neg hgt.le.not_gt, if_pos (decide_eq_true hgt), zero_add, hlo', hhi', hadd, hside]
        exact ⟨rfl, add_assoc _ _ _⟩

/-! ## The search -/

/-- What is needed of the stakes: they are not negative and their sum fits. -/
structure StakesFit (stake : List I32F32) : Prop where
  nonneg : Nonneg stake
  mass_lt : mass stake < 2 ^ 63

theorem StakesFit.stakeAt_nonneg (h : StakesFit stake) (idx : ℕ) : 0 ≤ stakeAt stake idx := by
  unfold stakeAt
  cases hget : stake[idx]? with
  | none => exact le_rfl
  | some s => exact h.nonneg s (List.mem_of_getElem? hget)

/-- The weights of a window are at most the whole, so nothing is clamped. -/
theorem weightUpTo_le_total (score : List I32F32) (h : StakesFit stake) (whole : List ℕ) (v : ℤ) :
    weightBelow (scoreAt score) (stakeAt stake) whole v ≤
        weightUpTo (scoreAt score) (stakeAt stake) whole v ∧
      0 ≤ weightBelow (scoreAt score) (stakeAt stake) whole v ∧
      weightUpTo (scoreAt score) (stakeAt stake) whole v ≤ totalWeight (stakeAt stake) whole := by
  refine ⟨List.sum_le_sum fun i _ => ?_, List.sum_nonneg fun x hx => ?_,
    List.sum_le_sum fun i _ => ?_⟩
  · have := h.stakeAt_nonneg i
    split_ifs <;> omega
  · obtain ⟨i, -, rfl⟩ := List.mem_map.mp hx
    have := h.stakeAt_nonneg i
    split_ifs <;> omega
  · have := h.stakeAt_nonneg i
    split_ifs <;> omega

/-- The pass around a pivot of a window weighs both sides in the whole. -/
theorem foldlM_medianStep_window (hlen : stake.length = score.length) (hstake : StakesFit stake)
    {whole : List ℕ} (htotal : totalWeight (stakeAt stake) whole < 2 ^ 63)
    (h : ∀ idx ∈ part, idx < score.length) {lo hi pivot : I32F32}
    (hwindow : MedianWindow (scoreAt score) (stakeAt stake) whole part lo.bits hi.bits)
    (hzero : 0 ≤ lo.bits) {idx : ℕ} (hmem : idx ∈ part) (hpivot : score[idx]? = some pivot) :
    ∃ loStake hiStake, part.foldlM (medianStep stake score pivot) .start = some
        ⟨loStake, hiStake, part.filter fun idx => scoreAt score idx < pivot.bits,
          part.filter fun idx => pivot.bits < scoreAt score idx⟩ ∧
      (lo.satAdd loStake).bits = weightBelow (scoreAt score) (stakeAt stake) whole pivot.bits ∧
      (hi.satSub hiStake).bits = weightUpTo (scoreAt score) (stakeAt stake) whole pivot.bits := by
  obtain ⟨loStake, hiStake, hfold⟩ := foldlM_medianStep hlen pivot h .start
  have hupper := hi.upper
  have hpart := hwindow.total
  obtain ⟨hlo, hhi⟩ := foldlM_medianStep_stakes hlen hstake.stakeAt_nonneg pivot h hfold
    le_rfl le_rfl (by
      show (0 : ℤ) + 0 + _ < _
      omega)
  obtain ⟨hle, hnonneg, htop⟩ := weightUpTo_le_total score hstake whole pivot.bits
  have hside := totalWeight_filter_gt (scoreAt score) (stakeAt stake) part pivot.bits
  have hbelow := hwindow.below idx hmem
  have hupTo := hwindow.upTo idx hmem
  rw [scoreAt_of_eq hpivot] at hbelow hupTo
  refine ⟨loStake, hiStake, ?_, ?_, ?_⟩
  · rw [hfold, filter_isBelow h, filter_isAbove h]
    rfl
  · have hsum : lo.bits + loStake.bits =
        weightBelow (scoreAt score) (stakeAt stake) whole pivot.bits := by
      rw [← hbelow]
      exact congrArg (lo.bits + ·) (hlo.trans (zero_add _))
    rw [← hsum]
    exact IFixed.bits_sat_of_mem (by omega) (by omega)
  · have hsum : hi.bits - hiStake.bits =
        weightUpTo (scoreAt score) (stakeAt stake) whole pivot.bits := by
      rw [← hupTo, ← hpart, ← hside, hhi.trans (zero_add _)]
      ring
    rw [← hsum]
    exact IFixed.bits_sat_of_mem (by omega) (by omega)

/-- The search in a window finds the median of the whole. -/
theorem weightedMedianWithin_isMedian (hlen : stake.length = score.length)
    (hstake : StakesFit stake) {whole : List ℕ} (htotal : totalWeight (stakeAt stake) whole < 2 ^ 63) (calls : ℕ)
    (hcalls : part.length ≤ calls) (h : ∀ idx ∈ part, idx < score.length) {lo hi : I32F32}
    (hwindow : MedianWindow (scoreAt score) (stakeAt stake) whole part lo.bits hi.bits)
    (hzero : 0 ≤ lo.bits) (hle : lo.bits ≤ minority.bits) (hlt : minority.bits < hi.bits) :
    ∃ value, weightedMedianWithin stake score minority calls part lo hi = some value ∧
      value ∈ score ∧
      IsWeightedMedian (scoreAt score) (stakeAt stake) whole minority.bits value.bits := by
  induction calls generalizing part lo hi with
  | zero =>
      have hnil : part = [] := List.length_eq_zero_iff.mp (Nat.le_zero.mp hcalls)
      exact absurd hnil (hwindow.ne_nil (hle.trans_lt hlt))
  | succ calls ih =>
      unfold weightedMedianWithin
      split
      · exact absurd rfl (hwindow.ne_nil (hle.trans_lt hlt))
      · rename_i idx
        have hidx := h idx List.mem_cons_self
        have hvalue : score[idx]? = some score[idx] := List.getElem?_eq_getElem hidx
        refine ⟨score[idx], hvalue, List.getElem_mem hidx, ?_⟩
        rw [← scoreAt_of_eq hvalue]
        exact hwindow.singleton hle hlt
      · rename_i hnil _
        have hpos : part.length / 2 < part.length :=
          Nat.div_lt_self (List.length_pos_iff.mpr hnil) one_lt_two
        have hmem := List.getElem_mem hpos
        obtain ⟨pivot, hpivot⟩ : ∃ pivot, score[part[part.length / 2]]? = some pivot :=
          ⟨_, List.getElem?_eq_getElem (h _ hmem)⟩
        have hread : (part[part.length / 2]?).bind (score[·]?) = some pivot := by
          rw [List.getElem?_eq_getElem hpos, Option.bind_some, hpivot]
        obtain ⟨hcallsLower, hcallsUpper⟩ := length_filter_lt hmem hpivot
        rw [filter_isBelow h] at hcallsLower
        rw [filter_isAbove h] at hcallsUpper
        obtain ⟨loStake, hiStake, hsplit, hbelow, habove⟩ :=
          foldlM_medianStep_window hlen hstake htotal h hwindow hzero hmem hpivot
        obtain ⟨hnonneg, hpivotLe, -⟩ :=
          weightUpTo_le_total score hstake whole pivot.bits
        have hlower := hwindow.lower hmem
        have hupper := hwindow.upper hmem
        rw [scoreAt_of_eq hpivot, ← hbelow] at hlower
        rw [scoreAt_of_eq hpivot, ← habove] at hupper
        have hrange : ∀ p : ℕ → Bool, ∀ idx ∈ part.filter p, idx < score.length :=
          fun p idx hmem => h idx (List.mem_filter.mp hmem).1
        rw [if_neg (not_not.mpr hlen), hread]
        simp only [hsplit]
        by_cases hfound : (lo.satAdd loStake).bits ≤ minority.bits ∧
            minority.bits < (hi.satSub hiStake).bits
        · rw [if_pos hfound]
          rw [hbelow, habove] at hfound
          exact ⟨pivot, rfl, List.mem_of_getElem? hpivot, hfound.1, hfound.2⟩
        · rw [if_neg hfound]
          by_cases hless : minority.bits < (lo.satAdd loStake).bits
          · have hne := hlower.ne_nil (hle.trans_lt hless)
            rw [if_pos ⟨hless, by simpa using hne⟩]
            exact ih (Nat.le_of_lt_succ (hcallsLower.trans_le hcalls)) (hrange _) hlower hzero hle
              hless
          · -- the pivot is not the median and not above it, so the level is beyond it
            have hmore : (hi.satSub hiStake).bits ≤ minority.bits := by
              rw [not_lt] at hless
              exact not_lt.mp fun hlt => hfound ⟨hless, hlt⟩
            have hne := hupper.ne_nil (hmore.trans_lt hlt)
            rw [if_neg fun hcase => hless hcase.1, if_pos ⟨hmore, by simpa using hne⟩]
            exact ih (Nat.le_of_lt_succ (hcallsUpper.trans_le hcalls)) (hrange _) hupper
              (by rw [habove]; omega) hmore hlt

/-! ## The whole range -/

theorem map_eq_map_range {α β : Type} (l : List α) (g : α → β) (d : β) :
    l.map g = (List.range l.length).map fun i => ((l[i]?).map g).getD d := by
  apply List.ext_getElem?
  intro i
  rw [List.getElem?_map, List.getElem?_map]
  by_cases hi : i < l.length
  · simp [hi]
  · simp [not_lt.mp hi]

/-- Stakes with their scores. -/
abbrev Entries := List (I32F32 × I32F32)

/-- The score that is the median of the entries. -/
abbrev Entries.IsMedian (entries : Entries) (minority value : I32F32) : Prop :=
  IsWeightedMedian (fun e : I32F32 × I32F32 => e.2.bits) (fun e => e.1.bits) entries minority.bits
    value.bits

/-- By index or by entry, the sums are the same. -/
theorem map_range_entries (entries : Entries) (g : ℤ → ℤ → ℤ) :
    (List.range entries.length).map (fun i => g (stakeAt (entries.map (·.1)) i)
        (scoreAt (entries.map (·.2)) i)) = entries.map fun e => g e.1.bits e.2.bits := by
  rw [map_eq_map_range entries (fun e => g e.1.bits e.2.bits) (g 0 0)]
  congr 1
  funext i
  unfold stakeAt scoreAt
  rw [List.getElem?_map, List.getElem?_map]
  cases entries[i]? <;> rfl

theorem totalWeight_range (entries : Entries) :
    totalWeight (stakeAt (entries.map (·.1))) (List.range entries.length) =
      (entries.map fun e => e.1.bits).sum :=
  congrArg List.sum (map_range_entries entries fun stake _ => stake)

theorem isMedian_range (entries : Entries) {value : I32F32}
    (h : IsWeightedMedian (scoreAt (entries.map (·.2))) (stakeAt (entries.map (·.1)))
      (List.range entries.length) minority.bits value.bits) : entries.IsMedian minority value := by
  have hbelow := map_range_entries entries fun stake score =>
    if score < value.bits then stake else 0
  have hupTo := map_range_entries entries fun stake score =>
    if score ≤ value.bits then stake else 0
  exact ⟨(congrArg List.sum hbelow).symm.trans_le h.below,
    h.upTo.trans_eq (congrArg List.sum hupTo)⟩

/-- On the whole range, in any order, the search finds the median. -/
theorem weightedMedianWithin_entries {entries : Entries} (hstake : StakesFit (entries.map (·.1)))
    (h0 : 0 ≤ minority.bits) (hlt : minority.bits < (sumFixed (entries.map (·.1))).bits)
    {partition : List ℕ} (hpartition : partition.Perm (List.range entries.length)) {calls : ℕ}
    (hcalls : entries.length ≤ calls) :
    ∃ value, weightedMedianWithin (entries.map (·.1)) (entries.map (·.2)) minority calls
        partition 0 (sumFixed (entries.map (·.1))) = some value ∧
      (∃ e ∈ entries, e.2 = value) ∧ entries.IsMedian minority value := by
  have htotal : totalWeight (stakeAt (entries.map (·.1))) (List.range entries.length) =
      (sumFixed (entries.map (·.1))).bits := by
    rw [totalWeight_range, hstake.nonneg.bits_sumFixed hstake.mass_lt, mass, List.map_map]
    rfl
  have hlength : partition.length = entries.length := by
    rw [hpartition.length_eq, List.length_range]
  have hrange : ∀ idx ∈ partition, idx < (entries.map (·.2)).length := by
    intro idx hidx
    rw [List.length_map]
    exact List.mem_range.mp (hpartition.mem_iff.mp hidx)
  have hwindow : MedianWindow (scoreAt (entries.map (·.2))) (stakeAt (entries.map (·.1)))
      (List.range entries.length) partition (0 : I32F32).bits
      (sumFixed (entries.map (·.1))).bits := by
    rw [← htotal]
    exact .start _ _ hpartition.symm
  have hupper := (sumFixed (entries.map (·.1))).upper
  obtain ⟨value, hvalue, hmem, hmedian⟩ := weightedMedianWithin_isMedian (by simp) hstake
    (by rw [htotal]; omega) calls (hlength.trans_le hcalls) hrange hwindow le_rfl h0 hlt
  exact ⟨value, hvalue, List.mem_map.mp hmem, isMedian_range entries hmedian⟩

/-- The median does not depend on the order, of the entries or of the search. -/
theorem weightedMedianWithin_perm {entries : Entries} (hstake : StakesFit (entries.map (·.1)))
    (h0 : 0 ≤ minority.bits) (hlt : minority.bits < mass (entries.map (·.1))) :
    ∃ value, (∃ e ∈ entries, e.2 = value) ∧ entries.IsMedian minority value ∧
      (∀ value', entries.IsMedian minority value' → value' = value) ∧
      ∀ entries' : Entries, entries'.Perm entries →
        ∀ partition : List ℕ, partition.Perm (List.range entries.length) →
          ∀ calls, entries.length ≤ calls →
            weightedMedianWithin (entries'.map (·.1)) (entries'.map (·.2)) minority calls
              partition 0 (sumFixed (entries'.map (·.1))) = some value := by
  have hsum : ∀ entries' : Entries, entries'.Perm entries →
      StakesFit (entries'.map (·.1)) ∧
        minority.bits < (sumFixed (entries'.map (·.1))).bits := by
    intro entries' hperm
    have hmass : mass (entries'.map (·.1)) = mass (entries.map (·.1)) :=
      ((hperm.map _).map _).sum_eq
    have hfit : StakesFit (entries'.map (·.1)) :=
      ⟨fun s hs => hstake.nonneg s ((hperm.map _).mem_iff.mp hs), hmass ▸ hstake.mass_lt⟩
    exact ⟨hfit, by rw [hfit.nonneg.bits_sumFixed hfit.mass_lt, hmass]; exact hlt⟩
  obtain ⟨value, -, hmem, hmedian⟩ := weightedMedianWithin_entries hstake h0
    (hsum entries (.refl _)).2 (.refl _) le_rfl
  have hnonneg : ∀ e ∈ entries, 0 ≤ e.1.bits :=
    fun e he => hstake.nonneg e.1 (List.mem_map_of_mem he)
  have hunique : ∀ value', entries.IsMedian minority value' → value' = value :=
    fun value' hmedian' => IFixed.ext (hmedian'.unique hnonneg hmedian)
  refine ⟨value, hmem, hmedian, hunique, ?_⟩
  intro entries' hperm partition hpartition calls hcalls
  obtain ⟨hfit, hlt'⟩ := hsum entries' hperm
  rw [← hperm.length_eq] at hpartition hcalls
  obtain ⟨value', hvalue', -, hbelow, hupTo⟩ :=
    weightedMedianWithin_entries hfit h0 hlt' hpartition hcalls
  rw [weightBelow_perm hperm] at hbelow
  rw [weightUpTo_perm hperm] at hupTo
  rw [hvalue', hunique value' ⟨hbelow, hupTo⟩]

/-! ## The columns of a matrix -/

variable {n : ℕ}

/-- The score of a row in a column. -/
def scoreIn (M : SparseMatrix I32F32) (r c : ℕ) : I32F32 :=
  ((M[r]?).bind fun row => row.lookup c).getD 0

/-- The rows with a stake, and their numbers. -/
def stakedRows (stake : List I32F32) : List (I32F32 × ℕ) :=
  stake.zipIdx.filter fun p => 0 < p.1.bits

theorem set_append_zeros (pre : List I32F32) (value : I32F32) (k : ℕ) :
    (pre ++ List.replicate (k + 1) 0).set pre.length value =
      (pre ++ [value]) ++ List.replicate k 0 := by
  rw [List.set_append_right _ _ le_rfl, Nat.sub_self, List.replicate_succ, List.set_cons_zero,
    List.append_assoc, List.singleton_append]

/-- One row is written after `k` others, in every column. -/
theorem scatter_row {row : SparseRow I32F32} (hwf : row.WellFormed n) {total k rest : ℕ}
    (hk : k < total) {w : ℕ → List I32F32} (hw : ∀ c, (w c).length = k) :
    SparseRow.scatter (fun value =>
        if k < total then some fun column : List I32F32 => column.set k value else none)
        ((List.range n).map fun c => w c ++ List.replicate (rest + 1) 0) row =
      some ((List.range n).map fun c =>
        (w c ++ [(row.lookup c).getD 0]) ++ List.replicate rest 0) := by
  have hacc : ((List.range n).map fun c => w c ++ List.replicate (rest + 1) (0 : I32F32)).length =
      n := by rw [List.length_map, List.length_range]
  rw [SparseRow.scatter_eq (g := fun value column => column.set k value)
    (by rw [hacc]; exact hwf) fun e _ => if_pos hk]
  congr 1
  apply List.ext_getElem?
  intro c
  rw [SparseRow.getElem?_scattered, List.getElem?_map, List.getElem?_map, Option.map_map]
  by_cases hc : c < n
  · rw [List.getElem?_range hc]
    simp only [Option.map_some, Function.comp]
    cases row.lookup c with
    | none => simp [List.replicate_succ]
    | some value =>
        show some ((w c ++ List.replicate (rest + 1) 0).set k value) = _
        rw [← hw c, set_append_zeros]
        rfl
  · rw [List.getElem?_eq_none (by simpa using hc)]
    rfl

theorem foldlM_columnScores {M : SparseMatrix I32F32} (hwf : M.WellFormed n) {total : ℕ}
    (rows : List (I32F32 × ℕ)) (hrows : ∀ p ∈ rows, p.2 < M.length) {k : ℕ}
    (hk : k + rows.length = total) {w : ℕ → List I32F32} (hw : ∀ c, (w c).length = k) :
    (rows.zipIdx k).foldlM (fun useScore p => (M[p.1.2]?).bind fun row =>
        SparseRow.scatter (fun value =>
          if p.2 < total then some fun column : List I32F32 => column.set p.2 value else none)
          useScore row)
        ((List.range n).map fun c => w c ++ List.replicate rows.length 0) =
      some ((List.range n).map fun c => w c ++ rows.map fun p => scoreIn M p.2 c) := by
  induction rows generalizing k w with
  | nil => rfl
  | cons p rows ih =>
      obtain ⟨row, hrow⟩ : ∃ row, M[p.2]? = some row :=
        ⟨_, List.getElem?_eq_getElem (hrows p List.mem_cons_self)⟩
      rw [List.length_cons] at hk
      rw [List.zipIdx_cons, List.foldlM_cons, hrow, Option.bind_some, List.length_cons,
        scatter_row (hwf row (List.mem_of_getElem? hrow)) (by omega) hw]
      refine (ih (fun q hq => hrows q (List.mem_cons_of_mem _ hq)) (k := k + 1) (by omega)
        (w := fun c => w c ++ [(row.lookup c).getD 0]) fun c => by simp [hw c]).trans ?_
      congr 2
      funext c
      rw [List.append_assoc, List.singleton_append, List.map_cons, scoreIn, hrow, Option.bind_some]

/-- The loop over the rows writes one score after the other into each column. -/
theorem columnScores_eq {M : SparseMatrix I32F32} (hwf : M.WellFormed n)
    (hlen : stake.length ≤ M.length) :
    columnScores stake M n =
      some ((List.range n).map fun c => (stakedRows stake).map fun p => scoreIn M p.2 c) := by
  have hrows : ∀ p ∈ stakedRows stake, p.2 < M.length := by
    intro p hp
    have hlt := List.snd_lt_of_mem_zipIdx (List.mem_filter.mp hp).1
    omega
  have hzeros : List.replicate n (List.replicate (stakedRows stake).length (0 : I32F32)) =
      (List.range n).map fun _ => [] ++ List.replicate (stakedRows stake).length 0 := by
    simp
  have hloop := foldlM_columnScores hwf (stakedRows stake) hrows (Nat.zero_add _)
    (w := fun _ => []) fun _ => rfl
  rw [← hzeros] at hloop
  exact hloop

/-- The search on the column `c`. -/
def columnMedian (stake : List I32F32) (M : SparseMatrix I32F32) (majority : I32F32) (c : ℕ) :
    Option I32F32 :=
  let useStake := normalize (stake.filter fun s => 0 < s.bits)
  let stakeSum := sumFixed useStake
  weightedMedian useStake ((stakedRows stake).map fun p => scoreIn M p.2 c)
    (List.range useStake.length) (stakeSum.satSub majority) 0 stakeSum

theorem map_fst_stakedRows (stake : List I32F32) :
    (stakedRows stake).map (·.1) = stake.filter fun s => 0 < s.bits := by
  conv_rhs => rw [← List.zipIdx_map_fst 0 stake, List.filter_map]
  rfl

theorem weightedMedianColSparse_eq {M : SparseMatrix I32F32} (hwf : M.WellFormed n)
    (hlen : stake.length ≤ M.length) (majority : I32F32) :
    weightedMedianColSparse stake M n majority =
      (List.range n).mapM (columnMedian stake M majority) := by
  unfold weightedMedianColSparse
  rw [columnScores_eq hwf hlen]
  simp only [List.mapM_map]
  rfl

theorem mapM_column {M : SparseMatrix I32F32} (hlen : stake.length ≤ M.length) {c : ℕ}
    (hc : c < n) :
    (stake.zipIdx.mapM fun p => ((SparseMatrix.toDense n M)[p.2]?).bind fun row =>
        if n = row.length then
          if 0 < p.1.bits then (row[c]?).map fun value => some (p.1, value) else some none
        else none) =
      some (stake.zipIdx.map fun p =>
        if 0 < p.1.bits then some (p.1, scoreIn M p.2 c) else none) := by
  refine mapM_eq_some_map fun p hp => ?_
  have hlt : p.2 < M.length := by
    have hlt := List.snd_lt_of_mem_zipIdx hp
    omega
  have hrow : (SparseMatrix.toDense n M)[p.2]? = some (SparseRow.toDense n M[p.2]) := by
    unfold SparseMatrix.toDense
    rw [List.getElem?_map, List.getElem?_eq_getElem hlt]
    rfl
  rw [hrow, Option.bind_some, if_pos (SparseRow.length_toDense _).symm,
    SparseRow.getElem?_toDense _ hc, scoreIn, List.getElem?_eq_getElem hlt]
  split_ifs <;> rfl

theorem reduceOption_column (M : SparseMatrix I32F32) (c : ℕ) :
    (stake.zipIdx.map fun p =>
        if 0 < p.1.bits then some (p.1, scoreIn M p.2 c) else none).reduceOption =
      (stakedRows stake).map fun p => (p.1, scoreIn M p.2 c) := by
  unfold stakedRows List.reduceOption
  rw [List.filterMap_map]
  induction stake.zipIdx with
  | nil => rfl
  | cons p rows ih =>
      by_cases hp : 0 < p.1.bits
      · simp [hp] at ih ⊢
        exact ih
      · simp [hp] at ih ⊢
        exact ih

theorem mapM_congr_mem {α β : Type} {f g : α → Option β} {l : List α}
    (h : ∀ a ∈ l, f a = g a) : l.mapM f = l.mapM g := by
  induction l with
  | nil => rfl
  | cons a l ih =>
      rw [List.mapM_cons, List.mapM_cons, h a List.mem_cons_self,
        ih fun b hb => h b (List.mem_cons_of_mem a hb)]

theorem weightedMedianCol_eq {M : SparseMatrix I32F32} (hne : M ≠ [])
    (hlen : stake.length ≤ M.length) (majority : I32F32) :
    weightedMedianCol stake (SparseMatrix.toDense n M) majority =
      (List.range n).mapM (columnMedian stake M majority) := by
  obtain ⟨row, rest, hM⟩ := List.exists_cons_of_ne_nil hne
  have hdense : SparseMatrix.toDense n M =
      SparseRow.toDense n row :: SparseMatrix.toDense n rest := by
    rw [hM]
    rfl
  unfold weightedMedianCol
  rw [hdense]
  dsimp only
  rw [← hdense, SparseRow.length_toDense]
  refine mapM_congr_mem fun c hc => ?_
  rw [mapM_column hlen (List.mem_range.mp hc), Option.bind_some, reduceOption_column]
  rw [List.map_map, List.map_map]
  unfold columnMedian
  rw [← map_fst_stakedRows]
  -- no stake: the dense loop leaves the zero, and the search on nothing answers zero
  cases hrows : stakedRows stake with
  | nil => rfl
  | cons p rows => rfl

/-- **The weighted median.** For stakes that are not negative and whose sum fits,
and a minority below the sum, the search over all entries ends with the one
score below which there is at most the minority of the stake and up to which
there is more, in whatever order entries and indices come. On the columns of a
matrix with a row for every stake, the sparse and the dense loop agree. -/
theorem weightedMedian_correct :
    (∀ (entries : Entries) (minority : I32F32), StakesFit (entries.map (·.1)) →
      0 ≤ minority.bits → minority.bits < mass (entries.map (·.1)) →
        ∃ value, (∃ e ∈ entries, e.2 = value) ∧ entries.IsMedian minority value ∧
          (∀ value', entries.IsMedian minority value' → value' = value) ∧
          ∀ entries' : Entries, entries'.Perm entries →
            ∀ partition : List ℕ, partition.Perm (List.range entries.length) →
              weightedMedian (entries'.map (·.1)) (entries'.map (·.2)) partition minority 0
                  (sumFixed (entries'.map (·.1))) = some value ∧
                ∀ calls, entries.length ≤ calls →
                  weightedMedianWithin (entries'.map (·.1)) (entries'.map (·.2)) minority calls
                    partition 0 (sumFixed (entries'.map (·.1))) = some value) ∧
      ∀ (stake : List I32F32) (M : SparseMatrix I32F32) (n : ℕ) (majority : I32F32),
        M.WellFormed n → M ≠ [] → stake.length ≤ M.length →
          weightedMedianColSparse stake M n majority =
            weightedMedianCol stake (SparseMatrix.toDense n M) majority := by
  constructor
  · intro entries minority hstake h0 hlt
    obtain ⟨value, hmem, hmedian, hunique, hsearch⟩ := weightedMedianWithin_perm hstake h0 hlt
    refine ⟨value, hmem, hmedian, hunique, fun entries' hperm partition hpartition => ?_⟩
    have hlength : entries.length ≤ partition.length := by
      rw [hpartition.length_eq, List.length_range]
    exact ⟨hsearch entries' hperm partition hpartition _ hlength,
      hsearch entries' hperm partition hpartition⟩
  · intro stake M n majority hwf hne hlen
    rw [weightedMedianColSparse_eq hwf hlen, weightedMedianCol_eq hne hlen]

/-- Three stakes, two of them on one score. -/
def threeEntries : Entries := [(.ofInt 1, .ofInt 7), (.ofInt 2, .ofInt 3), (.ofInt 3, .ofInt 7)]

def threeRows : SparseMatrix I32F32 := [[(0, .ofInt 1)], [(1, .ofInt 2), (0, .ofInt 3)], []]

theorem weightedMedian_correct_three :
    (∃ value, threeEntries.IsMedian (.ofInt 2) value ∧
      weightedMedian (threeEntries.map (·.1)) (threeEntries.map (·.2)) (List.range 3) (.ofInt 2) 0
        (sumFixed (threeEntries.map (·.1))) = some value) ∧
      weightedMedianColSparse (threeEntries.map (·.1)) threeRows 2 (.ofInt 0) =
        weightedMedianCol (threeEntries.map (·.1)) (SparseMatrix.toDense 2 threeRows)
          (.ofInt 0) := by
  obtain ⟨hmedian, hcolumns⟩ := weightedMedian_correct
  constructor
  · have hfit : StakesFit (threeEntries.map (·.1)) := by
      constructor
      · intro s hs
        have hall : ∀ s ∈ threeEntries.map (·.1), 0 ≤ s.bits := by decide +kernel
        exact hall s hs
      · decide +kernel
    obtain ⟨value, -, hvalue, -, hsearch⟩ := hmedian threeEntries (.ofInt 2) hfit
      (by decide +kernel) (by decide +kernel)
    exact ⟨value, hvalue, (hsearch threeEntries (.refl _) (List.range 3) (.refl _)).1⟩
  · refine hcolumns _ threeRows 2 (.ofInt 0) ?_ (by simp [threeRows]) (by decide +kernel)
    intro row hrow
    have hall : ∀ row ∈ threeRows, (row.map Prod.fst).Nodup ∧ ∀ e ∈ row, e.1 < 2 := by
      decide +kernel
    exact ⟨(hall row hrow).1, (hall row hrow).2⟩

end Subtensor
