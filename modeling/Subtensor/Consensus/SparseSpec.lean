import Subtensor.Consensus.Epoch

/-!
# What the sparse loops compute

On a well-formed matrix, and with vectors that are as long as it needs, no loop
of an epoch runs out of range. What each writes is given by the values alone: an
entry by its place and its value, a column by the entries that are in it.
-/

namespace Subtensor

open Lib SparseMatrix

variable {n : ℕ} {M M' : SparseMatrix I32F32} {vector : List I32F32}

theorem getElem?_eq_some_getD {α : Type} {l : List α} {i : ℕ} (h : i < l.length) (d : α) :
    l[i]? = some ((l[i]?).getD d) := by
  rw [List.getElem?_eq_getElem h]
  rfl

/-! ## Masks -/

theorem filter_eq_mapEntries (p : ℕ → Bool) (row : SparseRow I32F32) :
    row.filter (fun e => p e.1) = SparseRow.mapEntries (fun j value =>
      if p j then some value else none) row := by
  unfold SparseRow.mapEntries
  rw [← List.filterMap_eq_filter]
  refine List.filterMap_congr fun e _ => ?_
  cases hp : p e.1 <;> simp [hp]

theorem maskRowsSparse_eq {mask : List Bool} (h : M.length = mask.length) :
    maskRowsSparse mask M = some (M.mapEntries fun i _ value =>
      if (mask[i]?).getD false then none else some value) := by
  unfold maskRowsSparse
  rw [if_pos h]
  congr 1
  apply List.ext_getElem?
  intro i
  rw [List.getElem?_zipWith, getElem?_mapEntries]
  cases hrow : M[i]? with
  | none => cases mask[i]? <;> rfl
  | some row =>
      have hi : i < mask.length := h ▸ (List.getElem?_eq_some_iff.mp hrow).1
      rw [getElem?_eq_some_getD hi false]
      have hmap := filter_eq_mapEntries (fun _ => !(mask[i]?).getD false) row
      cases hmask : (mask[i]?).getD false <;> rw [hmask] at hmap
      · simpa [hmask] using hmap
      · simpa [hmask] using hmap

theorem maskDiagSparse_eq (M : SparseMatrix I32F32) :
    maskDiagSparse M = M.mapEntries fun i j value => if i ≠ j then some value else none := by
  unfold maskDiagSparse mapEntries
  congr 1
  funext i row
  exact (filter_eq_mapEntries (fun j => decide (i ≠ j)) row).trans (by simp)

theorem maskDiagSparseExceptIndex_eq (M : SparseMatrix I32F32) (k : ℕ) :
    maskDiagSparseExceptIndex M k = M.mapEntries fun i j value =>
      if i ≠ j ∨ (i = k ∧ j = k) then some value else none := by
  unfold maskDiagSparseExceptIndex mapEntries
  congr 1
  funext i row
  exact (filter_eq_mapEntries (fun j => decide (i ≠ j ∨ (i = k ∧ j = k))) row).trans (by simp)

theorem vecMaskSparseMatrix_eq {first second : List U64} {maskFn : U64 → U64 → Bool}
    (hwf : M.WellFormed n) (hfirst : M.length ≤ first.length) (hsecond : n ≤ second.length) :
    vecMaskSparseMatrix M first second maskFn = some (M.mapEntries fun i j value =>
      if maskFn ((first[i]?).getD 0) ((second[j]?).getD 0) then none else some value) := by
  refine collect_eq fun i hi row hrow e he => ?_
  have hj := (hwf row hrow).lt e he
  rw [getElem?_eq_some_getD (hi.trans_le hfirst) 0, getElem?_eq_some_getD (hj.trans_le hsecond) 0]
  rfl

theorem scalarVecMaskSparseMatrix_eq {scalar : U64} {second : List U64}
    {maskFn : U64 → U64 → Bool} (hwf : M.WellFormed n) (hsecond : n ≤ second.length) :
    scalarVecMaskSparseMatrix M scalar second maskFn = some (M.mapEntries fun _ j value =>
      if maskFn scalar ((second[j]?).getD 0) then none else some value) := by
  refine collect_eq fun i _ row hrow e he => ?_
  have hj := (hwf row hrow).lt e he
  rw [getElem?_eq_some_getD (hj.trans_le hsecond) 0]
  rfl

/-! ## Rows -/

/-- An entry of a normalized row. -/
def divideByRow (rowSum value : I32F32) : I32F32 :=
  if 0 < rowSum.bits then value.safeDiv rowSum else value

theorem mapEntries_some_eq (f : ℕ → I32F32 → I32F32) (row : SparseRow I32F32) :
    SparseRow.mapEntries (fun j value => some (f j value)) row =
      row.map fun e => (e.1, f e.1 e.2) := by
  exact congrFun List.filterMap_eq_map' row

theorem rowNormalizeSparse_eq (M : SparseMatrix I32F32) :
    rowNormalizeSparse M = M.mapEntries fun i _ value =>
      some (divideByRow (((rowSumSparse M)[i]?).getD 0) value) := by
  apply List.ext_getElem?
  intro i
  unfold rowNormalizeSparse rowSumSparse
  rw [List.getElem?_map, getElem?_mapEntries, List.getElem?_map]
  cases M[i]? with
  | none => rfl
  | some row =>
      simp only [Option.map_some, Option.getD_some, mapEntries_some_eq]
      unfold divideByRow
      split
      · rfl
      · simp

theorem rowHadamardSparse_eq (h : M.length ≤ vector.length) :
    rowHadamardSparse M vector = M.mapEntries fun i _ value =>
      some (value.satMul ((vector[i]?).getD 0)) := by
  apply List.ext_getElem?
  intro i
  unfold rowHadamardSparse
  rw [List.getElem?_zipWith, getElem?_mapEntries]
  cases hrow : M[i]? with
  | none => cases vector[i]? <;> rfl
  | some row =>
      have hi := (List.getElem?_eq_some_iff.mp hrow).1
      rw [getElem?_eq_some_getD (hi.trans_le h) 0]
      simp only [Option.map_some, Option.getD_some, mapEntries_some_eq]

/-! ## Columns -/

def zeros (n : ℕ) : List I32F32 := List.replicate n 0

def colSums (M : SparseMatrix I32F32) (n : ℕ) : List I32F32 :=
  M.scattered (fun _ value acc => acc.satAdd value) (zeros n)

def colMaxima (M : SparseMatrix I32F32) (n : ℕ) : List I32F32 :=
  M.scattered (fun _ value acc => if acc.bits < value.bits then value else acc) (zeros n)

/-- An entry of a column that is divided by a value. -/
def divideByCol (col value : I32F32) : I32F32 := if col.bits = 0 then value else value.safeDiv col

@[simp] theorem length_zeros (n : ℕ) : (zeros n).length = n := List.length_replicate

theorem wellFormed_zeros (hwf : M.WellFormed n) : M.WellFormed (zeros n).length := by
  rwa [length_zeros]

theorem divideByCol_collect (hwf : M.WellFormed n) {cols : List I32F32} (hcols : cols.length = n) :
    M.collect (fun _ j value => (cols[j]?).map fun total =>
        some (if total.bits = 0 then value else value.safeDiv total)) =
      some (M.mapEntries fun _ j value => some (divideByCol ((cols[j]?).getD 0) value)) := by
  refine collect_eq fun i _ row hrow e he => ?_
  have hj := (hwf row hrow).lt e he
  rw [getElem?_eq_some_getD (hj.trans_le hcols.ge) 0]
  rfl

theorem colNormalizeSparse_eq (hwf : M.WellFormed n) :
    colNormalizeSparse M n = some (M.mapEntries fun _ j value =>
      some (divideByCol (((colSums M n)[j]?).getD 0) value)) := by
  unfold colNormalizeSparse
  have hsum : M.scatter (fun _ value => some fun acc : I32F32 => acc.satAdd value)
      (List.replicate n 0) = some (colSums M n) :=
    scatter_eq (wellFormed_zeros hwf) fun _ _ _ => rfl
  rw [hsum]
  exact divideByCol_collect hwf (by simp [colSums])

theorem colMaxUpscaleSparse_eq (hwf : M.WellFormed n) :
    colMaxUpscaleSparse M n = some (M.mapEntries fun _ j value =>
      some (divideByCol (((colMaxima M n)[j]?).getD 0) value)) := by
  unfold colMaxUpscaleSparse
  have hmax : M.scatter (fun _ value => some fun acc : I32F32 =>
      if acc.bits < value.bits then value else acc) (List.replicate n 0) = some (colMaxima M n) :=
    scatter_eq (wellFormed_zeros hwf) fun _ _ _ => rfl
  rw [hmax]
  exact divideByCol_collect hwf (by simp [colMaxima])

/-- An entry that is clipped, unless it is clipped to nothing. -/
def clipEntry (threshold value : I32F32) : Option I32F32 :=
  if threshold.bits < value.bits then if 0 < threshold.bits then some threshold else none
  else some value

theorem colClipSparse_eq (hwf : M.WellFormed n) (h : n ≤ vector.length) :
    colClipSparse M vector = some (M.mapEntries fun _ j value =>
      clipEntry ((vector[j]?).getD 0) value) := by
  refine collect_eq fun i _ row hrow e he => ?_
  have hj := (hwf row hrow).lt e he
  rw [getElem?_eq_some_getD (hj.trans_le h) 0]
  rfl

/-! ## Products -/

/-- The sums of the columns, weighted by a vector. -/
def weightedColSums (M : SparseMatrix I32F32) (vector : List I32F32) (n : ℕ) : List I32F32 :=
  M.scattered (fun i value acc => acc.satAdd (((vector[i]?).getD 0).satMul value)) (zeros n)

theorem length_weightedColSums : (weightedColSums M vector n).length = n := by
  simp [weightedColSums]

theorem matmulSparse_eq (hwf : M.WellFormed n) (h : M.length ≤ vector.length) :
    matmulSparse M vector n = some (weightedColSums M vector n) := by
  refine scatter_eq (wellFormed_zeros hwf) fun i hi a => ?_
  rw [getElem?_eq_some_getD (hi.trans_le h) 0]
  rfl

def weightedRowSum (row : SparseRow I32F32) (vector : List I32F32) : I32F32 :=
  row.foldl (fun acc e => acc.satAdd (((vector[e.1]?).getD 0).satMul e.2)) 0

theorem foldlM_eq_foldl {α β : Type} {f : β → α → Option β} {g : β → α → β} {l : List α}
    (h : ∀ a ∈ l, ∀ b, f b a = some (g b a)) (b : β) : l.foldlM f b = some (l.foldl g b) := by
  induction l generalizing b with
  | nil => rfl
  | cons a l ih =>
      rw [List.foldlM_cons, h a List.mem_cons_self]
      exact ih (fun a' ha' => h a' (List.mem_cons_of_mem a ha')) _

theorem matmulTransposeSparse_eq (hwf : M.WellFormed n) (h : n ≤ vector.length) :
    matmulTransposeSparse M vector = some (M.map fun row => weightedRowSum row vector) := by
  refine mapM_eq_some_map fun row hrow => foldlM_eq_foldl (fun e he acc => ?_) 0
  have hj := (hwf row hrow).lt e he
  rw [getElem?_eq_some_getD (hj.trans_le h) 0]
  rfl

/-! ## Writing into zeros -/

/-- Values that are written one after the other, at most one to a column. -/
theorem foldl_set_eq {row : SparseRow I32F32} {m : ℕ} (hwf : row.WellFormed m)
    (f : ℕ × I32F32 → I32F32) (acc : List I32F32) :
    row.foldl (fun acc e => acc.set e.1 (f e)) acc =
      acc.mapIdx fun j b => ((row.lookup j).map fun value => f (j, value)).getD b := by
  induction row generalizing acc with
  | nil =>
      apply List.ext_getElem?
      intro j
      rw [List.getElem?_mapIdx, List.foldl_nil]
      cases acc[j]? <;> rfl
  | cons e row ih =>
      obtain ⟨htail, -, hnone⟩ := hwf.of_cons
      rw [List.foldl_cons, ih htail]
      apply List.ext_getElem?
      intro j
      rw [List.getElem?_mapIdx, List.getElem?_mapIdx, List.getElem?_set]
      by_cases hj : j = e.1
      · rw [SparseRow.lookup_cons_of_eq e hj]
        subst hj
        rw [hnone, if_pos rfl]
        by_cases hlt : e.1 < acc.length
        · rw [if_pos hlt, List.getElem?_eq_getElem hlt]
          rfl
        · rw [if_neg hlt, List.getElem?_eq_none (not_lt.mp hlt)]
          rfl
      · rw [SparseRow.lookup_cons_of_ne e hj, if_neg (Ne.symm hj)]

theorem foldl_set_zeros {row : SparseRow I32F32} {m : ℕ} (hwf : row.WellFormed m)
    (f : ℕ × I32F32 → I32F32) (n : ℕ) :
    row.foldl (fun acc e => acc.set e.1 (f e)) (List.replicate n 0) =
      (List.range n).map fun j => ((row.lookup j).map fun value => f (j, value)).getD 0 := by
  rw [foldl_set_eq hwf]
  apply List.ext_getElem?
  intro j
  rw [List.getElem?_mapIdx, List.getElem?_map, List.getElem?_replicate]
  by_cases hj : j < n
  · rw [if_pos hj, List.getElem?_range hj]
    rfl
  · rw [if_neg hj, List.getElem?_eq_none (by simpa using hj)]
    rfl

theorem foldl_set_toDense {row : SparseRow I32F32} {m : ℕ} (hwf : row.WellFormed m) (n : ℕ) :
    row.foldl (fun acc e => acc.set e.1 e.2) (List.replicate n (0 : I32F32)) =
      row.toDense n := by
  rw [foldl_set_zeros hwf Prod.snd]
  unfold SparseRow.toDense
  congr 1
  funext j
  cases row.lookup j <;> rfl

/-! ## Rows that are pushed from left to right -/

theorem positiveEntries_map_range (f : ℕ → I32F32) (n : ℕ) :
    positiveEntries ((List.range n).map f) = (List.range n).filterMap fun j =>
      if 0 < (f j).bits then some (j, f j) else none := by
  unfold positiveEntries
  rw [List.zipIdx_map, List.filterMap_map]
  have hrange : (List.range n).zipIdx = (List.range n).map fun j => (j, j) := by
    apply List.ext_getElem?
    intro j
    rw [List.getElem?_zipIdx, List.getElem?_map]
    by_cases hj : j < n
    · rw [List.getElem?_range hj, zero_add]
      rfl
    · rw [List.getElem?_eq_none (by simpa using hj)]
      rfl
  rw [hrange, List.filterMap_map]
  rfl

theorem mem_positiveEntries {row : List I32F32} {j : ℕ} {value : I32F32} :
    (j, value) ∈ positiveEntries row ↔ row[j]? = some value ∧ 0 < value.bits := by
  unfold positiveEntries
  rw [List.mem_filterMap]
  constructor
  · rintro ⟨⟨v, k⟩, hmem, heq⟩
    rw [List.mem_zipIdx_iff_getElem?] at hmem
    by_cases hpos : 0 < v.bits
    · rw [if_pos hpos] at heq
      cases heq
      exact ⟨hmem, hpos⟩
    · rw [if_neg hpos] at heq
      cases heq
  · rintro ⟨hget, hpos⟩
    exact ⟨(value, j), List.mem_zipIdx_iff_getElem?.mpr hget, if_pos hpos⟩

theorem positiveEntries_columns (row : List I32F32) (k : ℕ) :
    (((row.zipIdx k).filterMap fun p => if 0 < p.1.bits then some (p.2, p.1) else none).map
      Prod.fst).Pairwise (· < ·) := by
  rw [List.pairwise_map, List.pairwise_filterMap]
  have hsorted : (row.zipIdx k).Pairwise fun p q => p.2 < q.2 := by
    induction row generalizing k with
    | nil => exact List.Pairwise.nil
    | cons v row ih =>
        rw [List.zipIdx_cons, List.pairwise_cons]
        exact ⟨fun q hq => List.le_snd_of_mem_zipIdx hq, ih (k + 1)⟩
  refine hsorted.imp fun {p q} hlt e he e' he' => ?_
  split at he
  · split at he'
    · cases he
      cases he'
      exact hlt
    · cases he'
  · cases he

theorem wellFormed_positiveEntries (row : List I32F32) :
    SparseRow.WellFormed row.length (positiveEntries row) := by
  refine ⟨(positiveEntries_columns row 0).imp fun h => h.ne, ?_⟩
  rintro ⟨j, value⟩ hmem
  exact (List.getElem?_eq_some_iff.mp (mem_positiveEntries.mp hmem).1).1

/-- An entry of `interpolate_sparse`. -/
def interpolated (ratio v1 v2 : I32F32) : I32F32 := v1.satAdd (ratio.satMul (v2.satSub v1))

/-- A row of `interpolate_sparse`, before it is pushed. -/
def interpolatedRow (n : ℕ) (ratio : I32F32) (row1 row2 : SparseRow I32F32) : List I32F32 :=
  (List.range n).map fun j =>
    interpolated ratio ((row1.lookup j).getD 0) ((row2.lookup j).getD 0)

theorem interpolateSparse_eq {M₁ M₂ : SparseMatrix I32F32} (hwf₁ : M₁.WellFormed n)
    (hwf₂ : M₂.WellFormed n) (hlen : M₁.length = M₂.length) (ratio : I32F32) :
    interpolateSparse M₁ M₂ n ratio = some (if ratio = 0 then M₁
      else if ratio = .ofInt 1 then M₂
      else List.zipWith (fun row1 row2 => positiveEntries (interpolatedRow n ratio row1 row2))
        M₁ M₂) := by
  unfold interpolateSparse
  split
  · rfl
  · split
    · rfl
    · congr 1
      apply List.ext_getElem?
      intro i
      rw [List.getElem?_zipWith, List.getElem?_zipWith]
      cases hrow₁ : M₁[i]? with
      | none => rfl
      | some row1 =>
          cases hrow₂ : M₂[i]? with
          | none => rfl
          | some row2 =>
              have h₁ := hwf₁ row1 (List.mem_of_getElem? hrow₁)
              have h₂ := hwf₂ row2 (List.mem_of_getElem? hrow₂)
              simp only [foldl_set_toDense h₁, foldl_set_toDense h₂]
              unfold interpolatedRow
              rw [positiveEntries_map_range]
              refine congrArg some (List.filterMap_congr fun j hj => ?_)
              rw [SparseRow.getElem?_toDense _ (List.mem_range.mp hj),
                SparseRow.getElem?_toDense _ (List.mem_range.mp hj)]
              rfl

/-- A row of `mat_ema_sparse`, before it is pushed. -/
def emaRow (n : ℕ) (alpha : I32F32) (newRow oldRow : SparseRow I32F32) : List I32F32 :=
  SparseRow.scattered
    (fun value acc => acc.satAdd (((IFixed.ofInt 1 : I32F32).satSub alpha).satMul value))
    (SparseRow.scattered (fun value acc => acc.satAdd (alpha.satMul value)) (zeros n) newRow) oldRow

@[simp] theorem length_emaRow (alpha : I32F32) (newRow oldRow : SparseRow I32F32) :
    (emaRow n alpha newRow oldRow).length = n := by
  unfold emaRow
  rw [SparseRow.length_scattered, SparseRow.length_scattered, length_zeros]

theorem matEmaSparse_eq {new old : SparseMatrix I32F32} (hnew : new.WellFormed n)
    (hold : old.WellFormed n) (hlen : new.length = n) (hlen' : old.length = n) (alpha : I32F32) :
    matEmaSparse new old alpha = some ((new.zip old).map fun rows =>
      positiveEntries (emaRow n alpha rows.1 rows.2)) := by
  unfold matEmaSparse
  rw [if_pos (hlen.trans hlen'.symm)]
  refine mapM_eq_some_map fun rows hmem => ?_
  obtain ⟨hmem₁, hmem₂⟩ := List.of_mem_zip hmem
  have hscatter : ∀ (f : I32F32 → I32F32) (acc : List I32F32) (row : SparseRow I32F32),
      acc.length = n → row.WellFormed n →
        SparseRow.scatter (fun value => some fun acc : I32F32 => acc.satAdd (f value)) acc row =
          some (SparseRow.scattered (fun value acc => acc.satAdd (f value)) acc row) := by
    rintro f acc row rfl hwf
    exact SparseRow.scatter_eq hwf fun _ _ => rfl
  have hzeros : List.replicate n (0 : I32F32) = zeros n := rfl
  rw [hlen, hzeros, hscatter _ _ _ (length_zeros n) (hnew _ hmem₁), Option.bind_some,
    hscatter _ _ _ (by rw [SparseRow.length_scattered]; exact length_zeros n) (hold _ hmem₂)]
  rfl

/-- An entry of `mat_ema_alpha_sparse`. -/
def emaAlphaEntry (alpha old new : I32F32) : I32F32 :=
  ((((IFixed.ofInt 1 : I32F32).satSub alpha).satMul old).satAdd
    ((alpha.satMul new).greatest 0)).least (.ofInt 1)

theorem getElem?_decayedRow {oldRow : SparseRow I32F32} {m : ℕ} (hold : oldRow.WellFormed m)
    {alphas : List I32F32} (hm : m ≤ alphas.length) {j : ℕ} (hj : j < alphas.length) :
    (decayedRow oldRow alphas)[j]? =
        some (((oldRow.lookup j).map fun value =>
          ((IFixed.ofInt 1 : I32F32).satSub ((alphas[j]?).getD 0)).satMul value).getD 0) := by
  have hsame : ∀ (row : SparseRow I32F32) (acc : List I32F32), (∀ e ∈ row, e.1 < m) →
      row.foldl (fun decayed e => (alphas[e.1]?).elim decayed fun alpha =>
        decayed.set e.1 (((IFixed.ofInt 1 : I32F32).satSub alpha).satMul e.2)) acc =
      row.foldl (fun decayed e => decayed.set e.1
        (((IFixed.ofInt 1 : I32F32).satSub ((alphas[e.1]?).getD 0)).satMul e.2)) acc := by
    intro row
    induction row with
    | nil => exact fun _ _ => rfl
    | cons e row ih =>
        intro acc hlt
        have he := (hlt e List.mem_cons_self).trans_le hm
        rw [List.foldl_cons, List.foldl_cons, ih _ fun e' he' => hlt e' (List.mem_cons_of_mem e he'),
          List.getElem?_eq_getElem he]
        rfl
  unfold decayedRow
  rw [hsame oldRow _ hold.lt, foldl_set_zeros hold fun e =>
    ((IFixed.ofInt 1 : I32F32).satSub ((alphas[e.1]?).getD 0)).satMul e.2]
  simp [hj]

/-- A row of liquid alpha keeps the columns of the new row, and of those the ones
with a positive bond. -/
theorem emaAlphaRowSparse_eq {newRow oldRow : SparseRow I32F32} (hnew : newRow.WellFormed n)
    (hold : oldRow.WellFormed n) {alphas : List I32F32} (hlen : alphas.length = n) :
    emaAlphaRowSparse newRow oldRow alphas = SparseRow.mapEntries (fun j value =>
      let result := emaAlphaEntry ((alphas[j]?).getD 0) ((oldRow.lookup j).getD 0) value
      if 0 < result.bits then some result else none) newRow := by
  unfold emaAlphaRowSparse
  refine List.filterMap_congr fun e he => ?_
  have hj : e.1 < alphas.length := hlen ▸ hnew.lt e he
  have hzero : ∀ a : I32F32, a.satMul 0 = 0 := by
    intro a
    unfold IFixed.satMul
    rw [IFixed.bits_zero, mul_zero]
    rfl
  have halpha : alphas[e.1]? = some alphas[e.1] := List.getElem?_eq_getElem hj
  simp only [getElem?_decayedRow hold hlen.ge hj, halpha, Option.bind_some, Option.getD_some]
  unfold emaAlphaEntry
  cases oldRow.lookup e.1 with
  | none => rw [Option.map_none, Option.getD_none, hzero]
  | some value => rfl

end Subtensor
