import Subtensor.Consensus.Median

/-!
# Liquid alpha on sparse and dense bonds

`mat_ema_alpha` lets every old bond decay and adds what the new weight buys.
`mat_ema_alpha_sparse` goes through the new row only: a bond without a new
weight is dropped. The two agree exactly where what would be left of such bonds
rounds to zero.
-/

namespace Subtensor

open Lib SparseMatrix

variable {n i j : ℕ} {new old : SparseMatrix I32F32} {alpha : DenseMatrix}

/-! ## Entries -/

def entryOf (D : DenseMatrix) (i j : ℕ) : I32F32 := ((D[i]?).bind (·[j]?)).getD 0

/-- The sparse matrix has the entries of the dense one. -/
def Denotes (n : ℕ) (S : SparseMatrix I32F32) (D : DenseMatrix) : Prop :=
  ∀ i < n, ∀ j < n, (D[i]?).bind (·[j]?) = some (scoreIn S i j)

/-- The validator set a weight on the miner. -/
def IsStored (M : SparseMatrix I32F32) (i j : ℕ) : Prop :=
  ((M[i]?).bind fun row => row.lookup j).isSome = true

def decayedBond (alpha old : I32F32) : I32F32 := ((IFixed.ofInt 1 : I32F32).satSub alpha).satMul old

/-- The number is between zero and one. -/
structure InUnit (x : I32F32) : Prop where
  nonneg : 0 ≤ x.bits
  le_one : x.bits ≤ 2 ^ 32

/-- Square matrices, with entries between zero and one. -/
structure BondMatrices (n : ℕ) (new old : SparseMatrix I32F32) (alpha : DenseMatrix) : Prop where
  new_length : new.length = n
  old_length : old.length = n
  alpha_length : alpha.length = n
  alpha_row : ∀ row ∈ alpha, row.length = n
  new_wellFormed : new.WellFormed n
  old_wellFormed : old.WellFormed n
  new_unit : ∀ row ∈ new, ∀ e ∈ row, InUnit e.2
  old_unit : ∀ row ∈ old, ∀ e ∈ row, InUnit e.2
  alpha_unit : ∀ row ∈ alpha, ∀ x ∈ row, InUnit x

theorem InUnit.zero : InUnit 0 := ⟨le_rfl, by norm_num⟩

theorem inUnit_scoreIn {M : SparseMatrix I32F32} (hwf : M.WellFormed n)
    (h : ∀ row ∈ M, ∀ e ∈ row, InUnit e.2) (i j : ℕ) : InUnit (scoreIn M i j) := by
  unfold scoreIn
  cases hrow : M[i]? with
  | none => exact .zero
  | some row =>
      have hmem := List.mem_of_getElem? hrow
      cases hvalue : row.lookup j with
      | none => simpa [hvalue] using InUnit.zero
      | some value =>
          simpa [hvalue] using h row hmem _ ((hwf row hmem).lookup_eq_some.mp hvalue)

theorem BondMatrices.inUnit_alpha (h : BondMatrices n new old alpha) (i j : ℕ) :
    InUnit (entryOf alpha i j) := by
  unfold entryOf
  cases hrow : alpha[i]? with
  | none => exact .zero
  | some row =>
      cases hvalue : row[j]? with
      | none => simpa [hvalue] using InUnit.zero
      | some value =>
          simpa [hvalue] using
            h.alpha_unit row (List.mem_of_getElem? hrow) value (List.mem_of_getElem? hvalue)

/-! ## One bond -/

theorem decayedBond_nonneg {a b : I32F32} (ha : InUnit a) (hb : InUnit b) :
    0 ≤ (decayedBond a b).bits := by
  have hone : (IFixed.ofInt 1 : I32F32).bits = 2 ^ 32 := by decide +kernel
  have hleft : ((IFixed.ofInt 1 : I32F32).satSub a).bits = 2 ^ 32 - a.bits := by
    unfold IFixed.satSub
    rw [hone]
    exact IFixed.bits_sat_of_mem (by have := ha.le_one; omega) (by have := ha.nonneg; omega)
  have hproduct : 0 ≤ ((IFixed.ofInt 1 : I32F32).satSub a).bits * b.bits / 2 ^ 32 := by
    rw [hleft]
    exact Int.ediv_nonneg (mul_nonneg (by have := ha.le_one; omega) hb.nonneg) (by norm_num)
  unfold decayedBond IFixed.satMul
  rw [IFixed.bits_sat]
  exact le_max_of_le_right (le_min hproduct (by norm_num))

theorem emaAlphaEntry_nonneg {a b : I32F32} (ha : InUnit a) (hb : InUnit b) (v : I32F32) :
    0 ≤ (emaAlphaEntry a b v).bits := by
  have hone : (0 : ℤ) ≤ (IFixed.ofInt 1 : I32F32).bits := by decide +kernel
  have hdecayed := decayedBond_nonneg ha hb
  have hbought : 0 ≤ ((a.satMul v).greatest 0).bits := by
    unfold IFixed.greatest
    split_ifs with h
    · exact le_rfl
    · exact (not_le.mp h).le
  have hsum : 0 ≤ ((decayedBond a b).satAdd ((a.satMul v).greatest 0)).bits := by
    unfold IFixed.satAdd
    rw [IFixed.bits_sat]
    exact le_max_of_le_right (le_min (add_nonneg hdecayed hbought) (by norm_num))
  unfold emaAlphaEntry IFixed.least
  split_ifs
  · exact hsum
  · exact hone

/-- Without a new weight, what is left of the bond is all there is. -/
theorem emaAlphaEntry_zero_iff (a b : I32F32) :
    emaAlphaEntry a b 0 = 0 ↔ (decayedBond a b).bits = 0 := by
  have hone : (IFixed.ofInt 1 : I32F32).bits = 2 ^ 32 := by decide +kernel
  have hnothing : (a.satMul 0).greatest 0 = 0 := by
    have hzero : a.satMul 0 = 0 := by
      unfold IFixed.satMul
      rw [IFixed.bits_zero, mul_zero]
      rfl
    rw [hzero]
    rfl
  have hsum : (decayedBond a b).satAdd 0 = decayedBond a b := by
    apply IFixed.ext
    unfold IFixed.satAdd
    rw [IFixed.bits_zero, add_zero]
    exact IFixed.bits_sat_of_mem (decayedBond a b).lower (decayedBond a b).upper
  have heq : emaAlphaEntry a b 0 = (decayedBond a b).least (.ofInt 1) := by
    show ((decayedBond a b).satAdd ((a.satMul 0).greatest 0)).least (.ofInt 1) = _
    rw [hnothing, hsum]
  rw [heq]
  unfold IFixed.least
  split_ifs with h
  · exact ⟨fun hzero => congrArg IFixed.bits hzero, fun hzero => IFixed.ext hzero⟩
  · rw [hone] at h
    constructor
    · intro hzero
      have hbits := congrArg IFixed.bits hzero
      rw [hone] at hbits
      exact absurd hbits (by norm_num)
    · intro hzero
      rw [hzero] at h
      exact absurd h (by norm_num)

/-! ## The two loops -/

/-- The entry of the sparse result: only stored weights count. -/
theorem matEmaAlphaSparse_scoreIn (h : BondMatrices n new old alpha) :
    ∃ S, matEmaAlphaSparse new old alpha = some S ∧ ∀ i < n, ∀ j < n,
      (IsStored new i j → scoreIn S i j =
        emaAlphaEntry (entryOf alpha i j) (scoreIn old i j) (scoreIn new i j)) ∧
      (¬IsStored new i j → scoreIn S i j = 0) := by
  refine ⟨_, if_pos ⟨h.new_length.trans h.old_length.symm,
    h.new_length.trans h.alpha_length.symm⟩, ?_⟩
  intro i hi j hj
  have hnew : new[i]? = some (new.get ⟨i, h.new_length ▸ hi⟩) := List.getElem?_eq_getElem _
  have hold : old[i]? = some (old.get ⟨i, h.old_length ▸ hi⟩) := List.getElem?_eq_getElem _
  have halpha : alpha[i]? = some (alpha.get ⟨i, h.alpha_length ▸ hi⟩) := List.getElem?_eq_getElem _
  generalize new.get ⟨i, h.new_length ▸ hi⟩ = newRow at hnew
  generalize old.get ⟨i, h.old_length ▸ hi⟩ = oldRow at hold
  generalize alpha.get ⟨i, h.alpha_length ▸ hi⟩ = alphas at halpha
  have hnewRow := h.new_wellFormed newRow (List.mem_of_getElem? hnew)
  have holdRow := h.old_wellFormed oldRow (List.mem_of_getElem? hold)
  have hlen := h.alpha_row alphas (List.mem_of_getElem? halpha)
  have hunit := inUnit_scoreIn h.old_wellFormed h.old_unit i j
  have hunitAlpha := h.inUnit_alpha i j
  have hzip : (new.zip old)[i]? = some (newRow, oldRow) := by
    rw [List.getElem?_zip_eq_some]
    exact ⟨hnew, hold⟩
  unfold scoreIn entryOf at *
  unfold IsStored
  rw [List.getElem?_zipWith, hzip, halpha, hnew, hold]
  rw [hold] at hunit
  rw [halpha] at hunitAlpha
  simp only [Option.bind_some] at hunit hunitAlpha ⊢
  rw [emaAlphaRowSparse_eq hnewRow holdRow hlen, hnewRow.lookup_mapEntries]
  cases newRow.lookup j with
  | none => exact ⟨fun hstored => absurd hstored (by simp), fun _ => rfl⟩
  | some value =>
      refine ⟨fun _ => ?_, fun hstored => absurd rfl hstored⟩
      have hnonneg := emaAlphaEntry_nonneg hunitAlpha hunit value
      simp only [Option.bind_some, Option.getD_some]
      split_ifs with hpos
      · rfl
      · exact (IFixed.ext (le_antisymm (not_lt.mp hpos) hnonneg)).symm

/-- The dense row, when the lengths agree. -/
def emaAlphaZip (newRow oldRow alphaRow : List I32F32) : List I32F32 :=
  List.zipWith (fun elems alpha => emaAlphaEntry alpha elems.2 elems.1) (newRow.zip oldRow) alphaRow

theorem matEmaAlpha_entry (h : BondMatrices n new old alpha) :
    ∃ D, matEmaAlpha (toDense n new) (toDense n old) alpha = some D ∧ ∀ i < n, ∀ j < n,
      (D[i]?).bind (·[j]?) =
        some (emaAlphaEntry (entryOf alpha i j) (scoreIn old i j) (scoreIn new i j)) := by
  unfold matEmaAlpha
  split
  · rename_i hempty
    refine ⟨_, rfl, fun i hi j hj => ?_⟩
    -- a matrix with a row has `n` columns
    have hnew : new ≠ [] := by
      intro hnil
      have hlen := h.new_length
      rw [hnil, List.length_nil] at hlen
      omega
    obtain ⟨row, rest, rfl⟩ := List.exists_cons_of_ne_nil hnew
    have hlen : (SparseRow.toDense n row).length = 0 :=
      List.length_eq_zero_iff.mpr (List.isEmpty_iff.mp hempty)
    rw [SparseRow.length_toDense] at hlen
    omega
  · rw [if_pos ⟨by simp [h.new_length, h.old_length], by simp [h.new_length, h.alpha_length]⟩]
    refine ⟨((((toDense n new).zip (toDense n old)).zip alpha).map fun rows =>
      emaAlphaZip rows.1.1 rows.1.2 rows.2), mapM_eq_some_map fun rows hmem => ?_, ?_⟩
    · obtain ⟨hrows, halpha⟩ := List.of_mem_zip hmem
      obtain ⟨hnew, hold⟩ := List.of_mem_zip hrows
      unfold emaAlphaRow
      rw [if_pos ⟨(length_of_mem_toDense hnew).trans (length_of_mem_toDense hold).symm,
        (length_of_mem_toDense hnew).trans (h.alpha_row _ halpha).symm⟩]
      rfl
    · intro i hi j hj
      have hnew : new[i]? = some (new.get ⟨i, h.new_length ▸ hi⟩) := List.getElem?_eq_getElem _
      have hold : old[i]? = some (old.get ⟨i, h.old_length ▸ hi⟩) := List.getElem?_eq_getElem _
      have halpha : alpha[i]? = some (alpha.get ⟨i, h.alpha_length ▸ hi⟩) :=
        List.getElem?_eq_getElem _
      generalize new.get ⟨i, h.new_length ▸ hi⟩ = newRow at hnew
      generalize old.get ⟨i, h.old_length ▸ hi⟩ = oldRow at hold
      generalize alpha.get ⟨i, h.alpha_length ▸ hi⟩ = alphas at halpha
      have hlen := h.alpha_row alphas (List.mem_of_getElem? halpha)
      have hentry : alphas[j]? = some (alphas.get ⟨j, hlen ▸ hj⟩) := List.getElem?_eq_getElem _
      have hrows : (((toDense n new).zip (toDense n old)).zip alpha)[i]? =
          some ((SparseRow.toDense n newRow, SparseRow.toDense n oldRow), alphas) := by
        rw [List.getElem?_zip_eq_some, List.getElem?_zip_eq_some]
        unfold toDense
        simp [hnew, hold, halpha]
      have hpair : ((SparseRow.toDense n newRow).zip (SparseRow.toDense n oldRow))[j]? =
          some ((newRow.lookup j).getD 0, (oldRow.lookup j).getD 0) := by
        rw [List.getElem?_zip_eq_some]
        exact ⟨SparseRow.getElem?_toDense _ hj, SparseRow.getElem?_toDense _ hj⟩
      unfold entryOf scoreIn
      rw [List.getElem?_map, hrows, hnew, hold, halpha]
      simp only [Option.map_some, Option.bind_some, emaAlphaZip]
      rw [List.getElem?_zipWith, hpair, hentry]
      rfl

/-- **Liquid alpha on sparse bonds.** Both loops succeed on square matrices with
entries between zero and one; the sparse one gives the dense matrix exactly when
every bond without a new weight would decay to zero. -/
theorem matEmaAlphaSparse_denotes_iff (h : BondMatrices n new old alpha) :
    ∃ S D, matEmaAlphaSparse new old alpha = some S ∧
      matEmaAlpha (toDense n new) (toDense n old) alpha = some D ∧
      (Denotes n S D ↔ ∀ i < n, ∀ j < n, ¬IsStored new i j →
        (decayedBond (entryOf alpha i j) (scoreIn old i j)).bits = 0) := by
  obtain ⟨S, hS, hsparse⟩ := matEmaAlphaSparse_scoreIn h
  obtain ⟨D, hD, hdense⟩ := matEmaAlpha_entry h
  refine ⟨S, D, hS, hD, forall₄_congr fun i hi j hj => ?_⟩
  obtain ⟨hstored, hmissing⟩ := hsparse i hi j hj
  rw [hdense i hi j hj, Option.some.injEq]
  by_cases hnew : IsStored new i j
  · rw [hstored hnew]
    exact iff_of_true rfl fun hnot => absurd hnew hnot
  · have hweight : scoreIn new i j = 0 := by
      unfold IsStored at hnew
      unfold scoreIn
      rw [Option.not_isSome_iff_eq_none.mp hnew, Option.getD_none]
    rw [hmissing hnew, hweight, emaAlphaEntry_zero_iff]
    exact ⟨fun hzero _ => hzero, fun hzero => hzero hnew⟩

/-- One neuron with a full bond to itself and half an alpha. -/
def halfAlpha : DenseMatrix := [[⟨2 ^ 31, by norm_num, by norm_num⟩]]

def fullBond : SparseMatrix I32F32 := [[(0, .ofInt 1)]]

theorem bondMatrices_halfAlpha {new : SparseMatrix I32F32} (hlen : new.length = 1)
    (hwf : new.WellFormed 1) (hunit : ∀ row ∈ new, ∀ e ∈ row, InUnit e.2) :
    BondMatrices 1 new fullBond halfAlpha where
  new_length := hlen
  old_length := rfl
  alpha_length := rfl
  alpha_row := by decide +kernel
  new_wellFormed := hwf
  old_wellFormed := by
    rintro row hrow
    rw [List.mem_singleton.mp hrow]
    exact ⟨by decide, by decide⟩
  new_unit := hunit
  old_unit := by
    rintro row hrow e he
    rw [List.mem_singleton.mp hrow] at he
    rw [List.mem_singleton.mp he]
    exact ⟨by decide +kernel, by decide +kernel⟩
  alpha_unit := by
    rintro row hrow x hx
    rw [List.mem_singleton.mp hrow] at hx
    rw [List.mem_singleton.mp hx]
    exact ⟨by decide +kernel, by decide +kernel⟩

theorem bondMatrices_fullBond : BondMatrices 1 fullBond fullBond halfAlpha := by
  refine bondMatrices_halfAlpha rfl ?_ ?_
  · rintro row hrow
    rw [List.mem_singleton.mp hrow]
    exact ⟨by decide, by decide⟩
  · rintro row hrow e he
    rw [List.mem_singleton.mp hrow] at he
    rw [List.mem_singleton.mp he]
    exact ⟨by decide +kernel, by decide +kernel⟩

theorem matEmaAlphaSparse_denotes_iff_fullBond :
    BondMatrices 1 fullBond fullBond halfAlpha ∧
      ∃ S D, matEmaAlphaSparse fullBond fullBond halfAlpha = some S ∧
        matEmaAlpha (toDense 1 fullBond) (toDense 1 fullBond) halfAlpha = some D ∧
        (Denotes 1 S D ↔ ∀ i < 1, ∀ j < 1, ¬IsStored fullBond i j →
          (decayedBond (entryOf halfAlpha i j) (scoreIn fullBond i j)).bits = 0) :=
  ⟨bondMatrices_fullBond, matEmaAlphaSparse_denotes_iff bondMatrices_fullBond⟩

/-- Without a new weight the sparse bond is gone, and half of the dense one is left. -/
theorem matEmaAlphaSparse_drops :
    BondMatrices 1 [[]] fullBond halfAlpha ∧
      matEmaAlphaSparse [[]] fullBond halfAlpha = some [[]] ∧
      matEmaAlpha (toDense 1 [[]]) (toDense 1 fullBond) halfAlpha = some halfAlpha ∧
      ¬Denotes 1 [[]] halfAlpha := by
  refine ⟨bondMatrices_halfAlpha rfl ?_ ?_, by decide +kernel, by decide +kernel, fun h => ?_⟩
  · rintro row hrow
    rw [List.mem_singleton.mp hrow]
    exact ⟨by decide, by decide⟩
  · rintro row hrow e he
    rw [List.mem_singleton.mp hrow] at he
    exact absurd he List.not_mem_nil
  · exact absurd (h 0 (by decide) 0 (by decide)) (by decide +kernel)

end Subtensor
