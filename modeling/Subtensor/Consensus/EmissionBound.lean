import Subtensor.Consensus.SparseMass
import Subtensor.Consensus.SparseSpec

/-!
# What an epoch emits

Incentives and dividends are shares, and so is the stake that replaces them when
both are zero. The emissions of an epoch are at most what it was given, as long
as the sums of its inputs fit.
-/

namespace Subtensor

open Lib

/-! ## Emissions of shares -/

variable {xs ys : List I32F32}

theorem raoEmission_mul_le {score : I32F32} (h : 0 ≤ score.bits) (rao : U64) :
    ((EpochScores.raoEmission rao score).val : ℤ) * 2 ^ 32 ≤ score.bits * rao.val := by
  have hupper := score.upper
  have hrao := rao.isLt
  have hscore : (IFixed.sat score.bits : I96F32).bits = score.bits :=
    IFixed.bits_sat_of_mem (by omega) (by omega)
  have hamount : (IFixed.ofInt rao.val : I96F32).bits = rao.val * 2 ^ 32 :=
    IFixed.bits_sat_of_mem (by omega) (by omega)
  have hproduct : 0 ≤ (IFixed.sat score.bits : I96F32).bits := by
    rw [hscore]
    exact h
  have hamount' : 0 ≤ (IFixed.ofInt rao.val : I96F32).bits := by
    rw [hamount]
    positivity
  have hle := bits_satProduct_mul_le hproduct hamount'
  have hnonneg := bits_satProduct_nonneg hproduct hamount'
  unfold EpochScores.raoEmission IFixed.toWord
  have hword : ((.sat (((IFixed.sat score.bits : I96F32).satMul (.ofInt rao.val)).bits /
      2 ^ 32).toNat : U64)).val ≤ _ := Word.val_sat_le _
  have hfloor := Int.ediv_mul_le ((IFixed.sat score.bits : I96F32).satMul
    (.ofInt rao.val)).bits (by norm_num : (2 : ℤ) ^ 32 ≠ 0)
  have hquotient : 0 ≤ ((IFixed.sat score.bits : I96F32).satMul
      (.ofInt rao.val)).bits / 2 ^ 32 := Int.ediv_nonneg hnonneg (by norm_num)
  have hexact : ((IFixed.sat score.bits : I96F32).satMul (.ofInt rao.val)).bits ≤
      score.bits * rao.val := by
    rw [hscore, hamount, ← mul_assoc] at hle
    exact le_of_mul_le_mul_right hle (by norm_num)
  omega

/-- The emissions of some scores together. -/
def emitted (rao : U64) (scores : List I32F32) : ℕ :=
  ((scores.map (EpochScores.raoEmission rao)).map (·.val)).sum

theorem emitted_mul_le (h : Nonneg xs) (rao : U64) :
    (emitted rao xs : ℤ) * 2 ^ 32 ≤ mass xs * rao.val := by
  induction xs with
  | nil => simp [emitted]
  | cons x xs ih =>
      rcases nonneg_cons.mp h with ⟨hx, hrest⟩
      have hhead := raoEmission_mul_le hx rao
      have hsum : emitted rao (x :: xs) =
          (EpochScores.raoEmission rao x).val + emitted rao xs := List.sum_cons
      rw [hsum, mass_cons, add_mul, Nat.cast_add, add_mul]
      exact add_le_add hhead (ih hrest)

theorem emitted_add_le (hx : Nonneg xs) (hy : Nonneg ys) (h : mass xs + mass ys ≤ 2 ^ 32)
    (rao : U64) : emitted rao xs + emitted rao ys ≤ rao.val := by
  have hxs := emitted_mul_le hx rao
  have hys := emitted_mul_le hy rao
  have hboth := mul_le_mul_of_nonneg_right h (Int.natCast_nonneg rao.val)
  rw [add_mul] at hboth
  omega

/-! ## The normalized emissions -/

theorem mass_zipWith_satAdd (hx : Shares xs) (hy : Shares ys) (hlen : xs.length = ys.length) :
    Nonneg (List.zipWith IFixed.satAdd xs ys) ∧
      mass (List.zipWith IFixed.satAdd xs ys) = mass xs + mass ys := by
  have hsmall : ∀ x ∈ xs, x.bits ≤ 2 ^ 32 := fun x h => (hx.nonneg.le_mass h).trans hx.mass_le
  have hsmall' : ∀ y ∈ ys, y.bits ≤ 2 ^ 32 := fun y h => (hy.nonneg.le_mass h).trans hy.mass_le
  have hnonneg := hx.nonneg
  have hnonneg' := hy.nonneg
  clear hx hy
  induction xs generalizing ys with
  | nil =>
      cases ys with
      | nil => exact ⟨fun _ h => absurd h List.not_mem_nil, rfl⟩
      | cons y ys => exact absurd hlen (by simp)
  | cons x xs ih =>
      cases ys with
      | nil => exact absurd hlen (by simp)
      | cons y ys =>
          rcases nonneg_cons.mp hnonneg with ⟨hx, hxs⟩
          rcases nonneg_cons.mp hnonneg' with ⟨hy, hys⟩
          rcases List.forall_mem_cons.mp hsmall with ⟨hxle, hxsle⟩
          rcases List.forall_mem_cons.mp hsmall' with ⟨hyle, hysle⟩
          rcases ih (Nat.succ_injective hlen) hxsle hysle hxs hys with ⟨ih, ihmass⟩
          have hsum := bits_satAdd_of_lt hx hy (show x.bits + y.bits < 2 ^ 63 by omega)
          rw [List.zipWith_cons_cons, nonneg_cons, mass_cons, mass_cons, mass_cons, ihmass, hsum]
          exact ⟨⟨add_nonneg hx hy, ih⟩, by omega⟩

/-- Divided by the sum of both, incentives and dividends are shares together; if
both are zero, the stake is. -/
theorem normalizedEmission_shares {stakes : EpochStake} (hstake : Shares stakes.stake)
    (hactive : Shares stakes.activeStake) (hx : Shares xs) (hy : Shares ys)
    (hlen : xs.length = ys.length) :
    Nonneg (normalizedEmission stakes xs ys).server ∧
      Nonneg (normalizedEmission stakes xs ys).validator ∧
      mass (normalizedEmission stakes xs ys).server +
        mass (normalizedEmission stakes xs ys).validator ≤ 2 ^ 32 := by
  rcases mass_zipWith_satAdd hx hy hlen with ⟨hnonneg, hmass⟩
  have hxmass := hx.mass_le
  have hymass := hy.mass_le
  have hsum := hnonneg.bits_sumFixed (by omega)
  rw [hmass] at hsum
  have hxpos := hx.nonneg.mass_nonneg
  have hypos := hy.nonneg.mass_nonneg
  unfold normalizedEmission
  simp only
  split_ifs with hzero hinactive
  · exact ⟨hx.nonneg, hstake.nonneg, by have := hstake.mass_le; dsimp only; omega⟩
  · exact ⟨hx.nonneg, hactive.nonneg, by have := hactive.mass_le; dsimp only; omega⟩
  · have hpos : 0 < (sumFixed (List.zipWith IFixed.satAdd xs ys)).bits := by omega
    generalize sumFixed (List.zipWith IFixed.satAdd xs ys) = total at *
    unfold EpochScores.normalizeUsingSum
    rw [if_neg hzero, if_neg hzero]
    refine ⟨nonneg_map_safeDiv hx.nonneg hpos.le, nonneg_map_safeDiv hy.nonneg hpos.le, ?_⟩
    have hxscaled : mass (xs.map (·.safeDiv total)) * total.bits ≤ mass xs * 2 ^ 32 :=
      mass_map_mul_le fun x h => bits_safeDiv_mul_le (hx.nonneg x h) total
    have hyscaled : mass (ys.map (·.safeDiv total)) * total.bits ≤ mass ys * 2 ^ 32 :=
      mass_map_mul_le fun y h => bits_safeDiv_mul_le (hy.nonneg y h) total
    refine le_of_mul_le_mul_right ?_ hpos
    rw [add_mul, hsum] at *
    linarith

/-! ## Stake -/

section

variable {A B P : Type} [DecidableEq A]

theorem bits_ofInt_natCast_nonneg (n : ℕ) : 0 ≤ (IFixed.ofInt (n : ℤ) : I64F64).bits := by
  have hscaled : (0 : ℤ) ≤ n * 2 ^ 64 := by positivity
  unfold IFixed.ofInt
  rw [IFixed.bits_sat]
  omega

theorem Chain.totalStakeWeight_nonneg (chain : Chain A B P) (hotkey : A) (netuid : NetUid) :
    0 ≤ (chain.totalStakeWeight hotkey netuid).bits := by
  have hweight : 0 ≤ (IFixed.sat (chain.getTaoWeight.bits * 2 ^ 32) : I64F64).bits := by
    rw [IFixed.bits_sat]
    omega
  exact bits_satAdd_nonneg (bits_ofInt_natCast_nonneg _)
    (bits_satProduct_nonneg (bits_ofInt_natCast_nonneg _) hweight)

theorem Chain.nonneg_getStakeWeightsForNetwork (chain : Chain A B P) (netuid : NetUid) :
    Nonneg (chain.getStakeWeightsForNetwork netuid) := by
  intro x hx
  rcases List.mem_map.mp hx with ⟨i, -, rfl⟩
  cases (chain.neurons netuid).keys (.wrap i) with
  | none => exact le_refl _
  | some hotkey => exact chain.totalStakeWeight_nonneg hotkey netuid

variable {chain : Chain A B P} {netuid : NetUid} {params : EpochParams} {stakes : EpochStake}

theorem Chain.shares_epochStakeVector
    (hfits : mass (chain.getStakeWeightsForNetwork netuid) < 2 ^ 127) :
    Shares (chain.epochStakeVector netuid) := by
  have hnonneg := chain.nonneg_getStakeWeightsForNetwork netuid
  unfold Chain.epochStakeVector
  generalize chain.getStakeWeightsForNetwork netuid = weights at *
  refine (Nonneg.shares_normalize64 ?_ ?_).fixed64ToFixed32
  · intro x hx
    rcases List.mem_map.mp hx with ⟨y, hy, rfl⟩
    split_ifs
    · exact le_refl _
    · exact hnonneg y hy
  · refine lt_of_le_of_lt ?_ hfits
    rw [← mul_one (mass (weights.map _)), ← mul_one (mass weights)]
    refine mass_map_mul_le fun x hx => ?_
    split_ifs
    · rw [IFixed.bits_zero, zero_mul, mul_one]
      exact hnonneg x hx
    · exact le_refl _

theorem Chain.length_epochStakeVector (chain : Chain A B P) (netuid : NetUid) :
    (chain.epochStakeVector netuid).length = (chain.neurons netuid).subnetworkN.val := by
  unfold Chain.epochStakeVector normalize64 Chain.getStakeWeightsForNetwork
  simp only
  split_ifs <;> simp

theorem Chain.epochStake_shares
    (hfits : mass (chain.getStakeWeightsForNetwork netuid) < 2 ^ 127)
    (h : chain.epochStake params netuid = some stakes) :
    Shares stakes.stake ∧ Shares stakes.activeStake ∧
      stakes.activeStake.length = (chain.neurons netuid).subnetworkN.val := by
  unfold Chain.epochStake at h
  simp only [Option.bind_eq_bind, Option.bind_eq_some_iff] at h
  rcases h with ⟨active, hactive, permitted, hpermitted, heq⟩
  cases heq
  have hstake := Chain.shares_epochStakeVector hfits
  rcases hstake.maskVector hactive with ⟨hactive, hlen⟩
  rcases hactive.maskVector hpermitted with ⟨hpermitted, hlen'⟩
  refine ⟨hstake, hpermitted.normalize, ?_⟩
  rw [length_normalize, hlen', hlen, chain.length_epochStakeVector]

end

/-! ## Weights -/

/-- The sums that an epoch takes of its inputs fit: the weights of a neuron are
for distinct uids and add up to a number of the format, and so do the stakes. -/
structure EpochFits {A B P H : Type} [DecidableEq A] (net : Network A B P H) (netuid : NetUid) :
    Prop where
  distinct : ∀ uid, (((net.weights netuid).weights uid).map Prod.fst).Nodup
  weights : ∀ uid, (((net.weights netuid).weights uid).map fun e => e.2.val).sum < 2 ^ 31
  stakes : mass (net.chain.getStakeWeightsForNetwork netuid) < 2 ^ 127

section

variable {M M' : SparseMatrix I32F32}

/-- The rows add up to a number of the format. -/
def RowsFit (M : SparseMatrix I32F32) : Prop := ∀ row ∈ M, mass (row.map Prod.snd) < 2 ^ 63

theorem bits_u16ToFixed (x : U16) : (u16ToFixed x).bits = x.val * 2 ^ 32 := by
  have := x.isLt
  exact IFixed.bits_sat_of_mem (by omega) (by omega)

variable {A B P H : Type} [DecidableEq A] {net : Network A B P H} {netuid : NetUid}

/-- The counted weights of a neuron, as numbers of the format. -/
theorem EpochFits.getWeightsSparse (h : EpochFits net netuid) :
    NonnegRows (net.getWeightsSparse netuid) ∧ RowsFit (net.getWeightsSparse netuid) := by
  refine ⟨fun row hrow => ?_, fun row hrow => ?_⟩
  · rcases List.mem_map.mp hrow with ⟨i, -, rfl⟩
    refine ⟨?_, fun x hx => ?_⟩
    · have hnodup := (h.distinct (.wrap i)).map (f := Word.val) fun a b => Word.ext
      rw [List.map_map] at hnodup ⊢
      exact hnodup.sublist (List.filter_sublist.map _)
    · rcases List.mem_map.mp hx with ⟨_, he, rfl⟩
      rcases List.mem_map.mp he with ⟨e, -, rfl⟩
      rw [bits_u16ToFixed]
      positivity
  · rcases List.mem_map.mp hrow with ⟨i, -, rfl⟩
    have hfits := h.weights (.wrap i)
    have hmass : ∀ l : List (U16 × U16), mass ((l.map fun e =>
        ((e.1.val, u16ToFixed e.2) : ℕ × I32F32)).map Prod.snd) =
          ((l.map fun e => e.2.val).sum : ℕ) * 2 ^ 32 := by
      intro l
      induction l with
      | nil => rfl
      | cons e l ih =>
          rw [List.map_cons, List.map_cons, mass_cons, ih, bits_u16ToFixed, List.map_cons,
            List.sum_cons, Nat.cast_add, add_mul]
    have hcounted : ((((net.weights netuid).weights (.wrap i)).filter fun e =>
        e.1.val < (net.chain.neurons netuid).subnetworkN.val).map fun e => e.2.val).sum ≤
          (((net.weights netuid).weights (.wrap i)).map fun e => e.2.val).sum :=
      List.Sublist.sum_le_sum (List.filter_sublist.map _) fun _ _ => Nat.zero_le _
    rw [hmass]
    omega

theorem NonnegRows.sublist (h : NonnegRows M) (hsub : ∀ row' ∈ M', ∃ row ∈ M, row'.Sublist row) :
    NonnegRows M' := by
  intro row' hrow'
  rcases hsub row' hrow' with ⟨row, hrow, hsub⟩
  exact ⟨(h row hrow).nodup.sublist (hsub.map _), (h row hrow).nonneg.sublist (hsub.map _)⟩

theorem RowsFit.sublist (h : RowsFit M) (hnonneg : NonnegRows M)
    (hsub : ∀ row' ∈ M', ∃ row ∈ M, row'.Sublist row) : RowsFit M' := by
  intro row' hrow'
  rcases hsub row' hrow' with ⟨row, hrow, hsub⟩
  exact ((hnonneg row hrow).nonneg.mass_sublist (hsub.map _)).trans_lt (h row hrow)

theorem RowsFit.mapEntries (h : RowsFit M) (hnonneg : NonnegRows M)
    {g : ℕ → ℕ → I32F32 → Option I32F32}
    (hg : ∀ k j a b, 0 ≤ a.bits → g k j a = some b → b.bits ≤ a.bits) :
    RowsFit (M.mapEntries g) := by
  intro row' hrow'
  rcases SparseMatrix.mem_mapEntries hrow' with ⟨k, row, hrow, rfl⟩
  exact (mass_mapEntries_le (hnonneg row hrow).nonneg (hg k)).trans_lt (h row hrow)

theorem maskRowsSparse_sublist {mask : List Bool} (hmask : maskRowsSparse mask M = some M') :
    (∀ row' ∈ M', ∃ row ∈ M, row'.Sublist row) ∧ M'.length = M.length := by
  unfold maskRowsSparse at hmask
  split_ifs at hmask with hlen
  cases hmask
  refine ⟨fun row' hrow' => ?_, by rw [List.length_zipWith, hlen, min_self]⟩
  rcases List.mem_iff_getElem?.mp hrow' with ⟨i, hi⟩
  rcases List.getElem?_zipWith_eq_some.mp hi with ⟨m, row, hm, hrow, rfl⟩
  refine ⟨row, List.mem_of_getElem? hrow, ?_⟩
  cases m
  · exact List.Sublist.refl row
  · exact List.nil_sublist row

theorem mapIdx_filter_sublist (p : ℕ → ℕ × I32F32 → Bool) :
    ∀ row' ∈ M.mapIdx fun i row => row.filter (p i), ∃ row ∈ M, row'.Sublist row := by
  intro row' hrow'
  rcases List.mem_mapIdx.mp hrow' with ⟨i, hi, rfl⟩
  exact ⟨M[i], List.getElem_mem hi, List.filter_sublist⟩

theorem rowNormalizeSparse_shares (hnonneg : NonnegRows M) (hfit : RowsFit M) :
    NonnegRows (rowNormalizeSparse M) ∧ SharesRows (rowNormalizeSparse M) := by
  have hrows : ∀ row' ∈ rowNormalizeSparse M, ∃ row ∈ M,
      row'.map Prod.fst = row.map Prod.fst ∧ Shares (row'.map Prod.snd) := by
    intro row' hrow'
    rcases List.mem_map.mp hrow' with ⟨row, hrow, rfl⟩
    have hsum : (sumFixed (row.map (·.2))).bits = mass (row.map Prod.snd) :=
      (hnonneg row hrow).nonneg.bits_sumFixed (hfit row hrow)
    refine ⟨row, hrow, ?_⟩
    simp only
    split_ifs with hpos
    · have hshares := (hnonneg row hrow).nonneg.shares_safeDiv hsum hpos.ne'
      rw [List.map_map] at hshares
      rw [List.map_map, List.map_map]
      exact ⟨rfl, hshares⟩
    · have hmass := (hnonneg row hrow).nonneg.mass_nonneg
      exact ⟨rfl, (hnonneg row hrow).nonneg.shares_of_zero (by omega)⟩
  refine ⟨fun row' hrow' => ?_, fun row' hrow' => ?_⟩
  · rcases hrows row' hrow' with ⟨row, hrow, hcolumns, hshares⟩
    exact ⟨hcolumns ▸ (hnonneg row hrow).nodup, hshares.nonneg⟩
  · rcases hrows row' hrow' with ⟨-, -, -, hshares⟩
    exact hshares

/-- The weights that count are shares in every row. -/
theorem maskWeightsSparse_shares {stakes : EpochStake} {ownerUid : Option U16}
    (hnonneg : NonnegRows M) (hfit : RowsFit M)
    (hmask : maskWeightsSparse stakes ownerUid M = some M') :
    NonnegRows M' ∧ SharesRows M' ∧ M'.length = M.length := by
  unfold maskWeightsSparse at hmask
  simp only [Option.bind_eq_bind, Option.bind_eq_some_iff] at hmask
  rcases hmask with ⟨permitted, hpermitted, current, hcurrent, heq⟩
  cases heq
  rcases maskRowsSparse_sublist hpermitted with ⟨hsub, hlen⟩
  have hnonneg₁ := hnonneg.sublist hsub
  have hfit₁ := hfit.sublist hnonneg hsub
  have hdiag : ∀ offDiagonal, (∀ row' ∈ offDiagonal, ∃ row ∈ permitted, row'.Sublist row) →
      offDiagonal.length = permitted.length →
      vecMaskSparseMatrix offDiagonal stakes.lastUpdate stakes.blockAtRegistration
        (fun updated registered => decide (updated.val ≤ registered.val)) = some current →
      NonnegRows current ∧ RowsFit current ∧ current.length = M.length := by
    intro offDiagonal hsub' hlen' hcurrent
    have hnonneg₂ := hnonneg₁.sublist hsub'
    have hfit₂ := hfit₁.sublist hnonneg₁ hsub'
    have hkept : ∀ (k j : ℕ) (a b : I32F32), 0 ≤ a.bits →
        (((stakes.lastUpdate[k]?).bind fun x : U64 =>
          (stakes.blockAtRegistration[j]?).map fun y : U64 =>
            if decide (x.val ≤ y.val) then none else some a).getD none) = some b → b = a := by
      intro k j a b _ hb
      cases hk : stakes.lastUpdate[k]? with
      | none => simp [hk] at hb
      | some x =>
          cases hj : stakes.blockAtRegistration[j]? with
          | none => simp [hk, hj] at hb
          | some y =>
              simp only [hk, hj, Option.bind_some, Option.map_some, Option.getD_some] at hb
              split_ifs at hb
              exact (Option.some.inj hb).symm
    rw [SparseMatrix.eq_of_collect hcurrent]
    refine ⟨hnonneg₂.mapEntries fun k j a b ha hb => ?_,
      hfit₂.mapEntries hnonneg₂ fun k j a b ha hb => ?_, ?_⟩
    · rw [hkept k j a b ha hb]
      exact ha
    · rw [hkept k j a b ha hb]
    · rw [SparseMatrix.length_mapEntries, hlen', hlen]
  have hcurrent' : NonnegRows current ∧ RowsFit current ∧ current.length = M.length := by
    cases ownerUid with
    | some ownerUid => exact hdiag _ (mapIdx_filter_sublist _) List.length_mapIdx hcurrent
    | none => exact hdiag _ (mapIdx_filter_sublist _) List.length_mapIdx hcurrent
  rcases hcurrent' with ⟨hnonneg', hfit', hlen'⟩
  rcases rowNormalizeSparse_shares hnonneg' hfit' with ⟨hnonneg', hshares⟩
  refine ⟨hnonneg', hshares, ?_⟩
  rw [← hlen']
  exact List.length_map _

/-! ## Ranks -/

theorem clipEntry_le {thresholds : List I32F32} {j : ℕ} {a b : I32F32} (ha : 0 ≤ a.bits)
    (h : ((thresholds[j]?).map fun threshold =>
      if threshold.bits < a.bits then if 0 < threshold.bits then some threshold else none
      else some a).getD none = some b) : 0 ≤ b.bits ∧ b.bits ≤ a.bits := by
  cases hj : thresholds[j]? with
  | none => simp [hj] at h
  | some threshold =>
      rw [hj, Option.map_some, Option.getD_some] at h
      split_ifs at h with hlt hpos
      · cases h
        exact ⟨hpos.le, hlt.le⟩
      · cases h
        exact ⟨ha, le_refl _⟩

theorem colClipSparse_shares {thresholds : List I32F32} (hnonneg : NonnegRows M)
    (hshares : SharesRows M) (h : colClipSparse M thresholds = some M') :
    NonnegRows M' ∧ SharesRows M' ∧ M'.length = M.length := by
  rw [SparseMatrix.eq_of_collect h]
  exact ⟨hnonneg.mapEntries fun k j a b ha hb => (clipEntry_le ha hb).1,
    hshares.mapEntries fun k j a b ha hb => clipEntry_le ha hb,
    SparseMatrix.length_mapEntries _ _⟩

theorem nonnegRow_positiveEntries (row : List I32F32) : NonnegRow (positiveEntries row) := by
  refine ⟨(wellFormed_positiveEntries row).nodup, fun x hx => ?_⟩
  rcases List.mem_map.mp hx with ⟨⟨j, x⟩, he, rfl⟩
  exact (mem_positiveEntries.mp he).2.le

theorem interpolateSparse_nonneg {M₁ M₂ : SparseMatrix I32F32} {n : ℕ} {ratio : I32F32}
    (h₁ : NonnegRows M₁) (h₂ : NonnegRows M₂) (hlen : M₁.length = M₂.length)
    (h : interpolateSparse M₁ M₂ n ratio = some M') :
    NonnegRows M' ∧ M'.length = M₁.length := by
  unfold interpolateSparse at h
  split_ifs at h with hzero hone
  · cases h
    exact ⟨h₁, rfl⟩
  · cases h
    exact ⟨h₂, hlen.symm⟩
  · cases h
    refine ⟨fun row hrow => ?_, by rw [List.length_zipWith, hlen, min_self]⟩
    rcases List.mem_iff_getElem?.mp hrow with ⟨i, hi⟩
    rcases List.getElem?_zipWith_eq_some.mp hi with ⟨row₁, row₂, -, -, rfl⟩
    have hrow := nonnegRow_positiveEntries ((List.range n).map fun j =>
      interpolated ratio
        (((row₁.foldl (fun acc e => acc.set e.1 e.2) (List.replicate n 0))[j]?).getD 0)
        (((row₂.foldl (fun acc e => acc.set e.1 e.2) (List.replicate n 0))[j]?).getD 0))
    rw [positiveEntries_map_range] at hrow
    exact hrow

theorem consensusSparse_shares {params : EpochParams} {stakes : EpochStake} {n : ℕ}
    {scores : ConsensusScores} {weightsForBonds : SparseMatrix I32F32}
    (hactive : Shares stakes.activeStake) (hnonneg : NonnegRows M) (hshares : SharesRows M)
    (h : consensusSparse params stakes n M = some (scores, weightsForBonds)) :
    Shares scores.ranks ∧ scores.ranks.length = n ∧ NonnegRows weightsForBonds ∧
      weightsForBonds.length = M.length := by
  unfold consensusSparse at h
  simp only [Option.bind_eq_bind, Option.bind_eq_some_iff] at h
  rcases h with ⟨preranks, -, consensus, -, clipped, hclipped, ranks, hranks, trust, -, bonds,
    hbonds, heq⟩
  cases heq
  rcases colClipSparse_shares hnonneg hshares hclipped with ⟨hnonneg', hshares', hlen⟩
  rcases hshares'.matmulSparse hactive.nonneg hranks with ⟨hranks, hmass, hlength⟩
  rcases interpolateSparse_nonneg hnonneg hnonneg' hlen.symm hbonds with ⟨hbonds, hlen'⟩
  have hfits := hmass.trans hactive.mass_le
  exact ⟨hranks.shares_normalize (hfits.trans_lt (by norm_num)), (length_normalize ranks).trans
    hlength, hbonds, hlen'⟩

/-! ## Dividends -/

theorem matEmaSparse_nonneg {old : SparseMatrix I32F32} {alpha : I32F32}
    (h : matEmaSparse M old alpha = some M') : NonnegRows M' ∧ M'.length = M.length := by
  unfold matEmaSparse at h
  simp only at h
  split_ifs at h with hlen
  refine ⟨fun row hrow => ?_, ?_⟩
  · rw [eq_map_of_mapM h []] at hrow
    rcases List.mem_map.mp hrow with ⟨rows, hrows, rfl⟩
    rcases mapM_isSome h rows hrows with ⟨row, hrow⟩
    rw [hrow, Option.getD_some]
    rcases Option.map_eq_some_iff.mp hrow with ⟨dense, -, rfl⟩
    exact nonnegRow_positiveEntries dense
  · rw [eq_map_of_mapM h [], List.length_map, List.length_zip, hlen, min_self]

theorem matEmaAlphaSparse_nonneg {old : SparseMatrix I32F32} {alphas : List (List I32F32)}
    (hnonneg : NonnegRows M) (h : matEmaAlphaSparse M old alphas = some M') :
    NonnegRows M' ∧ M'.length = M.length := by
  unfold matEmaAlphaSparse at h
  split_ifs at h with hlen
  cases h
  refine ⟨fun row hrow => ?_, ?_⟩
  · rcases List.mem_iff_getElem?.mp hrow with ⟨i, hi⟩
    rcases List.getElem?_zipWith_eq_some.mp hi with ⟨rows, alphaRow, hrows, -, rfl⟩
    have hmem := (List.of_mem_zip (List.mem_of_getElem? hrows)).1
    unfold emaAlphaRowSparse
    refine ⟨(hnonneg _ hmem).nodup.sublist (SparseRow.mapEntries_columns _ _), fun x hx => ?_⟩
    rcases List.mem_map.mp hx with ⟨⟨j, x⟩, he, rfl⟩
    rcases SparseRow.mem_mapEntries.mp he with ⟨a, -, hb⟩
    rcases Option.bind_eq_some_iff.mp hb with ⟨alpha, -, hb⟩
    rcases Option.bind_eq_some_iff.mp hb with ⟨decayed, -, hb⟩
    simp only at hb
    split_ifs at hb with hpos
    cases hb
    exact hpos.le
  · rw [List.length_zipWith, List.length_zip, ← hlen.1, ← hlen.2, min_self, min_self]

theorem computeBondsSparse_nonneg {exp : I32F32 → Option I32F32} {params : EpochParams}
    {bonds : SparseMatrix I32F32} {consensus : List I32F32} (hnonneg : NonnegRows M)
    (h : computeBondsSparse exp params M bonds consensus = some M') :
    NonnegRows M' ∧ M'.length = M.length := by
  unfold computeBondsSparse at h
  split_ifs at h
  · rcases Option.bind_eq_some_iff.mp h with ⟨alphas, -, h⟩
    exact matEmaAlphaSparse_nonneg hnonneg h
  · exact matEmaSparse_nonneg h

theorem length_colNormalizeSparse {columns : ℕ} (h : colNormalizeSparse M columns = some M') :
    M'.length = M.length := by
  unfold colNormalizeSparse at h
  split at h
  · cases h
  · rw [SparseMatrix.eq_of_collect h, SparseMatrix.length_mapEntries]

/-- Dividends are shares, by either way to compute them. -/
theorem bondsSparse_shares {exp : I32F32 → Option I32F32} {params : EpochParams}
    {stakes : EpochStake} {n : ℕ} {lastTempo : U64} {scores : ConsensusScores}
    {bonds : SparseMatrix I32F32} {paid : BondScores (SparseMatrix I32F32)}
    (hactive : Shares stakes.activeStake) (hlen : stakes.activeStake.length = M.length)
    (hranks : Shares scores.ranks) (hsmall : M.length < 2 ^ 16) (hnonneg : NonnegRows M)
    (h : bondsSparse exp params stakes n lastTempo scores M bonds = some paid) :
    Shares paid.dividends ∧ paid.dividends.length = M.length := by
  unfold bondsSparse at h
  simp only at h
  split_ifs at h
  · simp only [Option.bind_eq_bind, Option.bind_eq_some_iff] at h
    rcases h with ⟨masked, -, emaBonds, hema, normed, hnormed, heq⟩
    cases heq
    rcases computeBondsSparse_nonneg hnonneg hema with ⟨hema, hemaLen⟩
    rcases hema.colNormalizeSparse hnormed with ⟨hnormed, hunit, hnormedLen⟩
    have htotals := rowSumSparse_matVecMulSparse_le hnormed hunit hranks
    refine ⟨(hactive.vecMul htotals).normalize, ?_⟩
    rw [length_normalize]
    unfold vecMul rowSumSparse matVecMulSparse
    rw [List.length_zipWith, List.length_map, SparseMatrix.length_mapEntries, hlen, hnormedLen,
      hemaLen, min_self]
  · simp only [Option.bind_eq_bind, Option.bind_eq_some_iff] at h
    rcases h with ⟨masked, -, normed, -, delta, hdelta, ema, hema, emaNormed, hemaNormed, dividends,
      hdividends, upscaled, -, heq⟩
    cases heq
    rcases matEmaSparse_nonneg hema with ⟨hema, hemaLen⟩
    rcases hema.colNormalizeSparse hemaNormed with ⟨hnormed, hunit, hnormedLen⟩
    rcases matmulTransposeSparse_le hnormed hunit hranks.nonneg hdividends with ⟨hbound, hlength⟩
    have hdeltaLen : delta.length = M.length := by
      rw [length_colNormalizeSparse hdelta]
      unfold rowHadamardSparse
      rw [List.length_zipWith, hlen, min_self]
    have hmass := mass_le_length (2 ^ 32) fun y hy => ((hbound y hy).2.trans hranks.mass_le)
    have hlength' : dividends.length = M.length := by
      rw [hlength, hnormedLen, hemaLen, hdeltaLen]
    refine ⟨Nonneg.shares_normalize (fun y hy => (hbound y hy).1) ?_,
      (length_normalize dividends).trans hlength'⟩
    rw [hlength'] at hmass
    have hcount : (M.length : ℤ) < 2 ^ 16 := by exact_mod_cast hsmall
    linarith

/-! ## The epoch -/

theorem nodup_storedUids : (storedUids.map Word.val).Nodup := by
  unfold storedUids
  rw [List.map_map]
  refine List.nodup_range.map_on fun i hi j hj heq => ?_
  rw [List.mem_range] at hi hj
  have hvals : (i / 2 ^ 8 + 2 ^ 8 * (i % 2 ^ 8)) % 2 ^ 16 =
      (j / 2 ^ 8 + 2 ^ 8 * (j % 2 ^ 8)) % 2 ^ 16 := heq
  omega

theorem Neurons.nodup_storedKeys {A : Type} (neurons : Neurons A) :
    (neurons.storedKeys.map fun e => e.1.val).Nodup := by
  refine nodup_storedUids.sublist ?_
  unfold Neurons.storedKeys
  generalize storedUids = uids
  induction uids with
  | nil => exact List.Sublist.slnil
  | cons uid uids ih =>
      rw [List.filterMap_cons, List.map_cons]
      cases neurons.keys uid with
      | none => exact ih.cons _
      | some hotkey => exact ih.cons_cons _

/-- What is paid to the hotkeys is at most what was emitted. -/
theorem Neurons.sum_emissionTuples_le {A : Type} {neurons : Neurons A}
    {emission : NormalizedEmission} {rao : U64} {tuples : List (A × U64 × U64)}
    (h : neurons.emissionTuples emission rao = some tuples) :
    (tuples.map fun t => t.2.1.val + t.2.2.val).sum ≤
      emitted rao emission.server + emitted rao emission.validator := by
  have hpaid : tuples.map (fun t => t.2.1.val + t.2.2.val) =
      neurons.storedKeys.map fun e =>
        ((emission.server.map (EpochScores.raoEmission rao)).map (·.val)).getD e.1.val 0 +
          ((emission.validator.map (EpochScores.raoEmission rao)).map (·.val)).getD e.1.val 0 := by
    unfold Neurons.emissionTuples at h
    simp only at h
    generalize neurons.storedKeys = keys at h ⊢
    induction keys generalizing tuples with
    | nil =>
        cases h
        rfl
    | cons e keys ih =>
        rw [List.mapM_cons] at h
        rcases Option.bind_eq_some_iff.mp h with ⟨tuple, htuple, h⟩
        rcases Option.bind_eq_some_iff.mp h with ⟨rest, hrest, h⟩
        cases h
        rcases Option.bind_eq_some_iff.mp htuple with ⟨s, hs, htuple⟩
        rcases Option.bind_eq_some_iff.mp htuple with ⟨v, hv, htuple⟩
        cases htuple
        have hplace : ∀ (values : List U64) (x : U64), values[e.1.val]? = some x →
            (values.map (·.val)).getD e.1.val 0 = x.val := by
          intro values x hx
          rw [List.getD_eq_getElem?_getD, List.getElem?_map, hx]
          rfl
        rw [List.map_cons, List.map_cons, ih hrest, hplace _ s hs, hplace _ v hv]
  have hplaces : ∀ values : List ℕ,
      (neurons.storedKeys.map fun e => values.getD e.1.val 0).sum ≤ values.sum := by
    intro values
    have hnonneg : ∀ x ∈ values, 0 ≤ x := fun x _ => Nat.zero_le x
    have hsum := sum_getD_le hnonneg neurons.nodup_storedKeys
    rw [List.map_map] at hsum
    exact hsum
  rw [hpaid, List.sum_map_add]
  exact Nat.add_le_add (hplaces _) (hplaces _)

/-- **An epoch does not over-emit.** The server and validator emissions of an
epoch sum to at most what was to be emitted. -/
theorem Network.epoch_emission_le {exp : I32F32 → Option I32F32} {params : EpochParams}
    (hfits : EpochFits net netuid) {rao : U64} {tuples : List (A × U64 × U64)}
    {neurons : Neurons A} (h : net.epoch exp params netuid rao = some (tuples, neurons)) :
    (tuples.map fun t => t.2.1.val + t.2.2.val).sum ≤ rao.val := by
  unfold Network.epoch at h
  simp only [Option.bind_eq_bind, Option.bind_eq_some_iff] at h
  rcases h with ⟨stakes, hstakes, weights, hweights, ⟨scores, weightsForBonds⟩, hscores, bonds,
    hbonds, hfinish⟩
  unfold Neurons.finishEpoch at hfinish
  rcases Option.map_eq_some_iff.mp hfinish with ⟨tuples', htuples, heq⟩
  rcases Prod.mk.inj heq with ⟨rfl, -⟩
  have hcount : (net.getWeightsSparse netuid).length =
      (net.chain.neurons netuid).subnetworkN.val := by
    unfold Network.getWeightsSparse
    rw [List.length_map, List.length_range]
  rcases Chain.epochStake_shares hfits.stakes hstakes with ⟨hstake, hactive, hactiveLen⟩
  rcases hfits.getWeightsSparse with ⟨hnonneg, hrows⟩
  rcases maskWeightsSparse_shares hnonneg hrows hweights with ⟨hnonneg, hshares, hlen⟩
  rcases consensusSparse_shares hactive hnonneg hshares hscores with
    ⟨hranks, hranksLen, hbondWeights, hbondLen⟩
  have hlen' : weightsForBonds.length = (net.chain.neurons netuid).subnetworkN.val :=
    hbondLen.trans (hlen.trans hcount)
  have hsmall : weightsForBonds.length < 2 ^ 16 := by
    rw [hlen']
    exact (net.chain.neurons netuid).subnetworkN.isLt
  rcases bondsSparse_shares hactive (hactiveLen.trans hlen'.symm) hranks hsmall hbondWeights
    hbonds with ⟨hdividends, hdividendsLen⟩
  rcases normalizedEmission_shares hstake hactive hranks hdividends
    (hranksLen.trans (hdividendsLen.trans hlen').symm) with ⟨hserver, hvalidator, hmass⟩
  exact (Neurons.sum_emissionTuples_le htuples).trans
    (emitted_add_le hserver hvalidator hmass rao)

end

/-! ## A network of stakers -/

theorem range_mul (m n : ℕ) : List.range (m * n) =
    (List.range m).flatMap fun a => (List.range n).map fun b => n * a + b := by
  induction m with
  | zero => simp
  | succ m ih =>
      rw [Nat.succ_mul, List.range_add, ih, List.range_succ, List.flatMap_append]
      simp [Nat.mul_comm]

theorem storedUids_eq : storedUids = (List.range (2 ^ 8)).flatMap fun low =>
    (List.range (2 ^ 8)).map fun high => .wrap (low + 2 ^ 8 * high) := by
  unfold storedUids
  rw [show 2 ^ 16 = 2 ^ 8 * 2 ^ 8 from rfl, range_mul, List.map_flatMap]
  refine List.flatMap_congr fun low _ => ?_
  rw [List.map_map]
  refine List.map_congr_left fun high hhigh => ?_
  rw [List.mem_range] at hhigh
  have hdiv : (2 ^ 8 * low + high) / 2 ^ 8 = low := by omega
  have hmod : (2 ^ 8 * low + high) % 2 ^ 8 = high := by omega
  rw [Function.comp_apply, hdiv, hmod]

/-- The neurons of a subnet with at most as many slots as a byte counts are
stored in the order of their uids. -/
theorem Neurons.storedKeys_of_small {A : Type} {neurons : Neurons A}
    (h : ∀ uid : U16, 2 ^ 8 ≤ uid.val → neurons.keys uid = none) :
    neurons.storedKeys = (List.range (2 ^ 8)).filterMap fun uid =>
      (neurons.keys (.wrap uid)).map fun hotkey => (.wrap uid, hotkey) := by
  unfold Neurons.storedKeys
  rw [storedUids_eq, List.filterMap_flatMap, List.filterMap_eq_flatMap_toList]
  refine List.flatMap_congr fun low hlow => ?_
  rw [List.mem_range] at hlow
  rw [show 2 ^ 8 = 255 + 1 from rfl, List.range_succ_eq_map, List.map_cons, List.filterMap_cons]
  have hrest : (((List.range 255).map Nat.succ).map fun high =>
      (Word.wrap (low + (255 + 1) * high) : U16)).filterMap (fun uid =>
        (neurons.keys uid).map fun hotkey => (uid, hotkey)) = [] := by
    rw [List.filterMap_eq_nil_iff]
    intro uid huid
    rcases List.mem_map.mp huid with ⟨high, hhigh, rfl⟩
    rcases List.mem_map.mp hhigh with ⟨k, hk, rfl⟩
    rw [List.mem_range] at hk
    rw [h _ ?_]
    · rfl
    · show 2 ^ 8 ≤ (low + (255 + 1) * (k + 1)) % 2 ^ 16
      omega
  rw [hrest, Nat.mul_zero, Nat.add_zero]
  cases neurons.keys (.wrap low) <;> rfl

/-- A network whose subnet `1` has five neurons without weights or permits, each
with the same stake. -/
def stakedNetwork (stake : U64) : Network ℕ (Balances ℕ) (SwapStorage ℕ) Unit :=
  { smallNetwork Unit with
    chain :=
      { smallChain with
        neurons := fun _ =>
          { (Neurons.empty : Neurons ℕ) with
            subnetworkN := .sat 5
            keys := fun uid => if uid.val < 5 then some uid.val else none
            lastUpdate := [0, 0, 0, 0, 0]
            validatorPermit := [false, false, false, false, false] }
        stakes :=
          { smallChain.stakes with
            totalHotkeyAlpha := (List.range 5).foldl
              (fun alpha hotkey => alpha.insert (hotkey, .sat 1) stake) ∅ } } }

/-- The parameters of a subnet without liquid alpha. -/
def plainParams : EpochParams where
  activityCutoff := .sat 5000
  maxAllowedValidators := .sat 64
  kappa := .sat 32767
  bondsPenalty := .sat 65535
  bondsMovingAverage := .sat 900000
  yuma3On := false
  liquidAlphaOn := false
  alphaValues := (.sat 45875, .sat 58982)
  alphaSigmoidSteepness := .sat 1000

def epochPays (net : Network ℕ (Balances ℕ) (SwapStorage ℕ) Unit) (rao : U64) : Option ℕ :=
  (net.epoch (fun _ => none) plainParams (.sat 1) rao).map fun outcome =>
    (outcome.1.map fun t => t.2.1.val + t.2.2.val).sum

theorem storedKeys_stakedNetwork (stake : U64) :
    ((stakedNetwork stake).chain.neurons (.sat 1)).storedKeys =
      (List.range (2 ^ 8)).filterMap fun uid =>
        (((stakedNetwork stake).chain.neurons (.sat 1)).keys (.wrap uid)).map fun hotkey =>
          (.wrap uid, hotkey) :=
  Neurons.storedKeys_of_small fun _ huid => if_neg (by omega)

theorem epochFits_stakedNetwork : EpochFits (stakedNetwork (.sat (2 ^ 30))) (.sat 1) where
  distinct _ := List.nodup_nil
  weights _ := Nat.two_pow_pos 31
  stakes := by decide +kernel

theorem Network.epoch_emission_le_stakedNetwork : ∃ tuples neurons,
    (stakedNetwork (.sat (2 ^ 30))).epoch (fun _ => none) plainParams (.sat 1) (.sat 1000) =
      some (tuples, neurons) ∧ (tuples.map fun t => t.2.1.val + t.2.2.val).sum ≤ 1000 := by
  have hsome : ((stakedNetwork (.sat (2 ^ 30))).epoch (fun _ => none) plainParams (.sat 1)
      (.sat 1000)).isSome = true := by
    unfold Network.epoch Neurons.finishEpoch Neurons.emissionTuples
    dsimp only
    rw [storedKeys_stakedNetwork]
    decide +kernel
  rcases Option.isSome_iff_exists.mp hsome with ⟨⟨tuples, neurons⟩, h⟩
  exact ⟨tuples, neurons, h, Network.epoch_emission_le epochFits_stakedNetwork h⟩

/-- Five stakes of `2 ^ 62` add up to `2 ^ 62`, so that each of them is all of
the stake. -/
theorem epochPays_wraps : epochPays (stakedNetwork (.sat (2 ^ 62))) (.sat 1000) = some 5000 := by
  unfold epochPays Network.epoch Neurons.finishEpoch Neurons.emissionTuples
  dsimp only
  rw [storedKeys_stakedNetwork]
  decide +kernel

end Subtensor
