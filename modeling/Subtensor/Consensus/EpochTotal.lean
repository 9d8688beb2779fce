import Subtensor.Consensus.EmissionBound
import Subtensor.Consensus.Median
import Subtensor.Consensus.TopK
import Subtensor.Registration.FreshSlot

/-!
# Every epoch has a result

If the table of a subnet is in order, then no assertion of an epoch fails and no
index is out of range. The table that the epoch stores is in order again.
-/

namespace Subtensor

open Lib SparseMatrix

variable {n : ℕ} {M M' : SparseMatrix I32F32} {stakes : EpochStake} {params : EpochParams}
  {exp : I32F32 → Option I32F32}

/-! ## Square matrices -/

/-- A row for every neuron, and no column beyond them. -/
structure Square (n : ℕ) (M : SparseMatrix I32F32) : Prop where
  length : M.length = n
  wellFormed : M.WellFormed n

theorem Square.mapEntries (h : Square n M) (g : ℕ → ℕ → I32F32 → Option I32F32) :
    Square n (M.mapEntries g) :=
  ⟨(length_mapEntries g M).trans h.length, h.wellFormed.mapEntries g⟩

/-- Rows of length `n` whose positive entries are pushed. -/
theorem square_of_positiveEntries (hlen : M.length = n)
    (h : ∀ row ∈ M, ∃ dense : List I32F32, dense.length = n ∧ row = positiveEntries dense) :
    Square n M := by
  refine ⟨hlen, fun row hrow => ?_⟩
  rcases h row hrow with ⟨dense, rfl, rfl⟩
  exact wellFormed_positiveEntries dense

theorem colNormalizeSparse_ok (h : Square n M) :
    ∃ M', colNormalizeSparse M n = some M' ∧ Square n M' :=
  ⟨_, colNormalizeSparse_eq h.wellFormed, h.mapEntries _⟩

theorem interpolateSparse_ok (h : Square n M) (h' : Square n M') (ratio : I32F32) :
    ∃ out, interpolateSparse M M' n ratio = some out ∧ Square n out := by
  refine ⟨_, interpolateSparse_eq h.wellFormed h'.wellFormed (h.length.trans h'.length.symm) ratio,
    ?_⟩
  split_ifs
  · exact h
  · exact h'
  · refine square_of_positiveEntries (by simp [h.length, h'.length]) fun row hrow => ?_
    rcases List.mem_iff_getElem?.mp hrow with ⟨i, hi⟩
    rcases List.getElem?_zipWith_eq_some.mp hi with ⟨row₁, row₂, -, -, rfl⟩
    exact ⟨_, by simp [interpolatedRow], rfl⟩

theorem matEmaSparse_ok (h : Square n M) (h' : Square n M') (alpha : I32F32) :
    ∃ out, matEmaSparse M M' alpha = some out ∧ Square n out := by
  refine ⟨_, matEmaSparse_eq h.wellFormed h'.wellFormed h.length h'.length alpha, ?_⟩
  refine square_of_positiveEntries (by simp [h.length, h'.length]) fun row hrow => ?_
  rcases List.mem_map.mp hrow with ⟨rows, -, rfl⟩
  exact ⟨_, length_emaRow alpha rows.1 rows.2, rfl⟩

theorem matEmaAlphaSparse_ok (h : Square n M) (h' : Square n M') {alphas : List (List I32F32)}
    (halphas : alphas.length = n) :
    ∃ out, matEmaAlphaSparse M M' alphas = some out ∧ Square n out := by
  refine ⟨_, if_pos ⟨h.length.trans h'.length.symm, h.length.trans halphas.symm⟩,
    by simp [h.length, h'.length, halphas], fun row hrow => ?_⟩
  rcases List.mem_iff_getElem?.mp hrow with ⟨i, hi⟩
  rcases List.getElem?_zipWith_eq_some.mp hi with ⟨rows, alphaRow, hrows, -, rfl⟩
  have hnew := (List.of_mem_zip (List.mem_of_getElem? hrows)).1
  unfold emaAlphaRowSparse
  exact (h.wellFormed _ hnew).mapEntries _

/-! ## Medians -/

theorem columnMedian_ok (stake : List I32F32) (M : SparseMatrix I32F32) (majority : I32F32)
    (c : ℕ) : ∃ value, columnMedian stake M majority c = some value := by
  have hlen : (normalize (stake.filter fun s => 0 < s.bits)).length =
      ((stakedRows stake).map fun p => scoreIn M p.2 c).length := by
    rw [length_normalize, ← map_fst_stakedRows, List.length_map, List.length_map]
  have hindices : ∀ idx ∈ List.range (normalize (stake.filter fun s => 0 < s.bits)).length,
      idx < ((stakedRows stake).map fun p => scoreIn M p.2 c).length :=
    fun idx hidx => hlen ▸ List.mem_range.mp hidx
  rcases weightedMedian_ok hlen hindices _ 0 _ with ⟨value, hvalue, -⟩
  exact ⟨value, hvalue⟩

theorem weightedMedianColSparse_ok (h : Square n M) {stake : List I32F32}
    (hstake : stake.length = n) (majority : I32F32) :
    ∃ medians, weightedMedianColSparse stake M n majority = some medians ∧ medians.length = n := by
  rw [weightedMedianColSparse_eq h.wellFormed (hstake.trans h.length.symm).le]
  rcases mapM_ok fun c (_ : c ∈ List.range n) => columnMedian_ok stake M majority c with
    ⟨medians, hmedians, hlen⟩
  exact ⟨medians, hmedians, hlen.trans List.length_range⟩

/-! ## Stake and weights -/

/-- Every vector of stakes has one value for each neuron. -/
structure EpochStake.Fits (n : ℕ) (stakes : EpochStake) : Prop where
  lastUpdate : stakes.lastUpdate.length = n
  active : stakes.active.length = n
  blockAtRegistration : stakes.blockAtRegistration.length = n
  stake : stakes.stake.length = n
  validatorPermits : stakes.validatorPermits.length = n
  newValidatorPermits : stakes.newValidatorPermits.length = n
  activeStake : stakes.activeStake.length = n

theorem maskVector_ok {mask : List Bool} {vector : List I32F32} (h : mask.length = vector.length) :
    ∃ masked, maskVector mask vector = some masked ∧ masked.length = vector.length := by
  unfold maskVector
  split_ifs
  · exact ⟨vector, rfl, rfl⟩
  · exact ⟨_, rfl, by rw [List.length_zipWith, h, min_self]⟩

theorem maskWeightsSparse_ok (hstakes : stakes.Fits n) (h : Square n M) (ownerUid : Option U16) :
    ∃ weights, maskWeightsSparse stakes ownerUid M = some weights ∧ Square n weights := by
  unfold maskWeightsSparse
  rw [maskRowsSparse_eq (by simp [EpochStake.validatorForbids, h.length, hstakes.validatorPermits])]
  have hpermitted := h.mapEntries fun i _ value =>
    if (stakes.validatorForbids[i]?).getD false then none else some value
  generalize M.mapEntries _ = permitted at hpermitted ⊢
  simp only [Option.bind_eq_bind, Option.bind_some]
  have hrest : ∀ off, Square n off → ∀ maskFn, ∃ weights, ((vecMaskSparseMatrix off
      stakes.lastUpdate stakes.blockAtRegistration maskFn).bind fun current =>
        some (rowNormalizeSparse current)) = some weights ∧ Square n weights := by
    intro off hoff maskFn
    rw [vecMaskSparseMatrix_eq hoff.wellFormed (hoff.length.trans hstakes.lastUpdate.symm).le
      hstakes.blockAtRegistration.ge, Option.bind_some, rowNormalizeSparse_eq]
    exact ⟨_, rfl, (hoff.mapEntries _).mapEntries _⟩
  cases ownerUid with
  | none =>
      refine hrest (maskDiagSparse permitted) ?_ _
      rw [maskDiagSparse_eq]
      exact hpermitted.mapEntries _
  | some ownerUid =>
      refine hrest (maskDiagSparseExceptIndex permitted ownerUid.val) ?_ _
      rw [maskDiagSparseExceptIndex_eq]
      exact hpermitted.mapEntries _

/-! ## Scores -/

/-- Every vector of scores has one value for each neuron. -/
structure ConsensusScores.Fits (n : ℕ) (scores : ConsensusScores) : Prop where
  consensus : scores.consensus.length = n
  validatorTrust : scores.validatorTrust.length = n
  trust : scores.trust.length = n
  ranks : scores.ranks.length = n

variable (params) in
theorem consensusSparse_ok (hstakes : stakes.Fits n) (h : Square n M) :
    ∃ scores weightsForBonds, consensusSparse params stakes n M = some (scores, weightsForBonds) ∧
      scores.Fits n ∧ Square n weightsForBonds := by
  have hstake : stakes.activeStake.length = n := hstakes.activeStake
  rcases weightedMedianColSparse_ok h hstake params.floatKappa with ⟨medians, hmedians, hlen⟩
  have hclipped := h.mapEntries fun _ j value => clipEntry ((medians[j]?).getD 0) value
  have hclip := colClipSparse_eq h.wellFormed hlen.ge
  generalize M.mapEntries _ = clipped at hclipped hclip
  rcases interpolateSparse_ok h hclipped params.floatBondsPenalty with ⟨out, hout, hsquare⟩
  unfold consensusSparse
  rw [matmulSparse_eq h.wellFormed (h.length.trans hstake.symm).le, hmedians]
  simp only [Option.bind_eq_bind, Option.bind_some]
  rw [hclip, Option.bind_some,
    matmulSparse_eq hclipped.wellFormed (hclipped.length.trans hstake.symm).le, Option.bind_some]
  unfold vecdiv
  rw [if_pos (by rw [length_weightedColSums, length_weightedColSums]), Option.bind_some, hout]
  refine ⟨_, _, rfl, ⟨hlen, ?_, ?_, ?_⟩, hsquare⟩
  · rw [rowSumSparse, List.length_map, hclipped.length]
  · rw [List.length_zipWith, length_weightedColSums, length_weightedColSums, min_self]
  · rw [length_normalize, length_weightedColSums]

/-! ## Bonds -/

variable (params) in
theorem alphaSigmoid_ok (hexp : ∀ x y, exp x = some y → 0 ≤ y.bits)
    (consensus weight bond : I32F32) :
    ∃ alpha, alphaSigmoid exp params consensus weight bond = some alpha := by
  have hsteepness : (IFixed.ofInt (-100) : I32F32).bits ≠ 0 := by decide +kernel
  have hone : (IFixed.ofInt 1 : I32F32).bits = 2 ^ 32 := by decide +kernel
  -- the denominator is at least one
  have hdenominator : ∀ x, ((IFixed.ofInt 1 : I32F32).satAdd ((exp x).getD 0)).bits ≠ 0 := by
    intro x
    have hnonneg : 0 ≤ ((exp x).getD 0).bits := by
      cases hx : exp x with
      | none => exact le_refl _
      | some y => exact hexp x y hx
    have hle := le_bits_satAdd (a := .ofInt 1) (hone ▸ by norm_num) hnonneg
    rw [hone] at hle
    omega
  unfold alphaSigmoid IFixed.satDiv
  simp only [if_neg hsteepness, Option.bind_eq_bind, Option.bind_some, if_neg (hdenominator _)]
  exact ⟨_, rfl⟩

variable (params) in
theorem computeBondsSparse_ok (hexp : ∀ x y, exp x = some y → 0 ≤ y.bits) (h : Square n M)
    (h' : Square n M') (consensus : List I32F32) :
    ∃ out, computeBondsSparse exp params M M' consensus = some out ∧ Square n out := by
  unfold computeBondsSparse
  split_ifs
  -- liquid alpha: a row of alphas for each row of bonds
  · have hrows : ∀ rows ∈ M.zip M', ∃ alphas, alphaRow exp params
        (scanRow consensus.length 0 rows.1) (scanRow consensus.length 0 rows.2) consensus =
          some alphas := by
      intro rows _
      rcases mapM_ok fun (e : (I32F32 × I32F32) × I32F32) (_ : e ∈
        ((scanRow consensus.length 0 rows.1).zip (scanRow consensus.length 0 rows.2)).zip
          consensus) => alphaSigmoid_ok params hexp e.2 e.1.1 e.1.2 with
        ⟨alphas, halphas, -⟩
      exact ⟨alphas, halphas⟩
    rcases mapM_ok hrows with ⟨alphas, halphas, hlen⟩
    have hvalues : computeLiquidAlphaValuesSparse exp params M M' consensus = some alphas :=
      (if_pos (h.length.trans h'.length.symm)).trans halphas
    rw [hvalues]
    exact matEmaAlphaSparse_ok h h' (hlen.trans (by simp [h.length, h'.length]))
  · exact matEmaSparse_ok h h' _

variable (params) in
theorem bondsSparse_ok (hexp : ∀ x y, exp x = some y → 0 ≤ y.bits) (hstakes : stakes.Fits n)
    {scores : ConsensusScores} (hscores : scores.Fits n) (h : Square n M) (h' : Square n M')
    (lastTempo : U64) :
    ∃ out, bondsSparse exp params stakes n lastTempo scores M M' = some out ∧
      out.dividends.length = n ∧ Square n out.emaBonds := by
  unfold bondsSparse
  split_ifs
  · have hbonds := h'.mapEntries fun _ _ bond => some (fixedToFixedU16Proportion bond)
    generalize M'.mapEntries _ = bonds at hbonds ⊢
    simp only [Option.bind_eq_bind]
    rw [scalarVecMaskSparseMatrix_eq hbonds.wellFormed hstakes.blockAtRegistration.ge,
      Option.bind_some]
    rcases computeBondsSparse_ok params hexp h (hbonds.mapEntries _)
      scores.consensus with ⟨ema, hema, hsquare⟩
    rcases colNormalizeSparse_ok hsquare with ⟨norm, hnorm, hsquare'⟩
    rw [hema, Option.bind_some, hnorm]
    refine ⟨_, rfl, ?_, hsquare⟩
    rw [length_normalize, vecMul, List.length_zipWith, rowSumSparse, List.length_map,
      matVecMulSparse, length_mapEntries, hsquare'.length, hstakes.activeStake, min_self]
  · simp only [Option.bind_eq_bind]
    rw [scalarVecMaskSparseMatrix_eq h'.wellFormed hstakes.blockAtRegistration.ge,
      Option.bind_some]
    rcases colNormalizeSparse_ok (h'.mapEntries _) with ⟨old, hold, hsquareOld⟩
    rw [hold, Option.bind_some,
      rowHadamardSparse_eq (h.length.trans hstakes.activeStake.symm).le]
    rcases colNormalizeSparse_ok (h.mapEntries _) with ⟨delta, hdelta, hsquareDelta⟩
    rw [hdelta, Option.bind_some]
    rcases matEmaSparse_ok hsquareDelta hsquareOld params.normalAlpha with ⟨ema, hema, hsquareEma⟩
    rw [hema, Option.bind_some]
    rcases colNormalizeSparse_ok hsquareEma with ⟨norm, hnorm, hsquare⟩
    rw [hnorm, Option.bind_some,
      matmulTransposeSparse_eq hsquare.wellFormed hscores.ranks.ge, Option.bind_some,
      colMaxUpscaleSparse_eq hsquare.wellFormed, Option.bind_some]
    refine ⟨_, rfl, ?_, hsquare.mapEntries _⟩
    rw [length_normalize, List.length_map, hsquare.length]

/-! ## The table of a subnet -/

/-- The slots are the first ones, every vector has one value for each of them, and
a row names each of them at most once. -/
structure Neurons.InOrder {A : Type} (neurons : Neurons A) : Prop where
  slots : neurons.Slots
  vectors : neurons.VectorsFit
  bonds : ∀ uid : U16, uid.val < neurons.subnetworkN.val →
    SparseRow.WellFormed neurons.subnetworkN.val ((neurons.bonds uid).map fun e => (e.1.val, e.2))

theorem Neurons.empty_inOrder {A : Type} : (Neurons.empty : Neurons A).InOrder where
  slots := cleared_slots Neurons.empty
  vectors := by constructor <;> rfl
  bonds := fun _ _ => ⟨List.nodup_nil, fun _ he => absurd he List.not_mem_nil⟩

/-- A neuron that is registered keeps the table in order. -/
theorem Neurons.appendNeuron_inOrder {A : Type} [DecidableEq A] {neurons : Neurons A}
    (h : neurons.InOrder) {hotkey : A} {block : U64}
    (hlt : neurons.subnetworkN.val < 2 ^ 16 - 1) (hfree : neurons.uids hotkey = none)
    (hnew : neurons.bonds neurons.subnetworkN = []) :
    (neurons.appendNeuron hotkey block).InOrder := by
  have hcount : (neurons.appendNeuron hotkey block).subnetworkN.val =
    neurons.subnetworkN.val + 1 := appendNeuron_subnetworkN hlt
  refine ⟨appendNeuron_slots h.slots hlt hfree, ?_, fun uid huid => ?_⟩
  · obtain ⟨hrank, htrust, hactive, hemission, hconsensus, hincentive, hdividends, hupdate,
      hvtrust, hpermit⟩ := h.vectors
    constructor <;> rw [hcount] <;> simp [appendNeuron, *]
  · rw [hcount] at huid ⊢
    show SparseRow.WellFormed _ ((neurons.bonds uid).map fun e => (e.1.val, e.2))
    by_cases heq : uid = neurons.subnetworkN
    -- the new neuron has no bonds
    · rw [heq, hnew]
      exact ⟨List.nodup_nil, fun _ he => absurd he List.not_mem_nil⟩
    · have hne : uid.val ≠ neurons.subnetworkN.val := fun hval => heq (Word.ext hval)
      obtain ⟨hnodup, hcolumns⟩ := h.bonds uid (by omega)
      exact ⟨hnodup, fun e he => (hcolumns e he).trans (Nat.lt_succ_self _)⟩

theorem wellFormed_map_snd {α β : Type} {row : SparseRow α} (f : α → β) :
    SparseRow.WellFormed n (row.map fun e => (e.1, f e.2)) ↔ SparseRow.WellFormed n row := by
  constructor
  · rintro ⟨hnodup, hlt⟩
    exact ⟨by simpa [Function.comp_def] using hnodup,
      fun e he => hlt _ (List.mem_map_of_mem he)⟩
  · rintro ⟨hnodup, hlt⟩
    refine ⟨by simpa [Function.comp_def] using hnodup, fun e he => ?_⟩
    rcases List.mem_map.mp he with ⟨e', he', rfl⟩
    exact hlt e' he'

theorem wellFormed_bondsRowSparse {row : SparseRow I32F32} (h : row.WellFormed n)
    (hn : n ≤ 2 ^ 16) :
    SparseRow.WellFormed n ((bondsRowSparse row).map fun e => (e.1.val, e.2)) := by
  have hsame : (bondsRowSparse row).map (fun e => (e.1.val, e.2)) =
      row.map fun e => (e.1, fixedProportionToU16 e.2) := by
    unfold bondsRowSparse
    rw [List.map_map]
    refine List.map_congr_left fun e he => ?_
    have hlt := h.lt e he
    simp only [Function.comp_apply, Prod.mk.injEq, and_true]
    exact Nat.mod_eq_of_lt (hlt.trans_le hn)
  rw [hsame, wellFormed_map_snd]
  exact h

theorem length_normalizeUsingSum (xs : List I32F32) (total : I32F32) :
    (EpochScores.normalizeUsingSum xs total).length = xs.length := by
  unfold EpochScores.normalizeUsingSum
  split_ifs
  · rfl
  · exact List.length_map _

theorem length_normalizedEmission (hstakes : stakes.Fits n) {incentive dividends : List I32F32}
    (hincentive : incentive.length = n) (hdividends : dividends.length = n) :
    (normalizedEmission stakes incentive dividends).server.length = n ∧
      (normalizedEmission stakes incentive dividends).validator.length = n ∧
      (normalizedEmission stakes incentive dividends).combined.length = n := by
  have hstake := hstakes.stake
  have hactive := hstakes.activeStake
  unfold normalizedEmission
  simp only
  split_ifs <;> simp [length_normalizeUsingSum, length_normalize, *]

section

variable {A : Type} {neurons : Neurons A} {emission : NormalizedEmission}

theorem Neurons.emissionTuples_ok (hslots : neurons.Slots)
    (hserver : emission.server.length = neurons.subnetworkN.val)
    (hvalidator : emission.validator.length = neurons.subnetworkN.val) (raoEmission : U64) :
    ∃ tuples, neurons.emissionTuples emission raoEmission = some tuples := by
  have hentry : ∀ entry ∈ neurons.storedKeys, ∃ tuple : A × U64 × U64, (do
      let s ← (emission.server.map (EpochScores.raoEmission raoEmission))[entry.1.val]?
      let v ← (emission.validator.map (EpochScores.raoEmission raoEmission))[entry.1.val]?
      return (entry.2, s, v)) = some tuple := by
    rintro ⟨uid, hotkey⟩ hmem
    have hlt : uid.val < neurons.subnetworkN.val := by
      rw [← hslots.range, Neurons.mem_storedKeys.mp hmem]
      rfl
    simp [hserver, hvalidator, hlt]
  rcases mapM_ok hentry with ⟨tuples, htuples, -⟩
  exact ⟨tuples, htuples⟩

theorem Neurons.storeBonds_wellFormed (hbonds : ∀ uid : U16, uid.val < n →
      SparseRow.WellFormed n ((neurons.bonds uid).map fun e => (e.1.val, e.2)))
    (hn : n ≤ 2 ^ 16) (h : Square n M) (uid : U16) (huid : uid.val < n) :
    SparseRow.WellFormed n
      ((neurons.storeBonds stakes (M.map bondsRowSparse) uid).map fun e => (e.1.val, e.2)) := by
  unfold storeBonds
  split
  · exact hbonds uid huid
  · rename_i newPermit permit row hget
    have hrow : row ∈ M.map bondsRowSparse :=
      (List.of_mem_zip (List.mem_of_getElem? hget)).2
    rcases List.mem_map.mp hrow with ⟨bonds, hmem, rfl⟩
    split_ifs
    · exact wellFormed_bondsRowSparse (h.wellFormed bonds hmem) hn
    · exact ⟨List.nodup_nil, fun e he => absurd he List.not_mem_nil⟩
    · exact hbonds uid huid

/-- What is stored is in order again. -/
theorem Neurons.finishEpoch_ok (h : neurons.InOrder) (hstakes : stakes.Fits neurons.subnetworkN.val)
    {scores : ConsensusScores} (hscores : scores.Fits neurons.subnetworkN.val)
    {dividends : List I32F32} (hdividends : dividends.length = neurons.subnetworkN.val)
    (hM : Square neurons.subnetworkN.val M) (raoEmission : U64) :
    ∃ tuples neurons', neurons.finishEpoch stakes scores dividends raoEmission
        (M.map bondsRowSparse) = some (tuples, neurons') ∧ neurons'.InOrder := by
  rcases length_normalizedEmission hstakes hscores.ranks hdividends with
    ⟨hserver, hvalidator, hcombined⟩
  rcases emissionTuples_ok h.slots hserver hvalidator raoEmission with ⟨tuples, htuples⟩
  unfold finishEpoch
  simp only [htuples, Option.map_some]
  have hsame : SameSlots neurons (neurons.storeScores stakes scores dividends
      (normalizedEmission stakes scores.ranks dividends) raoEmission (M.map bondsRowSparse)) :=
    ⟨rfl, rfl, rfl⟩
  refine ⟨tuples, _, rfl, hsame.slots h.slots, ?_, ?_⟩
  · constructor <;> simp [storeScores, hcombined, hdividends, hscores.consensus, hscores.trust,
      hscores.validatorTrust, hscores.ranks, hstakes.active, hstakes.newValidatorPermits,
      h.vectors.lastUpdate]
  · exact storeBonds_wellFormed h.bonds neurons.subnetworkN.isLt.le hM

end

section

variable {A B P H : Type} [DecidableEq A] {net : Network A B P H} {netuid : NetUid}

variable (params) in
theorem Chain.epochStake_ok {chain : Chain A B P} (h : (chain.neurons netuid).VectorsFit) :
    ∃ stakes, chain.epochStake params netuid = some stakes ∧
      stakes.Fits (chain.neurons netuid).subnetworkN.val := by
  have hstake := chain.length_epochStakeVector netuid
  have hinactive : ((chain.neurons netuid).lastUpdate.map fun updated : U64 =>
      decide ((updated.satAdd (.sat params.activityCutoff.val)).val < chain.block.val)).length =
        (chain.epochStakeVector netuid).length := by
    rw [List.length_map, h.lastUpdate, hstake]
  rcases maskVector_ok hinactive with ⟨masked, hmasked, hlen⟩
  have hforbids : ((chain.neurons netuid).validatorPermit.map fun b => !b).length =
      masked.length := by
    rw [List.length_map, h.validatorPermit, hlen, hstake]
  rcases maskVector_ok hforbids with ⟨masked', hmasked', hlen'⟩
  unfold Chain.epochStake
  simp only [hmasked, hmasked', Option.bind_eq_bind, Option.bind_some]
  refine ⟨_, rfl, h.lastUpdate, ?_, ?_, hstake, h.validatorPermit, ?_, ?_⟩
  · simp [h.lastUpdate]
  · simp [Chain.getBlockAtRegistration]
  · exact length_isTopkNonzero.trans hstake
  · rw [length_normalize, hlen', hlen, hstake]

omit [DecidableEq A] in
theorem Network.square_getWeightsSparse
    (h : ∀ uid, (((net.weights netuid).weights uid).map Prod.fst).Nodup) :
    Square (net.chain.neurons netuid).subnetworkN.val (net.getWeightsSparse netuid) := by
  refine ⟨by simp [getWeightsSparse], fun row hrow => ?_⟩
  rcases List.mem_map.mp hrow with ⟨i, -, rfl⟩
  constructor
  · have hnodup := (h (.wrap i)).map (f := Word.val) fun a b => Word.ext
    rw [List.map_map] at hnodup ⊢
    exact hnodup.sublist (List.filter_sublist.map _)
  · intro e he
    rcases List.mem_map.mp he with ⟨e', he', rfl⟩
    simpa using (List.mem_filter.mp he').2

omit [DecidableEq A] in
theorem Chain.square_getBondsSparse {chain : Chain A B P} (h : (chain.neurons netuid).InOrder) :
    Square (chain.neurons netuid).subnetworkN.val (chain.getBondsSparse netuid) := by
  refine ⟨by simp [getBondsSparse], fun row hrow => ?_⟩
  rcases List.mem_map.mp hrow with ⟨i, hi, rfl⟩
  have hlt := List.mem_range.mp hi
  have hval : (Word.wrap i : U16).val = i := Nat.mod_eq_of_lt (hlt.trans (Word.isLt _))
  have hrow := h.bonds (.wrap i) (hval.symm ▸ hlt)
  rw [← wellFormed_map_snd u16ToFixed, List.map_map] at hrow
  exact hrow

/-- **Every epoch has a result.** The table that it stores is in order again, so
that the next epoch has one too. -/
theorem Network.epoch_ok (hexp : ∀ x y, exp x = some y → 0 ≤ y.bits)
    (h : (net.chain.neurons netuid).InOrder)
    (hweights : ∀ uid, (((net.weights netuid).weights uid).map Prod.fst).Nodup)
    (raoEmission : U64) :
    ∃ tuples neurons', net.epoch exp params netuid raoEmission = some (tuples, neurons') ∧
      neurons'.InOrder := by
  rcases Chain.epochStake_ok params h.vectors with ⟨stakes, hstakes, hfits⟩
  rcases maskWeightsSparse_ok hfits (square_getWeightsSparse hweights)
    (net.chain.getOwnerUid netuid) with ⟨weights, hmasked, hsquare⟩
  rcases consensusSparse_ok params hfits hsquare with
    ⟨scores, weightsForBonds, hscores, hscoresFit, hsquare'⟩
  rcases bondsSparse_ok params hexp hfits hscoresFit hsquare'
    (Chain.square_getBondsSparse h) (net.chain.lastTempo netuid) with
    ⟨bonds, hbonds, hdividends, hema⟩
  unfold epoch
  simp only [hstakes, hmasked, hscores, hbonds, Option.bind_eq_bind, Option.bind_some]
  exact Neurons.finishEpoch_ok h hfits hscoresFit hdividends hema raoEmission

end

end Subtensor
