import Subtensor.Emission.Minting

/-!
# The distribution of dividends

`calculate_dividend_distribution` for any stake map: a dividend is divided
between the alpha and the weighted root stake of its hotkey, and what is
pending is divided in proportion to the parts. Both quotients are truncated,
so neither pending amount is exceeded.
-/

namespace Subtensor

open Lib

variable {A B P : Type} [DecidableEq A]

/-! ## The function of the source -/

/-- The part of a dividend that root stake earned, for a hotkey with the alpha
and the root stake `stake`. -/
def rootDivs (taoWeight : U96F32) (stake : U64 × U64) (dividend : U96F32) : U96F32 :=
  let alphaStake : U96F32 := .ofNat stake.1.val
  let rootStake : U96F32 := .ofNat stake.2.val
  let rootAlpha := rootStake.satMul taoWeight
  let totalAlpha := alphaStake.satAdd rootAlpha
  let rootProp := (rootAlpha.checkedDiv totalAlpha).getD 0
  dividend.satMul rootProp

/-- Hotkeys without an entry in the stake map are passed over. -/
def alphaDividends (taoWeight : U96F32) (stakeMap : StorageMap A (U64 × U64))
    (dividends : StorageMap A U96F32) : StorageMap A U96F32 :=
  dividends.filterMapValues fun hotkey dividend =>
    (stakeMap.lookup hotkey).map fun stake => dividend.satSub (rootDivs taoWeight stake dividend)

def rootDividends (taoWeight : U96F32) (stakeMap : StorageMap A (U64 × U64))
    (dividends : StorageMap A U96F32) : StorageMap A U96F32 :=
  dividends.filterMapValues fun hotkey dividend =>
    (stakeMap.lookup hotkey).map fun stake => rootDivs taoWeight stake dividend

def calculateDividendDistribution (pendingAlpha pendingTao : U64) (taoWeight : U96F32)
    (stakeMap : StorageMap A (U64 × U64)) (dividends : StorageMap A U96F32) :
    StorageMap A U96F32 × StorageMap A U96F32 :=
  (Chain.divideInProportion pendingAlpha (alphaDividends taoWeight stakeMap dividends),
    Chain.divideInProportion pendingTao (rootDividends taoWeight stakeMap dividends))

namespace Chain

def getStakeMap (chain : Chain A B P) (netuid : NetUid) (hotkeys : List A) :
    StorageMap A (U64 × U64) :=
  hotkeys.foldl (fun stakeMap hotkey =>
    stakeMap.insert hotkey (chain.getStakeForHotkeyOnSubnet hotkey netuid,
      chain.getStakeForHotkeyOnSubnet hotkey .ROOT)) ∅

theorem lookup_getStakeMap (chain : Chain A B P) (netuid : NetUid) {hotkeys : List A} {hotkey : A}
    (h : hotkey ∈ hotkeys) :
    (chain.getStakeMap netuid hotkeys).lookup hotkey =
      some (chain.getStakeForHotkeyOnSubnet hotkey netuid,
        chain.getStakeForHotkeyOnSubnet hotkey .ROOT) := by
  have hfold : ∀ (l : List A) (m : StorageMap A (U64 × U64)),
      (l.foldl (fun stakeMap hotkey =>
        stakeMap.insert hotkey (chain.getStakeForHotkeyOnSubnet hotkey netuid,
          chain.getStakeForHotkeyOnSubnet hotkey .ROOT)) m).lookup hotkey =
        if hotkey ∈ l then some (chain.getStakeForHotkeyOnSubnet hotkey netuid,
          chain.getStakeForHotkeyOnSubnet hotkey .ROOT) else m.lookup hotkey := by
    intro l
    induction l with
    | nil => simp
    | cons k l ih =>
        intro m
        rw [List.foldl_cons, ih]
        by_cases hk : hotkey = k
        · subst hk
          simp
        · simp [hk]
  rw [getStakeMap, hfold, if_pos h]

/-- The drain calls the function with the stakes of the hotkeys that have a
dividend. -/
theorem calculateDividendDistribution_eq (chain : Chain A B P) (netuid : NetUid)
    (pendingAlpha pendingTao : U64) (dividends : StorageMap A U96F32) :
    chain.calculateDividendDistribution netuid pendingAlpha pendingTao dividends =
      Subtensor.calculateDividendDistribution pendingAlpha pendingTao chain.getTaoWeight
        (chain.getStakeMap netuid dividends.keys) dividends := by
  have hstake : ∀ hotkey dividend, dividends.lookup hotkey = some dividend →
      (chain.getStakeMap netuid dividends.keys).lookup hotkey =
        some (chain.getStakeForHotkeyOnSubnet hotkey netuid,
          chain.getStakeForHotkeyOnSubnet hotkey .ROOT) := by
    intro hotkey dividend h
    refine lookup_getStakeMap chain netuid ?_
    exact AList.mem_keys.mpr (AList.lookup_isSome.mp (by rw [h]; rfl))
  simp only [calculateDividendDistribution, Subtensor.calculateDividendDistribution,
    Subtensor.alphaDividends, rootDividends]
  rw [StorageMap.filterMapValues_eq_mapValues (g := fun hotkey dividend =>
      dividend.satSub (chain.rootDivs netuid hotkey dividend)),
    StorageMap.filterMapValues_eq_mapValues (g := fun hotkey dividend =>
      chain.rootDivs netuid hotkey dividend)]
  all_goals
    intro hotkey dividend h
    rw [hstake hotkey dividend h]
    rfl

end Chain

/-! ## Conservation -/

theorem UFixed.bits_ofNat_satMul_le (n : ℕ) (q : U96F32) :
    ((UFixed.ofNat n : U96F32).satMul q).bits ≤ n * q.bits := by
  refine (UFixed.bits_sat_le _).trans (Nat.div_le_of_le_mul ?_)
  calc (UFixed.ofNat n : U96F32).bits * q.bits ≤ n * 2 ^ 32 * q.bits :=
        Nat.mul_le_mul_right _ (UFixed.bits_sat_le _)
    _ = 2 ^ 32 * (n * q.bits) := by ring

/-- What is divided in proportion to shares is not exceeded, fractions
included. -/
theorem sumBy_divideInProportion_bits_le (pending : U64) {shares : StorageMap A U96F32}
    (h : shares.sumBy (fun _ share => share.bits) < 2 ^ 128) :
    (Chain.divideInProportion pending shares).sumBy (fun _ dividend => dividend.bits) ≤
      pending.val * 2 ^ 32 := by
  unfold Chain.divideInProportion
  extract_lets total
  have htotal : total.bits = shares.sumBy (fun _ share => share.bits) := by
    rw [UFixed.bits_foldl_satAdd (fun e : Sigma fun _ : A => U96F32 => e.2), UFixed.bits_zero,
      Nat.zero_add]
    exact min_eq_left (Nat.le_pred_of_lt h)
  rw [StorageMap.sumBy_mapValues]
  have hshare : ∀ share : U96F32, ((share.checkedDiv total).getD 0).bits ≤
      2 ^ 32 * share.bits / total.bits := by
    intro share
    rw [mul_comm]
    exact UFixed.bits_safeDiv_le share total
  -- the truncated quotients together are at most one
  have hone : (shares.entries.map fun e => 2 ^ 32 * e.2.bits / total.bits).sum ≤ 2 ^ 32 :=
    sum_div_le _ _ _ _ htotal.ge
  calc shares.sumBy (fun _ share => ((UFixed.ofNat pending.val : U96F32).satMul
        ((share.checkedDiv total).getD 0)).bits)
      ≤ shares.sumBy fun _ share => pending.val * (2 ^ 32 * share.bits / total.bits) :=
        StorageMap.sumBy_le_sumBy fun _ share _ =>
          (UFixed.bits_ofNat_satMul_le _ _).trans (Nat.mul_le_mul_left _ (hshare share))
    _ = pending.val * (shares.entries.map fun e => 2 ^ 32 * e.2.bits / total.bits).sum :=
        List.sum_map_mul_left _ _ _
    _ ≤ pending.val * 2 ^ 32 := Nat.mul_le_mul_left _ hone

omit [DecidableEq A] in
theorem rootDivs_of_rootStake_zero (taoWeight : U96F32) {stake : U64 × U64} (h : stake.2 = 0)
    (dividend : U96F32) : rootDivs taoWeight stake dividend = 0 := by
  have hroot : ((UFixed.ofNat stake.2.val : U96F32).satMul taoWeight).bits = 0 := by
    rw [h, UFixed.bits_satMul]
    simp [UFixed.ofNat, UFixed.bits_sat]
  have hprop : ((((UFixed.ofNat stake.2.val : U96F32).satMul taoWeight).checkedDiv
      ((UFixed.ofNat stake.1.val).satAdd
        ((UFixed.ofNat stake.2.val : U96F32).satMul taoWeight))).getD 0).bits = 0 := by
    have hle := UFixed.bits_safeDiv_le ((UFixed.ofNat stake.2.val : U96F32).satMul taoWeight)
      ((UFixed.ofNat stake.1.val).satAdd
        ((UFixed.ofNat stake.2.val : U96F32).satMul taoWeight))
    rw [hroot, Nat.zero_mul, Nat.zero_div] at hle
    exact Nat.le_zero.mp hle
  apply UFixed.ext
  unfold rootDivs
  rw [UFixed.bits_satMul, hprop]
  simp

theorem lookup_divideInProportion_zero (pending : U64) {shares : StorageMap A U96F32} {hotkey : A}
    (h : shares.lookup hotkey = some 0) :
    (Chain.divideInProportion pending shares).lookup hotkey = some 0 := by
  unfold Chain.divideInProportion
  extract_lets total
  have hshare : (((0 : U96F32).checkedDiv total).getD 0).bits = 0 := by
    have hle := UFixed.bits_safeDiv_le (0 : U96F32) total
    rw [UFixed.bits_zero, Nat.zero_mul, Nat.zero_div] at hle
    exact Nat.le_zero.mp hle
  rw [StorageMap.lookup_mapValues, h, Option.map_some]
  congr 1
  apply UFixed.ext
  rw [UFixed.bits_satMul, hshare]
  simp

/-- **The distribution is conservative.** When neither total is clamped, the
dividends in alpha sum to at most the pending alpha and those in TAO to at most
the pending TAO; and without root stake a hotkey gets no TAO. -/
theorem calculateDividendDistribution_conservative (pendingAlpha pendingTao : U64)
    (taoWeight : U96F32) (stakeMap : StorageMap A (U64 × U64)) (dividends : StorageMap A U96F32)
    (halpha : (alphaDividends taoWeight stakeMap dividends).sumBy (fun _ part => part.bits) <
      2 ^ 128)
    (hroot : (rootDividends taoWeight stakeMap dividends).sumBy (fun _ part => part.bits) <
      2 ^ 128) :
    (calculateDividendDistribution pendingAlpha pendingTao taoWeight stakeMap dividends).1.sumBy
        (fun _ dividend => dividend.bits) ≤ pendingAlpha.val * 2 ^ 32 ∧
      (calculateDividendDistribution pendingAlpha pendingTao taoWeight stakeMap dividends).2.sumBy
        (fun _ dividend => dividend.bits) ≤ pendingTao.val * 2 ^ 32 ∧
      ∀ hotkey stake, stakeMap.lookup hotkey = some stake → stake.2 = 0 →
        ∀ tao, (calculateDividendDistribution pendingAlpha pendingTao taoWeight stakeMap
          dividends).2.lookup hotkey = some tao → tao = 0 := by
  refine ⟨sumBy_divideInProportion_bits_le _ halpha,
    sumBy_divideInProportion_bits_le _ hroot, ?_⟩
  intro hotkey stake hstake hzero tao htao
  have hpart : (rootDividends taoWeight stakeMap dividends).lookup hotkey =
      (dividends.lookup hotkey).map fun _ => 0 := by
    unfold rootDividends
    rw [StorageMap.lookup_filterMapValues, hstake]
    cases dividends.lookup hotkey with
    | none => rfl
    | some dividend =>
        exact congrArg some (rootDivs_of_rootStake_zero taoWeight hzero dividend)
  cases hdividend : dividends.lookup hotkey with
  | none =>
      rw [hdividend] at hpart
      unfold calculateDividendDistribution Chain.divideInProportion at htao
      rw [StorageMap.lookup_mapValues, hpart] at htao
      cases htao
  | some dividend =>
      rw [hdividend] at hpart
      have hnothing := lookup_divideInProportion_zero pendingTao hpart
      unfold calculateDividendDistribution at htao
      rw [hnothing] at htao
      exact (Option.some.inj htao).symm

/-- The stakes of two hotkeys, one of them without root stake. -/
def twoStakes : StorageMap ℕ (U64 × U64) :=
  ((∅ : StorageMap ℕ (U64 × U64)).insert 1 ⟨.sat 300, 0⟩).insert 2 ⟨.sat 100, .sat 700⟩

def twoDividends : StorageMap ℕ U96F32 :=
  ((∅ : StorageMap ℕ U96F32).insert 1 (.ofNat 50)).insert 2 (.ofNat 70)

theorem calculateDividendDistribution_conservative_two :
    (calculateDividendDistribution (.sat 1000) (.sat 90) (.ofNat 1) twoStakes
        twoDividends).1.sumBy (fun _ dividend => dividend.bits) ≤
          (Word.sat 1000 : U64).val * 2 ^ 32 ∧
      ∀ tao, (calculateDividendDistribution (.sat 1000) (.sat 90) (.ofNat 1) twoStakes
        twoDividends).2.lookup 1 = some tao → tao = 0 := by
  obtain ⟨halpha, -, hzero⟩ := calculateDividendDistribution_conservative (.sat 1000) (.sat 90)
    (.ofNat 1) twoStakes twoDividends (by decide +kernel) (by decide +kernel)
  exact ⟨halpha, hzero 1 (Word.sat 300, 0) (by decide +kernel) rfl⟩

end Subtensor
