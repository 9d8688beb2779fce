import Subtensor.Emission.Epoch
import Subtensor.Emission.Frame
import Subtensor.Lib.Shares
import Subtensor.Pallet.Instances
import Subtensor.Staking.TotalAlpha

/-!
# What a drain adds to the alpha of a subnet

The epoch is run on the pending alpha and on the alpha that was already sold
for root. The validators get half of the two without what was sold, on the
assumption that the other half went to the miners. When there are dividends
and incentives this is so; when there are incentives only, the miners also get
what was sold. Of what is there for the validators nothing is paid when no dividend
goes to a stake in alpha.
-/

namespace Subtensor

open Lib

variable {A B P : Type} [DecidableEq A]

/-! ## Accumulated values -/

section

variable {V : Type}

theorem sumBy_accumulate (add : V → V → V) (f : A → V → ℕ) (m : StorageMap A V) (key : A) (value : V) {d : V}
    (hd : f key d = 0) (hnew : f key value = f key (add d value)) :
    (accumulate add m key value).sumBy f + f key ((m.lookup key).getD d) =
      m.sumBy f + f key (add ((m.lookup key).getD d) value) := by
  unfold accumulate
  rw [StorageMap.sumBy_insert_add f m key _ hd, add_comm]
  cases m.lookup key with
  | none => exact congrArg _ hnew
  | some entry => rfl

end

namespace Chain

variable {rt : Runtime A B P} {chain chain' : Chain A B P} {netuid : NetUid} {hotkey coldkey : A}

/-! ## Incentives -/

/-- What is paid of an incentive: nothing to the hotkey of the owner. -/
def incentivePaid (owner : Option A) (hotkey : A) (incentive : U64) : ℕ :=
  if owner = some hotkey then 0 else incentive.val

def paidIncentives (owner : Option A) (hotkeyEmission : HotkeyEmission A) : ℕ :=
  (hotkeyEmission.map fun e => incentivePaid owner e.1 e.2.1).sum

theorem incentivePaid_zero (owner : Option A) (hotkey : A) : incentivePaid owner hotkey 0 = 0 :=
  ite_self 0

theorem incentivePaid_satAdd_le (owner : Option A) (hotkey : A) (a b : U64) :
    incentivePaid owner hotkey (a.satAdd b) ≤
      incentivePaid owner hotkey a + incentivePaid owner hotkey b := by
  unfold incentivePaid
  split_ifs
  · exact le_refl _
  · exact Word.val_sat_le _

theorem incentivePaid_satAdd (owner : Option A) (hotkey : A) {a b : U64}
    (h : a.val + b.val < 2 ^ 64) :
    incentivePaid owner hotkey (a.satAdd b) =
      incentivePaid owner hotkey a + incentivePaid owner hotkey b := by
  unfold incentivePaid
  split_ifs
  · rfl
  · exact Word.val_satAdd_of_lt h

theorem sumBy_accumulate_incentive (owner : Option A) (m : StorageMap A U64) (hotkey : A)
    (incentive : U64) :
    (accumulate Word.satAdd m hotkey incentive).sumBy (incentivePaid owner) +
        incentivePaid owner hotkey ((m.lookup hotkey).getD 0) =
      m.sumBy (incentivePaid owner) +
        incentivePaid owner hotkey (((m.lookup hotkey).getD 0).satAdd incentive) := by
  apply sumBy_accumulate
  · exact incentivePaid_zero owner hotkey
  · congr 1
    apply Word.ext
    rw [Word.val_satAdd, Word.val_zero]
    have := incentive.isLt
    omega

theorem sumBy_foldl_incentives_le (owner : Option A) (l : HotkeyEmission A)
    (m : StorageMap A U64) :
    (l.foldl (fun incentives e => accumulate Word.satAdd incentives e.1 e.2.1) m).sumBy
        (incentivePaid owner) ≤ m.sumBy (incentivePaid owner) + paidIncentives owner l := by
  induction l generalizing m with
  | nil => exact le_refl _
  | cons e l ih =>
      have hstep := sumBy_accumulate_incentive owner m e.1 e.2.1
      have hle := incentivePaid_satAdd_le owner e.1 ((m.lookup e.1).getD 0) e.2.1
      have hrest := ih (accumulate Word.satAdd m e.1 e.2.1)
      simp only [List.foldl_cons, paidIncentives, List.map_cons, List.sum_cons] at hrest ⊢
      omega

/-- Nothing is lost while the sum of all incentives fits a word. -/
theorem sumBy_foldl_incentives (l : HotkeyEmission A) (m : StorageMap A U64)
    (h : m.sumBy (incentivePaid none) + paidIncentives none l < 2 ^ 64) (owner : Option A) :
    (l.foldl (fun incentives e => accumulate Word.satAdd incentives e.1 e.2.1) m).sumBy
        (incentivePaid owner) = m.sumBy (incentivePaid owner) + paidIncentives owner l := by
  induction l generalizing m with
  | nil => rfl
  | cons e l ih =>
      have hentry : ((m.lookup e.1).getD 0).val ≤ m.sumBy (incentivePaid none) := by
        cases hlookup : m.lookup e.1 with
        | none => exact Nat.zero_le _
        | some entry => exact StorageMap.le_sumBy (incentivePaid none) hlookup
      have hvalue : incentivePaid none e.1 e.2.1 = e.2.1.val := rfl
      simp only [paidIncentives, List.map_cons, List.sum_cons] at h
      have hfits : ((m.lookup e.1).getD 0).val + e.2.1.val < 2 ^ 64 := by omega
      have hall := sumBy_accumulate_incentive none m e.1 e.2.1
      rw [incentivePaid_satAdd none e.1 hfits] at hall
      have hstep := sumBy_accumulate_incentive owner m e.1 e.2.1
      rw [incentivePaid_satAdd owner e.1 hfits] at hstep
      have hrest := ih (accumulate Word.satAdd m e.1 e.2.1) (by
        unfold paidIncentives
        omega)
      simp only [List.foldl_cons, paidIncentives, List.map_cons, List.sum_cons] at hrest ⊢
      omega

/-! ## Dividends -/

/-- What the hotkeys of an epoch and their parents get of the dividends. -/
def dividendTuples (rt : Runtime A B P) (chain : Chain A B P) (netuid : NetUid)
    (hotkeyEmission : HotkeyEmission A) : List (A × U64) :=
  hotkeyEmission.flatMap fun e => chain.getParentChildDividendsDistribution rt e.1 netuid e.2.2

/-- How many pairs of a hotkey and a parent, or itself, share the dividends. -/
def dividendShares (chain : Chain A B P) (netuid : NetUid) (hotkeyEmission : HotkeyEmission A) : ℕ :=
  (hotkeyEmission.map fun e => ((chain.graph netuid).parentKeys e.1).length + 1).sum

theorem foldl_payParent_length (validatingEmission totalContribution : U96F32)
    (l : List (A × U96F32)) (shares : ParentShares A) :
    (l.foldl (chain.payParent rt hotkey netuid validatingEmission totalContribution)
      shares).dividendTuples.length = shares.dividendTuples.length + l.length := by
  induction l generalizing shares with
  | nil => rfl
  | cons parent l ih =>
      rw [List.foldl_cons, ih]
      simp only [payParent, List.length_append, List.length_cons, List.length_nil]
      omega

theorem length_dividendTuples (hotkeyEmission : HotkeyEmission A) :
    (chain.dividendTuples rt netuid hotkeyEmission).length =
      chain.dividendShares netuid hotkeyEmission := by
  unfold dividendTuples dividendShares
  rw [List.length_flatMap]
  congr 1
  apply List.map_congr_left
  intro e _
  unfold getParentChildDividendsDistribution
  simp only [List.length_append, foldl_payParent_length, List.length_map, List.length_cons,
    List.length_nil]
  omega

/-- Nothing was given to a parent, and nothing is left. -/
structure NothingShared (shares : ParentShares A) : Prop where
  remainingEmission : shares.remainingEmission.bits = 0
  totalChildEmissionTake : shares.totalChildEmissionTake.bits = 0
  dividendTuples : ∀ tuple ∈ shares.dividendTuples, tuple.2.val = 0

omit [DecidableEq A] in
theorem toWord_of_bits_zero {a : U96F32} (h : a.bits = 0) : (a.toWord 64).val = 0 := by
  rw [UFixed.toWord, h, Nat.zero_div]
  rfl

theorem payParent_nothing {validatingEmission totalContribution : U96F32}
    (hemission : validatingEmission.bits = 0) {shares : ParentShares A}
    (h : NothingShared shares) (parent : A × U96F32) :
    NothingShared (chain.payParent rt hotkey netuid validatingEmission totalContribution shares
      parent) := by
  have hzero : ∀ a b : U96F32, b.bits = 0 → (a.satMul b).bits = 0 := by
    intro a b hb
    rw [UFixed.bits_satMul, hb, Nat.mul_zero, Nat.zero_div, Nat.zero_min]
  have hparent : (validatingEmission.satMul ((parent.2.checkedDiv totalContribution).getD 0)).bits =
      0 := by
    rw [UFixed.bits_satMul, hemission, Nat.zero_mul, Nat.zero_div, Nat.zero_min]
  constructor
  · simp only [payParent, UFixed.bits_satSub, h.remainingEmission, Nat.zero_sub]
  · simp only [payParent, UFixed.bits_satAdd, h.totalChildEmissionTake, Nat.zero_add]
    split_ifs
    · rfl
    · rw [hzero _ _ hparent, Nat.zero_min]
  · intro tuple hmem
    simp only [payParent, List.mem_append, List.mem_singleton] at hmem
    rcases hmem with hmem | rfl
    · exact h.dividendTuples tuple hmem
    · apply toWord_of_bits_zero
      rw [UFixed.bits_satSub, hparent, Nat.zero_sub]

theorem getParentChildDividendsDistribution_zero {dividends : U64} (h : dividends.val = 0)
    {tuple : A × U64}
    (hmem : tuple ∈ chain.getParentChildDividendsDistribution rt hotkey netuid dividends) :
    tuple.2.val = 0 := by
  have hemission : (UFixed.ofNat dividends.val : U96F32).bits = 0 := by
    rw [h]
    rfl
  unfold getParentChildDividendsDistribution at hmem
  simp only [List.mem_append, List.mem_singleton] at hmem
  generalize ((chain.graph netuid).parentKeys hotkey).map _ = parents at hmem
  have hshares : NothingShared (parents.foldl (chain.payParent rt hotkey netuid
      (.ofNat dividends.val) (parents.foldl (fun total parent => total.satAdd parent.2)
        (UFixed.ofNat (chain.getSelfContribution hotkey netuid).val)))
      ⟨.ofNat dividends.val, 0, []⟩) := by
    refine List.foldlRecOn _ _ ⟨hemission, rfl, ?_⟩ ?_
    · intro tuple htuple
      cases htuple
    · intro shares hshares parent _
      exact payParent_nothing hemission hshares parent
  rcases hmem with hmem | rfl
  · exact hshares.dividendTuples tuple hmem
  · apply toWord_of_bits_zero
    rw [UFixed.bits_satAdd, hshares.remainingEmission, hshares.totalChildEmissionTake,
      Nat.zero_add, Nat.zero_min]

theorem sumBy_foldl_dividends_le (l : List (A × U64)) (m : StorageMap A U96F32) :
    (l.foldl (fun dividends tuple =>
        accumulate UFixed.satAdd dividends tuple.1 (.ofNat tuple.2.val)) m).sumBy
        (fun _ dividend => dividend.bits) ≤
      m.sumBy (fun _ dividend => dividend.bits) + (l.map fun tuple => tuple.2.val * 2 ^ 32).sum := by
  induction l generalizing m with
  | nil => exact le_refl _
  | cons tuple l ih =>
      have hstep := sumBy_accumulate (d := 0) UFixed.satAdd
        (fun (_ : A) (dividend : U96F32) => dividend.bits) m tuple.1 (.ofNat tuple.2.val) rfl (by
          rw [UFixed.bits_satAdd, UFixed.bits_zero, Nat.zero_add]
          have := (UFixed.ofNat tuple.2.val : U96F32).isLt
          omega)
      have hle : (((m.lookup tuple.1).getD 0).satAdd (.ofNat tuple.2.val)).bits ≤
          ((m.lookup tuple.1).getD 0).bits + tuple.2.val * 2 ^ 32 :=
        (UFixed.bits_sat_le _).trans (Nat.add_le_add_left (UFixed.bits_sat_le _) _)
      have hrest := ih (accumulate UFixed.satAdd m tuple.1 (.ofNat tuple.2.val))
      simp only [List.foldl_cons, List.map_cons, List.sum_cons] at hrest ⊢
      omega

theorem calculateDividends_eq (hotkeyEmission : HotkeyEmission A) :
    chain.calculateDividends rt netuid hotkeyEmission =
      (chain.dividendTuples rt netuid hotkeyEmission).foldl (fun dividends tuple =>
        accumulate UFixed.satAdd dividends tuple.1 (.ofNat tuple.2.val)) ∅ := by
  unfold calculateDividends dividendTuples
  rw [List.foldl_flatMap]

theorem sumBy_calculateDividends_le (hotkeyEmission : HotkeyEmission A) :
    (chain.calculateDividends rt netuid hotkeyEmission).sumBy (fun _ dividend => dividend.bits) ≤
      ((chain.dividendTuples rt netuid hotkeyEmission).map fun tuple =>
        tuple.2.val * 2 ^ 32).sum := by
  have h := sumBy_foldl_dividends_le (chain.dividendTuples rt netuid hotkeyEmission) ∅
  rw [StorageMap.sumBy_empty, Nat.zero_add] at h
  rw [calculateDividends_eq]
  exact h

/-- The dividends fit their type when they are shared by less than `2 ^ 32`. -/
theorem sumBy_calculateDividends_lt {hotkeyEmission : HotkeyEmission A}
    (h : chain.dividendShares netuid hotkeyEmission < 2 ^ 32) :
    (chain.calculateDividends rt netuid hotkeyEmission).sumBy (fun _ dividend => dividend.bits) <
      2 ^ 128 := by
  have hbound := sum_map_le_mul_length (fun tuple : A × U64 => tuple.2.val * 2 ^ 32) (2 ^ 96)
    (chain.dividendTuples rt netuid hotkeyEmission) (by
      intro tuple _
      have := tuple.2.isLt
      omega)
  rw [length_dividendTuples] at hbound
  have hle : (chain.calculateDividends rt netuid hotkeyEmission).sumBy
      (fun _ dividend => dividend.bits) ≤ _ := sumBy_calculateDividends_le hotkeyEmission
  omega

theorem sumBy_calculateDividends_zero {hotkeyEmission : HotkeyEmission A}
    (h : ∀ e ∈ hotkeyEmission, e.2.2.val = 0) :
    (chain.calculateDividends rt netuid hotkeyEmission).sumBy (fun _ dividend => dividend.bits) =
      0 := by
  apply Nat.le_zero.mp
  refine (sumBy_calculateDividends_le hotkeyEmission).trans ?_
  rw [List.sum_eq_zero]
  intro x hx
  obtain ⟨tuple, hmem, rfl⟩ := List.mem_map.mp hx
  obtain ⟨e, he, htuple⟩ := List.mem_flatMap.mp hmem
  rw [getParentChildDividendsDistribution_zero (h e he) htuple, Nat.zero_mul]

/-- What is divided in proportion to shares is not exceeded. -/
theorem sumBy_divideInProportion_le (pending : U64) {shares : StorageMap A U96F32}
    (h : shares.sumBy (fun _ share => share.bits) < 2 ^ 128) :
    (divideInProportion pending shares).sumBy (fun _ dividend => dividend.bits / 2 ^ 32) ≤
        pending.val ∧
      (shares.sumBy (fun _ share => share.bits) = 0 →
        (divideInProportion pending shares).sumBy (fun _ dividend => dividend.bits / 2 ^ 32) =
          0) := by
  have htotal : (shares.entries.foldl (fun total e => total.satAdd e.2) (0 : U96F32)).bits =
      shares.sumBy (fun _ share => share.bits) := by
    rw [UFixed.bits_foldl_satAdd (fun e : Sigma fun _ : A => U96F32 => e.2), UFixed.bits_zero,
      Nat.zero_add]
    exact min_eq_left (Nat.le_pred_of_lt h)
  have hle : (divideInProportion pending shares).sumBy (fun _ dividend => dividend.bits / 2 ^ 32) ≤
      shares.sumBy fun _ share =>
        pending.val * share.bits / shares.sumBy (fun _ share => share.bits) := by
    unfold divideInProportion
    rw [StorageMap.sumBy_mapValues, ← htotal]
    exact StorageMap.sumBy_le_sumBy fun _ share _ => UFixed.satMul_checkedDiv_le _ share _
  constructor
  · exact hle.trans (sum_div_le (fun e : Sigma fun _ : A => U96F32 => e.2.bits) pending.val _ _
      (le_refl _))
  · intro hzero
    rw [hzero] at hle
    apply Nat.le_zero.mp
    refine hle.trans ?_
    simp [StorageMap.sumBy]

/-! ## Payments -/

variable {amount cut incentive : U64}

omit [DecidableEq A] in
/-- Payments add no more than what they cost. -/
theorem payAll_totalAlpha_le {V : Type} {pay : Chain A B P → A → V → Chain A B P}
    {m : StorageMap A V} (cost : A → V → ℕ)
    (hpays : ∀ c hotkey v, PaysStake c (pay c hotkey v))
    (h : ∀ c, PaysStake chain c → ∀ hotkey v,
      (pay c hotkey v).totalAlpha netuid ≤ c.totalAlpha netuid + cost hotkey v) :
    (payAll pay chain m).totalAlpha netuid ≤ chain.totalAlpha netuid + m.sumBy cost := by
  have hfold : ∀ (l : List (Sigma fun _ : A => V)) (c : Chain A B P), PaysStake chain c →
      (l.foldl (fun chain e => pay chain e.1 e.2) c).totalAlpha netuid ≤
        c.totalAlpha netuid + (l.map fun e => cost e.1 e.2).sum := by
    intro l
    induction l with
    | nil => exact fun c _ => le_refl _
    | cons e l ih =>
        intro c hc
        have hfirst := h c hc e.1 e.2
        have hrest := ih (pay c e.1 e.2) (hc.trans (hpays c e.1 e.2))
        rw [List.foldl_cons, List.map_cons, List.sum_cons]
        omega
  exact hfold m.entries chain (.refl chain)

theorem payAll_addsAlpha {V : Type} {pay : Chain A B P → A → V → Chain A B P}
    {m : StorageMap A V} (cost : A → V → ℕ)
    (hpays : ∀ c hotkey v, PaysStake c (pay c hotkey v))
    (h : ∀ c, PaysStake chain c → ∀ hotkey v, m.lookup hotkey = some v →
      AddsAlpha netuid c (pay c hotkey v) (cost hotkey v)) :
    AddsAlpha netuid chain (payAll pay chain m) (m.sumBy cost : ℕ) := by
  have hfold : ∀ (l : List (Sigma fun _ : A => V)) (c : Chain A B P), PaysStake chain c →
      (∀ e ∈ l, m.lookup e.1 = some e.2) →
      AddsAlpha netuid c (l.foldl (fun chain e => pay chain e.1 e.2) c)
        ((l.map fun e => cost e.1 e.2).sum : ℕ) := by
    intro l
    induction l with
    | nil => exact fun c _ _ => addsAlpha_of_eq rfl id
    | cons e l ih =>
        intro c hc hmem
        have hfirst := h c hc e.1 e.2 (hmem e List.mem_cons_self)
        have hrest := ih (pay c e.1 e.2) (hc.trans (hpays c e.1 e.2))
          fun e' he' => hmem e' (List.mem_cons_of_mem e he')
        rw [List.map_cons, List.sum_cons, Nat.cast_add]
        exact hfirst.trans hrest
  exact hfold m.entries chain (.refl chain) fun e he => StorageMap.mem_entries_iff.mp he

theorem payOwnerCut_totalAlpha_le :
    (payOwnerCut netuid chain cut).totalAlpha netuid ≤ chain.totalAlpha netuid + cut.val := by
  unfold payOwnerCut
  cases (chain.subnets netuid).subnetOwner with
  | none => exact Nat.le_add_right _ _
  | some ownerColdkey =>
      cases (chain.subnets netuid).subnetOwnerHotkey with
      | none => exact Nat.le_add_right _ _
      | some ownerHotkey => exact increaseStake_totalAlpha_le

theorem payIncentive_totalAlpha_le (chain : Chain A B P) (hotkey : A) (incentive : U64) :
    (payIncentive rt netuid chain hotkey incentive).totalAlpha netuid ≤
      chain.totalAlpha netuid +
        incentivePaid (chain.subnets netuid).subnetOwnerHotkey hotkey incentive := by
  unfold payIncentive incentivePaid
  split_ifs
  · exact Nat.le_add_right _ _
  · exact increaseStake_totalAlpha_le

theorem payIncentive_addsAlpha (chain : Chain A B P) (hotkey : A) (incentive : U64) :
    AddsAlpha netuid chain (payIncentive rt netuid chain hotkey incentive)
      (incentivePaid (chain.subnets netuid).subnetOwnerHotkey hotkey incentive) := by
  unfold payIncentive incentivePaid
  split_ifs
  · exact addsAlpha_of_eq rfl id
  · exact increaseStake_addsAlpha

omit [DecidableEq A] in
theorem getHotkeyTakeFloat_le (hotkey : A) : (chain.getHotkeyTakeFloat rt hotkey).bits ≤ 2 ^ 32 := by
  have htake := (chain.getHotkeyTake rt hotkey).isLt
  have hwhole : (UFixed.ofNat (2 ^ 16 - 1) : U96F32).bits = (2 ^ 16 - 1) * 2 ^ 32 :=
    UFixed.bits_ofNat_of_lt (by norm_num)
  refine (UFixed.bits_safeDiv_le _ _).trans ?_
  rw [UFixed.bits_ofNat_of_lt (by omega), hwhole]
  exact Nat.div_le_of_le_mul (by omega)

omit [DecidableEq A] in
/-- The take and the rest are at most the dividend. -/
theorem take_add_rest_le (rt : Runtime A B P) (chain : Chain A B P) (hotkey : A)
    (alphaDivs : U96F32) :
    (((chain.getHotkeyTakeFloat rt hotkey).satMul alphaDivs).toWord 64).val +
        ((alphaDivs.satSub ((chain.getHotkeyTakeFloat rt hotkey).satMul alphaDivs)).toWord 64).val ≤
      alphaDivs.bits / 2 ^ 32 := by
  have htake : ((chain.getHotkeyTakeFloat rt hotkey).satMul alphaDivs).bits ≤ alphaDivs.bits := by
    refine (UFixed.bits_sat_le _).trans (Nat.div_le_of_le_mul ?_)
    exact Nat.mul_le_mul_right _ (getHotkeyTakeFloat_le hotkey)
  generalize (chain.getHotkeyTakeFloat rt hotkey).satMul alphaDivs = take at htake ⊢
  have hfirst : (take.toWord 64).val ≤ take.bits / 2 ^ 32 := Word.val_sat_le _
  have hsecond : ((alphaDivs.satSub take).toWord 64).val ≤ (alphaDivs.satSub take).bits / 2 ^ 32 :=
    Word.val_sat_le _
  rw [UFixed.bits_satSub] at hsecond
  omega

theorem payAlphaDividend_totalAlpha_le (chain : Chain A B P) (hotkey : A) (alphaDivs : U96F32) :
    (payAlphaDividend rt netuid chain hotkey alphaDivs).totalAlpha netuid ≤
      chain.totalAlpha netuid + alphaDivs.bits / 2 ^ 32 := by
  have hle := take_add_rest_le rt chain hotkey alphaDivs
  unfold payAlphaDividend
  simp only
  generalize ((chain.getHotkeyTakeFloat rt hotkey).satMul alphaDivs).toWord 64 = take at hle ⊢
  generalize (alphaDivs.satSub ((chain.getHotkeyTakeFloat rt hotkey).satMul alphaDivs)).toWord 64 =
    rest at hle ⊢
  have hfirst : (chain.increaseStakeForHotkeyAndColdkeyOnSubnet hotkey
      (chain.getOwningColdkeyForHotkey rt hotkey) netuid take).1.totalAlpha netuid ≤
        chain.totalAlpha netuid + take.val := increaseStake_totalAlpha_le
  generalize (chain.increaseStakeForHotkeyAndColdkeyOnSubnet hotkey
    (chain.getOwningColdkeyForHotkey rt hotkey) netuid take).1 = chain₁ at hfirst ⊢
  have hsecond : (chain₁.increaseStakeForHotkeyOnSubnet hotkey netuid rest).totalAlpha netuid ≤
      chain₁.totalAlpha netuid + rest.val := increaseStakeForHotkey_totalAlpha_le
  omega

theorem payAlphaDividend_addsAlpha_zero {alphaDivs : U96F32} (h : alphaDivs.bits / 2 ^ 32 = 0) :
    AddsAlpha netuid chain (payAlphaDividend rt netuid chain hotkey alphaDivs) 0 := by
  have hle := take_add_rest_le rt chain hotkey alphaDivs
  unfold payAlphaDividend
  simp only
  generalize ((chain.getHotkeyTakeFloat rt hotkey).satMul alphaDivs).toWord 64 = take at hle ⊢
  generalize (alphaDivs.satSub ((chain.getHotkeyTakeFloat rt hotkey).satMul alphaDivs)).toWord 64 =
    rest at hle ⊢
  have hfirst : AddsAlpha netuid chain (chain.increaseStakeForHotkeyAndColdkeyOnSubnet hotkey
      (chain.getOwningColdkeyForHotkey rt hotkey) netuid take).1 take.val :=
    increaseStake_addsAlpha
  generalize (chain.increaseStakeForHotkeyAndColdkeyOnSubnet hotkey
    (chain.getOwningColdkeyForHotkey rt hotkey) netuid take).1 = chain₁ at hfirst ⊢
  have hsecond : AddsAlpha netuid chain₁
      (chain₁.increaseStakeForHotkeyOnSubnet hotkey netuid rest) rest.val :=
    increaseStakeForHotkey_addsAlpha
  have hboth := hfirst.trans hsecond
  have hzero : (take.val : ℤ) + rest.val = 0 := by omega
  rw [hzero] at hboth
  exact hboth

theorem payRootDividend_totalAlpha {rootTao : U96F32} (hnetuid : netuid ≠ .ROOT) :
    (payRootDividend rt chain hotkey rootTao).totalAlpha netuid = chain.totalAlpha netuid := by
  unfold payRootDividend
  simp only
  generalize ((chain.getHotkeyTakeFloat rt hotkey).satMul rootTao).toWord 64 = take
  generalize (rootTao.satSub ((chain.getHotkeyTakeFloat rt hotkey).satMul rootTao)).toWord 64 = rest
  have hfirst : Touches .ROOT chain (chain.increaseStakeForHotkeyAndColdkeyOnSubnet hotkey
      (chain.getOwningColdkeyForHotkey rt hotkey) .ROOT take).1 := increaseStake_touches
  rcases hinc : chain.increaseStakeForHotkeyAndColdkeyOnSubnet hotkey
    (chain.getOwningColdkeyForHotkey rt hotkey) .ROOT take with ⟨chain₁, validatorStake⟩
  rw [hinc] at hfirst
  have hsecond : Touches .ROOT chain₁ (chain₁.increaseStakeForHotkeyOnSubnet hotkey .ROOT rest) :=
    increaseStakeForHotkey_touches
  have hreserve : ∀ c : Chain A B P, (c.addRootTao validatorStake rest).totalAlpha netuid =
      c.totalAlpha netuid := by
    intro c
    simp only [totalAlpha, addRootTao, withLedger, withReserves]
  exact (hreserve _).trans ((hfirst.trans hsecond).totalAlpha hnetuid)

/-! ## The drain -/

section

variable {pendingAlpha pendingTao pendingSwapped : U64} {hotkeyEmission : HotkeyEmission A}

/-- What of the dividends goes to stakes in alpha: all but the part of the root stake. -/
def alphaShares (rt : Runtime A B P) (chain : Chain A B P) (netuid : NetUid)
    (hotkeyEmission : HotkeyEmission A) : StorageMap A U96F32 :=
  (chain.calculateDividends rt netuid hotkeyEmission).mapValues fun hotkey dividend =>
    dividend.satSub (chain.rootDivs netuid hotkey dividend)

/-- No dividend goes to a stake in alpha. -/
def NoAlphaShares (rt : Runtime A B P) (chain : Chain A B P) (netuid : NetUid)
    (hotkeyEmission : HotkeyEmission A) : Prop :=
  (alphaShares rt chain netuid hotkeyEmission).sumBy (fun _ share => share.bits) = 0

instance (rt : Runtime A B P) (chain : Chain A B P) (netuid : NetUid)
    (hotkeyEmission : HotkeyEmission A) :
    Decidable (NoAlphaShares rt chain netuid hotkeyEmission) :=
  inferInstanceAs (Decidable (_ = 0))

/-- The dividends in alpha that the drain pays. -/
def alphaDividends (rt : Runtime A B P) (chain : Chain A B P) (netuid : NetUid)
    (pendingValidatorAlpha : U64) (hotkeyEmission : HotkeyEmission A) : StorageMap A U96F32 :=
  divideInProportion pendingValidatorAlpha (alphaShares rt chain netuid hotkeyEmission)

theorem sumBy_alphaShares_le :
    (alphaShares rt chain netuid hotkeyEmission).sumBy (fun _ share => share.bits) ≤
      (chain.calculateDividends rt netuid hotkeyEmission).sumBy
        (fun _ dividend => dividend.bits) := by
  unfold alphaShares
  rw [StorageMap.sumBy_mapValues]
  exact StorageMap.sumBy_le_sumBy fun hotkey dividend _ => Nat.sub_le _ _

/-- The validators get no more than what is there for them, and nothing when no
dividend goes to a stake in alpha. -/
theorem sumBy_alphaDividends_le (validatorAlpha : U64)
    (h : chain.dividendShares netuid hotkeyEmission < 2 ^ 32) :
    (alphaDividends rt chain netuid validatorAlpha hotkeyEmission).sumBy
        (fun _ dividend => dividend.bits / 2 ^ 32) ≤ validatorAlpha.val := by
  have hdividends : (chain.calculateDividends rt netuid hotkeyEmission).sumBy
      (fun _ dividend => dividend.bits) < 2 ^ 128 := sumBy_calculateDividends_lt h
  exact (sumBy_divideInProportion_le validatorAlpha
    (lt_of_le_of_lt sumBy_alphaShares_le hdividends)).1

theorem sumBy_alphaDividends_zero (validatorAlpha : U64)
    (h : NoAlphaShares rt chain netuid hotkeyEmission) :
    (alphaDividends rt chain netuid validatorAlpha hotkeyEmission).sumBy
        (fun _ dividend => dividend.bits / 2 ^ 32) = 0 := by
  have hlt : (alphaShares rt chain netuid hotkeyEmission).sumBy (fun _ share => share.bits) <
      2 ^ 128 := by
    rw [h]
    norm_num
  exact (sumBy_divideInProportion_le validatorAlpha hlt).2 h

/-- Without dividends none goes to a stake in alpha. -/
theorem noAlphaShares_of_zero (h : ∀ e ∈ hotkeyEmission, e.2.2.val = 0) :
    NoAlphaShares rt chain netuid hotkeyEmission := by
  have hdividends : (chain.calculateDividends rt netuid hotkeyEmission).sumBy
      (fun _ dividend => dividend.bits) = 0 := sumBy_calculateDividends_zero h
  exact Nat.le_zero.mp (hdividends ▸ sumBy_alphaShares_le)

theorem drainPendingEmission_eq (rt : Runtime A B P) (chain : Chain A B P) (netuid : NetUid)
    (pendingAlpha pendingTao pendingSwapped cut : U64) (hotkeyEmission : HotkeyEmission A) :
    ∃ taoDividends, chain.drainPendingEmission rt netuid pendingAlpha pendingTao pendingSwapped cut
        hotkeyEmission =
      payAll (payRootDividend rt) (payAll (payAlphaDividend rt netuid)
        (payAll (payIncentive rt netuid) (payOwnerCut netuid chain cut)
          (calculateIncentives hotkeyEmission))
        (alphaDividends rt chain netuid
          (pendingValidatorAlpha pendingAlpha pendingSwapped hotkeyEmission) hotkeyEmission))
        taoDividends :=
  ⟨_, rfl⟩

/-- What the validators may get: nothing, if no dividend goes to a stake in alpha. -/
def validatorAlphaPaid (rt : Runtime A B P) (chain : Chain A B P) (netuid : NetUid)
    (pendingAlpha pendingSwapped : U64) (hotkeyEmission : HotkeyEmission A) : ℕ :=
  if NoAlphaShares rt chain netuid hotkeyEmission then 0
  else (pendingValidatorAlpha pendingAlpha pendingSwapped hotkeyEmission).val

theorem payAll_payRootDividend_totalAlpha {m : StorageMap A U96F32} (hnetuid : netuid ≠ .ROOT) :
    (payAll (payRootDividend rt) chain m).totalAlpha netuid = chain.totalAlpha netuid := by
  unfold payAll
  exact foldl_keeps (fun c : Chain A B P => c.totalAlpha netuid)
    (fun _ _ => payRootDividend_totalAlpha hnetuid) _ _

theorem drainPendingEmission_totalAlpha_le (hnetuid : netuid ≠ .ROOT)
    (hshares : chain.dividendShares netuid hotkeyEmission < 2 ^ 32) (cut : U64) :
    (chain.drainPendingEmission rt netuid pendingAlpha pendingTao pendingSwapped cut
        hotkeyEmission).totalAlpha netuid ≤
      chain.totalAlpha netuid + cut.val +
        paidIncentives (chain.subnets netuid).subnetOwnerHotkey hotkeyEmission +
        validatorAlphaPaid rt chain netuid pendingAlpha pendingSwapped hotkeyEmission := by
  obtain ⟨taoDividends, heq⟩ := drainPendingEmission_eq rt chain netuid pendingAlpha pendingTao
    pendingSwapped cut hotkeyEmission
  rw [heq, payAll_payRootDividend_totalAlpha hnetuid]
  have howner : (payOwnerCut netuid chain cut).totalAlpha netuid ≤
      chain.totalAlpha netuid + cut.val := payOwnerCut_totalAlpha_le
  have hsubnets : (payOwnerCut netuid chain cut).subnets = chain.subnets := payOwnerCut_pays.subnets
  generalize payOwnerCut netuid chain cut = paid at howner hsubnets ⊢
  have hincentives : (payAll (payIncentive rt netuid) paid
      (calculateIncentives hotkeyEmission)).totalAlpha netuid ≤ paid.totalAlpha netuid +
        (calculateIncentives hotkeyEmission).sumBy
          (incentivePaid (chain.subnets netuid).subnetOwnerHotkey) := by
    apply payAll_totalAlpha_le _ fun _ _ _ => payIncentive_pays
    intro c hc hotkey incentive
    rw [← hsubnets, ← hc.subnets]
    exact payIncentive_totalAlpha_le c hotkey incentive
  generalize payAll (payIncentive rt netuid) paid (calculateIncentives hotkeyEmission) = mined
    at hincentives ⊢
  have hdividends : (payAll (payAlphaDividend rt netuid) mined (alphaDividends rt chain netuid
      (pendingValidatorAlpha pendingAlpha pendingSwapped hotkeyEmission)
      hotkeyEmission)).totalAlpha netuid ≤ mined.totalAlpha netuid +
        validatorAlphaPaid rt chain netuid pendingAlpha pendingSwapped hotkeyEmission := by
    refine (payAll_totalAlpha_le (fun _ dividend => dividend.bits / 2 ^ 32)
      (fun _ _ _ => payAlphaDividend_pays)
      fun c _ hotkey dividend => payAlphaDividend_totalAlpha_le c hotkey dividend).trans ?_
    apply Nat.add_le_add_left
    unfold validatorAlphaPaid
    -- with alpha shares the rounded dividends add up to no more than what is shared
    split_ifs with hzero
    · exact (sumBy_alphaDividends_zero _ hzero).le
    · exact sumBy_alphaDividends_le _ hshares
  have hpaid := sumBy_foldl_incentives_le (chain.subnets netuid).subnetOwnerHotkey hotkeyEmission ∅
  rw [StorageMap.sumBy_empty, Nat.zero_add] at hpaid
  have hpaid : (calculateIncentives hotkeyEmission).sumBy
      (incentivePaid (chain.subnets netuid).subnetOwnerHotkey) ≤ _ := hpaid
  omega

/-- When no dividend goes to a stake in alpha the drain adds the owner cut and the
incentives. -/
theorem drainPendingEmission_addsAlpha (hnetuid : netuid ≠ .ROOT)
    (hzero : NoAlphaShares rt chain netuid hotkeyEmission)
    (hfits : paidIncentives none hotkeyEmission < 2 ^ 64) {ownerColdkey ownerHotkey : A}
    (hcoldkey : (chain.subnets netuid).subnetOwner = some ownerColdkey)
    (hhotkey : (chain.subnets netuid).subnetOwnerHotkey = some ownerHotkey) (cut : U64) :
    AddsAlpha netuid chain (chain.drainPendingEmission rt netuid pendingAlpha pendingTao
      pendingSwapped cut hotkeyEmission)
      (cut.val + paidIncentives (chain.subnets netuid).subnetOwnerHotkey hotkeyEmission) := by
  obtain ⟨taoDividends, heq⟩ := drainPendingEmission_eq rt chain netuid pendingAlpha pendingTao
    pendingSwapped cut hotkeyEmission
  rw [heq]
  have howner : AddsAlpha netuid chain (payOwnerCut netuid chain cut) cut.val := by
    unfold payOwnerCut
    simp only [hcoldkey, hhotkey]
    exact increaseStake_addsAlpha
  have hsubnets : (payOwnerCut netuid chain cut).subnets = chain.subnets := payOwnerCut_pays.subnets
  generalize payOwnerCut netuid chain cut = paid at howner hsubnets ⊢
  have hincentives : AddsAlpha netuid paid (payAll (payIncentive rt netuid) paid
      (calculateIncentives hotkeyEmission)) ((calculateIncentives hotkeyEmission).sumBy
        (incentivePaid (chain.subnets netuid).subnetOwnerHotkey) : ℕ) := by
    apply payAll_addsAlpha _ fun _ _ _ => payIncentive_pays
    intro c hc hotkey incentive _
    rw [← hsubnets, ← hc.subnets]
    exact payIncentive_addsAlpha c hotkey incentive
  have hpaid := sumBy_foldl_incentives hotkeyEmission ∅
    (by rw [StorageMap.sumBy_empty, Nat.zero_add]; exact hfits)
    (chain.subnets netuid).subnetOwnerHotkey
  rw [StorageMap.sumBy_empty, Nat.zero_add] at hpaid
  have hpaid : (calculateIncentives hotkeyEmission).sumBy
      (incentivePaid (chain.subnets netuid).subnetOwnerHotkey) = _ := hpaid
  rw [hpaid] at hincentives
  generalize payAll (payIncentive rt netuid) paid (calculateIncentives hotkeyEmission) = mined
    at hincentives ⊢
  -- every dividend in alpha is below one unit
  have hnone : (alphaDividends rt chain netuid (pendingValidatorAlpha pendingAlpha pendingSwapped
      hotkeyEmission) hotkeyEmission).sumBy (fun _ dividend => dividend.bits / 2 ^ 32) = 0 :=
    sumBy_alphaDividends_zero _ hzero
  generalize alphaDividends rt chain netuid
    (pendingValidatorAlpha pendingAlpha pendingSwapped hotkeyEmission) hotkeyEmission = dividends
    at hnone ⊢
  have hdividends : AddsAlpha netuid mined (payAll (payAlphaDividend rt netuid) mined dividends)
      (dividends.sumBy fun _ dividend => dividend.bits / 2 ^ 32 : ℕ) := by
    apply payAll_addsAlpha _ fun _ _ _ => payAlphaDividend_pays
    intro c _ hotkey dividend hlookup
    have hle := StorageMap.le_sumBy (fun (_ : A) (dividend : U96F32) => dividend.bits / 2 ^ 32) hlookup
    rw [hnone] at hle
    rw [Nat.le_zero.mp hle]
    exact payAlphaDividend_addsAlpha_zero (Nat.le_zero.mp hle)
  rw [hnone] at hdividends
  have hroot : AddsAlpha netuid (payAll (payAlphaDividend rt netuid) mined dividends)
      (payAll (payRootDividend rt) (payAll (payAlphaDividend rt netuid) mined dividends)
        taoDividends) 0 :=
    addsAlpha_of_eq (payAll_payRootDividend_totalAlpha hnetuid)
      (payAll_pays fun _ _ _ => payRootDividend_pays).overflowed
  have hall := ((howner.trans hincentives).trans hdividends).trans hroot
  rw [Nat.cast_zero, add_zero, add_zero] at hall
  exact hall

/-- **Draining.** The alpha of the subnet rises by at most the pending alpha
and the owner cut, when the incentives that are paid and the alpha that is
there for the validators do not exceed the pending alpha; the latter counts only if
some dividend goes to a stake in alpha. If none does, as in an epoch without dividends,
the bound holds exactly when the incentives do not exceed the pending alpha. -/
theorem drainPendingEmission_mints_iff (hnetuid : netuid ≠ .ROOT) (cut : U64) :
    (chain.dividendShares netuid hotkeyEmission < 2 ^ 32 →
      paidIncentives (chain.subnets netuid).subnetOwnerHotkey hotkeyEmission +
          validatorAlphaPaid rt chain netuid pendingAlpha pendingSwapped hotkeyEmission ≤
            pendingAlpha.val →
        (chain.drainPendingEmission rt netuid pendingAlpha pendingTao pendingSwapped cut
          hotkeyEmission).totalAlpha netuid ≤
            chain.totalAlpha netuid + pendingAlpha.val + cut.val) ∧
      (NoAlphaShares rt chain netuid hotkeyEmission →
        paidIncentives none hotkeyEmission < 2 ^ 64 →
        (chain.subnets netuid).subnetOwner.isSome →
        (chain.subnets netuid).subnetOwnerHotkey.isSome →
        (chain.drainPendingEmission rt netuid pendingAlpha pendingTao pendingSwapped cut
          hotkeyEmission).ledger.overflowed = false →
          ((chain.drainPendingEmission rt netuid pendingAlpha pendingTao pendingSwapped cut
              hotkeyEmission).totalAlpha netuid ≤
                chain.totalAlpha netuid + pendingAlpha.val + cut.val ↔
            paidIncentives (chain.subnets netuid).subnetOwnerHotkey hotkeyEmission ≤
              pendingAlpha.val)) ∧
      ((∀ e ∈ hotkeyEmission, e.2.2.val = 0) →
        NoAlphaShares rt chain netuid hotkeyEmission) := by
  refine ⟨?_, ?_, noAlphaShares_of_zero⟩
  · intro hshares hle
    refine (drainPendingEmission_totalAlpha_le hnetuid hshares cut).trans ?_
    omega
  · intro hzero hfits hcoldkey hhotkey hok
    obtain ⟨ownerColdkey, hcoldkey⟩ := Option.isSome_iff_exists.mp hcoldkey
    obtain ⟨ownerHotkey, hhotkey⟩ := Option.isSome_iff_exists.mp hhotkey
    obtain ⟨-, htotal⟩ := drainPendingEmission_addsAlpha hnetuid hzero hfits hcoldkey hhotkey cut hok
    omega

end

/-! ## Incentives only -/

/-- Scores of the hotkeys `2`, which mines, and `3`, which validates. -/
def minerScores (dividend : I32F32) : EpochScores ℕ where
  hotkeys := [2, 3]
  incentive := [.ofInt 1, 0]
  dividends := [0, dividend]
  stake := [0, 0]
  activeStake := [0, 0]

/-- When the validator has a dividend, the drain is within the pending alpha. -/
theorem drainPendingEmission_mints_iff_smallChain :
    (.sat 1 : NetUid) ≠ NetUid.ROOT ∧
      (smallChain.drainPendingEmission runtime (.sat 1) (.sat 1000) 0 (.sat 100) (.sat 10)
        ((minerScores (.ofInt 1)).emission (.sat 1100))).totalAlpha (.sat 1) ≤
          smallChain.totalAlpha (.sat 1) + (.sat 1000 : U64).val + (.sat 10 : U64).val := by
  have hnetuid : (.sat 1 : NetUid) ≠ NetUid.ROOT := by decide
  refine ⟨hnetuid, (drainPendingEmission_mints_iff hnetuid (.sat 10)).1 ?_ ?_⟩
  · decide +kernel
  · decide +kernel

/-- Without a dividend the miner gets what the epoch was run on: also the
alpha that was sold before. -/
theorem drainPendingEmission_mints_swapped :
    (smallChain.drainPendingEmission runtime (.sat 1) (.sat 1000) 0 (.sat 100) (.sat 10)
        ((minerScores 0).emission (.sat 1100))).totalAlpha (.sat 1) =
      smallChain.totalAlpha (.sat 1) + 1110 ∧
      smallChain.totalAlpha (.sat 1) + (.sat 1000 : U64).val + (.sat 10 : U64).val <
        smallChain.totalAlpha (.sat 1) + 1110 := by
  decide +kernel

end Chain

end Subtensor
