import Subtensor.Emission.Issuance
import Subtensor.Staking.TotalAlpha
import Subtensor.Staking.Transition

/-!
# The reserve of root

The emission of a subnet is split by the TAO on root, which is read from
`SubnetTAO(ROOT)`. Paying root dividends adds to it what is staked on root.
The staking calls do not: root is stable, so the swap wrappers leave its
reserve alone while the stake changes.
-/

namespace Subtensor.Chain

open Lib

variable {A B P : Type}

/-! ## Drift -/

/-- `SubnetTAO(ROOT)` is the stake of all hotkeys on root. -/
def RootTracks (chain : Chain A B P) : Prop :=
  (chain.reserves .ROOT).subnetTAO.val = chain.totalAlpha .ROOT

/-- How far the stake on root is above the reserve. -/
def rootDrift (chain : Chain A B P) : ℤ :=
  chain.totalAlpha .ROOT - (chain.reserves .ROOT).subnetTAO.val

/-- The drift grows by `δ`, unless something overflowed on the way. -/
def Drifts (chain chain' : Chain A B P) (δ : ℤ) : Prop :=
  chain'.ledger.overflowed = false →
    chain.ledger.overflowed = false ∧ chain'.rootDrift = chain.rootDrift + δ

variable {rt : Runtime A B P} {chain chain₁ chain₂ chain' : Chain A B P} {δ δ' : ℤ}
  {netuid : NetUid}

theorem rootTracks_iff_drift : chain.RootTracks ↔ chain.rootDrift = 0 := by
  unfold RootTracks rootDrift
  omega

namespace Drifts

theorem refl (chain : Chain A B P) : Drifts chain chain 0 := fun hok => ⟨hok, (add_zero _).symm⟩

theorem trans (h₁ : Drifts chain chain₁ δ) (h₂ : Drifts chain₁ chain₂ δ') :
    Drifts chain chain₂ (δ + δ') := by
  intro hok
  obtain ⟨hok₁, heq₂⟩ := h₂ hok
  obtain ⟨hok₀, heq₁⟩ := h₁ hok₁
  exact ⟨hok₀, by rw [heq₂, heq₁, add_assoc]⟩

theorem then_none (h₁ : Drifts chain chain₁ δ) (h₂ : Drifts chain₁ chain₂ 0) :
    Drifts chain chain₂ δ := by
  have h := h₁.trans h₂
  rwa [add_zero] at h

theorem none_then (h₁ : Drifts chain chain₁ 0) (h₂ : Drifts chain₁ chain₂ δ) :
    Drifts chain chain₂ δ := by
  have h := h₁.trans h₂
  rwa [zero_add] at h

end Drifts

theorem AddsAlpha.drifts (h : AddsAlpha .ROOT chain chain' δ)
    (hreserves : chain'.reserves .ROOT = chain.reserves .ROOT) : Drifts chain chain' δ := by
  intro hok
  obtain ⟨hok', heq⟩ := h hok
  refine ⟨hok', ?_⟩
  unfold rootDrift
  rw [heq, hreserves]
  ring

/-- An operation that leaves stake and reserve of root alone. -/
theorem drifts_of_eq (hstakes : chain'.totalAlpha .ROOT = chain.totalAlpha .ROOT)
    (hreserves : chain'.reserves .ROOT = chain.reserves .ROOT)
    (hoverflow : chain'.ledger.overflowed = false → chain.ledger.overflowed = false) :
    Drifts chain chain' 0 :=
  (addsAlpha_of_eq hstakes hoverflow).drifts hreserves

variable [DecidableEq A]

theorem Touches.drifts (h : Touches netuid chain chain') (hnetuid : netuid ≠ .ROOT)
    (hoverflow : chain'.ledger.overflowed = false → chain.ledger.overflowed = false) :
    Drifts chain chain' 0 :=
  drifts_of_eq (h.totalAlpha hnetuid.symm) (h.reserves .ROOT hnetuid.symm) hoverflow

/-! ## Payments -/

variable {hotkey coldkey : A} {amount : U64}

theorem payOwnerCut_touches {cut : U64} : Touches netuid chain (payOwnerCut netuid chain cut) := by
  unfold payOwnerCut
  cases (chain.subnets netuid).subnetOwner with
  | none => exact .refl netuid chain
  | some ownerColdkey =>
      cases (chain.subnets netuid).subnetOwnerHotkey with
      | none => exact .refl netuid chain
      | some ownerHotkey => exact increaseStake_touches

theorem payIncentive_touches {incentive : U64} :
    Touches netuid chain (payIncentive rt netuid chain hotkey incentive) := by
  unfold payIncentive
  split_ifs
  · exact .refl netuid chain
  · exact increaseStake_touches

theorem payAlphaDividend_touches {alphaDivs : U96F32} :
    Touches netuid chain (payAlphaDividend rt netuid chain hotkey alphaDivs) :=
  increaseStake_touches.trans increaseStakeForHotkey_touches

omit [DecidableEq A] in
theorem addRootTao_ok {validatorStake nominatorStake : U64}
    (hok : (chain.addRootTao validatorStake nominatorStake).ledger.overflowed = false) :
    chain.ledger.overflowed = false ∧
      ((chain.addRootTao validatorStake nominatorStake).reserves .ROOT).subnetTAO.val =
        (chain.reserves .ROOT).subnetTAO.val + validatorStake.val + nominatorStake.val := by
  simp only [addRootTao, withLedger, withReserves, Ledger.note, Bool.or_eq_false_iff,
    decide_eq_false_iff_not, not_le] at hok
  obtain ⟨hok', hfits⟩ := hok
  refine ⟨hok', ?_⟩
  simp only [addRootTao, withLedger, withReserves, Function.update_self]
  have hfirst : ((chain.reserves .ROOT).subnetTAO.satAdd validatorStake).val =
      (chain.reserves .ROOT).subnetTAO.val + validatorStake.val :=
    Word.val_satAdd_of_lt (by omega)
  rw [Word.val_satAdd_of_lt (by rw [hfirst]; exact hfits), hfirst]

/-- What is staked on root as a dividend is added to the reserve. -/
theorem payRootDividend_drifts {rootTao : U96F32} :
    Drifts chain (payRootDividend rt chain hotkey rootTao) 0 := by
  unfold payRootDividend
  simp only
  generalize ((chain.getHotkeyTakeFloat rt hotkey).satMul rootTao).toWord 64 = take
  generalize (rootTao.satSub ((chain.getHotkeyTakeFloat rt hotkey).satMul rootTao)).toWord 64 = rest
  rcases hinc : chain.increaseStakeForHotkeyAndColdkeyOnSubnet hotkey
    (chain.getOwningColdkeyForHotkey rt hotkey) .ROOT take with ⟨chain₁, validatorStake⟩
  obtain ⟨hreserves, hvalidator, hadded⟩ := increaseStake_ok hinc
  have hnominators : AddsAlpha .ROOT chain₁ (chain₁.increaseStakeForHotkeyOnSubnet hotkey .ROOT rest)
      rest.val := increaseStakeForHotkey_addsAlpha
  have hreserves₂ : (chain₁.increaseStakeForHotkeyOnSubnet hotkey .ROOT rest).reserves =
      chain.reserves := hreserves
  generalize chain₁.increaseStakeForHotkeyOnSubnet hotkey .ROOT rest = chain₂ at *
  intro hok
  obtain ⟨hok₂, hreserve⟩ := addRootTao_ok hok
  obtain ⟨hok₁, htotal₂⟩ := hnominators hok₂
  obtain ⟨hok₀, htotal₁⟩ := hvalidator hok₁
  have htotal : (chain₂.addRootTao validatorStake rest).totalAlpha .ROOT =
      chain₂.totalAlpha .ROOT := by
    simp only [totalAlpha, addRootTao, withLedger, withReserves]
  refine ⟨hok₀, ?_⟩
  unfold rootDrift
  rw [htotal, hreserve, hreserves₂, hadded hok₁, htotal₂, htotal₁]
  push_cast
  ring


/-! ## Blocks -/

variable {epoch : Epoch A B P} {terms : NetUid → EmissionTerms}

omit [DecidableEq A] in
theorem payAll_drifts {V : Type} {pay : Chain A B P → A → V → Chain A B P} {m : StorageMap A V}
    (h : ∀ chain hotkey v, Drifts chain (pay chain hotkey v) 0) :
    Drifts chain (payAll pay chain m) 0 := by
  unfold payAll
  refine List.foldlRecOn (motive := fun c => Drifts chain c 0) _ _ (.refl chain) ?_
  intro c hc e _
  exact hc.then_none (h c e.1 e.2)

theorem payIncentive_drifts (hnetuid : netuid ≠ .ROOT) (chain : Chain A B P) (hotkey : A)
    (incentive : U64) : Drifts chain (payIncentive rt netuid chain hotkey incentive) 0 :=
  payIncentive_touches.drifts hnetuid payIncentive_pays.overflowed

theorem payAlphaDividend_drifts (hnetuid : netuid ≠ .ROOT) (chain : Chain A B P) (hotkey : A)
    (alphaDivs : U96F32) : Drifts chain (payAlphaDividend rt netuid chain hotkey alphaDivs) 0 :=
  payAlphaDividend_touches.drifts hnetuid payAlphaDividend_pays.overflowed

/-- A drain keeps the reserve of root with the stake on it. -/
theorem drainPendingEmission_drifts {pendingAlpha pendingTao pendingSwapped cut : U64}
    {hotkeyEmission : HotkeyEmission A} (hnetuid : netuid ≠ .ROOT) :
    Drifts chain (chain.drainPendingEmission rt netuid pendingAlpha pendingTao pendingSwapped cut
      hotkeyEmission) 0 := by
  have howner : Drifts chain (payOwnerCut netuid chain cut) 0 :=
    payOwnerCut_touches.drifts hnetuid payOwnerCut_pays.overflowed
  exact ((howner.then_none (payAll_drifts (payIncentive_drifts hnetuid))).then_none
    (payAll_drifts (payAlphaDividend_drifts hnetuid))).then_none
    (payAll_drifts fun _ _ _ => payRootDividend_drifts)

theorem drainIfDue_drifts (hnetuid : netuid ≠ .ROOT) :
    Drifts chain (drainIfDue rt epoch chain netuid) 0 := by
  unfold drainIfDue
  split_ifs
  · exact Drifts.none_then (drifts_of_eq rfl rfl id) (drainPendingEmission_drifts hnetuid)
  · exact .refl chain

omit [DecidableEq A] in
theorem recordBlockEmission_drifts (issuance : U64) :
    Drifts chain (chain.recordBlockEmission rt issuance) 0 := by
  unfold recordBlockEmission
  split_ifs
  · exact .refl chain
  · cases blockEmissionForIssuance rt.log2 issuance with
    | none => exact .refl chain
    | some emission => exact drifts_of_eq rfl rfl id

omit [DecidableEq A] in
theorem inject_drifts (hnetuid : netuid ≠ .ROOT) :
    Drifts chain (inject rt terms chain netuid) 0 :=
  drifts_of_eq rfl (Function.update_of_ne hnetuid.symm _ _) fun hok => (inject_shifts hok).1

theorem sellRootAlpha_drifts (hnetuid : netuid ≠ .ROOT) :
    Drifts chain (sellRootAlpha rt terms chain netuid) 0 := by
  obtain ⟨alphaOut, alpha, chain₁, -, ⟨e, hsold, heq⟩ | ⟨result, pendingAlpha, hsold, heq⟩⟩ :=
    sellRootAlpha_cases rt terms chain netuid
  · obtain ⟨htouch, hmoves⟩ := swapAlphaForTao_error hsold
    rw [heq]
    exact htouch.drifts hnetuid fun hok => (hmoves hok).1
  · obtain ⟨htouch, hmoves⟩ := swapAlphaForTao_ok hsold
    have hsale := htouch.drifts hnetuid fun hok => (hmoves hok).1
    rw [heq]
    exact hsale.then_none (drifts_of_eq rfl rfl fun hok => (Bool.or_eq_false_iff.mp hok).1)

/-- **Root dividends.** No block makes the reserve of root drift. -/
theorem runCoinbase_drifts {blockEmission : U96F32} :
    Drifts chain (chain.runCoinbase rt epoch blockEmission) 0 := by
  refine runCoinbase_induction (motive := fun c => Drifts chain c 0) blockEmission (.refl chain)
    ?_ ?_ ?_ ?_ ?_ ?_
  · intro c issuance hc
    exact hc.then_none (recordBlockEmission_drifts issuance)
  · intro c terms n hn hc
    exact hc.then_none (inject_drifts hn)
  · intro c terms n hc
    exact hc.then_none (drifts_of_eq rfl rfl id)
  · intro c terms n hn hc
    exact hc.then_none (sellRootAlpha_drifts hn)
  · intro c n hc
    exact hc.then_none (drifts_of_eq rfl rfl id)
  · intro c n hn hc
    exact hc.then_none (drainIfDue_drifts hn)

theorem runCoinbase_keepsTerms {blockEmission : U96F32} :
    KeepsTerms chain (chain.runCoinbase rt epoch blockEmission) := by
  refine runCoinbase_induction (motive := KeepsTerms chain) blockEmission (.refl chain)
    ?_ ?_ ?_ ?_ ?_ ?_
  · intro c issuance hc
    exact hc.trans (recordBlockEmission_keepsWeight issuance).toKeepsTerms
  · intro c terms n hn hc
    exact hc.trans (inject_keepsWeight hn).toKeepsTerms
  · intro c terms n hc
    exact hc.trans (keepsTerms_of_eq rfl rfl)
  · intro c terms n hn hc
    exact hc.trans (sellRootAlpha_keepsWeight hn).toKeepsTerms
  · intro c n hc
    exact hc.trans updateMovingPrice_keepsWeight.toKeepsTerms
  · intro c n _ hc
    exact hc.trans drainIfDue_keepsTerms


/-! ## Staking calls -/

variable {tao alpha priceLimit paid added : U64}

omit [DecidableEq A] in
theorem removeBalance_drifts
    (h : chain.removeBalanceFromColdkeyAccount rt coldkey amount = .ok (chain', paid)) :
    Drifts chain chain' 0 ∧ chain'.isDynamic = chain.isDynamic := by
  obtain ⟨currency, rfl⟩ := removeBalance_frame h
  exact ⟨drifts_of_eq rfl rfl id, rfl⟩

/-- Staking on root raises the stake and not the reserve. -/
theorem stakeIntoSubnet_drifts (hstable : chain.isDynamic .ROOT = false)
    (h : chain.stakeIntoSubnet rt hotkey coldkey netuid tao priceLimit = .ok (chain', added)) :
    Drifts chain chain' (if netuid = .ROOT then tao.val else 0) ∧
      (netuid = .ROOT → 0 < tao.val) := by
  split_ifs with hnetuid
  · subst hnetuid
    obtain ⟨hreserves, hadds, hpos⟩ := stakeIntoSubnet_stable hstable h
    exact ⟨hadds.drifts (congrFun hreserves _), fun _ => hpos⟩
  · obtain ⟨htouch, hmoves⟩ := stakeIntoSubnet_ok h
    exact ⟨htouch.drifts hnetuid fun hok => (hmoves hok).1, fun h => absurd h hnetuid⟩

/-- Unstaking from root lowers the stake and not the reserve. -/
theorem unstakeFromSubnet_drifts (hstable : chain.isDynamic .ROOT = false)
    (h : chain.unstakeFromSubnet rt hotkey coldkey netuid alpha priceLimit = (chain', .ok tao)) :
    Drifts chain chain' (if netuid = .ROOT then -tao.val else 0) ∧
      (netuid = .ROOT → chain'.ledger.overflowed = false →
        chain.hasEnoughStakeOnSubnet hotkey coldkey netuid alpha = true →
          alpha.val ≤ tao.val) := by
  split_ifs with hnetuid
  · subst hnetuid
    obtain ⟨hreserves, hadds, henough⟩ := unstakeFromSubnet_stable hstable h
    exact ⟨hadds.drifts (congrFun hreserves _), fun _ => henough⟩
  · obtain ⟨htouch, hmoves⟩ := unstakeFromSubnet_ok h
    exact ⟨htouch.drifts hnetuid fun hok => (hmoves hok).1, fun h => absurd h hnetuid⟩

theorem clearSmallNomination_drifts (rt : Runtime A B P) (hotkey coldkey : A) (netuid : NetUid)
    (hstable : chain.isDynamic .ROOT = false) :
    ∃ cleared : ℕ, (netuid ≠ .ROOT → cleared = 0) ∧
      Drifts chain (chain.clearSmallNominationIfRequired rt hotkey coldkey netuid) (-cleared) := by
  by_cases hnetuid : netuid = .ROOT
  · subst hnetuid
    obtain ⟨hreserves, cleared, hadds⟩ := clearSmallNomination_stable hstable
    exact ⟨cleared.val, fun h => absurd rfl h, hadds.drifts (congrFun hreserves _)⟩
  · refine ⟨0, fun _ => rfl, clearSmallNomination_touches.drifts hnetuid ?_⟩
    rcases clearSmallNomination_cases rt chain hotkey coldkey netuid with
      heq | ⟨stake, chain₁, cleared, hunstake, heq⟩ | ⟨stake, rest, chain₁, e, hunstake, heq⟩
    · rw [heq]
      exact id
    · rw [heq]
      exact fun hok => ((unstakeFromSubnet_ok hunstake).2 hok).1
    · rw [heq]
      exact fun hok => (((unstakeFromSubnet_error hunstake).2.none_then decreaseStake_moves) hok).1

theorem dropPendingChildren_drifts : Drifts chain (chain.dropPendingChildren rt hotkey) 0 := by
  unfold dropPendingChildren
  split_ifs
  · exact drifts_of_eq rfl rfl id
  · exact .refl chain

omit [DecidableEq A] in
theorem simSwap_root (hone : OneToOneStable rt) (hstable : chain.isDynamic .ROOT = false)
    {order : Swap.OrderType} : chain.simSwap rt .ROOT order alpha = .ok (oneToOne alpha) :=
  hone _ _ _ _ _ (of_decide_eq_false hstable)


/-! ## Transitions -/

theorem validateStakeTransition_ok {originColdkey destinationColdkey originHotkey
    destinationHotkey : A} {originNetuid destinationNetuid : NetUid} {alphaAmount maxAmount : U64}
    {maybeAllowPartial : Option Bool} {checkTransferToggle : Bool}
    (h : chain.validateStakeTransition rt originColdkey destinationColdkey originHotkey
      destinationHotkey originNetuid destinationNetuid alphaAmount maxAmount maybeAllowPartial
      checkTransferToggle = .ok ()) :
    chain.hasEnoughStakeOnSubnet originHotkey originColdkey originNetuid alphaAmount = true ∧
      ∃ result, chain.simSwap rt originNetuid .sell alphaAmount = .ok result ∧
        rt.defaultMinStake.val < result.amountPaidOut.val := by
  unfold validateStakeTransition at h
  obtain ⟨-, h⟩ := ite_error_eq_ok.mp h
  obtain ⟨-, h⟩ := ite_error_eq_ok.mp h
  obtain ⟨-, h⟩ := ite_error_eq_ok.mp h
  obtain ⟨-, h⟩ := ite_error_eq_ok.mp h
  obtain ⟨-, h⟩ := ite_error_eq_ok.mp h
  obtain ⟨-, h⟩ := ite_error_eq_ok.mp h
  obtain ⟨-, h⟩ := ite_error_eq_ok.mp h
  obtain ⟨henough, h⟩ := ite_error_eq_ok.mp h
  refine ⟨not_not.mp henough, ?_⟩
  cases hsim : chain.simSwap rt originNetuid .sell alphaAmount with
  | error e =>
      rw [hsim] at h
      cases h
  | ok result =>
      rw [hsim] at h
      obtain ⟨hmin, -⟩ := ite_error_eq_ok.mp h
      exact ⟨result, rfl, not_not.mp hmin⟩

omit [DecidableEq A] in
theorem maxSwapAmount_pos {order : Swap.OrderType} {limitPrice maxAmount : U64}
    (h : chain.maxSwapAmount rt netuid order limitPrice = .ok maxAmount) : 0 < maxAmount.val := by
  unfold maxSwapAmount at h
  cases hswap : rt.swap.swapRollback (chain.subnetInfo netuid) chain.swap netuid order .maxVal
      limitPrice with
  | error e =>
      simp only [hswap] at h
      cases h
  | ok result =>
      simp only [hswap] at h
      split_ifs at h with hpos
      cases h
      exact Nat.pos_of_ne_zero hpos

omit [DecidableEq A] in
/-- From root some of every amount can be moved, and all of it to root. -/
theorem getMaxAmountMove_root {destinationNetuid : NetUid} {limitPrice maxAmount : U64}
    (h : chain.getMaxAmountMove rt .ROOT destinationNetuid limitPrice = .ok maxAmount) :
    0 < maxAmount.val ∧ (destinationNetuid = .ROOT → maxAmount = .maxVal) := by
  have hmax : 0 < (Word.maxVal : U64).val := by decide
  have hstable : chain.isStable .ROOT = true := rfl
  unfold getMaxAmountMove at h
  by_cases hdestination : chain.isStable destinationNetuid = true
  · rw [if_pos ⟨hstable, hdestination⟩] at h
    split_ifs at h
    cases h
    exact ⟨hmax, fun _ => rfl⟩
  · have hroot : destinationNetuid ≠ .ROOT := by
      rintro rfl
      exact hdestination hstable
    refine ⟨?_, fun h => absurd h hroot⟩
    rw [if_neg fun h => hdestination h.2] at h
    by_cases hdynamic : chain.isDynamic destinationNetuid = true
    · rw [if_pos ⟨hstable, hdynamic⟩] at h
      split_ifs at h
      · cases h
        exact hmax
      · unfold getMaxAmountAdd at h
        rw [if_neg hdestination] at h
        exact maxSwapAmount_pos h
    · rw [if_neg fun h => hdynamic h.2, if_neg fun h => hdestination h.1] at h
      obtain ⟨-, h⟩ := ite_error_eq_ok.mp h
      obtain ⟨-, h⟩ := ite_error_eq_ok.mp h
      simp only at h
      obtain ⟨-, h⟩ := ite_error_eq_ok.mp h
      split_ifs at h with hzero hpos
      · cases h
        exact hmax
      · cases h
        exact Nat.pos_of_ne_zero hpos

section

variable {originColdkey destinationColdkey originHotkey destinationHotkey : A}
  {originNetuid destinationNetuid : NetUid} {alphaAmount : U64} {maybeLimitPrice : Option U64}
  {maybeAllowPartial : Option Bool} {checkTransferToggle : Bool}

theorem transitionStake_valid
    (h : chain.transitionStakeInternal rt originColdkey destinationColdkey originHotkey
      destinationHotkey originNetuid destinationNetuid alphaAmount maybeLimitPrice
      maybeAllowPartial checkTransferToggle = .ok (chain', tao)) :
    ∃ maxAmount, chain.maxTransitionAmount rt originNetuid destinationNetuid alphaAmount
        maybeLimitPrice = .ok maxAmount ∧
      chain.validateStakeTransition rt originColdkey destinationColdkey originHotkey
        destinationHotkey originNetuid destinationNetuid alphaAmount maxAmount maybeAllowPartial
        checkTransferToggle = .ok () := by
  unfold transitionStakeInternal at h
  cases hmax : chain.maxTransitionAmount rt originNetuid destinationNetuid alphaAmount
      maybeLimitPrice with
  | error e =>
      simp only [hmax] at h
      cases h
  | ok maxAmount =>
      simp only [hmax] at h
      cases hvalid : chain.validateStakeTransition rt originColdkey destinationColdkey originHotkey
          destinationHotkey originNetuid destinationNetuid alphaAmount maxAmount
          maybeAllowPartial checkTransferToggle with
      | error e =>
          simp only [hvalid] at h
          cases h
      | ok u => exact ⟨maxAmount, rfl, hvalid⟩

/-- What is moved from root is there, and it is something; to root it is more
than the minimum stake. -/
theorem transitionAmount_root (hone : OneToOneStable rt) (hstable : chain.isDynamic .ROOT = false)
    (h : chain.transitionStakeInternal rt originColdkey destinationColdkey originHotkey
      destinationHotkey .ROOT destinationNetuid alphaAmount maybeLimitPrice maybeAllowPartial
      checkTransferToggle = .ok (chain', tao)) :
    let moveAmount := chain.transitionAmount rt .ROOT destinationNetuid alphaAmount maybeLimitPrice
    0 < moveAmount.val ∧
      chain.hasEnoughStakeOnSubnet originHotkey originColdkey .ROOT moveAmount = true ∧
      (destinationNetuid = .ROOT → rt.defaultMinStake.val < moveAmount.val) := by
  obtain ⟨maxAmount, hmax, hvalid⟩ := transitionStake_valid h
  obtain ⟨henough, result, hsim, hmin⟩ := validateStakeTransition_ok hvalid
  rw [simSwap_root hone hstable] at hsim
  cases hsim
  have hmin : rt.defaultMinStake.val < alphaAmount.val := hmin
  have henough : alphaAmount.val ≤
      (chain.getStakeForHotkeyAndColdkeyOnSubnet originHotkey originColdkey .ROOT).val :=
    of_decide_eq_true henough
  have hbounds : 0 < maxAmount.val ∧
      (destinationNetuid = .ROOT → alphaAmount.val ≤ maxAmount.val) := by
    unfold maxTransitionAmount at hmax
    cases maybeLimitPrice with
    | none =>
        cases hmax
        exact ⟨by omega, fun _ => le_refl _⟩
    | some limitPrice =>
        obtain ⟨hpos, hall⟩ := getMaxAmountMove_root hmax
        refine ⟨hpos, fun hroot => ?_⟩
        rw [hall hroot]
        have hlt := alphaAmount.isLt
        have hmaxVal : (Word.maxVal : U64).val = 2 ^ 64 - 1 := by decide
        omega
  intro moveAmount
  have hmove : moveAmount.val = min alphaAmount.val maxAmount.val := by
    show (chain.transitionAmount rt .ROOT destinationNetuid alphaAmount maybeLimitPrice).val = _
    unfold transitionAmount
    rw [hmax]
    simp only
    split_ifs <;> omega
  refine ⟨by omega, ?_, ?_⟩
  · exact decide_eq_true (by omega)
  · intro hroot
    have := hbounds.2 hroot
    omega

theorem delegateIfNotOwner_drifts :
    Drifts chain (chain.delegateIfNotOwner rt coldkey hotkey) 0 := by
  unfold delegateIfNotOwner maybeBecomeDelegate
  split_ifs
  · exact .refl chain
  · exact drifts_of_eq rfl rfl id
  · exact .refl chain

end


/-! ## Operations -/

omit [DecidableEq A] in
theorem callOf_eq_ok {result : Except Error (Chain A B P × U64)} (h : callOf result = .ok chain') :
    ∃ tao, result = .ok (chain', tao) := by
  unfold callOf at h
  cases result with
  | error e => cases h
  | ok result =>
      cases h
      exact ⟨result.2, rfl⟩

/-- The operations that may move stake to or from root. -/
inductive RootOp (A B P : Type) where
  | addStake (coldkey hotkey : A) (netuid : NetUid) (stakeToBeAdded : U64)
  | removeStake (coldkey hotkey : A) (netuid : NetUid) (alphaUnstaked : U64)
  | transition (originColdkey destinationColdkey originHotkey destinationHotkey : A)
      (originNetuid destinationNetuid : NetUid) (alphaAmount : U64) (maybeLimitPrice : Option U64)
      (maybeAllowPartial : Option Bool) (checkTransferToggle : Bool)
  | coinbase (epoch : Epoch A B P) (blockEmission : U96F32)

def perform (rt : Runtime A B P) (chain : Chain A B P) : RootOp A B P → Except Error (Chain A B P)
  | .addStake coldkey hotkey netuid stakeToBeAdded =>
      chain.doAddStake rt coldkey hotkey netuid stakeToBeAdded
  | .removeStake coldkey hotkey netuid alphaUnstaked =>
      chain.doRemoveStake rt coldkey hotkey netuid alphaUnstaked
  | .transition originColdkey destinationColdkey originHotkey destinationHotkey originNetuid
      destinationNetuid alphaAmount maybeLimitPrice maybeAllowPartial checkTransferToggle =>
      callOf (chain.transitionStakeInternal rt originColdkey destinationColdkey originHotkey
        destinationHotkey originNetuid destinationNetuid alphaAmount maybeLimitPrice
        maybeAllowPartial checkTransferToggle)
  | .coinbase epoch blockEmission => .ok (chain.runCoinbase rt epoch blockEmission)

/-- No stake goes to root or leaves it, but in a block. -/
def StaysOffRoot (rt : Runtime A B P) (chain : Chain A B P) : RootOp A B P → Prop
  | .addStake _ _ netuid _ => netuid ≠ .ROOT
  | .removeStake _ _ netuid _ => netuid ≠ .ROOT
  | .transition originColdkey _ originHotkey _ originNetuid destinationNetuid alphaAmount
      maybeLimitPrice _ _ =>
      (originNetuid = .ROOT ↔ destinationNetuid = .ROOT) ∨
        (destinationNetuid = .ROOT ∧
          (chain.saleProceeds rt originColdkey originHotkey originNetuid
            (chain.transitionAmount rt originNetuid destinationNetuid alphaAmount
              maybeLimitPrice)).val < rt.defaultMinStake.val)
  | .coinbase _ _ => True

theorem doAddStake_drift (hstable : chain.isDynamic .ROOT = false)
    (h : chain.doAddStake rt coldkey hotkey netuid amount = .ok chain') :
    ∃ δ : ℤ, Drifts chain chain' δ ∧
      (chain'.ledger.overflowed = false → (δ = 0 ↔ netuid ≠ .ROOT)) := by
  obtain ⟨chain₁, paid, added, hremove, hstake⟩ := doAddStake_ok h
  obtain ⟨hdrift₁, hdynamic⟩ := removeBalance_drifts hremove
  obtain ⟨hdrift₂, hpos⟩ := stakeIntoSubnet_drifts ((congrFun hdynamic _).trans hstable) hstake
  refine ⟨_, hdrift₁.none_then hdrift₂, fun _ => ?_⟩
  split_ifs with hnetuid
  · have := hpos hnetuid
    constructor
    · intro hzero
      omega
    · intro hne
      exact absurd hnetuid hne
  · simp [hnetuid]

theorem doRemoveStake_drift (hone : OneToOneStable rt) (hstable : chain.isDynamic .ROOT = false)
    (h : chain.doRemoveStake rt coldkey hotkey netuid amount = .ok chain') :
    ∃ δ : ℤ, Drifts chain chain' δ ∧
      (chain'.ledger.overflowed = false → (δ = 0 ↔ netuid ≠ .ROOT)) := by
  obtain ⟨hvalid, chain₁, tao, hunstake, rfl⟩ := doRemoveStake_ok h
  obtain ⟨henough, result, hsim, hmin⟩ := validateRemoveStake_ok hvalid
  obtain ⟨hdrift₁, htaken⟩ := unstakeFromSubnet_drifts hstable hunstake
  have hcredit : Drifts chain₁ (chain₁.addBalanceToColdkeyAccount rt coldkey tao) 0 :=
    drifts_of_eq rfl rfl id
  have hstable₁ : (chain₁.addBalanceToColdkeyAccount rt coldkey tao).isDynamic .ROOT = false :=
    ((unstakeFromSubnet_ok hunstake).1.isDynamic .ROOT).trans hstable
  obtain ⟨cleared, hcleared, hdrift₂⟩ :=
    clearSmallNomination_drifts rt hotkey coldkey netuid hstable₁
  have hrest : Drifts chain₁ (((chain₁.addBalanceToColdkeyAccount rt coldkey
      tao).clearSmallNominationIfRequired rt hotkey coldkey netuid).dropPendingChildren rt hotkey)
      (-cleared) := (hcredit.none_then hdrift₂).then_none dropPendingChildren_drifts
  refine ⟨_, hdrift₁.trans hrest, fun hok => ?_⟩
  obtain ⟨hok₁, -⟩ := hrest hok
  split_ifs with hnetuid
  · subst hnetuid
    have hle := htaken rfl hok₁ henough
    rw [simSwap_root hone hstable] at hsim
    cases hsim
    have hpos : rt.defaultMinStake.val < amount.val := hmin
    constructor
    · intro hzero
      omega
    · intro hne
      exact absurd rfl hne
  · simp [hnetuid, hcleared hnetuid]


/-- A transition moves stake to root or from it, unless both its ends are
there or what it sells is not staked again. -/
theorem transitionStake_drift {rt : Runtime A B (SwapStorage A)} {cfg : Swap.Config A}
    (hswap : rt.swap = swapPallet cfg) {chain chain' : Chain A B (SwapStorage A)}
    (hstable : chain.isDynamic .ROOT = false)
    {originColdkey destinationColdkey originHotkey destinationHotkey : A}
    {originNetuid destinationNetuid : NetUid} {alphaAmount : U64} {maybeLimitPrice : Option U64}
    {maybeAllowPartial : Option Bool} {checkTransferToggle : Bool}
    (h : chain.transitionStakeInternal rt originColdkey destinationColdkey originHotkey
      destinationHotkey originNetuid destinationNetuid alphaAmount maybeLimitPrice
      maybeAllowPartial checkTransferToggle = .ok (chain', tao)) :
    ∃ δ : ℤ, Drifts chain chain' δ ∧
      (chain'.ledger.overflowed = false →
        (δ = 0 ↔ (originNetuid = .ROOT ↔ destinationNetuid = .ROOT) ∨
          (destinationNetuid = .ROOT ∧
            (chain.saleProceeds rt originColdkey originHotkey originNetuid
              (chain.transitionAmount rt originNetuid destinationNetuid alphaAmount
                maybeLimitPrice)).val < rt.defaultMinStake.val))) := by
  have hone := oneToOneStable_of_swapPallet hswap
  obtain ⟨unstaked, hunstake, hcases⟩ := transitionStake_ok h
  rw [saleProceeds_of_unstake hswap hunstake]
  obtain ⟨hdrift₁, htaken⟩ := unstakeFromSubnet_drifts hstable hunstake
  have hstable₁ : unstaked.isDynamic .ROOT = false :=
    ((unstakeFromSubnet_ok hunstake).1.isDynamic .ROOT).trans hstable
  -- what the second half of the transition adds
  have hrestake : ∃ δ : ℤ, Drifts unstaked chain' δ ∧
      ((rt.defaultMinStake.val ≤ tao.val ∧ (destinationNetuid = .ROOT → 0 < tao.val) ∧
          δ = if destinationNetuid = .ROOT then (tao.val : ℤ) else 0) ∨
        (tao.val < rt.defaultMinStake.val ∧ δ = 0)) := by
    rcases hcases with ⟨hmin, added, hstake⟩ | ⟨hlt, rfl⟩
    · have hdelegate : Drifts unstaked
          (unstaked.delegateIfNotOwner rt destinationColdkey destinationHotkey) 0 :=
        delegateIfNotOwner_drifts
      have hstable₂ : (unstaked.delegateIfNotOwner rt destinationColdkey
          destinationHotkey).isDynamic .ROOT = false :=
        ((delegateIfNotOwner_touches .ROOT).isDynamic .ROOT).trans hstable₁
      obtain ⟨hdrift₂, hpos⟩ := stakeIntoSubnet_drifts hstable₂ hstake
      exact ⟨_, hdelegate.none_then hdrift₂, Or.inl ⟨hmin, hpos, rfl⟩⟩
    · exact ⟨0, .refl _, Or.inr ⟨hlt, rfl⟩⟩
  obtain ⟨δ, hdrift₂, hδ⟩ := hrestake
  refine ⟨_, hdrift₁.trans hdrift₂, fun hok => ?_⟩
  obtain ⟨hok₁, -⟩ := hdrift₂ hok
  by_cases horigin : originNetuid = .ROOT
  · subst horigin
    obtain ⟨hpos, henough, hmin⟩ := transitionAmount_root hone hstable h
    have hle := htaken rfl hok₁ henough
    rw [if_pos rfl]
    by_cases hdestination : destinationNetuid = .ROOT
    · -- all that leaves root comes back to it
      have hmin := hmin hdestination
      rw [if_pos hdestination] at hδ
      refine ⟨fun _ => Or.inl (iff_of_true rfl hdestination), fun _ => ?_⟩
      omega
    · rw [if_neg hdestination] at hδ
      constructor
      · intro hzero
        omega
      · rintro (hboth | ⟨hroot, -⟩)
        · exact absurd (hboth.mp rfl) hdestination
        · exact absurd hroot hdestination
  · rw [if_neg horigin]
    by_cases hdestination : destinationNetuid = .ROOT
    · rw [if_pos hdestination] at hδ
      constructor
      · intro hzero
        refine Or.inr ⟨hdestination, ?_⟩
        rcases hδ with ⟨-, hpos, rfl⟩ | ⟨hlt, -⟩
        · have := hpos hdestination
          omega
        · exact hlt
      · rintro (hboth | ⟨-, hlt⟩)
        · exact absurd (hboth.mpr hdestination) horigin
        · omega
    · rw [if_neg hdestination] at hδ
      refine ⟨fun _ => Or.inl (iff_of_false horigin hdestination), fun _ => ?_⟩
      omega


/-! ## Runs -/

section

variable {rt : Runtime A B (SwapStorage A)} {cfg : Swap.Config A}
  {chain chain' : Chain A B (SwapStorage A)}

theorem perform_drift (hswap : rt.swap = swapPallet cfg) (hstable : chain.isDynamic .ROOT = false)
    {op : RootOp A B (SwapStorage A)} (h : chain.perform rt op = .ok chain') :
    ∃ δ : ℤ, Drifts chain chain' δ ∧
      (chain'.ledger.overflowed = false → (δ = 0 ↔ chain.StaysOffRoot rt op)) := by
  have hone := oneToOneStable_of_swapPallet hswap
  cases op with
  | addStake coldkey hotkey netuid stakeToBeAdded => exact doAddStake_drift hstable h
  | removeStake coldkey hotkey netuid alphaUnstaked => exact doRemoveStake_drift hone hstable h
  | transition originColdkey destinationColdkey originHotkey destinationHotkey originNetuid
      destinationNetuid alphaAmount maybeLimitPrice maybeAllowPartial checkTransferToggle =>
      obtain ⟨tao, htransition⟩ := callOf_eq_ok h
      exact transitionStake_drift hswap hstable htransition
  | coinbase epoch blockEmission =>
      cases h
      exact ⟨0, runCoinbase_drifts, fun _ => iff_of_true rfl trivial⟩

theorem perform_isDynamic {op : RootOp A B (SwapStorage A)} (h : chain.perform rt op = .ok chain')
    (n : NetUid) : chain'.isDynamic n = chain.isDynamic n := by
  cases op with
  | addStake coldkey hotkey netuid stakeToBeAdded =>
      obtain ⟨chain₁, paid, added, hremove, hstake⟩ := doAddStake_ok h
      have hfirst := congrFun (removeBalance_drifts hremove).2 n
      exact ((stakeIntoSubnet_ok hstake).1.isDynamic n).trans hfirst
  | removeStake coldkey hotkey netuid alphaUnstaked =>
      obtain ⟨-, chain₁, tao, hunstake, rfl⟩ := doRemoveStake_ok h
      have htouch : Touches netuid chain ((chain₁.addBalanceToColdkeyAccount rt coldkey
          tao).clearSmallNominationIfRequired rt hotkey coldkey netuid) :=
        ((unstakeFromSubnet_ok hunstake).1.trans addBalance_touches).trans
          clearSmallNomination_touches
      have hdrop : ∀ c : Chain A B (SwapStorage A),
          (c.dropPendingChildren rt hotkey).isDynamic n = c.isDynamic n := by
        intro c
        unfold dropPendingChildren
        split_ifs <;> rfl
      exact (hdrop _).trans (htouch.isDynamic n)
  | transition originColdkey destinationColdkey originHotkey destinationHotkey originNetuid
      destinationNetuid alphaAmount maybeLimitPrice maybeAllowPartial checkTransferToggle =>
      obtain ⟨tao, htransition⟩ := callOf_eq_ok h
      obtain ⟨unstaked, hunstake, ⟨-, added, hstake⟩ | ⟨-, rfl⟩⟩ :=
        transitionStake_ok htransition
      · have hdelegate : Touches n unstaked
            (unstaked.delegateIfNotOwner rt destinationColdkey destinationHotkey) :=
          delegateIfNotOwner_touches n
        exact ((stakeIntoSubnet_ok hstake).1.isDynamic n).trans
          ((hdelegate.isDynamic n).trans ((unstakeFromSubnet_ok hunstake).1.isDynamic n))
      · exact (unstakeFromSubnet_ok hunstake).1.isDynamic n
  | coinbase epoch blockEmission =>
      cases h
      exact runCoinbase_keepsTerms.isDynamic n

/-- A step of a run: an operation that stays off root, or anything that leaves
root alone. -/
inductive RootStep (rt : Runtime A B (SwapStorage A)) :
    Chain A B (SwapStorage A) → Chain A B (SwapStorage A) → Prop where
  | op {chain chain' : Chain A B (SwapStorage A)} (op : RootOp A B (SwapStorage A)) :
      chain.perform rt op = .ok chain' → chain.StaysOffRoot rt op → RootStep rt chain chain'
  | other {chain chain' : Chain A B (SwapStorage A)} :
      Drifts chain chain' 0 → chain'.isDynamic .ROOT = chain.isDynamic .ROOT →
        RootStep rt chain chain'

theorem run_drifts (hswap : rt.swap = swapPallet cfg) (hstable : chain.isDynamic .ROOT = false)
    (hrun : Relation.ReflTransGen (RootStep rt) chain chain') :
    chain'.isDynamic .ROOT = false ∧ Drifts chain chain' 0 := by
  induction hrun with
  | refl => exact ⟨hstable, .refl chain⟩
  | tail _ hstep ih =>
      obtain ⟨hstable₁, hdrift₁⟩ := ih
      cases hstep with
      | op op hop hstays =>
          refine ⟨(perform_isDynamic hop .ROOT).trans hstable₁, fun hok => ?_⟩
          obtain ⟨δ, hdrift, hiff⟩ := perform_drift hswap hstable₁ hop
          rw [(hiff hok).mpr hstays] at hdrift
          exact hdrift₁.then_none hdrift hok
      | other hdrift hdynamic =>
          exact ⟨hdynamic.trans hstable₁, hdrift₁.then_none hdrift⟩

/-- **The reserve of root.** While root is stable, an operation keeps
`SubnetTAO(ROOT)` equal to the stake on root exactly when it moves no stake to
root or from it other than by a block; so the two are equal in all states of
runs of such operations. -/
theorem rootTracks_iff_staysOffRoot (hswap : rt.swap = swapPallet cfg) :
    (∀ (chain chain' : Chain A B (SwapStorage A)) (op : RootOp A B (SwapStorage A)),
        chain.isDynamic .ROOT = false → chain.RootTracks → chain.perform rt op = .ok chain' →
        chain'.ledger.overflowed = false →
          (chain'.RootTracks ↔ chain.StaysOffRoot rt op)) ∧
      (∀ chain chain' : Chain A B (SwapStorage A),
        Relation.ReflTransGen (RootStep rt) chain chain' → chain.isDynamic .ROOT = false →
        chain.RootTracks → chain'.ledger.overflowed = false → chain'.RootTracks) := by
  constructor
  · intro chain chain' op hstable htracks h hok
    obtain ⟨δ, hdrift, hiff⟩ := perform_drift hswap hstable h
    obtain ⟨-, heq⟩ := hdrift hok
    rw [rootTracks_iff_drift] at htracks ⊢
    rw [heq, htracks, zero_add]
    exact hiff hok
  · intro chain chain' hrun hstable htracks hok
    obtain ⟨-, heq⟩ := (run_drifts hswap hstable hrun).2 hok
    rw [rootTracks_iff_drift] at htracks ⊢
    rw [heq, htracks, zero_add]

end

/-- A block on a chain on which root holds a TAO of stake. -/
theorem rootTracks_iff_staysOffRoot_smallChain :
    (rootStakedChain.runCoinbase runtime validatorEpoch (.ofNat 1000000000)).RootTracks := by
  obtain ⟨hop, -⟩ := rootTracks_iff_staysOffRoot (rfl : runtime.swap = swapPallet swapConfig)
  refine (hop rootStakedChain _ (.coinbase validatorEpoch (.ofNat 1000000000)) ?_ ?_ rfl ?_).mpr
    trivial
  · decide +kernel
  · show (_ : ℕ) = _
    decide +kernel
  · decide +kernel

/-- Stake that is added on root is not added to its reserve. -/
theorem doAddStake_root_not_tracked :
    smallChain.isDynamic .ROOT = false ∧ smallChain.RootTracks ∧
      (smallChain.doAddStake runtime 10 1 .ROOT (.sat 1000000000)).toOption.map (fun chain =>
        (chain.ledger.overflowed, (chain.reserves .ROOT).subnetTAO.val, chain.totalAlpha .ROOT)) =
          some (false, 0, 1000000000) := by
  refine ⟨?_, ?_, ?_⟩
  · decide +kernel
  · show (_ : ℕ) = _
    decide +kernel
  · decide +kernel

end Subtensor.Chain

