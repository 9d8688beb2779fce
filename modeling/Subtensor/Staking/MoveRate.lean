import Subtensor.Staking.MoveLimit
import Subtensor.Staking.TotalAlpha
import Subtensor.Swap.Records

/-!
# The rate of a move

A move sells on one subnet and buys on another, and charges both fees. What it
takes off the stakes of the origin and adds to those of the destination is what
`sim_swap` quotes for the two pools before the call: the sale does not change the
pool that the purchase runs on. The limit price is not compared with these quotes,
so a move respects it exactly when the quotes happen to.
-/

namespace Subtensor

open Lib SharePool

/-! ## Pools of other subnets -/

section

variable {A : Type} [DecidableEq A] {cfg : Swap.Config A} {info info' : SubnetInfo}
  {storage : SwapStorage A} {netuid n : NetUid} {order order' : Swap.OrderType}
  {amount amount' priceLimit priceLimit' : U64} {rollback rollback' : Bool}

omit [DecidableEq A] in
/-- A write to one pool leaves the others alone, but for the counter of position ids. -/
theorem SwapStorage.pool_put (hn : n ≠ netuid) (pool : Swap.Pool A) :
    (storage.put netuid pool).pool n =
      (storage.pool n).withRecords (storage.pool n).positions pool.lastPositionId := by
  unfold SwapStorage.pool SwapStorage.put
  simp only [Function.update_of_ne hn]
  rfl

theorem swapPalletSwap_other (hn : n ≠ netuid) :
    (swapPalletSwap cfg info' (swapPalletSwap cfg info storage netuid order amount priceLimit
        rollback).1 n order' amount' priceLimit' rollback').2 =
      (swapPalletSwap cfg info' storage n order' amount' priceLimit' rollback').2 := by
  unfold swapPalletSwap
  cases limitSqrtPrice priceLimit with
  | none => rfl
  | some limit =>
      dsimp only
      rw [SwapStorage.pool_put hn]
      cases limitSqrtPrice priceLimit' with
      | none => rfl
      | some limit' =>
          dsimp only
          rw [Swap.Pool.doSwap_withRecords]

theorem swapPalletSimSwap_other (hn : n ≠ netuid) :
    swapPalletSimSwap cfg info' (swapPalletSwap cfg info storage netuid order amount priceLimit
        rollback).1 n order' amount' = swapPalletSimSwap cfg info' storage n order' amount' := by
  unfold swapPalletSimSwap
  rw [swapPalletSwap_other hn]

end

namespace Chain

variable {A B : Type} [DecidableEq A] {rt : Runtime A B (SwapStorage A)} {cfg : Swap.Config A}
  {chain chain' : Chain A B (SwapStorage A)} {hotkey coldkey : A} {netuid n : NetUid}
  {alpha tao priceLimit : U64}

theorem Touches.subnetInfo (h : Touches netuid chain chain') (hn : n ≠ netuid) :
    chain'.subnetInfo n = chain.subnetInfo n := by
  unfold Chain.subnetInfo taoReserve alphaReserve mechanism
  rw [h.reserves n hn, h.subnets]

theorem refundStake_swap {refund : U64} :
    (chain.refundStake hotkey coldkey netuid refund).swap = chain.swap := by
  unfold refundStake increaseStakeForHotkeyAndColdkeyOnSubnet
  split_ifs
  · rfl
  · rfl

/-- A sale on one subnet does not change what another one quotes. -/
theorem unstakeFromSubnet_simSwap (hswap : rt.swap = swapPallet cfg) (hn : n ≠ netuid)
    (h : chain.unstakeFromSubnet rt hotkey coldkey netuid alpha priceLimit = (chain', .ok tao))
    (order : Swap.OrderType) (amount : U64) :
    chain'.simSwap rt n order amount = chain.simSwap rt n order amount := by
  have hinfo := (unstakeFromSubnet_ok h).1.subnetInfo hn
  obtain ⟨chain₁, taken, hdec, ⟨chain₂, e, -, heq⟩ | ⟨chain₂, result, hsold, heq⟩⟩ :=
    unstakeFromSubnet_cases rt chain hotkey coldkey netuid alpha priceLimit
  · rw [heq] at h
    cases h
  · rw [heq] at h
    cases h
    have hinfo₁ := (decreaseStake_frame rt hdec).1.subnetInfo hn
    rw [← decreaseStake_simSwap hdec]
    unfold simSwap
    rw [hinfo, ← hinfo₁, refundStake_swap]
    rcases swapAlphaForTao_cases rt chain₁ netuid taken priceLimit with
      ⟨-, heq'⟩ | ⟨-, swap, swapResult, hwrote, ⟨e, rfl, heq'⟩ | ⟨r, rfl, heq'⟩⟩
    · rw [heq'] at hsold
      cases hsold
      rfl
    · rw [heq'] at hsold
      cases hsold
    · rw [heq'] at hsold
      cases hsold
      rw [hswap] at hwrote ⊢
      have hswapped : swap = (swapPalletSwap cfg (chain₁.subnetInfo netuid) chain₁.swap netuid .sell
        taken priceLimit false).1 := (congrArg Prod.fst hwrote).symm
      show swapPalletSimSwap cfg _ swap n order amount = _
      rw [hswapped]
      exact swapPalletSimSwap_other hn

/-! ## Quotes -/

/-- The alpha that a sale of what is taken from a stake takes in, as `sim_swap` quotes it. -/
def quotedSale (rt : Runtime A B (SwapStorage A)) (chain : Chain A B (SwapStorage A))
    (coldkey hotkey : A) (netuid : NetUid) (amount : U64) : U64 :=
  let taken := (chain.decreaseStakeForHotkeyAndColdkeyOnSubnet hotkey coldkey netuid amount).2
  match chain.simSwap rt netuid .sell taken with
  | .error _ => 0
  | .ok result => taken.satSub (unusedAlpha taken result)

/-- The alpha that `sim_swap` quotes for TAO, if there is enough of it to be staked. -/
def quotedPurchase (rt : Runtime A B (SwapStorage A)) (chain : Chain A B (SwapStorage A))
    (netuid : NetUid) (tao : U64) : U64 :=
  if rt.defaultMinStake.val ≤ tao.val then
    match chain.simSwap rt netuid .buy tao with
    | .error _ => 0
    | .ok result => result.amountPaidOut
  else 0

omit [DecidableEq A] in
theorem swapAlphaForTao_stakes {result : Swap.SwapResult}
    (h : chain.swapAlphaForTao rt netuid alpha priceLimit = (chain', .ok result)) :
    chain'.stakes = chain.stakes := by
  rcases swapAlphaForTao_cases rt chain netuid alpha priceLimit with
    ⟨-, heq⟩ | ⟨-, swap, swapResult, -, ⟨e, -, heq⟩ | ⟨r, -, heq⟩⟩
  · rw [heq] at h
    cases h
    rfl
  · rw [heq] at h
    cases h
  · rw [heq] at h
    cases h
    rfl

omit [DecidableEq A] in
theorem swapTaoForAlpha_stakes {result : Swap.SwapResult}
    (h : chain.swapTaoForAlpha rt netuid tao priceLimit = (chain', .ok result)) :
    chain'.stakes = chain.stakes := by
  rcases swapTaoForAlpha_cases rt chain netuid tao priceLimit with
    ⟨-, heq⟩ | ⟨-, swap, swapResult, -, ⟨e, -, heq⟩ | ⟨r, -, heq⟩⟩
  · rw [heq] at h
    cases h
    rfl
  · rw [heq] at h
    cases h
  · rw [heq] at h
    cases h
    rfl

theorem refundStake_movesAlpha {refund : U64}
    (hfits : (chain.getStakeForHotkeyOnSubnet hotkey netuid).val + refund.val < 2 ^ 63) :
    MovesAlpha hotkey netuid chain (chain.refundStake hotkey coldkey netuid refund)
      refund.val := by
  unfold refundStake
  split_ifs with hrefund
  · exact increaseStake_movesAlpha (by omega) (by omega)
  · have hzero : refund.val = 0 := by omega
    rw [hzero]
    exact movesAlpha_of_stakes rfl

/-- Unstaking takes from the stakes of the subnet what the quote says. -/
theorem unstakeFromSubnet_movesAlpha (hswap : rt.swap = swapPallet cfg)
    (hheld : (chain.getStakeForHotkeyAndColdkeyOnSubnet hotkey coldkey netuid).val ≤
      (chain.getStakeForHotkeyOnSubnet hotkey netuid).val)
    (hsmall : (chain.getStakeForHotkeyOnSubnet hotkey netuid).val < 2 ^ 63)
    (h : chain.unstakeFromSubnet rt hotkey coldkey netuid alpha rt.swap.minPrice =
      (chain', .ok tao)) :
    MovesAlpha hotkey netuid chain chain'
      (-(chain.quotedSale rt coldkey hotkey netuid alpha).val) := by
  obtain ⟨chain₁, taken, hdec, ⟨chain₂, e, -, heq⟩ | ⟨chain₂, result, hsold, heq⟩⟩ :=
    unstakeFromSubnet_cases rt chain hotkey coldkey netuid alpha rt.swap.minPrice
  · rw [heq] at h
    cases h
  · rw [heq] at h
    cases h
    have hquote := simSwap_of_swapAlphaForTao hswap hsold
    rw [decreaseStake_simSwap hdec] at hquote
    have hsale : (chain.quotedSale rt coldkey hotkey netuid alpha).val =
        taken.val - (unusedAlpha taken result).val := by
      unfold quotedSale
      rw [hdec]
      simp only [hquote]
      exact Word.val_satSub _ _
    have hunused : (unusedAlpha taken result).val ≤ taken.val := by
      unfold unusedAlpha
      rw [Word.val_satSub]
      exact Nat.sub_le _ _
    obtain ⟨htaken, hle⟩ := decreaseStake_movesAlpha hheld hsmall hdec
    have hsold := htaken.trans (movesAlpha_of_stakes (swapAlphaForTao_stakes hsold))
    have hrest := hsold.shared
    have hrefunded : MovesAlpha hotkey netuid chain₂
        (chain₂.refundStake hotkey coldkey netuid (unusedAlpha taken result))
        (unusedAlpha taken result).val := refundStake_movesAlpha (by omega)
    have hmoves := hsold.trans hrefunded
    have hsum : (-taken.val + 0 + (unusedAlpha taken result).val : ℤ) =
        -(chain.quotedSale rt coldkey hotkey netuid alpha).val := by
      rw [hsale]
      omega
    rwa [hsum] at hmoves

/-- Staking adds to the stakes of the subnet what the quote says. -/
theorem stakeIntoSubnet_movesAlpha (hswap : rt.swap = swapPallet cfg) {added : U64}
    (hmin : rt.defaultMinStake.val ≤ tao.val)
    (hfits : (chain.getStakeForHotkeyOnSubnet hotkey netuid).val +
      (chain.quotedPurchase rt netuid tao).val < 2 ^ 63)
    (h : chain.stakeIntoSubnet rt hotkey coldkey netuid tao rt.swap.maxPrice =
      .ok (chain', added)) :
    MovesAlpha hotkey netuid chain chain' (chain.quotedPurchase rt netuid tao).val := by
  obtain ⟨chain₁, result, hbought, -, accounts, -, rfl⟩ := stakeIntoSubnet_cases h
  have hquote := simSwap_of_swapTaoForAlpha hswap hbought
  have hpurchase : chain.quotedPurchase rt netuid tao = result.amountPaidOut := by
    unfold quotedPurchase
    rw [if_pos hmin, hquote]
  rw [hpurchase] at hfits ⊢
  have hkept : MovesAlpha hotkey netuid chain chain₁ 0 :=
    movesAlpha_of_stakes (swapTaoForAlpha_stakes hbought)
  have hshared := hkept.shared
  have hcredited : MovesAlpha hotkey netuid chain₁ (chain₁.increaseStakeForHotkeyAndColdkeyOnSubnet
      hotkey coldkey netuid result.amountPaidOut).1 result.amountPaidOut.val :=
    increaseStake_movesAlpha (by omega) (by omega)
  have hmoves := hkept.trans hcredited
  rw [zero_add] at hmoves
  exact ⟨hmoves.total, hmoves.shared⟩

/-! ## The rate -/

variable {originColdkey destinationColdkey originHotkey destinationHotkey : A}
  {originNetuid destinationNetuid : NetUid} {alphaAmount limitPrice : U64}
  {maybeLimitPrice : Option U64} {maybeAllowPartial : Option Bool} {checkTransferToggle : Bool}

/-- At the price, in units of `10^-9`, the alpha that was credited is worth the alpha that
was removed, within one unit of each. -/
def PaysLimit (limitPrice removed credited : ℤ) : Prop :=
  limitPrice * (removed - 1) ≤ (credited + 1) * 10 ^ 9

instance (limitPrice removed credited : ℤ) : Decidable (PaysLimit limitPrice removed credited) :=
  inferInstanceAs (Decidable (_ ≤ _))

/-- What was removed from the stakes on the origin and credited to those on the destination
was exchanged at no less than the limit price. -/
def RespectsLimit (chain chain' : Chain A B (SwapStorage A))
    (originNetuid destinationNetuid : NetUid) (limitPrice : U64) : Prop :=
  PaysLimit limitPrice.val (chain.totalAlpha originNetuid - chain'.totalAlpha originNetuid)
    (chain'.totalAlpha destinationNetuid - chain.totalAlpha destinationNetuid)

/-- `sim_swap` quotes no less than the limit price for the amount, fees of both subnets
included. -/
def QuotesLimit (rt : Runtime A B (SwapStorage A)) (chain : Chain A B (SwapStorage A))
    (coldkey hotkey : A) (originNetuid destinationNetuid : NetUid) (amount limitPrice : U64) :
    Prop :=
  PaysLimit limitPrice.val (chain.quotedSale rt coldkey hotkey originNetuid amount).val
    (chain.quotedPurchase rt destinationNetuid
      (chain.saleProceeds rt coldkey hotkey originNetuid amount)).val

/-- The alpha of the two hotkeys fits its words: the staker has no more than the hotkey, and
what is bought does not overflow the stake. -/
structure MoveFits (rt : Runtime A B (SwapStorage A)) (chain : Chain A B (SwapStorage A))
    (originColdkey originHotkey destinationHotkey : A) (originNetuid destinationNetuid : NetUid)
    (amount : U64) : Prop where
  held : (chain.getStakeForHotkeyAndColdkeyOnSubnet originHotkey originColdkey originNetuid).val ≤
    (chain.getStakeForHotkeyOnSubnet originHotkey originNetuid).val
  origin : (chain.getStakeForHotkeyOnSubnet originHotkey originNetuid).val < 2 ^ 63
  destination : (chain.getStakeForHotkeyOnSubnet destinationHotkey destinationNetuid).val +
    (chain.quotedPurchase rt destinationNetuid
      (chain.saleProceeds rt originColdkey originHotkey originNetuid amount)).val < 2 ^ 63

/-- **What a move takes and gives** is what the pools quote before it. -/
theorem transitionStakeInternal_amounts (hswap : rt.swap = swapPallet cfg)
    (hne : originNetuid ≠ destinationNetuid)
    (h : chain.transitionStakeInternal rt originColdkey destinationColdkey originHotkey
      destinationHotkey originNetuid destinationNetuid alphaAmount maybeLimitPrice
      maybeAllowPartial checkTransferToggle = .ok (chain', tao))
    (hfits : chain.MoveFits rt originColdkey originHotkey destinationHotkey originNetuid
      destinationNetuid (chain.transitionAmount rt originNetuid destinationNetuid alphaAmount
        maybeLimitPrice)) :
    let amount :=
      chain.transitionAmount rt originNetuid destinationNetuid alphaAmount maybeLimitPrice
    (chain'.totalAlpha originNetuid : ℤ) = chain.totalAlpha originNetuid +
        -(chain.quotedSale rt originColdkey originHotkey originNetuid amount).val ∧
      (chain'.totalAlpha destinationNetuid : ℤ) = chain.totalAlpha destinationNetuid +
        (chain.quotedPurchase rt destinationNetuid
          (chain.saleProceeds rt originColdkey originHotkey originNetuid amount)).val := by
  intro amount
  obtain ⟨unstaked, hunstake, hrestake⟩ := transitionStake_ok h
  have hproceeds : chain.saleProceeds rt originColdkey originHotkey originNetuid amount = tao :=
    saleProceeds_of_unstake hswap hunstake
  obtain ⟨htouch, -⟩ := unstakeFromSubnet_ok hunstake
  have hremoved := (unstakeFromSubnet_movesAlpha hswap hfits.held hfits.origin hunstake).total
  have huntouched := htouch.totalAlpha hne.symm
  have hroom := hfits.destination
  rw [hproceeds] at hroom ⊢
  rcases hrestake with ⟨hmin, added, hstake⟩ | ⟨hmin, rfl⟩
  · obtain ⟨accounts, haccounts⟩ :=
      delegateIfNotOwner_frame rt unstaked destinationColdkey destinationHotkey
    rw [haccounts] at hstake
    -- the purchase runs after the sale, but on a pool that the sale did not touch
    have hquote : (unstaked.withAccounts accounts).quotedPurchase rt destinationNetuid tao =
        chain.quotedPurchase rt destinationNetuid tao := by
      have hsame := unstakeFromSubnet_simSwap hswap hne.symm hunstake .buy tao
      have hsame' : (unstaked.withAccounts accounts).simSwap rt destinationNetuid .buy tao =
        chain.simSwap rt destinationNetuid .buy tao := hsame
      unfold quotedPurchase
      rw [hsame']
    have hshared : (unstaked.withAccounts accounts).getStakeForHotkeyOnSubnet destinationHotkey
        destinationNetuid =
          chain.getStakeForHotkeyOnSubnet destinationHotkey destinationNetuid := by
      unfold getStakeForHotkeyOnSubnet
      exact congrArg (Option.getD · 0)
        (htouch.stakes.totalHotkeyAlpha destinationHotkey destinationNetuid hne.symm)
    have hcredited := (stakeIntoSubnet_movesAlpha hswap hmin
      (by rw [hquote, hshared]; exact hroom) hstake).total
    rw [hquote] at hcredited
    obtain ⟨htouch', -⟩ := stakeIntoSubnet_ok hstake
    have huntouched' : chain'.totalAlpha originNetuid = unstaked.totalAlpha originNetuid :=
      htouch'.totalAlpha hne
    have hbefore : (unstaked.withAccounts accounts).totalAlpha destinationNetuid =
      chain.totalAlpha destinationNetuid := huntouched
    rw [huntouched', hcredited, hbefore]
    exact ⟨hremoved, rfl⟩
  -- too little to be staked
  · have hnothing : chain.quotedPurchase rt destinationNetuid tao = 0 := by
      unfold quotedPurchase
      rw [if_neg (not_le.mpr hmin)]
    rw [hnothing, huntouched]
    exact ⟨hremoved, (add_zero _).symm⟩

/-- **Limit price of a move.** A move respects its limit price exactly when `sim_swap`
quotes that price before the call. -/
theorem transitionStakeInternal_respectsLimit_iff (hswap : rt.swap = swapPallet cfg)
    (hne : originNetuid ≠ destinationNetuid)
    (h : chain.transitionStakeInternal rt originColdkey destinationColdkey originHotkey
      destinationHotkey originNetuid destinationNetuid alphaAmount (some limitPrice)
      maybeAllowPartial checkTransferToggle = .ok (chain', tao))
    (hfits : chain.MoveFits rt originColdkey originHotkey destinationHotkey originNetuid
      destinationNetuid (chain.transitionAmount rt originNetuid destinationNetuid alphaAmount
        (some limitPrice))) :
    chain.RespectsLimit chain' originNetuid destinationNetuid limitPrice ↔
      chain.QuotesLimit rt originColdkey originHotkey originNetuid destinationNetuid
        (chain.transitionAmount rt originNetuid destinationNetuid alphaAmount (some limitPrice))
        limitPrice := by
  obtain ⟨hremoved, hcredited⟩ := transitionStakeInternal_amounts hswap hne h hfits
  unfold RespectsLimit QuotesLimit
  rw [hremoved, hcredited]
  ring_nf

/-- A move between the two subnets of the staked chain, the first of which is
bought up to a price of four, at a limit price of three. -/
def limitedMove (alphaAmount : U64) : Except Error (Chain ℕ (Balances ℕ) (SwapStorage ℕ) × U64) :=
  stakedChain.transitionStakeInternal runtime 10 10 1 1 (.sat 1) (.sat 2) alphaAmount
    (some (.sat 3000000000)) (some true) false

/-- A small part of the stake is moved at more than the limit price, all that the limit
allows is not. -/
theorem transitionStakeInternal_respectsLimit_iff_stakedChain :
    (∃ moved tao, limitedMove (.sat 10000000) = .ok (moved, tao) ∧
      stakedChain.RespectsLimit moved (.sat 1) (.sat 2) (.sat 3000000000)) ∧
    ∃ moved tao, limitedMove (.sat 400000000) = .ok (moved, tao) ∧
      ¬stakedChain.RespectsLimit moved (.sat 1) (.sat 2) (.sat 3000000000) := by
  have hswap : runtime.swap = swapPallet swapConfig := rfl
  have hne : (.sat 1 : NetUid) ≠ .sat 2 := by decide
  constructor
  · have hrun : ((limitedMove (.sat 10000000)).toOption.map fun _ => ()) = some () := by
      decide +kernel
    obtain ⟨⟨moved, tao⟩, hmove, -⟩ := exists_ok_of_toOption_map hrun
    have hiff := transitionStakeInternal_respectsLimit_iff hswap hne hmove
      ⟨by decide +kernel, by decide +kernel, by decide +kernel⟩
    refine ⟨moved, tao, hmove, hiff.mpr ?_⟩
    unfold QuotesLimit
    decide +kernel
  · have hrun : ((limitedMove (.sat 400000000)).toOption.map fun _ => ()) = some () := by
      decide +kernel
    obtain ⟨⟨moved, tao⟩, hmove, -⟩ := exists_ok_of_toOption_map hrun
    have hiff := transitionStakeInternal_respectsLimit_iff hswap hne hmove
      ⟨by decide +kernel, by decide +kernel, by decide +kernel⟩
    refine ⟨moved, tao, hmove, fun hrespects => absurd (hiff.mp hrespects) ?_⟩
    unfold QuotesLimit
    decide +kernel

/-- The move takes `55466942` alpha and credits `166268112`, which is less than
three for one: both swaps charge their fee. -/
theorem transitionStakeInternal_below_limit :
    stakedChain.isDynamic (.sat 1) = true ∧ stakedChain.isDynamic (.sat 2) = true ∧
      ∃ moved tao, limitedMove (.sat 400000000) = .ok (moved, tao) ∧
        ((moved.getStakeForHotkeyAndColdkeyOnSubnet 1 10 (.sat 2)).val + 1) * 10 ^ 9 <
          3000000000 * ((stakedChain.getStakeForHotkeyAndColdkeyOnSubnet 1 10 (.sat 1)).val -
            (moved.getStakeForHotkeyAndColdkeyOnSubnet 1 10 (.sat 1)).val - 1) ∧
        (stakedChain.getStakeForHotkeyAndColdkeyOnSubnet 1 10 (.sat 2)).val = 0 := by
  have hrun : ((limitedMove (.sat 400000000)).toOption.map fun result =>
      ((result.1.getStakeForHotkeyAndColdkeyOnSubnet 1 10 (.sat 1)).val,
        (result.1.getStakeForHotkeyAndColdkeyOnSubnet 1 10 (.sat 2)).val)) =
      some (444407139, 166268112) := by
    decide +kernel
  have hbefore : (stakedChain.getStakeForHotkeyAndColdkeyOnSubnet 1 10 (.sat 1)).val = 499874081 ∧
      (stakedChain.getStakeForHotkeyAndColdkeyOnSubnet 1 10 (.sat 2)).val = 0 := by
    decide +kernel
  obtain ⟨⟨moved, tao⟩, hok, hstakes⟩ := exists_ok_of_toOption_map hrun
  obtain ⟨horigin, hdestination⟩ := Prod.mk.inj hstakes
  refine ⟨by decide +kernel, by decide +kernel, moved, tao, hok, ?_, hbefore.2⟩
  rw [horigin, hdestination, hbefore.1]
  norm_num

end Chain

end Subtensor
