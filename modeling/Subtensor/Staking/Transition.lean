import Subtensor.Staking.Issuance

/-!
# Stake transitions

Moving, transferring and swapping stake all unstake from the origin and stake
the TAO into the destination. The minimum is checked on the requested amount,
but a limit price cuts the amount that is moved: TAO below the minimum is not
staked again, and nobody gets it.
-/

namespace Subtensor

open Lib

namespace Chain

variable {A B P : Type} [DecidableEq A]

/-! ## What is sold -/

/-- The alpha that is moved: the limit price may allow less than was asked
for. -/
def transitionAmount (rt : Runtime A B P) (chain : Chain A B P)
    (originNetuid destinationNetuid : NetUid) (alphaAmount : U64)
    (maybeLimitPrice : Option U64) : U64 :=
  match chain.maxTransitionAmount rt originNetuid destinationNetuid alphaAmount
      maybeLimitPrice with
  | .error _ => 0
  | .ok maxAmount => if alphaAmount.val < maxAmount.val then alphaAmount else maxAmount

/-- The TAO that `sim_swap` promises for the stake of the origin when an
amount is taken from it. -/
def saleProceeds (rt : Runtime A B P) (chain : Chain A B P) (coldkey hotkey : A)
    (netuid : NetUid) (amount : U64) : U64 :=
  match chain.simSwap rt netuid .sell
      (chain.decreaseStakeForHotkeyAndColdkeyOnSubnet hotkey coldkey netuid amount).2 with
  | .error _ => 0
  | .ok result => result.amountPaidOut

/-- The TAO that was unstaked is staked into the destination, all of it. -/
def Restaked (rt : Runtime A B P) (unstaked chain' : Chain A B P)
    (destinationColdkey destinationHotkey : A) (destinationNetuid : NetUid) (tao : U64) : Prop :=
  ∃ added, (unstaked.delegateIfNotOwner rt destinationColdkey destinationHotkey).stakeIntoSubnet rt
    destinationHotkey destinationColdkey destinationNetuid tao rt.swap.maxPrice =
      .ok (chain', added)

variable {rt : Runtime A B P} {chain chain' : Chain A B P}
  {originColdkey destinationColdkey originHotkey destinationHotkey : A}
  {originNetuid destinationNetuid : NetUid} {alphaAmount tao : U64}
  {maybeLimitPrice : Option U64} {maybeAllowPartial : Option Bool} {checkTransferToggle : Bool}

theorem delegateIfNotOwner_frame (rt : Runtime A B P) (chain : Chain A B P)
    (coldkey hotkey : A) :
    ∃ accounts, chain.delegateIfNotOwner rt coldkey hotkey = chain.withAccounts accounts := by
  unfold delegateIfNotOwner maybeBecomeDelegate
  split_ifs
  · exact ⟨chain.accounts, rfl⟩
  · exact ⟨_, rfl⟩
  · exact ⟨chain.accounts, rfl⟩

/-- A transition that succeeds unstakes from the origin, and stakes again when
there is enough. -/
theorem transitionStake_ok
    (h : chain.transitionStakeInternal rt originColdkey destinationColdkey originHotkey
      destinationHotkey originNetuid destinationNetuid alphaAmount maybeLimitPrice
      maybeAllowPartial checkTransferToggle = .ok (chain', tao)) :
    ∃ unstaked, chain.unstakeFromSubnet rt originHotkey originColdkey originNetuid
        (chain.transitionAmount rt originNetuid destinationNetuid alphaAmount maybeLimitPrice)
        rt.swap.minPrice = (unstaked, .ok tao) ∧
      ((rt.defaultMinStake.val ≤ tao.val ∧ Restaked rt unstaked chain' destinationColdkey
          destinationHotkey destinationNetuid tao) ∨
        (tao.val < rt.defaultMinStake.val ∧ chain' = unstaked)) := by
  unfold transitionStakeInternal at h
  unfold transitionAmount
  cases hmax : chain.maxTransitionAmount rt originNetuid destinationNetuid alphaAmount
      maybeLimitPrice with
  | error e =>
      simp only [hmax] at h
      cases h
  | ok maxAmount =>
      simp only [hmax] at h ⊢
      cases hvalid : chain.validateStakeTransition rt originColdkey destinationColdkey originHotkey
          destinationHotkey originNetuid destinationNetuid alphaAmount maxAmount
          maybeAllowPartial checkTransferToggle with
      | error e =>
          simp only [hvalid] at h
          cases h
      | ok u =>
          simp only [hvalid] at h
          generalize (if alphaAmount.val < maxAmount.val then alphaAmount else maxAmount) =
            moveAmount at h ⊢
          rcases hunstake : chain.unstakeFromSubnet rt originHotkey originColdkey originNetuid
            moveAmount rt.swap.minPrice with ⟨unstaked, e | tao'⟩
          · simp only [hunstake] at h
            cases h
          · simp only [hunstake] at h
            cases hrestake : unstaked.restake rt destinationColdkey destinationHotkey
                destinationNetuid tao' with
            | error e =>
                simp only [hrestake] at h
                cases h
            | ok final =>
                simp only [hrestake] at h
                cases h
                refine ⟨unstaked, rfl, ?_⟩
                unfold restake at hrestake
                split_ifs at hrestake with hmin
                · left
                  refine ⟨hmin, ?_⟩
                  unfold Restaked
                  cases hstake : (unstaked.delegateIfNotOwner rt destinationColdkey
                      destinationHotkey).stakeIntoSubnet rt destinationHotkey destinationColdkey
                      destinationNetuid tao rt.swap.maxPrice with
                  | error e =>
                      rw [hstake] at hrestake
                      cases hrestake
                  | ok staked =>
                      rw [hstake] at hrestake
                      cases hrestake
                      exact ⟨staked.2, rfl⟩
                · cases hrestake
                  exact Or.inr ⟨not_le.mp hmin, rfl⟩

/-- A transition that succeeds moves what was asked for, or what the limit price
allows when that is less. -/
theorem transitionAmount_le
    (h : chain.transitionStakeInternal rt originColdkey destinationColdkey originHotkey
      destinationHotkey originNetuid destinationNetuid alphaAmount maybeLimitPrice
      maybeAllowPartial checkTransferToggle = .ok (chain', tao)) :
    ∃ maxAmount, chain.maxTransitionAmount rt originNetuid destinationNetuid alphaAmount
        maybeLimitPrice = .ok maxAmount ∧
      (chain.transitionAmount rt originNetuid destinationNetuid alphaAmount
        maybeLimitPrice).val = min alphaAmount.val maxAmount.val := by
  unfold transitionStakeInternal at h
  unfold transitionAmount
  cases hmax : chain.maxTransitionAmount rt originNetuid destinationNetuid alphaAmount
      maybeLimitPrice with
  | error e =>
      simp only [hmax] at h
      cases h
  | ok maxAmount =>
      refine ⟨maxAmount, rfl, ?_⟩
      simp only
      split_ifs <;> omega

end Chain

/-! ## The simulated swap -/

section

variable {A : Type} [DecidableEq A] {cfg : Swap.Config A} {info : SubnetInfo}
  {storage storage' : SwapStorage A} {netuid : NetUid} {amount : U64} {result : Swap.SwapResult}

/-- A swap that succeeds has the result that the rolled back swap has. -/
theorem Swap.Pool.doSwap_simulate {env : Swap.Env A} {pool pool' : Swap.Pool A}
    {order : Swap.OrderType} {limit : Swap.SqrtPrice}
    (h : pool.doSwap cfg env order amount limit false = (pool', .ok result)) :
    pool.doSwap cfg env order amount limit true = (pool, .ok result) := by
  unfold Swap.Pool.doSwap at h ⊢
  cases hinner : pool.swapInner cfg env order amount limit with
  | error e =>
      rw [hinner] at h
      cases h
  | ok swapped =>
      obtain ⟨swapped, r⟩ := swapped
      simp only [hinner] at h ⊢
      rw [if_neg (by decide), Prod.mk.injEq] at h
      split_ifs at h
      · cases h.2
      · obtain ⟨-, h⟩ := h
        cases h
        rfl

theorem swapPalletSwap_rollback {order : Swap.OrderType} {priceLimit : U64}
    (h : swapPalletSwap cfg info storage netuid order amount priceLimit false =
      (storage', .ok result)) :
    (swapPalletSwap cfg info storage netuid order amount priceLimit true).2 = .ok result := by
  unfold swapPalletSwap at h ⊢
  cases hlimit : limitSqrtPrice priceLimit with
  | none =>
      rw [hlimit] at h
      cases h
  | some limit =>
      simp only [hlimit, Prod.mk.injEq] at h ⊢
      rcases hswap : (storage.pool netuid).doSwap cfg (swapEnv info) order amount limit false with
        ⟨pool', e | r⟩
      · rw [hswap] at h
        cases h.2
      · rw [hswap] at h
        obtain ⟨-, h⟩ := h
        cases h
        rw [Swap.Pool.doSwap_simulate hswap]
        rfl

end

namespace Chain

variable {A B : Type} [DecidableEq A] {rt : Runtime A B (SwapStorage A)} {cfg : Swap.Config A}
  {chain chain' : Chain A B (SwapStorage A)}
  {originColdkey destinationColdkey originHotkey destinationHotkey : A}
  {originNetuid destinationNetuid : NetUid} {alphaAmount tao : U64}
  {maybeLimitPrice : Option U64} {maybeAllowPartial : Option Bool} {checkTransferToggle : Bool}

/-- What a sale at the lowest price pays is what `sim_swap` promised. -/
theorem simSwap_of_swapAlphaForTao (hswap : rt.swap = swapPallet cfg) {netuid : NetUid}
    {alpha : U64} {result : Swap.SwapResult}
    (h : chain.swapAlphaForTao rt netuid alpha rt.swap.minPrice = (chain', .ok result)) :
    chain.simSwap rt netuid .sell alpha = .ok result := by
  rcases swapAlphaForTao_cases rt chain netuid alpha rt.swap.minPrice with
    ⟨hdyn, heq⟩ | ⟨hdyn, swap, swapResult, hsold, ⟨e, rfl, heq⟩ | ⟨r, rfl, heq⟩⟩
  · rw [heq] at h
    cases h
    exact oneToOneStable_of_swapPallet hswap _ _ _ _ _ (of_decide_eq_false hdyn)
  · rw [heq] at h
    cases h
  · rw [heq] at h
    cases h
    unfold simSwap
    rw [hswap] at hsold ⊢
    have hmechanism : (chain.subnetInfo netuid).mechanism.val = 1 := of_decide_eq_true hdyn
    show swapPalletSimSwap cfg _ _ _ _ _ = _
    unfold swapPalletSimSwap
    rw [if_pos hmechanism]
    exact swapPalletSwap_rollback hsold

/-- What a purchase at the highest price pays is what `sim_swap` promised. -/
theorem simSwap_of_swapTaoForAlpha (hswap : rt.swap = swapPallet cfg) {netuid : NetUid}
    {result : Swap.SwapResult}
    (h : chain.swapTaoForAlpha rt netuid tao rt.swap.maxPrice = (chain', .ok result)) :
    chain.simSwap rt netuid .buy tao = .ok result := by
  rcases swapTaoForAlpha_cases rt chain netuid tao rt.swap.maxPrice with
    ⟨hdyn, heq⟩ | ⟨hdyn, swap, swapResult, hbought, ⟨e, rfl, heq⟩ | ⟨r, rfl, heq⟩⟩
  · rw [heq] at h
    cases h
    exact oneToOneStable_of_swapPallet hswap _ _ _ _ _ (of_decide_eq_false hdyn)
  · rw [heq] at h
    cases h
  · rw [heq] at h
    cases h
    unfold simSwap
    rw [hswap] at hbought ⊢
    have hmechanism : (chain.subnetInfo netuid).mechanism.val = 1 := of_decide_eq_true hdyn
    show swapPalletSimSwap cfg _ _ _ _ _ = _
    unfold swapPalletSimSwap
    rw [if_pos hmechanism]
    exact swapPalletSwap_rollback hbought

theorem decreaseStake_simSwap {hotkey coldkey : A} {netuid : NetUid} {amount taken : U64}
    {chain₁ : Chain A B (SwapStorage A)}
    (h : chain.decreaseStakeForHotkeyAndColdkeyOnSubnet hotkey coldkey netuid amount =
      (chain₁, taken)) (n : NetUid) (order : Swap.OrderType) (alpha : U64) :
    chain₁.simSwap rt n order alpha = chain.simSwap rt n order alpha := by
  rcases decreaseStake_cases chain hotkey coldkey netuid amount with
    heq | ⟨value, -, -, updated, -, heq⟩
  · rw [heq] at h
    cases h
    rfl
  · rw [heq] at h
    cases h
    rfl

theorem saleProceeds_of_unstake (hswap : rt.swap = swapPallet cfg) {hotkey coldkey : A}
    {netuid : NetUid} {alpha : U64}
    (h : chain.unstakeFromSubnet rt hotkey coldkey netuid alpha rt.swap.minPrice =
      (chain', .ok tao)) :
    chain.saleProceeds rt coldkey hotkey netuid alpha = tao := by
  obtain ⟨chain₁, taken, hdec, ⟨chain₂, e, -, heq⟩ | ⟨chain₂, result, hsold, heq⟩⟩ :=
    unstakeFromSubnet_cases rt chain hotkey coldkey netuid alpha rt.swap.minPrice
  · rw [heq] at h
    cases h
  · rw [heq] at h
    cases h
    have hsim := simSwap_of_swapAlphaForTao hswap hsold
    rw [decreaseStake_simSwap hdec] at hsim
    unfold saleProceeds
    rw [hdec]
    simp only [hsim]

/-! ## The total stake -/

/-- The small chain with a second dynamic subnet. -/
def twoSubnetChain : Chain ℕ (Balances ℕ) (SwapStorage ℕ) :=
  { smallChain with
    networksAdded := smallChain.networksAdded.insert (.sat 2) true
    subnets := fun netuid => smallSubnet (if netuid.val = 0 then 0 else .sat 1)
    reserves := fun netuid => if netuid.val = 0 then ⟨0, 0, 0, 0, 0, 0⟩ else smallReserves
    ledger :=
      { smallChain.ledger with totalIssuance := .sat 12000000000, totalStake := .sat 2000000000 } }

/-- After the coldkey staked one TAO on the first subnet. -/
def stakedChain : Chain ℕ (Balances ℕ) (SwapStorage ℕ) :=
  twoSubnetChain.apply runtime (.addStake 10 1 (.sat 1) (.sat 1000000000))

end Chain

end Subtensor
