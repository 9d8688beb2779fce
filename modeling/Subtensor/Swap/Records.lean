import Subtensor.Swap.OpSpec

/-!
# Prices do not depend on records

A swap reads ticks, price and liquidity. Who holds positions, and under which
ids, it does not read, so a swap on one subnet does not change what another
subnet pays, although the two share the counter of position ids.
-/

namespace Subtensor.Swap

open Subtensor.Lib

namespace Pool

variable {A : Type} {cfg : Config A} {orderType : OrderType}

/-- The same market with other records of positions and ids. -/
def withRecords (pool : Pool A) (positions : StorageMap (A × PositionId) Position)
    (lastPositionId : U128) : Pool A :=
  { pool with positions := positions, lastPositionId := lastPositionId }

variable (pool : Pool A) (positions : StorageMap (A × PositionId) Position)
  (lastPositionId : U128)

/-! ## One step -/

theorem calculateFeeAmount_withRecords (amount : U64) :
    (pool.withRecords positions lastPositionId).calculateFeeAmount amount =
      pool.calculateFeeAmount amount := by
  unfold calculateFeeAmount
  rfl

theorem recalculateFee_withRecords (deltaIn : U64) :
    (pool.withRecords positions lastPositionId).recalculateFee deltaIn =
      pool.recalculateFee deltaIn := by
  unfold recalculateFee
  rfl

theorem convertDeltas_withRecords (deltaIn : U64) :
    (pool.withRecords positions lastPositionId).convertDeltas orderType deltaIn =
      pool.convertDeltas orderType deltaIn := by
  unfold convertDeltas
  rfl

theorem addFees_withRecords (fee : U64) :
    (pool.withRecords positions lastPositionId).addFees cfg orderType fee =
      (pool.addFees cfg orderType fee).withRecords positions lastPositionId := by
  unfold addFees
  split_ifs with hdry hdry' hdry'
  · rfl
  · exact absurd hdry hdry'
  · exact absurd hdry' hdry
  · cases orderType with
    | buy => rfl
    | sell => rfl

theorem nextStep_withRecords (limit : SqrtPrice) (amount : U64) :
    (pool.withRecords positions lastPositionId).nextStep orderType limit amount =
      pool.nextStep orderType limit amount := by
  have hnew : SwapStep.new (pool.withRecords positions lastPositionId) orderType amount limit =
      SwapStep.new pool orderType amount limit := by
    unfold SwapStep.new
    rw [calculateFeeAmount_withRecords]
    rfl
  unfold nextStep
  rw [hnew]
  unfold SwapStep.determineAction SwapStep.stopAtClosest
  simp only [recalculateFee_withRecords]

theorem cross_withRecords (step : SwapStep) :
    step.cross (pool.withRecords positions lastPositionId) =
      (step.cross pool).map fun crossed => crossed.withRecords positions lastPositionId := by
  unfold SwapStep.cross updateLiquidityAtCrossing
  have hedge : (pool.withRecords positions lastPositionId).ticks
      ((pool.withRecords positions lastPositionId).tickEdge
        (pool.withRecords positions lastPositionId).currentBounded step.orderType) =
      pool.ticks (pool.tickEdge pool.currentBounded step.orderType) := rfl
  rw [hedge]
  cases pool.ticks (pool.tickEdge pool.currentBounded step.orderType) with
  | none => rfl
  | some tick => rfl

theorem processSwap_withRecords (step : SwapStep) :
    step.processSwap cfg (pool.withRecords positions lastPositionId) =
      (step.processSwap cfg pool).map fun res =>
        (res.1.withRecords positions lastPositionId, res.2) := by
  unfold SwapStep.processSwap
  simp only [addFees_withRecords, convertDeltas_withRecords, cross_withRecords]
  split_ifs with hcross
  · cases step.cross (pool.addFees cfg step.orderType step.fee) with
    | error e => rfl
    | ok crossed => rfl
  · rfl

/-! ## The whole swap -/

theorem swapLoop_withRecords (limit : SqrtPrice) : ∀ (n : ℕ) (pool : Pool A) (acc : SwapAcc),
    swapLoop cfg orderType limit n (pool.withRecords positions lastPositionId) acc =
      (swapLoop cfg orderType limit n pool acc).map fun res =>
        (res.1.withRecords positions lastPositionId, res.2) := by
  intro n
  induction n with
  | zero =>
      intro pool acc
      unfold swapLoop
      simp only [nextStep_withRecords, processSwap_withRecords]
      split_ifs
      · rfl
      · cases (pool.nextStep orderType limit acc.amountRemaining).processSwap cfg pool with
        | error e => rfl
        | ok res => rfl
  | succ n ih =>
      intro pool acc
      unfold swapLoop
      simp only [nextStep_withRecords, processSwap_withRecords]
      split_ifs
      · rfl
      · cases (pool.nextStep orderType limit acc.amountRemaining).processSwap cfg pool with
        | error e => rfl
        | ok res => exact ih res.1 _

theorem addLiquidityAtIndex_withRecords (tickIndex : ℤ) (liquidity : U64) (upper : Bool) :
    (pool.withRecords positions lastPositionId).addLiquidityAtIndex tickIndex liquidity upper =
      (pool.addLiquidityAtIndex tickIndex liquidity upper).withRecords positions
        lastPositionId := rfl

theorem clampSqrtPrice_withRecords (tickIndex : ℤ) :
    (pool.withRecords positions lastPositionId).clampSqrtPrice tickIndex =
      (pool.clampSqrtPrice tickIndex).withRecords positions lastPositionId := by
  unfold clampSqrtPrice
  split_ifs
  · rfl
  · rfl

theorem updateLiquidityIfNeeded_withRecords (tickLow tickHigh : ℤ) (liquidity : I128) :
    (pool.withRecords positions lastPositionId).updateLiquidityIfNeeded tickLow tickHigh liquidity =
      (pool.updateLiquidityIfNeeded tickLow tickHigh liquidity).withRecords positions
        lastPositionId := by
  have hbounded : (pool.withRecords positions lastPositionId).currentBounded =
    pool.currentBounded := rfl
  unfold updateLiquidityIfNeeded
  rw [hbounded]
  by_cases hactive : tickLow ≤ pool.currentBounded ∧ pool.currentBounded < tickHigh
  · rw [if_pos hactive, if_pos hactive]
    rfl
  · rw [if_neg hactive, if_neg hactive]

theorem addLiquidityToTicks_withRecords (tickLow tickHigh : ℤ) (liquidity : U64) :
    (pool.withRecords positions lastPositionId).addLiquidityToTicks tickLow tickHigh liquidity =
      (pool.addLiquidityToTicks tickLow tickHigh liquidity).withRecords positions
        lastPositionId := by
  unfold addLiquidityToTicks
  simp only [addLiquidityAtIndex_withRecords]
  rw [← updateLiquidityIfNeeded_withRecords, ← clampSqrtPrice_withRecords]
  rfl

variable [DecidableEq A] {env : Env A}

omit [DecidableEq A] in
/-- What a position holds does not depend on its id, nor on the fees. -/
theorem toTokenAmounts_new (id : PositionId) (tickLow tickHigh : ℤ) (liquidity : U64)
    (price : SqrtPrice) :
    (Position.new pool id tickLow tickHigh liquidity).toTokenAmounts price =
      (⟨0, tickLow, tickHigh, liquidity, 0, 0⟩ : Position).toTokenAmounts price := rfl

/-- The new position has another id, and holds the same amounts. -/
theorem addLiquidityNotInsert_withRecords (cfg : Config A) (coldkey : A) (tickLow tickHigh : ℤ)
    (liquidity : U64) :
    let id := lastPositionId.satAdd (.sat 1)
    (pool.withRecords pool.positions lastPositionId).addLiquidityNotInsert cfg coldkey tickLow
        tickHigh liquidity =
      (pool.addLiquidityNotInsert cfg coldkey tickLow tickHigh liquidity).map fun res =>
        (res.1.withRecords res.1.positions id, { res.2.1 with id := id }, res.2.2) := by
  intro id
  have hcount : (pool.withRecords pool.positions lastPositionId).countPositions coldkey =
    pool.countPositions coldkey := rfl
  have hkeeps : (pool.addLiquidityToTicks tickLow tickHigh liquidity).positions =
    pool.positions := by
    rcases addLiquidityToTicks_frame pool tickLow tickHigh liquidity with ⟨price, liq, hframe⟩
    rw [hframe]
    rfl
  unfold addLiquidityNotInsert
  rw [hcount, addLiquidityToTicks_withRecords]
  split_ifs with hroom
  · generalize pool.addLiquidityToTicks tickLow tickHigh liquidity = q at hkeeps ⊢
    rw [← hkeeps]
    simp only [toTokenAmounts_new, withRecords, currentPriceSqrt]
    cases (⟨0, tickLow, tickHigh, liquidity, 0, 0⟩ : Position).toTokenAmounts q.alphaSqrtPrice with
    | error e => rfl
    | ok amounts => rfl
  · rfl

/-- The first trade records the position of the protocol under the next id, and the market
that it starts does not depend on the id. -/
theorem maybeInitializeV3_withRecords :
    (∃ e, pool.maybeInitializeV3 cfg env = .error e ∧
        (pool.withRecords pool.positions lastPositionId).maybeInitializeV3 cfg env = .error e) ∨
      ∃ pool₀ positions last, pool.maybeInitializeV3 cfg env = .ok pool₀ ∧
        (pool.withRecords pool.positions lastPositionId).maybeInitializeV3 cfg env =
          .ok (pool₀.withRecords positions last) := by
  unfold maybeInitializeV3
  have hflag : (pool.withRecords pool.positions lastPositionId).swapV3Initialized =
    pool.swapV3Initialized := rfl
  rw [hflag]
  split_ifs with hinit
  · exact Or.inr ⟨pool, pool.positions, lastPositionId, rfl, rfl⟩
  · dsimp only
    generalize (checkedSqrt _ sqrtEpsilon).getD 0 = price
    have hadd := addLiquidityNotInsert_withRecords { pool with
        alphaSqrtPrice := price
        currentTick := TickIndex.fromSqrtPriceBounded price : Pool A } lastPositionId cfg
      cfg.protocolAccountId TickIndex.MIN TickIndex.MAX
      (liquidityOfReserves env.taoReserve env.alphaReserve)
    simp only [withRecords] at hadd ⊢
    rw [hadd]
    cases { pool with
        alphaSqrtPrice := price
        currentTick := TickIndex.fromSqrtPriceBounded price : Pool A
      }.addLiquidityNotInsert cfg cfg.protocolAccountId TickIndex.MIN TickIndex.MAX
        (liquidityOfReserves env.taoReserve env.alphaReserve) with
    | error e => exact Or.inl ⟨e, rfl, rfl⟩
    | ok res => exact Or.inr ⟨_, _, _, rfl, rfl⟩

theorem swapInner_withRecords (amount : U64) (limit : SqrtPrice) :
    ((pool.withRecords pool.positions lastPositionId).swapInner cfg env orderType amount limit).map
        Prod.snd = (pool.swapInner cfg env orderType amount limit).map Prod.snd := by
  unfold swapInner
  by_cases hreserves : cfg.minimumReserve.val ≤ env.taoReserve.val ∧
      cfg.minimumReserve.val ≤ env.alphaReserve.val
  · rw [if_neg (not_not.mpr hreserves), if_neg (not_not.mpr hreserves)]
    rcases pool.maybeInitializeV3_withRecords lastPositionId with
      ⟨e, hinit, hinit'⟩ | ⟨pool₀, positions, last, hinit, hinit'⟩
    · rw [hinit, hinit']
    · rw [hinit, hinit']
      simp only [swapLoop_withRecords]
      cases swapLoop cfg orderType limit maxSwapIterations pool₀ ⟨amount, 0, 0, 0⟩ with
      | error e => rfl
      | ok res => rfl
  · rw [if_pos hreserves, if_pos hreserves]

/-- **Ids do not matter.** What a swap results in is the same whatever the counter of
position ids says. -/
theorem doSwap_withRecords (amount : U64) (limit : SqrtPrice) (simulate : Bool) :
    ((pool.withRecords pool.positions lastPositionId).doSwap cfg env orderType amount limit
        simulate).2 = (pool.doSwap cfg env orderType amount limit simulate).2 := by
  have hinner : ((pool.withRecords pool.positions lastPositionId).swapInner cfg env orderType
      amount limit).map Prod.snd = (pool.swapInner cfg env orderType amount limit).map Prod.snd :=
    pool.swapInner_withRecords lastPositionId amount limit
  unfold doSwap
  cases h : pool.swapInner cfg env orderType amount limit with
  | error e =>
      cases h' : (pool.withRecords pool.positions lastPositionId).swapInner cfg env orderType amount
          limit with
      | error e' =>
          rw [h, h'] at hinner
          cases hinner
          rfl
      | ok res' =>
          rw [h, h'] at hinner
          cases hinner
  | ok res =>
      cases h' : (pool.withRecords pool.positions lastPositionId).swapInner cfg env orderType amount
          limit with
      | error e' =>
          rw [h, h'] at hinner
          cases hinner
      | ok res' =>
          rw [h, h'] at hinner
          have hresult : res'.2 = res.2 := Except.ok.inj hinner
          simp only [hresult]
          cases simulate with
          | true => rfl
          | false =>
              by_cases hover : (checkedReserve env orderType).val < res.2.amountPaidOut.val
              · rfl
              · rfl

end Pool

end Subtensor.Swap
