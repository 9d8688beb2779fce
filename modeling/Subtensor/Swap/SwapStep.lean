import Subtensor.Swap.Liquidity

/-!
# Swaps

A swap moves the price one tick interval at a time (`SwapStep` and `do_swap`
in `pallets/swap/src/pallet/impls.rs`). The loop is bounded by
`MAX_SWAP_ITERATIONS`; `do_swap` runs it in a transaction of its own.
-/

namespace Subtensor.Swap

open Subtensor.Lib

def maxSwapIterations : ℕ := 1000

inductive SwapStepAction where
  | crossing
  | stop
deriving DecidableEq

/-! ## Price limits -/

/-- `SwapHandler::min_price`. -/
def minPrice : U64 :=
  ((TickIndex.minSqrtPrice.satMul TickIndex.minSqrtPrice).satMul (.ofNat 1000000000)).toWord 64

/-- `SwapHandler::max_price`. -/
def maxPrice : U64 :=
  ((TickIndex.maxSqrtPrice.satMul TickIndex.maxSqrtPrice).satMul
    (.ofNat 1000000000)).satRound.toWord 64

/-- Whether `sqPrice₁` is closer to the current price than `sqPrice₂`. -/
def priceIsCloser (orderType : OrderType) (sqPrice₁ sqPrice₂ : SqrtPrice) : Bool :=
  match orderType with
  | .buy => sqPrice₁.bits ≤ sqPrice₂.bits
  | .sell => sqPrice₂.bits ≤ sqPrice₁.bits

/-- The input that moves the price to a target. -/
@[irreducible]
def deltaIn (orderType : OrderType) (liquidityCurr : U64F64)
    (sqrtPriceCurr sqrtPriceTarget : SqrtPrice) : U64 :=
  match orderType with
  | .sell => (liquidityCurr.satMul ((Position.one.safeDiv sqrtPriceTarget).satSub
      (Position.one.safeDiv sqrtPriceCurr))).toWord 64
  | .buy => (liquidityCurr.satMul (sqrtPriceTarget.satSub sqrtPriceCurr)).toWord 64

/-- The price after all of `deltaIn` is traded at the present liquidity. -/
@[irreducible]
def sqrtPriceTarget (orderType : OrderType) (liquidityCurr : U64F64) (sqrtPriceCurr : SqrtPrice)
    (deltaIn : U64) : SqrtPrice :=
  if liquidityCurr = 0 then
    match orderType with
    | .sell => .ofNat minPrice.val
    | .buy => .ofNat maxPrice.val
  else
    let deltaFixed : U64F64 := .ofNat deltaIn.val
    match orderType with
    | .sell => Position.one.safeDiv ((deltaFixed.safeDiv liquidityCurr).satAdd
        (Position.one.safeDiv sqrtPriceCurr))
    | .buy => (deltaFixed.safeDiv liquidityCurr).satAdd sqrtPriceCurr

namespace Pool

variable {A : Type}

/-! ## Ticks and fees of a step -/

/-- The closest lower tick of a sell. -/
def lowerEdge (pool : Pool A) (currentTick : ℤ) : ℤ :=
  let words := pool.tickIndexBitmapWords
  let isActive := ActiveTickIndexManager.tickIsActive words currentTick
  if isActive ∧ (TickIndex.asSqrtPriceBounded currentTick).bits < pool.currentPriceSqrt.bits then
    (ActiveTickIndexManager.findClosestLower words currentTick).getD TickIndex.MIN
  else
    (ActiveTickIndexManager.findClosestLower words
      ((TickIndex.prev currentTick).toOption.getD TickIndex.MIN)).getD TickIndex.MIN

/-- The closest higher tick of a buy. -/
def upperEdge (pool : Pool A) (currentTick : ℤ) : ℤ :=
  (ActiveTickIndexManager.findClosestHigher pool.tickIndexBitmapWords
    ((TickIndex.next currentTick).toOption.getD TickIndex.MAX)).getD TickIndex.MAX

def tickEdge (pool : Pool A) (currentTick : ℤ) (orderType : OrderType) : ℤ :=
  match orderType with
  | .buy => pool.upperEdge currentTick
  | .sell => pool.lowerEdge currentTick

def u16Max : U64F64 := .ofNat 65535

@[irreducible]
def calculateFeeAmount (pool : Pool A) (amount : U64) : U64 :=
  let feeRate := (UFixed.ofNat pool.feeRate.val : U64F64).safeDiv u16Max
  ((UFixed.ofNat amount.val).satMul feeRate).toWord 64

/-- The fee on top of an input that is known. -/
@[irreducible]
def recalculateFee (pool : Pool A) (deltaIn : U64) : U64 :=
  let feeRate : U64F64 := .ofNat pool.feeRate.val
  ((UFixed.ofNat deltaIn.val).satMul (feeRate.safeDiv (u16Max.satSub feeRate))).toWord 64

/-- The fees per unit of liquidity that a step adds. -/
def feeIncrement (cfg : Config A) (pool : Pool A) (fee : U64) : U64F64 :=
  if pool.currentLiquiditySafe cfg = 0 then 0
  else (UFixed.ofNat fee.val).safeDiv (pool.currentLiquiditySafe cfg)

@[irreducible]
def addFees (cfg : Config A) (pool : Pool A) (orderType : OrderType) (fee : U64) : Pool A :=
  if pool.currentLiquiditySafe cfg = 0 then pool
  else
    match orderType with
    | .sell => { pool with
        feeGlobalAlpha := pool.feeGlobalAlpha.satAdd (pool.feeIncrement cfg fee) }
    | .buy => { pool with
        feeGlobalTao := pool.feeGlobalTao.satAdd (pool.feeIncrement cfg fee) }

/-- The output for an input within one tick interval. -/
@[irreducible]
def convertDeltas (pool : Pool A) (orderType : OrderType) (deltaIn : U64) : U64 :=
  if deltaIn = 0 then 0
  else
    let liquidityCurr : U64F64 := .ofNat pool.currentLiquidity.val
    let sqrtPriceCurr := pool.currentPriceSqrt
    let deltaFixed : U64F64 := .ofNat deltaIn.val
    match orderType with
    | .sell =>
        let denom := (liquidityCurr.safeDiv sqrtPriceCurr).satAdd deltaFixed
        let a := liquidityCurr.safeDiv denom
        let b := a.satMul sqrtPriceCurr
        (deltaFixed.satMul b).toWord 64
    | .buy =>
        let a := ((liquidityCurr.satMul sqrtPriceCurr).satAdd deltaFixed).satMul sqrtPriceCurr
        let b := liquidityCurr.safeDiv a
        (b.satMul deltaFixed).toWord 64

/-- The liquidity after the net liquidity of a crossed tick is added or
subtracted. -/
def crossLiquidity (orderType : OrderType) (liquidityCurr : U64) (tick : Tick) : U64 :=
  match orderType, decide (0 ≤ tick.liquidityNet.val) with
  | .sell, true | .buy, false => liquidityCurr.satSub tick.liquidityNetAsU64
  | .sell, false | .buy, true => liquidityCurr.satAdd tick.liquidityNetAsU64

def updateLiquidityAtCrossing (pool : Pool A) (orderType : OrderType) :
    Except SwapError (Pool A) :=
  match pool.ticks (pool.tickEdge pool.currentBounded orderType) with
  | none => .error .insufficientLiquidity
  | some tick =>
      .ok { pool with
        currentLiquidity := crossLiquidity orderType pool.currentLiquidity tick }

end Pool

/-! ## One step -/

structure SwapStep where
  orderType : OrderType
  currentLiquidity : U64F64
  possibleDeltaIn : U64
  targetSqrtPrice : SqrtPrice
  limitSqrtPrice : SqrtPrice
  currentSqrtPrice : SqrtPrice
  edgeSqrtPrice : SqrtPrice
  edgeTick : ℤ
  action : SwapStepAction
  deltaIn : U64
  finalPrice : SqrtPrice
  fee : U64
deriving DecidableEq

structure SwapStepResult where
  amountToTake : U64
  feePaid : U64
  deltaIn : U64
  deltaOut : U64
deriving DecidableEq

namespace SwapStep

variable {A : Type}

def new (pool : Pool A) (orderType : OrderType) (amountRemaining : U64)
    (limitSqrtPrice : SqrtPrice) : SwapStep :=
  let edgeTick := pool.tickEdge pool.currentTick orderType
  let fee := pool.calculateFeeAmount amountRemaining
  let possibleDeltaIn := amountRemaining.satSub fee
  let currentLiquidity : U64F64 := .ofNat pool.currentLiquidity.val
  let target := sqrtPriceTarget orderType currentLiquidity pool.currentPriceSqrt possibleDeltaIn
  { orderType := orderType
    currentLiquidity := currentLiquidity
    possibleDeltaIn := possibleDeltaIn
    targetSqrtPrice := target
    limitSqrtPrice := limitSqrtPrice
    currentSqrtPrice := pool.currentPriceSqrt
    edgeSqrtPrice := TickIndex.asSqrtPriceBounded edgeTick
    edgeTick := edgeTick
    action := .stop
    deltaIn := 0
    finalPrice := target
    fee := fee }

/-- The input that takes the price of the step to another price. -/
def deltaInTo (step : SwapStep) (price : SqrtPrice) : U64 :=
  Swap.deltaIn step.orderType step.currentLiquidity step.currentSqrtPrice price

/-- The three reasons for which a step can end: the whole amount is traded,
the limit is reached, or the edge of the tick interval is reached. -/
def stopAtClosest (pool : Pool A) (step : SwapStep) : SwapStep :=
  let closer := priceIsCloser step.orderType
  if closer step.targetSqrtPrice step.limitSqrtPrice ∧
      closer step.targetSqrtPrice step.edgeSqrtPrice then
    { step with
      action := .stop
      finalPrice := step.targetSqrtPrice
      deltaIn := step.possibleDeltaIn }
  else if closer step.limitSqrtPrice step.targetSqrtPrice ∧
      closer step.limitSqrtPrice step.edgeSqrtPrice then
    { step with
      action := .stop
      finalPrice := step.limitSqrtPrice
      deltaIn := step.deltaInTo step.limitSqrtPrice
      fee := pool.recalculateFee (step.deltaInTo step.limitSqrtPrice) }
  else
    { step with
      action := .crossing
      deltaIn := step.deltaInTo step.edgeSqrtPrice
      finalPrice := step.edgeSqrtPrice
      fee := pool.recalculateFee (step.deltaInTo step.edgeSqrtPrice) }

/-- The price at which the step would stop if there were no edge. -/
def naturalReasonStopPrice (step : SwapStep) : SqrtPrice :=
  if priceIsCloser step.orderType step.limitSqrtPrice step.targetSqrtPrice then
    step.limitSqrtPrice
  else step.targetSqrtPrice

/-- A buy that stops exactly at the edge crosses it, a sell does not. -/
def determineAction (pool : Pool A) (step : SwapStep) : SwapStep :=
  let stopped := step.stopAtClosest pool
  if step.naturalReasonStopPrice = step.edgeSqrtPrice then
    { stopped with
      action := match step.orderType with
        | .buy => .crossing
        | .sell => .stop }
  else stopped

/-- The fees of a tick are flipped when the price crosses it. -/
def flipFees (pool : Pool A) (tick : Tick) : Tick :=
  { tick with
    feesOutTao := (IFixed.ofUFixed pool.feeGlobalTao).satSub tick.feesOutTao
    feesOutAlpha := (IFixed.ofUFixed pool.feeGlobalAlpha).satSub tick.feesOutAlpha }

/-- The crossing part of `process_swap`. -/
def cross (pool : Pool A) (step : SwapStep) : Except SwapError (Pool A) :=
  let tick := flipFees pool ((pool.ticks step.edgeTick).getD Tick.default)
  match pool.updateLiquidityAtCrossing step.orderType with
  | .error e => .error e
  | .ok pool => .ok { pool with ticks := Function.update pool.ticks step.edgeTick (some tick) }

/-- The last part of `process_swap`: the price moves to the final price. -/
def updateCurrentPrice (pool : Pool A) (step : SwapStep) : Pool A :=
  { pool with
    alphaSqrtPrice := step.finalPrice
    currentTick := TickIndex.fromSqrtPriceBounded step.finalPrice }

def resultOf (step : SwapStep) (deltaOut : U64) : SwapStepResult where
  amountToTake := step.deltaIn.satAdd step.fee
  feePaid := step.fee
  deltaIn := step.deltaIn
  deltaOut := deltaOut

def processSwap (cfg : Config A) (pool : Pool A) (step : SwapStep) :
    Except SwapError (Pool A × SwapStepResult) :=
  let pool := pool.addFees cfg step.orderType step.fee
  let deltaOut := pool.convertDeltas step.orderType step.deltaIn
  match (if step.action = .crossing then step.cross pool else .ok pool) with
  | .error e => .error e
  | .ok pool => .ok (step.updateCurrentPrice pool, step.resultOf deltaOut)

end SwapStep

/-! ## The loop -/

structure SwapResult where
  amountPaidIn : U64
  amountPaidOut : U64
  feePaid : U64
  taoReserveDelta : ℤ
  alphaReserveDelta : ℤ
deriving DecidableEq

/-- The accumulators of the loop. -/
structure SwapAcc where
  amountRemaining : U64
  amountPaidOut : U64
  inAcc : U64
  feeAcc : U64
deriving DecidableEq

/-- The accumulators after a step. Nothing remains after a step that stops or
that exchanges nothing. -/
def SwapAcc.advance (acc : SwapAcc) (step : SwapStep) (result : SwapStepResult) : SwapAcc where
  amountRemaining :=
    if step.action = .stop ∨ result.amountToTake = 0 then 0
    else acc.amountRemaining.satSub result.amountToTake
  amountPaidOut := acc.amountPaidOut.satAdd result.deltaOut
  inAcc := acc.inAcc.satAdd result.deltaIn
  feeAcc := acc.feeAcc.satAdd result.feePaid

namespace Pool

variable {A : Type}

/-- The step that the loop executes next. -/
def nextStep (pool : Pool A) (orderType : OrderType) (limitSqrtPrice : SqrtPrice)
    (amountRemaining : U64) : SwapStep :=
  (SwapStep.new pool orderType amountRemaining limitSqrtPrice).determineAction pool

/-- The loop `while amount_remaining > 0`, with the iterations that are left
before it gives up. -/
def swapLoop (cfg : Config A) (orderType : OrderType) (limitSqrtPrice : SqrtPrice)
    (n : ℕ) (pool : Pool A) (acc : SwapAcc) : Except SwapError (Pool A × SwapAcc) :=
  if acc.amountRemaining = 0 then .ok (pool, acc)
  else
    let step := pool.nextStep orderType limitSqrtPrice acc.amountRemaining
    match step.processSwap cfg pool with
    | .error e => .error e
    | .ok (pool, result) =>
        match n with
        | 0 => .error .tooManySwapSteps
        | n + 1 => swapLoop cfg orderType limitSqrtPrice n pool (acc.advance step result)

/-- `value.neg()` on an `i64`, which wraps on the least value. -/
def negI64 (value : ℤ) : ℤ := if value = -2 ^ 63 then value else -value

def swapResult (orderType : OrderType) (acc : SwapAcc) : SwapResult :=
  { amountPaidIn := acc.inAcc
    amountPaidOut := acc.amountPaidOut
    feePaid := acc.feeAcc
    taoReserveDelta := match orderType with
      | .buy => asI64 acc.inAcc
      | .sell => negI64 (asI64 acc.amountPaidOut)
    alphaReserveDelta := match orderType with
      | .buy => negI64 (asI64 acc.amountPaidOut)
      | .sell => asI64 acc.inAcc }

section

variable [DecidableEq A]

def swapInner (cfg : Config A) (env : Env A) (pool : Pool A) (orderType : OrderType)
    (amount : U64) (limitSqrtPrice : SqrtPrice) : Except SwapError (Pool A × SwapResult) :=
  if ¬(cfg.minimumReserve.val ≤ env.taoReserve.val ∧
      cfg.minimumReserve.val ≤ env.alphaReserve.val) then .error .reservesTooLow
  else match pool.maybeInitializeV3 cfg env with
  | .error e => .error e
  | .ok pool =>
      match swapLoop cfg orderType limitSqrtPrice maxSwapIterations pool ⟨amount, 0, 0, 0⟩ with
      | .error e => .error e
      | .ok (pool, acc) => .ok (pool, swapResult orderType acc)

/-- The reserve that the payout of an order comes from. -/
def checkedReserve (env : Env A) (orderType : OrderType) : U64 :=
  match orderType with
  | .buy => env.alphaReserve
  | .sell => env.taoReserve

/-- The storage after the transaction of `do_swap`, and its result. -/
def doSwap (cfg : Config A) (env : Env A) (pool : Pool A) (orderType : OrderType)
    (amount : U64) (limitSqrtPrice : SqrtPrice) (simulate : Bool) :
    Pool A × Except SwapError SwapResult :=
  match pool.swapInner cfg env orderType amount limitSqrtPrice with
  | .error e => (pool, .error e)
  | .ok (swapped, result) =>
      if simulate then (pool, .ok result)
      else
        -- the changes persist also when the reserve turns out to be overused
        (swapped, if (checkedReserve env orderType).val < result.amountPaidOut.val then
            .error .insufficientLiquidity
          else .ok result)

end

end Pool

end Subtensor.Swap
