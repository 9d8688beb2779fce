import Subtensor.Lib.StorageMap
import Subtensor.Swap.Bitmap

/-!
# The pool of a subnet

The storage of the swap pallet for one subnet, with the reading functions of
ticks and positions (`pallets/swap/src/pallet/mod.rs`, `position.rs`,
`tick.rs`). Every storage map of the pallet has the subnet as its first key
and no function reads the entries of another subnet; only `LastPositionId`
is shared between subnets.
-/

namespace Subtensor.Swap

open Subtensor.Lib

/-! ## Storage -/

inductive OrderType where
  | sell
  | buy
deriving DecidableEq

structure Tick where
  liquidityNet : I128
  liquidityGross : U64
  feesOutTao : I64F64
  feesOutAlpha : I64F64
deriving DecidableEq

def Tick.default : Tick := ⟨0, 0, 0, 0⟩

def Tick.feesOut (tick : Tick) (quote : Bool) : I64F64 :=
  if quote then tick.feesOutTao else tick.feesOutAlpha

/-- `abs` wraps on the least `i128`, whose low 64 bits are zero. -/
def Tick.liquidityNetAsU64 (tick : Tick) : U64 :=
  if tick.liquidityNet.val = -2 ^ 127 then 0 else .sat tick.liquidityNet.val.natAbs

abbrev PositionId := U128

structure Position where
  id : PositionId
  tickLow : ℤ
  tickHigh : ℤ
  liquidity : U64
  feesTao : I64F64
  feesAlpha : I64F64
deriving DecidableEq

/-- The storage items of one subnet, and `LastPositionId`. -/
structure Pool (A : Type) where
  feeRate : U16
  feeGlobalTao : U64F64
  feeGlobalAlpha : U64F64
  ticks : ℤ → Option Tick
  swapV3Initialized : Bool
  alphaSqrtPrice : SqrtPrice
  currentTick : ℤ
  currentLiquidity : U64
  enabledUserLiquidity : Bool
  positions : StorageMap (A × PositionId) Position
  lastPositionId : U128
  tickIndexBitmapWords : BitmapWords

/-- The storage of a subnet that was never traded. Its fee rate and the flag
for user liquidity can be set beforehand, and positions of other subnets
have their ids. -/
def Pool.fresh {A : Type} (feeRate : U16) (enabledUserLiquidity : Bool)
    (lastPositionId : U128) : Pool A where
  feeRate := feeRate
  feeGlobalTao := 0
  feeGlobalAlpha := 0
  ticks := fun _ => none
  swapV3Initialized := false
  alphaSqrtPrice := 0
  currentTick := 0
  currentLiquidity := 0
  enabledUserLiquidity := enabledUserLiquidity
  positions := ∅
  lastPositionId := lastPositionId
  tickIndexBitmapWords := fun _ _ => 0

/-- The constants of the pallet's configuration. -/
structure Config (A : Type) where
  maxFeeRate : U16
  maxPositions : U32
  minimumLiquidity : U64
  minimumReserve : U64
  minimumReserve_pos : 0 < minimumReserve.val
  protocolAccountId : A

/-- What the pallet reads from the rest of the chain: the reserves of the
subnet (`SubnetInfo`) and the balances of accounts (`BalanceOps`). -/
structure Env (A : Type) where
  taoReserve : U64
  alphaReserve : U64
  taoBalance : A → U64
  alphaBalance : A → A → U64

inductive SwapError where
  | feeRateTooHigh
  | insufficientLiquidity
  | insufficientBalance
  | liquidityNotFound
  | invalidTickRange
  | maxPositionsExceeded
  | tooManySwapSteps
  | invalidLiquidityValue
  | reservesTooLow
  | userLiquidityDisabled
deriving DecidableEq

namespace Pool

variable {A : Type}

/-! ## Current values -/

def currentPriceSqrt (pool : Pool A) : SqrtPrice := pool.alphaSqrtPrice

/-- `TickIndex::current_bounded`. -/
def currentBounded (pool : Pool A) : ℤ :=
  if TickIndex.MAX < pool.currentTick then TickIndex.MAX
  else if pool.currentTick < TickIndex.MIN then TickIndex.MIN
  else pool.currentTick

/-- Current liquidity less the minimum that keeps the arithmetic safe. -/
def currentLiquiditySafe (cfg : Config A) (pool : Pool A) : U64F64 :=
  .ofNat (pool.currentLiquidity.satSub cfg.minimumLiquidity).val

/-! ## Fees -/

def feeGlobal (pool : Pool A) (quote : Bool) : U64F64 :=
  if quote then pool.feeGlobalTao else pool.feeGlobalAlpha

def feesAbove (pool : Pool A) (tickIndex : ℤ) (quote : Bool) : I64F64 :=
  let tick := (pool.ticks tickIndex).getD Tick.default
  if tickIndex ≤ pool.currentBounded then
    (IFixed.ofUFixed (pool.feeGlobal quote)).satSub (tick.feesOut quote)
  else tick.feesOut quote

def feesBelow (pool : Pool A) (tickIndex : ℤ) (quote : Bool) : I64F64 :=
  let tick := (pool.ticks tickIndex).getD Tick.default
  if tickIndex ≤ pool.currentBounded then tick.feesOut quote
  else (IFixed.ofUFixed (pool.feeGlobal quote)).satSub (tick.feesOut quote)

def feesInRange (pool : Pool A) (position : Position) (quote : Bool) : I64F64 :=
  ((IFixed.ofUFixed (pool.feeGlobal quote)).satSub
    (pool.feesBelow position.tickLow quote)).satSub (pool.feesAbove position.tickHigh quote)

end Pool

namespace Position

variable {A : Type}

/-- `Position::new`; the fees of a new position start at the present value. -/
def new (pool : Pool A) (id : PositionId) (tickLow tickHigh : ℤ) (liquidity : U64) : Position :=
  let position : Position := ⟨id, tickLow, tickHigh, liquidity, 0, 0⟩
  { position with
    feesTao := pool.feesInRange position true
    feesAlpha := pool.feesInRange position false }

/-- The fees since the last collection, in one of the two tokens. -/
def feeOf (liquidity : U64) (agg last : I64F64) : U64 :=
  ((IFixed.ofInt liquidity.val).satMul (agg.satSub last) : I64F64).toWord 64

/-- The position after the collection, and the fees in TAO and alpha. -/
def collectFees (pool : Pool A) (position : Position) : Position × U64 × U64 :=
  let feeTaoAgg := pool.feesInRange position true
  let feeAlphaAgg := pool.feesInRange position false
  ({ position with feesTao := feeTaoAgg, feesAlpha := feeAlphaAgg },
    feeOf position.liquidity feeTaoAgg position.feesTao,
    feeOf position.liquidity feeAlphaAgg position.feesAlpha)

def one : U64F64 := .ofNat 1

/-- Amounts of TAO and alpha that the position holds at a price. -/
def toTokenAmounts (position : Position) (sqrtPriceCurr : SqrtPrice) :
    Except SwapError (U64 × U64) := do
  let sqrtPriceLow ← (TickIndex.tryToSqrtPrice position.tickLow).mapError
    fun _ => SwapError.invalidTickRange
  let sqrtPriceHigh ← (TickIndex.tryToSqrtPrice position.tickHigh).mapError
    fun _ => SwapError.invalidTickRange
  let liquidityFixed : U64F64 := .ofNat position.liquidity.val
  return if sqrtPriceCurr.bits < sqrtPriceLow.bits then
      (0, (liquidityFixed.satMul
        ((one.safeDiv sqrtPriceLow).satSub (one.safeDiv sqrtPriceHigh))).toWord 64)
    else if sqrtPriceHigh.bits < sqrtPriceCurr.bits then
      ((liquidityFixed.satMul (sqrtPriceHigh.satSub sqrtPriceLow)).toWord 64, 0)
    else
      ((liquidityFixed.satMul (sqrtPriceCurr.satSub sqrtPriceLow)).toWord 64,
        (liquidityFixed.satMul
          ((one.safeDiv sqrtPriceCurr).satSub (one.safeDiv sqrtPriceHigh))).toWord 64)

end Position

end Subtensor.Swap
