import Subtensor.Swap.Pool

/-!
# Liquidity operations

Adding, removing and modifying positions, the initialisation of a pool and
the injection of protocol liquidity (`pallets/swap/src/pallet/impls.rs`). An
operation that can fail returns the new pool on success; the storage layer of
the dispatch discards all writes of an operation that fails.
-/

namespace Subtensor.Swap

open Subtensor.Lib

/-! ## Signed liquidity -/

/-- `liquidity as i128`. -/
def asI128 (liquidity : U64) : I128 :=
  ⟨liquidity.val, by have := liquidity.isLt; omega, by have := liquidity.isLt; omega⟩

/-- `(liquidity as i128).neg()`. -/
def negI128 (liquidity : U64) : I128 :=
  ⟨-liquidity.val, by have := liquidity.isLt; omega, by have := liquidity.isLt; omega⟩

@[simp] theorem asI128_val (l : U64) : (asI128 l).val = l.val := rfl

@[simp] theorem negI128_val (l : U64) : (negI128 l).val = -l.val := rfl

/-- `i64::abs`, which wraps on the least value. -/
def absI64 (x : I64) : ℤ := if x.val = -2 ^ 63 then -2 ^ 63 else |x.val|

/-- `value as i64`. -/
def asI64 (value : U64) : ℤ := if value.val < 2 ^ 63 then value.val else value.val - 2 ^ 64

/-- `i64::unsigned_abs`. -/
def unsignedAbs (x : I64) : U64 :=
  ⟨x.val.natAbs, SWord.natAbs_lt x⟩

/-! ## Square roots -/

/-- `0.000000000001`. -/
def sqrtEpsilon : U64F64 := ⟨18446744, by norm_num⟩

/-- The bisection of `checked_sqrt`, with the iterations that are left. -/
def sqrtLoop (x epsilon : U64F64) : ℕ → U64F64 → U64F64 → U64F64 → U64F64
  | 0, _, _, middle => middle
  | n + 1, high, low, middle =>
      let checkVal := x.safeDiv middle
      if epsilon.bits < (checkVal.absDiff middle).bits then
        let high' := if checkVal.bits < middle.bits then middle else high
        let low' := if checkVal.bits < middle.bits then low else middle
        sqrtLoop x epsilon n high' low' ((high'.satAdd low').safeDiv (.ofNat 2))
      else middle

@[irreducible]
def checkedSqrt (x epsilon : U64F64) : Option U64F64 :=
  let one : U64F64 := .ofNat 1
  let high := if one.bits < x.bits then x else one
  let low := if one.bits < x.bits then 0 else x
  some (sqrtLoop x epsilon 129 high low ((high.satAdd low).safeDiv (.ofNat 2)))

/-- `helpers_128bit::sqrt(tao * alpha) as u64`. -/
def liquidityOfReserves (tao alpha : U64) : U64 :=
  ⟨Nat.sqrt (tao.val * alpha.val), by
    rw [Nat.sqrt_lt]
    exact Nat.mul_lt_mul'' tao.isLt alpha.isLt⟩

namespace Pool

variable {A : Type}

/-! ## Liquidity of ticks -/

/-- A tick that does not exist yet starts with all fees so far outside of it:
fees accrued above for a tick above the current one, none below. -/
def newTick (pool : Pool A) (tickIndex : ℤ) (net : I128) (liquidity : U64) : Tick :=
  if pool.currentBounded < tickIndex then
    ⟨net, liquidity, .ofUFixed pool.feeGlobalTao, .ofUFixed pool.feeGlobalAlpha⟩
  else ⟨net, liquidity, 0, 0⟩

def addLiquidityAtIndex (pool : Pool A) (tickIndex : ℤ) (liquidity : U64) (upper : Bool) :
    Pool A :=
  let netLiquidityChange := if upper then negI128 liquidity else asI128 liquidity
  let tick := match pool.ticks tickIndex with
    | some tick =>
        { tick with
          liquidityNet := tick.liquidityNet.satAdd netLiquidityChange
          liquidityGross := tick.liquidityGross.satAdd liquidity }
    | none => pool.newTick tickIndex netLiquidityChange liquidity
  { pool with
    ticks := Function.update pool.ticks tickIndex (some tick)
    tickIndexBitmapWords := ActiveTickIndexManager.insert pool.tickIndexBitmapWords tickIndex }

def removeLiquidityAtIndex (pool : Pool A) (tickIndex : ℤ) (liquidity : U64) (upper : Bool) :
    Pool A :=
  let netReduction := if upper then negI128 liquidity else asI128 liquidity
  match pool.ticks tickIndex with
  | none => pool
  | some tick =>
      let gross := tick.liquidityGross.satSub liquidity
      if gross = 0 then
        { pool with
          ticks := Function.update pool.ticks tickIndex none
          tickIndexBitmapWords :=
            ActiveTickIndexManager.remove pool.tickIndexBitmapWords tickIndex }
      else
        { pool with
          ticks := Function.update pool.ticks tickIndex (some { tick with
            liquidityNet := tick.liquidityNet.satSub netReduction
            liquidityGross := gross }) }

def updateLiquidityIfNeeded (pool : Pool A) (tickLow tickHigh : ℤ) (liquidity : I128) : Pool A :=
  if tickLow ≤ pool.currentBounded ∧ pool.currentBounded < tickHigh then
    let abs : U64 := .sat liquidity.val.natAbs
    { pool with
      currentLiquidity :=
        if liquidity.val < 0 then pool.currentLiquidity.satSub abs
        else pool.currentLiquidity.satAdd abs }
  else pool

def clampSqrtPrice (pool : Pool A) (tickIndex : ℤ) : Pool A :=
  if TickIndex.MAX ≤ tickIndex ∨ tickIndex ≤ TickIndex.MIN then
    { pool with alphaSqrtPrice := TickIndex.asSqrtPriceBounded tickIndex }
  else pool

/-! ## Positions -/

section

variable [DecidableEq A]

def countPositions (pool : Pool A) (accountId : A) : ℕ :=
  (pool.positions.entries.filter fun e => e.1.1 = accountId).length

/-- The tick and price writes of `add_liquidity_not_insert`. -/
def addLiquidityToTicks (pool : Pool A) (tickLow tickHigh : ℤ) (liquidity : U64) : Pool A :=
  let pool := pool.addLiquidityAtIndex tickLow liquidity false
  let pool := pool.addLiquidityAtIndex tickHigh liquidity true
  let pool := pool.clampSqrtPrice pool.currentBounded
  pool.updateLiquidityIfNeeded tickLow tickHigh (asI128 liquidity)

/-- Adds liquidity without storing the position. -/
def addLiquidityNotInsert (cfg : Config A) (pool : Pool A) (coldkeyAccountId : A)
    (tickLow tickHigh : ℤ) (liquidity : U64) :
    Except SwapError (Pool A × Position × U64 × U64) :=
  if ¬pool.countPositions coldkeyAccountId ≤ cfg.maxPositions.val then
    .error .maxPositionsExceeded
  else
    let pool := pool.addLiquidityToTicks tickLow tickHigh liquidity
    let positionId := pool.lastPositionId.satAdd (.sat 1)
    let pool := { pool with lastPositionId := positionId }
    let position := Position.new pool positionId tickLow tickHigh liquidity
    match position.toTokenAmounts pool.currentPriceSqrt with
    | .error e => .error e
    | .ok (tao, alpha) => .ok ({ pool with swapV3Initialized := true }, position, tao, alpha)

def doAddLiquidity (cfg : Config A) (env : Env A) (pool : Pool A)
    (coldkeyAccountId hotkeyAccountId : A) (tickLow tickHigh : ℤ) (liquidity : U64) :
    Except SwapError (Pool A × PositionId × U64 × U64) :=
  if ¬pool.enabledUserLiquidity then .error .userLiquidityDisabled
  else match pool.addLiquidityNotInsert cfg coldkeyAccountId tickLow tickHigh liquidity with
  | .error e => .error e
  | .ok (pool, position, tao, alpha) =>
      if ¬(tao.val ≤ (env.taoBalance coldkeyAccountId).val ∧
          alpha.val ≤ (env.alphaBalance coldkeyAccountId hotkeyAccountId).val) then
        .error .insufficientBalance
      else if ¬cfg.minimumLiquidity.val ≤ liquidity.val then .error .invalidLiquidityValue
      else
        .ok ({ pool with
          positions := pool.positions.insert (coldkeyAccountId, position.id) position },
          position.id, tao, alpha)

structure UpdateLiquidityResult where
  tao : U64
  alpha : U64
  feeTao : U64
  feeAlpha : U64
  removed : Bool
deriving DecidableEq

def doRemoveLiquidity (pool : Pool A) (coldkeyAccountId : A) (positionId : PositionId) :
    Except SwapError (Pool A × UpdateLiquidityResult) :=
  match pool.positions.lookup (coldkeyAccountId, positionId) with
  | none => .error .liquidityNotFound
  | some stored =>
      let (position, feeTao, feeAlpha) := stored.collectFees pool
      match position.toTokenAmounts pool.alphaSqrtPrice with
      | .error e => .error e
      | .ok (tao, alpha) =>
          let pool := pool.removeLiquidityAtIndex position.tickLow position.liquidity false
          let pool := pool.removeLiquidityAtIndex position.tickHigh position.liquidity true
          let pool := pool.updateLiquidityIfNeeded position.tickLow position.tickHigh
            (negI128 position.liquidity)
          .ok ({ pool with positions := pool.positions.erase (coldkeyAccountId, positionId) },
            ⟨tao, alpha, feeTao, feeAlpha, true⟩)

/-- The price at which a modification is settled. While the price is in the
range, bounds included, the modification changes the current liquidity. -/
def sqrtPriceBox (pool : Pool A) (sqrtPa sqrtPb : SqrtPrice) (liquidityDelta : I64) :
    Pool A × SqrtPrice :=
  if pool.currentPriceSqrt.bits < sqrtPa.bits then (pool, sqrtPa)
  else if sqrtPb.bits < pool.currentPriceSqrt.bits then (pool, sqrtPb)
  else
    ({ pool with
      currentLiquidity :=
        if 0 < liquidityDelta.val then pool.currentLiquidity.satAdd (unsignedAbs liquidityDelta)
        else pool.currentLiquidity.satSub (unsignedAbs liquidityDelta) },
      pool.currentPriceSqrt)

/-- The change of a position's liquidity at its two ticks. -/
def modifyTicks (pool : Pool A) (position : Position) (increase : Bool)
    (deltaLiquidityAbs : U64) : Pool A :=
  if increase then
    (pool.addLiquidityAtIndex position.tickLow deltaLiquidityAbs false).addLiquidityAtIndex
      position.tickHigh deltaLiquidityAbs true
  else
    (pool.removeLiquidityAtIndex position.tickLow deltaLiquidityAbs false).removeLiquidityAtIndex
      position.tickHigh deltaLiquidityAbs true

def doModifyPosition (cfg : Config A) (env : Env A) (pool : Pool A)
    (coldkeyAccountId hotkeyAccountId : A) (positionId : PositionId) (liquidityDelta : I64) :
    Except SwapError (Pool A × UpdateLiquidityResult) :=
  if ¬pool.enabledUserLiquidity then .error .userLiquidityDisabled
  else match pool.positions.lookup (coldkeyAccountId, positionId) with
  | none => .error .liquidityNotFound
  | some stored =>
      if ¬asI64 cfg.minimumLiquidity ≤ absI64 liquidityDelta then .error .invalidLiquidityValue
      else match TickIndex.tryToSqrtPrice stored.tickLow,
          TickIndex.tryToSqrtPrice stored.tickHigh with
      | .ok sqrtPa, .ok sqrtPb =>
          let deltaLiquidityAbs := unsignedAbs liquidityDelta
          let (pool, sqrtPriceBox) := pool.sqrtPriceBox sqrtPa sqrtPb liquidityDelta
          let mul := (Position.one.safeDiv sqrtPriceBox).satSub (Position.one.safeDiv sqrtPb)
          let alpha := (UFixed.ofNat deltaLiquidityAbs.val : U64F64).satMul mul
          let tao := (UFixed.ofNat deltaLiquidityAbs.val : U64F64).satMul
            (sqrtPriceBox.satSub sqrtPa)
          if 0 < liquidityDelta.val ∧
              ¬(tao.bits ≤ (env.taoBalance coldkeyAccountId).val * 2 ^ 64 ∧
                alpha.bits ≤ (env.alphaBalance coldkeyAccountId hotkeyAccountId).val * 2 ^ 64)
          then .error .insufficientBalance
          else if ¬0 < liquidityDelta.val ∧ ¬deltaLiquidityAbs.val ≤ stored.liquidity.val then
            .error .insufficientLiquidity
          else
            let (position, feeTao, feeAlpha) := stored.collectFees pool
            -- dust is not kept: the whole position goes
            let remove := decide (liquidityDelta.val < 0 ∧
              (position.liquidity.satSub deltaLiquidityAbs).val < cfg.minimumLiquidity.val)
            let deltaLiquidityAbs := if remove then position.liquidity else deltaLiquidityAbs
            let increase := decide (0 < liquidityDelta.val)
            let pool := pool.modifyTicks position increase deltaLiquidityAbs
            let position := { position with
              liquidity := if increase then position.liquidity.satAdd deltaLiquidityAbs
                else position.liquidity.satSub deltaLiquidityAbs }
            .ok ({ pool with
              positions := if remove then pool.positions.erase (coldkeyAccountId, positionId)
                else pool.positions.insert (coldkeyAccountId, position.id) position },
              ⟨tao.toWord 64, alpha.toWord 64, feeTao, feeAlpha, remove⟩)
      | _, _ => .error .invalidTickRange

/-! ## Protocol liquidity -/

def maybeInitializeV3 (cfg : Config A) (env : Env A) (pool : Pool A) :
    Except SwapError (Pool A) :=
  if pool.swapV3Initialized then .ok pool
  else
    let price : U64F64 := (UFixed.ofNat env.taoReserve.val).safeDiv (.ofNat env.alphaReserve.val)
    let currentSqrtPrice := (checkedSqrt price sqrtEpsilon).getD 0
    let pool := { pool with
      alphaSqrtPrice := currentSqrtPrice
      currentTick := TickIndex.fromSqrtPriceBounded currentSqrtPrice }
    let liquidity := liquidityOfReserves env.taoReserve env.alphaReserve
    match pool.addLiquidityNotInsert cfg cfg.protocolAccountId TickIndex.MIN TickIndex.MAX
        liquidity with
    | .error e => .error e
    | .ok (pool, position, _, _) =>
        .ok { pool with
          positions := pool.positions.insert (cfg.protocolAccountId, position.id) position }

def adjustProtocolLiquidity (cfg : Config A) (pool : Pool A) (taoDelta alphaDelta : U64) :
    Pool A :=
  match (pool.positions.entries.filter fun e => e.1.1 = cfg.protocolAccountId).head? with
  | none => pool
  | some e =>
      match e.2.toTokenAmounts pool.currentPriceSqrt with
      | .error _ => pool
      | .ok (tao, alpha) =>
          let newLiquidity :=
            liquidityOfReserves (tao.satAdd taoDelta) (alpha.satAdd alphaDelta)
          let position := { e.2 with liquidity := newLiquidity }
          { pool with
            positions := pool.positions.insert (cfg.protocolAccountId, position.id) position }

end

end Pool

end Subtensor.Swap
