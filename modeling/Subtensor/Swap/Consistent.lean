import Subtensor.Swap.Amounts
import Subtensor.Swap.BitmapRuns
import Subtensor.Swap.SwapSpec

/-!
# Consistent pools

In every state that an initialised pool reaches, the current tick is the tick
of the price, and the bitmap holds exactly the ticks that exist. Nothing is said
about the price itself: a swap sets it to any limit on the wrong side.
-/

namespace Subtensor.Swap

open Subtensor.Lib

variable {A : Type}

namespace Pool

def activeTicks (pool : Pool A) : Set ℤ := {t | (pool.ticks t).isSome}

def TicksIndexed (pool : Pool A) : Prop := Indexed pool.tickIndexBitmapWords pool.activeTicks

structure Consistent (pool : Pool A) : Prop where
  initialized : pool.swapV3Initialized = true
  tick : pool.currentTick = TickIndex.fromSqrtPriceBounded pool.alphaSqrtPrice
  indexed : pool.TicksIndexed

variable {pool : Pool A} {t lo hi : ℤ} {l : U64}

theorem Consistent.inBounds (h : pool.Consistent) : InBounds pool.currentTick := by
  rw [h.tick]
  exact (TickIndex.le_fromSqrtPriceBounded _).1

theorem Consistent.currentBounded (h : pool.Consistent) :
    pool.currentBounded = pool.currentTick := currentBounded_eq h.inBounds

/-! ## Ticks and their index -/

theorem mem_activeTicks {tick : Tick} (h : pool.ticks t = some tick) : t ∈ pool.activeTicks := by
  show (pool.ticks t).isSome
  rw [h]
  rfl

theorem activeTicks_update_some (ticks : ℤ → Option Tick) (t : ℤ) (tick : Tick) :
    {s | (Function.update ticks t (some tick) s).isSome} =
      Insert.insert t {s | (ticks s).isSome} := by
  ext s
  rcases eq_or_ne s t with rfl | hne
  · simp
  · simp [hne]

theorem activeTicks_update_self {ticks : ℤ → Option Tick} {t : ℤ} (h : (ticks t).isSome)
    (tick : Tick) :
    {s | (Function.update ticks t (some tick) s).isSome} = {s | (ticks s).isSome} := by
  rw [activeTicks_update_some]
  exact Set.insert_eq_of_mem h

theorem activeTicks_update_none (ticks : ℤ → Option Tick) (t : ℤ) :
    {s | (Function.update ticks t none s).isSome} = {s | (ticks s).isSome} \ {t} := by
  ext s
  rcases eq_or_ne s t with rfl | hne
  · simp
  · simp [hne]

theorem TicksIndexed.addLiquidityAtIndex (h : pool.TicksIndexed) (ht : InBounds t) (l : U64)
    (upper : Bool) : (pool.addLiquidityAtIndex t l upper).TicksIndexed := by
  have hinsert := h.onWords (.insert ⟨t, ht⟩)
  have hactive : (pool.addLiquidityAtIndex t l upper).activeTicks =
      Insert.insert t pool.activeTicks := activeTicks_update_some pool.ticks t _
  unfold TicksIndexed
  rw [hactive]
  exact hinsert

theorem TicksIndexed.removeLiquidityAtIndex (h : pool.TicksIndexed) (t : ℤ) (l : U64)
    (upper : Bool) : (pool.removeLiquidityAtIndex t l upper).TicksIndexed := by
  unfold Pool.removeLiquidityAtIndex
  cases htick : pool.ticks t with
  | none => exact h
  | some tick =>
      have hmem := mem_activeTicks htick
      by_cases hgross : tick.liquidityGross.satSub l = 0
      · have hremove := h.onWords (.remove ⟨t, h.inBounds t hmem⟩)
        simp only [hgross, if_true]
        unfold TicksIndexed activeTicks
        rw [activeTicks_update_none]
        exact hremove
      · simp only [hgross, if_false]
        unfold TicksIndexed activeTicks
        rw [activeTicks_update_self hmem]
        exact h

theorem TicksIndexed.modifyTicks (h : pool.TicksIndexed) {position : Position}
    (hlo : InBounds position.tickLow) (hhi : InBounds position.tickHigh) (increase : Bool)
    (l : U64) : (pool.modifyTicks position increase l).TicksIndexed := by
  unfold Pool.modifyTicks
  split
  · exact (h.addLiquidityAtIndex hlo l false).addLiquidityAtIndex hhi l true
  · exact (h.removeLiquidityAtIndex _ l false).removeLiquidityAtIndex _ l true

/-! ## The price and its tick -/

/-- The ends of the range of ticks keep their ticks. -/
theorem clampSqrtPrice_tick
    (h : pool.currentTick = TickIndex.fromSqrtPriceBounded pool.alphaSqrtPrice) :
    pool.currentTick = TickIndex.fromSqrtPriceBounded
      (pool.clampSqrtPrice pool.currentTick).alphaSqrtPrice := by
  have hb : InBounds pool.currentTick := by
    rw [h]
    exact (TickIndex.le_fromSqrtPriceBounded _).1
  unfold clampSqrtPrice
  split
  · exact (TickIndex.fromSqrtPriceBounded_asSqrtPriceBounded hb.1 hb.2).symm
  · exact h

section

variable [DecidableEq A]

/-- A pool is consistent after a position is added, also when it was not
initialised before. -/
theorem withPosition_consistent
    (htick : pool.currentTick = TickIndex.fromSqrtPriceBounded pool.alphaSqrtPrice)
    (h : pool.TicksIndexed) (hlo : InBounds lo) (hhi : InBounds hi) (owner : A) :
    (pool.withPosition owner lo hi l).Consistent := by
  have hb : InBounds pool.currentTick := by
    rw [htick]
    exact (TickIndex.le_fromSqrtPriceBounded _).1
  have hprice := pool.addLiquidityToTicks_price lo hi l
  rcases addLiquidityToTicks_frame pool lo hi l with ⟨price, liq, hframe⟩
  refine ⟨rfl, ?_, ?_⟩
  · show (pool.addLiquidityToTicks lo hi l).currentTick =
      TickIndex.fromSqrtPriceBounded (pool.addLiquidityToTicks lo hi l).alphaSqrtPrice
    rw [hprice, settlementPrice, currentBounded_eq hb, ← clampSqrtPrice_tick htick, hframe]
    rfl
  · show (pool.addLiquidityToTicks lo hi l).TicksIndexed
    rw [hframe]
    exact (h.addLiquidityAtIndex hlo l false).addLiquidityAtIndex hhi l true

omit [DecidableEq A] in
theorem ticksIndexed_fresh (feeRate : U16) (enabled : Bool) (lastPositionId : U128) :
    (Pool.fresh (A := A) feeRate enabled lastPositionId).TicksIndexed := by
  have hempty : {t : ℤ | (none : Option Tick).isSome} = ∅ := by
    ext t
    simp
  refine ⟨?_, ?_⟩
  · show BitmapExact (fun _ _ => 0) {t : ℤ | (none : Option Tick).isSome}
    rw [hempty]
    exact bitmapExact_empty
  · rintro s ⟨⟩

theorem Initial.consistent {cfg : Config A} (h : Initial cfg pool) : pool.Consistent := by
  rcases h with ⟨env, feeRate, enabled, lastPositionId, -, -, hinit⟩
  rcases maybeInitializeV3_ok hinit rfl with ⟨price, rfl⟩
  refine withPosition_consistent rfl ?_ (by decide) (by decide) _
  exact ticksIndexed_fresh (A := A) feeRate enabled lastPositionId

/-! ## Every operation -/

theorem Consistent.withoutPosition (h : pool.Consistent) (key : A × PositionId)
    (position : Position) : (pool.withoutPosition key position).Consistent := by
  let q := (pool.removeLiquidityAtIndex position.tickLow position.liquidity
    false).removeLiquidityAtIndex position.tickHigh position.liquidity true
  have hq : q.TicksIndexed :=
    (h.indexed.removeLiquidityAtIndex _ _ false).removeLiquidityAtIndex _ _ true
  rcases removeLiquidityAtIndex_frame pool position.tickLow position.liquidity false with
    ⟨ticks₁, words₁, h₁⟩
  rcases removeLiquidityAtIndex_frame (pool.removeLiquidityAtIndex position.tickLow
    position.liquidity false) position.tickHigh position.liquidity true with ⟨ticks₂, words₂, h₂⟩
  rcases updateLiquidityIfNeeded_frame q position.tickLow position.tickHigh
    (negI128 position.liquidity) with ⟨liq, hliq⟩
  have hpool : pool.withoutPosition key position =
      { q with currentLiquidity := liq, positions := pool.positions.erase key } := by
    unfold Pool.withoutPosition
    rw [show (pool.removeLiquidityAtIndex position.tickLow position.liquidity
      false).removeLiquidityAtIndex position.tickHigh position.liquidity true = q from rfl, hliq]
  have hframe : q = { pool with ticks := ticks₂, tickIndexBitmapWords := words₂ } := by
    show (pool.removeLiquidityAtIndex position.tickLow position.liquidity
      false).removeLiquidityAtIndex position.tickHigh position.liquidity true = _
    rw [h₂, h₁]
  rw [hpool]
  refine ⟨?_, ?_, hq⟩
  · rw [hframe]
    exact h.initialized
  · rw [hframe]
    exact h.tick

theorem Consistent.withModified (h : pool.Consistent) (cfg : Config A) (key : A × PositionId)
    {position : Position} (hlo : InBounds position.tickLow) (hhi : InBounds position.tickHigh)
    (sqrtPa sqrtPb : SqrtPrice) (delta : I64) :
    (pool.withModified cfg key position sqrtPa sqrtPb delta).Consistent := by
  rcases sqrtPriceBox_frame pool sqrtPa sqrtPb delta with ⟨liq, hbox⟩
  rcases modifyTicks_frame (pool.sqrtPriceBox sqrtPa sqrtPb delta).1
    (movedLiquidity cfg position delta) position (decide (0 < delta.val)) with
    ⟨ticks, words, hticks⟩
  have hindexed : (pool.sqrtPriceBox sqrtPa sqrtPb delta).1.TicksIndexed := by
    rw [hbox]
    exact h.indexed
  refine ⟨?_, ?_, hindexed.modifyTicks hlo hhi _ _⟩
  · unfold Pool.withModified
    rw [hticks, hbox]
    exact h.initialized
  · unfold Pool.withModified
    rw [hticks, hbox]
    exact h.tick

omit [DecidableEq A] in
/-- Whatever the price is set to, the tick is set to its tick. -/
theorem updateCurrentPrice_consistent {q : Pool A} (hinit : q.swapV3Initialized = true)
    (hindexed : q.TicksIndexed) (step : SwapStep) : (step.updateCurrentPrice q).Consistent :=
  ⟨hinit, rfl, hindexed⟩

omit [DecidableEq A] in
theorem TicksIndexed.withCrossedTick {q : Pool A} (h : q.TicksIndexed) {step : SwapStep}
    {tick : Tick} (htick : q.ticks step.edgeTick = some tick) :
    (step.withCrossedTick q tick).TicksIndexed := by
  unfold SwapStep.withCrossedTick TicksIndexed activeTicks
  rw [activeTicks_update_self (mem_activeTicks htick)]
  exact h

omit [DecidableEq A] in
theorem TicksIndexed.addFees (h : pool.TicksIndexed) (cfg : Config A) (orderType : OrderType)
    (fee : U64) : (pool.addFees cfg orderType fee).TicksIndexed := by
  unfold TicksIndexed activeTicks
  rw [addFees_tickIndexBitmapWords, addFees_ticks]
  exact h

omit [DecidableEq A] in
theorem withCrossedTick_swapV3Initialized (q : Pool A) (step : SwapStep) (tick : Tick) :
    (step.withCrossedTick q tick).swapV3Initialized = q.swapV3Initialized := rfl

omit [DecidableEq A] in
theorem Consistent.stopped (h : pool.Consistent) (cfg : Config A) (step : SwapStep) :
    (step.stopped cfg pool).Consistent := by
  refine updateCurrentPrice_consistent ?_ (h.indexed.addFees cfg _ _) step
  rw [addFees_swapV3Initialized]
  exact h.initialized

omit [DecidableEq A] in
theorem Consistent.crossed (h : pool.Consistent) (cfg : Config A) {step : SwapStep} {tick : Tick}
    (htick : pool.ticks step.edgeTick = some tick) : (step.crossed cfg pool tick).Consistent := by
  refine updateCurrentPrice_consistent ?_ ((h.indexed.addFees cfg _ _).withCrossedTick ?_) step
  · rw [withCrossedTick_swapV3Initialized, addFees_swapV3Initialized]
    exact h.initialized
  · rw [addFees_ticks]
    exact htick

omit [DecidableEq A] in
theorem Consistent.nextStep (h : pool.Consistent) {cfg : Config A} {orderType : OrderType}
    {limit : SqrtPrice} {amount : U64} {pool' : Pool A} {r : SwapStepResult}
    (hstep : (pool.nextStep orderType limit amount).processSwap cfg pool = .ok (pool', r)) :
    pool'.Consistent := by
  rcases nextStep_ok h.inBounds hstep with ⟨-, ⟨-, rfl⟩ | ⟨-, tick, htick, rfl⟩⟩
  · exact h.stopped cfg _
  · refine h.crossed cfg ?_
    rw [nextStep_edgeTick]
    exact htick

omit [DecidableEq A] in
theorem Consistent.swapLoop (h : pool.Consistent) {cfg : Config A} {orderType : OrderType}
    {limit : SqrtPrice} {n : ℕ} {acc : SwapAcc} {res : Pool A × SwapAcc}
    (hloop : swapLoop cfg orderType limit n pool acc = .ok res) : res.1.Consistent :=
  swapLoop_invariant (fun _ _ _ _ _ hp hstep => hp.nextStep hstep) n pool acc res h hloop

theorem Consistent.doSwap (h : pool.Consistent) (cfg : Config A) (env : Env A)
    (orderType : OrderType) (amount : U64) (limit : SqrtPrice) (simulate : Bool) :
    (pool.doSwap cfg env orderType amount limit simulate).1.Consistent := by
  rcases doSwap_pool cfg env pool orderType amount limit simulate with heq | ⟨result, hswap⟩
  · rw [heq]
    exact h
  · rcases swapInner_ok hswap with ⟨-, pool₀, acc, hinit, hloop, -⟩
    rw [maybeInitializeV3_initialized h.initialized] at hinit
    cases hinit
    exact h.swapLoop hloop

theorem Consistent.step (h : pool.Consistent) (cfg : Config A) (op : Op A) :
    (pool.step cfg op).Consistent := by
  cases op with
  | addLiquidity env coldkey hotkey tickLow tickHigh liquidity =>
      show (pool.okOr (pool.doAddLiquidity cfg env coldkey hotkey tickLow tickHigh
        liquidity)).Consistent
      cases hadd : pool.doAddLiquidity cfg env coldkey hotkey tickLow tickHigh liquidity with
      | error e => exact h
      | ok res =>
          rcases doAddLiquidity_ok hadd with ⟨hlo, hhi, -, heq⟩
          show res.1.Consistent
          rw [heq]
          exact withPosition_consistent h.tick h.indexed hlo hhi coldkey
  | removeLiquidity coldkey positionId =>
      show (pool.okOr (pool.doRemoveLiquidity coldkey positionId)).Consistent
      cases hremove : pool.doRemoveLiquidity coldkey positionId with
      | error e => exact h
      | ok res =>
          rcases doRemoveLiquidity_ok hremove with ⟨position, -, heq, -, -⟩
          show res.1.Consistent
          rw [heq]
          exact h.withoutPosition _ position
  | modifyPosition env coldkey hotkey positionId liquidityDelta =>
      show (pool.okOr (pool.doModifyPosition cfg env coldkey hotkey positionId
        liquidityDelta)).Consistent
      cases hmodify : pool.doModifyPosition cfg env coldkey hotkey positionId liquidityDelta with
      | error e => exact h
      | ok res =>
          rcases doModifyPosition_ok hmodify with
            ⟨position, pa, pb, -, -, hlo, hhi, -, heq, -, -⟩
          show res.1.Consistent
          rw [heq]
          exact h.withModified cfg _ (inBounds_of_tryToSqrtPrice hlo)
            (inBounds_of_tryToSqrtPrice hhi) pa pb liquidityDelta
  | swap env orderType amount limitSqrtPrice simulate =>
      exact h.doSwap cfg env orderType amount limitSqrtPrice simulate
  | setFeeRate rate =>
      show (if rate.val ≤ cfg.maxFeeRate.val then _ else pool : Pool A).Consistent
      split
      · exact ⟨h.initialized, h.tick, h.indexed⟩
      · exact h
  | toggleUserLiquidity enable => exact ⟨h.initialized, h.tick, h.indexed⟩
  | adjustProtocol taoDelta alphaDelta =>
      show (pool.adjustProtocolLiquidity cfg taoDelta alphaDelta).Consistent
      rcases adjustProtocolLiquidity_frame cfg pool taoDelta alphaDelta with ⟨positions, hframe⟩
      rw [hframe]
      exact ⟨h.initialized, h.tick, h.indexed⟩
  | otherSubnet positions => exact ⟨h.initialized, h.tick, h.indexed⟩

/-- **Every reachable pool is consistent.** -/
theorem Reachable.consistent {cfg : Config A} {C : Pool A → Op A → Prop}
    (h : Reachable cfg C pool) : pool.Consistent :=
  h.invariant (fun _ hinit => hinit.consistent) fun _ op _ hp => hp.step cfg op

end

end Pool

/-! ## A pool at the price of one -/

/-- The configuration of the pallet's tests. -/
def mockConfig : Config ℕ where
  maxFeeRate := .sat 10000
  maxPositions := .sat 100
  minimumLiquidity := .sat 1000
  minimumReserve := .sat 1
  minimumReserve_pos := by decide
  protocolAccountId := 0

/-- Reserves of a billion of either token, and accounts that can pay. -/
def mockEnv : Env ℕ where
  taoReserve := .sat 1000000000
  alphaReserve := .sat 1000000000
  taoBalance := fun _ => .sat 1000000000000
  alphaBalance := fun _ _ => .sat 1000000000000

/-- The pool that these reserves initialise. -/
def mockPool : Pool ℕ :=
  ((Pool.fresh (.sat 196) true 0).maybeInitializeV3 mockConfig mockEnv).toOption.getD
    (Pool.fresh (.sat 196) true 0)

theorem mockPool_initial : Pool.Initial mockConfig mockPool := by
  refine ⟨mockEnv, .sat 196, true, 0, by decide, by decide, ?_⟩
  have hok : ((Pool.fresh (.sat 196) true 0).maybeInitializeV3 mockConfig mockEnv).toOption.map
      (fun pool => pool.swapV3Initialized) = some true := by decide +kernel
  rcases exists_ok_of_toOption_map hok with ⟨pool, hpool, -⟩
  unfold mockPool
  rw [hpool]
  rfl

end Subtensor.Swap
