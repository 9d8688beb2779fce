import Subtensor.Swap.OpSpec

/-!
# What a swap does

The case analysis of a swap step and the induction rule for the loop.
-/

namespace Subtensor.Swap

open Subtensor.Lib

variable {A : Type}

/-! ## A step -/

namespace Pool

/-- `add_fees` writes to the fee counters only. -/
theorem addFees_frame (cfg : Config A) (pool : Pool A) (orderType : OrderType) (fee : U64) :
    ∃ tao alpha, pool.addFees cfg orderType fee =
      { pool with feeGlobalTao := tao, feeGlobalAlpha := alpha } := by
  unfold addFees
  split
  · exact ⟨pool.feeGlobalTao, pool.feeGlobalAlpha, rfl⟩
  · cases orderType
    · exact ⟨pool.feeGlobalTao, _, rfl⟩
    · exact ⟨_, pool.feeGlobalAlpha, rfl⟩

section AddFees

variable (cfg : Config A) (pool : Pool A) (orderType : OrderType) (fee : U64)

@[simp] theorem addFees_ticks : (pool.addFees cfg orderType fee).ticks = pool.ticks := by
  obtain ⟨_, _, h⟩ := addFees_frame cfg pool orderType fee
  rw [h]

@[simp] theorem addFees_currentTick :
    (pool.addFees cfg orderType fee).currentTick = pool.currentTick := by
  obtain ⟨_, _, h⟩ := addFees_frame cfg pool orderType fee
  rw [h]

@[simp] theorem addFees_positions :
    (pool.addFees cfg orderType fee).positions = pool.positions := by
  obtain ⟨_, _, h⟩ := addFees_frame cfg pool orderType fee
  rw [h]

@[simp] theorem addFees_currentLiquidity :
    (pool.addFees cfg orderType fee).currentLiquidity = pool.currentLiquidity := by
  obtain ⟨_, _, h⟩ := addFees_frame cfg pool orderType fee
  rw [h]

@[simp] theorem addFees_tickIndexBitmapWords :
    (pool.addFees cfg orderType fee).tickIndexBitmapWords = pool.tickIndexBitmapWords := by
  obtain ⟨_, _, h⟩ := addFees_frame cfg pool orderType fee
  rw [h]

@[simp] theorem addFees_lastPositionId :
    (pool.addFees cfg orderType fee).lastPositionId = pool.lastPositionId := by
  obtain ⟨_, _, h⟩ := addFees_frame cfg pool orderType fee
  rw [h]

@[simp] theorem addFees_swapV3Initialized :
    (pool.addFees cfg orderType fee).swapV3Initialized = pool.swapV3Initialized := by
  obtain ⟨_, _, h⟩ := addFees_frame cfg pool orderType fee
  rw [h]

@[simp] theorem addFees_feeRate : (pool.addFees cfg orderType fee).feeRate = pool.feeRate := by
  obtain ⟨_, _, h⟩ := addFees_frame cfg pool orderType fee
  rw [h]

theorem addFees_tickEdge (t : ℤ) (orderType' : OrderType) :
    (pool.addFees cfg orderType fee).tickEdge t orderType' = pool.tickEdge t orderType' := by
  obtain ⟨_, _, h⟩ := addFees_frame cfg pool orderType fee
  rw [h]
  rfl

end AddFees

theorem currentBounded_eq {pool : Pool A} (h : InBounds pool.currentTick) :
    pool.currentBounded = pool.currentTick := by
  unfold currentBounded
  rw [if_neg (not_lt.mpr h.2), if_neg (not_lt.mpr h.1)]

end Pool

namespace SwapStep

/-- The pool after a step that stops inside a tick interval. -/
def stopped (cfg : Config A) (pool : Pool A) (step : SwapStep) : Pool A :=
  step.updateCurrentPrice (pool.addFees cfg step.orderType step.fee)

/-- The pool `q` after its edge tick is crossed. -/
def withCrossedTick (q : Pool A) (step : SwapStep) (tick : Tick) : Pool A :=
  { q with
    ticks := Function.update q.ticks step.edgeTick (some (flipFees q tick))
    currentLiquidity := Pool.crossLiquidity step.orderType q.currentLiquidity tick }

/-- The pool after a step that crosses the edge tick. -/
def crossed (cfg : Config A) (pool : Pool A) (step : SwapStep) (tick : Tick) : Pool A :=
  step.updateCurrentPrice
    (step.withCrossedTick (pool.addFees cfg step.orderType step.fee) tick)

def result (cfg : Config A) (pool : Pool A) (step : SwapStep) : SwapStepResult :=
  step.resultOf
    ((pool.addFees cfg step.orderType step.fee).convertDeltas step.orderType step.deltaIn)

theorem processSwap_stop {cfg : Config A} {pool : Pool A} {step : SwapStep}
    (h : step.action = .stop) :
    step.processSwap cfg pool = .ok (step.stopped cfg pool, step.result cfg pool) := by
  have hne : ¬step.action = .crossing := by simp [h]
  unfold processSwap stopped result
  simp only [if_neg hne]

theorem cross_eq {q : Pool A} {step : SwapStep} (hb : InBounds q.currentTick)
    (hedge : step.edgeTick = q.tickEdge q.currentTick step.orderType) :
    step.cross q =
      match q.ticks step.edgeTick with
      | none => .error .insufficientLiquidity
      | some tick => .ok (step.withCrossedTick q tick) := by
  unfold cross Pool.updateLiquidityAtCrossing
  rw [Pool.currentBounded_eq hb, ← hedge]
  cases q.ticks step.edgeTick with
  | none => rfl
  | some tick => rfl

section Crossing

variable {cfg : Config A} {pool : Pool A} {step : SwapStep} (hb : InBounds pool.currentTick)
  (hedge : step.edgeTick = pool.tickEdge pool.currentTick step.orderType)
include hb hedge

theorem processSwap_crossing (h : step.action = .crossing) :
    step.processSwap cfg pool =
      match pool.ticks step.edgeTick with
      | none => .error .insufficientLiquidity
      | some tick => .ok (step.crossed cfg pool tick, step.result cfg pool) := by
  obtain ⟨q, hq⟩ : ∃ q, q = pool.addFees cfg step.orderType step.fee := ⟨_, rfl⟩
  have hcur : q.currentTick = pool.currentTick := by rw [hq, Pool.addFees_currentTick]
  have hedge' : step.edgeTick = q.tickEdge q.currentTick step.orderType := by
    rw [hcur, hq, Pool.addFees_tickEdge]
    exact hedge
  have hcross := cross_eq (hcur ▸ hb) hedge'
  have htick : q.ticks = pool.ticks := by rw [hq, Pool.addFees_ticks]
  unfold processSwap crossed result
  simp only [if_pos h, ← hq, hcross, ← htick]
  cases q.ticks step.edgeTick with
  | none => rfl
  | some tick => rfl

/-- **What a step does**, when its edge is the edge of the current tick. -/
theorem processSwap_ok {pool' : Pool A} {r : SwapStepResult}
    (h : step.processSwap cfg pool = .ok (pool', r)) :
    r = step.result cfg pool ∧
      ((step.action = .stop ∧ pool' = step.stopped cfg pool) ∨
        (step.action = .crossing ∧ ∃ tick, pool.ticks step.edgeTick = some tick ∧
          pool' = step.crossed cfg pool tick)) := by
  cases hact : step.action with
  | stop =>
      rw [processSwap_stop hact, Except.ok.injEq, Prod.mk.injEq] at h
      exact ⟨h.2.symm, Or.inl ⟨rfl, h.1.symm⟩⟩
  | crossing =>
      rw [processSwap_crossing hb hedge hact] at h
      cases htick : pool.ticks step.edgeTick with
      | none =>
          rw [htick] at h
          cases h
      | some tick =>
          rw [htick, Except.ok.injEq, Prod.mk.injEq] at h
          exact ⟨h.2.symm, Or.inr ⟨rfl, tick, rfl, h.1.symm⟩⟩

end Crossing

/-- A step writes to fees, ticks, current liquidity and the price. -/
theorem processSwap_frame {cfg : Config A} {pool pool' : Pool A} {step : SwapStep}
    {r : SwapStepResult} (h : step.processSwap cfg pool = .ok (pool', r)) :
    ∃ tao alpha ticks liq, pool' = step.updateCurrentPrice { pool with
      feeGlobalTao := tao
      feeGlobalAlpha := alpha
      ticks := ticks
      currentLiquidity := liq } := by
  rcases Pool.addFees_frame cfg pool step.orderType step.fee with ⟨tao, alpha, hfees⟩
  unfold processSwap at h
  dsimp only at h
  rw [hfees] at h
  by_cases hact : step.action = .crossing
  · rw [if_pos hact] at h
    unfold cross Pool.updateLiquidityAtCrossing at h
    dsimp only at h
    split at h
    · cases h
    · rename_i q hq
      split at hq
      · cases hq
      · rename_i q' hq'
        split at hq'
        · cases hq'
        · cases hq'
          cases hq
          cases h
          exact ⟨_, _, _, _, rfl⟩
  · rw [if_neg hact] at h
    cases h
    exact ⟨tao, alpha, pool.ticks, pool.currentLiquidity, rfl⟩

end SwapStep

/-! ## Where a step ends -/

namespace SwapStep

variable (pool : Pool A) (step : SwapStep)

/-- A buy goes up to the nearest of target, limit and edge, and it crosses
the edge exactly when it reaches it. -/
theorem determineAction_buy (h : step.orderType = .buy) :
    (step.determineAction pool).finalPrice.bits =
        min step.targetSqrtPrice.bits (min step.limitSqrtPrice.bits step.edgeSqrtPrice.bits) ∧
      ((step.determineAction pool).action = .crossing ↔
        step.edgeSqrtPrice.bits ≤ step.targetSqrtPrice.bits ∧
          step.edgeSqrtPrice.bits ≤ step.limitSqrtPrice.bits) := by
  unfold determineAction stopAtClosest naturalReasonStopPrice priceIsCloser
  simp only [h, decide_eq_true_eq, UFixed.ext_iff]
  split_ifs <;> simp <;> omega

/-- A sell goes down to the nearest of target, limit and edge, and it crosses
the edge only if it would go beyond it. -/
theorem determineAction_sell (h : step.orderType = .sell) :
    (step.determineAction pool).finalPrice.bits =
        max step.targetSqrtPrice.bits (max step.limitSqrtPrice.bits step.edgeSqrtPrice.bits) ∧
      ((step.determineAction pool).action = .crossing ↔
        step.targetSqrtPrice.bits < step.edgeSqrtPrice.bits ∧
          step.limitSqrtPrice.bits < step.edgeSqrtPrice.bits) := by
  unfold determineAction stopAtClosest naturalReasonStopPrice priceIsCloser
  simp only [h, decide_eq_true_eq, UFixed.ext_iff]
  split_ifs <;> simp <;> omega

theorem determineAction_orderType :
    (step.determineAction pool).orderType = step.orderType := by
  unfold determineAction stopAtClosest
  dsimp only
  split_ifs <;> rfl

theorem determineAction_edgeTick :
    (step.determineAction pool).edgeTick = step.edgeTick := by
  unfold determineAction stopAtClosest
  dsimp only
  split_ifs <;> rfl

end SwapStep

/-! ## The next step of the loop -/

namespace Pool

variable (pool : Pool A) (orderType : OrderType) (limit : SqrtPrice) (amount : U64)

/-- The price that the next step aims for. -/
def targetPrice : SqrtPrice :=
  sqrtPriceTarget orderType (.ofNat pool.currentLiquidity.val) pool.currentPriceSqrt
    (amount.satSub (pool.calculateFeeAmount amount))

/-- The tick at the edge of the interval that the price is in. -/
def edgeTick : ℤ := pool.tickEdge pool.currentTick orderType

def edgePrice : SqrtPrice := TickIndex.asSqrtPriceBounded (pool.edgeTick orderType)

theorem nextStep_orderType : (pool.nextStep orderType limit amount).orderType = orderType := by
  unfold nextStep
  rw [SwapStep.determineAction_orderType]
  rfl

theorem nextStep_edgeTick :
    (pool.nextStep orderType limit amount).edgeTick = pool.edgeTick orderType := by
  unfold nextStep
  rw [SwapStep.determineAction_edgeTick]
  rfl

theorem nextStep_buy :
    (pool.nextStep .buy limit amount).finalPrice.bits =
        min (pool.targetPrice .buy amount).bits (min limit.bits (pool.edgePrice .buy).bits) ∧
      ((pool.nextStep .buy limit amount).action = .crossing ↔
        (pool.edgePrice .buy).bits ≤ (pool.targetPrice .buy amount).bits ∧
          (pool.edgePrice .buy).bits ≤ limit.bits) :=
  SwapStep.determineAction_buy pool (SwapStep.new pool .buy amount limit) rfl

theorem nextStep_sell :
    (pool.nextStep .sell limit amount).finalPrice.bits =
        max (pool.targetPrice .sell amount).bits (max limit.bits (pool.edgePrice .sell).bits) ∧
      ((pool.nextStep .sell limit amount).action = .crossing ↔
        (pool.targetPrice .sell amount).bits < (pool.edgePrice .sell).bits ∧
          limit.bits < (pool.edgePrice .sell).bits) :=
  SwapStep.determineAction_sell pool (SwapStep.new pool .sell amount limit) rfl

variable {pool orderType limit amount}

/-- **What the next step of the loop does.** -/
theorem nextStep_ok {cfg : Config A} {pool' : Pool A} {r : SwapStepResult}
    (hb : InBounds pool.currentTick)
    (h : (pool.nextStep orderType limit amount).processSwap cfg pool = .ok (pool', r)) :
    r = (pool.nextStep orderType limit amount).result cfg pool ∧
      (((pool.nextStep orderType limit amount).action = .stop ∧
          pool' = (pool.nextStep orderType limit amount).stopped cfg pool) ∨
        ((pool.nextStep orderType limit amount).action = .crossing ∧
          ∃ tick, pool.ticks (pool.edgeTick orderType) = some tick ∧
            pool' = (pool.nextStep orderType limit amount).crossed cfg pool tick)) := by
  have hedge : (pool.nextStep orderType limit amount).edgeTick =
      pool.tickEdge pool.currentTick (pool.nextStep orderType limit amount).orderType := by
    rw [nextStep_edgeTick, nextStep_orderType]
    rfl
  have hok := SwapStep.processSwap_ok hb hedge h
  rwa [nextStep_edgeTick] at hok

/-! ## The loop -/

/-- A loop that succeeds is done, or executes a step and goes on. -/
theorem swapLoop_ok {cfg : Config A} {n : ℕ} {acc : SwapAcc} {res : Pool A × SwapAcc}
    (h : swapLoop cfg orderType limit n pool acc = .ok res) :
    (acc.amountRemaining = 0 ∧ res = (pool, acc)) ∨
      (acc.amountRemaining ≠ 0 ∧ ∃ m pool₁ r, n = m + 1 ∧
        (pool.nextStep orderType limit acc.amountRemaining).processSwap cfg pool =
          .ok (pool₁, r) ∧
        swapLoop cfg orderType limit m pool₁
          (acc.advance (pool.nextStep orderType limit acc.amountRemaining) r) = .ok res) := by
  unfold swapLoop at h
  by_cases h0 : acc.amountRemaining = 0
  · rw [if_pos h0, Except.ok.injEq] at h
    exact Or.inl ⟨h0, h.symm⟩
  · rw [if_neg h0] at h
    dsimp only at h
    refine Or.inr ⟨h0, ?_⟩
    cases hp : (pool.nextStep orderType limit acc.amountRemaining).processSwap cfg pool with
    | error e =>
        rw [hp] at h
        cases h
    | ok res₁ =>
        obtain ⟨pool₁, r⟩ := res₁
        rw [hp] at h
        cases n with
        | zero => cases h
        | succ m => exact ⟨m, pool₁, r, rfl, rfl, h⟩

/-- A property of the pool that every step keeps, holds after the loop. -/
theorem swapLoop_invariant {cfg : Config A} {I : Pool A → Prop}
    (hstep : ∀ (p p' : Pool A) (a : U64) (r : SwapStepResult), a ≠ 0 → I p →
      (p.nextStep orderType limit a).processSwap cfg p = .ok (p', r) → I p') :
    ∀ (n : ℕ) (p : Pool A) (acc : SwapAcc) (res : Pool A × SwapAcc), I p →
      swapLoop cfg orderType limit n p acc = .ok res → I res.1 := by
  intro n
  induction n with
  | zero =>
      intro p acc res hI h
      rcases swapLoop_ok h with ⟨-, rfl⟩ | ⟨-, m, -, -, hm, -⟩
      · exact hI
      · omega
  | succ n ih =>
      intro p acc res hI h
      rcases swapLoop_ok h with ⟨-, rfl⟩ | ⟨h0, m, p₁, r, hm, hp, hloop⟩
      · exact hI
      · obtain rfl : n = m := by omega
        exact ih p₁ _ res (hstep p p₁ _ r h0 hI hp) hloop

section

variable [DecidableEq A]

/-- A swap that succeeds found the minimum reserves and an initialised pool. -/
theorem swapInner_ok {cfg : Config A} {env : Env A} {res : Pool A × SwapResult}
    (h : pool.swapInner cfg env orderType amount limit = .ok res) :
    (cfg.minimumReserve.val ≤ env.taoReserve.val ∧
      cfg.minimumReserve.val ≤ env.alphaReserve.val) ∧
      ∃ pool₀ acc, pool.maybeInitializeV3 cfg env = .ok pool₀ ∧
        swapLoop cfg orderType limit maxSwapIterations pool₀ ⟨amount, 0, 0, 0⟩ =
          .ok (res.1, acc) ∧ res.2 = swapResult orderType acc := by
  unfold swapInner at h
  split at h
  · cases h
  · rename_i hres
    refine ⟨not_not.mp hres, ?_⟩
    cases hinit : pool.maybeInitializeV3 cfg env with
    | error e =>
        rw [hinit] at h
        cases h
    | ok pool₀ =>
        rw [hinit] at h
        dsimp only at h
        cases hloop : swapLoop cfg orderType limit maxSwapIterations pool₀
            ⟨amount, 0, 0, 0⟩ with
        | error e =>
            rw [hloop] at h
            cases h
        | ok r =>
            rw [hloop] at h
            obtain ⟨pool₁, acc⟩ := r
            rw [Except.ok.injEq] at h
            subst h
            exact ⟨pool₀, acc, rfl, hloop, rfl⟩

/-- `do_swap` leaves the storage as it was, or as the loop left it. -/
theorem doSwap_pool (cfg : Config A) (env : Env A) (pool : Pool A) (orderType : OrderType)
    (amount : U64) (limit : SqrtPrice) (simulate : Bool) :
    (pool.doSwap cfg env orderType amount limit simulate).1 = pool ∨
      ∃ result, pool.swapInner cfg env orderType amount limit =
        .ok ((pool.doSwap cfg env orderType amount limit simulate).1, result) := by
  unfold doSwap
  cases h : pool.swapInner cfg env orderType amount limit with
  | error e => exact Or.inl rfl
  | ok r =>
      cases simulate with
      | true => exact Or.inl rfl
      | false => exact Or.inr ⟨r.2, rfl⟩

end

end Pool

end Subtensor.Swap
