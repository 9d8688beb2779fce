import Subtensor.Lib.Except
import Subtensor.Swap.BitmapExact
import Subtensor.Swap.Run
import Subtensor.Swap.TickPrice

/-!
# What the operations do

One lemma for each operation that says what a successful call found and what
it wrote. Later proofs use these and do not unfold the operations.
-/

namespace Subtensor.Swap

open Subtensor.Lib

variable {A : Type}

/-! ## Frames -/

namespace Pool

section Frames

variable (pool : Pool A) (t lo hi : ℤ) (l : U64) (upper : Bool) (d : I128)

/-- `remove_liquidity_at_index` writes to ticks and their index only. -/
theorem removeLiquidityAtIndex_frame :
    ∃ ticks words, pool.removeLiquidityAtIndex t l upper =
      { pool with ticks := ticks, tickIndexBitmapWords := words } := by
  unfold removeLiquidityAtIndex
  cases htick : pool.ticks t with
  | none => exact ⟨pool.ticks, pool.tickIndexBitmapWords, rfl⟩
  | some tick =>
      by_cases hgross : tick.liquidityGross.satSub l = 0
      · simp only [hgross, if_true]
        exact ⟨_, _, rfl⟩
      · simp only [hgross, if_false]
        exact ⟨_, pool.tickIndexBitmapWords, rfl⟩

theorem updateLiquidityIfNeeded_frame :
    ∃ liq, pool.updateLiquidityIfNeeded lo hi d = { pool with currentLiquidity := liq } := by
  unfold updateLiquidityIfNeeded
  split
  · exact ⟨_, rfl⟩
  · exact ⟨pool.currentLiquidity, rfl⟩

theorem clampSqrtPrice_frame :
    ∃ price, pool.clampSqrtPrice t = { pool with alphaSqrtPrice := price } := by
  unfold clampSqrtPrice
  split
  · exact ⟨_, rfl⟩
  · exact ⟨pool.alphaSqrtPrice, rfl⟩

theorem addLiquidityToTicks_frame :
    ∃ price liq, pool.addLiquidityToTicks lo hi l =
      { (pool.addLiquidityAtIndex lo l false).addLiquidityAtIndex hi l true with
        alphaSqrtPrice := price, currentLiquidity := liq } := by
  unfold addLiquidityToTicks
  obtain ⟨price, hprice⟩ := clampSqrtPrice_frame
    ((pool.addLiquidityAtIndex lo l false).addLiquidityAtIndex hi l true) pool.currentBounded
  obtain ⟨liq, hliq⟩ := updateLiquidityIfNeeded_frame
    (((pool.addLiquidityAtIndex lo l false).addLiquidityAtIndex hi l true).clampSqrtPrice
      pool.currentBounded) lo hi (asI128 l)
  refine ⟨price, liq, ?_⟩
  refine hliq.trans ?_
  rw [hprice]

theorem removeTicks_positions :
    (((pool.removeLiquidityAtIndex lo l false).removeLiquidityAtIndex hi l
      true).updateLiquidityIfNeeded lo hi d).positions = pool.positions := by
  obtain ⟨_, _, h₁⟩ := removeLiquidityAtIndex_frame pool lo l false
  obtain ⟨_, _, h₂⟩ := removeLiquidityAtIndex_frame (pool.removeLiquidityAtIndex lo l false) hi l true
  obtain ⟨_, h₃⟩ := updateLiquidityIfNeeded_frame
    ((pool.removeLiquidityAtIndex lo l false).removeLiquidityAtIndex hi l true) lo hi d
  rw [h₃, h₂, h₁]

theorem sqrtPriceBox_frame (sqrtPa sqrtPb : SqrtPrice) (delta : I64) :
    ∃ liq, (pool.sqrtPriceBox sqrtPa sqrtPb delta).1 = { pool with currentLiquidity := liq } := by
  unfold sqrtPriceBox
  split
  · exact ⟨pool.currentLiquidity, rfl⟩
  · split
    · exact ⟨pool.currentLiquidity, rfl⟩
    · exact ⟨_, rfl⟩

theorem modifyTicks_frame (position : Position) (increase : Bool) :
    ∃ ticks words, pool.modifyTicks position increase l =
      { pool with ticks := ticks, tickIndexBitmapWords := words } := by
  unfold modifyTicks
  split
  · exact ⟨_, _, rfl⟩
  · obtain ⟨_, _, h₁⟩ := removeLiquidityAtIndex_frame pool position.tickLow l false
    obtain ⟨_, _, h₂⟩ := removeLiquidityAtIndex_frame
      (pool.removeLiquidityAtIndex position.tickLow l false) position.tickHigh l true
    rw [h₂, h₁]
    exact ⟨_, _, rfl⟩

end Frames

end Pool

/-! ## Adding a position -/

theorem inBounds_of_tryToSqrtPrice {t : ℤ} {p : SqrtPrice}
    (h : TickIndex.tryToSqrtPrice t = .ok p) : InBounds t := by
  by_contra hb
  have hb' : ¬(TickIndex.MIN ≤ t ∧ t ≤ TickIndex.MAX) := hb
  rw [TickIndex.tryToSqrtPrice, if_pos hb'] at h
  cases h

theorem toTokenAmounts_ok {position : Position} {price : SqrtPrice} {r : U64 × U64}
    (h : position.toTokenAmounts price = .ok r) :
    InBounds position.tickLow ∧ InBounds position.tickHigh := by
  unfold Position.toTokenAmounts at h
  cases hlo : TickIndex.tryToSqrtPrice position.tickLow with
  | error e =>
      rw [hlo] at h
      cases h
  | ok pa =>
      cases hhi : TickIndex.tryToSqrtPrice position.tickHigh with
      | error e =>
          rw [hlo, hhi] at h
          cases h
      | ok pb => exact ⟨inBounds_of_tryToSqrtPrice hlo, inBounds_of_tryToSqrtPrice hhi⟩

namespace Pool

variable [DecidableEq A]

def nextId (pool : Pool A) : PositionId := pool.lastPositionId.satAdd (.sat 1)

/-- The pool with one more position. -/
def withPosition (pool : Pool A) (owner : A) (tickLow tickHigh : ℤ) (liquidity : U64) : Pool A :=
  let q := pool.addLiquidityToTicks tickLow tickHigh liquidity
  { q with
    lastPositionId := pool.nextId
    swapV3Initialized := true
    positions := pool.positions.insert (owner, pool.nextId)
      (Position.new q pool.nextId tickLow tickHigh liquidity) }

theorem addLiquidityNotInsert_ok {cfg : Config A} {pool : Pool A} {owner : A} {lo hi : ℤ}
    {l : U64} {r : Pool A × Position × U64 × U64}
    (h : pool.addLiquidityNotInsert cfg owner lo hi l = .ok r) :
    InBounds lo ∧ InBounds hi ∧
      { r.1 with positions := r.1.positions.insert (owner, r.2.1.id) r.2.1 } =
        pool.withPosition owner lo hi l ∧ r.2.1.id = pool.nextId := by
  unfold addLiquidityNotInsert at h
  split at h
  · cases h
  · obtain ⟨price, liq, hframe⟩ := addLiquidityToTicks_frame pool lo hi l
    dsimp only at h
    split at h
    · cases h
    · rename_i tao alpha hamounts
      cases h
      obtain ⟨hlo, hhi⟩ := toTokenAmounts_ok hamounts
      refine ⟨hlo, hhi, ?_, ?_⟩
      · unfold withPosition nextId
        dsimp only
        rw [hframe]
        rfl
      · rw [hframe]
        rfl

/-- **What adding a position does.** -/
theorem doAddLiquidity_ok {cfg : Config A} {env : Env A} {pool pool' : Pool A}
    {coldkey hotkey : A} {lo hi : ℤ} {l : U64} {r : PositionId × U64 × U64}
    (h : pool.doAddLiquidity cfg env coldkey hotkey lo hi l = .ok (pool', r)) :
    InBounds lo ∧ InBounds hi ∧ cfg.minimumLiquidity.val ≤ l.val ∧
      pool' = pool.withPosition coldkey lo hi l := by
  unfold doAddLiquidity at h
  split at h
  · cases h
  · split at h
    · cases h
    · rename_i q position tao alpha hadd
      obtain ⟨hlo, hhi, hq, hid⟩ := addLiquidityNotInsert_ok hadd
      split at h
      · cases h
      · split at h
        · cases h
        · rename_i hmin
          cases h
          exact ⟨hlo, hhi, not_not.mp hmin, hq⟩

/-- **What the initialisation does.** -/
theorem maybeInitializeV3_ok {cfg : Config A} {env : Env A} {pool pool' : Pool A}
    (h : pool.maybeInitializeV3 cfg env = .ok pool') (h0 : pool.swapV3Initialized = false) :
    ∃ price, pool' = { pool with
        alphaSqrtPrice := price
        currentTick := TickIndex.fromSqrtPriceBounded price : Pool A }.withPosition
      cfg.protocolAccountId TickIndex.MIN TickIndex.MAX
      (liquidityOfReserves env.taoReserve env.alphaReserve) := by
  unfold maybeInitializeV3 at h
  rw [if_neg (by simp [h0])] at h
  dsimp only at h
  generalize (checkedSqrt _ sqrtEpsilon).getD 0 = price at h
  split at h
  · cases h
  · rename_i q position tao alpha hadd
    obtain ⟨-, -, hq, -⟩ := addLiquidityNotInsert_ok hadd
    cases h
    exact ⟨price, hq⟩

theorem maybeInitializeV3_initialized {cfg : Config A} {env : Env A} {pool : Pool A}
    (h : pool.swapV3Initialized = true) : pool.maybeInitializeV3 cfg env = .ok pool := by
  unfold maybeInitializeV3
  rw [h]
  rfl

/-! ## Removing and modifying a position -/

def withoutPosition (pool : Pool A) (key : A × PositionId) (position : Position) : Pool A :=
  { ((pool.removeLiquidityAtIndex position.tickLow position.liquidity
      false).removeLiquidityAtIndex position.tickHigh position.liquidity
      true).updateLiquidityIfNeeded position.tickLow position.tickHigh
        (negI128 position.liquidity) with
    positions := pool.positions.erase key }

/-- **What removing a position does.** -/
theorem doRemoveLiquidity_ok {pool pool' : Pool A} {coldkey : A} {positionId : PositionId}
    {r : UpdateLiquidityResult}
    (h : pool.doRemoveLiquidity coldkey positionId = .ok (pool', r)) :
    ∃ position, pool.positions.lookup (coldkey, positionId) = some position ∧
      pool' = pool.withoutPosition (coldkey, positionId) position ∧
      r.feeTao = (position.collectFees pool).2.1 ∧
      r.feeAlpha = (position.collectFees pool).2.2 := by
  unfold doRemoveLiquidity at h
  cases hlook : pool.positions.lookup (coldkey, positionId) with
  | none =>
      rw [hlook] at h
      cases h
  | some position =>
      rw [hlook] at h
      dsimp only at h
      split at h
      · cases h
      · cases h
        refine ⟨position, rfl, ?_, rfl, rfl⟩
        have hpos := removeTicks_positions pool position.tickLow position.tickHigh
          position.liquidity (negI128 position.liquidity)
        unfold withoutPosition
        rw [← hpos]
        rfl

/-- Whether a modification leaves only dust, so that the position goes. -/
def removesPosition (cfg : Config A) (position : Position) (delta : I64) : Bool :=
  decide (delta.val < 0 ∧
    (position.liquidity.satSub (unsignedAbs delta)).val < cfg.minimumLiquidity.val)

/-- The liquidity that a modification moves at the ticks. -/
def movedLiquidity (cfg : Config A) (position : Position) (delta : I64) : U64 :=
  if removesPosition cfg position delta then position.liquidity else unsignedAbs delta

/-- The position after a modification that keeps it. -/
def modifiedPosition (pool : Pool A) (position : Position) (delta : I64) : Position :=
  { (position.collectFees pool).1 with
    liquidity := if 0 < delta.val then position.liquidity.satAdd (unsignedAbs delta)
      else position.liquidity.satSub (unsignedAbs delta) }

/-- The pool after a modification. -/
def withModified (cfg : Config A) (pool : Pool A) (key : A × PositionId) (position : Position)
    (sqrtPa sqrtPb : SqrtPrice) (delta : I64) : Pool A :=
  { (pool.sqrtPriceBox sqrtPa sqrtPb delta).1.modifyTicks position (decide (0 < delta.val))
      (movedLiquidity cfg position delta) with
    positions := if removesPosition cfg position delta then pool.positions.erase key
      else pool.positions.insert (key.1, position.id) (modifiedPosition pool position delta) }

/-- **What modifying a position does.** -/
theorem doModifyPosition_ok {cfg : Config A} {env : Env A} {pool pool' : Pool A}
    {coldkey hotkey : A} {positionId : PositionId} {delta : I64} {r : UpdateLiquidityResult}
    (h : pool.doModifyPosition cfg env coldkey hotkey positionId delta = .ok (pool', r)) :
    ∃ position sqrtPa sqrtPb, pool.positions.lookup (coldkey, positionId) = some position ∧
      asI64 cfg.minimumLiquidity ≤ absI64 delta ∧
      TickIndex.tryToSqrtPrice position.tickLow = .ok sqrtPa ∧
      TickIndex.tryToSqrtPrice position.tickHigh = .ok sqrtPb ∧
      (¬0 < delta.val → (unsignedAbs delta).val ≤ position.liquidity.val) ∧
      pool' = pool.withModified cfg (coldkey, positionId) position sqrtPa sqrtPb delta ∧
      r.feeTao = (position.collectFees pool).2.1 ∧
      r.feeAlpha = (position.collectFees pool).2.2 := by
  unfold doModifyPosition at h
  split at h
  · cases h
  · cases hlook : pool.positions.lookup (coldkey, positionId) with
    | none =>
        rw [hlook] at h
        cases h
    | some position =>
        rw [hlook] at h
        dsimp only at h
        split at h
        · cases h
        · rename_i hmin
          split at h
          · rename_i sqrtPa sqrtPb hlo hhi
            obtain ⟨liq, hbox⟩ := sqrtPriceBox_frame pool sqrtPa sqrtPb delta
            obtain ⟨ticks, words, hticks⟩ := modifyTicks_frame
              (pool.sqrtPriceBox sqrtPa sqrtPb delta).1 (movedLiquidity cfg position delta) position (decide (0 < delta.val))
            split at h
            · cases h
            · split at h
              · cases h
              · rename_i hliq
                refine ⟨position, sqrtPa, sqrtPb, rfl, not_not.mp hmin, hlo, hhi, ?_, ?_⟩
                · intro hneg
                  by_contra hc
                  exact hliq ⟨hneg, hc⟩
                · have hfees : position.collectFees (pool.sqrtPriceBox sqrtPa sqrtPb delta).1 =
                      position.collectFees pool := by
                    rw [hbox]
                    rfl
                  rw [hfees] at h
                  have hpos : (((pool.sqrtPriceBox sqrtPa sqrtPb delta).1.modifyTicks position
                      (decide (0 < delta.val)) (movedLiquidity cfg position delta)).positions) =
                      pool.positions := by
                    rw [hticks, hbox]
                  simp only [Except.ok.injEq, Prod.mk.injEq] at h
                  obtain ⟨rfl, rfl⟩ := h
                  refine ⟨?_, rfl, rfl⟩
                  obtain ⟨q, hq⟩ : ∃ q, q = (pool.sqrtPriceBox sqrtPa sqrtPb delta).1.modifyTicks
                    position (decide (0 < delta.val)) (movedLiquidity cfg position delta) :=
                    ⟨_, rfl⟩
                  rw [← hq] at hpos
                  unfold withModified
                  rw [← hq, ← hpos]
                  have hkeep : ¬removesPosition cfg position delta = true →
                      movedLiquidity cfg position delta = unsignedAbs delta := by
                    intro hrem
                    rw [movedLiquidity, if_neg hrem]
                  show ({ (pool.sqrtPriceBox sqrtPa sqrtPb delta).1.modifyTicks
                    position (decide (0 < delta.val)) (movedLiquidity cfg position delta) with
                    positions := if removesPosition cfg position delta then
                        ((pool.sqrtPriceBox sqrtPa sqrtPb delta).1.modifyTicks position
                          (decide (0 < delta.val))
                          (movedLiquidity cfg position delta)).positions.erase
                            (coldkey, positionId)
                      else
                        ((pool.sqrtPriceBox sqrtPa sqrtPb delta).1.modifyTicks position
                          (decide (0 < delta.val))
                          (movedLiquidity cfg position delta)).positions.insert
                            (coldkey, position.id)
                            { (position.collectFees pool).1 with
                              liquidity := if decide (0 < delta.val) then
                                  position.liquidity.satAdd (movedLiquidity cfg position delta)
                                else position.liquidity.satSub
                                  (movedLiquidity cfg position delta) } } : Pool A) = _
                  rw [← hq]
                  by_cases hrem : removesPosition cfg position delta = true
                  · rw [if_pos hrem, if_pos hrem]
                  · rw [if_neg hrem, if_neg hrem, hkeep hrem]
                    simp only [decide_eq_true_eq]
                    rfl
          · cases h

/-- `adjust_protocol_liquidity` writes to the positions only. -/
theorem adjustProtocolLiquidity_frame (cfg : Config A) (pool : Pool A) (taoDelta alphaDelta : U64) :
    ∃ positions, pool.adjustProtocolLiquidity cfg taoDelta alphaDelta =
      { pool with positions := positions } := by
  unfold adjustProtocolLiquidity
  split
  · exact ⟨pool.positions, rfl⟩
  · split
    · exact ⟨pool.positions, rfl⟩
    · exact ⟨_, rfl⟩

end Pool

end Subtensor.Swap
