import Subtensor.Swap.Elimination
import Subtensor.Swap.PositionCap
import Subtensor.Swap.TickAccounting

/-!
# Adding and removing a position

A removal takes back what the addition of the position did, as long as no
counter saturated in between: the gross liquidity at the two ticks and the
current liquidity have room for the new liquidity, ticks that exist have some,
and the id is new. Only `LastPositionId` keeps the trace.
-/

namespace Subtensor.Swap

open Subtensor.Lib

namespace Pool

variable {A : Type} [DecidableEq A] {cfg : Config A} {env : Env A} {pool pool' : Pool A}
  {coldkey hotkey owner : A} {lo hi : ℤ} {l : U64}

/-- A tick has room for more liquidity, and has some if it exists. -/
structure RoomAt (pool : Pool A) (t : ℤ) (l : U64) : Prop where
  fits : pool.positionsGross t + l.val < 2 ^ 64
  nonempty : pool.IsEndpoint t → 0 < pool.positionsGross t

/-- Nothing saturates when the position is added. -/
structure HasRoom (pool : Pool A) (owner : A) (lo hi : ℤ) (l : U64) : Prop where
  fresh : pool.positions.lookup (owner, pool.nextId) = none
  low : pool.RoomAt lo l
  high : pool.RoomAt hi l
  current : lo ≤ pool.currentTick → pool.currentTick < hi →
    pool.currentLiquidity.val + l.val < 2 ^ 64

/-! ## Ticks and their index -/

/-- The ticks after the liquidity is added at both ends and taken away again. -/
theorem removeAdded_ticks (h : pool.TickAccounting) (hlt : lo < hi) (hlow : pool.RoomAt lo l)
    (hhigh : pool.RoomAt hi l) {q : Pool A}
    (hq : q.ticks = ((pool.addLiquidityAtIndex lo l false).addLiquidityAtIndex hi l true).ticks) :
    ((q.removeLiquidityAtIndex lo l false).removeLiquidityAtIndex hi l true).ticks =
      pool.ticks := by
  have hback : ∀ t upper, pool.RoomAt t l →
      removedTick l upper (some (pool.addedTick l upper t)) = pool.ticks t := by
    intro t upper hroom
    have hnet := h.natAbs_net_lt t
    refine removedTick_addedTick pool l upper ?_ ?_ (by omega)
    · intro hsome
      rw [h.gross]
      exact hroom.nonempty ((h.exists_iff t).mp hsome)
    · rw [h.gross]
      exact hroom.fits
  have hne : hi ≠ lo := hlt.ne'
  have hadded : (pool.addLiquidityAtIndex lo l false).addedTick l true hi =
      pool.addedTick l true hi := by
    unfold addedTick
    rw [addLiquidityAtIndex_ticks, Function.update_of_ne hne]
    rfl
  have hlo : q.ticks lo = some (pool.addedTick l false lo) := by
    rw [hq, addLiquidityAtIndex_ticks, Function.update_of_ne hne.symm, addLiquidityAtIndex_ticks,
      Function.update_self]
  have hhi : q.ticks hi = some (pool.addedTick l true hi) := by
    rw [hq, addLiquidityAtIndex_ticks, Function.update_self, hadded]
  funext t
  rw [removeLiquidityAtIndex_ticks, removeLiquidityAtIndex_ticks, Function.update_of_ne hne]
  rcases eq_or_ne t hi with rfl | hthi
  · rw [Function.update_self, hhi]
    exact hback t true hhigh
  · rw [Function.update_of_ne hthi]
    rcases eq_or_ne t lo with rfl | htlo
    · rw [Function.update_self, hlo]
      exact hback t false hlow
    · rw [Function.update_of_ne htlo, hq, addLiquidityAtIndex_ticks, Function.update_of_ne hthi,
        addLiquidityAtIndex_ticks, Function.update_of_ne htlo]

/-! ## Current liquidity -/

omit [DecidableEq A] in
theorem updateLiquidityIfNeeded_addition (pool : Pool A) (lo hi : ℤ) (l : U64) :
    (pool.updateLiquidityIfNeeded lo hi (asI128 l)).currentLiquidity.val =
      if lo ≤ pool.currentBounded ∧ pool.currentBounded < hi then
        min (pool.currentLiquidity.val + l.val) (2 ^ 64 - 1) else pool.currentLiquidity.val := by
  have habs : (Word.sat (asI128 l).val.natAbs : U64) = l := by
    ext
    rw [asI128_val, Int.natAbs_natCast]
    exact Word.val_sat_of_lt l.isLt
  unfold updateLiquidityIfNeeded
  by_cases hin : lo ≤ pool.currentBounded ∧ pool.currentBounded < hi
  · have hnonneg : ¬(asI128 l).val < 0 := by
      rw [asI128_val]
      omega
    rw [if_pos hin, if_pos hin]
    dsimp only
    rw [if_neg hnonneg, habs, Word.val_satAdd]
  · rw [if_neg hin, if_neg hin]

omit [DecidableEq A] in
theorem addLiquidityToTicks_currentLiquidity (pool : Pool A) (lo hi : ℤ) (l : U64) :
    (pool.addLiquidityToTicks lo hi l).currentLiquidity.val =
      if lo ≤ pool.currentBounded ∧ pool.currentBounded < hi then
        min (pool.currentLiquidity.val + l.val) (2 ^ 64 - 1) else pool.currentLiquidity.val := by
  rcases clampSqrtPrice_frame ((pool.addLiquidityAtIndex lo l false).addLiquidityAtIndex hi l true)
    pool.currentBounded with ⟨price, hprice⟩
  refine (updateLiquidityIfNeeded_addition (((pool.addLiquidityAtIndex lo l
    false).addLiquidityAtIndex hi l true).clampSqrtPrice pool.currentBounded) lo hi l).trans ?_
  rw [hprice]
  rfl

/-! ## The round trip -/

theorem withoutPosition_frame (pool : Pool A) (key : A × PositionId) (position : Position) :
    ∃ ticks words liq, pool.withoutPosition key position = { pool with
      ticks := ticks, tickIndexBitmapWords := words, currentLiquidity := liq,
      positions := pool.positions.erase key } := by
  rcases pool.withoutPosition_ticks key position with ⟨liq, hliq⟩
  rcases removeLiquidityAtIndex_frame pool position.tickLow position.liquidity false with
    ⟨ticks₁, words₁, h₁⟩
  rcases removeLiquidityAtIndex_frame (pool.removeLiquidityAtIndex position.tickLow
    position.liquidity false) position.tickHigh position.liquidity true with ⟨ticks₂, words₂, h₂⟩
  refine ⟨ticks₂, words₂, liq, ?_⟩
  rw [hliq, h₂, h₁]

omit [DecidableEq A] in
theorem initialized_eta (h : pool.swapV3Initialized = true) :
    { pool with swapV3Initialized := true } = pool := by
  rw [← h]

theorem withoutPosition_withPosition (hinit : pool.swapV3Initialized = true)
    (h : pool.TickAccounting) (hmin : TickIndex.MIN < pool.currentTick)
    (hmax : pool.currentTick < TickIndex.MAX) (hlt : lo < hi) (hlo : InBounds lo)
    (hhi : InBounds hi) (hroom : pool.HasRoom owner lo hi l) :
    (pool.withPosition owner lo hi l).withoutPosition (owner, pool.nextId)
      (Position.new (pool.addLiquidityToTicks lo hi l) pool.nextId lo hi l) =
        { pool with lastPositionId := pool.nextId } := by
  let q := pool.withPosition owner lo hi l
  let position := Position.new (pool.addLiquidityToTicks lo hi l) pool.nextId lo hi l
  let pool' := q.withoutPosition (owner, pool.nextId) position
  have hbounded : pool.currentBounded = pool.currentTick := currentBounded_eq ⟨hmin.le, hmax.le⟩
  rcases addLiquidityToTicks_frame pool lo hi l with ⟨price, liq, hframe⟩
  rcases q.withoutPosition_frame (owner, pool.nextId) position with
    ⟨ticks, words, liq', hframe'⟩
  have hticks : pool'.ticks = pool.ticks := by
    rcases q.withoutPosition_ticks (owner, pool.nextId) position with ⟨_, hliq⟩
    show (q.withoutPosition (owner, pool.nextId) position).ticks = pool.ticks
    rw [hliq]
    exact removeAdded_ticks h hlt hroom.low hroom.high (addLiquidityToTicks_ticks pool lo hi l)
  have hindexed : pool'.TicksIndexed := by
    rcases q.withoutPosition_ticks (owner, pool.nextId) position with ⟨_, hliq⟩
    have hq : q.TicksIndexed := by
      show (pool.addLiquidityToTicks lo hi l).TicksIndexed
      rw [hframe]
      exact (h.indexed.addLiquidityAtIndex hlo l false).addLiquidityAtIndex hhi l true
    show (q.withoutPosition (owner, pool.nextId) position).TicksIndexed
    rw [hliq]
    exact (hq.removeLiquidityAtIndex _ _ false).removeLiquidityAtIndex _ _ true
  have hwords : pool'.tickIndexBitmapWords = pool.tickIndexBitmapWords := by
    refine hindexed.exact.unique ?_
    have hactive : pool'.activeTicks = pool.activeTicks := by
      unfold activeTicks
      rw [hticks]
    rw [hactive]
    exact h.indexed.exact
  have hprice : price = pool.alphaSqrtPrice := by
    have hsettled := pool.addLiquidityToTicks_price lo hi l
    rw [hframe] at hsettled
    refine hsettled.trans ?_
    unfold settlementPrice clampSqrtPrice
    rw [hbounded, if_neg (by omega)]
  have hliquidity : pool'.currentLiquidity = pool.currentLiquidity := by
    have hadded := addLiquidityToTicks_currentLiquidity pool lo hi l
    have hcur := pool.currentLiquidity.isLt
    have hq : q.currentBounded = pool.currentBounded := by
      show (pool.addLiquidityToTicks lo hi l).currentBounded = pool.currentBounded
      rw [hframe]
      rfl
    ext
    refine (q.withoutPosition_currentLiquidity (owner, pool.nextId) position).trans ?_
    rw [show q.currentLiquidity.val = _ from hadded]
    have hrange : q.TickInRange position ↔
        lo ≤ pool.currentBounded ∧ pool.currentBounded < hi := by
      unfold TickInRange
      rw [hq]
      exact Iff.rfl
    by_cases hin : lo ≤ pool.currentBounded ∧ pool.currentBounded < hi
    · have hfits := hroom.current (hbounded ▸ hin.1) (hbounded ▸ hin.2)
      rw [if_pos hin, if_pos (hrange.mpr hin)]
      show min (pool.currentLiquidity.val + l.val) (2 ^ 64 - 1) - l.val = _
      omega
    · rw [if_neg hin, if_neg (hrange.not.mpr hin), Nat.sub_zero]
  have hpositions : q.positions.erase (owner, pool.nextId) = pool.positions :=
    StorageMap.erase_insert_new position hroom.fresh
  have hrest : pool' = { ({ pool with swapV3Initialized := true } : Pool A) with
      ticks := ticks, tickIndexBitmapWords := words, currentLiquidity := liq',
      lastPositionId := pool.nextId, positions := q.positions.erase (owner, pool.nextId) } := by
    refine hframe'.trans ?_
    show ({ pool.addLiquidityToTicks lo hi l with
      lastPositionId := pool.nextId
      swapV3Initialized := true
      ticks := ticks, tickIndexBitmapWords := words, currentLiquidity := liq'
      positions := q.positions.erase (owner, pool.nextId) } : Pool A) = _
    rw [hframe, hprice]
    rfl
  have hticks' : ticks = pool.ticks := (congrArg Pool.ticks hrest).symm.trans hticks
  have hwords' : words = pool.tickIndexBitmapWords :=
    (congrArg Pool.tickIndexBitmapWords hrest).symm.trans hwords
  have hliquidity' : liq' = pool.currentLiquidity :=
    (congrArg Pool.currentLiquidity hrest).symm.trans hliquidity
  refine hrest.trans ?_
  rw [hticks', hwords', hliquidity', hpositions, initialized_eta hinit]

/-! ## The calls -/

theorem feeOf_self (l : U64) (agg : I64F64) : Position.feeOf l agg agg = 0 := by
  have hsub : (agg.satSub agg).bits = 0 := by
    unfold IFixed.satSub
    rw [sub_self]
    rfl
  have hmul : ((IFixed.ofInt l.val : I64F64).satMul (agg.satSub agg)).bits = 0 := by
    unfold IFixed.satMul
    rw [hsub, mul_zero, Int.zero_ediv]
    rfl
  unfold Position.feeOf IFixed.toWord
  rw [hmul, Int.zero_ediv]
  rfl

theorem collectFees_withPosition (pool : Pool A) (owner : A) (lo hi : ℤ) (l : U64) :
    ((Position.new (pool.addLiquidityToTicks lo hi l) pool.nextId lo hi l).collectFees
      (pool.withPosition owner lo hi l)).2 = (0, 0) :=
  Prod.ext (feeOf_self l _) (feeOf_self l _)

/-- **Adding and then removing a position.** The removal returns the amounts of
the addition and no fees, and the pool is the one before, up to the last id. -/
theorem doRemoveLiquidity_doAddLiquidity {id : PositionId} {tao alpha : U64}
    (hinit : pool.swapV3Initialized = true) (h : pool.TickAccounting)
    (hmin : TickIndex.MIN < pool.currentTick) (hmax : pool.currentTick < TickIndex.MAX)
    (hlt : lo < hi) (hroom : pool.HasRoom coldkey lo hi l)
    (hadd : pool.doAddLiquidity cfg env coldkey hotkey lo hi l = .ok (pool', id, tao, alpha)) :
    pool'.doRemoveLiquidity coldkey id =
      .ok ({ pool with lastPositionId := pool.nextId }, ⟨tao, alpha, 0, 0, true⟩) := by
  let position := Position.new (pool.addLiquidityToTicks lo hi l) pool.nextId lo hi l
  rcases doAddLiquidity_ok hadd with ⟨hlo, hhi, -, rfl⟩
  rcases doAddLiquidity_id hadd with rfl
  have hprice : (pool.withPosition coldkey lo hi l).alphaSqrtPrice = settlementPrice pool :=
    pool.addLiquidityToTicks_price lo hi l
  have hstored : (pool.withPosition coldkey lo hi l).positions.lookup (coldkey, pool.nextId) =
      some position := AList.lookup_insert _
  rcases doRemoveLiquidity_of_stored hstored hlo hhi with ⟨⟨pool'', r⟩, hremove⟩
  rcases doRemoveLiquidity_ok hremove with ⟨_, hlook, hpool, hfeeTao, hfeeAlpha⟩
  rcases doRemoveLiquidity_tao hremove with ⟨_, hlook₁, htao, -⟩
  rcases doRemoveLiquidity_alpha hremove with ⟨_, hlook₂, halpha, hremoved⟩
  cases hstored.symm.trans hlook
  cases hstored.symm.trans hlook₁
  cases hstored.symm.trans hlook₂
  rw [collectFees_withPosition] at hfeeTao hfeeAlpha
  have htao' : r.tao = tao := by
    ext
    rw [htao, hprice, doAddLiquidity_tao hadd]
    rfl
  have halpha' : r.alpha = alpha := by
    ext
    rw [halpha, hprice, doAddLiquidity_alpha hadd]
    rfl
  rw [hremove, hpool, withoutPosition_withPosition hinit h hmin hmax hlt hlo hhi hroom,
    ← htao', ← halpha', ← hremoved]
  rcases r with ⟨rtao, ralpha, rfeeTao, rfeeAlpha, rremoved⟩
  dsimp only at hfeeTao hfeeAlpha
  rw [hfeeTao, hfeeAlpha]

/-! ## A run in the small pool, and a saturated tick -/

/-- Gross liquidity is at most twice the liquidity of all positions. -/
theorem positionsGross_le (pool : Pool A) (t : ℤ) : pool.positionsGross t ≤
    StorageMap.sumBy (fun _ position => 2 * position.liquidity.val) pool.positions := by
  refine StorageMap.sumBy_le_sumBy fun _ position _ => ?_
  unfold Position.grossAt
  split_ifs <;> omega

theorem mockPool_liquidity : StorageMap.sumBy (fun _ position => 2 * position.liquidity.val)
    mockPool.positions = 2000000000 := by decide +kernel

/-- A position around the price of the small pool comes and goes. -/
theorem doRemoveLiquidity_doAddLiquidity_mockPool : ∃ pool' tao alpha,
    mockPool.doAddLiquidity mockConfig mockEnv 10 1 (-10000) 10000 (.sat 100000) =
        .ok (pool', .sat 2, tao, alpha) ∧
      pool'.doRemoveLiquidity 10 (.sat 2) =
        .ok ({ mockPool with lastPositionId := mockPool.nextId }, ⟨tao, alpha, 0, 0, true⟩) := by
  have hadd : (mockPool.doAddLiquidity mockConfig mockEnv 10 1 (-10000) 10000
      (.sat 100000)).toOption.map (fun res => res.2.1) = some (.sat 2) := by decide +kernel
  have hstate : mockPool.swapV3Initialized = true ∧ mockPool.currentTick = 0 ∧
      mockPool.currentLiquidity.val = 1000000000 ∧
      mockPool.positions.lookup (10, mockPool.nextId) = none ∧
      mockPool.ticks (-10000) = none ∧ mockPool.ticks 10000 = none := by decide +kernel
  rcases hstate with ⟨hinit, htick, hliq, hfresh, hlow, hhigh⟩
  rcases exists_ok_of_toOption_map hadd with ⟨⟨pool', id, tao, alpha⟩, hok, rfl⟩
  have hroom : ∀ t : ℤ, mockPool.ticks t = none → mockPool.RoomAt t (.sat 100000) := by
    intro t hnone
    have hle := mockPool.positionsGross_le t
    rw [mockPool_liquidity] at hle
    have hl : (Word.sat 100000 : U64).val = 100000 := by decide
    refine ⟨by omega, ?_⟩
    intro hend
    have hsome := (mockPool_initial.tickAccounting.exists_iff t).mpr hend
    rw [hnone] at hsome
    cases hsome
  refine ⟨pool', tao, alpha, hok, doRemoveLiquidity_doAddLiquidity hinit
    mockPool_initial.tickAccounting ?_ ?_ (by decide) ⟨hfresh, hroom _ hlow,
    hroom _ hhigh, ?_⟩ hok⟩
  · rw [htick]
    decide
  · rw [htick]
    decide
  · intro _ _
    rw [hliq]
    decide

/-- The small pool with a position above the price that takes half of what fits
at a tick. -/
def crowdedPool : Pool ℕ :=
  mockPool.step mockConfig (.addLiquidity mockEnv 10 1 443000 443010 (.sat (2 ^ 63)))

theorem crowdedPool_tickAccounting : crowdedPool.TickAccounting := by
  have hadd : (mockPool.doAddLiquidity mockConfig mockEnv 10 1 443000 443010
      (.sat (2 ^ 63))).toOption.map (fun _ => ()) = some () := by decide +kernel
  have hfresh : mockPool.positions.lookup (10, mockPool.nextId) = none := by decide +kernel
  rcases exists_ok_of_toOption_map hadd with ⟨⟨pool', r⟩, hok, -⟩
  have hpool : crowdedPool = mockPool.withPosition 10 443000 443010 (.sat (2 ^ 63)) := by
    have hstep : crowdedPool = pool' := by
      show okOr mockPool (mockPool.doAddLiquidity mockConfig mockEnv 10 1 443000 443010
        (.sat (2 ^ 63))) = pool'
      rw [hok]
      rfl
    exact hstep.trans (doAddLiquidity_ok hok).2.2.2
  rw [hpool]
  refine mockPool_initial.tickAccounting.withPosition hfresh (by decide) (by decide) ?_
  intro t
  have hle := mockPool.positionsGross_le t
  rw [mockPool_liquidity] at hle
  have hl : (Word.sat (2 ^ 63) : U64).val = 2 ^ 63 := by decide
  rw [withPosition_positionsGross hfresh, hl]
  split_ifs <;> omega

/-- As much liquidity once more: the call succeeds, the gross liquidity stops at
the greatest `u64`, and the removal leaves one unit less than before. -/
theorem roundTrip_saturates : crowdedPool.swapV3Initialized = true ∧
    crowdedPool.TickAccounting ∧ TickIndex.MIN < crowdedPool.currentTick ∧
    crowdedPool.currentTick < TickIndex.MAX ∧
    ∃ pool' id tao alpha pool'' r,
      crowdedPool.doAddLiquidity mockConfig mockEnv 10 1 443000 443010 (.sat (2 ^ 63)) =
        .ok (pool', id, tao, alpha) ∧
      pool'.doRemoveLiquidity 10 id = .ok (pool'', r) ∧
      crowdedPool.tickGross 443000 = 2 ^ 63 ∧ pool''.tickGross 443000 = 2 ^ 63 - 1 ∧
      pool''.ticks ≠ crowdedPool.ticks := by
  have hstate : crowdedPool.swapV3Initialized = true ∧
      TickIndex.MIN < crowdedPool.currentTick ∧ crowdedPool.currentTick < TickIndex.MAX ∧
      crowdedPool.tickGross 443000 = 2 ^ 63 := by decide +kernel
  have hadd : (crowdedPool.doAddLiquidity mockConfig mockEnv 10 1 443000 443010
      (.sat (2 ^ 63))).toOption.map (fun res =>
        (res.1.doRemoveLiquidity 10 res.2.1).toOption.map fun res' =>
          res'.1.tickGross 443000) = some (some (2 ^ 63 - 1)) := by decide +kernel
  rcases exists_ok_of_toOption_map hadd with ⟨⟨pool', id, tao, alpha⟩, hok, hremove⟩
  rcases exists_ok_of_toOption_map hremove with ⟨⟨pool'', r⟩, hok', hgross⟩
  refine ⟨hstate.1, crowdedPool_tickAccounting, hstate.2.1, hstate.2.2.1, pool', id, tao, alpha,
    pool'', r, hok, hok', hstate.2.2.2, hgross, ?_⟩
  intro heq
  have hsame : pool''.tickGross 443000 = crowdedPool.tickGross 443000 := by
    unfold tickGross
    rw [heq]
  rw [hgross, hstate.2.2.2] at hsame
  omega

end Pool

end Subtensor.Swap
