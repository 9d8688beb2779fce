import Subtensor.Swap.PartialFill
import Subtensor.Swap.ProtocolLiquidity
import Subtensor.Swap.TickAccountingRuns

/-!
# Active liquidity

The current liquidity is that of the positions whose range holds the current
tick. Three pieces of code keep it so: a position that comes or goes compares
ticks, a modification compares prices, and a swap adds the net liquidity of the
ticks that it crosses. A sale that crosses a tick leaves the price on it with the
liquidity below it, until its next step.
-/

namespace Subtensor.Swap

open Subtensor.Lib Subtensor.Lib.StorageMap Relation

variable {A : Type}

/-! ## From tick to tick -/

/-- A range in order, within the ticks. -/
structure Position.Ordered (position : Position) : Prop where
  low : TickIndex.MIN ≤ position.tickLow
  ordered : position.tickLow ≤ position.tickHigh
  high : position.tickHigh ≤ TickIndex.MAX

/-- Between two ticks where a position does not end, only the upper tick counts. -/
theorem Position.liquidityAt_next {position : Position}
    (hordered : position.tickLow ≤ position.tickHigh) {t t' : ℤ} (hlt : t < t')
    (hgap : ∀ s, t < s → s < t' → ¬position.EndsAt s) :
    (position.liquidityAt t' : ℤ) = position.liquidityAt t + position.netAt t' := by
  have hlow : position.tickLow ≤ t ∨ t' ≤ position.tickLow := by
    by_contra hnot
    rw [not_or, not_le, not_le] at hnot
    exact hgap _ hnot.1 hnot.2 (Or.inl rfl)
  have hhigh : position.tickHigh ≤ t ∨ t' ≤ position.tickHigh := by
    by_contra hnot
    rw [not_or, not_le, not_le] at hnot
    exact hgap _ hnot.1 hnot.2 (Or.inr rfl)
  unfold liquidityAt netAt
  split_ifs <;> omega

namespace Pool

section Profile

variable {pool : Pool A} {t t' : ℤ}

theorem cast_positionsLiquidity (pool : Pool A) (t : ℤ) : (pool.positionsLiquidity t : ℤ) =
    sumBy (fun _ position => (position.liquidityAt t : ℤ)) pool.positions := by
  unfold positionsLiquidity sumBy
  induction pool.positions.entries with
  | nil => rfl
  | cons e es ih =>
      simp only [List.map_cons, List.sum_cons] at ih ⊢
      rw [Nat.cast_add, ih]

variable [DecidableEq A]

def RangesOrdered (pool : Pool A) : Prop :=
  ∀ key position, pool.positions.lookup key = some position → position.Ordered

/-- The liquidity of the ranges that hold a tick, from that of a lower tick with
no active tick in between. -/
theorem TickAccounting.positionsLiquidity_next (h : pool.TickAccounting) (ho : pool.RangesOrdered)
    (hlt : t < t') (hgap : ∀ s, t < s → s < t' → s ∉ pool.activeTicks) :
    (pool.positionsLiquidity t' : ℤ) = pool.positionsLiquidity t + pool.tickNet t' := by
  rw [cast_positionsLiquidity, cast_positionsLiquidity, h.net, positionsNet, ← sumBy_add]
  refine sumBy_congr ?_
  intro key position hlook
  refine Position.liquidityAt_next (ho key position hlook).ordered hlt ?_
  intro s hts hst hends
  exact hgap s hts hst ((h.exists_iff s).mpr ⟨key, position, hlook, hends⟩)

omit [DecidableEq A] in
theorem tickNet_of_notMem (h : t ∉ pool.activeTicks) : pool.tickNet t = 0 := by
  have hnone : pool.ticks t = none := Option.not_isSome_iff_eq_none.mp h
  unfold tickNet
  rw [hnone]
  rfl

theorem TickAccounting.positionsLiquidity_eq (h : pool.TickAccounting) (ho : pool.RangesOrdered)
    (hle : t ≤ t') (hgap : ∀ s, t < s → s ≤ t' → s ∉ pool.activeTicks) :
    pool.positionsLiquidity t' = pool.positionsLiquidity t := by
  rcases hle.lt_or_eq with hlt | rfl
  · have hnext := h.positionsLiquidity_next ho hlt fun s hts hst => hgap s hts hst.le
    rw [tickNet_of_notMem (hgap t' hlt le_rfl), add_zero] at hnext
    exact_mod_cast hnext
  · rfl

theorem positionsLiquidity_low (ho : pool.RangesOrdered) (ht : t < TickIndex.MIN) :
    pool.positionsLiquidity t = 0 := by
  refine sumBy_eq_zero ?_
  intro key position hlook
  have hlow := (ho key position hlook).low
  exact if_neg (by omega)

theorem positionsLiquidity_high (ho : pool.RangesOrdered) (ht : TickIndex.MAX ≤ t) :
    pool.positionsLiquidity t = 0 := by
  refine sumBy_eq_zero ?_
  intro key position hlook
  have hhigh := (ho key position hlook).high
  exact if_neg (by omega)

end Profile

/-! ## Edges and active ticks -/

section Edges

variable {pool : Pool A}

/-- The price is that of the current tick, and the tick is active. -/
def OnTick (pool : Pool A) : Prop :=
  pool.currentTick ∈ pool.activeTicks ∧
    pool.alphaSqrtPrice.bits ≤ TickIndex.priceBits pool.currentTick

theorem Consistent.priceBits_le (h : pool.Consistent) (hlt : TickIndex.MIN < pool.currentTick) :
    TickIndex.priceBits pool.currentTick ≤ pool.alphaSqrtPrice.bits := by
  have hgalois := (TickIndex.le_fromSqrtPriceBounded pool.alphaSqrtPrice).2 _ hlt h.inBounds.2
  rw [← h.tick] at hgalois
  exact hgalois.mp le_rfl

/-- The tick from which on a purchase looks for its edge. -/
theorem Consistent.upperEdge_gap (h : pool.Consistent) {s : ℤ} (hs : pool.currentTick < s)
    (hedge : s < pool.edgeTick .buy) : s ∉ pool.activeTicks := by
  intro hactive
  have hb : InBounds (pool.currentTick + 1) := by
    have hmin := h.inBounds.1
    have hmax := (h.indexed.inBounds s hactive).2
    exact ⟨by omega, by omega⟩
  have hupper : pool.edgeTick .buy = (ActiveTickIndexManager.findClosestHigher
      pool.tickIndexBitmapWords (pool.currentTick + 1)).getD TickIndex.MAX := by
    show pool.upperEdge pool.currentTick = _
    unfold upperEdge TickIndex.next
    rw [TickIndex.new_ok hb]
    rfl
  rw [hupper] at hedge
  cases hfind : ActiveTickIndexManager.findClosestHigher pool.tickIndexBitmapWords
      (pool.currentTick + 1) with
  | none => exact (h.indexed.findClosestHigher_none hb).mp hfind s hactive hs
  | some t =>
      rw [hfind, Option.getD_some] at hedge
      have hleast := ((h.indexed.findClosestHigher_iff hb t).mp hfind).2 ⟨hactive, hs⟩
      omega

theorem findClosestLower_gap (h : pool.TicksIndexed) {q s : ℤ} (hq : InBounds q)
    (hs : (ActiveTickIndexManager.findClosestLower pool.tickIndexBitmapWords q).getD
      TickIndex.MIN < s) (hle : s ≤ q) : s ∉ pool.activeTicks := by
  intro hactive
  cases hfind : ActiveTickIndexManager.findClosestLower pool.tickIndexBitmapWords q with
  | none => exact (h.findClosestLower_none hq).mp hfind s hactive hle
  | some t =>
      rw [hfind, Option.getD_some] at hs
      have hgreatest := ((h.findClosestLower_iff hq t).mp hfind).2 ⟨hactive, hle⟩
      omega

/-- The tick below which a sale trades: the current one, or the one before it
when the price is on an active tick. -/
def SellsFrom (pool : Pool A) (t : ℤ) : Prop :=
  (¬pool.OnTick ∧ t = pool.currentTick) ∨ (pool.OnTick ∧ t = pool.currentTick - 1)

theorem Consistent.lowerEdge_gap (h : pool.Consistent) {t s : ℤ} (ht : pool.SellsFrom t)
    (hs : pool.edgeTick .sell < s) (hle : s ≤ t) : s ∉ pool.activeTicks := by
  intro hactive
  have hbounds := h.indexed.inBounds s hactive
  have hlower : pool.lowerEdge pool.currentTick < s := hs
  unfold lowerEdge at hlower
  dsimp only at hlower
  have hcurrent : s ≤ pool.currentTick := by
    rcases ht with ⟨-, rfl⟩ | ⟨-, rfl⟩
    · exact hle
    · omega
  split at hlower
  · exact findClosestLower_gap h.indexed h.inBounds hlower hcurrent hactive
  · rename_i hcond
    rcases eq_or_ne s pool.currentTick with rfl | hne
    · -- an active current tick that is not the edge has the price
      refine (ht.resolve_right ?_).1 ⟨hactive, ?_⟩
      · rintro ⟨-, rfl⟩
        omega
      · by_contra hlt
        rw [not_le, ← TickIndex.asSqrtPriceBounded_bits h.inBounds.1 h.inBounds.2] at hlt
        refine hcond ⟨?_, hlt⟩
        unfold ActiveTickIndexManager.tickIsActive
        rw [decide_eq_true_eq, (h.indexed.findClosestLower_iff h.inBounds _).mpr
          ⟨⟨hactive, le_rfl⟩, fun u hu => hu.2⟩]
        rfl
    · have hb : InBounds (pool.currentTick - 1) := by
        have hmax := h.inBounds.2
        exact ⟨by have := hbounds.1; omega, by omega⟩
      unfold TickIndex.prev at hlower
      rw [TickIndex.new_ok hb] at hlower
      exact findClosestLower_gap h.indexed hb hlower (by omega) hactive

/-- The edge of a sale is not above the tick that it trades below, except at the
lowest tick. -/
theorem Consistent.lowerEdge_le_of_sellsFrom (h : pool.Consistent) {t : ℤ}
    (ht : pool.SellsFrom t) : pool.edgeTick .sell ≤ t ∨
      (t = TickIndex.MIN - 1 ∧ pool.edgeTick .sell = TickIndex.MIN) := by
  have hle : pool.edgeTick .sell ≤ pool.currentTick := h.lowerEdge_le
  have hmin := (pool.lowerEdge_inBounds pool.currentTick).1
  rcases ht with ⟨-, rfl⟩ | ⟨hon, rfl⟩
  · exact Or.inl hle
  · rcases h.inBounds.1.lt_or_eq with hlt | heq
    · left
      have hb : InBounds (pool.currentTick - 1) := by
        have hmax := h.inBounds.2
        exact ⟨by omega, by omega⟩
      have hcond : ¬((ActiveTickIndexManager.tickIsActive pool.tickIndexBitmapWords
          pool.currentTick = true) ∧ (TickIndex.asSqrtPriceBounded pool.currentTick).bits <
            pool.currentPriceSqrt.bits) := by
        rintro ⟨-, hbelow⟩
        rw [TickIndex.asSqrtPriceBounded_bits h.inBounds.1 h.inBounds.2] at hbelow
        exact absurd hon.2 (not_le.mpr hbelow)
      show pool.lowerEdge pool.currentTick ≤ pool.currentTick - 1
      unfold lowerEdge TickIndex.prev
      dsimp only
      rw [if_neg hcond, TickIndex.new_ok hb]
      show (ActiveTickIndexManager.findClosestLower pool.tickIndexBitmapWords
        (pool.currentTick - 1)).getD TickIndex.MIN ≤ pool.currentTick - 1
      cases hfind : ActiveTickIndexManager.findClosestLower pool.tickIndexBitmapWords
          (pool.currentTick - 1) with
      | none => exact hb.1
      | some s => exact ((h.indexed.findClosestLower_iff hb s).mp hfind).1.2
    · right
      refine ⟨by omega, le_antisymm ?_ hmin⟩
      omega

end Edges

/-! ## The liquidity after a crossing -/

section Crossing

variable {pool : Pool A} {l : U64} {tick : Tick}

theorem liquidityNetAsU64_val (h : tick.liquidityNet.val.natAbs < 2 ^ 64) :
    tick.liquidityNetAsU64.val = tick.liquidityNet.val.natAbs := by
  unfold Tick.liquidityNetAsU64
  rw [if_neg (by omega), Word.val_sat_of_lt h]

/-- A purchase adds the net liquidity, which can be negative. -/
theorem crossLiquidity_buy (h : tick.liquidityNet.val.natAbs < 2 ^ 64)
    (hfits : (l.val : ℤ) + tick.liquidityNet.val < 2 ^ 64) :
    (crossLiquidity .buy l tick).val = (l.val + tick.liquidityNet.val).toNat := by
  have hval := liquidityNetAsU64_val h
  unfold crossLiquidity
  by_cases hnet : 0 ≤ tick.liquidityNet.val
  · rw [decide_eq_true hnet]
    show (l.satAdd tick.liquidityNetAsU64).val = _
    rw [Word.val_satAdd, hval]
    omega
  · rw [decide_eq_false hnet]
    show (l.satSub tick.liquidityNetAsU64).val = _
    rw [Word.val_satSub, hval]
    omega

theorem crossLiquidity_sell (h : tick.liquidityNet.val.natAbs < 2 ^ 64)
    (hfits : (l.val : ℤ) - tick.liquidityNet.val < 2 ^ 64) :
    (crossLiquidity .sell l tick).val = (l.val - tick.liquidityNet.val).toNat := by
  have hval := liquidityNetAsU64_val h
  unfold crossLiquidity
  by_cases hnet : 0 ≤ tick.liquidityNet.val
  · rw [decide_eq_true hnet]
    show (l.satSub tick.liquidityNetAsU64).val = _
    rw [Word.val_satSub, hval]
    omega
  · rw [decide_eq_false hnet]
    show (l.satAdd tick.liquidityNetAsU64).val = _
    rw [Word.val_satAdd, hval]
    omega

theorem crossed_currentLiquidity (cfg : Config A) (pool : Pool A) (step : SwapStep) (tick : Tick) :
    (step.crossed cfg pool tick).currentLiquidity =
      crossLiquidity step.orderType pool.currentLiquidity tick := by
  unfold SwapStep.crossed SwapStep.updateCurrentPrice SwapStep.withCrossedTick
  dsimp only
  rw [addFees_currentLiquidity]

theorem stopped_currentLiquidity (cfg : Config A) (pool : Pool A) (step : SwapStep) :
    (step.stopped cfg pool).currentLiquidity = pool.currentLiquidity := by
  rcases addFees_frame cfg pool step.orderType step.fee with ⟨tao, alpha, h⟩
  unfold SwapStep.stopped
  rw [h]
  rfl

theorem tickNet_of_eq_some {t : ℤ} (h : pool.ticks t = some tick) :
    pool.tickNet t = tick.liquidityNet.val := by
  unfold tickNet
  rw [h]
  rfl

end Crossing

/-! ## Steps -/

section Steps

variable [DecidableEq A] {cfg : Config A} {pool pool' : Pool A} {limit : SqrtPrice} {amount : U64}
  {orderType : OrderType} {r : SwapStepResult}

/-- The ticks record ranges in order, and the liquidity at a tick fits. -/
structure Sound (pool : Pool A) : Prop where
  consistent : pool.Consistent
  accounting : pool.TickAccounting
  ordered : pool.RangesOrdered
  fits : ∀ t, pool.positionsLiquidity t < 2 ^ 64

omit [DecidableEq A] in
theorem positionsLiquidity_congr {q : Pool A} (h : q.positions = pool.positions) (t : ℤ) :
    q.positionsLiquidity t = pool.positionsLiquidity t := by
  unfold positionsLiquidity
  rw [h]

theorem TickAccounting.congr {q : Pool A} (h : pool.TickAccounting) (hq : q.TicksIndexed)
    (hsame : SameLiquidity pool q) : q.TickAccounting where
  exists_iff t := by
    rw [hsame.exists_iff, h.exists_iff]
    unfold IsEndpoint
    rw [hsame.positions]
  gross t := by
    rw [hsame.gross, h.gross]
    unfold positionsGross
    rw [hsame.positions]
  net t := by
    rw [hsame.net, h.net]
    unfold positionsNet
    rw [hsame.positions]
  indexed := hq

theorem Sound.congr {q : Pool A} (h : pool.Sound) (hq : q.Consistent)
    (hsame : SameLiquidity pool q) : q.Sound where
  consistent := hq
  accounting := h.accounting.congr hq.indexed hsame
  ordered key position hlook := by
    rw [hsame.positions] at hlook
    exact h.ordered key position hlook
  fits t := by
    rw [positionsLiquidity_congr hsame.positions]
    exact h.fits t

theorem Sound.nextStep (h : pool.Sound)
    (hstep : (pool.nextStep orderType limit amount).processSwap cfg pool = .ok (pool', r)) :
    pool'.Sound :=
  h.congr (h.consistent.nextStep hstep) (h.consistent.nextStep_sameLiquidity hstep)

omit [DecidableEq A] in
theorem edgePrice_bits (pool : Pool A) (orderType : OrderType) :
    (pool.edgePrice orderType).bits = TickIndex.priceBits (pool.edgeTick orderType) := by
  have hb := pool.tickEdge_inBounds pool.currentTick orderType
  exact TickIndex.asSqrtPriceBounded_bits hb.1 hb.2

omit [DecidableEq A] in
/-- A step that ends on its edge has the tick of the edge. -/
theorem nextStep_currentTick_of_edge
    (hstep : (pool.nextStep orderType limit amount).processSwap cfg pool = .ok (pool', r))
    (hfinal : (pool.nextStep orderType limit amount).finalPrice.bits =
      (pool.edgePrice orderType).bits) :
    pool'.currentTick = pool.edgeTick orderType ∧
      pool'.alphaSqrtPrice.bits = TickIndex.priceBits (pool.edgeTick orderType) := by
  have hb := pool.tickEdge_inBounds pool.currentTick orderType
  rcases SwapStep.processSwap_price hstep with ⟨hprice, htick⟩
  rw [hprice, htick, UFixed.ext_iff.mpr hfinal, edgePrice_bits]
  exact ⟨TickIndex.fromSqrtPriceBounded_asSqrtPriceBounded hb.1 hb.2, rfl⟩

omit [DecidableEq A] in
theorem Consistent.nextStep_positionsLiquidity (h : pool.Consistent)
    (hstep : (pool.nextStep orderType limit amount).processSwap cfg pool = .ok (pool', r))
    (t : ℤ) : pool'.positionsLiquidity t = pool.positionsLiquidity t :=
  positionsLiquidity_congr (h.nextStep_sameLiquidity hstep).positions t

/-- What a purchase crosses brings the liquidity of the ranges that hold the
edge. At the highest tick there is none. -/
theorem Sound.upperEdge_net (h : pool.Sound) :
    (pool.tickNet (pool.edgeTick .buy)).natAbs < 2 ^ 64 ∧
      (pool.positionsLiquidity pool.currentTick + pool.tickNet (pool.edgeTick .buy) : ℤ) <
        2 ^ 64 ∧
      (pool.positionsLiquidity pool.currentTick + pool.tickNet (pool.edgeTick .buy) : ℤ).toNat =
        pool.positionsLiquidity (pool.edgeTick .buy) := by
  have hfits := h.fits pool.currentTick
  have hfits' := h.fits (pool.edgeTick .buy)
  rcases h.consistent.inBounds.2.lt_or_eq with hlt | heq
  · have hnext := h.accounting.positionsLiquidity_next h.ordered (h.consistent.lt_upperEdge hlt)
      fun s => h.consistent.upperEdge_gap
    change (pool.positionsLiquidity (pool.edgeTick .buy) : ℤ) =
      _ + pool.tickNet (pool.edgeTick .buy) at hnext
    omega
  · have hmax : pool.edgeTick .buy = TickIndex.MAX := h.consistent.upperEdge_max heq
    have hfits'' := h.fits (TickIndex.MAX - 1)
    have hnext := h.accounting.positionsLiquidity_next h.ordered (sub_one_lt TickIndex.MAX)
      fun s hs hst => by omega
    have hnone := positionsLiquidity_high h.ordered (le_refl TickIndex.MAX)
    rw [hmax, heq]
    omega

/-- A purchase keeps the current liquidity that of the ranges that hold the
current tick. -/
theorem Sound.nextStep_buy (h : pool.Sound)
    (hcurrent : pool.currentLiquidity.val = pool.positionsLiquidity pool.currentTick)
    (hlimit : pool.LimitAhead .buy limit)
    (hstep : (pool.nextStep .buy limit amount).processSwap cfg pool = .ok (pool', r)) :
    pool'.currentLiquidity.val = pool'.positionsLiquidity pool'.currentTick := by
  have hin := h.consistent.inBounds
  have hb : InBounds (pool.edgeTick .buy) := pool.tickEdge_inBounds pool.currentTick .buy
  have hgap : ∀ s, pool.currentTick < s → s < pool.edgeTick .buy → s ∉ pool.activeTicks :=
    fun s => h.consistent.upperEdge_gap
  have hmin : TickIndex.MIN < pool.edgeTick .buy := by
    rcases hin.2.lt_or_eq with hlt | heq
    · exact hin.1.trans_lt (h.consistent.lt_upperEdge hlt)
    · rw [show pool.edgeTick .buy = TickIndex.MAX from h.consistent.upperEdge_max heq]
      decide
  rcases pool.nextStep_buy limit amount with ⟨hfinal, hcrossing⟩
  rw [h.consistent.nextStep_positionsLiquidity hstep]
  rcases nextStep_ok hin hstep with ⟨-, ⟨haction, hstop⟩ | ⟨haction, tick, htick, hcross⟩⟩
  · -- the price stays below the edge
    have hmax : pool.alphaSqrtPrice.bits ≤ TickIndex.priceBits TickIndex.MAX :=
      hlimit.2.trans_eq asSqrtPriceBounded_MAX_bits
    have htarget := le_targetPrice_buy hmax amount
    have hedge := h.consistent.le_edgePrice_buy hmax
    have hle := hlimit.1
    have hnot : ¬(pool.nextStep .buy limit amount).action = .crossing := by
      rw [haction]
      exact SwapStepAction.noConfusion
    rw [hcrossing] at hnot
    have hbelow : (pool.nextStep .buy limit amount).finalPrice.bits <
        TickIndex.priceBits (pool.edgeTick .buy) := by
      rw [← edgePrice_bits]
      omega
    have htick' := (SwapStep.processSwap_price hstep).2
    have hup : pool.currentTick ≤ pool'.currentTick := by
      rw [htick', h.consistent.tick]
      exact TickIndex.fromSqrtPriceBounded_mono (by omega)
    have hlt : pool'.currentTick < pool.edgeTick .buy := by
      rw [htick', ← not_le, (TickIndex.le_fromSqrtPriceBounded _).2 _ hmin hb.2, not_le]
      exact hbelow
    rw [h.accounting.positionsLiquidity_eq h.ordered hup fun s hs hst => hgap s hs (by omega),
      ← hcurrent, hstop, stopped_currentLiquidity]
  · have hreach := hcrossing.mp haction
    have hedge := nextStep_currentTick_of_edge hstep (by omega)
    have hnet := h.upperEdge_net
    rw [tickNet_of_eq_some htick, ← hcurrent] at hnet
    rw [hedge.1, hcross, crossed_currentLiquidity, nextStep_orderType,
      crossLiquidity_buy hnet.1 hnet.2.1, hnet.2.2]

/-- A sale is about to trade below a tick, with the liquidity of that tick. -/
structure SellsAt (pool : Pool A) (limit : SqrtPrice) (t : ℤ) : Prop where
  start : pool.SellsFrom t
  current : pool.currentLiquidity.val = pool.positionsLiquidity t
  ahead : pool.LimitAhead .sell limit
  below : pool.OnTick → limit.bits < pool.alphaSqrtPrice.bits

/-- What a sale crosses leaves the liquidity of the ranges that hold the tick
below the edge. -/
theorem Sound.lowerEdge_net (h : pool.Sound) {t : ℤ} (ht : pool.SellsFrom t) :
    (pool.tickNet (pool.edgeTick .sell)).natAbs < 2 ^ 64 ∧
      (pool.positionsLiquidity t - pool.tickNet (pool.edgeTick .sell) : ℤ) < 2 ^ 64 ∧
      (pool.positionsLiquidity t - pool.tickNet (pool.edgeTick .sell) : ℤ).toNat =
        pool.positionsLiquidity (pool.edgeTick .sell - 1) := by
  have hfits := h.fits (pool.edgeTick .sell)
  have hfits' := h.fits (pool.edgeTick .sell - 1)
  have hnext := h.accounting.positionsLiquidity_next h.ordered (sub_one_lt (pool.edgeTick .sell))
    fun s hs hst => by omega
  rcases h.consistent.lowerEdge_le_of_sellsFrom ht with hle | ⟨rfl, hmin⟩
  · have hsame := h.accounting.positionsLiquidity_eq h.ordered hle
      fun s => h.consistent.lowerEdge_gap ht
    omega
  · have hnone := positionsLiquidity_low h.ordered (sub_one_lt TickIndex.MIN)
    rw [hmin] at hnext hfits hfits' ⊢
    omega

/-- A step of a sale that stops ends with the liquidity of its tick. -/
theorem Sound.nextStep_sell_stop (h : pool.Sound) {t : ℤ} (hs : pool.SellsAt limit t)
    (hr : pool.feeRate.val < 65535) (ha : amount ≠ 0)
    (hstep : (pool.nextStep .sell limit amount).processSwap cfg pool = .ok (pool', r))
    (haction : (pool.nextStep .sell limit amount).action = .stop) :
    pool'.currentLiquidity.val = pool'.positionsLiquidity pool'.currentTick := by
  have hin := h.consistent.inBounds
  have hb : InBounds (pool.edgeTick .sell) := pool.tickEdge_inBounds pool.currentTick .sell
  have hedge : (pool.edgePrice .sell).bits = TickIndex.priceBits (pool.edgeTick .sell) :=
    edgePrice_bits pool .sell
  rcases pool.nextStep_sell limit amount with ⟨hfinal, hcrossing⟩
  have hmin : TickIndex.priceBits TickIndex.MIN ≤ pool.alphaSqrtPrice.bits :=
    asSqrtPriceBounded_MIN_bits.symm.trans_le hs.ahead.2
  have htarget := targetPrice_sell_lt (one_lt_priceBits_MIN.trans_le hmin)
    (possibleDeltaIn_pos_of_lt hr ha)
  have hnot : ¬(pool.nextStep .sell limit amount).action = .crossing := by
    rw [haction]
    exact SwapStepAction.noConfusion
  have hprice := (SwapStep.processSwap_price hstep).2
  have hin' := (TickIndex.le_fromSqrtPriceBounded
    (pool.nextStep .sell limit amount).finalPrice).1
  have hgalois := (TickIndex.le_fromSqrtPriceBounded
    (pool.nextStep .sell limit amount).finalPrice).2
  rw [← hprice] at hin' hgalois
  have hlow : pool.edgeTick .sell ≤ pool'.currentTick := by
    rcases hb.1.lt_or_eq with hlt | heq
    · rw [hgalois _ hlt hb.2]
      omega
    · exact heq.symm.trans_le hin'.1
  have hhigh : pool'.currentTick ≤ t := by
    rcases hs.start with ⟨-, rfl⟩ | ⟨hon, rfl⟩
    · have hle := h.consistent.edgePrice_sell_le hmin
      have hlimit := hs.ahead.1
      rw [hprice, h.consistent.tick]
      exact TickIndex.fromSqrtPriceBounded_mono (by omega)
    · have hlimit := hs.below hon
      rcases h.consistent.lowerEdge_le_of_sellsFrom hs.start with hle | ⟨heq, heq'⟩
      · have hlt : TickIndex.MIN < pool.currentTick := by
          have := hb.1
          omega
        have hprev := TickIndex.priceBits_strictMono hb.1
          (show pool.edgeTick .sell < pool.currentTick by omega) hin.2
        have hprice' := h.consistent.priceBits_le hlt
        have hon' := hon.2
        have hbelow : ¬pool.currentTick ≤ pool'.currentTick := by
          rw [hgalois _ hlt hin.2]
          omega
        omega
      · -- at the lowest tick the price cannot stop before the edge
        have hon' := hon.2
        rw [show pool.currentTick = TickIndex.MIN by omega, ← heq', ← hedge] at hon'
        exact absurd (hcrossing.mpr ⟨by omega, by omega⟩) hnot
  rw [h.consistent.nextStep_positionsLiquidity hstep]
  rcases nextStep_ok hin hstep with ⟨-, ⟨-, hstop⟩ | ⟨hcross, -⟩⟩
  · rw [hstop, stopped_currentLiquidity, hs.current, ← hstop]
    exact h.accounting.positionsLiquidity_eq h.ordered hhigh fun s hs' hle =>
      h.consistent.lowerEdge_gap hs.start (hlow.trans_lt hs') hle
  · exact absurd hcross hnot

/-- A step of a sale that crosses leaves the price on the edge, with the
liquidity below it. -/
theorem Sound.nextStep_sell_crossing (h : pool.Sound) {t : ℤ} (hs : pool.SellsAt limit t)
    (hstep : (pool.nextStep .sell limit amount).processSwap cfg pool = .ok (pool', r))
    (haction : (pool.nextStep .sell limit amount).action = .crossing) :
    pool'.OnTick ∧ pool'.SellsAt limit (pool'.currentTick - 1) := by
  have hin := h.consistent.inBounds
  rcases pool.nextStep_sell limit amount with ⟨hfinal, hcrossing⟩
  have hreach := hcrossing.mp haction
  have hedge := nextStep_currentTick_of_edge hstep (by omega)
  rcases nextStep_ok hin hstep with ⟨-, ⟨hstop, -⟩ | ⟨-, tick, htick, hcross⟩⟩
  · rw [hstop] at haction
    cases haction
  · have hactive : pool'.currentTick ∈ pool'.activeTicks := by
      show (pool'.ticks pool'.currentTick).isSome
      rw [(h.consistent.nextStep_sameLiquidity hstep).exists_iff, hedge.1, htick]
      rfl
    have hon : pool'.OnTick := ⟨hactive, by rw [hedge.1, hedge.2]⟩
    have hnet := h.lowerEdge_net hs.start
    rw [tickNet_of_eq_some htick, ← hs.current] at hnet
    refine ⟨hon, Or.inr ⟨hon, rfl⟩, ?_, nextStep_limitAhead hstep, ?_⟩
    · rw [h.consistent.nextStep_positionsLiquidity hstep, hedge.1, hcross,
        crossed_currentLiquidity, nextStep_orderType, crossLiquidity_sell hnet.1 hnet.2.1, hnet.2.2]
    · intro _
      rw [hedge.2, ← edgePrice_bits]
      exact hreach.2

/-! ## Swaps -/

/-- The current liquidity is that of the current tick, or the price is on an
active tick, with the liquidity below it. -/
def Lands (pool : Pool A) : Prop :=
  pool.currentLiquidity.val = pool.positionsLiquidity pool.currentTick ∨
    (pool.OnTick ∧ pool.currentLiquidity.val = pool.positionsLiquidity (pool.currentTick - 1))

omit [DecidableEq A] in
theorem SellsAt.lands {t : ℤ} (h : pool.SellsAt limit t) : pool.Lands := by
  rcases h.start with ⟨-, rfl⟩ | ⟨hon, rfl⟩
  · exact Or.inl h.current
  · exact Or.inr ⟨hon, h.current⟩

omit [DecidableEq A] in
theorem processSwap_feeRate {step : SwapStep} (h : step.processSwap cfg pool = .ok (pool', r)) :
    pool'.feeRate = pool.feeRate := by
  rcases SwapStep.processSwap_frame h with ⟨_, _, _, _, rfl⟩
  rfl

/-- The loop of a sale crosses ticks until a step stops or nothing is left. -/
theorem Sound.swapLoop_sell : ∀ (n : ℕ) (pool : Pool A) (t : ℤ) (acc : SwapAcc)
    (res : Pool A × SwapAcc), pool.Sound → pool.SellsAt limit t → pool.feeRate.val < 65535 →
    swapLoop cfg .sell limit n pool acc = .ok res → res.1.Lands := by
  intro n
  induction n with
  | zero =>
      intro pool t acc res h hs hr hloop
      rcases swapLoop_ok hloop with ⟨-, rfl⟩ | ⟨-, m, -, -, hm, -⟩
      · exact hs.lands
      · omega
  | succ n ih =>
      intro pool t acc res h hs hr hloop
      rcases swapLoop_ok hloop with ⟨-, rfl⟩ | ⟨h0, m, pool₁, r, hm, hstep, hrest⟩
      · exact hs.lands
      rcases Nat.succ.inj hm
      cases haction : (pool.nextStep .sell limit acc.amountRemaining).action with
      | stop =>
          have hdone : (acc.advance (pool.nextStep .sell limit acc.amountRemaining)
              r).amountRemaining = 0 := if_pos (Or.inl haction)
          rw [swapLoop_done hrest hdone]
          exact Or.inl (h.nextStep_sell_stop hs hr h0 hstep haction)
      | crossing =>
          refine ih pool₁ _ _ res (h.nextStep hstep)
            (h.nextStep_sell_crossing hs hstep haction).2 ?_ hrest
          rw [processSwap_feeRate hstep]
          exact hr

theorem Sound.doSwap_lands (h : pool.Sound) (cfg : Config A) (env : Env A) (amount : U64)
    (simulate : Bool)
    (hcurrent : pool.currentLiquidity.val = pool.positionsLiquidity pool.currentTick)
    (hr : pool.feeRate.val < 65535) (hlimit : pool.LimitAhead orderType limit)
    (hoff : orderType = .sell → ¬pool.OnTick) :
    (pool.doSwap cfg env orderType amount limit simulate).1.Lands ∧
      (orderType = .buy →
        (pool.doSwap cfg env orderType amount limit simulate).1.currentLiquidity.val =
          (pool.doSwap cfg env orderType amount limit simulate).1.positionsLiquidity
            (pool.doSwap cfg env orderType amount limit simulate).1.currentTick) := by
  rcases doSwap_pool cfg env pool orderType amount limit simulate with heq | ⟨result, hswap⟩
  · rw [heq]
    exact ⟨Or.inl hcurrent, fun _ => hcurrent⟩
  · rcases swapInner_ok hswap with ⟨-, pool₀, acc, hinit, hloop, -⟩
    rw [maybeInitializeV3_initialized h.consistent.initialized] at hinit
    cases hinit
    cases orderType with
    | buy =>
        let I : Pool A → Prop := fun q => q.Sound ∧ q.LimitAhead .buy limit ∧
          q.currentLiquidity.val = q.positionsLiquidity q.currentTick
        have hstep : ∀ (p p' : Pool A) (a : U64) (r : SwapStepResult), a ≠ 0 → I p →
            (Pool.nextStep p .buy limit a).processSwap cfg p = .ok (p', r) → I p' := by
          rintro p p' a r - ⟨hp, hahead, hcur⟩ hstep
          exact ⟨hp.nextStep hstep, nextStep_limitAhead hstep, hp.nextStep_buy hcur hahead hstep⟩
        have hfinal := (swapLoop_invariant hstep _ _ _ _ ⟨h, hlimit, hcurrent⟩ hloop).2.2
        exact ⟨Or.inl hfinal, fun _ => hfinal⟩
    | sell =>
        have hnot := hoff rfl
        refine ⟨Sound.swapLoop_sell _ _ pool.currentTick _ _ h ⟨Or.inl ⟨hnot, rfl⟩, hcurrent,
          hlimit, fun hon => absurd hon hnot⟩ hr hloop, ?_⟩
        rintro ⟨⟩

end Steps

end Pool

end Subtensor.Swap
