import Subtensor.Swap.Consistent

/-!
# Where a swap moves the price

A step that ends on an edge sets the current tick to that edge: the price of a
tick, rounded up twice, still lies in the interval of that tick and no other.
-/

namespace Subtensor.Swap

open Subtensor.Lib

variable {A : Type}

/-! ## Ticks and their prices -/

namespace TickIndex

theorem isTickOf_priceBits {t : ℤ} (h : InBounds t) : IsTickOf (priceBits t * 2 ^ 32) t := by
  rcases inBounds_iff.mp h with ⟨h₁, h₂⟩
  refine isTickOf_iff.mpr ⟨by omega, by omega, (priceBits_le_iff _ _).mp le_rfl, ?_⟩
  rcases h₂.lt_or_eq with hlt | rfl
  · -- rounding up adds less than the gap to the next tick
    have hgap := sqrtRatio_gap (t := t) (by rwa [MIN_eq]) (by rwa [MAX_eq])
    unfold priceBits
    omega
  · exact sqrtRatio_tickEnds.2.2.2

/-- Every tick has a price, and that price has no other tick. -/
theorem tryFromSqrtPrice_tryToSqrtPrice {t : ℤ} (h : InBounds t) :
    ∃ p, tryToSqrtPrice t = .ok p ∧ tryFromSqrtPrice p = .ok t := by
  rcases tryToSqrtPrice_ok h.1 h.2 with ⟨p, hp, hbits⟩
  refine ⟨p, hp, ?_⟩
  have hx : u64f64ToU256Q6496 p = priceBits t * 2 ^ 32 := by
    rw [u64f64ToU256Q6496_eq, hbits]
  have htick := isTickOf_priceBits h
  rw [← hx] at htick
  rcases isTickOf_iff.mp htick with ⟨-, -, hlo, hhi⟩
  rcases inBounds_iff.mp h with ⟨h₁, h₂⟩
  have hmin : sqrtRatio MIN ≤ u64f64ToU256Q6496 p := by
    rw [MIN_eq]
    exact ((sqrtRatio_le_iff (by norm_num) (by omega)).mpr h₁).trans hlo
  have hmax : u64f64ToU256Q6496 p < sqrtRatio (MAX + 1) := by
    rw [MAX_eq]
    exact hhi.trans_le ((sqrtRatio_le_iff (by omega) (by norm_num)).mpr (by omega))
  rcases tryFromSqrtPrice_isTickOf hmin hmax with ⟨s, hs, hstick⟩
  rw [hs, hstick.unique htick]

end TickIndex

/-! ## Edges -/

namespace ActiveTickIndexManager

/-- The search answers through the checked constructor of tick indexes. -/
theorem findClosest_inBounds {words : BitmapWords} {index t : ℤ} {lower : Bool}
    (h : findClosest words index lower = some t) : InBounds t := by
  unfold findClosest at h
  split at h
  · cases h
  · dsimp only at h
    split at h
    · cases h
    · rename_i found hfound
      unfold fromOffsetIndex at h
      rw [TickIndex.new_eq] at h
      split at h
      · rename_i hb
        cases h
        exact hb
      · cases h

end ActiveTickIndexManager

namespace Pool

variable (pool : Pool A)

theorem upperEdge_inBounds (t : ℤ) : InBounds (pool.upperEdge t) := by
  unfold upperEdge
  cases h : ActiveTickIndexManager.findClosestHigher pool.tickIndexBitmapWords
      ((TickIndex.next t).toOption.getD TickIndex.MAX) with
  | none => exact ⟨by decide, le_rfl⟩
  | some s => exact ActiveTickIndexManager.findClosest_inBounds h

theorem getD_findClosestLower_inBounds (t : ℤ) :
    InBounds ((ActiveTickIndexManager.findClosestLower pool.tickIndexBitmapWords t).getD
      TickIndex.MIN) := by
  cases h : ActiveTickIndexManager.findClosestLower pool.tickIndexBitmapWords t with
  | none => exact ⟨le_rfl, by decide⟩
  | some s => exact ActiveTickIndexManager.findClosest_inBounds h

theorem lowerEdge_inBounds (t : ℤ) : InBounds (pool.lowerEdge t) := by
  unfold lowerEdge
  dsimp only
  split
  · exact pool.getD_findClosestLower_inBounds _
  · exact pool.getD_findClosestLower_inBounds _

theorem tickEdge_inBounds (t : ℤ) (orderType : OrderType) :
    InBounds (pool.tickEdge t orderType) := by
  cases orderType with
  | buy => exact pool.upperEdge_inBounds t
  | sell => exact pool.lowerEdge_inBounds t

end Pool

namespace SwapStep

theorem determineAction_edgeSqrtPrice (pool : Pool A) (step : SwapStep) :
    (step.determineAction pool).edgeSqrtPrice = step.edgeSqrtPrice := by
  unfold determineAction stopAtClosest
  dsimp only
  split_ifs <;> rfl

/-- Whether it stops or crosses, a step leaves its final price and the tick of it. -/
theorem processSwap_price {cfg : Config A} {pool pool' : Pool A} {step : SwapStep}
    {r : SwapStepResult} (h : step.processSwap cfg pool = .ok (pool', r)) :
    pool'.alphaSqrtPrice = step.finalPrice ∧
      pool'.currentTick = TickIndex.fromSqrtPriceBounded step.finalPrice := by
  rcases processSwap_frame h with ⟨_, _, _, _, rfl⟩
  exact ⟨rfl, rfl⟩

end SwapStep

theorem Pool.nextStep_edgeSqrtPrice (pool : Pool A) (orderType : OrderType) (limit : SqrtPrice)
    (amount : U64) :
    (pool.nextStep orderType limit amount).edgeSqrtPrice = pool.edgePrice orderType := by
  unfold nextStep
  rw [SwapStep.determineAction_edgeSqrtPrice]
  rfl

/-- **Ticks and prices round trip.** Every tick index has a price and gets it
back from that price, so that a step that ends on the price of its edge leaves
the edge as the current tick. -/
theorem sqrtPrice_roundTrip :
    (∀ t, InBounds t →
      ∃ p, TickIndex.tryToSqrtPrice t = .ok p ∧ TickIndex.tryFromSqrtPrice p = .ok t) ∧
    ∀ (cfg : Config A) (pool pool' : Pool A) (orderType : OrderType) (limit : SqrtPrice)
      (amount : U64) (r : SwapStepResult),
      (pool.nextStep orderType limit amount).processSwap cfg pool = .ok (pool', r) →
      (pool.nextStep orderType limit amount).finalPrice =
        (pool.nextStep orderType limit amount).edgeSqrtPrice →
      pool'.currentTick = (pool.nextStep orderType limit amount).edgeTick := by
  refine ⟨fun t h => TickIndex.tryFromSqrtPrice_tryToSqrtPrice h, ?_⟩
  intro cfg pool pool' orderType limit amount r hstep hfinal
  have hb := pool.tickEdge_inBounds pool.currentTick orderType
  rw [(SwapStep.processSwap_price hstep).2, hfinal, Pool.nextStep_edgeSqrtPrice,
    Pool.nextStep_edgeTick]
  exact TickIndex.fromSqrtPriceBounded_asSqrtPriceBounded hb.1 hb.2

/-- The tick of the price of one, and a purchase up to the greatest tick. -/
theorem sqrtPrice_roundTrip_mockPool :
    (∃ p, TickIndex.tryToSqrtPrice 0 = .ok p ∧ TickIndex.tryFromSqrtPrice p = .ok 0) ∧
    ∃ pool' r, (mockPool.nextStep .buy TickIndex.maxSqrtPrice .maxVal).processSwap mockConfig
      mockPool = .ok (pool', r) ∧ pool'.currentTick = TickIndex.MAX := by
  have hok : ((mockPool.nextStep .buy TickIndex.maxSqrtPrice .maxVal).processSwap mockConfig
      mockPool).toOption.map (fun res => res.1.currentTick) = some TickIndex.MAX := by
    decide +kernel
  rcases exists_ok_of_toOption_map hok with ⟨⟨pool', r⟩, hstep, -⟩
  have htick := sqrtPrice_roundTrip.2 mockConfig mockPool pool' .buy TickIndex.maxSqrtPrice
    .maxVal r hstep (by decide +kernel)
  refine ⟨(sqrtPrice_roundTrip (A := ℕ)).1 0 (by decide), pool', r, hstep, htick.trans ?_⟩
  decide +kernel

end Subtensor.Swap
