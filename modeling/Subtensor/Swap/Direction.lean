import Subtensor.Swap.Offer

/-!
# The direction of a swap

No check keeps the limit of an order ahead of the price: a step goes to the
nearest of target, limit and edge, and a limit behind the price is nearest. The
price is also written when the way to it cost less than one unit.
-/

namespace Subtensor.Swap

open Subtensor.Lib ActiveTickIndexManager

variable {A : Type}

/-! ## Prices ahead of the current one -/

namespace TickIndex

theorem new_ok {t : ℤ} (h : InBounds t) : new t = .ok t := by
  rw [new_eq]
  exact if_pos h

theorem new_error {t : ℤ} (h : ¬InBounds t) : new t = .error .tickOutOfBounds := by
  rw [new_eq]
  exact if_neg h

end TickIndex

namespace Pool

variable {pool : Pool A} {limit : SqrtPrice} {amount : U64}

theorem minPrice_eq : minPrice = 0 := by decide +kernel

theorem priceBits_MAX_le_maxPrice :
    TickIndex.priceBits TickIndex.MAX ≤ (UFixed.ofNat maxPrice.val : U64F64).bits := by
  decide +kernel

theorem le_targetPrice_buy (h : pool.alphaSqrtPrice.bits ≤ TickIndex.priceBits TickIndex.MAX)
    (amount : U64) : pool.alphaSqrtPrice.bits ≤ (pool.targetPrice .buy amount).bits := by
  unfold targetPrice
  by_cases hl : pool.currentLiquidity.val = 0
  · rw [sqrtPriceTarget_dry hl]
    exact h.trans priceBits_MAX_le_maxPrice
  · have hlt : pool.alphaSqrtPrice.bits < 2 ^ 128 := pool.alphaSqrtPrice.isLt
    rw [sqrtPriceTarget_buy hl]
    exact le_min (Nat.le_add_left _ _) (Nat.le_sub_one_of_lt hlt)

/-- The input moves the inverse of the price by one unit at least. -/
theorem targetPrice_sell_lt (hp : 1 < pool.alphaSqrtPrice.bits)
    (hd : 0 < (pool.possibleDeltaIn amount).val) :
    (pool.targetPrice .sell amount).bits < pool.alphaSqrtPrice.bits := by
  unfold targetPrice
  by_cases hl : pool.currentLiquidity.val = 0
  · rw [sqrtPriceTarget_dry hl, minPrice_eq]
    exact Nat.zero_lt_of_lt hp
  · rw [sqrtPriceTarget_sell hl]
    split
    · exact Nat.zero_lt_of_lt hp
    · rename_i hinverse
      refine (Nat.div_lt_iff_lt_mul (by omega)).mpr ?_
      rw [mul_comm]
      have hlt := pool.currentLiquidity.isLt
      have hmove : 1 ≤ (pool.possibleDeltaIn amount).val * 2 ^ 64 / pool.currentLiquidity.val := by
        rw [Nat.le_div_iff_mul_le (by omega)]
        omega
      have hquot : 2 ^ 128 <
          (2 ^ 128 / pool.alphaSqrtPrice.bits + 1) * pool.alphaSqrtPrice.bits := by
        rw [mul_comm]
        exact Nat.lt_mul_div_succ _ (by omega)
      have hcap : 2 ^ 128 < (2 ^ 128 - 1) * pool.alphaSqrtPrice.bits := by
        have := Nat.mul_le_mul_left (2 ^ 128 - 1) hp
        omega
      show 2 ^ 128 < targetInverse pool.currentLiquidity pool.alphaSqrtPrice
        (pool.possibleDeltaIn amount) * pool.alphaSqrtPrice.bits
      unfold targetInverse
      rw [inverseBits_of_lt hp]
      generalize (pool.possibleDeltaIn amount).val * 2 ^ 64 / pool.currentLiquidity.val = g
        at hmove ⊢
      rcases le_total (g + 2 ^ 128 / pool.alphaSqrtPrice.bits) (2 ^ 128 - 1) with h | h
      · rw [min_eq_left h]
        exact hquot.trans_le (Nat.mul_le_mul_right _ (by omega))
      · rw [min_eq_right h]
        exact hcap

/-! ## Edges of a consistent pool -/

theorem Consistent.lt_upperEdge (h : pool.Consistent) (hlt : pool.currentTick < TickIndex.MAX) :
    pool.currentTick < pool.upperEdge pool.currentTick := by
  have hb : InBounds (pool.currentTick + 1) := ⟨by have := h.inBounds.1; omega, hlt⟩
  unfold upperEdge TickIndex.next
  rw [TickIndex.new_ok hb]
  show pool.currentTick <
    (findClosestHigher pool.tickIndexBitmapWords (pool.currentTick + 1)).getD TickIndex.MAX
  cases hfind : findClosestHigher pool.tickIndexBitmapWords (pool.currentTick + 1) with
  | none => exact hlt
  | some s =>
      have hleast := (h.indexed.findClosestHigher_iff hb s).mp hfind
      exact hleast.1.2

theorem Consistent.upperEdge_max (h : pool.Consistent) (heq : pool.currentTick = TickIndex.MAX) :
    pool.upperEdge pool.currentTick = TickIndex.MAX := by
  have hmax : InBounds TickIndex.MAX := ⟨by decide, le_rfl⟩
  have hnot : ¬InBounds (pool.currentTick + 1) := by
    rintro ⟨-, hle⟩
    omega
  unfold upperEdge TickIndex.next
  rw [TickIndex.new_error hnot]
  show (findClosestHigher pool.tickIndexBitmapWords TickIndex.MAX).getD TickIndex.MAX =
    TickIndex.MAX
  cases hfind : findClosestHigher pool.tickIndexBitmapWords TickIndex.MAX with
  | none => rfl
  | some s =>
      have hleast := (h.indexed.findClosestHigher_iff hmax s).mp hfind
      exact le_antisymm (findClosest_inBounds hfind).2 hleast.1.2

/-- The edge of a purchase is not behind the price. -/
theorem Consistent.le_edgePrice_buy (h : pool.Consistent)
    (hp : pool.alphaSqrtPrice.bits ≤ TickIndex.priceBits TickIndex.MAX) :
    pool.alphaSqrtPrice.bits ≤ (pool.edgePrice .buy).bits := by
  have hb := pool.upperEdge_inBounds pool.currentTick
  have hbits : (pool.edgePrice .buy).bits =
      TickIndex.priceBits (pool.upperEdge pool.currentTick) :=
    TickIndex.asSqrtPriceBounded_bits hb.1 hb.2
  rw [hbits]
  rcases h.inBounds.2.lt_or_eq with hlt | heq
  · have hedge := h.lt_upperEdge hlt
    have hgalois := (TickIndex.le_fromSqrtPriceBounded pool.alphaSqrtPrice).2 _
      (h.inBounds.1.trans_lt hedge) hb.2
    rw [← h.tick] at hgalois
    exact (not_le.mp (hgalois.not.mp (not_le.mpr hedge))).le
  · rw [h.upperEdge_max heq]
    exact hp

theorem Consistent.lowerEdge_le (h : pool.Consistent) :
    pool.lowerEdge pool.currentTick ≤ pool.currentTick := by
  have hfound : ∀ q, InBounds q →
      (findClosestLower pool.tickIndexBitmapWords q).getD TickIndex.MIN ≤ q := by
    intro q hq
    cases hfind : findClosestLower pool.tickIndexBitmapWords q with
    | none => exact hq.1
    | some s => exact ((h.indexed.findClosestLower_iff hq s).mp hfind).1.2
  have hprev : InBounds ((TickIndex.prev pool.currentTick).toOption.getD TickIndex.MIN) ∧
      (TickIndex.prev pool.currentTick).toOption.getD TickIndex.MIN ≤ pool.currentTick := by
    unfold TickIndex.prev
    by_cases hb : InBounds (pool.currentTick - 1)
    · rw [TickIndex.new_ok hb]
      exact ⟨hb, by show pool.currentTick - 1 ≤ _; omega⟩
    · rw [TickIndex.new_error hb]
      exact ⟨⟨le_rfl, by decide⟩, h.inBounds.1⟩
  unfold lowerEdge
  dsimp only
  split
  · exact hfound _ h.inBounds
  · exact (hfound _ hprev.1).trans hprev.2

theorem Consistent.edgePrice_sell_le (h : pool.Consistent)
    (hp : TickIndex.priceBits TickIndex.MIN ≤ pool.alphaSqrtPrice.bits) :
    (pool.edgePrice .sell).bits ≤ pool.alphaSqrtPrice.bits := by
  have hb := pool.lowerEdge_inBounds pool.currentTick
  have hbits : (pool.edgePrice .sell).bits =
      TickIndex.priceBits (pool.lowerEdge pool.currentTick) :=
    TickIndex.asSqrtPriceBounded_bits hb.1 hb.2
  have hmono := TickIndex.priceBits_mono hb.1 h.lowerEdge_le h.inBounds.2
  rw [hbits]
  rcases h.inBounds.1.lt_or_eq with hlt | heq
  · have hgalois := (TickIndex.le_fromSqrtPriceBounded pool.alphaSqrtPrice).2 _ hlt h.inBounds.2
    rw [← h.tick] at hgalois
    exact hmono.trans (hgalois.mp le_rfl)
  · rw [← heq] at hmono ⊢
    exact hmono.trans hp

/-! ## Every step -/

/-- Limit and price are in order, and the price is not beyond the ticks. -/
def LimitAhead (pool : Pool A) (orderType : OrderType) (limit : SqrtPrice) : Prop :=
  match orderType with
  | .buy => pool.alphaSqrtPrice.bits ≤ limit.bits ∧
      pool.alphaSqrtPrice.bits ≤ (TickIndex.asSqrtPriceBounded TickIndex.MAX).bits
  | .sell => limit.bits ≤ pool.alphaSqrtPrice.bits ∧
      (TickIndex.asSqrtPriceBounded TickIndex.MIN).bits ≤ pool.alphaSqrtPrice.bits

/-- The price has moved in the direction of the order, and not past its limit
if that is ahead. -/
def MovesForward (orderType : OrderType) (limit price price' : SqrtPrice) : Prop :=
  match orderType with
  | .buy => price.bits ≤ price'.bits ∧ price'.bits ≤ max price.bits limit.bits
  | .sell => min price.bits limit.bits ≤ price'.bits ∧ price'.bits ≤ price.bits

variable {orderType : OrderType} {cfg : Config A} {pool' : Pool A} {r : SwapStepResult}

theorem asSqrtPriceBounded_MAX_bits :
    (TickIndex.asSqrtPriceBounded TickIndex.MAX).bits = TickIndex.priceBits TickIndex.MAX :=
  TickIndex.asSqrtPriceBounded_bits (by decide) le_rfl

theorem asSqrtPriceBounded_MIN_bits :
    (TickIndex.asSqrtPriceBounded TickIndex.MIN).bits = TickIndex.priceBits TickIndex.MIN :=
  TickIndex.asSqrtPriceBounded_bits le_rfl (by decide)

theorem one_lt_priceBits_MIN : 1 < TickIndex.priceBits TickIndex.MIN := by
  have hmin := TickIndex.sqrtRatio_tickEnds.1
  unfold TickIndex.priceBits
  rw [TickIndex.MIN_eq]
  omega

theorem possibleDeltaIn_pos_of_lt (hr : pool.feeRate.val < 65535) (ha : amount ≠ 0) :
    0 < (pool.possibleDeltaIn amount).val := by
  have hpos := Nat.pos_of_ne_zero (Word.val_eq_zero_iff.not.mpr ha)
  have hrate : pool.feeRate.val * 2 ^ 64 / 65535 < 2 ^ 64 := by omega
  have hmul := Nat.mul_lt_mul_of_pos_left hrate hpos
  have hfee : (pool.calculateFeeAmount amount).val < amount.val := by
    rw [calculateFeeAmount_val]
    exact Nat.div_lt_of_lt_mul (hmul.trans_eq (mul_comm _ _))
  unfold possibleDeltaIn
  rw [Word.val_satSub]
  omega

/-- Every step ends with limit and price in order: a limit that is behind takes
the price with it. -/
theorem nextStep_limitAhead
    (hstep : (pool.nextStep orderType limit amount).processSwap cfg pool = .ok (pool', r)) :
    pool'.LimitAhead orderType limit := by
  unfold LimitAhead
  rw [(SwapStep.processSwap_price hstep).1]
  have hb := pool.tickEdge_inBounds pool.currentTick orderType
  have hbits : (pool.edgePrice orderType).bits = TickIndex.priceBits (pool.edgeTick orderType) :=
    TickIndex.asSqrtPriceBounded_bits hb.1 hb.2
  cases orderType with
  | buy =>
      rw [asSqrtPriceBounded_MAX_bits]
      have hmono : TickIndex.priceBits (pool.edgeTick .buy) ≤ TickIndex.priceBits TickIndex.MAX :=
        TickIndex.priceBits_mono hb.1 hb.2 le_rfl
      have hfinal := (pool.nextStep_buy limit amount).1
      dsimp only
      omega
  | sell =>
      rw [asSqrtPriceBounded_MIN_bits]
      have hmono : TickIndex.priceBits TickIndex.MIN ≤ TickIndex.priceBits (pool.edgeTick .sell) :=
        TickIndex.priceBits_mono le_rfl hb.1 hb.2
      have hfinal := (pool.nextStep_sell limit amount).1
      dsimp only
      omega

/-- If limit and price are in order, a step ends between them. -/
theorem Consistent.nextStep_forward (h : pool.Consistent) (hr : pool.feeRate.val < 65535)
    (ha : amount ≠ 0) (hlimit : pool.LimitAhead orderType limit)
    (hstep : (pool.nextStep orderType limit amount).processSwap cfg pool = .ok (pool', r)) :
    MovesForward orderType limit pool.alphaSqrtPrice pool'.alphaSqrtPrice := by
  unfold MovesForward
  rw [(SwapStep.processSwap_price hstep).1]
  cases orderType with
  | buy =>
      rcases hlimit with ⟨hle, hmax⟩
      rw [asSqrtPriceBounded_MAX_bits] at hmax
      have htarget := le_targetPrice_buy hmax amount
      have hedge := h.le_edgePrice_buy hmax
      have hfinal := (pool.nextStep_buy limit amount).1
      dsimp only
      omega
  | sell =>
      rcases hlimit with ⟨hle, hmin⟩
      rw [asSqrtPriceBounded_MIN_bits] at hmin
      have htarget := targetPrice_sell_lt (one_lt_priceBits_MIN.trans_le hmin)
        (possibleDeltaIn_pos_of_lt hr ha)
      have hedge := h.edgePrice_sell_le hmin
      have hfinal := (pool.nextStep_sell limit amount).1
      dsimp only
      omega

theorem movesForward_refl (orderType : OrderType) (limit price : SqrtPrice) :
    MovesForward orderType limit price price := by
  cases orderType with
  | buy => exact ⟨le_rfl, le_max_left _ _⟩
  | sell => exact ⟨min_le_left _ _, le_rfl⟩

theorem MovesForward.trans {price₁ price₂ : SqrtPrice} (hlimit : pool.LimitAhead orderType limit)
    (h₁ : MovesForward orderType limit price₁ pool.alphaSqrtPrice)
    (h₂ : MovesForward orderType limit pool.alphaSqrtPrice price₂) :
    MovesForward orderType limit price₁ price₂ := by
  unfold MovesForward at h₁ h₂ ⊢
  cases orderType with
  | buy =>
      have hle := hlimit.1
      dsimp only at h₁ h₂ ⊢
      omega
  | sell =>
      have hle := hlimit.1
      dsimp only at h₁ h₂ ⊢
      omega

/-! ## The first step -/

/-- The nearer of the limit and the edge. -/
def firstStop (pool : Pool A) (orderType : OrderType) (limit : SqrtPrice) : SqrtPrice :=
  if priceIsCloser orderType limit (pool.edgePrice orderType) then limit
  else pool.edgePrice orderType

/-- The input to the first stop at the present liquidity. -/
def firstDeltaIn (pool : Pool A) (orderType : OrderType) (limit : SqrtPrice) : U64 :=
  deltaIn orderType (.ofNat pool.currentLiquidity.val) pool.alphaSqrtPrice
    (pool.firstStop orderType limit)

/-- The target is no further than the first stop, or the way to the first stop
takes an input, or there is no way to go. -/
def Exchanges (pool : Pool A) (orderType : OrderType) (limit : SqrtPrice) (amount : U64) : Prop :=
  priceIsCloser orderType (pool.targetPrice orderType amount) (pool.firstStop orderType limit) ∨
    pool.firstDeltaIn orderType limit ≠ 0 ∨
      pool.firstStop orderType limit = pool.alphaSqrtPrice

theorem nextStep_finalPrice (pool : Pool A) (orderType : OrderType) (limit : SqrtPrice)
    (amount : U64) :
    (pool.nextStep orderType limit amount).finalPrice =
      if priceIsCloser orderType (pool.targetPrice orderType amount)
        (pool.firstStop orderType limit) then pool.targetPrice orderType amount
      else pool.firstStop orderType limit := by
  unfold firstStop priceIsCloser
  cases orderType with
  | buy =>
      have hfinal := (pool.nextStep_buy limit amount).1
      simp only [decide_eq_true_eq]
      split_ifs <;> ext <;> omega
  | sell =>
      have hfinal := (pool.nextStep_sell limit amount).1
      simp only [decide_eq_true_eq]
      split_ifs <;> ext <;> omega

theorem priceIsCloser_refl (orderType : OrderType) (price : SqrtPrice) :
    priceIsCloser orderType price price = true := by
  cases orderType <;> simp [priceIsCloser]

theorem nextStep_deltaIn_of_closer (h : priceIsCloser orderType (pool.targetPrice orderType amount)
    (pool.firstStop orderType limit)) :
    (pool.nextStep orderType limit amount).deltaIn = pool.possibleDeltaIn amount := by
  have hfinal := pool.nextStep_finalPrice orderType limit amount
  rw [if_pos h] at hfinal
  rcases SwapStep.determineAction_amounts pool (SwapStep.new pool orderType amount limit) with
    ⟨-, hdelta, -⟩ | ⟨hcut, -, -⟩
  · exact hdelta
  · have hcut' : ¬priceIsCloser orderType (pool.targetPrice orderType amount)
        (pool.nextStep orderType limit amount).finalPrice := hcut
    rw [hfinal] at hcut'
    exact absurd (priceIsCloser_refl _ _) hcut'

theorem nextStep_amounts_of_not_closer (h : ¬priceIsCloser orderType
    (pool.targetPrice orderType amount) (pool.firstStop orderType limit)) :
    (pool.nextStep orderType limit amount).deltaIn = pool.firstDeltaIn orderType limit ∧
      (pool.nextStep orderType limit amount).fee =
        pool.recalculateFee (pool.firstDeltaIn orderType limit) := by
  have hfinal := pool.nextStep_finalPrice orderType limit amount
  rw [if_neg h] at hfinal
  rcases SwapStep.determineAction_amounts pool (SwapStep.new pool orderType amount limit) with
    ⟨htarget, -, -⟩ | ⟨-, hdelta, hfee⟩
  · have htarget' : (pool.nextStep orderType limit amount).finalPrice =
        pool.targetPrice orderType amount := htarget
    rw [← htarget', hfinal] at h
    exact absurd (priceIsCloser_refl _ _) h
  · have hdelta' : (pool.nextStep orderType limit amount).deltaIn =
        deltaIn orderType (.ofNat pool.currentLiquidity.val) pool.alphaSqrtPrice
          (pool.nextStep orderType limit amount).finalPrice := hdelta
    have hfee' : (pool.nextStep orderType limit amount).fee = pool.recalculateFee
        (deltaIn orderType (.ofNat pool.currentLiquidity.val) pool.alphaSqrtPrice
          (pool.nextStep orderType limit amount).finalPrice) := hfee
    rw [hdelta', hfee', hfinal]
    exact ⟨rfl, rfl⟩

/-! ## The whole swap -/

theorem iterates_inAcc_le {s s' : Pool A × SwapAcc} (h : Iterates cfg orderType limit s s') :
    s.2.inAcc.val ≤ s'.2.inAcc.val := by
  rcases h with ⟨-, r, -, hacc⟩
  have hlt := s.2.inAcc.isLt
  rw [hacc]
  show s.2.inAcc.val ≤ (s.2.inAcc.satAdd r.deltaIn).val
  rw [Word.val_satAdd]
  omega

theorem inAcc_le_of_loop {n : ℕ} {acc : SwapAcc} {res : Pool A × SwapAcc}
    (h : swapLoop cfg orderType limit n pool acc = .ok res) :
    acc.inAcc.val ≤ res.2.inAcc.val := by
  have hpath := swapLoop_iterates n pool acc res h
  clear h
  induction hpath with
  | refl => exact le_rfl
  | tail _ hstep ih => exact ih.trans (iterates_inAcc_le hstep)

theorem LimitAhead.of_loop {n : ℕ} {acc : SwapAcc} {res : Pool A × SwapAcc}
    (h : pool.LimitAhead orderType limit)
    (hloop : swapLoop cfg orderType limit n pool acc = .ok res) :
    res.1.LimitAhead orderType limit :=
  swapLoop_invariant (fun _ _ _ _ _ _ hstep => nextStep_limitAhead hstep) n pool acc res h hloop

theorem Consistent.loop_forward (h : pool.Consistent) (hr : pool.feeRate.val < 65535)
    (hlimit : pool.LimitAhead orderType limit) {n : ℕ} {acc : SwapAcc} {res : Pool A × SwapAcc}
    (hloop : Pool.swapLoop cfg orderType limit n pool acc = .ok res) :
    MovesForward orderType limit pool.alphaSqrtPrice res.1.alphaSqrtPrice := by
  let I : Pool A → Prop := fun q => q.Consistent ∧ q.feeRate.val < 65535 ∧
    q.LimitAhead orderType limit ∧
    MovesForward orderType limit pool.alphaSqrtPrice q.alphaSqrtPrice
  have hstep : ∀ (p p' : Pool A) (a : U64) (r : SwapStepResult), a ≠ 0 → I p →
      (Pool.nextStep p orderType limit a).processSwap cfg p = .ok (p', r) → I p' := by
    rintro p p' a r ha ⟨hp, hrate, hahead, hmoved⟩ hstep
    refine ⟨hp.nextStep hstep, ?_, nextStep_limitAhead hstep, ?_⟩
    · rw [SwapStep.processSwap_feeRate hstep]
      exact hrate
    · exact hmoved.trans hahead (hp.nextStep_forward hrate ha hahead hstep)
  exact (swapLoop_invariant hstep n pool acc res ⟨h, hr, hlimit, movesForward_refl _ _ _⟩
    hloop).2.2.2

theorem convertDeltas_zero (pool : Pool A) (orderType : OrderType) :
    pool.convertDeltas orderType 0 = 0 := by
  unfold convertDeltas
  exact if_pos rfl

theorem recalculateFee_zero (hr : pool.feeRate.val < 65535) : pool.recalculateFee 0 = 0 := by
  refine Word.val_eq_zero_iff.mp ?_
  rw [recalculateFee_val pool hr, Word.val_zero, Nat.zero_mul, Nat.zero_div, Nat.zero_min]

theorem processSwap_eq_result {step : SwapStep}
    (h : step.processSwap cfg pool = .ok (pool', r)) :
    r = step.resultOf ((pool.addFees cfg step.orderType step.fee).convertDeltas step.orderType
      step.deltaIn) := by
  unfold SwapStep.processSwap at h
  dsimp only at h
  split at h
  · cases h
  · cases h
    rfl

/-- A first step that takes nothing is the last one, and pays nothing. -/
theorem loop_of_deltaIn_zero {n : ℕ} {res : Pool A × SwapAcc}
    (hr : pool.feeRate.val < 65535)
    (hstep : (pool.nextStep orderType limit amount).processSwap cfg pool = .ok (pool', r))
    (hcut : ¬priceIsCloser orderType (pool.targetPrice orderType amount)
      (pool.firstStop orderType limit))
    (hzero : pool.firstDeltaIn orderType limit = 0)
    (hloop : swapLoop cfg orderType limit n pool'
      ((⟨amount, 0, 0, 0⟩ : SwapAcc).advance (pool.nextStep orderType limit amount) r) = .ok res) :
    res.1 = pool' ∧ res.2.inAcc = 0 ∧ res.2.amountPaidOut = 0 := by
  rcases nextStep_amounts_of_not_closer hcut with ⟨hdelta, hfee⟩
  have hresult := processSwap_eq_result hstep
  rw [hzero] at hdelta hfee
  rw [recalculateFee_zero hr] at hfee
  generalize pool.nextStep orderType limit amount = step at hstep hloop hdelta hfee hresult
  rw [hdelta, hfee, convertDeltas_zero] at hresult
  have hadvance : (⟨amount, 0, 0, 0⟩ : SwapAcc).advance step r = ⟨0, 0, 0, 0⟩ := by
    rw [hresult]
    unfold SwapAcc.advance SwapStep.resultOf
    rw [hdelta, hfee]
    have hnone : (0 : U64).satAdd 0 = 0 := by decide
    simp only [hnone, or_true, if_true]
  rw [hadvance] at hloop
  rcases swapLoop_ok hloop with ⟨-, rfl⟩ | ⟨h0, -⟩
  · exact ⟨rfl, rfl, rfl⟩
  · exact absurd rfl h0

/-- What a swap of an initialised pool ran, when it persists. -/
theorem Consistent.doSwap_ok [DecidableEq A] (h : pool.Consistent) {env : Env A}
    {result : SwapResult}
    (hswap : (pool.doSwap cfg env orderType amount limit false).2 = .ok result) :
    ∃ acc, Pool.swapLoop cfg orderType limit maxSwapIterations pool ⟨amount, 0, 0, 0⟩ =
        .ok ((pool.doSwap cfg env orderType amount limit false).1, acc) ∧
      result = swapResult orderType acc := by
  rcases doSwap_result hswap with ⟨pool', hinner⟩
  have hpool : (pool.doSwap cfg env orderType amount limit false).1 = pool' := by
    unfold Pool.doSwap
    rw [hinner]
    rfl
  rcases swapInner_ok hinner with ⟨-, pool₀, acc, hinit, hloop, hres⟩
  rw [maybeInitializeV3_initialized h.initialized] at hinit
  cases hinit
  rw [hpool]
  exact ⟨acc, hloop, hres⟩

/-- **When a swap moves the price forward only.** A swap moves the price in its
direction and not past the limit, and moves it only if it exchanges something,
exactly when it has no amount, or the limit is ahead of a price within the
ticks and the first stop is not reached for nothing. -/
theorem doSwap_forward_iff [DecidableEq A] (h : pool.Consistent) (env : Env A)
    (hmax : cfg.maxFeeRate.val < 65535) (hrate : pool.feeRate.val ≤ cfg.maxFeeRate.val)
    {result : SwapResult}
    (hswap : (pool.doSwap cfg env orderType amount limit false).2 = .ok result) :
    (MovesForward orderType limit pool.alphaSqrtPrice
        (pool.doSwap cfg env orderType amount limit false).1.alphaSqrtPrice ∧
      (result.amountPaidIn = 0 → result.amountPaidOut = 0 →
        (pool.doSwap cfg env orderType amount limit false).1.alphaSqrtPrice =
          pool.alphaSqrtPrice)) ↔
      amount = 0 ∨
        (pool.LimitAhead orderType limit ∧ pool.Exchanges orderType limit amount) := by
  have hr : pool.feeRate.val < 65535 := hrate.trans_lt hmax
  rcases h.doSwap_ok hswap with ⟨acc, hloop, rfl⟩
  generalize (pool.doSwap cfg env orderType amount limit false).1 = q at hloop ⊢
  rcases swapLoop_ok hloop with ⟨h0, heq⟩ | ⟨h0, m, pool₁, r, -, hstep, hrest⟩
  · cases heq
    refine iff_of_true ⟨movesForward_refl _ _ _, fun _ _ => rfl⟩ (Or.inl h0)
  · have ha : amount ≠ 0 := h0
    have hend : q.LimitAhead orderType limit := (nextStep_limitAhead hstep).of_loop hrest
    have hprice := (SwapStep.processSwap_price hstep).1
    rw [nextStep_finalPrice] at hprice
    constructor
    · rintro ⟨hmoves, hnothing⟩
      refine Or.inr ⟨?_, ?_⟩
      · unfold LimitAhead at hend ⊢
        unfold MovesForward at hmoves
        cases orderType with
        | buy => exact ⟨hmoves.1.trans hend.1, hmoves.1.trans hend.2⟩
        | sell => exact ⟨hend.1.trans hmoves.2, hend.2.trans hmoves.2⟩
      · by_contra hnot
        unfold Exchanges at hnot
        rw [not_or, not_or, not_not] at hnot
        rcases hnot with ⟨hcut, hzero, hmoved⟩
        rcases loop_of_deltaIn_zero hr hstep hcut hzero hrest with ⟨hq, hin, hout⟩
        have hstill := hnothing hin hout
        rw [show q = pool₁ from hq, hprice, if_neg hcut] at hstill
        exact hmoved hstill
    · rintro (hzero | ⟨hahead, hexchanges⟩)
      · exact absurd hzero ha
      · refine ⟨h.loop_forward hr hahead hloop, ?_⟩
        intro hin hout
        have hpaid := inAcc_le_of_loop hrest
        have hfirst : (pool.nextStep orderType limit amount).deltaIn = 0 := by
          rcases SwapStep.processSwap_result hstep with ⟨deltaOut, rfl⟩
          refine Word.val_eq_zero_iff.mp ?_
          have hacc : (0 : U64).satAdd (pool.nextStep orderType limit amount).deltaIn =
              (pool.nextStep orderType limit amount).deltaIn := by
            ext
            have := (pool.nextStep orderType limit amount).deltaIn.isLt
            rw [Word.val_satAdd, Word.val_zero]
            omega
          have hle : ((0 : U64).satAdd (pool.nextStep orderType limit amount).deltaIn).val ≤
            acc.inAcc.val := hpaid
          have hin' : acc.inAcc.val = 0 := Word.val_eq_zero_iff.mpr hin
          rw [hacc] at hle
          omega
        by_cases hcut : priceIsCloser orderType (pool.targetPrice orderType amount)
            (pool.firstStop orderType limit)
        · rw [nextStep_deltaIn_of_closer hcut] at hfirst
          have hpos := possibleDeltaIn_pos_of_lt hr ha
          rw [hfirst] at hpos
          exact absurd hpos (lt_irrefl 0)
        · rw [(nextStep_amounts_of_not_closer hcut).1] at hfirst
          rcases hexchanges with hcloser | hdelta | hstop
          · exact absurd hcloser hcut
          · exact absurd hfirst hdelta
          · have hq := (loop_of_deltaIn_zero hr hstep hcut hfirst hrest).1
            rw [show q = pool₁ from hq, hprice, if_neg hcut, hstop]

theorem half_price_lt : 2 ^ 63 < 2 ^ (64 + 64) := by norm_num

/-- A purchase on the small pool whose limit is half the price takes the price
there and exchanges nothing. -/
theorem doSwap_backward :
    Initial mockConfig mockPool ∧ ∃ result,
      (mockPool.doSwap mockConfig mockEnv .buy (.sat 1000000) ⟨2 ^ 63, half_price_lt⟩ false).2 =
        .ok result ∧
      result.amountPaidIn = 0 ∧ result.amountPaidOut = 0 ∧
      mockPool.alphaSqrtPrice.bits = 2 ^ 64 ∧
      (mockPool.doSwap mockConfig mockEnv .buy (.sat 1000000) ⟨2 ^ 63, half_price_lt⟩
        false).1.alphaSqrtPrice.bits = 2 ^ 63 := by
  have hok : ((mockPool.doSwap mockConfig mockEnv .buy (.sat 1000000) ⟨2 ^ 63, half_price_lt⟩
      false).2).toOption.map (fun r => (r.amountPaidIn, r.amountPaidOut)) = some (0, 0) := by
    decide +kernel
  rcases exists_ok_of_toOption_map hok with ⟨result, hresult, hnothing⟩
  rcases Prod.mk.inj hnothing with ⟨hin, hout⟩
  exact ⟨mockPool_initial, result, hresult, hin, hout, by decide +kernel, by decide +kernel⟩

/-- A purchase on the small pool with a limit above its price. -/
theorem doSwap_forward_iff_mockPool : ∃ result,
    (mockPool.doSwap mockConfig mockEnv .buy (.sat 1000000) TickIndex.maxSqrtPrice false).2 =
      .ok result ∧
    MovesForward .buy TickIndex.maxSqrtPrice mockPool.alphaSqrtPrice
      (mockPool.doSwap mockConfig mockEnv .buy (.sat 1000000) TickIndex.maxSqrtPrice
        false).1.alphaSqrtPrice := by
  have hok : ((mockPool.doSwap mockConfig mockEnv .buy (.sat 1000000) TickIndex.maxSqrtPrice
      false).2).toOption.map (fun _ => ()) = some () := by decide +kernel
  rcases exists_ok_of_toOption_map hok with ⟨result, hresult, -⟩
  have hiff := doSwap_forward_iff mockPool_initial.consistent mockEnv (by decide)
    (by decide +kernel) hresult
  have hahead : mockPool.LimitAhead .buy TickIndex.maxSqrtPrice :=
    ⟨by decide +kernel, by decide +kernel⟩
  exact ⟨result, hresult, (hiff.mpr (Or.inr ⟨hahead, Or.inl (by decide +kernel)⟩)).1⟩

end Pool

end Subtensor.Swap
