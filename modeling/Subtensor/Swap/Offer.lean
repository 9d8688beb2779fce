import Mathlib.Logic.Relation
import Subtensor.Swap.PriceMoves
import Subtensor.Swap.Target

/-!
# A swap takes no more than it is offered

When a step is cut at the limit or at the edge, its input comes from the prices
and its fee from the input. The target is at least one unit of price beyond the
cut, so that the input is below what the step could take, and this covers the
roundings of both fees.
-/

namespace Subtensor.Swap

open Subtensor.Lib Relation

variable {A : Type}

/-! ## Input and fee -/

/-- A net input that is less than what is left of an amount after the fee on
the gross, costs with the fee on the net no more than the amount. The rate is
`r / m` of the gross and `r / (m - r)` of the net, in units of `1 / k`. -/
theorem net_lt_of_gross {k q m r a d : ℕ} (hk : k = m * q + 1) (hr : 2 * r ≤ m) (ha : a < k)
    (hd : d + 1 + a * (r * q) / k ≤ a) : d * m < (a + 1) * (m - r) := by
  have hda : d + 1 ≤ a := (Nat.le_add_right _ _).trans hd
  rcases Nat.eq_zero_or_pos (r * q) with h0 | hpos
  · -- without a fee the input alone is below the amount
    rcases Nat.mul_eq_zero.mp h0 with rfl | rfl
    · have hm : 0 < m := by
        by_contra hm
        rw [Nat.eq_zero_of_not_pos hm] at hk
        omega
      exact Nat.mul_lt_mul_of_pos_right (by omega) hm
    · omega
  · have hkpos : 0 < k := (Nat.zero_le a).trans_lt ha
    have hfloor : a * (r * q) < (a * (r * q) / k + 1) * k := by
      rw [mul_comm _ k]
      exact Nat.lt_mul_div_succ _ hkpos
    have hfee : a * (r * q) / k < r * q := by
      refine Nat.div_lt_of_lt_mul ?_
      exact Nat.mul_lt_mul_of_pos_right ha hpos
    generalize a * (r * q) / k = f at hd hfloor hfee
    have hmr : (a + 1) * (m - r) + (a + 1) * r = (a + 1) * m := by
      rw [← mul_add]
      congr 1
      omega
    -- otherwise the fee on the gross would exceed its own rounding
    by_contra hle
    have hmain : (f + 2) * m ≤ (a + 1) * r := by
      have hdm : (d + 1 + f) * m ≤ a * m := Nat.mul_le_mul_right _ hd
      have h₁ : (d + 1 + f) * m = d * m + (f + 1) * m := by ring
      have h₂ : (a + 1) * m = a * m + m := by ring
      have h₃ : (f + 2) * m = (f + 1) * m + m := by ring
      omega
    have hq : (f + 2) * m * q ≤ (a + 1) * r * q := Nat.mul_le_mul_right _ hmain
    have h₁ : (a + 1) * r * q = a * (r * q) + r * q := by ring
    have h₂ : (f + 1) * k = (f + 2) * m * q + (f + 1) - m * q := by
      rw [hk]
      have : (f + 2) * m * q = (f + 1) * (m * q) + m * q := by ring
      rw [this, mul_add]
      omega
    have h₃ : 2 * (r * q) ≤ m * q := by
      rw [← mul_assoc]
      exact Nat.mul_le_mul_right _ hr
    have h₄ : m * q ≤ (f + 2) * m * q := by
      rw [mul_assoc]
      exact Nat.le_mul_of_pos_left _ (by omega)
    omega

theorem net_add_fee_le {r a d : ℕ} (hr : r ≤ 32767) (ha : a < 2 ^ 64)
    (hd : d + 1 + a * (r * 2 ^ 64 / 65535) / 2 ^ 64 ≤ a) :
    d + d * (r * 2 ^ 64 / (65535 - r)) / 2 ^ 64 ≤ a := by
  have hrate : r * 2 ^ 64 / 65535 = r * 281479271743489 := by omega
  rw [hrate] at hd
  have hlt := net_lt_of_gross (k := 2 ^ 64) (q := 281479271743489) (m := 65535) (by norm_num)
    (by omega) ha hd
  have hpos : 0 < 65535 - r := by omega
  have hrest : d * r < (a + 1 - d) * (65535 - r) := by
    have h₁ : d * 65535 = d * r + d * (65535 - r) := by
      rw [← mul_add]
      congr 1
      omega
    have h₂ : (a + 1 - d) * (65535 - r) + d * (65535 - r) = (a + 1) * (65535 - r) := by
      rw [← add_mul]
      congr 1
      omega
    omega
  have hfee : d * (r * 2 ^ 64 / (65535 - r)) < (a + 1 - d) * 2 ^ 64 := by
    refine Nat.lt_of_mul_lt_mul_right (a := 65535 - r) ?_
    have hfloor : r * 2 ^ 64 / (65535 - r) * (65535 - r) ≤ r * 2 ^ 64 := Nat.div_mul_le_self _ _
    calc d * (r * 2 ^ 64 / (65535 - r)) * (65535 - r)
        = d * (r * 2 ^ 64 / (65535 - r) * (65535 - r)) := by ring
      _ ≤ d * (r * 2 ^ 64) := Nat.mul_le_mul_left _ hfloor
      _ = d * r * 2 ^ 64 := by ring
      _ < (a + 1 - d) * (65535 - r) * 2 ^ 64 :=
          Nat.mul_lt_mul_of_pos_right hrest (Nat.two_pow_pos 64)
      _ = (a + 1 - d) * 2 ^ 64 * (65535 - r) := by ring
  have hquot : d * (r * 2 ^ 64 / (65535 - r)) / 2 ^ 64 < a + 1 - d :=
    (Nat.div_lt_iff_lt_mul (Nat.two_pow_pos 64)).mpr hfee
  omega

/-! ## Steps that are cut -/

/-- The liquidity buys less than an input that moves the price further. -/
theorem mul_div_lt_of_lt {l x d : ℕ} (hl : l ≠ 0) (hd : 0 < d) (hx : x < d * 2 ^ 64 / l ∨ x = 0) :
    l * x / 2 ^ 64 < d := by
  rw [Nat.div_lt_iff_lt_mul (Nat.two_pow_pos 64)]
  rcases hx with hx | rfl
  · calc l * x < l * (d * 2 ^ 64 / l) := Nat.mul_lt_mul_of_pos_left hx (Nat.pos_of_ne_zero hl)
      _ ≤ d * 2 ^ 64 := Nat.mul_div_le _ _
  · rw [mul_zero]
    exact Nat.mul_pos hd (Nat.two_pow_pos 64)

theorem deltaIn_buy_lt {l d : U64} {curr cut : SqrtPrice} (hl : l.val ≠ 0) (hd : 0 < d.val)
    (hcut : cut.bits < (sqrtPriceTarget .buy (.ofNat l.val) curr d).bits) :
    (deltaIn .buy (.ofNat l.val) curr cut).val < d.val := by
  rw [sqrtPriceTarget_buy hl] at hcut
  rw [deltaIn_buy]
  refine (Nat.min_le_left _ _).trans_lt (mul_div_lt_of_lt hl hd ?_)
  generalize d.val * 2 ^ 64 / l.val = g at hcut ⊢
  omega

/-- A cut above the target has its inverse below that of the target. -/
theorem inverseBits_lt_targetInverse {l d : U64} {curr cut : SqrtPrice} (hl : l.val ≠ 0)
    (hinverse : 1 < targetInverse l curr d)
    (hcut : (sqrtPriceTarget .sell (.ofNat l.val) curr d).bits < cut.bits) :
    inverseBits cut < targetInverse l curr d := by
  rw [sqrtPriceTarget_sell hl, if_neg (not_le.mpr hinverse),
    Nat.div_lt_iff_lt_mul (by omega)] at hcut
  have hpos : 0 < cut.bits := by
    by_contra h0
    rw [Nat.eq_zero_of_not_pos h0] at hcut
    omega
  refine Nat.lt_of_mul_lt_mul_right (a := cut.bits) ?_
  rw [mul_comm (targetInverse l curr d)]
  exact (inverseBits_mul_le cut).trans_lt hcut

theorem deltaIn_sell_lt {l d : U64} {curr cut : SqrtPrice} (hl : l.val ≠ 0) (hd : 0 < d.val)
    (hinverse : 1 < targetInverse l curr d)
    (hcut : (sqrtPriceTarget .sell (.ofNat l.val) curr d).bits < cut.bits) :
    (deltaIn .sell (.ofNat l.val) curr cut).val < d.val := by
  have hlt := inverseBits_lt_targetInverse hl hinverse hcut
  unfold targetInverse at hlt
  rw [deltaIn_sell]
  refine (Nat.min_le_left _ _).trans_lt (mul_div_lt_of_lt hl hd ?_)
  generalize d.val * 2 ^ 64 / l.val = g at hlt ⊢
  omega

theorem deltaIn_dry {l : U64} (hl : l.val = 0) (orderType : OrderType) (curr next : SqrtPrice) :
    (deltaIn orderType (.ofNat l.val) curr next).val = 0 := by
  cases orderType with
  | sell => rw [deltaIn_sell, hl, Nat.zero_mul, Nat.zero_div, Nat.zero_min]
  | buy => rw [deltaIn_buy, hl, Nat.zero_mul, Nat.zero_div, Nat.zero_min]

theorem lt_of_not_closer_buy {target cut : SqrtPrice} (h : ¬priceIsCloser .buy target cut) :
    cut.bits < target.bits := by
  simpa [priceIsCloser] using h

theorem lt_of_not_closer_sell {target cut : SqrtPrice} (h : ¬priceIsCloser .sell target cut) :
    target.bits < cut.bits := by
  simpa [priceIsCloser] using h

/-! ## One step -/

namespace Pool

variable (pool : Pool A) (orderType : OrderType) (limit : SqrtPrice) (amount : U64)

/-- The amount after the fee on it. -/
def possibleDeltaIn : U64 := amount.satSub (pool.calculateFeeAmount amount)

/-- A sale of a single unit, at a price of at most the least unit and at a
liquidity of more than half the range. The inverse of its target is one unit,
whose own inverse is out of range, so that the target is zero. -/
def TargetOverflows : Prop :=
  orderType = .sell ∧ amount.val = 1 ∧ pool.alphaSqrtPrice.bits ≤ 1 ∧
    2 ^ 63 < pool.currentLiquidity.val

variable {pool orderType limit amount}

/-- A fee rate below one half takes less than half. -/
theorem calculateFeeAmount_lt (hr : pool.feeRate.val ≤ 32767) (ha : amount ≠ 0) :
    2 * (pool.calculateFeeAmount amount).val < amount.val := by
  have hpos := Nat.pos_of_ne_zero (Word.val_eq_zero_iff.not.mpr ha)
  have hrate : pool.feeRate.val * 2 ^ 64 / 65535 < 2 ^ 63 := by omega
  have hmul := Nat.mul_lt_mul_of_pos_left hrate hpos
  rw [calculateFeeAmount_val]
  generalize amount.val * (pool.feeRate.val * 2 ^ 64 / 65535) = x at hmul ⊢
  omega

theorem possibleDeltaIn_pos (hr : pool.feeRate.val ≤ 32767) (ha : amount ≠ 0) :
    0 < (pool.possibleDeltaIn amount).val := by
  have hfee := calculateFeeAmount_lt hr ha
  unfold possibleDeltaIn
  rw [Word.val_satSub]
  omega

/-- Unless the target overflows, its inverse is at least two units. -/
theorem one_lt_targetInverse (hr : pool.feeRate.val ≤ 32767) (ha : amount ≠ 0)
    (hl : pool.currentLiquidity.val ≠ 0) (h : ¬pool.TargetOverflows .sell amount) :
    1 < targetInverse pool.currentLiquidity pool.alphaSqrtPrice (pool.possibleDeltaIn amount) := by
  have hpos := possibleDeltaIn_pos hr ha
  have hfee := calculateFeeAmount_lt hr ha
  have hlt := pool.currentLiquidity.isLt
  have hprice := pool.alphaSqrtPrice.isLt
  have hdef : (pool.possibleDeltaIn amount).val =
    amount.val - (pool.calculateFeeAmount amount).val := rfl
  by_contra hle
  unfold targetInverse at hle
  have hmove : 1 ≤ (pool.possibleDeltaIn amount).val * 2 ^ 64 / pool.currentLiquidity.val := by
    rw [Nat.le_div_iff_mul_le (by omega)]
    omega
  have hmove2 : (pool.possibleDeltaIn amount).val * 2 ^ 64 / pool.currentLiquidity.val < 2 := by
    omega
  rw [Nat.div_lt_iff_lt_mul (by omega)] at hmove2
  have hinverse : inverseBits pool.alphaSqrtPrice = 0 := by omega
  refine h ⟨rfl, by omega, ?_, by omega⟩
  by_contra hone
  rw [inverseBits_of_lt (not_le.mp hone), Nat.div_eq_zero_iff] at hinverse
  rcases hinverse with h0 | h0
  · omega
  · have hbits : pool.alphaSqrtPrice.bits < 2 ^ (64 + 64) := hprice
    norm_num at hbits h0
    omega

/-- **One step takes no more than remains.** -/
theorem nextStep_withinOffer (hr : pool.feeRate.val ≤ 32767) (ha : amount ≠ 0)
    (h : ¬pool.TargetOverflows orderType amount) :
    (pool.nextStep orderType limit amount).deltaIn.val +
      (pool.nextStep orderType limit amount).fee.val ≤ amount.val := by
  have hfee := calculateFeeAmount_lt hr ha
  rcases SwapStep.determineAction_amounts pool (SwapStep.new pool orderType amount limit) with
    ⟨-, hdelta, hstep⟩ | ⟨hcut, hdelta, hstep⟩
  · have hd : (pool.nextStep orderType limit amount).deltaIn = pool.possibleDeltaIn amount := hdelta
    have hf : (pool.nextStep orderType limit amount).fee = pool.calculateFeeAmount amount := hstep
    rw [hd, hf]
    unfold possibleDeltaIn
    rw [Word.val_satSub]
    omega
  · generalize hfinal : ((SwapStep.new pool orderType amount limit).determineAction
      pool).finalPrice = cut at hcut hdelta hstep
    have hd : (pool.nextStep orderType limit amount).deltaIn =
        deltaIn orderType (.ofNat pool.currentLiquidity.val) pool.alphaSqrtPrice cut := hdelta
    have hf : (pool.nextStep orderType limit amount).fee = pool.recalculateFee
        (deltaIn orderType (.ofNat pool.currentLiquidity.val) pool.alphaSqrtPrice cut) := hstep
    rw [hd, hf, recalculateFee_val pool (by omega)]
    refine (Nat.add_le_add_left (Nat.min_le_left _ _) _).trans ?_
    by_cases hl : pool.currentLiquidity.val = 0
    · rw [deltaIn_dry hl, Nat.zero_mul, Nat.zero_div]
      omega
    · have hlt : (deltaIn orderType (.ofNat pool.currentLiquidity.val) pool.alphaSqrtPrice
          cut).val < (pool.possibleDeltaIn amount).val := by
        cases orderType with
        | buy => exact deltaIn_buy_lt hl (possibleDeltaIn_pos hr ha) (lt_of_not_closer_buy hcut)
        | sell =>
            exact deltaIn_sell_lt hl (possibleDeltaIn_pos hr ha) (one_lt_targetInverse hr ha hl h)
              (lt_of_not_closer_sell hcut)
      refine net_add_fee_le hr amount.isLt ?_
      rw [← calculateFeeAmount_val]
      have hdef : (pool.possibleDeltaIn amount).val =
        amount.val - (pool.calculateFeeAmount amount).val := rfl
      omega

end Pool

/-! ## The loop -/

/-- One iteration of the loop of a swap. -/
def Iterates (cfg : Config A) (orderType : OrderType) (limit : SqrtPrice)
    (s s' : Pool A × SwapAcc) : Prop :=
  s.2.amountRemaining ≠ 0 ∧ ∃ r,
    (s.1.nextStep orderType limit s.2.amountRemaining).processSwap cfg s.1 = .ok (s'.1, r) ∧
      s'.2 = s.2.advance (s.1.nextStep orderType limit s.2.amountRemaining) r

theorem swapLoop_iterates {cfg : Config A} {orderType : OrderType} {limit : SqrtPrice} :
    ∀ (n : ℕ) (pool : Pool A) (acc : SwapAcc) (res : Pool A × SwapAcc),
      Pool.swapLoop cfg orderType limit n pool acc = .ok res →
      ReflTransGen (Iterates cfg orderType limit) (pool, acc) res := by
  intro n
  induction n with
  | zero =>
      intro pool acc res h
      rcases Pool.swapLoop_ok h with ⟨-, rfl⟩ | ⟨-, m, -, -, hm, -⟩
      · exact .refl
      · omega
  | succ n ih =>
      intro pool acc res h
      rcases Pool.swapLoop_ok h with ⟨-, rfl⟩ | ⟨h0, m, pool₁, r, hm, hstep, hloop⟩
      · exact .refl
      · rcases Nat.succ.inj hm
        exact .head ⟨h0, r, hstep, rfl⟩ (ih pool₁ _ res hloop)

namespace SwapStep

theorem processSwap_result {cfg : Config A} {pool pool' : Pool A} {step : SwapStep}
    {r : SwapStepResult} (h : step.processSwap cfg pool = .ok (pool', r)) :
    ∃ deltaOut, r = step.resultOf deltaOut := by
  unfold processSwap at h
  dsimp only at h
  split at h
  · cases h
  · cases h
    exact ⟨_, rfl⟩

theorem processSwap_feeRate {cfg : Config A} {pool pool' : Pool A} {step : SwapStep}
    {r : SwapStepResult} (h : step.processSwap cfg pool = .ok (pool', r)) :
    pool'.feeRate = pool.feeRate := by
  rcases processSwap_frame h with ⟨_, _, _, _, rfl⟩
  rfl

end SwapStep

/-- A sale that goes on after a step did cross its edge, whose price is more
than the least unit. -/
theorem one_lt_of_crossing {cfg : Config A} {pool pool' : Pool A} {limit : SqrtPrice} {amount : U64}
    {r : SwapStepResult} (hact : (pool.nextStep .sell limit amount).action = .crossing)
    (hstep : (pool.nextStep .sell limit amount).processSwap cfg pool = .ok (pool', r)) :
    1 < pool'.alphaSqrtPrice.bits := by
  have hsell := pool.nextStep_sell limit amount
  have hedge := hsell.2.mp hact
  have hb := pool.tickEdge_inBounds pool.currentTick .sell
  have hbits : (pool.edgePrice .sell).bits = TickIndex.priceBits (pool.edgeTick .sell) :=
    TickIndex.asSqrtPriceBounded_bits hb.1 hb.2
  have hmono : TickIndex.priceBits TickIndex.MIN ≤ TickIndex.priceBits (pool.edgeTick .sell) :=
    TickIndex.priceBits_mono le_rfl hb.1 hb.2
  have hleast : 1 < TickIndex.priceBits TickIndex.MIN := by
    have hmin := TickIndex.sqrtRatio_tickEnds.1
    unfold TickIndex.priceBits
    rw [TickIndex.MIN_eq]
    omega
  rw [(SwapStep.processSwap_price hstep).1]
  omega

/-- What holds of every state of the loop for an amount. -/
structure WithinOffer (orderType : OrderType) (amount : U64) (s : Pool A × SwapAcc) : Prop where
  rate : s.1.feeRate.val ≤ 32767
  total : s.2.inAcc.val + s.2.feeAcc.val + s.2.amountRemaining.val ≤ amount.val
  safe : ¬s.1.TargetOverflows orderType s.2.amountRemaining

namespace WithinOffer

variable {cfg : Config A} {orderType : OrderType} {limit : SqrtPrice} {amount : U64}
  {s s' : Pool A × SwapAcc}

theorem step_le (h : WithinOffer orderType amount s) (limit : SqrtPrice)
    (h0 : s.2.amountRemaining ≠ 0) :
    (s.1.nextStep orderType limit s.2.amountRemaining).deltaIn.val +
      (s.1.nextStep orderType limit s.2.amountRemaining).fee.val ≤ s.2.amountRemaining.val :=
  Pool.nextStep_withinOffer h.rate h0 h.safe

theorem iterates (h : WithinOffer orderType amount s) (hs : Iterates cfg orderType limit s s') :
    WithinOffer orderType amount s' := by
  rcases hs with ⟨h0, r, hstep, hacc⟩
  have hle := h.step_le limit h0
  have htotal := h.total
  have hlt := amount.isLt
  rcases SwapStep.processSwap_result hstep with ⟨deltaOut, rfl⟩
  generalize hnext : s.1.nextStep orderType limit s.2.amountRemaining = step at hle hstep hacc
  have htake : (step.deltaIn.satAdd step.fee).val = step.deltaIn.val + step.fee.val :=
    Word.val_satAdd_of_lt (by omega)
  have hin : (s.2.inAcc.satAdd step.deltaIn).val = s.2.inAcc.val + step.deltaIn.val :=
    Word.val_satAdd_of_lt (by omega)
  have hfee : (s.2.feeAcc.satAdd step.fee).val = s.2.feeAcc.val + step.fee.val :=
    Word.val_satAdd_of_lt (by omega)
  have hremaining : s'.2.amountRemaining =
      if step.action = .stop ∨ step.deltaIn.satAdd step.fee = 0 then 0
      else s.2.amountRemaining.satSub (step.deltaIn.satAdd step.fee) := by
    rw [hacc]
    rfl
  refine ⟨?_, ?_, ?_⟩
  · rw [SwapStep.processSwap_feeRate hstep]
    exact h.rate
  · rw [hremaining, show s'.2.inAcc = s.2.inAcc.satAdd step.deltaIn by rw [hacc]; rfl,
      show s'.2.feeAcc = s.2.feeAcc.satAdd step.fee by rw [hacc]; rfl, hin, hfee]
    split
    · rw [Word.val_zero]
      omega
    · rw [Word.val_satSub, htake]
      omega
  · rintro ⟨horder, hone, hprice, -⟩
    have hnot : ¬(step.action = .stop ∨ step.deltaIn.satAdd step.fee = 0) := by
      intro hstop
      rw [hremaining, if_pos hstop] at hone
      cases hone
    rw [not_or] at hnot
    have hact : step.action = .crossing := by
      cases haction : step.action with
      | stop => exact absurd haction hnot.1
      | crossing => rfl
    rw [horder] at hnext
    rw [← hnext] at hact hstep
    have hbig := one_lt_of_crossing hact hstep
    omega

theorem reflTransGen (h : WithinOffer orderType amount s)
    (hs : ReflTransGen (Iterates cfg orderType limit) s s') : WithinOffer orderType amount s' := by
  induction hs with
  | refl => exact h
  | tail _ hstep ih => exact ih.iterates hstep

end WithinOffer

/-! ## The whole swap -/

namespace Pool

variable [DecidableEq A]

theorem maybeInitializeV3_feeRate {cfg : Config A} {env : Env A} {pool pool' : Pool A}
    (h : pool.maybeInitializeV3 cfg env = .ok pool') : pool'.feeRate = pool.feeRate := by
  cases hinit : pool.swapV3Initialized with
  | true =>
      rw [maybeInitializeV3_initialized hinit] at h
      cases h
      rfl
  | false =>
      rcases maybeInitializeV3_ok h hinit with ⟨price, rfl⟩
      rcases addLiquidityToTicks_frame { pool with
        alphaSqrtPrice := price
        currentTick := TickIndex.fromSqrtPriceBounded price : Pool A } TickIndex.MIN TickIndex.MAX
        (liquidityOfReserves env.taoReserve env.alphaReserve) with ⟨price', liq, hframe⟩
      unfold withPosition
      dsimp only
      rw [hframe]
      rfl

theorem doSwap_result {cfg : Config A} {env : Env A} {pool : Pool A} {orderType : OrderType}
    {amount : U64} {limit : SqrtPrice} {simulate : Bool} {result : SwapResult}
    (h : (pool.doSwap cfg env orderType amount limit simulate).2 = .ok result) :
    ∃ pool', pool.swapInner cfg env orderType amount limit = .ok (pool', result) := by
  unfold doSwap at h
  cases hinner : pool.swapInner cfg env orderType amount limit with
  | error e =>
      rw [hinner] at h
      cases h
  | ok r =>
      rw [hinner] at h
      refine ⟨r.1, ?_⟩
      have hresult : r.2 = result := by
        cases simulate with
        | true => exact Except.ok.inj h
        | false => exact Except.ok.inj (ite_error_eq_ok.mp h).2
      rw [← hresult]

theorem withinOffer_start {cfg : Config A} {env : Env A} {pool pool₀ : Pool A}
    {orderType : OrderType} {amount : U64} (hmax : cfg.maxFeeRate.val ≤ 32767)
    (hrate : pool.feeRate.val ≤ cfg.maxFeeRate.val)
    (hinit : pool.maybeInitializeV3 cfg env = .ok pool₀)
    (hsafe : ¬pool₀.TargetOverflows orderType amount) :
    WithinOffer orderType amount (pool₀, ⟨amount, 0, 0, 0⟩) := by
  refine ⟨?_, ?_, hsafe⟩
  · rw [maybeInitializeV3_feeRate hinit]
    omega
  · show 0 + 0 + amount.val ≤ amount.val
    omega

/-- **A swap takes no more than it is offered.** At a fee rate below one half,
and unless the swap starts with a target that overflows, no iteration of the
loop takes more than remains, and input and fees are together at most the
amount. -/
theorem doSwap_withinOffer (cfg : Config A) (env : Env A) (pool : Pool A) (orderType : OrderType)
    (amount : U64) (limit : SqrtPrice) (simulate : Bool)
    (hmax : cfg.maxFeeRate.val ≤ 32767) (hrate : pool.feeRate.val ≤ cfg.maxFeeRate.val)
    (hsafe : ∀ pool₀, pool.maybeInitializeV3 cfg env = .ok pool₀ →
      ¬pool₀.TargetOverflows orderType amount) :
    (∀ result, (pool.doSwap cfg env orderType amount limit simulate).2 = .ok result →
      result.amountPaidIn.val + result.feePaid.val ≤ amount.val) ∧
    ∀ pool₀ s, pool.maybeInitializeV3 cfg env = .ok pool₀ →
      ReflTransGen (Iterates cfg orderType limit) (pool₀, ⟨amount, 0, 0, 0⟩) s →
      s.2.amountRemaining ≠ 0 →
      (s.1.nextStep orderType limit s.2.amountRemaining).deltaIn.val +
        (s.1.nextStep orderType limit s.2.amountRemaining).fee.val ≤ s.2.amountRemaining.val := by
  have hstart : ∀ pool₀, pool.maybeInitializeV3 cfg env = .ok pool₀ →
      WithinOffer orderType amount (pool₀, ⟨amount, 0, 0, 0⟩) :=
    fun pool₀ hinit => withinOffer_start hmax hrate hinit (hsafe pool₀ hinit)
  constructor
  · intro result hresult
    rcases doSwap_result hresult with ⟨pool', hinner⟩
    rcases swapInner_ok hinner with ⟨-, pool₀, acc, hinit, hloop, hres⟩
    have hend := (hstart pool₀ hinit).reflTransGen (swapLoop_iterates _ _ _ _ hloop)
    have htotal : acc.inAcc.val + acc.feeAcc.val + acc.amountRemaining.val ≤ amount.val :=
      hend.total
    rw [show result = swapResult orderType acc from hres]
    show acc.inAcc.val + acc.feeAcc.val ≤ amount.val
    omega
  · intro pool₀ s hinit hs h0
    exact ((hstart pool₀ hinit).reflTransGen hs).step_le _ h0

/-- A purchase on the small pool. -/
theorem doSwap_withinOffer_mockPool :
    ∃ result, (mockPool.doSwap mockConfig mockEnv .buy (.sat 1000000) TickIndex.maxSqrtPrice
      false).2 = .ok result ∧ result.amountPaidIn.val + result.feePaid.val ≤ 1000000 := by
  have hok : ((mockPool.doSwap mockConfig mockEnv .buy (.sat 1000000) TickIndex.maxSqrtPrice
      false).2).toOption.map (fun _ => ()) = some () := by decide +kernel
  rcases exists_ok_of_toOption_map hok with ⟨result, hresult, -⟩
  have hoffer := doSwap_withinOffer mockConfig mockEnv mockPool .buy (.sat 1000000)
    TickIndex.maxSqrtPrice false (by decide) (by decide +kernel) (by rintro pool₀ - ⟨⟨⟩, -⟩)
  exact ⟨result, hresult, hoffer.1 result hresult⟩

/-- Reserves that fill their range. -/
def fullEnv : Env ℕ := { mockEnv with taoReserve := .maxVal, alphaReserve := .maxVal }

/-- The pool that these reserves initialise, after a purchase whose limit is
zero and takes the price there. -/
def zeroPricePool : Pool ℕ :=
  (((Pool.fresh (.sat 196) true 0).maybeInitializeV3 mockConfig fullEnv).toOption.getD
    mockPool).step mockConfig (.swap fullEnv .buy (.sat 1000) 0 false)

/-- On it a sale of one unit takes the whole range of amounts. -/
theorem doSwap_exceedsOffer :
    Reachable mockConfig (fun _ _ => True) zeroPricePool ∧
      zeroPricePool.feeRate.val ≤ mockConfig.maxFeeRate.val ∧
      ∃ result, (zeroPricePool.doSwap mockConfig fullEnv .sell (.sat 1) 0 false).2 = .ok result ∧
        1 < result.amountPaidIn.val + result.feePaid.val := by
  refine ⟨?_, by decide +kernel, ?_⟩
  · refine .step _ (.init ⟨fullEnv, .sat 196, true, 0, by decide, by decide, ?_⟩) trivial
    have hok : ((Pool.fresh (.sat 196) true 0).maybeInitializeV3 mockConfig fullEnv).toOption.map
        (fun pool => pool.swapV3Initialized) = some true := by decide +kernel
    rcases exists_ok_of_toOption_map hok with ⟨pool, hpool, -⟩
    rw [hpool]
    rfl
  · have hok : ((zeroPricePool.doSwap mockConfig fullEnv .sell (.sat 1) 0 false).2).toOption.map
        (fun r => decide (1 < r.amountPaidIn.val + r.feePaid.val)) = some true := by
      decide +kernel
    rcases exists_ok_of_toOption_map hok with ⟨result, hresult, htaken⟩
    exact ⟨result, hresult, of_decide_eq_true htaken⟩

end Pool

end Subtensor.Swap
