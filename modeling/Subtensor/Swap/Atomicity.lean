import Subtensor.Swap.Direction

/-!
# Swaps that fail

`do_swap` runs in a transaction of its own and chooses between commit and
rollback before it compares the payout with the reserve. An error of the swap
itself is rolled back; the error of that comparison is committed with all that
the swap wrote.
-/

namespace Subtensor.Swap

open Subtensor.Lib Relation

variable {A : Type}

namespace Pool

variable {cfg : Config A} {pool pool' : Pool A} {orderType : OrderType} {limit : SqrtPrice}
  {amount : U64} {r : SwapStepResult}

/-! ## A payout moves the price -/

theorem convertDeltas_dry (h : pool.currentLiquidity.val = 0) (orderType : OrderType)
    (deltaIn : U64) : pool.convertDeltas orderType deltaIn = 0 := by
  have hzero : (UFixed.ofNat pool.currentLiquidity.val : U64F64) = 0 := ofNat_eq_zero.mpr h
  have hdiv : ∀ b : U64F64, (0 : U64F64).safeDiv b = 0 := by
    intro b
    ext
    have hle := UFixed.bits_safeDiv_le (0 : U64F64) b
    rw [UFixed.bits_zero] at hle ⊢
    simpa using hle
  have hmul : ∀ a : U64F64, (0 : U64F64).satMul a = 0 := by
    intro a
    ext
    rw [UFixed.bits_satMul, UFixed.bits_zero]
    simp
  have hmul' : ∀ a : U64F64, a.satMul (0 : U64F64) = 0 := by
    intro a
    ext
    rw [UFixed.bits_satMul, UFixed.bits_zero]
    simp
  unfold convertDeltas
  rw [hzero]
  cases orderType with
  | sell =>
      dsimp only
      rw [hdiv, hmul, hmul']
      exact ite_self _
  | buy =>
      dsimp only
      rw [hdiv, hmul]
      exact ite_self _

/-- A step that pays out takes an input at some liquidity. -/
theorem payout_ne_zero {step : SwapStep} (hstep : step.processSwap cfg pool = .ok (pool', r))
    (hpaid : r.deltaOut ≠ 0) : pool.currentLiquidity.val ≠ 0 ∧ step.deltaIn ≠ 0 := by
  have hresult := processSwap_eq_result hstep
  constructor
  · intro hdry
    refine hpaid ?_
    rw [hresult]
    refine convertDeltas_dry ?_ _ _
    rw [addFees_currentLiquidity]
    exact hdry
  · intro hzero
    refine hpaid ?_
    rw [hresult, hzero]
    exact convertDeltas_zero _ _

theorem lt_targetPrice_buy (hl : pool.currentLiquidity.val ≠ 0)
    (h : pool.alphaSqrtPrice.bits ≤ TickIndex.priceBits TickIndex.MAX)
    (hd : 0 < (pool.possibleDeltaIn amount).val) :
    pool.alphaSqrtPrice.bits < (pool.targetPrice .buy amount).bits := by
  have hmax : TickIndex.priceBits TickIndex.MAX < 2 ^ 128 - 1 := by decide +kernel
  have hlt := pool.currentLiquidity.isLt
  have hmove : 1 ≤ (pool.possibleDeltaIn amount).val * 2 ^ 64 / pool.currentLiquidity.val := by
    rw [Nat.le_div_iff_mul_le (by omega)]
    omega
  unfold targetPrice
  rw [sqrtPriceTarget_buy hl]
  show pool.alphaSqrtPrice.bits < min ((pool.possibleDeltaIn amount).val * 2 ^ 64 /
    pool.currentLiquidity.val + pool.alphaSqrtPrice.bits) (2 ^ 128 - 1)
  omega

/-- A stop that costs an input is not at the price itself. -/
theorem firstDeltaIn_of_stop (h : pool.firstStop orderType limit = pool.alphaSqrtPrice) :
    pool.firstDeltaIn orderType limit = 0 := by
  refine Word.val_eq_zero_iff.mp ?_
  unfold firstDeltaIn
  rw [h]
  cases orderType with
  | buy => rw [deltaIn_buy, Nat.sub_self, Nat.mul_zero, Nat.zero_div, Nat.zero_min]
  | sell => rw [deltaIn_sell, Nat.sub_self, Nat.mul_zero, Nat.zero_div, Nat.zero_min]

/-- With limit and price in order, a step that pays out moves the price. -/
theorem nextStep_moves (hr : pool.feeRate.val < 65535) (ha : amount ≠ 0)
    (hlimit : pool.LimitAhead orderType limit)
    (hstep : (pool.nextStep orderType limit amount).processSwap cfg pool = .ok (pool', r))
    (hpaid : r.deltaOut ≠ 0) : pool'.alphaSqrtPrice ≠ pool.alphaSqrtPrice := by
  rcases payout_ne_zero hstep hpaid with ⟨hl, hdelta⟩
  rw [(SwapStep.processSwap_price hstep).1, nextStep_finalPrice]
  split
  · have hd := possibleDeltaIn_pos_of_lt hr ha
    intro heq
    have hbits := UFixed.ext_iff.mp heq
    cases orderType with
    | buy =>
        rw [LimitAhead, asSqrtPriceBounded_MAX_bits] at hlimit
        have := lt_targetPrice_buy hl hlimit.2 hd
        omega
    | sell =>
        rw [LimitAhead, asSqrtPriceBounded_MIN_bits] at hlimit
        have := targetPrice_sell_lt (one_lt_priceBits_MIN.trans_le hlimit.2) hd
        omega
  · rename_i hcut
    intro heq
    refine hdelta ?_
    rw [(nextStep_amounts_of_not_closer hcut).1]
    exact firstDeltaIn_of_stop heq

/-- A price that moves forward twice and is back has not moved. -/
theorem MovesForward.eq_of_back {price price' : SqrtPrice}
    (hlimit : pool.LimitAhead orderType limit)
    (h₁ : MovesForward orderType limit price pool.alphaSqrtPrice)
    (h₂ : MovesForward orderType limit pool.alphaSqrtPrice price') (hback : price' = price) :
    pool.alphaSqrtPrice = price := by
  have hbits := UFixed.ext_iff.mp hback
  ext
  unfold MovesForward at h₁ h₂
  cases orderType with
  | buy =>
      dsimp only at h₁ h₂
      omega
  | sell =>
      dsimp only at h₁ h₂
      omega

/-- What holds along the loop of a swap that starts with limit and price in
order: once something is paid, the price has left its start. -/
structure LeavesPrice (orderType : OrderType) (limit start : SqrtPrice) (s : Pool A × SwapAcc) :
    Prop where
  consistent : s.1.Consistent
  rate : s.1.feeRate.val < 65535
  ahead : s.1.LimitAhead orderType limit
  forward : MovesForward orderType limit start s.1.alphaSqrtPrice
  paid : s.2.amountPaidOut ≠ 0 → s.1.alphaSqrtPrice ≠ start

theorem LeavesPrice.iterates {start : SqrtPrice} {s s' : Pool A × SwapAcc}
    (h : LeavesPrice orderType limit start s) (hs : Iterates cfg orderType limit s s') :
    LeavesPrice orderType limit start s' := by
  rcases hs with ⟨h0, r, hstep, hacc⟩
  have hforward := h.consistent.nextStep_forward h.rate h0 h.ahead hstep
  refine ⟨h.consistent.nextStep hstep, ?_, nextStep_limitAhead hstep,
    h.forward.trans h.ahead hforward, ?_⟩
  · rw [SwapStep.processSwap_feeRate hstep]
    exact h.rate
  · intro hpaid hback
    have hsame := h.forward.eq_of_back h.ahead hforward hback
    have hnothing : s.2.amountPaidOut = 0 := by
      by_contra hne
      exact h.paid hne hsame
    refine nextStep_moves h.rate h0 h.ahead hstep ?_ (hback.trans hsame.symm)
    intro hzero
    refine hpaid ?_
    rw [hacc]
    show s.2.amountPaidOut.satAdd r.deltaOut = 0
    rw [hnothing, hzero]
    decide

/-- A loop that pays out ends at another price. -/
theorem Consistent.loop_leaves (h : pool.Consistent) (hr : pool.feeRate.val < 65535) {n : ℕ}
    {res : Pool A × SwapAcc}
    (hloop : Pool.swapLoop cfg orderType limit n pool ⟨amount, 0, 0, 0⟩ = .ok res)
    (hpaid : res.2.amountPaidOut ≠ 0) : res.1.alphaSqrtPrice ≠ pool.alphaSqrtPrice := by
  by_cases hahead : pool.LimitAhead orderType limit
  · have hstart : LeavesPrice orderType limit pool.alphaSqrtPrice
        (pool, (⟨amount, 0, 0, 0⟩ : SwapAcc)) :=
      ⟨h, hr, hahead, movesForward_refl _ _ _, fun hne => absurd rfl hne⟩
    have hend : LeavesPrice orderType limit pool.alphaSqrtPrice res := by
      have hpath := swapLoop_iterates n pool _ res hloop
      clear hloop hpaid
      induction hpath with
      | refl => exact hstart
      | tail _ hs ih => exact ih.iterates hs
    exact hend.paid hpaid
  · rcases swapLoop_ok hloop with ⟨-, rfl⟩ | ⟨-, m, pool₁, r, -, hstep, hrest⟩
    · exact absurd rfl hpaid
    · have hend : res.1.LimitAhead orderType limit := (nextStep_limitAhead hstep).of_loop hrest
      intro hsame
      refine hahead ?_
      unfold LimitAhead at hend ⊢
      rw [← hsame]
      exact hend

/-! ## What is committed -/

section

variable [DecidableEq A]

/-- The simulation mode of `do_swap`, which previews a swap: the reserve is not
checked, and nothing is written. -/
def quote (cfg : Config A) (env : Env A) (pool : Pool A) (orderType : OrderType) (amount : U64)
    (limit : SqrtPrice) : Except SwapError SwapResult :=
  (pool.doSwap cfg env orderType amount limit true).2

/-- The reserve has what the preview of a swap promises, if it promises something. -/
def ReserveCoversQuote (cfg : Config A) (env : Env A) (pool : Pool A) (orderType : OrderType)
    (amount : U64) (limit : SqrtPrice) : Prop :=
  ∀ result, pool.quote cfg env orderType amount limit = .ok result →
    result.amountPaidOut.val ≤ (checkedReserve env orderType).val

theorem quote_eq (cfg : Config A) (env : Env A) (pool : Pool A) (orderType : OrderType)
    (amount : U64) (limit : SqrtPrice) : pool.quote cfg env orderType amount limit =
      (pool.swapInner cfg env orderType amount limit).map Prod.snd := by
  unfold quote doSwap
  cases pool.swapInner cfg env orderType amount limit with
  | error e => rfl
  | ok res => rfl

/-- A preview writes nothing. -/
theorem doSwap_simulate_fst (cfg : Config A) (env : Env A) (pool : Pool A)
    (orderType : OrderType) (amount : U64) (limit : SqrtPrice) :
    (pool.doSwap cfg env orderType amount limit true).1 = pool := by
  unfold doSwap
  cases pool.swapInner cfg env orderType amount limit with
  | error e => rfl
  | ok res => rfl

/-- A swap that is meant to persist: it fails without a trace, or it leaves a swapped
pool behind and then compares what it has paid with the reserve. -/
theorem doSwap_cases (cfg : Config A) (env : Env A) (pool : Pool A) (orderType : OrderType)
    (amount : U64) (limit : SqrtPrice) :
    ((pool.doSwap cfg env orderType amount limit false).1 = pool ∧
        ∃ e, pool.quote cfg env orderType amount limit = .error e) ∨
      ∃ res, pool.swapInner cfg env orderType amount limit = .ok res ∧
        pool.quote cfg env orderType amount limit = .ok res.2 ∧
        (pool.doSwap cfg env orderType amount limit false).1 = res.1 ∧
        (((pool.doSwap cfg env orderType amount limit false).2 = .error .insufficientLiquidity ∧
            (checkedReserve env orderType).val < res.2.amountPaidOut.val) ∨
          ((pool.doSwap cfg env orderType amount limit false).2 = .ok res.2 ∧
            res.2.amountPaidOut.val ≤ (checkedReserve env orderType).val)) := by
  rw [quote_eq]
  unfold doSwap
  cases hinner : pool.swapInner cfg env orderType amount limit with
  | error e => exact Or.inl ⟨rfl, e, rfl⟩
  | ok res =>
      right
      refine ⟨res, rfl, rfl, rfl, ?_⟩
      by_cases hover : (checkedReserve env orderType).val < res.2.amountPaidOut.val
      · exact Or.inl ⟨if_pos hover, hover⟩
      · exact Or.inr ⟨if_neg hover, not_lt.mp hover⟩

/-- A swap that goes through with a payout leaves another storage behind. -/
theorem swapInner_ne {env : Env A} (h : pool.swapV3Initialized = true → pool.Consistent)
    (hr : pool.feeRate.val < 65535) {res : Pool A × SwapResult}
    (hinner : pool.swapInner cfg env orderType amount limit = .ok res)
    (hpaid : res.2.amountPaidOut ≠ 0) : res.1 ≠ pool := by
  rcases swapInner_ok hinner with ⟨-, pool₀, acc, hinit, hloop, hresult⟩
  rw [hresult] at hpaid
  cases hflag : pool.swapV3Initialized with
  -- a payout has moved the price
  | true =>
      rw [maybeInitializeV3_initialized hflag] at hinit
      cases hinit
      intro hsame
      exact (h hflag).loop_leaves hr hloop hpaid (congrArg alphaSqrtPrice hsame)
  -- the call has initialised the pool
  | false =>
      rcases maybeInitializeV3_ok hinit hflag with ⟨price, rfl⟩
      intro hsame
      have hkept : res.1.swapV3Initialized = true := by
        refine swapLoop_invariant (I := fun q => q.swapV3Initialized = true) ?_ _ _ _ _ rfl hloop
        rintro p p' a r - hp hstep
        rcases SwapStep.processSwap_frame hstep with ⟨_, _, _, _, rfl⟩
        exact hp
      rw [hsame, hflag] at hkept
      cases hkept

/-- **When a swap that fails leaves no trace.** An error of `do_swap` comes
without a change of the storage exactly if the swap is a simulation, or the reserve
covers what a simulation of it promises beforehand. -/
theorem doSwap_atomic_iff (env : Env A) (h : pool.swapV3Initialized = true → pool.Consistent)
    (hmax : cfg.maxFeeRate.val < 65535) (hrate : pool.feeRate.val ≤ cfg.maxFeeRate.val)
    (orderType : OrderType) (amount : U64) (limit : SqrtPrice) (simulate : Bool) :
    (∀ e, (pool.doSwap cfg env orderType amount limit simulate).2 = .error e →
        (pool.doSwap cfg env orderType amount limit simulate).1 = pool) ↔
      simulate = true ∨ pool.ReserveCoversQuote cfg env orderType amount limit := by
  have hr : pool.feeRate.val < 65535 := hrate.trans_lt hmax
  cases simulate with
  | true => exact iff_of_true (fun _ _ => doSwap_simulate_fst ..) (Or.inl rfl)
  | false =>
      simp only [Bool.false_eq_true, false_or]
      rcases doSwap_cases cfg env pool orderType amount limit with
        ⟨hsame, e, hquote⟩ | ⟨res, hinner, hquote, hpool, ⟨herror, hover⟩ | ⟨hok, hcovered⟩⟩
      · refine iff_of_true (fun _ _ => hsame) ?_
        intro result hresult
        rw [hquote] at hresult
        cases hresult
      · have hpaid : res.2.amountPaidOut ≠ 0 := by
          intro hzero
          rw [hzero, Word.val_zero] at hover
          exact Nat.not_lt_zero _ hover
        refine iff_of_false ?_ ?_
        · intro hatomic
          exact swapInner_ne h hr hinner hpaid (hpool.symm.trans (hatomic _ herror))
        · intro hcovers
          exact absurd (hcovers res.2 hquote) (not_le.mpr hover)
      · refine iff_of_true ?_ ?_
        · intro e he
          rw [hok] at he
          cases he
        · intro result hresult
          rw [hquote] at hresult
          cases hresult
          exact hcovered

/-! ## A purchase beyond the reserve -/

/-- The accounts of `mockEnv`, with half a million alpha in reserve. -/
def lowEnv : Env ℕ := { mockEnv with alphaReserve := .sat 500000 }

omit [DecidableEq A] in
/-- A purchase for a million TAO pays out more than that: the call fails, and the
price has moved. -/
theorem doSwap_commitsError : Initial mockConfig mockPool ∧
    (mockPool.doSwap mockConfig lowEnv .buy (.sat 1000000) TickIndex.maxSqrtPrice false).2 =
      .error .insufficientLiquidity ∧
    (mockPool.doSwap mockConfig lowEnv .buy (.sat 1000000) TickIndex.maxSqrtPrice
      false).1.alphaSqrtPrice ≠ mockPool.alphaSqrtPrice :=
  ⟨mockPool_initial, by decide +kernel, by decide +kernel⟩

omit [DecidableEq A] in
/-- A purchase for a thousandth of that is covered, and goes through: what the
condition says of it is that an error would leave no trace. With no alpha in reserve
the large purchase fails before anything is written. -/
theorem doSwap_atomic_iff_mockPool :
    (∀ e, (mockPool.doSwap mockConfig lowEnv .buy (.sat 1000) TickIndex.maxSqrtPrice false).2 =
        .error e → (mockPool.doSwap mockConfig lowEnv .buy (.sat 1000) TickIndex.maxSqrtPrice
          false).1 = mockPool) ∧
      (mockPool.doSwap mockConfig { mockEnv with alphaReserve := 0 } .buy (.sat 1000000)
        TickIndex.maxSqrtPrice false).2 = .error .reservesTooLow ∧
      (mockPool.doSwap mockConfig { mockEnv with alphaReserve := 0 } .buy (.sat 1000000)
        TickIndex.maxSqrtPrice false).1 = mockPool := by
  have hfails : (mockPool.doSwap mockConfig { mockEnv with alphaReserve := 0 } .buy (.sat 1000000)
      TickIndex.maxSqrtPrice false).2 = .error .reservesTooLow := by decide +kernel
  refine ⟨?_, hfails, ?_⟩
  · refine (doSwap_atomic_iff lowEnv (fun _ => mockPool_initial.consistent) (by decide)
      (by decide +kernel) _ _ _ _).mpr (Or.inr ?_)
    have hquote : (mockPool.quote mockConfig lowEnv .buy (.sat 1000)
        TickIndex.maxSqrtPrice).toOption.map (fun result => decide (result.amountPaidOut.val ≤
          (checkedReserve lowEnv .buy).val)) = some true := by
      decide +kernel
    intro result hresult
    rw [hresult] at hquote
    exact of_decide_eq_true (Option.some.inj hquote)
  · refine (doSwap_atomic_iff { mockEnv with alphaReserve := 0 }
      (fun _ => mockPool_initial.consistent) (by decide) (by decide +kernel) _ _ _ _).mpr
        (Or.inr ?_) _ hfails
    have hnone : (mockPool.quote mockConfig { mockEnv with alphaReserve := 0 } .buy (.sat 1000000)
        TickIndex.maxSqrtPrice).toOption = none := by decide +kernel
    intro result hresult
    rw [hresult] at hnone
    cases hnone

end

end Pool

end Subtensor.Swap
