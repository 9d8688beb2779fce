import Subtensor.Lib.ConstantProduct
import Subtensor.Staking.Transition

/-!
# The limit price of a move

`get_max_amount_move` compares the limit price with the rate at which two
constant product pools of the reserves exchange alpha for alpha, and finds in
closed form the amount at which that rate is reached. The swaps that follow
charge fees on both sides and run on the pools of the swap pallet, so the limit
bounds the rate of the formula and not the rate of the swaps.
-/

namespace Subtensor

open Lib ConstantProduct

/-! ## Fixed point -/

theorem Lib.UFixed.satAdd_ofNat {i f m n : ℕ} (h : m + n < 2 ^ i) :
    (UFixed.ofNat m : UFixed i f).satAdd (UFixed.ofNat n) = UFixed.ofNat (m + n) := by
  unfold UFixed.satAdd
  rw [UFixed.bits_ofNat_of_lt (by omega), UFixed.bits_ofNat_of_lt (by omega), ← add_mul]
  rfl

theorem Lib.UFixed.bits_ofNat_safeDiv {i f m n : ℕ} (hm : m < 2 ^ i) (hn : 0 < n)
    (hn' : n < 2 ^ i) :
    ((UFixed.ofNat m : UFixed i f).safeDiv (UFixed.ofNat n)).bits = m * 2 ^ f / n := by
  rw [UFixed.bits_safeDiv_ofNat _ hn hn', UFixed.bits_ofNat_of_lt hm]

theorem Lib.UFixed.bits_ofNat_satMul {i f m : ℕ} {a : UFixed i f} (hm : m < 2 ^ i)
    (ha : a.bits ≤ 2 ^ f) : ((UFixed.ofNat m : UFixed i f).satMul a).bits = m * a.bits := by
  have hpos := Nat.two_pow_pos f
  have hprod : m * 2 ^ f * a.bits / 2 ^ f = m * a.bits := by
    rw [Nat.mul_right_comm]
    exact Nat.mul_div_cancel _ hpos
  have hlt : m * a.bits < 2 ^ (i + f) := by
    rw [pow_add]
    exact Nat.mul_lt_mul_of_lt_of_le hm ha hpos
  rw [UFixed.bits_satMul, UFixed.bits_ofNat_of_lt hm, hprod]
  omega

namespace Chain

/-! ## The amount at the limit -/

theorem limitPriceFloat_bits (limitPrice : U64) :
    (limitPriceFloat limitPrice).bits = limitPrice.val * 2 ^ 64 / 1000000000 := by
  unfold limitPriceFloat
  exact UFixed.bits_ofNat_safeDiv limitPrice.isLt (by norm_num) (by norm_num)

variable {tao₁ tao₂ alpha₁ alpha₂ : U64} {limit : U64F64}

/-- An amount that a quotient bounds, after a subtraction that stops at zero. -/
theorem mul_le_of_quotient {divisor numerator quotient subtracted amount : ℕ}
    (hquot : quotient ≤ numerator * 2 ^ 64 / divisor)
    (hamount : amount ≤ (quotient - subtracted) / 2 ^ 64) (hpos : amount ≠ 0) :
    divisor * (amount * 2 ^ 64 + subtracted) ≤ numerator * 2 ^ 64 := by
  have hle : amount * 2 ^ 64 + subtracted ≤ quotient := by omega
  calc divisor * (amount * 2 ^ 64 + subtracted)
      ≤ divisor * (numerator * 2 ^ 64 / divisor) := Nat.mul_le_mul_left _ (hle.trans hquot)
    _ ≤ numerator * 2 ^ 64 := Nat.mul_div_le _ _

/-- The amount in the bits of the code: the shares of the two reserves in their
sum are rounded down, and what is subtracted is one of them. -/
theorem moveAmountAtLimit_bits_le (htao₁ : 0 < tao₁.val) (hsum : tao₁.val + tao₂.val < 2 ^ 64)
    (hpos : (moveAmountAtLimit tao₁ tao₂ alpha₁ alpha₂ limit).val ≠ 0) :
    ∃ share₁ share₂ : ℕ, share₁ * (tao₁.val + tao₂.val) ≤ tao₁.val * 2 ^ 64 ∧
      tao₂.val * 2 ^ 64 ≤ share₂ * (tao₁.val + tao₂.val) + (tao₁.val + tao₂.val) ∧
      limit.bits * ((moveAmountAtLimit tao₁ tao₂ alpha₁ alpha₂ limit).val * 2 ^ 64 +
        alpha₁.val * share₂) ≤ alpha₂.val * share₁ * 2 ^ 64 := by
  have hpositive : 0 < tao₁.val + tao₂.val := by omega
  refine ⟨tao₁.val * 2 ^ 64 / (tao₁.val + tao₂.val), tao₂.val * 2 ^ 64 / (tao₁.val + tao₂.val),
    Nat.div_mul_le_self _ _, (Nat.lt_div_mul_add hpositive).le, ?_⟩
  have hshare : ∀ tao : U64, tao.val ≤ tao₁.val + tao₂.val →
      ((UFixed.ofNat tao.val : U64F64).safeDiv (.ofNat (tao₁.val + tao₂.val))).bits =
        tao.val * 2 ^ 64 / (tao₁.val + tao₂.val) ∧
      tao.val * 2 ^ 64 / (tao₁.val + tao₂.val) ≤ 2 ^ 64 := by
    intro tao hle
    refine ⟨UFixed.bits_ofNat_safeDiv tao.isLt hpositive hsum, ?_⟩
    exact Nat.div_le_of_le_mul (Nat.mul_le_mul_right _ hle)
  obtain ⟨hbits₁, hle₁⟩ := hshare tao₁ (Nat.le_add_right _ _)
  obtain ⟨hbits₂, hle₂⟩ := hshare tao₂ (Nat.le_add_left _ _)
  have htaoSum : (UFixed.ofNat tao₂.val : U64F64).satAdd (.ofNat tao₁.val) =
      .ofNat (tao₁.val + tao₂.val) := by
    rw [UFixed.satAdd_ofNat (by omega), add_comm]
  unfold moveAmountAtLimit at hpos ⊢
  simp only [htaoSum, UFixed.toWord, UFixed.bits_satSub] at hpos ⊢
  rw [UFixed.bits_ofNat_satMul alpha₁.isLt (hbits₂.trans_le hle₂), hbits₂] at hpos ⊢
  have hquot := UFixed.bits_safeDiv_le ((UFixed.ofNat alpha₂.val : U64F64).satMul
    ((UFixed.ofNat tao₁.val : U64F64).safeDiv (.ofNat (tao₁.val + tao₂.val)))) limit
  rw [UFixed.bits_ofNat_satMul alpha₂.isLt (hbits₁.trans_le hle₁), hbits₁] at hquot
  exact mul_le_of_quotient hquot (Word.val_sat_le _) hpos

/-- One unit below the amount the rate of the reserves is at least the limit:
the unit pays for the rounding of the share that is subtracted. -/
theorem moveAmountAtLimit_room (htao₁ : 0 < tao₁.val) (hsum : tao₁.val + tao₂.val < 2 ^ 64)
    (hpos : (moveAmountAtLimit tao₁ tao₂ alpha₁ alpha₂ limit).val ≠ 0) :
    (limit.bits : ℚ) * ((tao₁.val + tao₂.val) *
        ((moveAmountAtLimit tao₁ tao₂ alpha₁ alpha₂ limit).val - 1) + alpha₁.val * tao₂.val) ≤
      alpha₂.val * tao₁.val * 2 ^ 64 := by
  obtain ⟨share₁, share₂, hshare₁, hshare₂, hbits⟩ := moveAmountAtLimit_bits_le htao₁ hsum hpos
  have hbits' : (limit.bits : ℚ) * ((moveAmountAtLimit tao₁ tao₂ alpha₁ alpha₂ limit).val * 2 ^ 64 +
      alpha₁.val * share₂) ≤ alpha₂.val * share₁ * 2 ^ 64 := by
    exact_mod_cast hbits
  have hpositive : 0 < tao₁.val + tao₂.val := by omega
  refine roundedShares_le (by norm_num) ?_ (Nat.cast_nonneg _) (Nat.cast_nonneg _) ?_
    (Nat.cast_nonneg _) ?_ ?_ hbits'
  · exact_mod_cast hpositive
  · exact_mod_cast alpha₁.isLt.le
  · exact_mod_cast hshare₁
  · exact_mod_cast hshare₂

/-! ## The rate of the reserves -/

variable {A B P : Type} [DecidableEq A] {rt : Runtime A B P} {chain chain' : Chain A B P}
  {originNetuid destinationNetuid : NetUid} {limitPrice : U64}

/-- `moved_alpha` of the two formulas: what two constant product pools of the
reserves exchange `unstaked_alpha` for. -/
def movedAlpha (chain : Chain A B P) (originNetuid destinationNetuid : NetUid)
    (unstakedAlpha : ℚ) : ℚ :=
  let unstakedTao := amountOut ((chain.alphaReserve originNetuid).val : ℚ)
    (chain.taoReserve originNetuid).val unstakedAlpha
  amountOut ((chain.taoReserve destinationNetuid).val : ℚ)
    (chain.alphaReserve destinationNetuid).val unstakedTao

/-- The two constant product pools pay at least the limit price for the amount,
within one unit of each alpha. The price is in units of `10^-9`. -/
def ReachesLimit (chain : Chain A B P) (originNetuid destinationNetuid : NetUid)
    (limitPrice unstakedAlpha : ℚ) : Prop :=
  limitPrice * (unstakedAlpha - 1) ≤
    (chain.movedAlpha originNetuid destinationNetuid unstakedAlpha + 1) * 10 ^ 9

omit [DecidableEq A] in
/-- The amount of the code when neither subnet is stable. -/
theorem getMaxAmountMove_ok {maxAmount : U64} (horigin : chain.isStable originNetuid = false)
    (hdestination : chain.isStable destinationNetuid = false) (hlimit : 0 < limitPrice.val)
    (h : chain.getMaxAmountMove rt originNetuid destinationNetuid limitPrice = .ok maxAmount) :
    0 < (chain.taoReserve originNetuid).val ∧ 0 < (chain.taoReserve destinationNetuid).val ∧
      0 < (chain.alphaReserve originNetuid).val ∧
      maxAmount = moveAmountAtLimit (chain.taoReserve originNetuid)
        (chain.taoReserve destinationNetuid) (chain.alphaReserve originNetuid)
        (chain.alphaReserve destinationNetuid) (limitPriceFloat limitPrice) ∧
      maxAmount.val ≠ 0 := by
  unfold getMaxAmountMove at h
  simp only [horigin, hdestination, Bool.false_eq_true, false_and, if_false] at h
  split_ifs at h with htao halpha hprice hzero hamount
  · omega
  · cases h
    rw [not_or] at htao halpha
    exact ⟨Nat.pos_of_ne_zero htao.1, Nat.pos_of_ne_zero htao.2, Nat.pos_of_ne_zero halpha.1,
      rfl, hamount⟩

omit [DecidableEq A] in
/-- All amounts up to the one of the code reach the limit. -/
theorem getMaxAmountMove_reachesLimit {maxAmount : U64} {unstakedAlpha : ℚ}
    (horigin : chain.isStable originNetuid = false)
    (hdestination : chain.isStable destinationNetuid = false) (hlimit : 0 < limitPrice.val)
    (htao : (chain.taoReserve originNetuid).val + (chain.taoReserve destinationNetuid).val < 2 ^ 64)
    (h : chain.getMaxAmountMove rt originNetuid destinationNetuid limitPrice = .ok maxAmount)
    (hnonneg : 0 ≤ unstakedAlpha) (hle : unstakedAlpha ≤ maxAmount.val) :
    chain.ReachesLimit originNetuid destinationNetuid limitPrice.val unstakedAlpha := by
  obtain ⟨htao₁, htao₂, halpha₁, rfl, hamount⟩ :=
    getMaxAmountMove_ok horigin hdestination hlimit h
  have hroom := moveAmountAtLimit_room htao₁ htao hamount
  have hfloat : limitPrice.val * 2 ^ 64 ≤
      (limitPriceFloat limitPrice).bits * 1000000000 + 1000000000 := by
    rw [limitPriceFloat_bits]
    exact (Nat.lt_div_mul_add (by norm_num)).le
  have hsmall := (moveAmountAtLimit (chain.taoReserve originNetuid)
    (chain.taoReserve destinationNetuid) (chain.alphaReserve originNetuid)
    (chain.alphaReserve destinationNetuid) (limitPriceFloat limitPrice)).isLt
  generalize moveAmountAtLimit (chain.taoReserve originNetuid)
    (chain.taoReserve destinationNetuid) (chain.alphaReserve originNetuid)
    (chain.alphaReserve destinationNetuid) (limitPriceFloat limitPrice) = amount at *
  generalize (limitPriceFloat limitPrice).bits = bits at hroom hfloat
  unfold ReachesLimit movedAlpha
  generalize (chain.taoReserve originNetuid).val = tao₁ at *
  generalize (chain.taoReserve destinationNetuid).val = tao₂ at *
  generalize (chain.alphaReserve originNetuid).val = alpha₁ at *
  generalize (chain.alphaReserve destinationNetuid).val = alpha₂ at *
  have htao₁' : (0 : ℚ) < tao₁ := by exact_mod_cast htao₁
  have htao₂' : (0 : ℚ) < tao₂ := by exact_mod_cast htao₂
  have halpha₁' : (0 : ℚ) < alpha₁ := by exact_mod_cast halpha₁
  have halpha₂' : (0 : ℚ) ≤ alpha₂ := Nat.cast_nonneg _
  set moved := amountOut (tao₂ : ℚ) alpha₂ (amountOut (alpha₁ : ℚ) tao₁ unstakedAlpha) with hmoved
  have hmoved₀ : 0 ≤ moved :=
    amountOut_nonneg htao₂' halpha₂' (amountOut_nonneg halpha₁' htao₁'.le hnonneg)
  rcases le_total unstakedAlpha 1 with hone | hone
  · have hneg : (limitPrice.val : ℚ) * (unstakedAlpha - 1) ≤ 0 :=
      mul_nonpos_of_nonneg_of_nonpos (Nat.cast_nonneg _) (by linarith)
    have hpos : 0 ≤ (moved + 1) * 10 ^ 9 := by positivity
    exact hneg.trans hpos
  · have hbelow : 0 ≤ unstakedAlpha - 1 := by linarith
    have hrate : (bits : ℚ) / 2 ^ 64 * (unstakedAlpha - 1) ≤ moved := by
      have hscaled : (bits : ℚ) / 2 ^ 64 * ((tao₁ + tao₂) * (amount.val - 1) + alpha₁ * tao₂) ≤
          alpha₂ * tao₁ := by
        rw [div_mul_eq_mul_div, div_le_iff₀ (by norm_num)]
        exact hroom
      calc (bits : ℚ) / 2 ^ 64 * (unstakedAlpha - 1)
          ≤ amountOut (tao₂ : ℚ) alpha₂ (amountOut (alpha₁ : ℚ) tao₁ (unstakedAlpha - 1)) :=
            le_amountOut_amountOut_of_le halpha₁' htao₁' htao₂' halpha₂' (by positivity) hscaled
              hbelow (by linarith)
        _ ≤ moved := by
            refine amountOut_mono htao₂' halpha₂' ?_ ?_
            · exact amountOut_nonneg halpha₁' htao₁'.le hbelow
            · exact amountOut_mono halpha₁' htao₁'.le hbelow (by linarith)
    have hlimit' : (limitPrice.val : ℚ) ≤ (bits / 2 ^ 64 + 1 / 2 ^ 64) * 10 ^ 9 := by
      have hfloat' : (limitPrice.val : ℚ) * 2 ^ 64 ≤ bits * 1000000000 + 1000000000 := by
        exact_mod_cast hfloat
      rw [← add_div, div_mul_eq_mul_div, le_div_iff₀ (by norm_num)]
      linarith
    have hunit : 1 / 2 ^ 64 * (unstakedAlpha - 1) ≤ 1 := by
      have hsmall' : (amount.val : ℚ) ≤ 2 ^ 64 := by exact_mod_cast hsmall.le
      rw [div_mul_eq_mul_div, one_mul, div_le_one (by norm_num)]
      linarith
    calc (limitPrice.val : ℚ) * (unstakedAlpha - 1)
        ≤ (bits / 2 ^ 64 + 1 / 2 ^ 64) * 10 ^ 9 * (unstakedAlpha - 1) := by gcongr
      _ = (bits / 2 ^ 64 * (unstakedAlpha - 1) + 1 / 2 ^ 64 * (unstakedAlpha - 1)) * 10 ^ 9 := by
          ring
      _ ≤ (moved + 1) * 10 ^ 9 := by gcongr

/-! ## Moves at a limit -/

variable {originColdkey destinationColdkey originHotkey destinationHotkey : A}
  {alphaAmount tao : U64} {maybeAllowPartial : Option Bool} {checkTransferToggle : Bool}

/-- **Limit price of a move.** Between two subnets that are not stable, a move
with a limit price hands an amount to the sale that is not above the requested
one. For all of it, and for any part, the constant product pools of the reserves
before the move pay the limit price, within one unit of each alpha. -/
theorem transitionStakeInternal_reachesLimit (hlimit : 0 < limitPrice.val)
    (horigin : chain.isStable originNetuid = false)
    (hdestination : chain.isStable destinationNetuid = false)
    (htao : (chain.taoReserve originNetuid).val + (chain.taoReserve destinationNetuid).val < 2 ^ 64)
    (h : chain.transitionStakeInternal rt originColdkey destinationColdkey originHotkey
      destinationHotkey originNetuid destinationNetuid alphaAmount (some limitPrice)
      maybeAllowPartial checkTransferToggle = .ok (chain', tao)) :
    let moveAmount :=
      chain.transitionAmount rt originNetuid destinationNetuid alphaAmount (some limitPrice)
    moveAmount.val ≤ alphaAmount.val ∧
      (∃ unstaked, chain.unstakeFromSubnet rt originHotkey originColdkey originNetuid moveAmount
        rt.swap.minPrice = (unstaked, .ok tao)) ∧
      ∀ unstakedAlpha : ℚ, 0 ≤ unstakedAlpha → unstakedAlpha ≤ moveAmount.val →
        chain.ReachesLimit originNetuid destinationNetuid limitPrice.val unstakedAlpha := by
  intro moveAmount
  obtain ⟨unstaked, hunstake, -⟩ := transitionStake_ok h
  obtain ⟨maxAmount, hmax, hamount⟩ := transitionAmount_le h
  refine ⟨?_, ⟨unstaked, hunstake⟩, ?_⟩
  · rw [hamount]
    exact min_le_left _ _
  · intro unstakedAlpha hnonneg hle
    refine getMaxAmountMove_reachesLimit horigin hdestination hlimit htao hmax hnonneg ?_
    refine hle.trans ?_
    rw [hamount]
    exact_mod_cast min_le_right _ _

end Chain

end Subtensor
