import Subtensor.Swap.Amounts
import Subtensor.Swap.SwapSpec

/-!
# The target of a step

Every quotient and product of a step is bracketed once: the target price, the
input that takes the price to another price, and the two fees.
-/

namespace Subtensor.Swap

open Subtensor.Lib

variable {A : Type}

/-! ## Prices of alpha -/

/-- The bits of `1 / p`. -/
def inverseBits (p : SqrtPrice) : ℕ := (Position.one.safeDiv p).bits

theorem bits_one_safeDiv (p : SqrtPrice) : (Position.one.safeDiv p).bits = inverseBits p := rfl

theorem inverseBits_eq (p : SqrtPrice) :
    inverseBits p = if p.bits ≤ 1 then 0 else 2 ^ 128 / p.bits := by
  have hone : Position.one.bits * 2 ^ 64 = 2 ^ 128 := by
    unfold Position.one
    rw [UFixed.bits_ofNat_of_lt (by norm_num)]
    norm_num
  unfold inverseBits UFixed.safeDiv UFixed.checkedDiv
  rw [hone]
  by_cases h0 : p.bits = 0
  · simp [h0]
  · rw [if_neg h0]
    by_cases h1 : p.bits ≤ 1
    · have h : p.bits = 1 := by omega
      simp [h]
    · have hlt : 2 ^ 128 / p.bits < 2 ^ 128 := Nat.div_lt_self (by norm_num) (by omega)
      rw [if_neg h1, dif_pos hlt]
      rfl

theorem inverseBits_of_lt {p : SqrtPrice} (h : 1 < p.bits) : inverseBits p = 2 ^ 128 / p.bits := by
  rw [inverseBits_eq, if_neg (not_le.mpr h)]

theorem inverseBits_mul_le (p : SqrtPrice) : inverseBits p * p.bits ≤ 2 ^ 128 := by
  rw [inverseBits_eq]
  split
  · simp
  · exact Nat.div_mul_le_self _ _

/-! ## The input of a step -/

theorem deltaIn_buy (l : U64) (curr next : SqrtPrice) :
    (deltaIn .buy (.ofNat l.val) curr next).val =
      min (l.val * (next.bits - curr.bits) / 2 ^ 64) (2 ^ 64 - 1) := by
  unfold deltaIn
  exact toWord_satMul_ofNat l _

theorem deltaIn_sell (l : U64) (curr next : SqrtPrice) :
    (deltaIn .sell (.ofNat l.val) curr next).val =
      min (l.val * (inverseBits next - inverseBits curr) / 2 ^ 64) (2 ^ 64 - 1) := by
  unfold deltaIn
  exact toWord_satMul_ofNat l _

/-! ## The target -/

theorem ofNat_eq_zero {l : U64} : (UFixed.ofNat l.val : U64F64) = 0 ↔ l.val = 0 := by
  have hbits : (UFixed.ofNat l.val : U64F64).bits = l.val * 2 ^ 64 :=
    UFixed.bits_ofNat_of_lt l.isLt
  rw [UFixed.ext_iff, hbits]
  show l.val * 2 ^ 64 = 0 ↔ _
  omega

theorem bits_safeDiv_liquidity (d l : U64) (hl : l.val ≠ 0) :
    ((UFixed.ofNat d.val : U64F64).safeDiv (.ofNat l.val)).bits = d.val * 2 ^ 64 / l.val := by
  have hd : (UFixed.ofNat d.val : U64F64).bits = d.val * 2 ^ 64 := UFixed.bits_ofNat_of_lt d.isLt
  rw [UFixed.bits_safeDiv_ofNat _ (Nat.pos_of_ne_zero hl) l.isLt, hd]

theorem sqrtPriceTarget_buy {l : U64} (hl : l.val ≠ 0) (curr : SqrtPrice) (d : U64) :
    (sqrtPriceTarget .buy (.ofNat l.val) curr d).bits =
      min (d.val * 2 ^ 64 / l.val + curr.bits) (2 ^ 128 - 1) := by
  unfold sqrtPriceTarget
  rw [if_neg (ofNat_eq_zero.not.mpr hl)]
  dsimp only
  rw [UFixed.bits_satAdd, bits_safeDiv_liquidity d l hl]

/-- The inverse of the target of a sell, before it is turned over. -/
def targetInverse (l : U64) (curr : SqrtPrice) (d : U64) : ℕ :=
  min (d.val * 2 ^ 64 / l.val + inverseBits curr) (2 ^ 128 - 1)

theorem bits_targetInverse {l : U64} (hl : l.val ≠ 0) (curr : SqrtPrice) (d : U64) :
    (((UFixed.ofNat d.val : U64F64).safeDiv (.ofNat l.val)).satAdd
      (Position.one.safeDiv curr)).bits = targetInverse l curr d := by
  rw [UFixed.bits_satAdd, bits_safeDiv_liquidity d l hl, ← inverseBits]
  rfl

theorem sqrtPriceTarget_sell_eq {liquidity : U64F64} (hl : liquidity ≠ 0) (curr : SqrtPrice)
    (d : U64) :
    sqrtPriceTarget .sell liquidity curr d = Position.one.safeDiv
      (((UFixed.ofNat d.val : U64F64).safeDiv liquidity).satAdd (Position.one.safeDiv curr)) := by
  unfold sqrtPriceTarget
  rw [if_neg hl]

theorem sqrtPriceTarget_sell {l : U64} (hl : l.val ≠ 0) (curr : SqrtPrice) (d : U64) :
    (sqrtPriceTarget .sell (.ofNat l.val) curr d).bits =
      if targetInverse l curr d ≤ 1 then 0 else 2 ^ 128 / targetInverse l curr d := by
  rw [sqrtPriceTarget_sell_eq (ofNat_eq_zero.not.mpr hl), bits_one_safeDiv, inverseBits_eq,
    bits_targetInverse hl]

theorem sqrtPriceTarget_dry {l : U64} (hl : l.val = 0) (orderType : OrderType) (curr : SqrtPrice)
    (d : U64) :
    sqrtPriceTarget orderType (.ofNat l.val) curr d =
      match orderType with
      | .sell => .ofNat minPrice.val
      | .buy => .ofNat maxPrice.val := by
  unfold sqrtPriceTarget
  cases orderType with
  | sell => exact if_pos (ofNat_eq_zero.mpr hl)
  | buy => exact if_pos (ofNat_eq_zero.mpr hl)

/-! ## The two fees -/

namespace Pool

variable (pool : Pool A)

theorem calculateFeeAmount_val (amount : U64) :
    (pool.calculateFeeAmount amount).val =
      amount.val * (pool.feeRate.val * 2 ^ 64 / 65535) / 2 ^ 64 := by
  have hr := pool.feeRate.isLt
  have hrate : ((UFixed.ofNat pool.feeRate.val : U64F64).safeDiv u16Max).bits =
      pool.feeRate.val * 2 ^ 64 / 65535 := by
    unfold u16Max
    rw [UFixed.bits_safeDiv_ofNat _ (by norm_num) (by norm_num),
      UFixed.bits_ofNat_of_lt (hr.trans (by norm_num))]
  have hle : amount.val * (pool.feeRate.val * 2 ^ 64 / 65535) / 2 ^ 64 ≤ amount.val := by
    refine Nat.div_le_of_le_mul ?_
    rw [mul_comm]
    exact Nat.mul_le_mul_right _ (by omega)
  have hlt := amount.isLt
  unfold calculateFeeAmount
  dsimp only
  rw [toWord_satMul_ofNat, hrate]
  omega

theorem recalculateFee_val (hr : pool.feeRate.val < 65535) (d : U64) :
    (pool.recalculateFee d).val =
      min (d.val * (pool.feeRate.val * 2 ^ 64 / (65535 - pool.feeRate.val)) / 2 ^ 64)
        (2 ^ 64 - 1) := by
  have hbits : (UFixed.ofNat pool.feeRate.val : U64F64).bits = pool.feeRate.val * 2 ^ 64 :=
    UFixed.bits_ofNat_of_lt (hr.trans (by norm_num))
  have hrest : u16Max.satSub (.ofNat pool.feeRate.val) =
      (.ofNat (65535 - pool.feeRate.val) : U64F64) := by
    have hmax : u16Max.bits = 65535 * 2 ^ 64 := UFixed.bits_ofNat_of_lt (by norm_num)
    ext
    rw [UFixed.bits_satSub, hmax, hbits, UFixed.bits_ofNat_of_lt (by omega), Nat.sub_mul]
  have hrate : ((UFixed.ofNat pool.feeRate.val : U64F64).safeDiv
      (u16Max.satSub (.ofNat pool.feeRate.val))).bits =
      pool.feeRate.val * 2 ^ 64 / (65535 - pool.feeRate.val) := by
    rw [hrest, UFixed.bits_safeDiv_ofNat _ (by omega) (by omega), hbits]
  unfold recalculateFee
  dsimp only
  rw [toWord_satMul_ofNat, hrate]

end Pool

/-! ## What a step takes -/

namespace SwapStep

/-- A step takes all that it can and reaches its target, or it is cut at a
nearer price and takes what that price costs. -/
theorem determineAction_amounts (pool : Pool A) (step : SwapStep) :
    ((step.determineAction pool).finalPrice = step.targetSqrtPrice ∧
      (step.determineAction pool).deltaIn = step.possibleDeltaIn ∧
      (step.determineAction pool).fee = step.fee) ∨
    (¬priceIsCloser step.orderType step.targetSqrtPrice (step.determineAction pool).finalPrice ∧
      (step.determineAction pool).deltaIn =
        step.deltaInTo (step.determineAction pool).finalPrice ∧
      (step.determineAction pool).fee =
        pool.recalculateFee (step.deltaInTo (step.determineAction pool).finalPrice)) := by
  have hfinal : (step.determineAction pool).finalPrice = (step.stopAtClosest pool).finalPrice ∧
      (step.determineAction pool).deltaIn = (step.stopAtClosest pool).deltaIn ∧
      (step.determineAction pool).fee = (step.stopAtClosest pool).fee := by
    unfold determineAction
    dsimp only
    split
    · exact ⟨rfl, rfl, rfl⟩
    · exact ⟨rfl, rfl, rfl⟩
  rw [hfinal.1, hfinal.2.1, hfinal.2.2]
  unfold stopAtClosest
  dsimp only
  by_cases htarget : priceIsCloser step.orderType step.targetSqrtPrice step.limitSqrtPrice ∧
      priceIsCloser step.orderType step.targetSqrtPrice step.edgeSqrtPrice
  · rw [if_pos htarget]
    exact Or.inl ⟨rfl, rfl, rfl⟩
  · rw [if_neg htarget]
    right
    by_cases hlimit : priceIsCloser step.orderType step.limitSqrtPrice step.targetSqrtPrice ∧
        priceIsCloser step.orderType step.limitSqrtPrice step.edgeSqrtPrice
    · rw [if_pos hlimit]
      refine ⟨?_, rfl, rfl⟩
      unfold priceIsCloser at htarget hlimit ⊢
      cases horder : step.orderType <;> simp [horder] at htarget hlimit ⊢ <;> omega
    · rw [if_neg hlimit]
      refine ⟨?_, rfl, rfl⟩
      unfold priceIsCloser at htarget hlimit ⊢
      cases horder : step.orderType <;> simp [horder] at htarget hlimit ⊢ <;> omega

end SwapStep

end Subtensor.Swap
