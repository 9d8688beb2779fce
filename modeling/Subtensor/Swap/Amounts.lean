import Subtensor.Swap.OpSpec

/-!
# TAO of a position

What the TAO side of a position is worth at a price, and that the three calls
of liquidity providers move as much TAO.
-/

namespace Subtensor.Swap

open Subtensor.Lib

variable {A : Type}

/-- The TAO that a liquidity between two ticks is worth at a price: the part
of the range that the price has passed, as far as it fits. -/
def taoWorth (tickLow tickHigh : ℤ) (liquidity : U64) (price : SqrtPrice) : ℕ :=
  min (liquidity.val * (min price.bits (TickIndex.asSqrtPriceBounded tickHigh).bits -
    (TickIndex.asSqrtPriceBounded tickLow).bits) / 2 ^ 64) (2 ^ 64 - 1)

/-- The TAO fees that a position has not collected yet. -/
def taoFeesDue (pool : Pool A) (position : Position) : U64 :=
  Position.feeOf position.liquidity (pool.feesInRange position true) position.feesTao

/-- The price at which a new position is settled; at the two ends of the range
of ticks it is reset to that of the tick. -/
def settlementPrice (pool : Pool A) : SqrtPrice :=
  (pool.clampSqrtPrice pool.currentBounded).alphaSqrtPrice

/-! ## Amounts -/

theorem asSqrtPriceBounded_eq {t : ℤ} {p : SqrtPrice} (h : TickIndex.tryToSqrtPrice t = .ok p) :
    TickIndex.asSqrtPriceBounded t = p := by
  unfold TickIndex.asSqrtPriceBounded
  rw [h]

theorem toWord_satMul_ofNat (l : U64) (d : U64F64) :
    (((UFixed.ofNat l.val : U64F64).satMul d).toWord 64).val =
      min (l.val * d.bits / 2 ^ 64) (2 ^ 64 - 1) := by
  have hofNat : (UFixed.ofNat l.val : U64F64).bits = l.val * 2 ^ 64 :=
    UFixed.bits_ofNat_of_lt l.isLt
  have hmul : ((UFixed.ofNat l.val : U64F64).satMul d).bits =
      min (l.val * d.bits) (2 ^ 128 - 1) := by
    rw [UFixed.bits_satMul, hofNat, mul_right_comm, Nat.mul_div_cancel _ (Nat.two_pow_pos 64)]
  show min (((UFixed.ofNat l.val : U64F64).satMul d).bits / 2 ^ 64) (2 ^ 64 - 1) = _
  rw [hmul]
  omega

/-- A difference of prices that is what the price has passed of the range. -/
theorem toWord_taoWorth {lo hi : ℤ} {pa pb price : SqrtPrice} {d : U64F64} (l : U64)
    (hlo : TickIndex.tryToSqrtPrice lo = .ok pa) (hhi : TickIndex.tryToSqrtPrice hi = .ok pb)
    (hd : d.bits = min price.bits pb.bits - pa.bits) :
    (((UFixed.ofNat l.val : U64F64).satMul d).toWord 64).val = taoWorth lo hi l price := by
  unfold taoWorth
  rw [toWord_satMul_ofNat, hd, asSqrtPriceBounded_eq hlo, asSqrtPriceBounded_eq hhi]

theorem toTokenAmounts_tao {position : Position} {price : SqrtPrice} {tao alpha : U64}
    (h : position.toTokenAmounts price = .ok (tao, alpha)) :
    tao.val = taoWorth position.tickLow position.tickHigh position.liquidity price := by
  unfold Position.toTokenAmounts at h
  cases hlo : TickIndex.tryToSqrtPrice position.tickLow with
  | error e =>
      rw [hlo] at h
      cases h
  | ok pa =>
      cases hhi : TickIndex.tryToSqrtPrice position.tickHigh with
      | error e =>
          rw [hlo, hhi] at h
          cases h
      | ok pb =>
          rw [hlo, hhi] at h
          have h' := Except.ok.inj h
          by_cases hbelow : price.bits < pa.bits
          · rw [if_pos hbelow] at h'
            obtain ⟨rfl, -⟩ := Prod.mk.inj h'
            have hzero : min price.bits pb.bits - pa.bits = 0 := by omega
            unfold taoWorth
            rw [asSqrtPriceBounded_eq hlo, asSqrtPriceBounded_eq hhi, hzero, mul_zero,
              Nat.zero_div, Nat.zero_min]
            rfl
          · rw [if_neg hbelow] at h'
            by_cases habove : pb.bits < price.bits
            · rw [if_pos habove] at h'
              obtain ⟨rfl, -⟩ := Prod.mk.inj h'
              refine toWord_taoWorth _ hlo hhi ?_
              show pb.bits - pa.bits = _
              rw [min_eq_right habove.le]
            · rw [if_neg habove] at h'
              obtain ⟨rfl, -⟩ := Prod.mk.inj h'
              refine toWord_taoWorth _ hlo hhi ?_
              show price.bits - pa.bits = _
              rw [min_eq_left (not_lt.mp habove)]

/-! ## Calls -/

namespace Pool

variable [DecidableEq A] {cfg : Config A} {env : Env A} {pool pool' : Pool A} {coldkey hotkey : A}

omit [DecidableEq A] in
/-- Adding liquidity at ticks resets the price at the ends only. -/
theorem addLiquidityToTicks_price (pool : Pool A) (lo hi : ℤ) (l : U64) :
    (pool.addLiquidityToTicks lo hi l).alphaSqrtPrice = settlementPrice pool := by
  let q := (pool.addLiquidityAtIndex lo l false).addLiquidityAtIndex hi l true
  have hclamp : (q.clampSqrtPrice q.currentBounded).alphaSqrtPrice = settlementPrice pool := by
    show (q.clampSqrtPrice pool.currentBounded).alphaSqrtPrice = _
    unfold settlementPrice clampSqrtPrice
    split_ifs <;> rfl
  rw [← hclamp]
  show ((q.clampSqrtPrice q.currentBounded).updateLiquidityIfNeeded lo hi
    (asI128 l)).alphaSqrtPrice = _
  unfold updateLiquidityIfNeeded
  split_ifs <;> rfl

/-- The amounts of an addition are those of the new position, at the price at
which it is settled. -/
theorem doAddLiquidity_amounts {lo hi : ℤ} {l : U64} {id : PositionId} {tao alpha : U64}
    (h : pool.doAddLiquidity cfg env coldkey hotkey lo hi l = .ok (pool', id, tao, alpha)) :
    ∃ position : Position, position.tickLow = lo ∧ position.tickHigh = hi ∧
      position.liquidity = l ∧
      position.toTokenAmounts (settlementPrice pool) = .ok (tao, alpha) := by
  unfold doAddLiquidity at h
  obtain ⟨-, h⟩ := ite_error_eq_ok.mp h
  cases hadd : pool.addLiquidityNotInsert cfg coldkey lo hi l with
  | error e =>
      rw [hadd] at h
      cases h
  | ok r =>
      obtain ⟨q, position, tao', alpha'⟩ := r
      rw [hadd] at h
      obtain ⟨-, h⟩ := ite_error_eq_ok.mp h
      obtain ⟨-, h⟩ := ite_error_eq_ok.mp h
      cases h
      unfold addLiquidityNotInsert at hadd
      obtain ⟨-, hadd⟩ := ite_error_eq_ok.mp hadd
      extract_lets q₁ id q₂ new at hadd
      have hprice : q₂.currentPriceSqrt = settlementPrice pool :=
        pool.addLiquidityToTicks_price lo hi l
      rw [hprice] at hadd
      cases hamounts : new.toTokenAmounts (settlementPrice pool) with
      | error e =>
          rw [hamounts] at hadd
          cases hadd
      | ok amounts =>
          obtain ⟨tao₀, alpha₀⟩ := amounts
          rw [hamounts] at hadd
          simp only [Except.ok.injEq, Prod.mk.injEq] at hadd
          obtain ⟨-, -, rfl, rfl⟩ := hadd
          exact ⟨new, rfl, rfl, rfl, hamounts⟩

theorem doAddLiquidity_tao {lo hi : ℤ} {l : U64} {id : PositionId} {tao alpha : U64}
    (h : pool.doAddLiquidity cfg env coldkey hotkey lo hi l = .ok (pool', id, tao, alpha)) :
    tao.val = taoWorth lo hi l (settlementPrice pool) := by
  obtain ⟨position, rfl, rfl, rfl, hamounts⟩ := doAddLiquidity_amounts h
  exact toTokenAmounts_tao hamounts

theorem doRemoveLiquidity_tao {positionId : PositionId} {r : UpdateLiquidityResult}
    (h : pool.doRemoveLiquidity coldkey positionId = .ok (pool', r)) :
    ∃ position, pool.positions.lookup (coldkey, positionId) = some position ∧
      r.tao.val = taoWorth position.tickLow position.tickHigh position.liquidity
        pool.alphaSqrtPrice ∧
      r.feeTao = taoFeesDue pool position := by
  unfold doRemoveLiquidity at h
  cases hlook : pool.positions.lookup (coldkey, positionId) with
  | none =>
      rw [hlook] at h
      cases h
  | some position =>
      rw [hlook] at h
      dsimp only at h
      cases hamounts : (position.collectFees pool).1.toTokenAmounts pool.alphaSqrtPrice with
      | error e =>
          rw [hamounts] at h
          cases h
      | ok amounts =>
          rw [hamounts] at h
          cases h
          exact ⟨position, rfl, toTokenAmounts_tao hamounts, rfl⟩

theorem doModifyPosition_tao {positionId : PositionId} {delta : I64} {r : UpdateLiquidityResult}
    (h : pool.doModifyPosition cfg env coldkey hotkey positionId delta = .ok (pool', r)) :
    ∃ position, pool.positions.lookup (coldkey, positionId) = some position ∧
      r.tao.val = taoWorth position.tickLow position.tickHigh (unsignedAbs delta)
        pool.alphaSqrtPrice ∧
      r.feeTao = taoFeesDue pool position := by
  unfold doModifyPosition at h
  obtain ⟨-, h⟩ := ite_error_eq_ok.mp h
  cases hlook : pool.positions.lookup (coldkey, positionId) with
  | none =>
      rw [hlook] at h
      cases h
  | some position =>
      rw [hlook] at h
      obtain ⟨-, h⟩ := ite_error_eq_ok.mp h
      refine ⟨position, rfl, ?_⟩
      split at h
      · rename_i pa pb hlo hhi
        dsimp only at h
        obtain ⟨-, h⟩ := ite_error_eq_ok.mp h
        obtain ⟨-, h⟩ := ite_error_eq_ok.mp h
        obtain ⟨liq, hframe⟩ := sqrtPriceBox_frame pool pa pb delta
        have hbox : ((pool.sqrtPriceBox pa pb delta).2.satSub pa).bits =
            min pool.alphaSqrtPrice.bits pb.bits - pa.bits := by
          unfold sqrtPriceBox currentPriceSqrt
          by_cases hbelow : pool.alphaSqrtPrice.bits < pa.bits
          · rw [if_pos hbelow]
            show pa.bits - pa.bits = _
            omega
          · rw [if_neg hbelow]
            by_cases habove : pb.bits < pool.alphaSqrtPrice.bits
            · rw [if_pos habove]
              show pb.bits - pa.bits = _
              omega
            · rw [if_neg habove]
              show pool.alphaSqrtPrice.bits - pa.bits = _
              omega
        have hresult := (Prod.mk.inj (Except.ok.inj h)).2
        rw [← hresult]
        refine ⟨toWord_taoWorth _ hlo hhi hbox, ?_⟩
        show (position.collectFees (pool.sqrtPriceBox pa pb delta).1).2.1 = _
        rw [hframe]
        rfl
      · cases h

end Pool

end Subtensor.Swap
