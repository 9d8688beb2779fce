import Subtensor.Swap.Consistent
import Subtensor.Swap.Target

/-!
# Eliminating a position by modification

A modification that leaves dust takes the whole position away. Ticks, index,
positions and fees are those of a removal; but the amounts and the current
liquidity are settled for the requested part of the liquidity only, and at the
upper price the modification finds the position in range and the removal does
not.
-/

namespace Subtensor.Swap

open Subtensor.Lib

variable {A : Type}

/-! ## Alpha of a position -/

/-- The alpha that a liquidity between two ticks is worth at a price: the part
of the range that the price has not passed, as far as it fits. -/
def alphaWorth (tickLow tickHigh : ℤ) (liquidity : U64) (price : SqrtPrice) : ℕ :=
  let sqrtPa := TickIndex.asSqrtPriceBounded tickLow
  let sqrtPb := TickIndex.asSqrtPriceBounded tickHigh
  let least := if price.bits < sqrtPa.bits then sqrtPa
    else if sqrtPb.bits < price.bits then sqrtPb else price
  min (liquidity.val * (inverseBits least - inverseBits sqrtPb) / 2 ^ 64) (2 ^ 64 - 1)

theorem toTokenAmounts_alpha {position : Position} {price : SqrtPrice} {tao alpha : U64}
    (h : position.toTokenAmounts price = .ok (tao, alpha)) :
    alpha.val = alphaWorth position.tickLow position.tickHigh position.liquidity price := by
  unfold Position.toTokenAmounts at h
  cases hlo : TickIndex.tryToSqrtPrice position.tickLow with
  | error e =>
      rw [hlo] at h
      cases h
  | ok pa =>
      cases hhi : TickIndex.tryToSqrtPrice position.tickHigh with
      | error e =>
          rw [hlo, hhi] at h
          cases h
      | ok pb =>
          rw [hlo, hhi] at h
          have h' := Except.ok.inj h
          unfold alphaWorth
          rw [asSqrtPriceBounded_eq hlo, asSqrtPriceBounded_eq hhi]
          dsimp only
          by_cases hbelow : price.bits < pa.bits
          · rw [if_pos hbelow] at h' ⊢
            rcases Prod.mk.inj h' with ⟨-, rfl⟩
            exact toWord_satMul_ofNat _ _
          · rw [if_neg hbelow] at h' ⊢
            by_cases habove : pb.bits < price.bits
            · rw [if_pos habove] at h' ⊢
              rcases Prod.mk.inj h' with ⟨-, rfl⟩
              simp
            · rw [if_neg habove] at h' ⊢
              rcases Prod.mk.inj h' with ⟨-, rfl⟩
              exact toWord_satMul_ofNat _ _

namespace Pool

variable [DecidableEq A] {cfg : Config A} {env : Env A} {pool pool' : Pool A} {coldkey hotkey : A}
  {positionId : PositionId} {delta : I64} {r : UpdateLiquidityResult}

theorem doAddLiquidity_alpha {lo hi : ℤ} {l : U64} {id : PositionId} {tao alpha : U64}
    (h : pool.doAddLiquidity cfg env coldkey hotkey lo hi l = .ok (pool', id, tao, alpha)) :
    alpha.val = alphaWorth lo hi l (settlementPrice pool) := by
  rcases doAddLiquidity_amounts h with ⟨position, rfl, rfl, rfl, hamounts⟩
  exact toTokenAmounts_alpha hamounts

/-- The alpha of a modification is that of the requested liquidity. -/
theorem doModifyPosition_alpha
    (h : pool.doModifyPosition cfg env coldkey hotkey positionId delta = .ok (pool', r)) :
    ∃ position, pool.positions.lookup (coldkey, positionId) = some position ∧
      r.alpha.val = alphaWorth position.tickLow position.tickHigh (unsignedAbs delta)
        pool.alphaSqrtPrice ∧
      r.removed = removesPosition cfg position delta := by
  unfold doModifyPosition at h
  rcases ite_error_eq_ok.mp h with ⟨-, h⟩
  cases hlook : pool.positions.lookup (coldkey, positionId) with
  | none =>
      rw [hlook] at h
      cases h
  | some position =>
      rw [hlook] at h
      rcases ite_error_eq_ok.mp h with ⟨-, h⟩
      refine ⟨position, rfl, ?_⟩
      split at h
      · rename_i pa pb hlo hhi
        dsimp only at h
        rcases ite_error_eq_ok.mp h with ⟨-, h⟩
        rcases ite_error_eq_ok.mp h with ⟨-, h⟩
        have hbox : (pool.sqrtPriceBox pa pb delta).2 =
            if pool.alphaSqrtPrice.bits < pa.bits then pa
            else if pb.bits < pool.alphaSqrtPrice.bits then pb else pool.alphaSqrtPrice := by
          unfold sqrtPriceBox currentPriceSqrt
          split_ifs <;> rfl
        have hresult := (Prod.mk.inj (Except.ok.inj h)).2
        rw [← hresult]
        refine ⟨?_, rfl⟩
        unfold alphaWorth
        rw [asSqrtPriceBounded_eq hlo, asSqrtPriceBounded_eq hhi]
        dsimp only
        rw [← hbox]
        exact toWord_satMul_ofNat _ _
      · cases h

/-- The alpha of a removal is that of the whole position. -/
theorem doRemoveLiquidity_alpha
    (h : pool.doRemoveLiquidity coldkey positionId = .ok (pool', r)) :
    ∃ position, pool.positions.lookup (coldkey, positionId) = some position ∧
      r.alpha.val = alphaWorth position.tickLow position.tickHigh position.liquidity
        pool.alphaSqrtPrice ∧
      r.removed = true := by
  unfold doRemoveLiquidity at h
  cases hlook : pool.positions.lookup (coldkey, positionId) with
  | none =>
      rw [hlook] at h
      cases h
  | some position =>
      rw [hlook] at h
      dsimp only at h
      cases hamounts : (position.collectFees pool).1.toTokenAmounts pool.alphaSqrtPrice with
      | error e =>
          rw [hamounts] at h
          cases h
      | ok amounts =>
          rw [hamounts] at h
          cases h
          exact ⟨position, rfl, toTokenAmounts_alpha hamounts, rfl⟩

/-! ## Ticks and current liquidity -/

omit [DecidableEq A] in
/-- Liquidity at a tick does not depend on the current liquidity. -/
theorem removeLiquidityAtIndex_currentLiquidity (pool : Pool A) (liq : U64) (t : ℤ) (l : U64)
    (upper : Bool) :
    ({ pool with currentLiquidity := liq } : Pool A).removeLiquidityAtIndex t l upper =
      { pool.removeLiquidityAtIndex t l upper with currentLiquidity := liq } := by
  unfold removeLiquidityAtIndex
  cases htick : pool.ticks t with
  | none => rfl
  | some tick =>
      by_cases hgross : tick.liquidityGross.satSub l = 0
      · simp only [hgross, if_true]
      · simp only [hgross, if_false]

variable (pool) in
/-- The test of the removal: the current tick is in the range. -/
def TickInRange (position : Position) : Prop :=
  position.tickLow ≤ pool.currentBounded ∧ pool.currentBounded < position.tickHigh

variable (pool) in
/-- The test of the modification: the price is in the range, bounds included. -/
def PriceInRange (position : Position) : Prop :=
  (TickIndex.asSqrtPriceBounded position.tickLow).bits ≤ pool.alphaSqrtPrice.bits ∧
    pool.alphaSqrtPrice.bits ≤ (TickIndex.asSqrtPriceBounded position.tickHigh).bits

instance (position : Position) : Decidable (pool.TickInRange position) :=
  inferInstanceAs (Decidable (_ ∧ _))

instance (position : Position) : Decidable (pool.PriceInRange position) :=
  inferInstanceAs (Decidable (_ ∧ _))

omit [DecidableEq A] in
theorem updateLiquidityIfNeeded_removal (pool : Pool A) (position : Position) :
    (pool.updateLiquidityIfNeeded position.tickLow position.tickHigh
      (negI128 position.liquidity)).currentLiquidity.val =
      pool.currentLiquidity.val -
        if pool.TickInRange position then position.liquidity.val else 0 := by
  have hlt := position.liquidity.isLt
  have habs : (Word.sat (negI128 position.liquidity).val.natAbs : U64) = position.liquidity := by
    ext
    rw [negI128_val, Int.natAbs_neg, Int.natAbs_natCast]
    exact Word.val_sat_of_lt hlt
  unfold updateLiquidityIfNeeded
  by_cases hin : pool.TickInRange position
  · rw [if_pos hin, if_pos (show position.tickLow ≤ pool.currentBounded ∧
      pool.currentBounded < position.tickHigh from hin)]
    dsimp only
    rw [habs]
    split
    · rw [Word.val_satSub]
    · rename_i hneg
      rw [negI128_val] at hneg
      have hzero : position.liquidity.val = 0 := by omega
      have hcur := pool.currentLiquidity.isLt
      rw [Word.val_satAdd, hzero]
      omega
  · rw [if_neg hin, if_neg (show ¬(position.tickLow ≤ pool.currentBounded ∧
      pool.currentBounded < position.tickHigh) from hin)]
    rfl

theorem withoutPosition_currentLiquidity (pool : Pool A) (key : A × PositionId)
    (position : Position) :
    (pool.withoutPosition key position).currentLiquidity.val = pool.currentLiquidity.val -
      if pool.TickInRange position then position.liquidity.val else 0 := by
  rcases removeLiquidityAtIndex_frame pool position.tickLow position.liquidity false with
    ⟨_, _, h₁⟩
  rcases removeLiquidityAtIndex_frame (pool.removeLiquidityAtIndex position.tickLow
    position.liquidity false) position.tickHigh position.liquidity true with ⟨_, _, h₂⟩
  have hupdate := updateLiquidityIfNeeded_removal ((pool.removeLiquidityAtIndex
    position.tickLow position.liquidity false).removeLiquidityAtIndex position.tickHigh
    position.liquidity true) position
  refine Eq.trans hupdate ?_
  rw [h₂, h₁]
  rfl

omit [DecidableEq A] in
theorem sqrtPriceBox_currentLiquidity {position : Position} {sqrtPa sqrtPb : SqrtPrice}
    (hlo : TickIndex.tryToSqrtPrice position.tickLow = .ok sqrtPa)
    (hhi : TickIndex.tryToSqrtPrice position.tickHigh = .ok sqrtPb) (hneg : delta.val < 0) :
    (pool.sqrtPriceBox sqrtPa sqrtPb delta).1.currentLiquidity.val =
      pool.currentLiquidity.val -
        if pool.PriceInRange position then (unsignedAbs delta).val else 0 := by
  have hin : pool.PriceInRange position ↔
      sqrtPa.bits ≤ pool.alphaSqrtPrice.bits ∧ pool.alphaSqrtPrice.bits ≤ sqrtPb.bits := by
    unfold PriceInRange
    rw [asSqrtPriceBounded_eq hlo, asSqrtPriceBounded_eq hhi]
  unfold sqrtPriceBox currentPriceSqrt
  by_cases hbelow : pool.alphaSqrtPrice.bits < sqrtPa.bits
  · rw [if_pos hbelow, if_neg (hin.not.mpr (by omega))]
    rfl
  · rw [if_neg hbelow]
    by_cases habove : sqrtPb.bits < pool.alphaSqrtPrice.bits
    · rw [if_pos habove, if_neg (hin.not.mpr (by omega))]
      rfl
    · rw [if_neg habove, if_pos (hin.mpr (by omega))]
      dsimp only
      rw [if_neg (by omega), Word.val_satSub]

/-! ## The comparison -/

/-- Two ways to take a position away return the same and leave the same. -/
structure SameOutcome (res res' : Pool A × UpdateLiquidityResult) : Prop where
  returned : res.2 = res'.2
  currentLiquidity : res.1.currentLiquidity = res'.1.currentLiquidity
  ticks : res.1.ticks = res'.1.ticks
  words : res.1.tickIndexBitmapWords = res'.1.tickIndexBitmapWords
  positions : res.1.positions = res'.1.positions

/-- The requested liquidity is worth as many whole units as all of it, and the
two tests agree where current liquidity is left: both find the position out of
range, or both in range while all of it is requested or nothing is left. -/
def SettlesAlike (pool : Pool A) (position : Position) (requested : U64) : Prop :=
  taoWorth position.tickLow position.tickHigh requested pool.alphaSqrtPrice =
      taoWorth position.tickLow position.tickHigh position.liquidity pool.alphaSqrtPrice ∧
    alphaWorth position.tickLow position.tickHigh requested pool.alphaSqrtPrice =
      alphaWorth position.tickLow position.tickHigh position.liquidity pool.alphaSqrtPrice ∧
    (pool.currentLiquidity.val = 0 ∨
      (pool.TickInRange position ↔ pool.PriceInRange position) ∧
        (pool.TickInRange position → requested = position.liquidity ∨
          pool.currentLiquidity.val ≤ requested.val))

/-- Ticks, index and positions after the elimination are those of a removal. -/
theorem withModified_removed {position : Position} {key : A × PositionId} {sqrtPa sqrtPb : SqrtPrice}
    (hneg : delta.val < 0) (hrem : removesPosition cfg position delta = true) :
    pool.withModified cfg key position sqrtPa sqrtPb delta =
      { (pool.removeLiquidityAtIndex position.tickLow position.liquidity
          false).removeLiquidityAtIndex position.tickHigh position.liquidity true with
        currentLiquidity := (pool.sqrtPriceBox sqrtPa sqrtPb delta).1.currentLiquidity
        positions := pool.positions.erase key } := by
  rcases sqrtPriceBox_frame pool sqrtPa sqrtPb delta with ⟨liq, hbox⟩
  have hmoved : movedLiquidity cfg position delta = position.liquidity := if_pos hrem
  unfold withModified modifyTicks
  rw [if_pos hrem, hmoved, decide_eq_false (by omega), hbox]
  simp only [Bool.false_eq_true, if_false, removeLiquidityAtIndex_currentLiquidity]

theorem withoutPosition_ticks (pool : Pool A) (key : A × PositionId) (position : Position) :
    ∃ liq, pool.withoutPosition key position =
      { (pool.removeLiquidityAtIndex position.tickLow position.liquidity
          false).removeLiquidityAtIndex position.tickHigh position.liquidity true with
        currentLiquidity := liq
        positions := pool.positions.erase key } := by
  rcases updateLiquidityIfNeeded_frame ((pool.removeLiquidityAtIndex position.tickLow
    position.liquidity false).removeLiquidityAtIndex position.tickHigh position.liquidity true)
    position.tickLow position.tickHigh (negI128 position.liquidity) with ⟨liq, hliq⟩
  refine ⟨liq, ?_⟩
  unfold withoutPosition
  rw [hliq]

/-- The two ways to settle the current liquidity agree. -/
theorem settled_iff (cur : ℕ) {all requested : ℕ} (byTick byPrice : Prop) [Decidable byTick]
    [Decidable byPrice] (hpos : 0 < requested) (hle : requested ≤ all) :
    (cur - (if byPrice then requested else 0) = cur - if byTick then all else 0) ↔
      cur = 0 ∨ (byTick ↔ byPrice) ∧ (byTick → requested = all ∨ cur ≤ requested) := by
  by_cases ht : byTick <;> by_cases hp : byPrice
  · simp only [ht, hp, if_true, true_implies, iff_self, true_and]
    omega
  · simp only [ht, hp, if_true, if_false, iff_false, not_true, false_and, or_false]
    omega
  · simp only [ht, hp, if_true, if_false, iff_true, false_and, or_false]
    omega
  · simp only [ht, hp, if_false, false_implies, iff_self, and_self, or_true]

/-- The outcome of a removal of a position that can be modified. -/
theorem doRemoveLiquidity_of_stored {position : Position}
    (hlook : pool.positions.lookup (coldkey, positionId) = some position)
    (hlo : InBounds position.tickLow) (hhi : InBounds position.tickHigh) :
    ∃ res, pool.doRemoveLiquidity coldkey positionId = .ok res := by
  rcases TickIndex.tryToSqrtPrice_ok hlo.1 hlo.2 with ⟨pa, hpa, -⟩
  rcases TickIndex.tryToSqrtPrice_ok hhi.1 hhi.2 with ⟨pb, hpb, -⟩
  have hamounts : ∃ amounts, (position.collectFees pool).1.toTokenAmounts pool.alphaSqrtPrice =
      .ok amounts := by
    unfold Position.toTokenAmounts Position.collectFees
    dsimp only
    rw [hpa, hpb]
    exact ⟨_, rfl⟩
  rcases hamounts with ⟨amounts, hamounts⟩
  unfold doRemoveLiquidity
  rw [hlook]
  dsimp only
  rw [hamounts]
  exact ⟨_, rfl⟩

/-- **When eliminating a position equals removing it.** The removal succeeds as
well, and the outcomes are the same exactly if the two settle alike. -/
theorem eliminate_eq_remove_iff
    (h : pool.doModifyPosition cfg env coldkey hotkey positionId delta = .ok (pool', r))
    (hneg : delta.val < 0) (hremoved : r.removed = true) :
    ∃ position res, pool.positions.lookup (coldkey, positionId) = some position ∧
      pool.doRemoveLiquidity coldkey positionId = .ok res ∧
      (SameOutcome (pool', r) res ↔ pool.SettlesAlike position (unsignedAbs delta)) := by
  rcases doModifyPosition_ok h with
    ⟨position, pa, pb, hlook, -, hlo, hhi, hle, hpool, hfeeTao, hfeeAlpha⟩
  rcases doModifyPosition_tao h with ⟨position₁, hlook₁, htao, -⟩
  rcases doModifyPosition_alpha h with ⟨position₂, hlook₂, halpha, hrem⟩
  cases hlook.symm.trans hlook₁
  cases hlook.symm.trans hlook₂
  rw [hremoved] at hrem
  rcases doRemoveLiquidity_of_stored hlook (inBounds_of_tryToSqrtPrice hlo)
    (inBounds_of_tryToSqrtPrice hhi) with ⟨⟨pool'', r''⟩, hremove⟩
  refine ⟨position, (pool'', r''), hlook, hremove, ?_⟩
  rcases doRemoveLiquidity_ok hremove with ⟨position₃, hlook₃, hpool'', hfeeTao'', hfeeAlpha''⟩
  rcases doRemoveLiquidity_tao hremove with ⟨position₄, hlook₄, htao'', -⟩
  rcases doRemoveLiquidity_alpha hremove with ⟨position₅, hlook₅, halpha'', hremoved''⟩
  cases hlook.symm.trans hlook₃
  cases hlook.symm.trans hlook₄
  cases hlook.symm.trans hlook₅
  have hliq' : pool'.currentLiquidity.val = pool.currentLiquidity.val -
      if pool.PriceInRange position then (unsignedAbs delta).val else 0 := by
    rw [hpool, withModified_removed hneg hrem.symm]
    exact sqrtPriceBox_currentLiquidity hlo hhi hneg
  have hliq'' : pool''.currentLiquidity.val = pool.currentLiquidity.val -
      if pool.TickInRange position then position.liquidity.val else 0 := by
    rw [hpool'']
    exact withoutPosition_currentLiquidity _ (coldkey, positionId) position
  have hpos : 0 < (unsignedAbs delta).val := Int.natAbs_pos.mpr hneg.ne
  have hsettled := settled_iff pool.currentLiquidity.val (pool.TickInRange position)
    (pool.PriceInRange position) hpos
    (hle (by omega))
  constructor
  · rintro ⟨hreturned, hliq, -, -, -⟩
    have hreturned : r = r'' := hreturned
    have hliq : pool'.currentLiquidity = pool''.currentLiquidity := hliq
    refine ⟨?_, ?_, ?_⟩
    · rw [← htao, ← htao'', hreturned]
    · rw [← halpha, ← halpha'', hreturned]
    · rw [Word.ext_iff, hliq', hliq'', hsettled] at hliq
      rw [Word.ext_iff]
      exact hliq
  · rintro ⟨hsameTao, hsameAlpha, hsettles⟩
    rw [Word.ext_iff, ← hsettled] at hsettles
    have hsame : r = r'' := by
      rcases r with ⟨tao, alpha, feeTao, feeAlpha, removed⟩
      rcases r'' with ⟨tao'', alpha'', feeTao'', feeAlpha'', removed''⟩
      rw [UpdateLiquidityResult.mk.injEq]
      refine ⟨?_, ?_, hfeeTao.trans hfeeTao''.symm, hfeeAlpha.trans hfeeAlpha''.symm,
        hremoved.trans hremoved''.symm⟩
      · exact Word.ext (htao.trans (hsameTao.trans htao''.symm))
      · exact Word.ext (halpha.trans (hsameAlpha.trans halpha''.symm))
    have hliq : pool'.currentLiquidity = pool''.currentLiquidity :=
      Word.ext (hliq'.trans (hsettles.trans hliq''.symm))
    rcases pool.withoutPosition_ticks (coldkey, positionId) position with ⟨liq, hticks⟩
    rw [hticks] at hpool''
    rw [withModified_removed hneg hrem.symm] at hpool
    refine ⟨hsame, hliq, ?_, ?_, ?_⟩
    · rw [hpool, hpool'']
    · rw [hpool, hpool'']
    · rw [hpool, hpool'']

/-- The small pool with a position of the account `10` around the price. -/
def positionPool : Pool ℕ :=
  mockPool.step mockConfig (.addLiquidity mockEnv 10 1 (-10000) 10000 (.sat 100000))

/-- All but 500 of its liquidity is requested: the position goes, but its owner
gets less, and liquidity stays at the price. -/
theorem eliminate_ne_remove : ∃ res res',
    positionPool.doModifyPosition mockConfig mockEnv 10 1 (.sat 2) (.sat (-99500)) = .ok res ∧
      res.2.removed = true ∧
      positionPool.doRemoveLiquidity 10 (.sat 2) = .ok res' ∧
      res.2.tao ≠ res'.2.tao ∧ res.1.currentLiquidity ≠ res'.1.currentLiquidity := by
  have hmodify : (positionPool.doModifyPosition mockConfig mockEnv 10 1 (.sat 2)
      (.sat (-99500))).toOption.map (fun res => (res.2.removed, res.2.tao.val,
        res.1.currentLiquidity.val)) = some (true, 39148, 1000000500) := by decide +kernel
  have hremove : (positionPool.doRemoveLiquidity 10 (.sat 2)).toOption.map (fun res =>
      (res.2.tao.val, res.1.currentLiquidity.val)) = some (39345, 1000000000) := by decide +kernel
  rcases exists_ok_of_toOption_map hmodify with ⟨res, hok, hres⟩
  rcases exists_ok_of_toOption_map hremove with ⟨res', hok', hres'⟩
  simp only [Prod.mk.injEq] at hres hres'
  refine ⟨res, res', hok, hres.1, hok', ?_, ?_⟩
  · intro heq
    rw [heq] at hres
    omega
  · intro heq
    rw [heq] at hres
    omega

/-- All of its liquidity is requested. -/
theorem eliminate_eq_remove_iff_positionPool : ∃ res res',
    positionPool.doModifyPosition mockConfig mockEnv 10 1 (.sat 2) (.sat (-100000)) = .ok res ∧
      positionPool.doRemoveLiquidity 10 (.sat 2) = .ok res' ∧ SameOutcome res res' := by
  have hmodify : (positionPool.doModifyPosition mockConfig mockEnv 10 1 (.sat 2)
      (.sat (-100000))).toOption.map (fun res => res.2.removed) = some true := by decide +kernel
  rcases exists_ok_of_toOption_map hmodify with ⟨res, hok, hremoved⟩
  rcases eliminate_eq_remove_iff hok (by decide) hremoved with
    ⟨position, res', hlook, hok', hsame⟩
  have hstored : (positionPool.positions.lookup (10, .sat 2)).map (fun q =>
      (q.tickLow, q.tickHigh, q.liquidity)) = some (-10000, 10000, .sat 100000) := by
    decide +kernel
  rw [hlook, Option.map_some, Option.some.injEq, Prod.mk.injEq, Prod.mk.injEq] at hstored
  rcases hstored with ⟨hlow, hhigh, hliq⟩
  refine ⟨res, res', hok, hok', hsame.mpr ⟨?_, ?_, Or.inr ⟨?_, fun _ => Or.inl ?_⟩⟩⟩
  · rw [hliq]
    rfl
  · rw [hliq]
    rfl
  · unfold TickInRange PriceInRange
    rw [hlow, hhigh]
    decide +kernel
  · rw [hliq]
    rfl

end Pool

end Subtensor.Swap
