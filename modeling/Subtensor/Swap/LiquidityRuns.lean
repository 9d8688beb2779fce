import Subtensor.Swap.ActiveLiquidity

/-!
# Active liquidity in every run

Positions that come, go and change keep the current liquidity that of the
current tick, and so do swaps that neither start nor end with the price on an
active tick. Then the current liquidity is also the sum of the net liquidity of
all ticks up to the current one.
-/

namespace Subtensor.Swap

open Subtensor.Lib Subtensor.Lib.StorageMap

variable {A : Type}

/-- What a range gives to trades at a tick. -/
def rangeLiquidity (lo hi : ℤ) (l : U64) (t : ℤ) : ℕ := if lo ≤ t ∧ t < hi then l.val else 0

theorem Position.liquidityAt_eq (position : Position) (t : ℤ) : position.liquidityAt t =
    rangeLiquidity position.tickLow position.tickHigh position.liquidity t := rfl

/-- The range of a new position is in order. -/
def Op.RangeOrdered : Op A → Prop
  | .addLiquidity _ _ _ tickLow tickHigh _ => tickLow ≤ tickHigh
  | _ => True

namespace Pool

variable [DecidableEq A] {cfg : Config A} {pool q : Pool A} {key : A × PositionId}

/-! ## What is carried along -/

/-- Everything that a run keeps. -/
structure Tracked (pool : Pool A) : Prop where
  consistent : pool.Consistent
  ids : pool.IdsIssued
  ledger : pool.Ledger
  ordered : pool.RangesOrdered
  fits : ∀ t, pool.positionsLiquidity t < 2 ^ 64
  current : pool.currentLiquidity.val = pool.positionsLiquidity pool.currentTick

theorem Tracked.sound (h : pool.Tracked) : pool.Sound where
  consistent := h.consistent
  accounting := h.ledger.tickAccounting h.consistent.indexed
  ordered := h.ordered
  fits := h.fits

/-- The liquidity that a call is to add at a tick. -/
def addedLiquidity (pool : Pool A) (op : Op A) (t : ℤ) : ℕ :=
  match op with
  | .addLiquidity _ _ _ tickLow tickHigh liquidity => rangeLiquidity tickLow tickHigh liquidity t
  | .modifyPosition _ coldkey _ positionId liquidityDelta =>
      match pool.positions.lookup (coldkey, positionId) with
      | some position =>
          if 0 < liquidityDelta.val then
            rangeLiquidity position.tickLow position.tickHigh (unsignedAbs liquidityDelta) t
          else 0
      | none => 0
  | _ => 0

/-- Price and current tick say the same about what the call changes. A swap does
not turn back, and a sale keeps off the active ticks at its ends. A modification
is not on an active tick either, and it removes an active position only as a
whole. -/
def PriceClear (cfg : Config A) (pool : Pool A) (op : Op A) : Prop :=
  match op with
  | .swap _ orderType _ limitSqrtPrice simulate =>
      simulate = true ∨ (pool.feeRate.val < 65535 ∧ pool.LimitAhead orderType limitSqrtPrice ∧
        (orderType = .sell → ¬pool.OnTick ∧ ¬(pool.step cfg op).OnTick))
  | .modifyPosition _ coldkey _ positionId liquidityDelta =>
      ¬pool.OnTick ∧ ∀ position, pool.positions.lookup (coldkey, positionId) = some position →
        removesPosition cfg position liquidityDelta = true → pool.TickInRange position →
          unsignedAbs liquidityDelta = position.liquidity
  | _ => True

/-- A call that keeps the current liquidity that of the current tick. -/
structure Tracks (cfg : Config A) (pool : Pool A) (op : Op A) : Prop where
  fits : pool.Fits op
  liquidity : ∀ t, pool.positionsLiquidity t + pool.addedLiquidity op t < 2 ^ 64
  user : ¬op.Injects
  range : op.RangeOrdered
  price : pool.PriceClear cfg op

/-! ## A position comes or goes -/

theorem withPosition_positionsLiquidity {owner : A} {lo hi : ℤ} {l : U64}
    (hfresh : pool.positions.lookup (owner, pool.nextId) = none) (t : ℤ) :
    (pool.withPosition owner lo hi l).positionsLiquidity t =
      rangeLiquidity lo hi l t + pool.positionsLiquidity t :=
  sumBy_insert_new _ _ hfresh

theorem withPosition_currentTick (owner : A) (lo hi : ℤ) (l : U64) :
    (pool.withPosition owner lo hi l).currentTick = pool.currentTick := by
  rcases addLiquidityToTicks_frame pool lo hi l with ⟨price, liq, hframe⟩
  unfold withPosition
  dsimp only
  rw [hframe]
  rfl

theorem withPosition_current {owner : A} {lo hi : ℤ} {l : U64} (hb : InBounds pool.currentTick)
    (hfresh : pool.positions.lookup (owner, pool.nextId) = none)
    (hfits : ∀ t, pool.positionsLiquidity t + rangeLiquidity lo hi l t < 2 ^ 64)
    (h : pool.currentLiquidity.val = pool.positionsLiquidity pool.currentTick) :
    (pool.withPosition owner lo hi l).currentLiquidity.val =
      (pool.withPosition owner lo hi l).positionsLiquidity
        (pool.withPosition owner lo hi l).currentTick := by
  have hfit := hfits pool.currentTick
  have hcurrent : (pool.withPosition owner lo hi l).currentLiquidity.val = _ :=
    addLiquidityToTicks_currentLiquidity pool lo hi l
  rw [hcurrent, withPosition_positionsLiquidity hfresh, withPosition_currentTick,
    currentBounded_eq hb, h]
  unfold rangeLiquidity at hfit ⊢
  split_ifs at hfit ⊢ <;> omega

theorem RangesOrdered.withPosition (h : pool.RangesOrdered) {owner : A} {lo hi : ℤ} {l : U64}
    (hlo : InBounds lo) (hhi : InBounds hi) (hle : lo ≤ hi) :
    (pool.withPosition owner lo hi l).RangesOrdered := by
  intro k position hlook
  rcases eq_or_ne k (owner, pool.nextId) with rfl | hne
  · cases (AList.lookup_insert pool.positions).symm.trans hlook
    exact ⟨hlo.1, hle, hhi.2⟩
  · exact h k position ((AList.lookup_insert_ne hne).symm.trans hlook)

theorem RangesOrdered.erase (h : pool.RangesOrdered)
    (hpositions : q.positions = pool.positions.erase key) : q.RangesOrdered := by
  intro k position hlook
  rw [hpositions] at hlook
  rcases eq_or_ne k key with rfl | hne
  · rw [AList.lookup_erase] at hlook
    cases hlook
  · rw [AList.lookup_erase_ne hne] at hlook
    exact h k position hlook

theorem positionsLiquidity_erase {position : Position}
    (hlook : pool.positions.lookup key = some position)
    (hpositions : q.positions = pool.positions.erase key) (t : ℤ) :
    pool.positionsLiquidity t = position.liquidityAt t + q.positionsLiquidity t := by
  unfold positionsLiquidity
  rw [hpositions, sumBy_erase _ hlook]

omit [DecidableEq A] in
theorem tickInRange_iff (h : pool.Consistent) (position : Position) :
    pool.TickInRange position ↔
      position.tickLow ≤ pool.currentTick ∧ pool.currentTick < position.tickHigh := by
  unfold TickInRange
  rw [h.currentBounded]

theorem Tracked.withoutPosition (h : pool.Tracked) {position : Position}
    (hlook : pool.positions.lookup key = some position) :
    (pool.withoutPosition key position).currentLiquidity.val =
      (pool.withoutPosition key position).positionsLiquidity
        (pool.withoutPosition key position).currentTick := by
  have hcurrent := withoutPosition_currentLiquidity pool key position
  rcases withoutPosition_frame pool key position with ⟨ticks, words, liq, hframe⟩
  have hsum := positionsLiquidity_erase hlook (q := pool.withoutPosition key position)
    (by rw [hframe]) pool.currentTick
  have htick : (pool.withoutPosition key position).currentTick = pool.currentTick := by
    rw [hframe]
  rw [hcurrent, htick, h.current, hsum]
  simp only [tickInRange_iff h.consistent]
  unfold Position.liquidityAt
  omega

/-! ## A position changes -/

/-- Between the active ticks price and tick are in the same ranges. -/
theorem Tracked.priceInRange_iff (h : pool.Tracked) {position : Position}
    (hlook : pool.positions.lookup key = some position) (hoff : ¬pool.OnTick)
    (hlo : InBounds position.tickLow) (hhi : InBounds position.tickHigh) :
    pool.PriceInRange position ↔ pool.TickInRange position := by
  have hin := h.consistent.inBounds
  have hactive : ∀ t, position.EndsAt t → t = pool.currentTick →
      TickIndex.priceBits t < pool.alphaSqrtPrice.bits := by
    rintro t hends rfl
    have hsome := (h.sound.accounting.exists_iff _).mpr ⟨key, position, hlook, hends⟩
    exact not_le.mp fun hle => hoff ⟨hsome, hle⟩
  have hgalois := (TickIndex.le_fromSqrtPriceBounded pool.alphaSqrtPrice).2
  rw [← h.consistent.tick] at hgalois
  rw [tickInRange_iff h.consistent]
  unfold PriceInRange
  rw [TickIndex.asSqrtPriceBounded_bits hlo.1 hlo.2, TickIndex.asSqrtPriceBounded_bits hhi.1 hhi.2]
  constructor
  · rintro ⟨hlow, hhigh⟩
    refine ⟨?_, ?_⟩
    · rcases hlo.1.lt_or_eq with hlt | heq
      · exact (hgalois _ hlt hlo.2).mpr hlow
      · exact heq ▸ hin.1
    · by_contra hnot
      rcases (not_lt.mp hnot).lt_or_eq with hlt | heq
      · have hprev := TickIndex.priceBits_strictMono hhi.1 hlt hin.2
        have hprice := h.consistent.priceBits_le (hhi.1.trans_lt hlt)
        omega
      · have hprice := hactive _ (Or.inr rfl) heq
        omega
  · rintro ⟨hlow, hhigh⟩
    refine ⟨?_, ?_⟩
    · rcases hin.1.lt_or_eq with hlt | heq
      · exact (TickIndex.priceBits_mono hlo.1 hlow hin.2).trans (h.consistent.priceBits_le hlt)
      · exact (hactive _ (Or.inl rfl) (le_antisymm hlow (heq ▸ hlo.1))).le
    · have hbelow := (hgalois _ (hin.1.trans_lt hhigh) hhi.2).not.mp (not_le.mpr hhigh)
      exact (not_le.mp hbelow).le

omit [DecidableEq A] in
theorem sqrtPriceBox_current {position : Position} {sqrtPa sqrtPb : SqrtPrice} {delta : I64}
    (hlo : TickIndex.tryToSqrtPrice position.tickLow = .ok sqrtPa)
    (hhi : TickIndex.tryToSqrtPrice position.tickHigh = .ok sqrtPb) :
    (pool.sqrtPriceBox sqrtPa sqrtPb delta).1.currentLiquidity =
      if pool.PriceInRange position then
        if 0 < delta.val then pool.currentLiquidity.satAdd (unsignedAbs delta)
        else pool.currentLiquidity.satSub (unsignedAbs delta)
      else pool.currentLiquidity := by
  have hin : pool.PriceInRange position ↔
      sqrtPa.bits ≤ pool.alphaSqrtPrice.bits ∧ pool.alphaSqrtPrice.bits ≤ sqrtPb.bits := by
    unfold PriceInRange
    rw [asSqrtPriceBounded_eq hlo, asSqrtPriceBounded_eq hhi]
  unfold sqrtPriceBox currentPriceSqrt
  by_cases hbelow : pool.alphaSqrtPrice.bits < sqrtPa.bits
  · rw [if_pos hbelow, if_neg (hin.not.mpr (by omega))]
  · rw [if_neg hbelow]
    by_cases habove : sqrtPb.bits < pool.alphaSqrtPrice.bits
    · rw [if_pos habove, if_neg (hin.not.mpr (by omega))]
    · rw [if_neg habove, if_pos (hin.mpr (by omega))]

theorem withModified_frame (cfg : Config A) (pool : Pool A) (key : A × PositionId)
    (position : Position) (sqrtPa sqrtPb : SqrtPrice) (delta : I64) :
    (pool.withModified cfg key position sqrtPa sqrtPb delta).currentTick = pool.currentTick ∧
      (pool.withModified cfg key position sqrtPa sqrtPb delta).currentLiquidity =
        (pool.sqrtPriceBox sqrtPa sqrtPb delta).1.currentLiquidity := by
  rcases sqrtPriceBox_frame pool sqrtPa sqrtPb delta with ⟨liq, hbox⟩
  rcases modifyTicks_frame (pool.sqrtPriceBox sqrtPa sqrtPb delta).1
    (movedLiquidity cfg position delta) position (decide (0 < delta.val)) with
    ⟨ticks, words, hticks⟩
  unfold withModified
  rw [hticks, hbox]
  exact ⟨rfl, rfl⟩

theorem positionsLiquidity_insert {old new : Position}
    (hlook : pool.positions.lookup key = some old)
    (hpositions : q.positions = pool.positions.insert key new) (t : ℤ) :
    q.positionsLiquidity t + old.liquidityAt t = pool.positionsLiquidity t + new.liquidityAt t := by
  unfold positionsLiquidity
  rw [hpositions, sumBy_insert, sumBy_erase (fun _ position => position.liquidityAt t) hlook]
  ring

theorem Tracked.withModified (h : pool.Tracked) {position : Position}
    (hlook : pool.positions.lookup key = some position) {sqrtPa sqrtPb : SqrtPrice} {delta : I64}
    (hlo : TickIndex.tryToSqrtPrice position.tickLow = .ok sqrtPa)
    (hhi : TickIndex.tryToSqrtPrice position.tickHigh = .ok sqrtPb)
    (hle : ¬0 < delta.val → (unsignedAbs delta).val ≤ position.liquidity.val)
    (hfits : 0 < delta.val → ∀ t, pool.positionsLiquidity t +
      rangeLiquidity position.tickLow position.tickHigh (unsignedAbs delta) t < 2 ^ 64)
    (hoff : ¬pool.OnTick) (hwhole : removesPosition cfg position delta = true →
      pool.TickInRange position → unsignedAbs delta = position.liquidity) :
    (pool.withModified cfg key position sqrtPa sqrtPb delta).currentLiquidity.val =
      (pool.withModified cfg key position sqrtPa sqrtPb delta).positionsLiquidity
        (pool.withModified cfg key position sqrtPa sqrtPb delta).currentTick := by
  have hrange := h.priceInRange_iff hlook hoff (inBounds_of_tryToSqrtPrice hlo)
    (inBounds_of_tryToSqrtPrice hhi)
  have htick := tickInRange_iff h.consistent position
  obtain ⟨q, hq⟩ : ∃ q, q = pool.withModified cfg key position sqrtPa sqrtPb delta := ⟨_, rfl⟩
  have hframe := withModified_frame cfg pool key position sqrtPa sqrtPb delta
  rw [← hq, sqrtPriceBox_current hlo hhi] at hframe
  have hpositions := withModified_positions cfg h.ids hlook sqrtPa sqrtPb delta
  rw [← hq] at hpositions
  have hheld : position.liquidityAt pool.currentTick ≤ pool.positionsLiquidity pool.currentTick :=
    le_sumBy (fun _ p => p.liquidityAt pool.currentTick) hlook
  rw [← hq, hframe.1, hframe.2]
  unfold Position.liquidityAt at hheld
  by_cases hremove : removesPosition cfg position delta = true
  · rw [if_pos hremove] at hpositions
    have hsum := positionsLiquidity_erase hlook hpositions pool.currentTick
    unfold Position.liquidityAt at hsum
    have hneg : ¬0 < delta.val := by
      unfold removesPosition at hremove
      simp only [decide_eq_true_eq] at hremove
      omega
    by_cases hin : pool.TickInRange position
    · rw [if_pos (htick.mp hin)] at hsum
      rw [if_pos (hrange.mpr hin), if_neg hneg, Word.val_satSub, hwhole hremove hin, h.current]
      omega
    · rw [if_neg (htick.not.mp hin)] at hsum
      rw [if_neg (hrange.not.mpr hin), h.current]
      omega
  · rw [if_neg hremove] at hpositions
    have hsum := positionsLiquidity_insert hlook hpositions pool.currentTick
    rw [Position.liquidityAt_eq, Position.liquidityAt_eq] at hsum
    change _ = _ + rangeLiquidity position.tickLow position.tickHigh
      (if 0 < delta.val then position.liquidity.satAdd (unsignedAbs delta)
        else position.liquidity.satSub (unsignedAbs delta)) pool.currentTick at hsum
    unfold rangeLiquidity at hsum hfits
    by_cases hin : pool.TickInRange position
    · rw [if_pos (htick.mp hin), if_pos (htick.mp hin)] at hsum
      rw [if_pos (htick.mp hin)] at hheld
      rw [if_pos (hrange.mpr hin)]
      by_cases hincrease : 0 < delta.val
      · have hfit := hfits hincrease pool.currentTick
        rw [if_pos (htick.mp hin)] at hfit
        rw [if_pos hincrease, Word.val_satAdd] at hsum ⊢
        rw [h.current]
        omega
      · have hless := hle hincrease
        rw [if_neg hincrease, Word.val_satSub] at hsum ⊢
        rw [h.current]
        omega
    · rw [if_neg (htick.not.mp hin), if_neg (htick.not.mp hin)] at hsum
      rw [if_neg (hrange.not.mpr hin), h.current]
      omega

theorem RangesOrdered.withModified (h : pool.RangesOrdered) (hids : pool.IdsIssued)
    {position : Position} (hlook : pool.positions.lookup key = some position)
    (sqrtPa sqrtPb : SqrtPrice) (delta : I64) :
    (pool.withModified cfg key position sqrtPa sqrtPb delta).RangesOrdered := by
  have hpositions := withModified_positions cfg hids hlook sqrtPa sqrtPb delta
  split at hpositions
  · exact h.erase hpositions
  · intro k p hk
    rw [hpositions] at hk
    rcases eq_or_ne k key with rfl | hne
    · rw [AList.lookup_insert] at hk
      cases hk
      rcases h k position hlook with ⟨hlow, hle, hhigh⟩
      exact ⟨hlow, hle, hhigh⟩
    · rw [AList.lookup_insert_ne hne] at hk
      exact h k p hk

theorem withModified_positionsLiquidity_le (hids : pool.IdsIssued) {position : Position}
    (hlook : pool.positions.lookup key = some position) (sqrtPa sqrtPb : SqrtPrice) (delta : I64)
    (t : ℤ) : (pool.withModified cfg key position sqrtPa sqrtPb delta).positionsLiquidity t ≤
      pool.positionsLiquidity t + if 0 < delta.val then
        rangeLiquidity position.tickLow position.tickHigh (unsignedAbs delta) t else 0 := by
  have hpositions := withModified_positions cfg hids hlook sqrtPa sqrtPb delta
  split at hpositions
  · have hsum := positionsLiquidity_erase hlook hpositions t
    omega
  · have hsum := positionsLiquidity_insert hlook hpositions t
    rw [Position.liquidityAt_eq, Position.liquidityAt_eq] at hsum
    change _ = _ + rangeLiquidity position.tickLow position.tickHigh
      (if 0 < delta.val then position.liquidity.satAdd (unsignedAbs delta)
        else position.liquidity.satSub (unsignedAbs delta)) t at hsum
    unfold rangeLiquidity at hsum ⊢
    by_cases hincrease : 0 < delta.val
    · rw [if_pos hincrease, Word.val_satAdd] at hsum
      rw [if_pos hincrease]
      split_ifs at hsum ⊢ <;> omega
    · rw [if_neg hincrease, Word.val_satSub] at hsum
      rw [if_neg hincrease]
      split_ifs at hsum <;> omega

/-! ## Every run -/

theorem doSwap_simulated (env : Env A) (orderType : OrderType) (amount : U64)
    (limit : SqrtPrice) : (pool.doSwap cfg env orderType amount limit true).1 = pool := by
  unfold doSwap
  split <;> rfl

theorem Tracked.step (h : pool.Tracked) (hmin : 0 < cfg.minimumLiquidity.val) {op : Op A}
    (hop : pool.Tracks cfg op) : (pool.step cfg op).Tracked := by
  have hkept : ∀ q : Pool A, q = pool.step cfg op → q.RangesOrdered →
      (∀ t, q.positionsLiquidity t < 2 ^ 64) →
      q.currentLiquidity.val = q.positionsLiquidity q.currentTick → (pool.step cfg op).Tracked := by
    rintro q rfl hordered hfits hcurrent
    exact ⟨h.consistent.step cfg op, h.ids.step op,
      h.ledger.step h.consistent h.ids hmin hop.fits hop.user, hordered, hfits, hcurrent⟩
  have hsame : ∀ q : Pool A, q = pool.step cfg op → q.positions = pool.positions →
      q.currentLiquidity.val = q.positionsLiquidity q.currentTick → (pool.step cfg op).Tracked := by
    intro q hq hpositions hcurrent
    refine hkept q hq ?_ ?_ hcurrent
    · intro key position hlook
      rw [hpositions] at hlook
      exact h.ordered key position hlook
    · intro t
      rw [positionsLiquidity_congr hpositions]
      exact h.fits t
  have hliquidity := hop.liquidity
  cases op with
  | addLiquidity env coldkey hotkey tickLow tickHigh liquidity =>
      cases hadd : pool.doAddLiquidity cfg env coldkey hotkey tickLow tickHigh liquidity with
      | error e => exact hsame pool (congrArg pool.okOr hadd).symm rfl h.current
      | ok res =>
          rcases doAddLiquidity_ok hadd with ⟨hlo, hhi, -, heq⟩
          have hfresh : pool.positions.lookup (coldkey, pool.nextId) = none :=
            h.ids.lookup_none (lt_nextId hop.fits.ids)
          refine hkept (pool.withPosition coldkey tickLow tickHigh liquidity) ?_
            (h.ordered.withPosition hlo hhi hop.range) ?_
            (withPosition_current h.consistent.inBounds hfresh hliquidity h.current)
          · exact heq.symm.trans (congrArg pool.okOr hadd).symm
          · intro t
            rw [withPosition_positionsLiquidity hfresh, add_comm]
            exact hliquidity t
  | removeLiquidity coldkey positionId =>
      cases hremove : pool.doRemoveLiquidity coldkey positionId with
      | error e => exact hsame pool (congrArg pool.okOr hremove).symm rfl h.current
      | ok res =>
          rcases doRemoveLiquidity_ok hremove with ⟨position, hlook, heq, -, -⟩
          rcases withoutPosition_frame pool (coldkey, positionId) position with
            ⟨ticks, words, liq, hframe⟩
          have hpositions : (pool.withoutPosition (coldkey, positionId) position).positions =
              pool.positions.erase (coldkey, positionId) := by rw [hframe]
          refine hkept (pool.withoutPosition (coldkey, positionId) position) ?_
            (h.ordered.erase hpositions) ?_ (h.withoutPosition hlook)
          · exact heq.symm.trans (congrArg pool.okOr hremove).symm
          · intro t
            have hsum := positionsLiquidity_erase hlook hpositions t
            have hfit := h.fits t
            omega
  | modifyPosition env coldkey hotkey positionId liquidityDelta =>
      cases hmodify : pool.doModifyPosition cfg env coldkey hotkey positionId liquidityDelta with
      | error e => exact hsame pool (congrArg pool.okOr hmodify).symm rfl h.current
      | ok res =>
          rcases doModifyPosition_ok hmodify with
            ⟨position, pa, pb, hlook, -, hlo, hhi, hle, heq, -, -⟩
          have hadded : ∀ t, pool.positionsLiquidity t + (if 0 < liquidityDelta.val then
              rangeLiquidity position.tickLow position.tickHigh (unsignedAbs liquidityDelta) t
              else 0) < 2 ^ 64 := by
            intro t
            have hfit := hliquidity t
            unfold addedLiquidity at hfit
            simpa only [hlook] using hfit
          refine hkept (pool.withModified cfg (coldkey, positionId) position pa pb liquidityDelta)
            ?_ (h.ordered.withModified h.ids hlook pa pb liquidityDelta) ?_ ?_
          · exact heq.symm.trans (congrArg pool.okOr hmodify).symm
          · intro t
            exact (withModified_positionsLiquidity_le h.ids hlook pa pb liquidityDelta t).trans_lt
              (hadded t)
          · refine h.withModified hlook hlo hhi hle ?_ hop.price.1 (hop.price.2 position hlook)
            intro hincrease t
            have hfit := hadded t
            rwa [if_pos hincrease] at hfit
  | swap env orderType amount limitSqrtPrice simulate =>
      rcases hop.price with rfl | ⟨hr, hlimit, hoff⟩
      · exact hsame pool (doSwap_simulated env orderType amount limitSqrtPrice).symm rfl h.current
      · refine hsame _ rfl (h.consistent.doSwap_sameLiquidity cfg env orderType amount
          limitSqrtPrice simulate).positions ?_
        rcases h.sound.doSwap_lands cfg env amount simulate h.current hr
          hlimit fun hsell => (hoff hsell).1 with ⟨hlands, hbuy⟩
        cases orderType with
        | buy => exact hbuy rfl
        | sell =>
            rcases hlands with hcurrent | ⟨hon, -⟩
            · exact hcurrent
            · exact absurd hon (hoff rfl).2
  | setFeeRate rate =>
      by_cases hrate : rate.val ≤ cfg.maxFeeRate.val
      · exact hsame { pool with feeRate := rate } (if_pos hrate).symm rfl h.current
      · exact hsame pool (if_neg hrate).symm rfl h.current
  | toggleUserLiquidity enable => exact hsame _ rfl rfl h.current
  | adjustProtocol taoDelta alphaDelta => exact absurd trivial hop.user
  | otherSubnet positions => exact hsame _ rfl rfl h.current

end Pool

end Subtensor.Swap
