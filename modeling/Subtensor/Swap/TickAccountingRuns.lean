import Subtensor.Swap.Direction
import Subtensor.Swap.Elimination
import Subtensor.Swap.PositionCap
import Subtensor.Swap.RoundTrip
import Subtensor.Swap.TickAccounting

/-!
# Tick accounting in every run

Adding, removing and modifying positions and swapping keep the tick accounting,
as long as nothing saturates. What is carried along a run is that a tick exists
as long as it has liquidity, so that no position may be stored without any.
-/

namespace Subtensor.Swap

open Subtensor.Lib Subtensor.Lib.StorageMap

variable {A : Type}

/-! ## Liquidity at the two ends of a range -/

/-- What a range adds to the gross liquidity of a tick. -/
def rangeGross (lo hi : ℤ) (l : U64) (t : ℤ) : ℕ :=
  (if lo = t then l.val else 0) + if hi = t then l.val else 0

/-- What a range adds to the net liquidity of a tick. -/
def rangeNet (lo hi : ℤ) (l : U64) (t : ℤ) : ℤ :=
  (if lo = t then (l.val : ℤ) else 0) - if hi = t then (l.val : ℤ) else 0

theorem rangeGross_of_add {l d m : U64} (h : m.val = l.val + d.val) (lo hi t : ℤ) :
    rangeGross lo hi m t = rangeGross lo hi l t + rangeGross lo hi d t := by
  unfold rangeGross
  rw [h]
  split_ifs <;> ring

theorem rangeNet_of_add {l d m : U64} (h : m.val = l.val + d.val) (lo hi t : ℤ) :
    rangeNet lo hi m t = rangeNet lo hi l t + rangeNet lo hi d t := by
  unfold rangeNet
  rw [h]
  split_ifs <;> push_cast <;> ring

theorem Position.grossAt_eq (position : Position) (t : ℤ) :
    position.grossAt t = rangeGross position.tickLow position.tickHigh position.liquidity t := rfl

theorem Position.netAt_eq (position : Position) (t : ℤ) :
    position.netAt t = rangeNet position.tickLow position.tickHigh position.liquidity t := rfl

namespace Pool

section Ticks

variable {pool : Pool A} {lo hi s t : ℤ} {l : U64} {upper : Bool}

/-- A tick exists as long as it has liquidity. -/
def TicksLiquid (pool : Pool A) : Prop := ∀ t, (pool.ticks t).isSome ↔ 0 < pool.tickGross t

/-- Net liquidity is at most gross liquidity. -/
def NetBounded (pool : Pool A) : Prop := ∀ t, (pool.tickNet t).natAbs ≤ pool.tickGross t

theorem tickGross_lt (pool : Pool A) (t : ℤ) : pool.tickGross t < 2 ^ 64 := Word.isLt _

theorem tickGross_congr {q : Pool A} (h : q.ticks = pool.ticks) (t : ℤ) :
    q.tickGross t = pool.tickGross t := by
  unfold tickGross
  rw [h]

theorem tickNet_congr {q : Pool A} (h : q.ticks = pool.ticks) (t : ℤ) :
    q.tickNet t = pool.tickNet t := by
  unfold tickNet
  rw [h]

theorem TicksLiquid.congr {q : Pool A} (hpool : pool.TicksLiquid) (h : q.ticks = pool.ticks) :
    q.TicksLiquid := by
  intro t
  rw [tickGross_congr h, h]
  exact hpool t

theorem removeLiquidityAtIndex_tickGross (pool : Pool A) (s t : ℤ) (l : U64) (upper : Bool) :
    (pool.removeLiquidityAtIndex t l upper).tickGross s =
      pool.tickGross s - if t = s then l.val else 0 := by
  unfold tickGross
  rw [removeLiquidityAtIndex_ticks]
  rcases eq_or_ne s t with rfl | hne
  · rw [Function.update_self, if_pos rfl]
    cases pool.ticks s with
    | none => exact (Nat.zero_sub _).symm
    | some tick =>
        unfold removedTick
        dsimp only [Option.getD_some]
        rw [← Word.val_satSub]
        split
        · rename_i hzero
          rw [hzero]
          rfl
        · rfl
  · rw [Function.update_of_ne hne, if_neg hne.symm, Nat.sub_zero]

theorem removeLiquidityAtIndex_tickNet (hnet : (pool.tickNet t).natAbs < 2 ^ 66)
    (hlast : pool.tickGross t ≤ l.val → pool.tickNet t = signedLiquidity l upper) :
    (pool.removeLiquidityAtIndex t l upper).tickNet s =
      pool.tickNet s - if t = s then signedLiquidity l upper else 0 := by
  have hl := l.isLt
  have hsigned := natAbs_signedLiquidity l upper
  rcases eq_or_ne s t with rfl | hne
  · rw [if_pos rfl]
    unfold tickNet tickGross at *
    rw [removeLiquidityAtIndex_ticks, Function.update_self]
    cases htick : pool.ticks s with
    | none =>
        rw [htick] at hlast
        have hzero := hlast (Nat.zero_le _)
        dsimp only [removedTick, Option.getD_none] at hzero ⊢
        rw [← hzero, sub_self]
        rfl
    | some tick =>
        rw [htick] at hnet hlast
        dsimp only [removedTick, Option.getD_some] at hnet hlast ⊢
        split
        · rename_i hgone
          have hval := Word.ext_iff.mp hgone
          rw [Word.val_satSub, Word.val_zero] at hval
          rw [hlast (by omega), sub_self]
          rfl
        · rw [Option.getD_some, SWord.satSub, val_netChange,
            SWord.val_sat_of_mem (by omega) (by omega)]
  · rw [if_neg hne.symm, sub_zero]
    unfold tickNet
    rw [removeLiquidityAtIndex_ticks, Function.update_of_ne hne]

theorem TicksLiquid.removeLiquidityAtIndex (h : pool.TicksLiquid) (t : ℤ) (l : U64)
    (upper : Bool) : (pool.removeLiquidityAtIndex t l upper).TicksLiquid := by
  intro s
  rw [removeLiquidityAtIndex_tickGross, removeLiquidityAtIndex_ticks]
  rcases eq_or_ne s t with rfl | hne
  · rw [Function.update_self, if_pos rfl]
    unfold tickGross
    cases pool.ticks s with
    | none => simp [removedTick, Tick.default]
    | some tick =>
        unfold removedTick
        dsimp only [Option.getD_some]
        rw [← Word.val_satSub]
        split
        · rename_i hzero
          rw [hzero]
          simp
        · rename_i hne
          have hpos := Nat.pos_of_ne_zero (Word.val_eq_zero_iff.not.mpr hne)
          simpa using hpos
  · rw [Function.update_of_ne hne, if_neg hne.symm, Nat.sub_zero]
    exact h s

theorem TicksLiquid.addLiquidityAtIndex (h : pool.TicksLiquid) (hl : 0 < l.val)
    (hfits : pool.tickGross t + l.val < 2 ^ 64) (upper : Bool) :
    (pool.addLiquidityAtIndex t l upper).TicksLiquid := by
  intro s
  rw [addLiquidityAtIndex_isSome, addLiquidityAtIndex_tickGross _ _ _ hfits, h s]
  split <;> omega

section Range

variable (lo hi l)

/-- The pool after liquidity is added at both ends of a range. -/
def addRange (pool : Pool A) : Pool A :=
  (pool.addLiquidityAtIndex lo l false).addLiquidityAtIndex hi l true

/-- The pool after liquidity is taken away at both ends of a range. -/
def removeRange (pool : Pool A) : Pool A :=
  (pool.removeLiquidityAtIndex lo l false).removeLiquidityAtIndex hi l true

end Range

variable (hfits : ∀ t, pool.tickGross t + rangeGross lo hi l t < 2 ^ 64)

include hfits in
theorem addRange_fits : pool.tickGross lo + l.val < 2 ^ 64 ∧
    (pool.addLiquidityAtIndex lo l false).tickGross hi + l.val < 2 ^ 64 := by
  have hlo := hfits lo
  have hhi := hfits hi
  unfold rangeGross at hlo hhi
  rw [if_pos rfl] at hlo hhi
  refine ⟨by omega, ?_⟩
  rw [addLiquidityAtIndex_tickGross _ _ _ (by omega)]
  omega

include hfits in
theorem addRange_tickGross (t : ℤ) :
    (pool.addRange lo hi l).tickGross t = pool.tickGross t + rangeGross lo hi l t := by
  rcases addRange_fits hfits with ⟨hlo, hhi⟩
  unfold addRange rangeGross
  rw [addLiquidityAtIndex_tickGross _ _ _ hhi, addLiquidityAtIndex_tickGross _ _ _ hlo, add_assoc]

theorem addRange_tickNet (hnet : pool.NetBounded) (t : ℤ) :
    (pool.addRange lo hi l).tickNet t = pool.tickNet t + rangeNet lo hi l t := by
  have hl := l.isLt
  have hlo := (hnet lo).trans_lt (pool.tickGross_lt lo)
  have hhi := (hnet hi).trans_lt (pool.tickGross_lt hi)
  have hadded : ((pool.addLiquidityAtIndex lo l false).tickNet hi).natAbs < 2 ^ 66 := by
    rw [addLiquidityAtIndex_tickNet _ _ _ (by omega), signedLiquidity_false]
    split_ifs <;> omega
  unfold addRange rangeNet
  rw [addLiquidityAtIndex_tickNet _ _ _ hadded, addLiquidityAtIndex_tickNet _ _ _ (by omega),
    signedLiquidity_false, signedLiquidity_true]
  split_ifs <;> ring

include hfits in
theorem TicksLiquid.addRange (h : pool.TicksLiquid) (hl : 0 < l.val) :
    (pool.addRange lo hi l).TicksLiquid := by
  rcases addRange_fits hfits with ⟨hlo, hhi⟩
  exact (h.addLiquidityAtIndex hl hlo false).addLiquidityAtIndex hl hhi true

theorem removeRange_tickGross (pool : Pool A) (lo hi t : ℤ) (l : U64) :
    (pool.removeRange lo hi l).tickGross t = pool.tickGross t - rangeGross lo hi l t := by
  unfold removeRange rangeGross
  rw [removeLiquidityAtIndex_tickGross, removeLiquidityAtIndex_tickGross, Nat.sub_sub]

/-- What is left has a net liquidity of at most its gross liquidity, so that a
tick that goes away has none left. -/
theorem removeRange_tickNet (hle : ∀ t, rangeGross lo hi l t ≤ pool.tickGross t)
    (hrest : ∀ t, (pool.tickNet t - rangeNet lo hi l t).natAbs ≤
      pool.tickGross t - rangeGross lo hi l t) (t : ℤ) :
    (pool.removeRange lo hi l).tickNet t = pool.tickNet t - rangeNet lo hi l t := by
  have hl := l.isLt
  have hbound : ∀ t, (pool.tickNet t).natAbs < 2 ^ 66 := by
    intro t
    have hlt := pool.tickGross_lt t
    have hrest := hrest t
    unfold rangeNet at hrest
    split_ifs at hrest <;> omega
  have hlo : ∀ s, (pool.removeLiquidityAtIndex lo l false).tickNet s =
      pool.tickNet s - if lo = s then (l.val : ℤ) else 0 := by
    intro s
    refine removeLiquidityAtIndex_tickNet (hbound lo) ?_
    intro hlast
    have hle := hle lo
    have hrest := hrest lo
    unfold rangeGross at hle hrest
    unfold rangeNet at hrest
    rw [if_pos rfl] at hle hrest
    rw [signedLiquidity_false]
    split_ifs at hle hrest <;> omega
  unfold removeRange
  rw [removeLiquidityAtIndex_tickNet ?_ ?_, hlo, signedLiquidity_true]
  · unfold rangeNet
    split_ifs <;> ring
  · have hrest := hrest hi
    have hlt := pool.tickGross_lt hi
    unfold rangeNet at hrest
    rw [hlo]
    split_ifs at hrest ⊢ <;> omega
  · rw [removeLiquidityAtIndex_tickGross, hlo, signedLiquidity_true]
    intro hlast
    have hle := hle hi
    have hrest := hrest hi
    unfold rangeGross at hle hrest
    unfold rangeNet at hrest
    rw [if_pos rfl] at hle hrest
    split_ifs at hlast hle hrest ⊢ <;> omega

end Ticks

/-! ## Ticks against positions -/

variable [DecidableEq A] {cfg : Config A} {pool : Pool A} {key : A × PositionId}

/-- The accounting with every position liquid: a tick exists as long as there is
liquidity at it. -/
structure Ledger (pool : Pool A) : Prop where
  active : pool.TicksLiquid
  gross : ∀ t, pool.tickGross t = pool.positionsGross t
  net : ∀ t, pool.tickNet t = pool.positionsNet t
  liquid : ∀ key position, pool.positions.lookup key = some position → 0 < position.liquidity.val

theorem Ledger.netBounded (h : pool.Ledger) : pool.NetBounded := by
  intro t
  rw [h.net, h.gross]
  exact pool.natAbs_positionsNet_le t

/-- Where all positions are liquid, a position ends at a tick exactly if there is
liquidity at it. -/
theorem isEndpoint_iff (hliquid : ∀ key position, pool.positions.lookup key = some position →
    0 < position.liquidity.val) (t : ℤ) : pool.IsEndpoint t ↔ 0 < pool.positionsGross t := by
  constructor
  · rintro ⟨key, position, hlook, hends⟩
    have hle : position.grossAt t ≤ pool.positionsGross t :=
      le_sumBy (fun _ position => position.grossAt t) hlook
    have hpos := hliquid key position hlook
    refine lt_of_lt_of_le ?_ hle
    unfold Position.grossAt
    rcases hends with hlo | hhi
    · rw [if_pos hlo]
      omega
    · rw [if_pos hhi]
      omega
  · intro hpos
    by_contra hnot
    refine hpos.ne' (sumBy_eq_zero ?_)
    intro key position hlook
    exact Position.grossAt_of_not_endsAt fun hends => hnot ⟨key, position, hlook, hends⟩

theorem Ledger.tickAccounting (h : pool.Ledger) (hindexed : pool.TicksIndexed) :
    pool.TickAccounting where
  exists_iff t := by rw [h.active t, h.gross, isEndpoint_iff h.liquid]
  gross := h.gross
  net := h.net
  indexed := hindexed

theorem TickAccounting.ledger (h : pool.TickAccounting)
    (hliquid : ∀ key position, pool.positions.lookup key = some position →
      0 < position.liquidity.val) : pool.Ledger where
  active t := by rw [h.exists_iff, h.gross, isEndpoint_iff hliquid]
  gross := h.gross
  net := h.net
  liquid := hliquid

/-! ## A position comes, goes, or changes -/

section Changes

variable {q : Pool A} {lo hi : ℤ} {l : U64}

/-- Positions and ticks gain the same range. -/
theorem Ledger.gain (h : pool.Ledger) (hl : 0 < l.val)
    (hfits : ∀ t, pool.positionsGross t + rangeGross lo hi l t < 2 ^ 64)
    (hticks : q.ticks = (pool.addRange lo hi l).ticks)
    (hgross : ∀ t, q.positionsGross t = pool.positionsGross t + rangeGross lo hi l t)
    (hnet : ∀ t, q.positionsNet t = pool.positionsNet t + rangeNet lo hi l t)
    (hliquid : ∀ key position, q.positions.lookup key = some position →
      0 < position.liquidity.val) : q.Ledger := by
  have hfits' : ∀ t, pool.tickGross t + rangeGross lo hi l t < 2 ^ 64 := by
    intro t
    rw [h.gross]
    exact hfits t
  refine ⟨(h.active.addRange hfits' hl).congr hticks, ?_, ?_, hliquid⟩
  · intro t
    rw [tickGross_congr hticks, addRange_tickGross hfits', h.gross, hgross]
  · intro t
    rw [tickNet_congr hticks, addRange_tickNet h.netBounded, h.net, hnet]

theorem Ledger.lose (h : pool.Ledger) (hticks : q.ticks = (pool.removeRange lo hi l).ticks)
    (hgross : ∀ t, pool.positionsGross t = q.positionsGross t + rangeGross lo hi l t)
    (hnet : ∀ t, pool.positionsNet t = q.positionsNet t + rangeNet lo hi l t)
    (hliquid : ∀ key position, q.positions.lookup key = some position →
      0 < position.liquidity.val) : q.Ledger := by
  have hle : ∀ t, rangeGross lo hi l t ≤ pool.tickGross t := by
    intro t
    rw [h.gross, hgross]
    exact Nat.le_add_left _ _
  have hrest : ∀ t, (pool.tickNet t - rangeNet lo hi l t).natAbs ≤
      pool.tickGross t - rangeGross lo hi l t := by
    intro t
    rw [h.net, h.gross, hnet, hgross, add_sub_cancel_right, Nat.add_sub_cancel]
    exact q.natAbs_positionsNet_le t
  have hactive : q.TicksLiquid :=
    ((h.active.removeLiquidityAtIndex lo l false).removeLiquidityAtIndex hi l true).congr hticks
  refine ⟨hactive, ?_, ?_, hliquid⟩
  · intro t
    rw [tickGross_congr hticks, removeRange_tickGross, h.gross, hgross, Nat.add_sub_cancel]
  · intro t
    rw [tickNet_congr hticks, removeRange_tickNet hle hrest, h.net, hnet, add_sub_cancel_right]

theorem Ledger.withPosition (h : pool.Ledger) {owner : A} (hl : 0 < l.val)
    (hfresh : pool.positions.lookup (owner, pool.nextId) = none)
    (hfits : ∀ t, pool.positionsGross t + rangeGross lo hi l t < 2 ^ 64) :
    (pool.withPosition owner lo hi l).Ledger := by
  refine h.gain hl hfits (addLiquidityToTicks_ticks pool lo hi l) ?_ ?_ ?_
  · intro t
    rw [withPosition_positionsGross hfresh, add_comm]
    rfl
  · intro t
    rw [withPosition_positionsNet hfresh, add_comm]
    rfl
  · intro key position hlook
    rcases eq_or_ne key (owner, pool.nextId) with rfl | hne
    · cases (AList.lookup_insert pool.positions).symm.trans hlook
      exact hl
    · exact h.liquid key position ((AList.lookup_insert_ne hne).symm.trans hlook)

theorem Ledger.erase (h : pool.Ledger) {position : Position}
    (hlook : pool.positions.lookup key = some position)
    (hticks : q.ticks =
      (pool.removeRange position.tickLow position.tickHigh position.liquidity).ticks)
    (hpositions : q.positions = pool.positions.erase key) : q.Ledger := by
  refine h.lose hticks ?_ ?_ ?_
  · intro t
    unfold positionsGross
    rw [hpositions, sumBy_erase _ hlook, add_comm]
    rfl
  · intro t
    unfold positionsNet
    rw [hpositions, sumBy_erase _ hlook, add_comm]
    rfl
  · intro k p hk
    rw [hpositions] at hk
    rcases eq_or_ne k key with rfl | hne
    · rw [AList.lookup_erase] at hk
      cases hk
    · rw [AList.lookup_erase_ne hne] at hk
      exact h.liquid k p hk

theorem Ledger.withoutPosition (h : pool.Ledger) {position : Position}
    (hlook : pool.positions.lookup key = some position) :
    (pool.withoutPosition key position).Ledger := by
  rcases pool.withoutPosition_ticks key position with ⟨liq, hpool⟩
  refine h.erase hlook ?_ ?_
  · rw [hpool]
    rfl
  · rw [hpool]

/-- A position is written again with more or less liquidity. -/
theorem positionsGross_insert {old new : Position} (hlook : pool.positions.lookup key = some old)
    (hpositions : q.positions = pool.positions.insert key new) (t : ℤ) :
    q.positionsGross t + old.grossAt t = pool.positionsGross t + new.grossAt t := by
  unfold positionsGross
  rw [hpositions, sumBy_insert, sumBy_erase (fun _ position => position.grossAt t) hlook]
  ring

theorem positionsNet_insert {old new : Position} (hlook : pool.positions.lookup key = some old)
    (hpositions : q.positions = pool.positions.insert key new) (t : ℤ) :
    q.positionsNet t + old.netAt t = pool.positionsNet t + new.netAt t := by
  unfold positionsNet
  rw [hpositions, sumBy_insert, sumBy_erase (fun _ position => position.netAt t) hlook]
  ring

theorem liquid_insert {new : Position} (h : pool.Ledger) (hnew : 0 < new.liquidity.val)
    (hpositions : q.positions = pool.positions.insert key new) (k : A × PositionId)
    (position : Position) (hk : q.positions.lookup k = some position) :
    0 < position.liquidity.val := by
  rw [hpositions] at hk
  rcases eq_or_ne k key with rfl | hne
  · rw [AList.lookup_insert] at hk
    cases hk
    exact hnew
  · rw [AList.lookup_insert_ne hne] at hk
    exact h.liquid k position hk

theorem withModified_positions (cfg : Config A) (hids : pool.IdsIssued) {position : Position}
    (hlook : pool.positions.lookup key = some position) (sqrtPa sqrtPb : SqrtPrice) (delta : I64) :
    (pool.withModified cfg key position sqrtPa sqrtPb delta).positions =
      if removesPosition cfg position delta then pool.positions.erase key
      else pool.positions.insert key (modifiedPosition pool position delta) := by
  unfold Pool.withModified
  rw [(hids key position hlook).1]

theorem Ledger.withModified (h : pool.Ledger) (hids : pool.IdsIssued)
    (hmin : 0 < cfg.minimumLiquidity.val) {position : Position}
    (hlook : pool.positions.lookup key = some position) {delta : I64}
    (hle : ¬0 < delta.val → (unsignedAbs delta).val ≤ position.liquidity.val)
    (hfits : 0 < delta.val → ∀ t, pool.positionsGross t +
      rangeGross position.tickLow position.tickHigh (unsignedAbs delta) t < 2 ^ 64)
    (sqrtPa sqrtPb : SqrtPrice) :
    (pool.withModified cfg key position sqrtPa sqrtPb delta).Ledger := by
  have hpos := h.liquid key position hlook
  rcases sqrtPriceBox_frame pool sqrtPa sqrtPb delta with ⟨liq, hbox⟩
  obtain ⟨q, hq⟩ : ∃ q, q = pool.withModified cfg key position sqrtPa sqrtPb delta := ⟨_, rfl⟩
  have hticks : q.ticks = ((pool.modifyTicks position (decide (0 < delta.val))
      (movedLiquidity cfg position delta))).ticks := by
    rw [hq]
    unfold Pool.withModified modifyTicks
    rw [hbox]
    split
    · rfl
    · rw [removeLiquidityAtIndex_ticks, removeLiquidityAtIndex_ticks,
        removeLiquidityAtIndex_ticks, removeLiquidityAtIndex_ticks]
  have hpositions := withModified_positions cfg hids hlook sqrtPa sqrtPb delta
  rw [← hq] at hpositions ⊢
  by_cases hincrease : 0 < delta.val
  · -- an increase never removes the position
    have hkeep : ¬removesPosition cfg position delta = true := by
      unfold removesPosition
      simp only [decide_eq_true_eq, not_and]
      intro hneg
      omega
    rw [movedLiquidity, if_neg hkeep, decide_eq_true hincrease] at hticks
    rw [if_neg hkeep] at hpositions
    have hmore : (modifiedPosition pool position delta).liquidity.val =
        position.liquidity.val + (unsignedAbs delta).val := by
      have hlo := hfits hincrease position.tickLow
      have hgross : position.grossAt position.tickLow ≤ pool.positionsGross position.tickLow :=
        le_sumBy (fun _ p => p.grossAt position.tickLow) hlook
      unfold Position.grossAt at hgross
      unfold rangeGross at hlo
      rw [if_pos rfl] at hgross hlo
      unfold modifiedPosition
      rw [if_pos hincrease]
      exact Word.val_satAdd_of_lt (by omega)
    have hdelta : 0 < (unsignedAbs delta).val := Int.natAbs_pos.mpr hincrease.ne'
    refine h.gain hdelta (hfits hincrease) hticks ?_ ?_ (liquid_insert h (by omega) hpositions)
    · intro t
      have hsum := positionsGross_insert hlook hpositions t
      have hadd := rangeGross_of_add hmore position.tickLow position.tickHigh t
      rw [Position.grossAt_eq, Position.grossAt_eq] at hsum
      change _ = _ + rangeGross position.tickLow position.tickHigh _ t at hsum
      omega
    · intro t
      have hsum := positionsNet_insert hlook hpositions t
      have hadd := rangeNet_of_add hmore position.tickLow position.tickHigh t
      rw [Position.netAt_eq, Position.netAt_eq] at hsum
      change _ = _ + rangeNet position.tickLow position.tickHigh _ t at hsum
      omega
  · rw [decide_eq_false hincrease] at hticks
    by_cases hremove : removesPosition cfg position delta = true
    · rw [movedLiquidity, if_pos hremove] at hticks
      rw [if_pos hremove] at hpositions
      exact h.erase hlook hticks hpositions
    · rw [movedLiquidity, if_neg hremove] at hticks
      rw [if_neg hremove] at hpositions
      have hless : position.liquidity.val =
          (modifiedPosition pool position delta).liquidity.val + (unsignedAbs delta).val := by
        have := hle hincrease
        unfold modifiedPosition
        rw [if_neg hincrease, Word.val_satSub]
        omega
      have hrest : 0 < (modifiedPosition pool position delta).liquidity.val := by
        unfold removesPosition at hremove
        unfold modifiedPosition
        rw [if_neg hincrease]
        simp only [decide_eq_true_eq, not_and, not_lt] at hremove
        rcases eq_or_ne delta.val 0 with hzero | hne
        · have hnone : (unsignedAbs delta).val = 0 := Int.natAbs_eq_zero.mpr hzero
          rw [Word.val_satSub, hnone]
          exact hpos
        · exact hmin.trans_le (hremove (by omega))
      refine h.lose hticks ?_ ?_ (liquid_insert h hrest hpositions)
      · intro t
        have hsum := positionsGross_insert hlook hpositions t
        have hadd := rangeGross_of_add hless position.tickLow position.tickHigh t
        rw [Position.grossAt_eq, Position.grossAt_eq] at hsum
        change _ = _ + rangeGross position.tickLow position.tickHigh _ t at hsum
        omega
      · intro t
        have hsum := positionsNet_insert hlook hpositions t
        have hadd := rangeNet_of_add hless position.tickLow position.tickHigh t
        rw [Position.netAt_eq, Position.netAt_eq] at hsum
        change _ = _ + rangeNet position.tickLow position.tickHigh _ t at hsum
        omega

end Changes

/-! ## Swaps -/

/-- The ticks have the same liquidity, and the positions are the same. -/
structure SameLiquidity (pool q : Pool A) : Prop where
  exists_iff : ∀ t, (q.ticks t).isSome ↔ (pool.ticks t).isSome
  gross : ∀ t, q.tickGross t = pool.tickGross t
  net : ∀ t, q.tickNet t = pool.tickNet t
  positions : q.positions = pool.positions

omit [DecidableEq A] in
theorem SameLiquidity.of_ticks {q : Pool A} (hticks : q.ticks = pool.ticks)
    (hpositions : q.positions = pool.positions) : SameLiquidity pool q where
  exists_iff t := by rw [hticks]
  gross := tickGross_congr hticks
  net := tickNet_congr hticks
  positions := hpositions

omit [DecidableEq A] in
theorem SameLiquidity.trans {q r : Pool A} (h₁ : SameLiquidity pool q) (h₂ : SameLiquidity q r) :
    SameLiquidity pool r where
  exists_iff t := (h₂.exists_iff t).trans (h₁.exists_iff t)
  gross t := (h₂.gross t).trans (h₁.gross t)
  net t := (h₂.net t).trans (h₁.net t)
  positions := h₂.positions.trans h₁.positions

theorem Ledger.congr {q : Pool A} (h : pool.Ledger) (hsame : SameLiquidity pool q) : q.Ledger where
  active t := by rw [hsame.exists_iff, hsame.gross, h.active t]
  gross t := by
    rw [hsame.gross, h.gross, positionsGross, positionsGross, hsame.positions]
  net t := by
    rw [hsame.net, h.net, positionsNet, positionsNet, hsame.positions]
  liquid key position hlook := by
    rw [hsame.positions] at hlook
    exact h.liquid key position hlook

omit [DecidableEq A] in
theorem crossed_ticks (pool : Pool A) (cfg : Config A) (step : SwapStep) (tick : Tick) :
    (step.crossed cfg pool tick).ticks = Function.update pool.ticks step.edgeTick
      (some (SwapStep.flipFees (pool.addFees cfg step.orderType step.fee) tick)) := by
  unfold SwapStep.crossed SwapStep.updateCurrentPrice SwapStep.withCrossedTick
  dsimp only
  rw [addFees_ticks]

omit [DecidableEq A] in
theorem stopped_ticks (pool : Pool A) (cfg : Config A) (step : SwapStep) :
    (step.stopped cfg pool).ticks = pool.ticks := by
  rcases addFees_frame cfg pool step.orderType step.fee with ⟨tao, alpha, h⟩
  unfold SwapStep.stopped
  rw [h]
  rfl

omit [DecidableEq A] in
/-- The fees of a crossed tick are flipped, its liquidity stays. -/
theorem flipFees_liquidity (pool : Pool A) (tick : Tick) :
    (SwapStep.flipFees pool tick).liquidityNet = tick.liquidityNet ∧
      (SwapStep.flipFees pool tick).liquidityGross = tick.liquidityGross := by
  unfold SwapStep.flipFees
  exact ⟨rfl, rfl⟩

omit [DecidableEq A] in
theorem sameLiquidity_update {q : Pool A} {t : ℤ} {tick tick' : Tick}
    (htick : pool.ticks t = some tick) (hnet : tick'.liquidityNet = tick.liquidityNet)
    (hgross : tick'.liquidityGross = tick.liquidityGross)
    (hticks : q.ticks = Function.update pool.ticks t (some tick'))
    (hpositions : q.positions = pool.positions) : SameLiquidity pool q := by
  refine ⟨?_, ?_, ?_, hpositions⟩
  · intro s
    rw [hticks]
    rcases eq_or_ne s t with rfl | hne
    · rw [Function.update_self, htick]
      exact Iff.rfl
    · rw [Function.update_of_ne hne]
  · intro s
    unfold tickGross
    rw [hticks]
    rcases eq_or_ne s t with rfl | hne
    · rw [Function.update_self, htick, Option.getD_some, Option.getD_some, hgross]
    · rw [Function.update_of_ne hne]
  · intro s
    unfold tickNet
    rw [hticks]
    rcases eq_or_ne s t with rfl | hne
    · rw [Function.update_self, htick, Option.getD_some, Option.getD_some, hnet]
    · rw [Function.update_of_ne hne]

omit [DecidableEq A] in
theorem Consistent.nextStep_sameLiquidity (h : pool.Consistent) {orderType : OrderType}
    {limit : SqrtPrice} {amount : U64} {pool' : Pool A} {r : SwapStepResult}
    (hstep : (pool.nextStep orderType limit amount).processSwap cfg pool = .ok (pool', r)) :
    SameLiquidity pool pool' := by
  have hpositions : pool'.positions = pool.positions := by
    rcases SwapStep.processSwap_frame hstep with ⟨_, _, _, _, rfl⟩
    rfl
  rcases nextStep_ok h.inBounds hstep with ⟨-, ⟨-, hstop⟩ | ⟨-, tick, htick, hcross⟩⟩
  · refine .of_ticks ?_ hpositions
    rw [hstop, stopped_ticks]
  · rw [← nextStep_edgeTick pool orderType limit amount] at htick
    have hticks := crossed_ticks pool cfg (pool.nextStep orderType limit amount) tick
    rw [← hcross] at hticks
    have hflip := flipFees_liquidity (pool.addFees cfg
      (pool.nextStep orderType limit amount).orderType (pool.nextStep orderType limit amount).fee)
      tick
    exact sameLiquidity_update htick hflip.1 hflip.2 hticks hpositions

/-- A swap changes no liquidity of a tick and no position. -/
theorem Consistent.doSwap_sameLiquidity (h : pool.Consistent) (cfg : Config A) (env : Env A)
    (orderType : OrderType) (amount : U64) (limit : SqrtPrice) (simulate : Bool) :
    SameLiquidity pool (pool.doSwap cfg env orderType amount limit simulate).1 := by
  rcases doSwap_pool cfg env pool orderType amount limit simulate with heq | ⟨result, hswap⟩
  · rw [heq]
    exact .of_ticks rfl rfl
  · rcases swapInner_ok hswap with ⟨-, pool₀, acc, hinit, hloop, -⟩
    rw [maybeInitializeV3_initialized h.initialized] at hinit
    cases hinit
    let I : Pool A → Prop := fun q => q.Consistent ∧ SameLiquidity pool q
    have hstep : ∀ (p p' : Pool A) (a : U64) (r : SwapStepResult), a ≠ 0 → I p →
        (Pool.nextStep p orderType limit a).processSwap cfg p = .ok (p', r) → I p' := by
      rintro p p' a r - ⟨hp, hsame⟩ hstep
      exact ⟨hp.nextStep hstep, hsame.trans (hp.nextStep_sameLiquidity hstep)⟩
    exact (swapLoop_invariant hstep _ _ _ _ ⟨h, .of_ticks rfl rfl⟩ hloop).2

/-! ## Every run -/

/-- The liquidity that a call is to add at a tick. -/
def addedGross (pool : Pool A) (op : Op A) (t : ℤ) : ℕ :=
  match op with
  | .addLiquidity _ _ _ tickLow tickHigh liquidity => rangeGross tickLow tickHigh liquidity t
  | .modifyPosition _ coldkey _ positionId liquidityDelta =>
      match pool.positions.lookup (coldkey, positionId) with
      | some position =>
          if 0 < liquidityDelta.val then
            rangeGross position.tickLow position.tickHigh (unsignedAbs liquidityDelta) t
          else 0
      | none => 0
  | _ => 0

/-- The sums over the positions fit after the call, and so do the ids. -/
structure Fits (pool : Pool A) (op : Op A) : Prop where
  gross : ∀ t, pool.positionsGross t + pool.addedGross op t < 2 ^ 64
  ids : pool.lastPositionId.val < 2 ^ 128 - 1

end Pool

/-- The call injects protocol liquidity. -/
def Op.Injects : Op A → Prop
  | .adjustProtocol _ _ => True
  | _ => False

namespace Pool

variable [DecidableEq A] {cfg : Config A} {pool : Pool A}

theorem Ledger.step (h : pool.Ledger) (hc : pool.Consistent) (hids : pool.IdsIssued)
    (hmin : 0 < cfg.minimumLiquidity.val) {op : Op A} (hfits : pool.Fits op)
    (hop : ¬op.Injects) : (pool.step cfg op).Ledger := by
  cases op with
  | addLiquidity env coldkey hotkey tickLow tickHigh liquidity =>
      show (pool.okOr (pool.doAddLiquidity cfg env coldkey hotkey tickLow tickHigh
        liquidity)).Ledger
      cases hadd : pool.doAddLiquidity cfg env coldkey hotkey tickLow tickHigh liquidity with
      | error e => exact h
      | ok res =>
          rcases doAddLiquidity_ok hadd with ⟨-, -, hle, heq⟩
          have hfresh : pool.positions.lookup (coldkey, pool.nextId) = none :=
            hids.lookup_none (lt_nextId hfits.ids)
          show res.1.Ledger
          rw [heq]
          exact h.withPosition (hmin.trans_le hle) hfresh hfits.gross
  | removeLiquidity coldkey positionId =>
      show (pool.okOr (pool.doRemoveLiquidity coldkey positionId)).Ledger
      cases hremove : pool.doRemoveLiquidity coldkey positionId with
      | error e => exact h
      | ok res =>
          rcases doRemoveLiquidity_ok hremove with ⟨position, hlook, heq, -, -⟩
          show res.1.Ledger
          rw [heq]
          exact h.withoutPosition hlook
  | modifyPosition env coldkey hotkey positionId liquidityDelta =>
      show (pool.okOr (pool.doModifyPosition cfg env coldkey hotkey positionId
        liquidityDelta)).Ledger
      cases hmodify : pool.doModifyPosition cfg env coldkey hotkey positionId liquidityDelta with
      | error e => exact h
      | ok res =>
          rcases doModifyPosition_ok hmodify with
            ⟨position, pa, pb, hlook, -, -, -, hle, heq, -, -⟩
          show res.1.Ledger
          rw [heq]
          refine h.withModified hids hmin hlook hle ?_ pa pb
          intro hincrease t
          have hgross := hfits.gross t
          unfold addedGross at hgross
          simp only [hlook] at hgross
          rwa [if_pos hincrease] at hgross
  | swap env orderType amount limitSqrtPrice simulate =>
      exact h.congr (hc.doSwap_sameLiquidity cfg env orderType amount limitSqrtPrice simulate)
  | setFeeRate rate =>
      show (if rate.val ≤ cfg.maxFeeRate.val then _ else pool : Pool A).Ledger
      split
      · exact h.congr (.of_ticks rfl rfl)
      · exact h
  | toggleUserLiquidity enable => exact h.congr (.of_ticks rfl rfl)
  | adjustProtocol taoDelta alphaDelta => exact absurd trivial hop
  | otherSubnet positions => exact h.congr (.of_ticks rfl rfl)

theorem liquidityOfReserves_pos {tao alpha : U64} (htao : 0 < tao.val) (halpha : 0 < alpha.val) :
    0 < (liquidityOfReserves tao alpha).val :=
  Nat.sqrt_pos.mpr (Nat.mul_pos htao halpha)

theorem Initial.ledger (h : Initial cfg pool) : pool.Ledger := by
  refine h.tickAccounting.ledger ?_
  rcases h with ⟨env, feeRate, enabled, lastPositionId, htao, halpha, hinit⟩
  rcases maybeInitializeV3_ok hinit rfl with ⟨price, rfl⟩
  intro key position hlook
  have hone := cfg.minimumReserve_pos
  have hpos : 0 < (liquidityOfReserves env.taoReserve env.alphaReserve).val :=
    liquidityOfReserves_pos (by omega) (by omega)
  rcases eq_or_ne key (cfg.protocolAccountId, lastPositionId.satAdd (.sat 1)) with rfl | hne
  · cases (AList.lookup_insert _).symm.trans hlook
    exact hpos
  · cases ((AList.lookup_insert_ne hne).symm.trans hlook)

theorem Reachable.ledger {C : Pool A → Op A → Prop} (hmin : 0 < cfg.minimumLiquidity.val)
    (hC : ∀ pool op, C pool op → pool.Fits op ∧ ¬op.Injects) (h : Reachable cfg C pool) :
    pool.Consistent ∧ pool.IdsIssued ∧ pool.Ledger := by
  refine h.invariant (I := fun q => q.Consistent ∧ q.IdsIssued ∧ q.Ledger) ?_ ?_
  · intro q hq
    exact ⟨hq.consistent, hq.idsIssued, hq.ledger⟩
  · rintro q op hop ⟨hc, hids, hledger⟩
    rcases hC q op hop with ⟨hfits, hinjects⟩
    exact ⟨hc.step cfg op, hids.step op, hledger.step hc hids hmin hfits hinjects⟩

/-- **The tick accounting holds in every run.** Adding, removing and modifying
positions and swapping keep ticks and bitmap what the positions say, as long as
the sums fit. -/
theorem Reachable.ticksMatch (hmin : 0 < cfg.minimumLiquidity.val)
    (h : Reachable cfg (fun pool op => pool.Fits op ∧ ¬op.Injects) pool) :
    pool.TickAccounting := by
  rcases h.ledger hmin (fun _ _ hop => hop) with ⟨hc, -, hledger⟩
  exact hledger.tickAccounting hc.indexed

/-! ## A run in the small pool -/

/-- A small position around the price of one. -/
def addSmall : Op ℕ := .addLiquidity mockEnv 10 1 (-10) 10 (.sat 100000)

/-- A sale that moves the price out of its range. -/
def sellThrough : Op ℕ := .swap mockEnv .sell (.sat 1000000) ⟨2 ^ 63, half_price_lt⟩ false

theorem mockPool_fits_addSmall : mockPool.Fits addSmall := by
  refine ⟨?_, by decide +kernel⟩
  intro t
  have hle := mockPool.positionsGross_le t
  have hl : (Word.sat 100000 : U64).val = 100000 := by decide
  rw [mockPool_liquidity] at hle
  show mockPool.positionsGross t + rangeGross (-10) 10 (.sat 100000) t < 2 ^ 64
  unfold rangeGross
  rw [hl]
  split_ifs <;> omega

theorem addSmall_liquidity : sumBy (fun _ position => 2 * position.liquidity.val)
    (mockPool.step mockConfig addSmall).positions = 2000200000 := by decide +kernel

theorem addSmall_fits_sellThrough : (mockPool.step mockConfig addSmall).Fits sellThrough := by
  refine ⟨?_, by decide +kernel⟩
  intro t
  have hle := (mockPool.step mockConfig addSmall).positionsGross_le t
  rw [addSmall_liquidity] at hle
  show (mockPool.step mockConfig addSmall).positionsGross t + 0 < _
  omega

theorem Reachable.ticksMatch_mockPool :
    ((mockPool.step mockConfig addSmall).step mockConfig sellThrough).TickAccounting :=
  Reachable.ticksMatch (by decide) (.step sellThrough
    (.step addSmall (.init mockPool_initial) ⟨mockPool_fits_addSmall, not_false⟩)
    ⟨addSmall_fits_sellThrough, not_false⟩)

end Pool

end Subtensor.Swap
