import Subtensor.Swap.Consistent

/-!
# Tick accounting

The ticks of a pool record its positions: a tick exists exactly if a stored
position ends at it, its gross liquidity is that of the positions that end at
it, and its net liquidity that of the positions that begin there less that of
the positions that stop there. Both sides are read as unbounded numbers; an
operation keeps them equal as long as the gross liquidity of a tick fits.
-/

namespace Subtensor.Swap

open Subtensor.Lib Subtensor.Lib.StorageMap

variable {A : Type}

/-! ## What the positions say -/

/-- The liquidity of a position that ends at a tick. -/
def Position.grossAt (position : Position) (t : ℤ) : ℕ :=
  (if position.tickLow = t then position.liquidity.val else 0) +
    if position.tickHigh = t then position.liquidity.val else 0

/-- The liquidity that a position brings in when a tick is crossed upwards. -/
def Position.netAt (position : Position) (t : ℤ) : ℤ :=
  (if position.tickLow = t then (position.liquidity.val : ℤ) else 0) -
    if position.tickHigh = t then (position.liquidity.val : ℤ) else 0

def Position.EndsAt (position : Position) (t : ℤ) : Prop :=
  position.tickLow = t ∨ position.tickHigh = t

theorem Position.natAbs_netAt_le (position : Position) (t : ℤ) :
    (position.netAt t).natAbs ≤ position.grossAt t := by
  unfold netAt grossAt
  split_ifs <;> omega

theorem Position.grossAt_of_not_endsAt {position : Position} {t : ℤ} (h : ¬position.EndsAt t) :
    position.grossAt t = 0 := by
  rcases not_or.mp h with ⟨hlo, hhi⟩
  rw [grossAt, if_neg hlo, if_neg hhi]

namespace Pool

def positionsGross (pool : Pool A) (t : ℤ) : ℕ :=
  sumBy (fun _ position => position.grossAt t) pool.positions

def positionsNet (pool : Pool A) (t : ℤ) : ℤ :=
  sumBy (fun _ position => position.netAt t) pool.positions

/-- The net liquidity of all positions is at most their gross liquidity. -/
theorem natAbs_positionsNet_le (pool : Pool A) (t : ℤ) :
    (pool.positionsNet t).natAbs ≤ pool.positionsGross t := by
  unfold positionsNet positionsGross sumBy
  induction pool.positions.entries with
  | nil => exact le_refl 0
  | cons e es ih =>
      have := e.2.natAbs_netAt_le t
      simp only [List.map_cons, List.sum_cons] at ih ⊢
      omega

/-! ## What the ticks say -/

def tickGross (pool : Pool A) (t : ℤ) : ℕ :=
  ((pool.ticks t).getD Tick.default).liquidityGross.val

def tickNet (pool : Pool A) (t : ℤ) : ℤ :=
  ((pool.ticks t).getD Tick.default).liquidityNet.val

/-- The change of the net liquidity at an end of a range. -/
def signedLiquidity (l : U64) (upper : Bool) : ℤ := if upper then -l.val else l.val

@[simp] theorem signedLiquidity_false (l : U64) : signedLiquidity l false = l.val := rfl

@[simp] theorem signedLiquidity_true (l : U64) : signedLiquidity l true = -l.val := rfl

theorem natAbs_signedLiquidity (l : U64) (upper : Bool) :
    (signedLiquidity l upper).natAbs = l.val := by
  cases upper
  · exact Int.natAbs_natCast _
  · exact (Int.natAbs_neg _).trans (Int.natAbs_natCast _)

theorem val_netChange (l : U64) (upper : Bool) :
    (if upper then negI128 l else asI128 l).val = signedLiquidity l upper := by
  cases upper <;> rfl

section

variable (pool : Pool A) {s t : ℤ} (l : U64) (upper : Bool)

/-- The tick that `add_liquidity_at_index` leaves. -/
def addedTick (t : ℤ) : Tick :=
  match pool.ticks t with
  | some tick =>
      { tick with
        liquidityNet := tick.liquidityNet.satAdd (if upper then negI128 l else asI128 l)
        liquidityGross := tick.liquidityGross.satAdd l }
  | none => pool.newTick t (if upper then negI128 l else asI128 l) l

/-- What `remove_liquidity_at_index` leaves of a tick. -/
def removedTick : Option Tick → Option Tick
  | none => none
  | some tick =>
      if tick.liquidityGross.satSub l = 0 then none
      else some { tick with
        liquidityNet := tick.liquidityNet.satSub (if upper then negI128 l else asI128 l)
        liquidityGross := tick.liquidityGross.satSub l }

theorem addLiquidityAtIndex_ticks (t : ℤ) : (pool.addLiquidityAtIndex t l upper).ticks =
    Function.update pool.ticks t (some (pool.addedTick l upper t)) := rfl

theorem removeLiquidityAtIndex_ticks (t : ℤ) : (pool.removeLiquidityAtIndex t l upper).ticks =
    Function.update pool.ticks t (removedTick l upper (pool.ticks t)) := by
  unfold removeLiquidityAtIndex removedTick
  cases htick : pool.ticks t with
  | none =>
      dsimp only
      rw [← htick, Function.update_eq_self]
  | some tick =>
      by_cases hgross : tick.liquidityGross.satSub l = 0
      · simp only [hgross, if_true]
      · simp only [hgross, if_false]

theorem newTick_net (net : I128) : (pool.newTick t net l).liquidityNet = net := by
  unfold newTick
  split_ifs <;> rfl

theorem newTick_gross (net : I128) : (pool.newTick t net l).liquidityGross = l := by
  unfold newTick
  split_ifs <;> rfl

theorem addedTick_gross : (pool.addedTick l upper t).liquidityGross.val =
    min (pool.tickGross t + l.val) (2 ^ 64 - 1) := by
  have hl := l.isLt
  unfold addedTick tickGross
  cases pool.ticks t with
  | none =>
      dsimp only [Option.getD_none]
      rw [newTick_gross, show (Tick.default.liquidityGross).val = 0 from rfl]
      omega
  | some tick => rfl

theorem addedTick_net (hnet : (pool.tickNet t).natAbs < 2 ^ 66) :
    (pool.addedTick l upper t).liquidityNet.val = pool.tickNet t + signedLiquidity l upper := by
  have hl := l.isLt
  have hsigned := natAbs_signedLiquidity l upper
  unfold addedTick tickNet at *
  cases htick : pool.ticks t with
  | none =>
      dsimp only [Option.getD_none]
      rw [newTick_net, val_netChange, show (Tick.default.liquidityNet).val = 0 from rfl, zero_add]
  | some tick =>
      rw [htick, Option.getD_some] at hnet
      dsimp only [Option.getD_some]
      rw [SWord.satAdd, val_netChange, SWord.val_sat_of_mem (by omega) (by omega)]

/-- Liquidity that was added to a tick is taken away again. -/
theorem removedTick_addedTick (hsome : (pool.ticks t).isSome → 0 < pool.tickGross t)
    (hfits : pool.tickGross t + l.val < 2 ^ 64) (hnet : (pool.tickNet t).natAbs < 2 ^ 66) :
    removedTick l upper (some (pool.addedTick l upper t)) = pool.ticks t := by
  have hl := l.isLt
  have hsigned := natAbs_signedLiquidity l upper
  have hgross := pool.addedTick_gross (t := t) l upper
  have hchange := pool.addedTick_net l upper hnet
  cases htick : pool.ticks t with
  | none =>
      have hzero : pool.tickGross t = 0 := by
        rw [tickGross, htick]
        rfl
      have hgone : (pool.addedTick l upper t).liquidityGross.satSub l = 0 := by
        ext
        rw [Word.val_satSub, hgross, hzero, Word.val_zero]
        omega
      exact if_pos hgone
  | some tick =>
      rw [tickGross, htick, Option.getD_some] at hgross hfits hsome
      rw [tickNet, htick, Option.getD_some] at hchange hnet
      have hpos := hsome rfl
      have hback : (pool.addedTick l upper t).liquidityGross.satSub l = tick.liquidityGross := by
        ext
        rw [Word.val_satSub, hgross]
        omega
      have hkept : ¬(pool.addedTick l upper t).liquidityGross.satSub l = 0 := by
        rw [hback]
        intro hzero
        rw [hzero] at hpos
        exact Nat.lt_irrefl 0 hpos
      have hnetBack : (pool.addedTick l upper t).liquidityNet.satSub
          (if upper then negI128 l else asI128 l) = tick.liquidityNet := by
        ext
        rw [SWord.satSub, val_netChange, hchange, SWord.val_sat_of_mem (by omega) (by omega)]
        omega
      refine (if_neg hkept).trans (congrArg some ?_)
      rw [hback, hnetBack]
      unfold addedTick
      rw [htick]

theorem addLiquidityAtIndex_isSome : ((pool.addLiquidityAtIndex t l upper).ticks s).isSome ↔
    t = s ∨ (pool.ticks s).isSome := by
  rw [addLiquidityAtIndex_ticks]
  rcases eq_or_ne s t with rfl | hne
  · simp
  · rw [Function.update_of_ne hne]
    simp [hne.symm]

theorem addLiquidityAtIndex_tickGross (hfits : pool.tickGross t + l.val < 2 ^ 64) :
    (pool.addLiquidityAtIndex t l upper).tickGross s =
      pool.tickGross s + if t = s then l.val else 0 := by
  rw [tickGross, addLiquidityAtIndex_ticks]
  rcases eq_or_ne s t with rfl | hne
  · rw [Function.update_self, Option.getD_some, addedTick_gross, if_pos rfl]
    omega
  · rw [Function.update_of_ne hne, if_neg hne.symm, add_zero]
    rfl

theorem addLiquidityAtIndex_tickNet (hnet : (pool.tickNet t).natAbs < 2 ^ 66) :
    (pool.addLiquidityAtIndex t l upper).tickNet s =
      pool.tickNet s + if t = s then signedLiquidity l upper else 0 := by
  rw [tickNet, addLiquidityAtIndex_ticks]
  rcases eq_or_ne s t with rfl | hne
  · rw [Function.update_self, Option.getD_some, addedTick_net _ _ _ hnet, if_pos rfl]
  · rw [Function.update_of_ne hne, if_neg hne.symm, add_zero]
    rfl

end

/-! ## Accounting -/

/-- A stored position ends at the tick. -/
def IsEndpoint (pool : Pool A) (t : ℤ) [DecidableEq A] : Prop :=
  ∃ key position, pool.positions.lookup key = some position ∧ position.EndsAt t

variable [DecidableEq A] {pool : Pool A} {owner : A} {lo hi t : ℤ} {l : U64}

/-- The ticks, and the bitmap over them, are what the positions say. -/
structure TickAccounting (pool : Pool A) : Prop where
  exists_iff : ∀ t, (pool.ticks t).isSome ↔ pool.IsEndpoint t
  gross : ∀ t, pool.tickGross t = pool.positionsGross t
  net : ∀ t, pool.tickNet t = pool.positionsNet t
  indexed : pool.TicksIndexed

theorem TickAccounting.natAbs_net_lt (h : pool.TickAccounting) (t : ℤ) :
    (pool.tickNet t).natAbs < 2 ^ 64 := by
  rw [h.net]
  refine lt_of_le_of_lt (pool.natAbs_positionsNet_le t) ?_
  rw [← h.gross]
  exact Word.isLt _

omit [DecidableEq A] in
theorem addLiquidityToTicks_ticks (pool : Pool A) (lo hi : ℤ) (l : U64) :
    (pool.addLiquidityToTicks lo hi l).ticks =
      ((pool.addLiquidityAtIndex lo l false).addLiquidityAtIndex hi l true).ticks := by
  rcases addLiquidityToTicks_frame pool lo hi l with ⟨price, liq, hframe⟩
  rw [hframe]

theorem withPosition_positionsGross (hfresh : pool.positions.lookup (owner, pool.nextId) = none)
    (t : ℤ) : (pool.withPosition owner lo hi l).positionsGross t =
      ((if lo = t then l.val else 0) + if hi = t then l.val else 0) + pool.positionsGross t :=
  sumBy_insert_new _ _ hfresh

theorem withPosition_positionsNet (hfresh : pool.positions.lookup (owner, pool.nextId) = none)
    (t : ℤ) : (pool.withPosition owner lo hi l).positionsNet t =
      ((if lo = t then (l.val : ℤ) else 0) - if hi = t then (l.val : ℤ) else 0) +
        pool.positionsNet t :=
  sumBy_insert_new _ _ hfresh

theorem withPosition_isEndpoint (hfresh : pool.positions.lookup (owner, pool.nextId) = none) :
    (pool.withPosition owner lo hi l).IsEndpoint t ↔ (lo = t ∨ hi = t) ∨ pool.IsEndpoint t := by
  constructor
  · rintro ⟨key, position, hlook, hends⟩
    rcases eq_or_ne key (owner, pool.nextId) with rfl | hne
    · cases (AList.lookup_insert pool.positions).symm.trans hlook
      exact Or.inl hends
    · exact Or.inr ⟨key, position, (AList.lookup_insert_ne hne).symm.trans hlook, hends⟩
  · rintro (hends | ⟨key, position, hlook, hends⟩)
    · exact ⟨(owner, pool.nextId), _, AList.lookup_insert _, hends⟩
    · refine ⟨key, position, (AList.lookup_insert_ne ?_).trans hlook, hends⟩
      rintro rfl
      rw [hfresh] at hlook
      cases hlook

/-- Adding a position keeps the accounting while the gross liquidity fits. -/
theorem TickAccounting.withPosition (h : pool.TickAccounting)
    (hfresh : pool.positions.lookup (owner, pool.nextId) = none)
    (hlo : InBounds lo) (hhi : InBounds hi)
    (hfits : ∀ t, (pool.withPosition owner lo hi l).positionsGross t < 2 ^ 64) :
    (pool.withPosition owner lo hi l).TickAccounting := by
  have hl := l.isLt
  have hticks : (pool.withPosition owner lo hi l).ticks =
      ((pool.addLiquidityAtIndex lo l false).addLiquidityAtIndex hi l true).ticks :=
    addLiquidityToTicks_ticks pool lo hi l
  have hgrossLo : pool.tickGross lo + l.val < 2 ^ 64 := by
    have := hfits lo
    rw [withPosition_positionsGross hfresh, if_pos rfl] at this
    rw [h.gross]
    omega
  have hgrossHi : (pool.addLiquidityAtIndex lo l false).tickGross hi + l.val < 2 ^ 64 := by
    have := hfits hi
    rw [withPosition_positionsGross hfresh, if_pos rfl] at this
    rw [addLiquidityAtIndex_tickGross _ _ _ hgrossLo, h.gross]
    omega
  have hnetLo := h.natAbs_net_lt lo
  have hnetHi : ((pool.addLiquidityAtIndex lo l false).tickNet hi).natAbs < 2 ^ 66 := by
    have hbound := h.natAbs_net_lt hi
    have hsigned := natAbs_signedLiquidity l false
    rw [addLiquidityAtIndex_tickNet _ _ _ (by omega)]
    split_ifs <;> omega
  constructor
  · intro t
    rw [hticks, addLiquidityAtIndex_isSome, addLiquidityAtIndex_isSome, h.exists_iff,
      withPosition_isEndpoint hfresh]
    tauto
  · intro t
    rw [tickGross, hticks, ← tickGross, addLiquidityAtIndex_tickGross _ _ _ hgrossHi,
      addLiquidityAtIndex_tickGross _ _ _ hgrossLo, h.gross, withPosition_positionsGross hfresh]
    ring
  · intro t
    rw [tickNet, hticks, ← tickNet, addLiquidityAtIndex_tickNet _ _ _ hnetHi,
      addLiquidityAtIndex_tickNet _ _ _ (by omega), h.net, withPosition_positionsNet hfresh]
    rw [signedLiquidity_false, signedLiquidity_true]
    split_ifs <;> ring
  · have hindexed := (h.indexed.addLiquidityAtIndex hlo l false).addLiquidityAtIndex hhi l true
    rcases addLiquidityToTicks_frame pool lo hi l with ⟨price, liq, hframe⟩
    show (pool.addLiquidityToTicks lo hi l).TicksIndexed
    rw [hframe]
    exact hindexed

/-! ## The initial pool -/

theorem tickAccounting_fresh (feeRate : U16) (enabled : Bool) (lastPositionId : U128) :
    (Pool.fresh (A := A) feeRate enabled lastPositionId).TickAccounting := by
  refine ⟨?_, fun _ => rfl, fun _ => rfl, ticksIndexed_fresh feeRate enabled lastPositionId⟩
  intro t
  constructor
  · rintro ⟨⟩
  · rintro ⟨key, position, hlook, -⟩
    cases (AList.lookup_empty key).symm.trans hlook

theorem Initial.tickAccounting {cfg : Config A} (h : Initial cfg pool) : pool.TickAccounting := by
  rcases h with ⟨env, feeRate, enabled, lastPositionId, -, -, hinit⟩
  rcases maybeInitializeV3_ok hinit rfl with ⟨price, rfl⟩
  have hfresh := tickAccounting_fresh (A := A) feeRate enabled lastPositionId
  have hl := (liquidityOfReserves env.taoReserve env.alphaReserve).isLt
  refine TickAccounting.withPosition ⟨hfresh.exists_iff, hfresh.gross, hfresh.net, hfresh.indexed⟩
    (AList.lookup_empty _) (by decide) (by decide) ?_
  intro t
  rw [withPosition_positionsGross (AList.lookup_empty _),
    show positionsGross (_ : Pool A) t = 0 from rfl]
  have hne : TickIndex.MIN ≠ TickIndex.MAX := by decide
  split_ifs <;> omega

end Pool

end Subtensor.Swap
