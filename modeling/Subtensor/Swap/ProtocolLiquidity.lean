import Subtensor.Swap.PositionCap
import Subtensor.Swap.TickAccounting

/-!
# Injected liquidity

Every block adds liquidity to the position of the protocol account
(`adjust_protocol_liquidity` in `pallets/swap/src/pallet/impls.rs`). The
liquidity of a position is recorded in three more places: at its two ticks, and
in the current liquidity while the current tick is in its range. An injection
writes to the position only.
-/

namespace Subtensor.Swap

open Subtensor.Lib Subtensor.Lib.StorageMap

variable {A : Type}

/-- The liquidity that a position gives to trades at a tick. -/
def Position.liquidityAt (position : Position) (t : ℤ) : ℕ :=
  if position.tickLow ≤ t ∧ t < position.tickHigh then position.liquidity.val else 0

namespace Pool

/-- The liquidity of the positions whose range holds a tick. -/
def positionsLiquidity (pool : Pool A) (t : ℤ) : ℕ :=
  sumBy (fun _ position => position.liquidityAt t) pool.positions

/-- Ticks and current liquidity are what the positions record. -/
structure LiquidityMatches (pool : Pool A) : Prop where
  gross : ∀ t, pool.tickGross t = pool.positionsGross t
  net : ∀ t, pool.tickNet t = pool.positionsNet t
  current : pool.currentLiquidity.val = pool.positionsLiquidity pool.currentTick

variable [DecidableEq A]

/-- The entry of the position that is adjusted, the first of the protocol account. -/
def protocolEntry (cfg : Config A) (pool : Pool A) :
    Option (Sigma fun _ : A × PositionId => Position) :=
  (pool.positions.entries.filter fun e => e.1.1 = cfg.protocolAccountId).head?

/-- The reserves that an injection makes out of the amounts of the protocol's
position have the liquidity of the position as their root already. -/
def InjectionAbsorbed (cfg : Config A) (pool : Pool A) (taoDelta alphaDelta : U64) : Prop :=
  ∀ e tao alpha, pool.protocolEntry cfg = some e →
    e.2.toTokenAmounts pool.currentPriceSqrt = .ok (tao, alpha) →
      e.2.liquidity.val ^ 2 ≤ (tao.satAdd taoDelta).val * (alpha.satAdd alphaDelta).val ∧
        (tao.satAdd taoDelta).val * (alpha.satAdd alphaDelta).val < (e.2.liquidity.val + 1) ^ 2

variable {cfg : Config A} {pool : Pool A}

theorem protocolEntry_lookup {e : Sigma fun _ : A × PositionId => Position}
    (h : pool.protocolEntry cfg = some e) :
    pool.positions.lookup e.1 = some e.2 ∧ e.1.1 = cfg.protocolAccountId := by
  have hmem := List.mem_filter.mp (List.mem_of_head? h)
  exact ⟨mem_entries_iff.mp hmem.1, by simpa using hmem.2⟩

/-- **What an injection does.** -/
theorem adjustProtocolLiquidity_cases (cfg : Config A) (hids : pool.IdsIssued)
    (taoDelta alphaDelta : U64) :
    (pool.adjustProtocolLiquidity cfg taoDelta alphaDelta = pool ∧
        ∀ e, pool.protocolEntry cfg = some e →
          ∀ r, e.2.toTokenAmounts pool.currentPriceSqrt ≠ .ok r) ∨
      ∃ e tao alpha, pool.protocolEntry cfg = some e ∧
        e.2.toTokenAmounts pool.currentPriceSqrt = .ok (tao, alpha) ∧
        pool.adjustProtocolLiquidity cfg taoDelta alphaDelta =
          { pool with positions := pool.positions.insert e.1 { e.2 with
            liquidity :=
              liquidityOfReserves (tao.satAdd taoDelta) (alpha.satAdd alphaDelta) } } := by
  unfold adjustProtocolLiquidity
  rw [← protocolEntry]
  cases hentry : pool.protocolEntry cfg with
  | none =>
      left
      refine ⟨rfl, ?_⟩
      rintro e ⟨⟩
  | some e =>
      rcases protocolEntry_lookup hentry with ⟨hlook, howner⟩
      have hkey : (cfg.protocolAccountId, e.2.id) = e.1 := by
        rw [(hids e.1 e.2 hlook).1, ← howner]
      dsimp only
      cases hamounts : e.2.toTokenAmounts pool.currentPriceSqrt with
      | error err =>
          left
          refine ⟨rfl, ?_⟩
          rintro e' ⟨⟩ r hr
          rw [hamounts] at hr
          cases hr
      | ok r =>
          right
          refine ⟨e, r.1, r.2, rfl, hamounts, ?_⟩
          dsimp only
          rw [hkey]

/-- A position that is written again with another liquidity no longer has the
liquidity of its ticks. -/
theorem LiquidityMatches.insert_iff (h : pool.LiquidityMatches) {key : A × PositionId}
    {position : Position} (hlook : pool.positions.lookup key = some position) (l : U64) :
    ({ pool with positions := pool.positions.insert key { position with liquidity := l } } :
      Pool A).LiquidityMatches ↔ l = position.liquidity := by
  constructor
  · intro hafter
    have hgross := (hafter.gross position.tickLow).symm.trans (h.gross position.tickLow)
    unfold positionsGross at hgross
    rw [sumBy_insert, sumBy_erase _ hlook] at hgross
    unfold Position.grossAt at hgross
    ext
    simp only [if_true] at hgross
    split_ifs at hgross <;> omega
  · rintro rfl
    have hsame : ∀ k, (pool.positions.insert key position).lookup k = pool.positions.lookup k := by
      intro k
      rcases eq_or_ne k key with rfl | hne
      · rw [AList.lookup_insert, hlook]
      · exact AList.lookup_insert_ne hne
    constructor
    · intro t
      refine (h.gross t).trans (sumBy_congr_lookup _ ?_)
      intro k
      rw [hsame]
    · intro t
      refine (h.net t).trans (sumBy_congr_lookup _ ?_)
      intro k
      rw [hsame]
    · refine h.current.trans (sumBy_congr_lookup _ ?_)
      intro k
      rw [hsame]

/-- **An injection keeps ticks, positions and current liquidity in agreement
exactly if it leaves the liquidity of the protocol's position as it was.** -/
theorem adjustProtocolLiquidity_matches_iff (hids : pool.IdsIssued) (h : pool.LiquidityMatches)
    (taoDelta alphaDelta : U64) :
    (pool.adjustProtocolLiquidity cfg taoDelta alphaDelta).LiquidityMatches ↔
      pool.InjectionAbsorbed cfg taoDelta alphaDelta := by
  rcases adjustProtocolLiquidity_cases cfg hids taoDelta alphaDelta with
    ⟨hsame, hnone⟩ | ⟨e, tao, alpha, hentry, hamounts, hadjusted⟩
  · rw [hsame]
    refine ⟨?_, fun _ => h⟩
    intro _ e tao alpha hentry hamounts
    exact absurd hamounts (hnone e hentry _)
  · rw [hadjusted, h.insert_iff (protocolEntry_lookup hentry).1]
    have hroot : liquidityOfReserves (tao.satAdd taoDelta) (alpha.satAdd alphaDelta) =
        e.2.liquidity ↔ e.2.liquidity.val =
          Nat.sqrt ((tao.satAdd taoDelta).val * (alpha.satAdd alphaDelta).val) := by
      rw [eq_comm, Word.ext_iff]
      rfl
    rw [hroot, Nat.eq_sqrt']
    constructor
    · rintro habsorbed e' tao' alpha' hentry' hamounts'
      cases hentry.symm.trans hentry'
      cases hamounts.symm.trans hamounts'
      exact habsorbed
    · intro habsorbed
      exact habsorbed e tao alpha hentry hamounts

/-! ## The pool at the price of one -/

omit [DecidableEq A] in
theorem mockPool_liquidityMatches : mockPool.LiquidityMatches :=
  ⟨mockPool_initial.tickAccounting.gross, mockPool_initial.tickAccounting.net,
    by decide +kernel⟩

/-- One unit of either token makes up for what rounding takes. -/
theorem adjustProtocolLiquidity_matches_mockPool :
    (mockPool.adjustProtocolLiquidity mockConfig (.sat 1) (.sat 1)).LiquidityMatches := by
  refine (adjustProtocolLiquidity_matches_iff mockPool_initial.idsIssued mockPool_liquidityMatches
    _ _).mpr ?_
  have hposition : (mockPool.protocolEntry mockConfig).map (fun e => (e.2.liquidity.val,
      (e.2.toTokenAmounts mockPool.currentPriceSqrt).toOption.map fun r => (r.1.val, r.2.val))) =
      some (1000000000, some (999999999, 999999999)) := by decide +kernel
  intro e tao alpha hentry hamounts
  rw [hentry, Option.map_some, hamounts] at hposition
  simp only [Except.toOption, Option.map_some, Option.some.injEq, Prod.mk.injEq] at hposition
  rcases hposition with ⟨hliquidity, htao, halpha⟩
  rw [Word.val_satAdd, Word.val_satAdd, hliquidity, htao, halpha]
  decide

/-- A million of either token goes to the position, and to nothing else. -/
theorem adjustProtocolLiquidity_mismatch : Initial mockConfig mockPool ∧
    mockPool.LiquidityMatches ∧
      ¬(mockPool.adjustProtocolLiquidity mockConfig (.sat 1000000)
        (.sat 1000000)).LiquidityMatches := by
  refine ⟨mockPool_initial, mockPool_liquidityMatches, ?_⟩
  intro hafter
  have hgross := hafter.gross TickIndex.MIN
  revert hgross
  decide +kernel

end Pool

end Subtensor.Swap
