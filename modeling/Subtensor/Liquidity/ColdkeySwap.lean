import Subtensor.Accounts.KeySwaps
import Subtensor.Liquidity.Issuance

/-!
# Positions and a swap of coldkeys

The positions of the swap pallet are stored under the coldkey that provides the liquidity. A
swap of coldkeys moves what the main pallet stores (`swap/swap_coldkey.rs`) and never calls the
swap pallet: the positions stay where they are, and only the old coldkey can remove them.
-/

namespace Subtensor.Chain

open Lib Subtensor.Swap

variable {A B : Type} [DecidableEq A] {rt : Runtime A B (SwapStorage A)}
  {chain chain' : Chain A B (SwapStorage A)} {oldColdkey newColdkey coldkey : A}
  {netuid : NetUid} {positionId : PositionId} {swapCost : U64}

/-- The position that a coldkey holds on a subnet under an id. -/
def positionOf (chain : Chain A B (SwapStorage A)) (netuid : NetUid) (coldkey : A)
    (positionId : PositionId) : Option Position :=
  (chain.swap.pool netuid).positions.lookup (coldkey, positionId)

/-- The coldkey holds no position on any subnet. -/
def HoldsNoPosition (chain : Chain A B (SwapStorage A)) (coldkey : A) : Prop :=
  ∀ netuid positionId, chain.positionOf netuid coldkey positionId = none

/-- The positions went from the old to the new coldkey, which can remove them. -/
structure PositionsFollow (oldColdkey newColdkey : A) (chain chain' : Chain A B (SwapStorage A)) :
    Prop where
  left : chain'.HoldsNoPosition oldColdkey
  moved : ∀ netuid positionId position,
    chain.positionOf netuid oldColdkey positionId = some position →
      chain'.positionOf netuid newColdkey positionId = some position ∧
        ∃ pool result, (chain'.swap.pool netuid).doRemoveLiquidity newColdkey positionId =
          .ok (pool, result)

/-- A swap of coldkeys leaves the swap pallet alone. -/
theorem doSwapColdkey_swap
    (h : chain.doSwapColdkey rt oldColdkey newColdkey swapCost = .ok chain') :
    chain'.swap = chain.swap := by
  obtain ⟨-, -, ledger, lastBlocks, rfl⟩ := doSwapColdkey_ok h
  rfl

theorem doSwapColdkey_positionOf
    (h : chain.doSwapColdkey rt oldColdkey newColdkey swapCost = .ok chain') (netuid : NetUid)
    (coldkey : A) (positionId : PositionId) :
    chain'.positionOf netuid coldkey positionId = chain.positionOf netuid coldkey positionId := by
  rw [positionOf, positionOf, doSwapColdkey_swap h]

/-- Whoever could remove a position before the swap can remove it afterwards, and nobody else. -/
theorem doSwapColdkey_doRemoveLiquidity
    (h : chain.doSwapColdkey rt oldColdkey newColdkey swapCost = .ok chain') (netuid : NetUid)
    (coldkey : A) (positionId : PositionId) :
    (chain'.swap.pool netuid).doRemoveLiquidity coldkey positionId =
      (chain.swap.pool netuid).doRemoveLiquidity coldkey positionId := by
  rw [doSwapColdkey_swap h]

theorem doRemoveLiquidity_of_none (h : chain.positionOf netuid coldkey positionId = none) :
    (chain.swap.pool netuid).doRemoveLiquidity coldkey positionId = .error .liquidityNotFound := by
  unfold positionOf at h
  unfold Pool.doRemoveLiquidity
  rw [h]

/-- A position that the new coldkey did not hold cannot be removed by it. -/
theorem doSwapColdkey_liquidityNotFound
    (h : chain.doSwapColdkey rt oldColdkey newColdkey swapCost = .ok chain')
    (hnone : chain.positionOf netuid newColdkey positionId = none) :
    (chain'.swap.pool netuid).doRemoveLiquidity newColdkey positionId =
      .error .liquidityNotFound := by
  rw [doSwapColdkey_doRemoveLiquidity h]
  exact doRemoveLiquidity_of_none hnone

/-- **Positions and a swap of coldkeys.** After a swap that succeeds the positions of the old
coldkey are with the new one exactly if there were none. -/
theorem doSwapColdkey_positionsFollow_iff
    (h : chain.doSwapColdkey rt oldColdkey newColdkey swapCost = .ok chain') :
    PositionsFollow oldColdkey newColdkey chain chain' ↔ chain.HoldsNoPosition oldColdkey := by
  constructor
  · intro hfollow netuid positionId
    rw [← doSwapColdkey_positionOf h]
    exact hfollow.left netuid positionId
  · intro hnone
    refine ⟨?_, ?_⟩
    · intro netuid positionId
      rw [doSwapColdkey_positionOf h]
      exact hnone netuid positionId
    · intro netuid positionId position hposition
      rw [hnone netuid positionId] at hposition
      cases hposition

/-- The coldkey `10` provides no liquidity and is swapped for the coldkey `20`. -/
theorem doSwapColdkey_positionsFollow_iff_smallChain :
    ∃ chain', smallChain.doSwapColdkey runtime 10 20 (.sat 100000000) = .ok chain' ∧
      PositionsFollow 10 20 smallChain chain' := by
  have hswap : (smallChain.doSwapColdkey runtime 10 20 (.sat 100000000)).toOption.map
      (fun _ => ()) = some () := by decide +kernel
  obtain ⟨chain', hok, -⟩ := exists_ok_of_toOption_map hswap
  have hnone : smallChain.HoldsNoPosition 10 := by
    intro netuid positionId
    simp [positionOf, smallChain, SwapStorage.pool, SwapStorage.fresh, Pool.fresh]
  exact ⟨chain', hok, (doSwapColdkey_positionsFollow_iff hok).mpr hnone⟩

/-- The coldkey `10` has provided liquidity above the price of subnet `1`. -/
def positionChain : Chain ℕ (Balances ℕ) (SwapStorage ℕ) :=
  (providerChain.addLiquidity runtime swapConfig 10 1 (.sat 1) 15000 20000
    (.sat 100000000)).toOption.getD providerChain

/-- The position stays with the old coldkey `10`, and the new coldkey `20` cannot remove it. -/
theorem doSwapColdkey_leaves_position :
    ∃ chain', positionChain.doSwapColdkey runtime 10 20 (.sat 100000000) = .ok chain' ∧
      (chain'.positionOf (.sat 1) 10 (.sat 2)).isSome = true ∧
      chain'.positionOf (.sat 1) 20 (.sat 2) = none ∧
      (chain'.swap.pool (.sat 1)).doRemoveLiquidity 20 (.sat 2) = .error .liquidityNotFound := by
  have hswap : (positionChain.doSwapColdkey runtime 10 20 (.sat 100000000)).toOption.map
      (fun chain => ((chain.positionOf (.sat 1) 10 (.sat 2)).isSome,
        (chain.positionOf (.sat 1) 20 (.sat 2)).isNone)) = some (true, true) := by
    decide +kernel
  obtain ⟨chain', hok, hpositions⟩ := exists_ok_of_toOption_map hswap
  obtain ⟨hold, hnew⟩ := Prod.mk.inj hpositions
  have hnone := Option.isNone_iff_eq_none.mp hnew
  exact ⟨chain', hok, hold, hnone, doRemoveLiquidity_of_none hnone⟩

end Subtensor.Chain
