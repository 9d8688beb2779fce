import Subtensor.Swap.SwapStep

/-!
# Runs of a pool

The calls that change the storage of a pool, and the states that sequences of
them reach from the initialisation of the pool.
-/

namespace Subtensor.Swap

open Subtensor.Lib

/-- A call on the subnet, with what it reads from the rest of the chain. -/
inductive Op (A : Type) where
  | addLiquidity (env : Env A) (coldkey hotkey : A) (tickLow tickHigh : ℤ) (liquidity : U64)
  | removeLiquidity (coldkey : A) (positionId : PositionId)
  | modifyPosition (env : Env A) (coldkey hotkey : A) (positionId : PositionId)
      (liquidityDelta : I64)
  | swap (env : Env A) (orderType : OrderType) (amount : U64) (limitSqrtPrice : SqrtPrice)
      (simulate : Bool)
  | setFeeRate (rate : U16)
  | toggleUserLiquidity (enable : Bool)
  /-- Protocol liquidity is injected. -/
  | adjustProtocol (taoDelta alphaDelta : U64)
  /-- Positions are added on other subnets. -/
  | otherSubnet (positions : ℕ)

namespace Pool

variable {A : Type} [DecidableEq A]

/-- A failed dispatch leaves the storage as it was. -/
def okOr {R : Type} (pool : Pool A) (result : Except SwapError (Pool A × R)) : Pool A :=
  match result with
  | .ok (pool', _) => pool'
  | .error _ => pool

def step (cfg : Config A) (pool : Pool A) : Op A → Pool A
  | .addLiquidity env coldkey hotkey tickLow tickHigh liquidity =>
      pool.okOr (pool.doAddLiquidity cfg env coldkey hotkey tickLow tickHigh liquidity)
  | .removeLiquidity coldkey positionId => pool.okOr (pool.doRemoveLiquidity coldkey positionId)
  | .modifyPosition env coldkey hotkey positionId liquidityDelta =>
      pool.okOr (pool.doModifyPosition cfg env coldkey hotkey positionId liquidityDelta)
  | .swap env orderType amount limitSqrtPrice simulate =>
      (pool.doSwap cfg env orderType amount limitSqrtPrice simulate).1
  | .setFeeRate rate =>
      if rate.val ≤ cfg.maxFeeRate.val then { pool with feeRate := rate } else pool
  | .toggleUserLiquidity enable => { pool with enabledUserLiquidity := enable }
  | .adjustProtocol taoDelta alphaDelta => pool.adjustProtocolLiquidity cfg taoDelta alphaDelta
  | .otherSubnet positions =>
      { pool with lastPositionId := pool.lastPositionId.satAdd (.sat positions) }

def run (cfg : Config A) (pool : Pool A) (ops : List (Op A)) : Pool A :=
  ops.foldl (step cfg) pool

/-- The pool right after its initialisation, for which `swap_inner` demands
the minimum reserves. -/
def Initial (cfg : Config A) (pool : Pool A) : Prop :=
  ∃ (env : Env A) (feeRate : U16) (enabled : Bool) (lastPositionId : U128),
    cfg.minimumReserve.val ≤ env.taoReserve.val ∧
    cfg.minimumReserve.val ≤ env.alphaReserve.val ∧
    (fresh feeRate enabled lastPositionId).maybeInitializeV3 cfg env = .ok pool

/-- The states reached from the initialisation by calls that all meet a
condition on the state before the call. -/
inductive Reachable (cfg : Config A) (C : Pool A → Op A → Prop) : Pool A → Prop where
  | init {pool : Pool A} : Initial cfg pool → Reachable cfg C pool
  | step {pool : Pool A} (op : Op A) :
      Reachable cfg C pool → C pool op → Reachable cfg C (pool.step cfg op)

/-- An invariant that holds initially and that every such call keeps, holds
in every reachable state. -/
theorem Reachable.invariant {cfg : Config A} {C : Pool A → Op A → Prop} {I : Pool A → Prop}
    (hinit : ∀ pool, Initial cfg pool → I pool)
    (hstep : ∀ pool op, C pool op → I pool → I (pool.step cfg op))
    {pool : Pool A} (h : Reachable cfg C pool) : I pool := by
  induction h with
  | init h => exact hinit _ h
  | step op _ hC ih => exact hstep _ op hC ih

end Pool

end Subtensor.Swap
