import Subtensor.Pallet.Instances
import Subtensor.Staking.Stake

/-!
# Calls of liquidity providers

The extrinsics of the swap pallet that add, remove and modify a position
(`pallets/swap/src/pallet/mod.rs`). The positions are kept by the swap pallet;
the balances, the stake and the reserves are reached through `BalanceOps`,
which the main pallet implements (`pallets/subtensor/src/lib.rs`).
-/

namespace Subtensor.Chain

open Lib

variable {A B : Type} [DecidableEq A]

/-! ## `BalanceOps` -/

/-- What the swap pallet reads of a subnet and of accounts. -/
def balanceEnv {P : Type} (rt : Runtime A B P) (chain : Chain A B P) (netuid : NetUid) :
    Swap.Env A where
  taoReserve := chain.taoReserve netuid
  alphaReserve := chain.alphaReserve netuid
  taoBalance := fun account => rt.currency.freeBalance chain.ledger.currency account
  alphaBalance := fun coldkey hotkey =>
    chain.getStakeForHotkeyAndColdkeyOnSubnet hotkey coldkey netuid

/-- `increase_stake`; the alpha is in circulation again. -/
def increaseStake {P : Type} (chain : Chain A B P) (coldkey hotkey : A) (netuid : NetUid)
    (alpha : U64) : Except Error (Chain A B P) :=
  if ¬chain.hotkeyAccountExists hotkey then .error .hotKeyAccountNotExists
  else
    let chain := chain.withReserves netuid fun reserves =>
      { reserves with subnetAlphaOut := reserves.subnetAlphaOut.satAdd alpha }
    .ok (chain.increaseStakeForHotkeyAndColdkeyOnSubnet hotkey coldkey netuid alpha).1

/-- `decrease_stake`, with the alpha that was taken. -/
def decreaseStake {P : Type} (chain : Chain A B P) (coldkey hotkey : A) (netuid : NetUid)
    (alpha : U64) : Except Error (Chain A B P × U64) :=
  if ¬chain.hotkeyAccountExists hotkey then .error .hotKeyAccountNotExists
  else
    let chain := chain.withReserves netuid fun reserves =>
      { reserves with subnetAlphaOut := reserves.subnetAlphaOut.satSub alpha }
    .ok (chain.decreaseStakeForHotkeyAndColdkeyOnSubnet hotkey coldkey netuid alpha)

def increaseProvidedReserves (reserves : Reserves) (tao alpha : U64) : Reserves :=
  { reserves with
    subnetTaoProvided := reserves.subnetTaoProvided.satAdd tao
    subnetAlphaInProvided := reserves.subnetAlphaInProvided.satAdd alpha }

def decreaseProvidedReserves (reserves : Reserves) (tao alpha : U64) : Reserves :=
  decreaseProvidedAlphaReserve (decreaseProvidedTaoReserve reserves tao) alpha

/-- TAO and alpha of the caller are taken, exactly as much as is asked for. -/
def provide {P : Type} (rt : Runtime A B P) (chain : Chain A B P) (coldkey hotkey : A)
    (netuid : NetUid) (tao alpha : U64) : Except Error (Chain A B P) :=
  match chain.removeBalanceFromColdkeyAccount rt coldkey tao with
  | .error e => .error e
  | .ok (chain, taoProvided) =>
      if ¬taoProvided = tao then .error .insufficientBalance
      else match chain.decreaseStake coldkey hotkey netuid alpha with
      | .error e => .error e
      | .ok (chain, alphaProvided) =>
          if ¬alphaProvided = alpha then .error .insufficientBalance else .ok chain

/-- TAO and alpha are credited to the caller. -/
def credit {P : Type} (rt : Runtime A B P) (chain : Chain A B P) (coldkey hotkey : A)
    (netuid : NetUid) (tao alpha : U64) : Except Error (Chain A B P) :=
  (chain.addBalanceToColdkeyAccount rt coldkey tao).increaseStake coldkey hotkey netuid alpha

/-! ## Calls -/

/-- The chain with another pool of a subnet. -/
def withPool (chain : Chain A B (SwapStorage A)) (netuid : NetUid) (pool : Swap.Pool A) :
    Chain A B (SwapStorage A) :=
  chain.withSwap (chain.swap.put netuid pool)

def addLiquidity (rt : Runtime A B (SwapStorage A)) (cfg : Swap.Config A)
    (chain : Chain A B (SwapStorage A)) (coldkey hotkey : A) (netuid : NetUid)
    (tickLow tickHigh : ℤ) (liquidity : U64) : Except Error (Chain A B (SwapStorage A)) :=
  if ¬chain.ifSubnetExist netuid then .error .subNetworkDoesNotExist
  else match swapError ((chain.swap.pool netuid).doAddLiquidity cfg (chain.balanceEnv rt netuid)
      coldkey hotkey tickLow tickHigh liquidity) with
  | .error e => .error e
  | .ok (pool, _, tao, alpha) =>
      match (chain.withPool netuid pool).provide rt coldkey hotkey netuid tao alpha with
      | .error e => .error e
      | .ok chain =>
          .ok (chain.withReserves netuid fun reserves => increaseProvidedReserves reserves tao alpha)

def removeLiquidity (rt : Runtime A B (SwapStorage A)) (chain : Chain A B (SwapStorage A))
    (coldkey hotkey : A) (netuid : NetUid) (positionId : Swap.PositionId) :
    Except Error (Chain A B (SwapStorage A)) :=
  if ¬chain.ifSubnetExist netuid then .error .subNetworkDoesNotExist
  else match swapError ((chain.swap.pool netuid).doRemoveLiquidity coldkey positionId) with
  | .error e => .error e
  | .ok (pool, result) =>
      match (chain.withPool netuid pool).credit rt coldkey hotkey netuid
          (result.tao.satAdd result.feeTao) (result.alpha.satAdd result.feeAlpha) with
      | .error e => .error e
      | .ok chain =>
          .ok (chain.withReserves netuid fun reserves =>
            decreaseProvidedReserves reserves result.tao result.alpha)

/-- The end of `modify_position`: fees are credited, no matter if liquidity
was added or removed. -/
def creditFees {P : Type} (rt : Runtime A B P) (chain : Chain A B P) (coldkey hotkey : A)
    (netuid : NetUid) (feeTao feeAlpha : U64) : Except Error (Chain A B P) :=
  let chain := if 0 < feeTao.val then chain.addBalanceToColdkeyAccount rt coldkey feeTao else chain
  if 0 < feeAlpha.val then chain.increaseStake coldkey hotkey netuid feeAlpha else .ok chain

/-- `modify_position`; unlike the other two calls it leaves the reserves that
users provided as they are. -/
def modifyPosition (rt : Runtime A B (SwapStorage A)) (cfg : Swap.Config A)
    (chain : Chain A B (SwapStorage A)) (coldkey hotkey : A) (netuid : NetUid)
    (positionId : Swap.PositionId) (liquidityDelta : I64) :
    Except Error (Chain A B (SwapStorage A)) :=
  if ¬chain.ifSubnetExist netuid then .error .subNetworkDoesNotExist
  else match swapError ((chain.swap.pool netuid).doModifyPosition cfg (chain.balanceEnv rt netuid)
      coldkey hotkey positionId liquidityDelta) with
  | .error e => .error e
  | .ok (pool, result) =>
      let chain := chain.withPool netuid pool
      match (if 0 < liquidityDelta.val then
          chain.provide rt coldkey hotkey netuid result.tao result.alpha
        else chain.credit rt coldkey hotkey netuid result.tao result.alpha) with
      | .error e => .error e
      | .ok chain => chain.creditFees rt coldkey hotkey netuid result.feeTao result.feeAlpha

end Subtensor.Chain
