import Subtensor.Pallet.SwapHotkey

/-!
# Swapping a coldkey

`do_swap_coldkey`: the subnets, the stake, the hotkeys and the balance of the
old coldkey go to the new one
(`pallets/subtensor/src/swap/swap_coldkey.rs`).
-/

namespace Subtensor.Chain

open Lib

variable {A B P : Type} [DecidableEq A]

/-- Step 2 of `perform_swap_coldkey`, for one subnet. -/
def swapSubnetOwner (rt : Runtime A B P) (oldColdkey newColdkey : A)
    (subnets : NetUid → Subnet A) (netuid : NetUid) : NetUid → Subnet A :=
  if (subnets netuid).subnetOwner.getD rt.defaultAccount = oldColdkey then
    Function.update subnets netuid { subnets netuid with subnetOwner := some newColdkey }
  else subnets

/-- Step 3, for one hotkey on one subnet: the shares of the old coldkey are
added to those of the new one. -/
def swapColdkeyAlpha (oldColdkey newColdkey hotkey : A) (alpha : StorageMap (A × A × NetUid) U64F64)
    (netuid : NetUid) : StorageMap (A × A × NetUid) U64F64 :=
  let oldAlpha := (alpha.lookup (hotkey, oldColdkey, netuid)).getD 0
  let newAlpha := (alpha.lookup (hotkey, newColdkey, netuid)).getD 0
  (alpha.insert (hotkey, newColdkey, netuid) (newAlpha.satAdd oldAlpha)).erase
    (hotkey, oldColdkey, netuid)

/-- Steps 5 and 6: the hotkeys that the old coldkey stakes to and owns. -/
def swapColdkeyAccounts (accounts : Accounts A) (oldColdkey newColdkey : A) : Accounts A :=
  let stakingHotkeys :=
    (accounts.stakingHotkeys oldColdkey).foldl pushNew (accounts.stakingHotkeys newColdkey)
  let ownedHotkeys :=
    (accounts.ownedHotkeys oldColdkey).foldl pushNew (accounts.ownedHotkeys newColdkey)
  { accounts with
    owner := (accounts.ownedHotkeys oldColdkey).foldl
      (fun owner hotkey => Function.update owner hotkey (some newColdkey)) accounts.owner
    stakingHotkeys := Function.update (Function.update accounts.stakingHotkeys oldColdkey [])
      newColdkey stakingHotkeys
    ownedHotkeys := Function.update (Function.update accounts.ownedHotkeys oldColdkey [])
      newColdkey ownedHotkeys }

/-- Steps 2 to 6, which move everything but the balance. -/
def swapColdkeyStorage (rt : Runtime A B P) (chain : Chain A B P) (oldColdkey newColdkey : A) :
    Chain A B P :=
  let netuids := chain.getAllSubnetNetuids
  { chain with
    subnets := netuids.foldl (swapSubnetOwner rt oldColdkey newColdkey) chain.subnets
    stakes :=
      { chain.stakes with
        alpha := (chain.accounts.stakingHotkeys oldColdkey).foldl
          (fun alpha hotkey => netuids.foldl (swapColdkeyAlpha oldColdkey newColdkey hotkey) alpha)
          chain.stakes.alpha }
    accounts := swapColdkeyAccounts chain.accounts oldColdkey newColdkey }

/-- Step 7. `do_swap_coldkey` drops the result of `perform_swap_coldkey`, so
that a balance that cannot be withdrawn stays where it is. -/
def transferRemainingBalance (rt : Runtime A B P) (chain : Chain A B P)
    (oldColdkey newColdkey : A) : Chain A B P :=
  let remainingBalance := chain.getColdkeyBalance rt oldColdkey
  if 0 < remainingBalance.val then
    match chain.killColdkeyAccount rt oldColdkey remainingBalance with
    | .error _ => chain
    | .ok (chain, _) => chain.addBalanceToColdkeyAccount rt newColdkey remainingBalance
  else chain

def performSwapColdkey (rt : Runtime A B P) (chain : Chain A B P) (oldColdkey newColdkey : A) :
    Chain A B P :=
  (chain.swapColdkeyStorage rt oldColdkey newColdkey).transferRemainingBalance rt oldColdkey
    newColdkey

def doSwapColdkey (rt : Runtime A B P) (chain : Chain A B P) (oldColdkey newColdkey : A)
    (swapCost : U64) : Except Error (Chain A B P) :=
  if ¬(chain.accounts.stakingHotkeys newColdkey).isEmpty then .error .coldKeyAlreadyAssociated
  else if chain.hotkeyAccountExists newColdkey then .error .newColdKeyIsHotkey
  else match chain.paySwapCost rt oldColdkey swapCost .notEnoughBalanceToPaySwapColdKey with
  | .error e => .error e
  | .ok chain =>
      .ok ((chain.performSwapColdkey rt oldColdkey newColdkey).setLastTxBlock newColdkey chain.block)

end Subtensor.Chain
