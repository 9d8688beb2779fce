import Subtensor.Pallet.Balance

/-!
# Swapping a hotkey

`do_swap_hotkey`, on all subnets or on one, with everything that is moved
from the old to the new hotkey (`pallets/subtensor/src/swap/swap_hotkey.rs`).
-/

namespace Subtensor.Chain

open Lib Children

variable {A B P : Type} [DecidableEq A]

def exceedsTxRateLimit (rateLimit prevTxBlock currentBlock : U64) : Bool :=
  if rateLimit.val = 0 ∨ prevTxBlock.val = 0 then false
  else (currentBlock.satSub prevTxBlock).val ≤ rateLimit.val

def isHotkeyRegisteredOnAnyNetwork (chain : Chain A B P) (hotkey : A) : Bool :=
  chain.isNetworkMember.entries.any fun e => e.1.1 = hotkey && e.2

def isHotkeyRegisteredOnSpecificNetwork (chain : Chain A B P) (hotkey : A) (netuid : NetUid) :
    Bool :=
  (chain.isNetworkMember.lookup (hotkey, netuid)).isSome

/-! ## One subnet -/

/-- The alpha and the shares of the old hotkey are added to the new one. -/
def swapHotkeyTotals (stakes : Stakes A) (oldHotkey newHotkey : A) (netuid : NetUid) : Stakes A :=
  let alpha := (stakes.totalHotkeyAlpha.lookup (oldHotkey, netuid)).getD 0
  let totalHotkeyAlpha := stakes.totalHotkeyAlpha.erase (oldHotkey, netuid)
  let share := stakes.totalHotkeyShares (oldHotkey, netuid)
  let totalHotkeyShares := Function.update stakes.totalHotkeyShares (oldHotkey, netuid) 0
  { stakes with
    totalHotkeyAlpha := totalHotkeyAlpha.insert (newHotkey, netuid)
      (((totalHotkeyAlpha.lookup (newHotkey, netuid)).getD 0).satAdd alpha)
    totalHotkeyShares := Function.update totalHotkeyShares (newHotkey, netuid)
      ((totalHotkeyShares (newHotkey, netuid)).satAdd share) }

/-- The entries of `Alpha::iter_prefix((hotkey,))`. -/
def alphaOfHotkey (stakes : Stakes A) (hotkey : A) : List ((A × NetUid) × U64F64) :=
  (stakes.alpha.entries.filter fun e => e.1.1 = hotkey).map fun e => (e.1.2, e.2)

/-- One entry of the loop over `Alpha`: the shares of a coldkey move to the
new hotkey. -/
def swapAlphaEntry (oldHotkey newHotkey : A) (netuid : NetUid)
    (state : Stakes A × Accounts A) (entry : (A × NetUid) × U64F64) : Stakes A × Accounts A :=
  let coldkey := entry.1.1
  if entry.1.2 = netuid then
    let newAlpha := (state.1.alpha.lookup (newHotkey, coldkey, netuid)).getD 0
    let alpha := (state.1.alpha.erase (newHotkey, coldkey, netuid)).erase
      (oldHotkey, coldkey, netuid)
    let stakingHotkeys := state.2.stakingHotkeys coldkey
    ({ state.1 with
        alpha := alpha.insert (newHotkey, coldkey, netuid) (entry.2.satAdd newAlpha) },
      if stakingHotkeys.contains oldHotkey && !stakingHotkeys.contains newHotkey then
        { state.2 with
          stakingHotkeys :=
            Function.update state.2.stakingHotkeys coldkey (stakingHotkeys ++ [newHotkey]) }
      else state.2)
  else state

/-- The new hotkey takes the slot of the old one. -/
def swapUid (neurons : Neurons A) (oldHotkey newHotkey : A) : Neurons A :=
  match neurons.uids oldHotkey with
  | none => neurons
  | some uid =>
      { neurons with
        uids := Function.update (Function.update neurons.uids oldHotkey none) newHotkey (some uid)
        keys := Function.update neurons.keys uid (some newHotkey) }

def swapSubnetOwnerHotkey (subnet : Subnet A) (oldHotkey newHotkey : A) : Subnet A :=
  if subnet.subnetOwnerHotkey = some oldHotkey then
    { subnet with subnetOwnerHotkey := some newHotkey }
  else subnet

def performHotkeySwapOnOneSubnet (chain : Chain A B P) (oldHotkey newHotkey : A)
    (netuid : NetUid) : Chain A B P :=
  let isNetworkMember := (chain.isNetworkMember.lookup (oldHotkey, netuid)).getD false
  let stakes := swapHotkeyTotals chain.stakes oldHotkey newHotkey netuid
  let moved := (alphaOfHotkey chain.stakes oldHotkey).foldl
    (swapAlphaEntry oldHotkey newHotkey netuid) (stakes, chain.accounts)
  { chain with
    stakes := moved.1
    accounts := moved.2
    isNetworkMember :=
      (chain.isNetworkMember.erase (oldHotkey, netuid)).insert (newHotkey, netuid) isNetworkMember
    neurons :=
      if isNetworkMember then
        Function.update chain.neurons netuid (swapUid (chain.neurons netuid) oldHotkey newHotkey)
      else chain.neurons
    graph := Function.update chain.graph netuid
      ((chain.graph netuid).swapHotkey oldHotkey newHotkey)
    subnets := Function.update chain.subnets netuid
      (swapSubnetOwnerHotkey (chain.subnets netuid) oldHotkey newHotkey) }

/-! ## Keys of the account -/

def setLastTxBlock (chain : Chain A B P) (key : A) (block : U64) : Chain A B P :=
  { chain with lastBlocks :=
    { chain.lastBlocks with
      lastTxBlock := Function.update chain.lastBlocks.lastTxBlock key block } }

/-- Steps 8 to 10 of `do_swap_hotkey`: the blocks of the last transactions. -/
def copyLastBlocks (last : LastBlocks A) (oldHotkey newHotkey : A) : LastBlocks A :=
  { last with
    lastTxBlock := Function.update last.lastTxBlock newHotkey (last.lastTxBlock oldHotkey)
    lastTxBlockDelegateTake := Function.update last.lastTxBlockDelegateTake newHotkey
      (last.lastTxBlockDelegateTake oldHotkey)
    lastTxBlockChildKeyTake := Function.update last.lastTxBlockChildKeyTake newHotkey
      (last.lastTxBlockChildKeyTake oldHotkey) }

/-- Steps 6 to 8 of the swap on all subnets: the old entries are removed. -/
def removeLastBlocks (last : LastBlocks A) (oldHotkey : A) : LastBlocks A :=
  { last with
    lastTxBlock := Function.update last.lastTxBlock oldHotkey 0
    lastTxBlockDelegateTake := Function.update last.lastTxBlockDelegateTake oldHotkey 0
    lastTxBlockChildKeyTake := Function.update last.lastTxBlockChildKeyTake oldHotkey 0 }

/-- Append a key to a list that does not contain it. -/
def pushNew (keys : List A) (key : A) : List A :=
  if keys.contains key then keys else keys ++ [key]

/-- The owner of the old hotkey becomes that of the new one; `drop` says
whether the old hotkey is taken from it. -/
def swapOwner (accounts : Accounts A) (coldkey oldHotkey newHotkey : A) (drop : Bool) :
    Accounts A :=
  let hotkeys := pushNew (accounts.ownedHotkeys coldkey) newHotkey
  if drop then
    { accounts with
      owner := Function.update (Function.update accounts.owner oldHotkey none) newHotkey
        (some coldkey)
      ownedHotkeys := Function.update accounts.ownedHotkeys coldkey
        (hotkeys.filter (· ≠ oldHotkey)) }
  else
    { accounts with
      owner := Function.update accounts.owner newHotkey (some coldkey)
      ownedHotkeys := Function.update accounts.ownedHotkeys coldkey hotkeys }

def swapDelegate (rt : Runtime A B P) (accounts : Accounts A) (oldHotkey newHotkey : A) :
    Accounts A :=
  if (accounts.delegates oldHotkey).isSome then
    { accounts with
      delegates := Function.update (Function.update accounts.delegates oldHotkey none) newHotkey
        (some ((accounts.delegates oldHotkey).getD rt.defaultDelegateTake)) }
  else accounts

/-- Step 11 of the swap on all subnets, for one entry of `Alpha`. -/
def swapStakingHotkey (oldHotkey newHotkey : A) (accounts : Accounts A)
    (entry : (A × NetUid) × U64F64) : Accounts A :=
  let coldkey := entry.1.1
  let stakingHotkeys := accounts.stakingHotkeys coldkey
  if stakingHotkeys.contains oldHotkey then
    { accounts with
      stakingHotkeys := Function.update accounts.stakingHotkeys coldkey
        (pushNew (stakingHotkeys.filter fun hk => hk ≠ oldHotkey ∧ hk ≠ newHotkey) newHotkey) }
  else accounts

/-! ## The dispatch -/

/-- The two hotkeys are exchanged on every subnet, one after the other. -/
def performHotkeySwapOnSubnets (chain : Chain A B P) (oldHotkey newHotkey : A)
    (netuids : List NetUid) : Chain A B P :=
  netuids.foldl (fun chain netuid =>
    chain.performHotkeySwapOnOneSubnet oldHotkey newHotkey netuid) chain

def performHotkeySwapOnAllSubnets (rt : Runtime A B P) (chain : Chain A B P)
    (oldHotkey newHotkey coldkey : A) : Except Error (Chain A B P) :=
  let oldAlphaValues := alphaOfHotkey chain.stakes oldHotkey
  let chain := { chain with accounts := swapOwner chain.accounts coldkey oldHotkey newHotkey true }
  let chain := chain.performHotkeySwapOnSubnets oldHotkey newHotkey chain.getAllSubnetNetuids
  let chain := { chain with lastBlocks := removeLastBlocks chain.lastBlocks oldHotkey }
  match (if chain.senateMembers.contains oldHotkey then
      rt.swapSenateMember chain.senateMembers oldHotkey newHotkey
    else .ok chain.senateMembers) with
  | .error e => .error e
  | .ok senateMembers =>
      .ok { chain with
        senateMembers := senateMembers
        accounts := oldAlphaValues.foldl (swapStakingHotkey oldHotkey newHotkey)
          (swapDelegate rt chain.accounts oldHotkey newHotkey) }

/-- The cost of a swap is withdrawn and burned. -/
def paySwapCost (rt : Runtime A B P) (chain : Chain A B P) (coldkey : A) (cost : U64)
    (error : Error) : Except Error (Chain A B P) :=
  if ¬chain.canRemoveBalanceFromColdkeyAccount rt coldkey cost then .error error
  else match chain.removeBalanceFromColdkeyAccount rt coldkey cost with
  | .error e => .error e
  | .ok (chain, actualBurnAmount) => .ok (chain.burnTokens actualBurnAmount)

def swapHotkeyOnSubnet (rt : Runtime A B P) (chain : Chain A B P)
    (coldkey oldHotkey newHotkey : A) (netuid : NetUid) : Except Error (Chain A B P) :=
  if ¬((chain.lastBlocks.lastHotkeySwapOnNetuid netuid coldkey).satAdd
      rt.hotkeySwapOnSubnetInterval).val < chain.block.val then
    .error .hotKeySwapOnSubnetIntervalNotPassed
  else if chain.isHotkeyRegisteredOnSpecificNetwork newHotkey netuid then
    .error .hotKeyAlreadyRegisteredInSubNet
  else match chain.paySwapCost rt coldkey rt.keySwapOnSubnetCost
      .notEnoughBalanceToPaySwapHotKey with
  | .error e => .error e
  | .ok chain =>
      let chain :=
        { chain with accounts := swapOwner chain.accounts coldkey oldHotkey newHotkey false }
      let chain := (chain.performHotkeySwapOnOneSubnet oldHotkey newHotkey netuid).setLastTxBlock
        coldkey chain.block
      .ok { chain with lastBlocks :=
        { chain.lastBlocks with
          lastHotkeySwapOnNetuid := Function.update chain.lastBlocks.lastHotkeySwapOnNetuid netuid
            (Function.update (chain.lastBlocks.lastHotkeySwapOnNetuid netuid) coldkey
              chain.block) } }

def doSwapHotkey (rt : Runtime A B P) (chain : Chain A B P) (coldkey oldHotkey newHotkey : A)
    (netuid : Option NetUid) : Except Error (Chain A B P) :=
  if ¬chain.coldkeyOwnsHotkey coldkey oldHotkey then .error .nonAssociatedColdKey
  else if oldHotkey = newHotkey then .error .newHotKeyIsSameWithOld
  else if exceedsTxRateLimit chain.params.txRateLimit (chain.lastBlocks.lastTxBlock coldkey)
      chain.block then .error .hotKeySetTxRateLimitExceeded
  else if chain.isHotkeyRegisteredOnAnyNetwork newHotkey then
    .error .hotKeyAlreadyRegisteredInSubNet
  else
    let chain := { chain with lastBlocks := copyLastBlocks chain.lastBlocks oldHotkey newHotkey }
    match netuid with
    | some netuid => chain.swapHotkeyOnSubnet rt coldkey oldHotkey newHotkey netuid
    | none =>
        match chain.paySwapCost rt coldkey rt.keySwapCost .notEnoughBalanceToPaySwapHotKey with
        | .error e => .error e
        | .ok chain =>
            match chain.performHotkeySwapOnAllSubnets rt oldHotkey newHotkey coldkey with
            | .error e => .error e
            | .ok chain => .ok (chain.setLastTxBlock coldkey chain.block)

end Subtensor.Chain
