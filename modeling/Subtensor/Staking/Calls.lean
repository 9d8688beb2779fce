import Subtensor.Staking.Stake

/-!
# The staking calls

Adding, removing and moving stake, with or without a limit price
(`pallets/subtensor/src/staking/add_stake.rs`, `remove_stake.rs`,
`move_stake.rs`, and the validations of `stake_utils.rs`). A call that fails
leaves the storage as it was.
-/

namespace Subtensor.Chain

open Lib Children

variable {A B P : Type} [DecidableEq A]

/-! ## Validation -/

/-- The minimum stake with the fee that swapping it costs. -/
def minAddAmount (rt : Runtime A B P) (chain : Chain A B P) (netuid : NetUid) : U64 :=
  rt.defaultMinStake.satAdd (match chain.simSwap rt netuid .buy rt.defaultMinStake with
    | .ok result => result.feePaid
    | .error _ => rt.swap.approxFeeAmount chain.swap netuid rt.defaultMinStake)

def validateAddStake (rt : Runtime A B P) (chain : Chain A B P) (coldkey hotkey : A)
    (netuid : NetUid) (stakeToBeAdded maxAmount : U64) (allowPartial : Bool) :
    Except Error Unit :=
  if ¬chain.ifSubnetExist netuid then .error .subnetNotExists
  else if ¬(chain.subnets netuid).subtokenEnabled then .error .subtokenDisabled
  else if ¬(chain.minAddAmount rt netuid).val ≤ stakeToBeAdded.val then .error .amountTooLow
  else if ¬allowPartial ∧ ¬stakeToBeAdded.val ≤ maxAmount.val then .error .slippageTooHigh
  else if ¬chain.canRemoveBalanceFromColdkeyAccount rt coldkey stakeToBeAdded then
    .error .notEnoughBalanceToStake
  else if ¬chain.hotkeyAccountExists hotkey then .error .hotKeyAccountNotExists
  else match chain.simSwap rt netuid .buy stakeToBeAdded with
  | .error _ => .error .insufficientLiquidity
  | .ok expectedAlpha =>
      if ¬0 < expectedAlpha.amountPaidOut.val then .error .insufficientLiquidity
      else if ¬chain.tryIncreaseStakeForHotkeyAndColdkeyOnSubnet hotkey netuid
          expectedAlpha.amountPaidOut then .error .insufficientLiquidity
      else .ok ()

def validateRemoveStake (rt : Runtime A B P) (chain : Chain A B P) (coldkey hotkey : A)
    (netuid : NetUid) (alphaUnstaked maxAmount : U64) (allowPartial : Bool) :
    Except Error Unit :=
  if ¬chain.ifSubnetExist netuid then .error .subnetNotExists
  else match chain.simSwap rt netuid .sell alphaUnstaked with
  | .error _ => .error .insufficientLiquidity
  | .ok result =>
      if ¬rt.defaultMinStake.val < result.amountPaidOut.val then .error .amountTooLow
      else if ¬allowPartial ∧ ¬alphaUnstaked.val ≤ maxAmount.val then .error .slippageTooHigh
      else if ¬chain.hotkeyAccountExists hotkey then .error .hotKeyAccountNotExists
      else if ¬chain.hasEnoughStakeOnSubnet hotkey coldkey netuid alphaUnstaked then
        .error .notEnoughStakeToWithdraw
      else .ok ()

def validateStakeTransition (rt : Runtime A B P) (chain : Chain A B P)
    (originColdkey destinationColdkey originHotkey destinationHotkey : A)
    (originNetuid destinationNetuid : NetUid) (alphaAmount maxAmount : U64)
    (maybeAllowPartial : Option Bool) (checkTransferToggle : Bool) : Except Error Unit :=
  if originColdkey = destinationColdkey ∧ originHotkey = destinationHotkey ∧
      originNetuid = destinationNetuid then .error .sameNetuid
  else if ¬chain.ifSubnetExist originNetuid then .error .subnetNotExists
  else if originNetuid ≠ destinationNetuid ∧ ¬chain.ifSubnetExist destinationNetuid then
    .error .subnetNotExists
  else if ¬(chain.subnets originNetuid).subtokenEnabled then .error .subtokenDisabled
  else if ¬(chain.subnets destinationNetuid).subtokenEnabled then .error .subtokenDisabled
  else if ¬chain.hotkeyAccountExists originHotkey then .error .hotKeyAccountNotExists
  else if ¬chain.hotkeyAccountExists destinationHotkey then .error .hotKeyAccountNotExists
  else if ¬chain.hasEnoughStakeOnSubnet originHotkey originColdkey originNetuid alphaAmount then
    .error .notEnoughStakeToWithdraw
  else match chain.simSwap rt originNetuid .sell alphaAmount with
  | .error _ => .error .insufficientLiquidity
  | .ok result =>
      if ¬rt.defaultMinStake.val < result.amountPaidOut.val then .error .amountTooLow
      else if maybeAllowPartial = some false ∧ ¬alphaAmount.val ≤ maxAmount.val then
        .error .slippageTooHigh
      else if checkTransferToggle ∧ ¬(chain.subnets originNetuid).transferToggle then
        .error .transferDisallowed
      else if checkTransferToggle ∧ ¬(chain.subnets destinationNetuid).transferToggle then
        .error .transferDisallowed
      else .ok ()

/-! ## Amounts at a limit price -/

/-- Root and the subnets with mechanism `0` have no slippage. -/
def isStable (chain : Chain A B P) (netuid : NetUid) : Bool :=
  netuid.isRoot || (chain.mechanism netuid).val = 0

/-- The amount that a swap takes in before it reaches the limit price. -/
def maxSwapAmount (rt : Runtime A B P) (chain : Chain A B P) (netuid : NetUid)
    (order : Swap.OrderType) (limitPrice : U64) : Except Error U64 :=
  match rt.swap.swapRollback (chain.subnetInfo netuid) chain.swap netuid order .maxVal
      limitPrice with
  | .error _ => .error .zeroMaxStakeAmount
  | .ok result =>
      let amount := result.amountPaidIn.satAdd result.feePaid
      if amount.val ≠ 0 then .ok amount else .error .zeroMaxStakeAmount

def getMaxAmountAdd (rt : Runtime A B P) (chain : Chain A B P) (netuid : NetUid)
    (limitPrice : U64) : Except Error U64 :=
  if chain.isStable netuid then
    if 1000000000 ≤ limitPrice.val then .ok .maxVal else .error .zeroMaxStakeAmount
  else chain.maxSwapAmount rt netuid .buy limitPrice

def getMaxAmountRemove (rt : Runtime A B P) (chain : Chain A B P) (netuid : NetUid)
    (limitPrice : U64) : Except Error U64 :=
  if chain.isStable netuid then
    if limitPrice.val ≤ 1000000000 then .ok .maxVal else .error .zeroMaxStakeAmount
  else chain.maxSwapAmount rt netuid .sell limitPrice

/-- The amount after which the price between two pools reaches the limit. -/
@[irreducible] def moveAmountAtLimit (tao₁ tao₂ alpha₁ alpha₂ : U64)
    (limitPrice : U64F64) : U64 :=
  let taoSum := (UFixed.ofNat tao₂.val : U64F64).satAdd (.ofNat tao₁.val)
  let t1OverSum := (UFixed.ofNat tao₁.val).safeDiv taoSum
  let t2OverSum := (UFixed.ofNat tao₂.val).safeDiv taoSum
  (((((UFixed.ofNat alpha₂.val).satMul t1OverSum).safeDiv limitPrice).satSub
    ((UFixed.ofNat alpha₁.val).satMul t2OverSum)).toWord 64)

/-- `limit_price / 10^9`, as a `U64F64`. -/
@[irreducible] def limitPriceFloat (limitPrice : U64) : U64F64 :=
  ((UFixed.ofNat limitPrice.val : U64F64).checkedDiv (.ofNat 1000000000)).getD 0

/-- The limit price of the destination when the origin is stable. -/
@[irreducible] def revertedLimitPrice (limitPrice : U64) : U64 :=
  (((UFixed.ofNat 1000000000 : U64F64).safeDiv (.ofNat limitPrice.val)).satMul
    (.ofNat 1000000000)).toWord 64

def getMaxAmountMove (rt : Runtime A B P) (chain : Chain A B P)
    (originNetuid destinationNetuid : NetUid) (limitPrice : U64) : Except Error U64 :=
  if chain.isStable originNetuid ∧ chain.isStable destinationNetuid then
    if 1000000000 < limitPrice.val then .error .zeroMaxStakeAmount else .ok .maxVal
  else if chain.isStable originNetuid ∧ chain.isDynamic destinationNetuid then
    if limitPrice.val = 0 then .ok .maxVal
    else chain.getMaxAmountAdd rt destinationNetuid (revertedLimitPrice limitPrice)
  else if chain.isStable destinationNetuid ∧ chain.isDynamic originNetuid then
    chain.getMaxAmountRemove rt originNetuid limitPrice
  else if (chain.taoReserve originNetuid).val = 0 ∨
      (chain.taoReserve destinationNetuid).val = 0 then .error .zeroMaxStakeAmount
  else if (chain.alphaReserve originNetuid).val = 0 ∨
      (chain.alphaReserve destinationNetuid).val = 0 then .error .zeroMaxStakeAmount
  else
    let currentPrice := (chain.currentAlphaPrice rt originNetuid).safeDiv
      (chain.currentAlphaPrice rt destinationNetuid)
    -- the two prices have different numbers of fractional bits
    if currentPrice.bits * 2 ^ 32 < (limitPriceFloat limitPrice).bits then
      .error .zeroMaxStakeAmount
    else if limitPrice.val = 0 then .ok .maxVal
    else
      let result := moveAmountAtLimit (chain.taoReserve originNetuid)
        (chain.taoReserve destinationNetuid) (chain.alphaReserve originNetuid)
        (chain.alphaReserve destinationNetuid) (limitPriceFloat limitPrice)
      if result.val ≠ 0 then .ok result else .error .zeroMaxStakeAmount

/-! ## Adding stake -/

def maybeBecomeDelegate (rt : Runtime A B P) (chain : Chain A B P) (hotkey : A) : Chain A B P :=
  if (chain.accounts.delegates hotkey).isSome then chain
  else
    chain.withAccounts { chain.accounts with
      delegates := Function.update chain.accounts.delegates hotkey
        (some (chain.getHotkeyTake rt hotkey)) }

/-- A hotkey that somebody else stakes to becomes a delegate. -/
def delegateIfNotOwner (rt : Runtime A B P) (chain : Chain A B P) (coldkey hotkey : A) :
    Chain A B P :=
  if chain.getOwningColdkeyForHotkey rt hotkey ≠ coldkey then chain.maybeBecomeDelegate rt hotkey
  else chain

/-- TAO is withdrawn from the coldkey and staked. -/
def withdrawAndStake (rt : Runtime A B P) (chain : Chain A B P) (coldkey hotkey : A)
    (netuid : NetUid) (amount priceLimit : U64) : Except Error (Chain A B P) :=
  match chain.removeBalanceFromColdkeyAccount rt coldkey amount with
  | .error e => .error e
  | .ok (chain, taoStaked) =>
      match chain.stakeIntoSubnet rt hotkey coldkey netuid taoStaked priceLimit with
      | .error e => .error e
      | .ok (chain, _) => .ok chain

def doAddStake (rt : Runtime A B P) (chain : Chain A B P) (coldkey hotkey : A) (netuid : NetUid)
    (stakeToBeAdded : U64) : Except Error (Chain A B P) :=
  if ¬(chain.subnets netuid).subtokenEnabled then .error .subtokenDisabled
  else match chain.validateAddStake rt coldkey hotkey netuid stakeToBeAdded stakeToBeAdded
      false with
  | .error e => .error e
  | .ok () => chain.withdrawAndStake rt coldkey hotkey netuid stakeToBeAdded rt.swap.maxPrice

def doAddStakeLimit (rt : Runtime A B P) (chain : Chain A B P) (coldkey hotkey : A)
    (netuid : NetUid) (stakeToBeAdded limitPrice : U64) (allowPartial : Bool) :
    Except Error (Chain A B P) :=
  match chain.getMaxAmountAdd rt netuid limitPrice with
  | .error e => .error e
  | .ok maxAmount =>
      let possibleStake := if maxAmount.val < stakeToBeAdded.val then maxAmount else stakeToBeAdded
      match chain.validateAddStake rt coldkey hotkey netuid stakeToBeAdded maxAmount
          allowPartial with
      | .error e => .error e
      | .ok () =>
          (chain.delegateIfNotOwner rt coldkey hotkey).withdrawAndStake rt coldkey hotkey netuid
            possibleStake limitPrice

/-! ## Removing stake -/

/-- A hotkey whose stake fell below the threshold loses its pending children. -/
def dropPendingChildren (rt : Runtime A B P) (chain : Chain A B P) (hotkey : A) : Chain A B P :=
  if (chain.getTotalStakeForHotkey rt hotkey).val < chain.params.stakeThreshold.val then
    { chain with graph := fun netuid =>
        if netuid ∈ chain.networksAdded then
          { chain.graph netuid with
            pendingChildKeys := (chain.graph netuid).pendingChildKeys.erase hotkey }
        else chain.graph netuid }
  else chain

/-- Alpha is sold for the coldkey, and a rest that is too small with it. -/
def unstakeAndCredit (rt : Runtime A B P) (chain : Chain A B P) (coldkey hotkey : A)
    (netuid : NetUid) (alpha priceLimit : U64) : Except Error (Chain A B P) :=
  match chain.unstakeFromSubnet rt hotkey coldkey netuid alpha priceLimit with
  | (_, .error e) => .error e
  | (chain, .ok taoUnstaked) =>
      .ok ((chain.addBalanceToColdkeyAccount rt coldkey
        taoUnstaked).clearSmallNominationIfRequired rt hotkey coldkey netuid)

def doRemoveStake (rt : Runtime A B P) (chain : Chain A B P) (coldkey hotkey : A)
    (netuid : NetUid) (alphaUnstaked : U64) : Except Error (Chain A B P) :=
  if ¬(chain.subnets netuid).subtokenEnabled then .error .subtokenDisabled
  else match chain.validateRemoveStake rt coldkey hotkey netuid alphaUnstaked alphaUnstaked
      false with
  | .error e => .error e
  | .ok () =>
      match chain.unstakeAndCredit rt coldkey hotkey netuid alphaUnstaked rt.swap.minPrice with
      | .error e => .error e
      | .ok chain => .ok (chain.dropPendingChildren rt hotkey)

def doRemoveStakeLimit (rt : Runtime A B P) (chain : Chain A B P) (coldkey hotkey : A)
    (netuid : NetUid) (alphaUnstaked limitPrice : U64) (allowPartial : Bool) :
    Except Error (Chain A B P) :=
  match chain.getMaxAmountRemove rt netuid limitPrice with
  | .error e => .error e
  | .ok maxAmount =>
      let possibleAlpha := if maxAmount.val < alphaUnstaked.val then maxAmount else alphaUnstaked
      match chain.validateRemoveStake rt coldkey hotkey netuid alphaUnstaked maxAmount
          allowPartial with
      | .error e => .error e
      | .ok () =>
          match chain.unstakeAndCredit rt coldkey hotkey netuid possibleAlpha limitPrice with
          | .error e => .error e
          | .ok chain => .ok (chain.dropPendingChildren rt hotkey)

def doRemoveStakeFullLimit (rt : Runtime A B P) (chain : Chain A B P) (coldkey hotkey : A)
    (netuid : NetUid) (limitPrice : Option U64) : Except Error (Chain A B P) :=
  let alphaUnstaked := chain.getStakeForHotkeyAndColdkeyOnSubnet hotkey coldkey netuid
  match limitPrice with
  | some limitPrice =>
      chain.doRemoveStakeLimit rt coldkey hotkey netuid alphaUnstaked limitPrice false
  | none => chain.doRemoveStake rt coldkey hotkey netuid alphaUnstaked

/-- The alpha that `do_unstake_all` takes from a subnet: nothing from a subnet
that is disabled or on which the stake cannot be removed. -/
def unstakeAllAmount (rt : Runtime A B P) (chain : Chain A B P) (coldkey hotkey : A)
    (netuid : NetUid) : U64 :=
  let alphaUnstaked := chain.getStakeForHotkeyAndColdkeyOnSubnet hotkey coldkey netuid
  if (chain.subnets netuid).subtokenEnabled then
    match chain.validateRemoveStake rt coldkey hotkey netuid alphaUnstaked alphaUnstaked false with
    | .error _ => 0
    | .ok () => alphaUnstaked
  else 0

/-- The loop of `do_unstake_all`. -/
def unstakeAllLoop (rt : Runtime A B P) (coldkey hotkey : A) (chain : Chain A B P) :
    List NetUid → Except Error (Chain A B P)
  | [] => .ok chain
  | netuid :: netuids =>
      let alphaUnstaked := chain.unstakeAllAmount rt coldkey hotkey netuid
      if 0 < alphaUnstaked.val then
        match chain.unstakeAndCredit rt coldkey hotkey netuid alphaUnstaked rt.swap.minPrice with
        | .error e => .error e
        | .ok chain => unstakeAllLoop rt coldkey hotkey chain netuids
      else unstakeAllLoop rt coldkey hotkey chain netuids

def doUnstakeAll (rt : Runtime A B P) (chain : Chain A B P) (coldkey hotkey : A) :
    Except Error (Chain A B P) :=
  if ¬chain.hotkeyAccountExists hotkey then .error .hotKeyAccountNotExists
  else chain.unstakeAllLoop rt coldkey hotkey chain.getAllSubnetNetuids

/-- The loop of `do_unstake_all_alpha`: the TAO is not credited, it adds up. -/
def unstakeAllAlphaLoop (rt : Runtime A B P) (coldkey hotkey : A) (chain : Chain A B P)
    (totalTaoUnstaked : U64) : List NetUid → Except Error (Chain A B P × U64)
  | [] => .ok (chain, totalTaoUnstaked)
  | netuid :: netuids =>
      let alphaUnstaked := if netuid.isRoot then 0
        else chain.unstakeAllAmount rt coldkey hotkey netuid
      if 0 < alphaUnstaked.val then
        match chain.unstakeFromSubnet rt hotkey coldkey netuid alphaUnstaked rt.swap.minPrice with
        | (_, .error e) => .error e
        | (chain, .ok taoUnstaked) =>
            let chain := chain.withLedger
              (·.note (2 ^ 64 ≤ totalTaoUnstaked.val + taoUnstaked.val))
            unstakeAllAlphaLoop rt coldkey hotkey
              (chain.clearSmallNominationIfRequired rt hotkey coldkey netuid)
              (totalTaoUnstaked.satAdd taoUnstaked) netuids
      else unstakeAllAlphaLoop rt coldkey hotkey chain totalTaoUnstaked netuids

def doUnstakeAllAlpha (rt : Runtime A B P) (chain : Chain A B P) (coldkey hotkey : A) :
    Except Error (Chain A B P) :=
  if ¬chain.hotkeyAccountExists hotkey then .error .hotKeyAccountNotExists
  else match chain.unstakeAllAlphaLoop rt coldkey hotkey 0 chain.getAllSubnetNetuids with
  | .error e => .error e
  | .ok (chain, totalTaoUnstaked) =>
      match chain.stakeIntoSubnet rt hotkey coldkey .ROOT totalTaoUnstaked rt.swap.maxPrice with
      | .error e => .error e
      | .ok (chain, _) => .ok chain

/-! ## Moving stake -/

/-- Without a limit price all of the amount may be moved. -/
def maxTransitionAmount (rt : Runtime A B P) (chain : Chain A B P)
    (originNetuid destinationNetuid : NetUid) (alphaAmount : U64)
    (maybeLimitPrice : Option U64) : Except Error U64 :=
  match maybeLimitPrice with
  | some limitPrice => chain.getMaxAmountMove rt originNetuid destinationNetuid limitPrice
  | none => .ok alphaAmount

/-- The TAO is staked again, unless there is too little of it. -/
def restake (rt : Runtime A B P) (chain : Chain A B P) (destinationColdkey destinationHotkey : A)
    (destinationNetuid : NetUid) (taoUnstaked : U64) : Except Error (Chain A B P) :=
  if rt.defaultMinStake.val ≤ taoUnstaked.val then
    match (chain.delegateIfNotOwner rt destinationColdkey destinationHotkey).stakeIntoSubnet rt
        destinationHotkey destinationColdkey destinationNetuid taoUnstaked rt.swap.maxPrice with
    | .error e => .error e
    | .ok (chain, _) => .ok chain
  else .ok chain

def transitionStakeInternal (rt : Runtime A B P) (chain : Chain A B P)
    (originColdkey destinationColdkey originHotkey destinationHotkey : A)
    (originNetuid destinationNetuid : NetUid) (alphaAmount : U64) (maybeLimitPrice : Option U64)
    (maybeAllowPartial : Option Bool) (checkTransferToggle : Bool) :
    Except Error (Chain A B P × U64) :=
  match chain.maxTransitionAmount rt originNetuid destinationNetuid alphaAmount
      maybeLimitPrice with
  | .error e => .error e
  | .ok maxAmount =>
      match chain.validateStakeTransition rt originColdkey destinationColdkey originHotkey
          destinationHotkey originNetuid destinationNetuid alphaAmount maxAmount
          maybeAllowPartial checkTransferToggle with
      | .error e => .error e
      | .ok () =>
          let moveAmount := if alphaAmount.val < maxAmount.val then alphaAmount else maxAmount
          match chain.unstakeFromSubnet rt originHotkey originColdkey originNetuid moveAmount
              rt.swap.minPrice with
          | (_, .error e) => .error e
          | (chain, .ok taoUnstaked) =>
              match chain.restake rt destinationColdkey destinationHotkey destinationNetuid
                  taoUnstaked with
              | .error e => .error e
              | .ok chain => .ok (chain, taoUnstaked)

/-- The call, without the amount that its event reports. -/
def callOf (result : Except Error (Chain A B P × U64)) : Except Error (Chain A B P) :=
  match result with
  | .error e => .error e
  | .ok (chain, _) => .ok chain

def doMoveStake (rt : Runtime A B P) (chain : Chain A B P) (coldkey originHotkey
    destinationHotkey : A) (originNetuid destinationNetuid : NetUid) (alphaAmount : U64) :
    Except Error (Chain A B P) :=
  callOf (chain.transitionStakeInternal rt coldkey coldkey originHotkey destinationHotkey
    originNetuid destinationNetuid alphaAmount none none false)

def doTransferStake (rt : Runtime A B P) (chain : Chain A B P) (coldkey destinationColdkey
    hotkey : A) (originNetuid destinationNetuid : NetUid) (alphaAmount : U64) :
    Except Error (Chain A B P) :=
  callOf (chain.transitionStakeInternal rt coldkey destinationColdkey hotkey hotkey
    originNetuid destinationNetuid alphaAmount none none true)

def doSwapStake (rt : Runtime A B P) (chain : Chain A B P) (coldkey hotkey : A)
    (originNetuid destinationNetuid : NetUid) (alphaAmount : U64) : Except Error (Chain A B P) :=
  callOf (chain.transitionStakeInternal rt coldkey coldkey hotkey hotkey
    originNetuid destinationNetuid alphaAmount none none false)

end Subtensor.Chain
