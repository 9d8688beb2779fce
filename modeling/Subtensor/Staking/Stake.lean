import Subtensor.Pallet.Balance
import Subtensor.Pallet.SwapHotkey

/-!
# Stake of a hotkey and a coldkey

The alpha of a hotkey on a subnet is the shared value of a share pool, in
which every coldkey that stakes to the hotkey holds shares
(`pallets/subtensor/src/staking/stake_utils.rs`). The stake and the swap
wrappers are the parts that all staking calls are made of.
-/

namespace Subtensor

open Lib SharePool

variable {A B P : Type} [DecidableEq A]

/-! ## The share pool of a hotkey -/

/-- `HotkeyAlphaSharePoolDataOperations`; a value of zero is not stored. -/
def hotkeyAlphaSharePool (hotkey : A) (netuid : NetUid) : SharePoolDataOperations (Stakes A) A where
  getSharedValue s := .ofNat ((s.totalHotkeyAlpha.lookup (hotkey, netuid)).getD 0).val
  getShare s coldkey := (s.alpha.lookup (hotkey, coldkey, netuid)).getD 0
  tryGetShare s coldkey := s.alpha.lookup (hotkey, coldkey, netuid)
  getDenominator s := s.totalHotkeyShares (hotkey, netuid)
  setSharedValue s value :=
    { s with totalHotkeyAlpha :=
        if value.bits ≠ 0 then s.totalHotkeyAlpha.insert (hotkey, netuid) (value.toWord 64)
        else s.totalHotkeyAlpha.erase (hotkey, netuid) }
  setShare s coldkey share :=
    { s with alpha :=
        if share.bits ≠ 0 then s.alpha.insert (hotkey, coldkey, netuid) share
        else s.alpha.erase (hotkey, coldkey, netuid) }
  setDenominator s update :=
    { s with totalHotkeyShares :=
        Function.update s.totalHotkeyShares (hotkey, netuid) update }

namespace Chain

/-- `try_get_value(coldkey).unwrap_or(0)`. -/
def getStakeForHotkeyAndColdkeyOnSubnet (chain : Chain A B P) (hotkey coldkey : A)
    (netuid : NetUid) : U64 :=
  (tryGetValue (hotkeyAlphaSharePool hotkey netuid) chain.stakes coldkey).getD 0

def hasEnoughStakeOnSubnet (chain : Chain A B P) (hotkey coldkey : A) (netuid : NetUid)
    (decrement : U64) : Bool :=
  decrement.val ≤ (chain.getStakeForHotkeyAndColdkeyOnSubnet hotkey coldkey netuid).val

/-- The share pool of a hotkey after an update of its shared value. The ledger
records an amount that does not survive the cast to `i64`, and a shared value
that would leave the range of `u64`. -/
def updateStakes (chain : Chain A B P) (hotkey : A) (netuid : NetUid) (amount : U64)
    (stakes : Stakes A) (update : I64) : Chain A B P :=
  let total : ℤ := (chain.getStakeForHotkeyOnSubnet hotkey netuid).val + update.val
  { chain with
    stakes := stakes
    ledger := chain.ledger.note
      (2 ^ 63 ≤ amount.val || decide (total < 0) || decide (2 ^ 64 ≤ total)) }

def increaseStakeForHotkeyOnSubnet (chain : Chain A B P) (hotkey : A) (netuid : NetUid)
    (amount : U64) : Chain A B P :=
  chain.updateStakes hotkey netuid amount
    (updateValueForAll (hotkeyAlphaSharePool hotkey netuid) chain.stakes amount.asI64) amount.asI64

/-- The coldkey remembers the hotkeys that it stakes to. -/
def pushStakingHotkey (accounts : Accounts A) (coldkey hotkey : A) : Accounts A :=
  { accounts with
    stakingHotkeys := Function.update accounts.stakingHotkeys coldkey
      (pushNew (accounts.stakingHotkeys coldkey) hotkey) }

def withAccounts (chain : Chain A B P) (accounts : Accounts A) : Chain A B P :=
  { chain with accounts := accounts }

/-- The chain and the alpha that was added: an update that went the other way
counts as nothing. -/
def increaseStakeForHotkeyAndColdkeyOnSubnet (chain : Chain A B P) (hotkey coldkey : A)
    (netuid : NetUid) (amount : U64) : Chain A B P × U64 :=
  let chain := if 0 < amount.val then
      chain.withAccounts (pushStakingHotkey chain.accounts coldkey hotkey)
    else chain
  let updated :=
    updateValueForOne (hotkeyAlphaSharePool hotkey netuid) chain.stakes coldkey amount.asI64
  (chain.updateStakes hotkey netuid amount updated.1 updated.2,
    if 0 ≤ updated.2.val then updated.2.unsignedAbs else 0)

def tryIncreaseStakeForHotkeyAndColdkeyOnSubnet (chain : Chain A B P) (hotkey : A)
    (netuid : NetUid) (amount : U64) : Bool :=
  simUpdateValueForOne (hotkeyAlphaSharePool hotkey netuid) chain.stakes amount.asI64

/-- The chain and the alpha that was removed, which is all of the stake when
too little of it would remain. -/
def decreaseStakeForHotkeyAndColdkeyOnSubnet (chain : Chain A B P) (hotkey coldkey : A)
    (netuid : NetUid) (amount : U64) : Chain A B P × U64 :=
  match tryGetValue (hotkeyAlphaSharePool hotkey netuid) chain.stakes coldkey with
  | none => (chain, 0)
  | some value =>
      if amount.val ≤ value.val then
        let updated := updateValueForOne (hotkeyAlphaSharePool hotkey netuid) chain.stakes coldkey
          amount.asI64.neg
        (chain.updateStakes hotkey netuid value updated.1 updated.2,
          if 0 ≤ updated.2.neg.val then updated.2.neg.unsignedAbs else 0)
      else (chain, 0)

/-! ## Reserves -/

/-- `delta as u64`. -/
def deltaAsU64 (delta : ℤ) : U64 := .wrap (delta % 2 ^ 64).toNat

/-- `delta.abs().try_into().unwrap_or(0)`; the absolute value of the least
`i64` is itself, and does not convert. -/
def deltaAbs (delta : ℤ) : U64 := if delta = -2 ^ 63 then 0 else .sat delta.natAbs

/-- What users provided is used first, then what the protocol provided. -/
def decreaseProvided (own provided amount : U64) : U64 × U64 :=
  if (amount.satSub provided).val = 0 then (own, provided.satSub amount)
  else (own.satSub (amount.satSub provided), 0)

def decreaseProvidedTaoReserve (reserves : Reserves) (tao : U64) : Reserves :=
  let rest := decreaseProvided reserves.subnetTAO reserves.subnetTaoProvided tao
  { reserves with subnetTAO := rest.1, subnetTaoProvided := rest.2 }

def decreaseProvidedAlphaReserve (reserves : Reserves) (alpha : U64) : Reserves :=
  let rest := decreaseProvided reserves.subnetAlphaIn reserves.subnetAlphaInProvided alpha
  { reserves with subnetAlphaIn := rest.1, subnetAlphaInProvided := rest.2 }

/-- The reserves after TAO was swapped for alpha. -/
def boughtReserves (tao : U64) (result : Swap.SwapResult) (reserves : Reserves) : Reserves :=
  let reserves := decreaseProvidedAlphaReserve reserves (deltaAbs result.alphaReserveDelta)
  { reserves with
    subnetAlphaOut := reserves.subnetAlphaOut.satAdd result.amountPaidOut
    subnetTAO := reserves.subnetTAO.satAdd (deltaAsU64 result.taoReserveDelta)
    subnetVolume := reserves.subnetVolume.satAdd (.sat tao.val) }

/-- The reserves after alpha was swapped for TAO. -/
def soldReserves (result : Swap.SwapResult) (reserves : Reserves) : Reserves :=
  let reserves :=
    { reserves with
      subnetAlphaIn := reserves.subnetAlphaIn.satAdd (deltaAsU64 result.alphaReserveDelta)
      subnetAlphaOut := reserves.subnetAlphaOut.satSub (deltaAsU64 result.alphaReserveDelta) }
  let reserves := decreaseProvidedTaoReserve reserves (deltaAbs result.taoReserveDelta)
  { reserves with
    subnetVolume := reserves.subnetVolume.satAdd (.sat result.amountPaidOut.val) }

/-! ## Swaps -/

/-- A swap on a stable subnet. -/
def oneToOne (amount : U64) : Swap.SwapResult := ⟨amount, amount, 0, 0, 0⟩

/-- The chain after a swap, which may have changed the storage of the swap
pallet also when it fails. -/
def swapTaoForAlpha (rt : Runtime A B P) (chain : Chain A B P) (netuid : NetUid)
    (tao priceLimit : U64) : Chain A B P × Except Error Swap.SwapResult :=
  if chain.isDynamic netuid then
    match rt.swap.swap (chain.subnetInfo netuid) chain.swap netuid .buy tao priceLimit with
    | (swap, .error e) => (chain.withSwap swap, .error e)
    | (swap, .ok result) =>
        (((chain.withSwap swap).withReserves netuid (boughtReserves tao result)).withLedger
          (·.addStake tao), .ok result)
  else (chain, .ok (oneToOne tao))

def swapAlphaForTao (rt : Runtime A B P) (chain : Chain A B P) (netuid : NetUid)
    (alpha priceLimit : U64) : Chain A B P × Except Error Swap.SwapResult :=
  if chain.isDynamic netuid then
    match rt.swap.swap (chain.subnetInfo netuid) chain.swap netuid .sell alpha priceLimit with
    | (swap, .error e) => (chain.withSwap swap, .error e)
    | (swap, .ok result) =>
        (((chain.withSwap swap).withReserves netuid (soldReserves result)).withLedger
          (·.subStake result.amountPaidOut), .ok result)
  else (chain, .ok (oneToOne alpha))

/-- The alpha that was taken from the stake and not used by the swap. -/
def unusedAlpha (taken : U64) (result : Swap.SwapResult) : U64 :=
  taken.satSub (result.amountPaidIn.satAdd result.feePaid)

/-- The unused alpha is staked again. -/
def refundStake (chain : Chain A B P) (hotkey coldkey : A) (netuid : NetUid) (refund : U64) :
    Chain A B P :=
  if 0 < refund.val then
    (chain.increaseStakeForHotkeyAndColdkeyOnSubnet hotkey coldkey netuid refund).1
  else chain

/-- Alpha of the pair is sold; the result is the TAO that it was sold for.
The stake stays decreased when the swap fails. -/
def unstakeFromSubnet (rt : Runtime A B P) (chain : Chain A B P) (hotkey coldkey : A)
    (netuid : NetUid) (alpha priceLimit : U64) : Chain A B P × Except Error U64 :=
  match chain.decreaseStakeForHotkeyAndColdkeyOnSubnet hotkey coldkey netuid alpha with
  | (chain, taken) =>
      match chain.swapAlphaForTao rt netuid taken priceLimit with
      | (chain, .error e) => (chain, .error e)
      | (chain, .ok result) =>
          (chain.refundStake hotkey coldkey netuid (unusedAlpha taken result),
            .ok result.amountPaidOut)

/-- TAO that was withdrawn before is swapped, and the alpha staked. -/
def stakeIntoSubnet (rt : Runtime A B P) (chain : Chain A B P) (hotkey coldkey : A)
    (netuid : NetUid) (tao priceLimit : U64) : Except Error (Chain A B P × U64) :=
  match chain.swapTaoForAlpha rt netuid tao priceLimit with
  | (_, .error e) => .error e
  | (chain, .ok result) =>
      if ¬0 < result.amountPaidOut.val then .error .amountTooLow
      else if ¬chain.tryIncreaseStakeForHotkeyAndColdkeyOnSubnet hotkey netuid
          result.amountPaidOut then .error .insufficientLiquidity
      else
        match chain.increaseStakeForHotkeyAndColdkeyOnSubnet hotkey coldkey netuid
            result.amountPaidOut with
        | (chain, added) =>
            if added.val = 0 ∨ result.amountPaidOut.val = 0 then .ok (chain, 0)
            else
              .ok (chain.withAccounts (pushStakingHotkey chain.accounts coldkey hotkey),
                result.amountPaidOut)

/-- A nomination below the required minimum is unstaked, or dropped when it
cannot be sold. -/
def clearSmallNominationIfRequired (rt : Runtime A B P) (chain : Chain A B P) (hotkey coldkey : A)
    (netuid : NetUid) : Chain A B P :=
  if chain.coldkeyOwnsHotkey coldkey hotkey then chain
  else
    let stake := chain.getStakeForHotkeyAndColdkeyOnSubnet hotkey coldkey netuid
    if stake.val < chain.params.nominatorMinRequiredStake.val then
      match chain.unstakeFromSubnet rt hotkey coldkey netuid stake rt.swap.minPrice with
      | (chain, .ok cleared) => chain.addBalanceToColdkeyAccount rt coldkey cleared
      | (chain, .error _) =>
          (chain.decreaseStakeForHotkeyAndColdkeyOnSubnet hotkey coldkey netuid
            (chain.getStakeForHotkeyAndColdkeyOnSubnet hotkey coldkey netuid)).1
    else chain

end Chain

end Subtensor
