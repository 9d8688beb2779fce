import Subtensor.Children.Graph
import Subtensor.Pallet.Neurons
import Subtensor.SharePool.Pool
import Subtensor.Swap.SwapStep

/-!
# The storage of the pallet

The storage items that staking, emission, registration and key swaps read and
write (`pallets/subtensor/src/lib.rs`), grouped by what they are about, and
the two pallets that are reached through traits: the currency, which is not
part of the repository, and the swap pallet (`SwapHandler`).
-/

namespace Subtensor

open Lib Swap Children

/-! ## The currency -/

/-- `T::Currency`, with the modes in which the pallet calls it. -/
structure Currency (A B : Type) where
  totalIssuance : B → ℕ
  freeBalance : B → A → U64
  /-- `reducible_balance`, expendable and polite. -/
  reducibleBalance : B → A → U64
  canWithdraw : B → A → U64 → Bool
  /-- `withdraw`, best effort, preserving the account. -/
  withdraw : B → A → U64 → Option (B × U64)
  /-- `withdraw`, exact, by force, the account may be reaped. -/
  withdrawForced : B → A → U64 → Option (B × U64)
  deposit : B → A → U64 → B

/-- Withdrawals and deposits move exactly the amount that was asked for. -/
structure Currency.Exact {A B : Type} (currency : Currency A B) : Prop where
  withdraw : ∀ {b a amount b' credit}, currency.withdraw b a amount = some (b', credit) →
    credit = amount ∧ currency.totalIssuance b' + amount.val = currency.totalIssuance b
  withdrawForced : ∀ {b a amount b' credit},
    currency.withdrawForced b a amount = some (b', credit) →
      credit = amount ∧ currency.totalIssuance b' + amount.val = currency.totalIssuance b
  deposit : ∀ b a amount,
    currency.totalIssuance (currency.deposit b a amount) = currency.totalIssuance b + amount.val

/-! ## The swap pallet -/

/-- What the swap pallet reads of a subnet. -/
structure SubnetInfo where
  taoReserve : U64
  alphaReserve : U64
  mechanism : U16

/-- The trait `SwapHandler` over a storage `P` of the swap pallet. A swap that
is not rolled back may leave its changes behind when it fails. -/
structure SwapHandler (P : Type) where
  swap : SubnetInfo → P → NetUid → Swap.OrderType → U64 → U64 → P × Except Error SwapResult
  /-- `swap` with `should_rollback`. -/
  swapRollback : SubnetInfo → P → NetUid → Swap.OrderType → U64 → U64 → Except Error SwapResult
  simSwap : SubnetInfo → P → NetUid → Swap.OrderType → U64 → Except Error SwapResult
  approxFeeAmount : P → NetUid → U64 → U64
  currentAlphaPrice : SubnetInfo → P → NetUid → U96F32
  maxPrice : U64
  minPrice : U64
  adjustProtocolLiquidity : P → NetUid → U64 → U64 → P

/-! ## Storage -/

/-- The counters of all TAO. `overflowed` is not stored on the chain: it
records that a saturating operation on a counter was clamped, or that an
amount did not fit into an `i64` it was cast to. Nothing reads it. -/
structure Ledger (B : Type) where
  currency : B
  totalIssuance : U64
  totalStake : U64
  overflowed : Bool

/-- The reserves of the pool of a subnet. -/
structure Reserves where
  subnetTAO : U64
  subnetTaoProvided : U64
  subnetAlphaIn : U64
  subnetAlphaInProvided : U64
  subnetAlphaOut : U64
  subnetVolume : U128

/-- The alpha of hotkeys, and the shares of their coldkeys. -/
structure Stakes (A : Type) where
  totalHotkeyAlpha : StorageMap (A × NetUid) U64
  totalHotkeyShares : A × NetUid → U64F64
  alpha : StorageMap (A × A × NetUid) U64F64

/-- The pairing of hotkeys and coldkeys. -/
structure Accounts (A : Type) where
  owner : A → Option A
  ownedHotkeys : A → List A
  stakingHotkeys : A → List A
  delegates : A → Option U16
  childkeyTake : A → NetUid → U16

/-- Emission that waits for the next epoch of the subnet. -/
structure Pending where
  pendingEmission : NetUid → U64
  pendingAlphaSwapped : NetUid → U64
  pendingOwnerCut : NetUid → U64
  pendingRootDivs : StorageMap NetUid U64

structure Subnet (A : Type) where
  mechanism : U16
  subtokenEnabled : Bool
  transferToggle : Bool
  firstEmissionBlockNumber : Option U64
  subnetMovingPrice : I96F32
  emaPriceHalvingBlocks : U64
  networkRegistrationAllowed : Bool
  networkPowRegistrationAllowed : Bool
  tempo : U16
  subnetOwner : Option A
  subnetOwnerHotkey : Option A
  maxAllowedUids : U16
  immunityPeriod : U16
  burn : U64
  minBurn : U64
  maxBurn : U64
  difficulty : U64
  minDifficulty : U64
  maxDifficulty : U64
  adjustmentAlpha : U64
  adjustmentInterval : U16
  lastAdjustmentBlock : U64
  maxRegistrationsPerBlock : U16
  targetRegistrationsPerInterval : U16

/-- Counters of the registrations on a subnet. -/
structure Registrations where
  thisBlock : U16
  thisInterval : U16
  powThisInterval : U16
  burnThisInterval : U16
  raoRecycled : U64

/-- The cost of registering a network. -/
structure NetworkLock where
  networkLastLockCost : U64
  networkMinLockCost : U64
  networkLastRegistered : U64
  networkLockReductionInterval : U64
  networkRateLimit : U64

/-- Blocks of the last calls that are limited in their rate. -/
structure LastBlocks (A : Type) where
  setChildren : A → NetUid → U64
  lastTxBlock : A → U64
  lastTxBlockDelegateTake : A → U64
  lastTxBlockChildKeyTake : A → U64
  lastHotkeySwapOnNetuid : NetUid → A → U64

/-- Values that governance sets. -/
structure Params where
  stakeThreshold : U64
  nominatorMinRequiredStake : U64
  taoWeight : U64
  pendingChildKeyCooldown : U64
  txRateLimit : U64
  subnetOwnerCut : U16
  subnetMovingAlpha : I96F32

structure Chain (A B P : Type) where
  block : U64
  ledger : Ledger B
  swap : P
  reserves : NetUid → Reserves
  stakes : Stakes A
  accounts : Accounts A
  pending : Pending
  networksAdded : StorageMap NetUid Bool
  subnets : NetUid → Subnet A
  graph : NetUid → SubnetGraph A
  neurons : NetUid → Neurons A
  isNetworkMember : StorageMap (A × NetUid) Bool
  registrations : NetUid → Registrations
  networkLock : NetworkLock
  blockEmission : U64
  senateMembers : List A
  lastBlocks : LastBlocks A
  params : Params

/-- The constants of the runtime and what is reached through traits: the
currency, the swap pallet, the Senate and the logarithm of the fixed-point
library. -/
structure Runtime (A B P : Type) where
  currency : Currency A B
  swap : SwapHandler P
  swapSenateMember : List A → A → A → Except Error (List A)
  log2 : I96F32 → Option I96F32
  defaultAccount : A
  defaultDelegateTake : U16
  defaultMinStake : U64
  keySwapCost : U64
  keySwapOnSubnetCost : U64
  hotkeySwapOnSubnetInterval : U64

namespace Ledger

variable {B : Type}

/-! ## Counters -/

def addStake (ledger : Ledger B) (tao : U64) : Ledger B :=
  { ledger with
    totalStake := ledger.totalStake.satAdd tao
    overflowed := ledger.overflowed || decide (2 ^ 64 ≤ ledger.totalStake.val + tao.val) }

def subStake (ledger : Ledger B) (tao : U64) : Ledger B :=
  { ledger with
    totalStake := ledger.totalStake.satSub tao
    overflowed := ledger.overflowed || decide (ledger.totalStake.val < tao.val) }

def addIssuance (ledger : Ledger B) (tao : U64) : Ledger B :=
  { ledger with
    totalIssuance := ledger.totalIssuance.satAdd tao
    overflowed := ledger.overflowed || decide (2 ^ 64 ≤ ledger.totalIssuance.val + tao.val) }

def subIssuance (ledger : Ledger B) (tao : U64) : Ledger B :=
  { ledger with
    totalIssuance := ledger.totalIssuance.satSub tao
    overflowed := ledger.overflowed || decide (ledger.totalIssuance.val < tao.val) }

/-- Record that an operation outside of the ledger overflowed. -/
def note (ledger : Ledger B) (overflow : Bool) : Ledger B :=
  { ledger with overflowed := ledger.overflowed || overflow }

end Ledger

namespace Chain

variable {A B P : Type}

/-! ## Reading the storage -/

def mechanism (chain : Chain A B P) (netuid : NetUid) : U16 := (chain.subnets netuid).mechanism

/-- The dynamic mechanism, on which alpha has a price. -/
def isDynamic (chain : Chain A B P) (netuid : NetUid) : Bool := (chain.mechanism netuid).val = 1

def taoReserve (chain : Chain A B P) (netuid : NetUid) : U64 :=
  (chain.reserves netuid).subnetTAO.satAdd (chain.reserves netuid).subnetTaoProvided

def alphaReserve (chain : Chain A B P) (netuid : NetUid) : U64 :=
  (chain.reserves netuid).subnetAlphaIn.satAdd (chain.reserves netuid).subnetAlphaInProvided

def subnetInfo (chain : Chain A B P) (netuid : NetUid) : SubnetInfo :=
  ⟨chain.taoReserve netuid, chain.alphaReserve netuid, chain.mechanism netuid⟩

/-- `NetworksAdded::iter()`. -/
def getAllSubnetNetuids (chain : Chain A B P) : List NetUid := chain.networksAdded.keys

def ifSubnetExist (chain : Chain A B P) (netuid : NetUid) : Bool :=
  (chain.networksAdded.lookup netuid).getD false

def hotkeyAccountExists (chain : Chain A B P) (hotkey : A) : Bool :=
  (chain.accounts.owner hotkey).isSome

def getOwningColdkeyForHotkey (rt : Runtime A B P) (chain : Chain A B P) (hotkey : A) : A :=
  (chain.accounts.owner hotkey).getD rt.defaultAccount

def getHotkeyTake (rt : Runtime A B P) (chain : Chain A B P) (hotkey : A) : U16 :=
  (chain.accounts.delegates hotkey).getD rt.defaultDelegateTake

def currentAlphaPrice (rt : Runtime A B P) (chain : Chain A B P) (netuid : NetUid) : U96F32 :=
  rt.swap.currentAlphaPrice (chain.subnetInfo netuid) chain.swap netuid

def simSwap (rt : Runtime A B P) (chain : Chain A B P) (netuid : NetUid) (order : Swap.OrderType)
    (amount : U64) : Except Error SwapResult :=
  rt.swap.simSwap (chain.subnetInfo netuid) chain.swap netuid order amount

/-! ## Writing the storage -/

def withLedger (chain : Chain A B P) (f : Ledger B → Ledger B) : Chain A B P :=
  { chain with ledger := f chain.ledger }

def withReserves (chain : Chain A B P) (netuid : NetUid) (f : Reserves → Reserves) :
    Chain A B P :=
  { chain with reserves := Function.update chain.reserves netuid (f (chain.reserves netuid)) }

def withSwap (chain : Chain A B P) (swap : P) : Chain A B P := { chain with swap := swap }

section

variable [DecidableEq A]

def coldkeyOwnsHotkey (chain : Chain A B P) (coldkey hotkey : A) : Bool :=
  chain.accounts.owner hotkey = some coldkey

def getStakeForHotkeyOnSubnet (chain : Chain A B P) (hotkey : A) (netuid : NetUid) : U64 :=
  (chain.stakes.totalHotkeyAlpha.lookup (hotkey, netuid)).getD 0

/-- `get_total_stake_for_hotkey`: the alpha of the hotkey on all subnets, at
the present prices. -/
def getTotalStakeForHotkey (rt : Runtime A B P) (chain : Chain A B P) (hotkey : A) : U64 :=
  let terms := chain.getAllSubnetNetuids.map fun netuid =>
    (UFixed.ofNat (chain.getStakeForHotkeyOnSubnet hotkey netuid).val : U96F32).satMul
      (chain.currentAlphaPrice rt netuid)
  -- the sum of fixed-point numbers wraps when it overflows
  (UFixed.toWord 64 (⟨(terms.map (·.bits)).sum % 2 ^ (96 + 32),
    Nat.mod_lt _ (Nat.two_pow_pos _)⟩ : U96F32))

end

end Chain

end Subtensor
