import Subtensor.Pallet.Chain

/-!
# The pallets behind the traits

`impl SwapHandler for Pallet` of the swap pallet
(`pallets/swap/src/pallet/impls.rs`), over the pools of all subnets; a
currency without locks and existential deposit; and a small chain on which
statements are tried.
-/

namespace Subtensor

open Lib Swap

variable {A : Type}

/-- The storage of the swap pallet. The pools share one counter of position
ids. -/
structure SwapStorage (A : Type) where
  pools : NetUid → Pool A
  lastPositionId : U128

namespace SwapStorage

def pool (storage : SwapStorage A) (netuid : NetUid) : Pool A :=
  { storage.pools netuid with lastPositionId := storage.lastPositionId }

def put (storage : SwapStorage A) (netuid : NetUid) (pool : Pool A) : SwapStorage A where
  pools := Function.update storage.pools netuid pool
  lastPositionId := pool.lastPositionId

/-- Before any subnet was traded. -/
def fresh (feeRate : U16) : SwapStorage A where
  pools := fun _ => Pool.fresh feeRate false 0
  lastPositionId := 0

end SwapStorage

/-- `0.0000000001`. -/
def priceEpsilon : U64F64 := ⟨1844674407, by norm_num⟩

/-- The square root of a price that is given in RAO per alpha. -/
@[irreducible] def limitSqrtPrice (priceLimit : U64) : Option SqrtPrice :=
  checkedSqrt ((UFixed.ofNat priceLimit.val : U64F64).safeDiv (.ofNat 1000000000)) priceEpsilon

/-- What `do_swap` reads of the subnet; it reads no balances. -/
def swapEnv (info : SubnetInfo) : Env A where
  taoReserve := info.taoReserve
  alphaReserve := info.alphaReserve
  taoBalance := fun _ => 0
  alphaBalance := fun _ _ => 0

/-- `map_err(Into::into)`. -/
def swapError {α : Type} (result : Except SwapError α) : Except Error α :=
  result.mapError fun
    | .insufficientLiquidity => .insufficientLiquidity
    | .insufficientBalance => .insufficientBalance
    | _ => .other

def swapMaxPrice : U64 :=
  UFixed.toWord 64 (((TickIndex.maxSqrtPrice.satMul TickIndex.maxSqrtPrice).satMul
    (.ofNat 1000000000)).satRound)

def swapMinPrice : U64 :=
  UFixed.toWord 64 ((TickIndex.minSqrtPrice.satMul TickIndex.minSqrtPrice).satMul
    (.ofNat 1000000000))

section

variable [DecidableEq A]

/-- `swap`, with `should_rollback` as an argument. -/
def swapPalletSwap (cfg : Swap.Config A) (info : SubnetInfo) (storage : SwapStorage A)
    (netuid : NetUid) (order : Swap.OrderType) (amount priceLimit : U64) (shouldRollback : Bool) :
    SwapStorage A × Except Error SwapResult :=
  match limitSqrtPrice priceLimit with
  | none => (storage, .error .other)
  | some limit =>
      let result := (storage.pool netuid).doSwap cfg (swapEnv info) order amount limit
        shouldRollback
      (storage.put netuid result.1, swapError result.2)

/-- `sim_swap`: a rolled back swap, one to one on a stable subnet. -/
def swapPalletSimSwap (cfg : Swap.Config A) (info : SubnetInfo) (storage : SwapStorage A)
    (netuid : NetUid) (order : Swap.OrderType) (amount : U64) : Except Error SwapResult :=
  if info.mechanism.val = 1 then
    (swapPalletSwap cfg info storage netuid order amount
      (match order with
        | .buy => swapMaxPrice
        | .sell => swapMinPrice) true).2
  else .ok ⟨amount, amount, 0, 0, 0⟩

/-- `current_price`. -/
def swapPalletPrice (info : SubnetInfo) (storage : SwapStorage A) (netuid : NetUid) : U96F32 :=
  if info.mechanism.val = 1 then
    let pool := storage.pool netuid
    if pool.swapV3Initialized then
      .sat ((pool.alphaSqrtPrice.satMul pool.alphaSqrtPrice).bits / 2 ^ 32)
    else if 0 < info.alphaReserve.val then
      (UFixed.ofNat info.taoReserve.val : U96F32).safeDiv (.ofNat info.alphaReserve.val)
    else 0
  else .ofNat 1

/-- The swap pallet as a `SwapHandler`. -/
def swapPallet (cfg : Swap.Config A) : SwapHandler (SwapStorage A) where
  swap info storage netuid order amount priceLimit :=
    swapPalletSwap cfg info storage netuid order amount priceLimit false
  swapRollback info storage netuid order amount priceLimit :=
    (swapPalletSwap cfg info storage netuid order amount priceLimit true).2
  simSwap := swapPalletSimSwap cfg
  approxFeeAmount storage netuid amount := (storage.pool netuid).calculateFeeAmount amount
  currentAlphaPrice := swapPalletPrice
  maxPrice := swapMaxPrice
  minPrice := swapMinPrice
  adjustProtocolLiquidity storage netuid taoDelta alphaDelta :=
    storage.put netuid ((storage.pool netuid).adjustProtocolLiquidity cfg taoDelta alphaDelta)

end

/-! ## A currency -/

/-- Free balances and the issuance of a currency. -/
structure Balances (A : Type) where
  totalIssuance : ℕ
  free : A → U64

/-- No balance is locked and no account has to keep a deposit. -/
def Balances.withdraw [DecidableEq A] (b : Balances A) (account : A) (amount : U64) :
    Option (Balances A × U64) :=
  if amount.val ≤ (b.free account).val ∧ amount.val ≤ b.totalIssuance then
    some (⟨b.totalIssuance - amount.val,
      Function.update b.free account ((b.free account).satSub amount)⟩, amount)
  else none

def balances [DecidableEq A] : Currency A (Balances A) where
  totalIssuance b := b.totalIssuance
  freeBalance b account := b.free account
  reducibleBalance b account := b.free account
  canWithdraw b account amount := amount.val ≤ (b.free account).val
  withdraw := Balances.withdraw
  withdrawForced := Balances.withdraw
  deposit b account amount :=
    ⟨b.totalIssuance + amount.val,
      Function.update b.free account ((b.free account).satAdd amount)⟩

theorem Balances.withdraw_eq_some [DecidableEq A] {b b' : Balances A} {account : A}
    {amount credit : U64} (h : b.withdraw account amount = some (b', credit)) :
    credit = amount ∧ b'.totalIssuance + amount.val = b.totalIssuance := by
  unfold Balances.withdraw at h
  split at h
  · rename_i hle
    cases h
    exact ⟨rfl, Nat.sub_add_cancel hle.2⟩
  · cases h

theorem balances_exact [DecidableEq A] : (balances : Currency A (Balances A)).Exact where
  withdraw := Balances.withdraw_eq_some
  withdrawForced := Balances.withdraw_eq_some
  deposit := fun _ _ _ => rfl

/-! ## A small chain -/

/-- The configuration of the runtime's swap pallet. -/
def swapConfig : Swap.Config ℕ where
  maxFeeRate := .sat 10000
  maxPositions := .sat 100
  minimumLiquidity := .sat 1000
  minimumReserve := .sat 1000000
  minimumReserve_pos := by decide
  protocolAccountId := 0

/-- The integral part of the binary logarithm of a number that is at least
one; on powers of two it is the logarithm. -/
def floorLog2 (x : I96F32) : Option I96F32 :=
  if x.bits ≤ 0 then none else some (.ofInt (Nat.log 2 x.bits.toNat - 32))

def runtime : Runtime ℕ (Balances ℕ) (SwapStorage ℕ) where
  currency := balances
  swap := swapPallet swapConfig
  swapSenateMember members remove add := .ok (members.map fun m => if m = remove then add else m)
  log2 := floorLog2
  defaultAccount := 0
  defaultDelegateTake := .sat 11796
  defaultMinStake := .sat 500000
  keySwapCost := .sat 100000000
  keySwapOnSubnetCost := .sat 1000000
  hotkeySwapOnSubnetInterval := .sat 36000

/-- The reserves of a subnet with a billion RAO of TAO and of alpha. -/
def smallReserves : Reserves where
  subnetTAO := .sat 1000000000
  subnetTaoProvided := 0
  subnetAlphaIn := .sat 1000000000
  subnetAlphaInProvided := 0
  subnetAlphaOut := 0
  subnetVolume := 0

/-- The parameters of a subnet that the coldkey `10` and the hotkey `1` own. -/
def smallSubnet (mechanism : U16) : Subnet ℕ where
  mechanism := mechanism
  subtokenEnabled := true
  transferToggle := true
  firstEmissionBlockNumber := some (.sat 1)
  subnetMovingPrice := .ofInt 1
  emaPriceHalvingBlocks := .sat 201600
  networkRegistrationAllowed := true
  networkPowRegistrationAllowed := true
  tempo := .sat 360
  subnetOwner := some 10
  subnetOwnerHotkey := some 1
  maxAllowedUids := .sat 256
  immunityPeriod := .sat 5000
  burn := .sat 1000000
  minBurn := .sat 500000
  maxBurn := .sat 100000000000
  difficulty := .sat 10000000
  minDifficulty := .sat 10000000
  maxDifficulty := .sat 4611686018427387903
  adjustmentAlpha := 0
  adjustmentInterval := .sat 100
  lastAdjustmentBlock := 0
  maxRegistrationsPerBlock := .sat 1
  targetRegistrationsPerInterval := .sat 1

/-- A chain with the root network, which is stable, and the dynamic subnet
`1`. The hotkeys `1`, `2` and `3` belong to the coldkey `10`, which has a
balance; nothing is staked but the reserve of the subnet. -/
def smallChain : Chain ℕ (Balances ℕ) (SwapStorage ℕ) where
  block := .sat 1000
  ledger :=
    { currency := ⟨10000000000, fun account => if account = 10 then .sat 10000000000 else 0⟩
      totalIssuance := .sat 11000000000
      totalStake := .sat 1000000000
      overflowed := false }
  swap := SwapStorage.fresh (.sat 33)
  reserves := fun netuid => if netuid.val = 1 then smallReserves else ⟨0, 0, 0, 0, 0, 0⟩
  stakes := ⟨∅, fun _ => 0, ∅⟩
  accounts :=
    { owner := fun hotkey => if hotkey = 1 ∨ hotkey = 2 ∨ hotkey = 3 then some 10 else none
      ownedHotkeys := fun coldkey => if coldkey = 10 then [1, 2, 3] else []
      stakingHotkeys := fun _ => []
      delegates := fun _ => none
      childkeyTake := fun _ _ => 0 }
  pending := ⟨fun _ => 0, fun _ => 0, fun _ => 0, ∅⟩
  networksAdded := ((∅ : StorageMap NetUid Bool).insert (.sat 1) true).insert 0 true
  subnets := fun netuid => smallSubnet (if netuid.val = 1 then .sat 1 else 0)
  graph := fun _ => Children.SubnetGraph.empty
  neurons := fun _ => Neurons.empty
  isNetworkMember := ∅
  registrations := fun _ => ⟨0, 0, 0, 0, 0⟩
  networkLock := ⟨.sat 100000000, .sat 100000000, 0, .sat 14400, .sat 7200⟩
  blockEmission := .sat 1000000000
  senateMembers := []
  lastBlocks := ⟨fun _ _ => 0, fun _ => 0, fun _ => 0, fun _ => 0, fun _ _ => 0⟩
  params :=
    { stakeThreshold := 0
      nominatorMinRequiredStake := 0
      taoWeight := .sat 3320413933267719290
      pendingChildKeyCooldown := .sat 7200
      txRateLimit := .sat 1000
      subnetOwnerCut := .sat 11796
      subnetMovingAlpha := .sat 12884902 }

end Subtensor
