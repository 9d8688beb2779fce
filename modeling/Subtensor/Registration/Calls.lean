import Subtensor.Emission.BlockStep
import Subtensor.Staking.Stake

/-!
# Registrations

A hotkey is registered on a subnet against the burn of the subnet or by work
(`do_burned_registration` and `do_registration` in
`pallets/subtensor/src/subnets/registration.rs`), and a network is registered against the lock cost (`do_register_network` in
`subnets/subnet.rs`, with the cost from `coinbase/root.rs`).
-/

namespace Subtensor

open Lib

/-- `SubnetIdentityV3`. -/
structure SubnetIdentity where
  subnetName : List UInt8
  githubRepo : List UInt8
  subnetContact : List UInt8
  subnetUrl : List UInt8
  discord : List UInt8
  description : List UInt8
  logoUrl : List UInt8
  additional : List UInt8

def SubnetIdentity.isValid (identity : SubnetIdentity) : Bool :=
  identity.subnetName.length + identity.githubRepo.length + identity.subnetContact.length ≤
      256 + 1024 + 1024 + 1024 + 256 + 1024 + 1024 + 1024 &&
    identity.subnetName.length ≤ 256 && identity.githubRepo.length ≤ 1024 &&
    identity.subnetContact.length ≤ 1024 && identity.subnetUrl.length ≤ 1024 &&
    identity.discord.length ≤ 256 && identity.description.length ≤ 1024 &&
    identity.logoUrl.length ≤ 1024 && identity.additional.length ≤ 1024

structure NeuronRegistered (A : Type) where
  netuid : NetUid
  uid : U16
  hotkey : A

namespace Chain

variable {A B P : Type} [DecidableEq A]

/-! ## Accounts and neurons -/

def createAccountIfNonExistent (chain : Chain A B P) (coldkey hotkey : A) : Chain A B P :=
  if chain.hotkeyAccountExists hotkey then chain
  else
    chain.withAccounts { chain.accounts with
      owner := Function.update chain.accounts.owner hotkey (some coldkey)
      ownedHotkeys := Function.update chain.accounts.ownedHotkeys coldkey
        (pushNew (chain.accounts.ownedHotkeys coldkey) hotkey)
      stakingHotkeys := Function.update chain.accounts.stakingHotkeys coldkey
        (pushNew (chain.accounts.stakingHotkeys coldkey) hotkey) }

def withNeurons (chain : Chain A B P) (netuid : NetUid) (neurons : Neurons A)
    (isNetworkMember : StorageMap (A × NetUid) Bool) : Chain A B P :=
  { chain with
    neurons := Function.update chain.neurons netuid neurons
    isNetworkMember := isNetworkMember }

def appendNeuron (chain : Chain A B P) (netuid : NetUid) (hotkey : A) : Chain A B P :=
  chain.withNeurons netuid ((chain.neurons netuid).appendNeuron hotkey chain.block)
    (chain.isNetworkMember.insert (hotkey, netuid) true)

/-- `register_neuron`. The memberships stay as they are when the slot to
replace is that of the owner of the subnet. -/
def registerNeuron (rt : Runtime A B P) (chain : Chain A B P) (netuid : NetUid) (hotkey : A) :
    Chain A B P :=
  let subnet := chain.subnets netuid
  let neurons := chain.neurons netuid
  let registered := neurons.registerNeuron rt.defaultAccount subnet.subnetOwnerHotkey chain.block
    subnet.immunityPeriod subnet.maxAllowedUids hotkey
  chain.withNeurons netuid registered.2.1
    (if neurons.subnetworkN.val < subnet.maxAllowedUids.val then
      chain.isNetworkMember.insert (hotkey, netuid) true
    else match registered.2.2 with
    | none => chain.isNetworkMember
    | some oldHotkey =>
        (chain.isNetworkMember.erase (oldHotkey, netuid)).insert (hotkey, netuid) true)

def registeredUid (rt : Runtime A B P) (chain : Chain A B P) (netuid : NetUid) (hotkey : A) : U16 :=
  ((chain.neurons netuid).registerNeuron rt.defaultAccount
    (chain.subnets netuid).subnetOwnerHotkey chain.block (chain.subnets netuid).immunityPeriod
    (chain.subnets netuid).maxAllowedUids hotkey).1

/-! ## Burned registration -/

def countBurnRegistration (chain : Chain A B P) (netuid : NetUid) : Chain A B P :=
  chain.withRegistrations netuid fun registrations =>
    { registrations with
      burnThisInterval := registrations.burnThisInterval.satAdd (.sat 1)
      thisInterval := registrations.thisInterval.satAdd (.sat 1)
      thisBlock := registrations.thisBlock.satAdd (.sat 1)
      raoRecycled := registrations.raoRecycled.satAdd (chain.subnets netuid).burn }

def burnOnSubnet (rt : Runtime A B P) (chain : Chain A B P) (netuid : NetUid) (tao : U64) :
    Except Error (Chain A B P) :=
  match chain.swapTaoForAlpha rt netuid tao rt.swap.maxPrice with
  | (_, .error e) => .error e
  | (chain, .ok result) =>
      .ok (chain.withReserves netuid fun reserves =>
        { reserves with
          subnetAlphaOut := reserves.subnetAlphaOut.satSub result.amountPaidOut })

def doBurnedRegistrationEvent (rt : Runtime A B P) (chain : Chain A B P) (coldkey : A)
    (netuid : NetUid) (hotkey : A) : Except Error (Chain A B P × NeuronRegistered A) :=
  let subnet := chain.subnets netuid
  let registrations := chain.registrations netuid
  if netuid.isRoot then .error .registrationNotPermittedOnRootSubnet
  else if ¬chain.ifSubnetExist netuid then .error .subNetworkDoesNotExist
  else if ¬subnet.networkRegistrationAllowed then .error .subNetRegistrationDisabled
  else if ¬registrations.thisBlock.val < subnet.maxRegistrationsPerBlock.val then
    .error .tooManyRegistrationsThisBlock
  else if ¬registrations.thisInterval.val <
      (Word.sat (subnet.targetRegistrationsPerInterval.val * 3) : U16).val then
    .error .tooManyRegistrationsThisInterval
  else if ((chain.neurons netuid).uids hotkey).isSome then .error .hotKeyAlreadyRegisteredInSubNet
  else if ¬chain.canRemoveBalanceFromColdkeyAccount rt coldkey subnet.burn then
    .error .notEnoughBalanceToStake
  else
    let chain := chain.createAccountIfNonExistent coldkey hotkey
    if ¬chain.coldkeyOwnsHotkey coldkey hotkey then .error .nonAssociatedColdKey
    else if subnet.maxAllowedUids.val = 0 then .error .noNeuronIdAvailable
    else match chain.removeBalanceFromColdkeyAccount rt coldkey subnet.burn with
    | .error e => .error e
    | .ok (chain, actualBurnAmount) =>
        match chain.burnOnSubnet rt netuid actualBurnAmount with
        | .error e => .error e
        | .ok chain =>
            let neuronUid := chain.registeredUid rt netuid hotkey
            .ok ((chain.registerNeuron rt netuid hotkey).countBurnRegistration netuid,
              ⟨netuid, neuronUid, hotkey⟩)

def doBurnedRegistration (rt : Runtime A B P) (chain : Chain A B P) (coldkey : A)
    (netuid : NetUid) (hotkey : A) : Except Error (Chain A B P) :=
  (chain.doBurnedRegistrationEvent rt coldkey netuid hotkey).map Prod.fst

/-! ## Registration by work -/

/-- `U256::from_little_endian`. -/
def fromLittleEndian (bytes : List UInt8) : ℕ :=
  bytes.foldr (fun byte value => byte.toNat + 256 * value) 0

/-- `hash_meets_difficulty`: the product does not overflow. -/
def hashMeetsDifficulty (hash : List UInt8) (difficulty : U64) : Bool :=
  fromLittleEndian hash * difficulty.val < 2 ^ 256

def countPowRegistration (chain : Chain A B P) (netuid : NetUid) : Chain A B P :=
  chain.withRegistrations netuid fun registrations =>
    { registrations with
      powThisInterval := registrations.powThisInterval.satAdd (.sat 1)
      thisInterval := registrations.thisInterval.satAdd (.sat 1)
      thisBlock := registrations.thisBlock.satAdd (.sat 1) }

/-- `do_registration`, with the event that it deposits. `sealHash` is
`create_seal_hash`; work that has not the length of a hash traps, which is `none`. -/
def doRegistrationEvent (rt : Runtime A B P) (sealHash : U64 → U64 → A → List UInt8)
    (chain : Chain A B P) (signingOrigin : A) (netuid : NetUid) (blockNumber nonce : U64)
    (work : List UInt8) (hotkey coldkey : A) :
    Option (Except Error (Chain A B P × NeuronRegistered A)) :=
  let subnet := chain.subnets netuid
  let registrations := chain.registrations netuid
  if ¬signingOrigin = hotkey then some (.error .transactorAccountShouldBeHotKey)
  else if netuid.isRoot then some (.error .registrationNotPermittedOnRootSubnet)
  else if ¬chain.ifSubnetExist netuid then some (.error .subNetworkDoesNotExist)
  else if ¬subnet.networkPowRegistrationAllowed then some (.error .subNetRegistrationDisabled)
  else if ¬registrations.thisBlock.val < subnet.maxRegistrationsPerBlock.val then
    some (.error .tooManyRegistrationsThisBlock)
  else if ¬registrations.thisInterval.val <
      (Word.sat (subnet.targetRegistrationsPerInterval.val * 3) : U16).val then
    some (.error .tooManyRegistrationsThisInterval)
  else if ((chain.neurons netuid).uids hotkey).isSome then
    some (.error .hotKeyAlreadyRegisteredInSubNet)
  else if ¬blockNumber.val ≤ chain.block.val then some (.error .invalidWorkBlock)
  else if ¬(chain.block.satSub blockNumber).val < 3 then some (.error .invalidWorkBlock)
  else if ¬work.length = 32 then none
  else if ¬hashMeetsDifficulty work subnet.difficulty then some (.error .invalidDifficulty)
  else if ¬sealHash blockNumber nonce hotkey = work then some (.error .invalidSeal)
  else
    let chain := chain.createAccountIfNonExistent coldkey hotkey
    if ¬chain.coldkeyOwnsHotkey coldkey hotkey then some (.error .nonAssociatedColdKey)
    else if subnet.maxAllowedUids.val = 0 then some (.error .noNeuronIdAvailable)
    else
      let neuronUid := chain.registeredUid rt netuid hotkey
      some (.ok ((chain.registerNeuron rt netuid hotkey).countPowRegistration netuid,
        ⟨netuid, neuronUid, hotkey⟩))

def doRegistration (rt : Runtime A B P) (sealHash : U64 → U64 → A → List UInt8)
    (chain : Chain A B P) (signingOrigin : A) (netuid : NetUid) (blockNumber nonce : U64)
    (work : List UInt8) (hotkey coldkey : A) : Option (Except Error (Chain A B P)) :=
  (chain.doRegistrationEvent rt sealHash signingOrigin netuid blockNumber nonce work hotkey
    coldkey).map (Except.map Prod.fst)

/-! ## Registration of a network -/

/-- `get_lock_reduction_interval`: the interval shrinks with the emission of a
block. -/
def getLockReductionInterval (rt : Runtime A B P) (chain : Chain A B P) : U64 :=
  let blockEmission : IFixed 64 64 :=
    .ofInt ((chain.getBlockEmission rt).getD (.sat 1000000000)).val
  let halving := (blockEmission.checkedDiv (.ofInt 1000000000)).getD 0
  ((IFixed.ofInt chain.networkLock.networkLockReductionInterval.val).satMul halving).toWord 64

/-- `get_network_lock_cost`: twice the last cost, which then decays until the
minimum is reached. -/
def getNetworkLockCost (rt : Runtime A B P) (chain : Chain A B P) : U64 :=
  let lock := chain.networkLock
  let mult := if lock.networkLastRegistered.val = 0 then 1 else 2
  let decay : U64 := .sat ((lock.networkLastLockCost.val / (chain.getLockReductionInterval rt).val) *
    (chain.block.satSub lock.networkLastRegistered).val)
  let lockCost := (Word.sat (lock.networkLastLockCost.val * mult) : U64).satSub decay
  if lockCost.val < lock.networkMinLockCost.val then lock.networkMinLockCost else lockCost

def nextNetuidFrom (netuids : List NetUid) : ℕ → NetUid → Option NetUid
  | 0, _ => none
  | n + 1, netuid =>
      if netuid ∈ netuids then nextNetuidFrom netuids n (netuid.satAdd (.sat 1)) else some netuid

/-- `get_next_netuid`; root is not created. When every identifier is taken the
search stays at the last one and does not end. -/
def getNextNetuid (chain : Chain A B P) : Option NetUid :=
  nextNetuidFrom chain.getAllSubnetNetuids 65535 (.sat 1)

def initNewNetwork (chain : Chain A B P) (netuid : NetUid) (tempo : U16) : Chain A B P :=
  { chain with
    neurons := Function.update chain.neurons netuid
      { chain.neurons netuid with subnetworkN := 0 }
    networksAdded := chain.networksAdded.insert netuid true
    subnets := Function.update chain.subnets netuid
      { chain.subnets netuid with
        tempo := tempo
        networkRegistrationAllowed := true
        maxAllowedUids := .sat 256
        adjustmentInterval := .sat 360
        targetRegistrationsPerInterval := .sat 1
        adjustmentAlpha := .sat 17893341751498265066
        immunityPeriod := .sat 5000
        minDifficulty := .maxVal
        maxDifficulty := .maxVal } }

/-- The mechanism and the owner of a new subnet, the block of its
registration, and the pool with as much TAO as alpha. -/
def setCreationTerms (chain : Chain A B P) (netuid : NetUid) (coldkey hotkey : A) (mechid : U16)
    (poolInitialTao : U64) : Chain A B P :=
  { (chain.withReserves netuid fun reserves =>
      { reserves with subnetTAO := poolInitialTao, subnetAlphaIn := poolInitialTao }) with
    subnets := Function.update chain.subnets netuid
      { chain.subnets netuid with
        mechanism := mechid
        subnetOwner := some coldkey
        subnetOwnerHotkey := some hotkey }
    networkLock := { chain.networkLock with networkLastRegistered := chain.block } }

/-- What the lock is split into: the TAO of the pool is counted as stake, the
rest is burned. -/
def splitLock (chain : Chain A B P) (actualTaoLockAmount poolInitialTao : U64) : Chain A B P :=
  let rest := actualTaoLockAmount.satSub poolInitialTao
  let chain := if 0 < rest.val then chain.burnTokens rest else chain
  if 0 < actualTaoLockAmount.val ∧ 0 < poolInitialTao.val then
    chain.withLedger (·.addStake poolInitialTao)
  else chain

def createNetwork (chain : Chain A B P) (defaultTempo : U16) (netuid : NetUid)
    (coldkey hotkey : A) (mechid : U16) (actualTaoLockAmount : U64) : Chain A B P :=
  let chain := { chain with networkLock :=
    { chain.networkLock with networkLastLockCost := actualTaoLockAmount } }
  let chain := ((chain.initNewNetwork netuid defaultTempo).createAccountIfNonExistent coldkey
    hotkey).appendNeuron netuid hotkey
  let poolInitialTao := chain.networkLock.networkMinLockCost
  (chain.setCreationTerms netuid coldkey hotkey mechid poolInitialTao).splitLock
    actualTaoLockAmount poolInitialTao

/-- `do_register_network`, where `none` stands for a search for an identifier
that does not end. -/
def doRegisterNetwork (rt : Runtime A B P) (defaultTempo : U16) (chain : Chain A B P)
    (coldkey hotkey : A) (mechid : U16) (identity : Option SubnetIdentity) :
    Option (Except Error (Chain A B P)) :=
  let lockAmount := chain.getNetworkLockCost rt
  if ¬(¬chain.hotkeyAccountExists hotkey ∨ chain.coldkeyOwnsHotkey coldkey hotkey) then
    some (.error .nonAssociatedColdKey)
  else if ¬mechid.val = 1 then some (.error .mechanismDoesNotExist)
  else if (chain.block.satSub chain.networkLock.networkLastRegistered).val <
      chain.networkLock.networkRateLimit.val then some (.error .networkTxRateLimitExceeded)
  else if ¬chain.canRemoveBalanceFromColdkeyAccount rt coldkey lockAmount then
    some (.error .notEnoughBalanceToStake)
  else chain.getNextNetuid.map fun netuid =>
    match chain.removeBalanceFromColdkeyAccount rt coldkey lockAmount with
    | .error e => .error e
    | .ok (chain, actualTaoLockAmount) =>
        let chain := chain.createNetwork defaultTempo netuid coldkey hotkey mechid
          actualTaoLockAmount
        match identity with
        | none => .ok chain
        | some identity => if identity.isValid then .ok chain else .error .invalidIdentity

end Chain

end Subtensor
