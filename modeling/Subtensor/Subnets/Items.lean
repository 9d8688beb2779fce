import Subtensor.Registration.Issuance
import Subtensor.Registration.UidRuns
import Subtensor.Subnets.Storage

/-!
# The items of a subnet

The values that all storage items have for one subnet, their defaults, and what
the removal and the registration of a subnet do to them.
-/

namespace Subtensor

open Lib Swap Children

/-! ## The items of one subnet -/

/-- The values that the storage items have for one subnet. -/
@[ext]
structure SubnetItems (A H : Type) where
  reserves : Reserves
  totalHotkeyAlpha : A → U64
  totalHotkeyShares : A → U64F64
  alpha : A → A → U64F64
  childkeyTake : A → U16
  pendingEmission : U64
  pendingAlphaSwapped : U64
  pendingOwnerCut : U64
  pendingRootDivs : U64
  networksAdded : Bool
  subnet : Subnet A
  childKeys : A → List (U64 × A)
  parentKeys : A → List (U64 × A)
  pendingChildKeys : A → Request A
  neurons : Neurons A
  isNetworkMember : A → Bool
  registrations : Registrations
  lastSetChildren : A → U64
  lastHotkeySwapOnNetuid : A → U64
  weights : U16 → List (U16 × U16)
  weightCommits : A → Option (List (WeightCommit H))
  crv3WeightCommits : U64 → List (Crv3Commit A)
  commitRevealWeightsEnabled : Bool
  revealPeriodEpochs : U64
  weightsSetRateLimit : U64
  weightsVersionKey : U64
  minAllowedWeights : U16
  maxWeightsLimit : U16
  swap : Pool A
  other : OtherItems A

/-- The parameters of a subnet that was never registered. -/
def Subnet.neverUsed {A : Type} (initial : InitialValues) : Subnet A where
  mechanism := 0
  subtokenEnabled := false
  transferToggle := true
  firstEmissionBlockNumber := none
  subnetMovingPrice := 0
  emaPriceHalvingBlocks := initial.initialEmaPriceHalvingPeriod
  networkRegistrationAllowed := false
  networkPowRegistrationAllowed := false
  tempo := initial.initialTempo
  subnetOwner := none
  subnetOwnerHotkey := none
  maxAllowedUids := initial.initialMaxAllowedUids
  immunityPeriod := initial.initialImmunityPeriod
  burn := initial.initialBurn
  minBurn := initial.initialMinBurn
  maxBurn := initial.initialMaxBurn
  difficulty := initial.initialDifficulty
  minDifficulty := initial.initialMinDifficulty
  maxDifficulty := initial.initialMaxDifficulty
  adjustmentAlpha := initial.initialAdjustmentAlpha
  adjustmentInterval := initial.initialAdjustmentInterval
  lastAdjustmentBlock := 0
  maxRegistrationsPerBlock := initial.initialMaxRegistrationsPerBlock
  targetRegistrationsPerInterval := initial.initialTargetRegistrationsPerInterval

def UnlistedItems.neverUsed {A : Type} (initial : InitialValues) : UnlistedItems A where
  largestLocked := 0
  alphaDividendsPerSubnet := fun _ => 0
  taoDividendsPerSubnet := fun _ => 0
  lastHotkeyEmissionOnNetuid := fun _ => 0
  totalHotkeyAlphaLastEpoch := fun _ => 0
  subnetAlphaInEmission := 0
  subnetAlphaOutEmission := 0
  subnetTaoInEmission := 0
  blocksSinceLastStep := 0
  lastMechansimStepBlock := 0
  servingRateLimit := initial.initialServingRateLimit
  rho := initial.initialRho
  alphaSigmoidSteepness := initial.initialAlphaSigmoidSteepness
  bondsMovingAverage := initial.initialBondsMovingAverage
  bondsPenalty := initial.initialBondsPenalty
  bondsResetOn := initial.initialBondsResetOn
  validatorPruneLen := initial.initialValidatorPruneLen
  scalingLawPower := initial.initialScalingLawPower
  liquidAlphaOn := false
  yuma3On := false
  alphaValues := (.sat 45875, .sat 58982)
  stakeWeight := []
  loadedEmission := none
  axons := fun _ => none
  neuronCertificates := fun _ => none
  prometheus := fun _ => none
  subnetIdentities := none
  subnetIdentitiesV2 := none
  transactionKeyLastBlock := fun _ _ => 0
  setSNOwnerHotkeyLastBlock := 0
  associatedEvmAddress := fun _ => none

def OtherItems.neverUsed {A : Type} (initial : InitialValues) : OtherItems A where
  networkModality := 0
  networkRegisteredAt := 0
  -- the letter tau
  tokenSymbol := [0xF0, 0x9D, 0x9C, 0x8F]
  maxAllowedValidators := initial.initialMaxAllowedValidators
  kappa := initial.initialKappa
  activityCutoff := initial.initialActivityCutoff
  subnetLocked := 0
  subnetIdentitiesV3 := none
  unlisted := UnlistedItems.neverUsed initial

def SubnetWeights.neverUsed {A H : Type} (initial : InitialValues) : SubnetWeights A H where
  weights := fun _ => []
  weightCommits := fun _ => none
  crv3WeightCommits := ∅
  commitRevealWeightsEnabled := false
  revealPeriodEpochs := .sat 1
  weightsSetRateLimit := .sat 100
  weightsVersionKey := initial.initialWeightsVersionKey
  minAllowedWeights := initial.initialMinAllowedWeights
  maxWeightsLimit := initial.initialMaxWeightsLimit

/-- `DefaultFeeRate` of the swap pallet. -/
def defaultFeeRate : U16 := .sat 196

def SubnetItems.neverUsed {A H : Type} (initial : InitialValues) : SubnetItems A H where
  reserves := ⟨0, 0, 0, 0, 0, 0⟩
  totalHotkeyAlpha := fun _ => 0
  totalHotkeyShares := fun _ => 0
  alpha := fun _ _ => 0
  childkeyTake := fun _ => 0
  pendingEmission := 0
  pendingAlphaSwapped := 0
  pendingOwnerCut := 0
  pendingRootDivs := 0
  networksAdded := false
  subnet := Subnet.neverUsed initial
  childKeys := fun _ => []
  parentKeys := fun _ => []
  pendingChildKeys := fun _ => ([], 0)
  neurons := Neurons.empty
  isNetworkMember := fun _ => false
  registrations := ⟨0, 0, 0, 0, initial.initialRAORecycledForRegistration⟩
  lastSetChildren := fun _ => 0
  lastHotkeySwapOnNetuid := fun _ => 0
  weights := fun _ => []
  weightCommits := fun _ => none
  crv3WeightCommits := fun _ => []
  commitRevealWeightsEnabled := false
  revealPeriodEpochs := .sat 1
  weightsSetRateLimit := .sat 100
  weightsVersionKey := initial.initialWeightsVersionKey
  minAllowedWeights := initial.initialMinAllowedWeights
  maxWeightsLimit := initial.initialMaxWeightsLimit
  swap := Pool.fresh defaultFeeRate false 0
  other := OtherItems.neverUsed initial

namespace Storage

variable {A B H : Type} [DecidableEq A]

/-- The values of the items of a subnet, where `weights` and `other` are those
of the subnet. The counter of position ids is not that of a subnet. -/
def readItems (chain : Chain A B (SwapStorage A)) (weights : SubnetWeights A H)
    (other : OtherItems A) (netuid : NetUid) : SubnetItems A H :=
  { reserves := chain.reserves netuid
    totalHotkeyAlpha := fun hotkey =>
      (chain.stakes.totalHotkeyAlpha.lookup (hotkey, netuid)).getD 0
    totalHotkeyShares := fun hotkey => chain.stakes.totalHotkeyShares (hotkey, netuid)
    alpha := fun hotkey coldkey =>
      (chain.stakes.alpha.lookup (hotkey, coldkey, netuid)).getD 0
    childkeyTake := fun hotkey => chain.accounts.childkeyTake hotkey netuid
    pendingEmission := chain.pending.pendingEmission netuid
    pendingAlphaSwapped := chain.pending.pendingAlphaSwapped netuid
    pendingOwnerCut := chain.pending.pendingOwnerCut netuid
    pendingRootDivs := (chain.pending.pendingRootDivs.lookup netuid).getD 0
    networksAdded := chain.ifSubnetExist netuid
    subnet := chain.subnets netuid
    childKeys := (chain.graph netuid).childKeys
    parentKeys := (chain.graph netuid).parentKeys
    pendingChildKeys := fun hotkey =>
      ((chain.graph netuid).pendingChildKeys.lookup hotkey).getD ([], 0)
    neurons := chain.neurons netuid
    isNetworkMember := fun hotkey => (chain.isNetworkMember.lookup (hotkey, netuid)).getD false
    registrations := chain.registrations netuid
    lastSetChildren := fun hotkey => chain.lastBlocks.setChildren hotkey netuid
    lastHotkeySwapOnNetuid := chain.lastBlocks.lastHotkeySwapOnNetuid netuid
    weights := weights.weights
    weightCommits := weights.weightCommits
    crv3WeightCommits := fun epoch => (weights.crv3WeightCommits.lookup epoch).getD []
    commitRevealWeightsEnabled := weights.commitRevealWeightsEnabled
    revealPeriodEpochs := weights.revealPeriodEpochs
    weightsSetRateLimit := weights.weightsSetRateLimit
    weightsVersionKey := weights.weightsVersionKey
    minAllowedWeights := weights.minAllowedWeights
    maxWeightsLimit := weights.maxWeightsLimit
    swap := { chain.swap.pools netuid with lastPositionId := 0 }
    other := other }

/-- What the storage has for a subnet. -/
def items (s : Storage A B H) (netuid : NetUid) : SubnetItems A H :=
  readItems s.net.chain (s.net.weights netuid) (s.other netuid) netuid

end Storage

/-! ## What removal and registration do to the items -/

/-- The hotkeys with a slot, in the order of the slots. -/
@[irreducible] def Neurons.slotHolders {A : Type} (neurons : Neurons A) : List A :=
  neurons.storedKeys.map (·.2)

namespace SubnetItems

variable {A H : Type} [DecidableEq A]

/-- The items after `remove_network`. -/
def removed (initial : InitialValues) (items : SubnetItems A H) : SubnetItems A H :=
  { items with
    networksAdded := false
    subnet :=
      { items.subnet with
        tempo := initial.initialTempo
        difficulty := initial.initialDifficulty
        maxAllowedUids := initial.initialMaxAllowedUids
        immunityPeriod := initial.initialImmunityPeriod
        subnetOwner := none }
    neurons := items.neurons.cleared
    isNetworkMember := fun hotkey =>
      if hotkey ∈ items.neurons.slotHolders then false else items.isNetworkMember hotkey
    registrations :=
      { items.registrations with thisInterval := 0, powThisInterval := 0, burnThisInterval := 0 }
    weights := fun _ => []
    minAllowedWeights := initial.initialMinAllowedWeights
    maxWeightsLimit := initial.initialMaxWeightsLimit
    other :=
      { items.other with
        networkModality := 0
        networkRegisteredAt := 0
        kappa := initial.initialKappa
        activityCutoff := initial.initialActivityCutoff
        subnetLocked := 0
        subnetIdentitiesV3 := none } }

/-- The items after `do_register_network` at a block. -/
def registered (initial : InitialValues) (block poolInitialTao : U64) (symbol : List UInt8)
    (call : Storage.Registration A) (items : SubnetItems A H) : SubnetItems A H :=
  { items with
    reserves :=
      { items.reserves with subnetTAO := poolInitialTao, subnetAlphaIn := poolInitialTao }
    networksAdded := true
    subnet :=
      { items.subnet with
        mechanism := call.mechid
        tempo := initial.initialTempo
        networkRegistrationAllowed := true
        subnetOwner := some call.coldkey
        subnetOwnerHotkey := some call.hotkey
        maxAllowedUids := .sat 256
        adjustmentInterval := .sat 360
        targetRegistrationsPerInterval := .sat 1
        adjustmentAlpha := .sat 17893341751498265066
        immunityPeriod := .sat 5000
        minDifficulty := .maxVal
        maxDifficulty := .maxVal }
    neurons :=
      ({ items.neurons with subnetworkN := 0 } : Neurons A).appendNeuron call.hotkey block
    isNetworkMember := Function.update items.isNetworkMember call.hotkey true
    minAllowedWeights := .sat 1
    maxWeightsLimit := .maxVal
    other :=
      { items.other with
        networkModality := 0
        maxAllowedValidators := .sat 64
        networkRegisteredAt := block
        tokenSymbol := symbol
        subnetIdentitiesV3 :=
          match call.identity with
          | none => items.other.subnetIdentitiesV3
          | some identity => some identity } }

end SubnetItems

namespace Storage

variable {A B H : Type} [DecidableEq A] {rt : Runtime A B (SwapStorage A)}
  {initial : InitialValues} {symbolForSubnet : NetUid → List UInt8} {netuid : NetUid}
  {call : Registration A} {s s' : Storage A B H}

theorem createAccountIfNonExistent_frame (chain : Chain A B (SwapStorage A))
    (coldkey hotkey : A) :
    ∃ accounts, accounts.childkeyTake = chain.accounts.childkeyTake ∧
      chain.createAccountIfNonExistent coldkey hotkey = chain.withAccounts accounts := by
  unfold Chain.createAccountIfNonExistent
  split
  · exact ⟨chain.accounts, rfl, rfl⟩
  · refine ⟨_, ?_, rfl⟩
    rfl

end Storage

end Subtensor
