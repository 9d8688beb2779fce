import Subtensor.Pallet.Instances
import Subtensor.Registration.Root
import Subtensor.Weights.SetWeights

/-!
# The storage of a subnet

Every storage item that is keyed by a subnet, in the subtensor pallet
(`pallets/subtensor/src/lib.rs`) and in the swap pallet, with the two functions
that start and end the life of a subnet: `do_register_network`
(`subnets/subnet.rs`) and `remove_network` (`coinbase/root.rs`). Items that the
calls of the other modules read are in `Network`; the rest is added here.
-/

namespace Subtensor

open Lib Swap Children

/-! ## Values -/

structure AxonInfo where
  block : U64
  version : U32
  ip : U128
  port : U16
  ipType : UInt8
  protocol : UInt8
  placeholder1 : UInt8
  placeholder2 : UInt8

structure PrometheusInfo where
  block : U64
  version : U32
  ip : U128
  port : U16
  ipType : UInt8

structure NeuronCertificate where
  publicKey : List UInt8
  algorithm : UInt8

/-- `SubnetIdentity`, of the item that `SubnetIdentitiesV2` replaced. -/
structure SubnetIdentityV1 where
  subnetName : List UInt8
  githubRepo : List UInt8
  subnetContact : List UInt8

/-- `SubnetIdentityV2`, of the item that `SubnetIdentitiesV3` replaced. -/
structure SubnetIdentityV2 where
  subnetName : List UInt8
  githubRepo : List UInt8
  subnetContact : List UInt8
  subnetUrl : List UInt8
  discord : List UInt8
  description : List UInt8
  additional : List UInt8

/-- The constants of the runtime that are defaults of storage items. -/
structure InitialValues where
  initialTempo : U16
  initialRho : U16
  initialAlphaSigmoidSteepness : SWord 15
  initialKappa : U16
  initialMaxAllowedUids : U16
  initialImmunityPeriod : U16
  initialActivityCutoff : U16
  initialMaxWeightsLimit : U16
  initialWeightsVersionKey : U64
  initialMinAllowedWeights : U16
  initialMaxAllowedValidators : U16
  initialAdjustmentInterval : U16
  initialAdjustmentAlpha : U64
  initialBondsMovingAverage : U64
  initialBondsPenalty : U16
  initialBondsResetOn : Bool
  initialValidatorPruneLen : U64
  initialScalingLawPower : U16
  initialTargetRegistrationsPerInterval : U16
  initialMaxRegistrationsPerBlock : U16
  initialRAORecycledForRegistration : U64
  initialServingRateLimit : U64
  initialBurn : U64
  initialMinBurn : U64
  initialMaxBurn : U64
  initialDifficulty : U64
  initialMinDifficulty : U64
  initialMaxDifficulty : U64
  initialEmaPriceHalvingPeriod : U64

/-- Items that the registration and the removal of a subnet do not mention.
`transactionKeyLastBlock` is without the kind `SetChildren`, which
`LastBlocks` has. -/
structure UnlistedItems (A : Type) where
  largestLocked : U64
  alphaDividendsPerSubnet : A → U64
  taoDividendsPerSubnet : A → U64
  lastHotkeyEmissionOnNetuid : A → U64
  totalHotkeyAlphaLastEpoch : A → U64
  subnetAlphaInEmission : U64
  subnetAlphaOutEmission : U64
  subnetTaoInEmission : U64
  blocksSinceLastStep : U64
  lastMechansimStepBlock : U64
  servingRateLimit : U64
  rho : U16
  alphaSigmoidSteepness : SWord 15
  bondsMovingAverage : U64
  bondsPenalty : U16
  bondsResetOn : Bool
  validatorPruneLen : U64
  scalingLawPower : U16
  liquidAlphaOn : Bool
  yuma3On : Bool
  alphaValues : U16 × U16
  stakeWeight : List U16
  loadedEmission : Option (List (A × U64 × U64))
  axons : A → Option AxonInfo
  neuronCertificates : A → Option NeuronCertificate
  prometheus : A → Option PrometheusInfo
  subnetIdentities : Option SubnetIdentityV1
  subnetIdentitiesV2 : Option SubnetIdentityV2
  transactionKeyLastBlock : A → U16 → U64
  setSNOwnerHotkeyLastBlock : U64
  associatedEvmAddress : U16 → Option (BitVec 160 × U64)

/-- The items of a subnet that `Network` does not have. -/
structure OtherItems (A : Type) where
  networkModality : U16
  networkRegisteredAt : U64
  tokenSymbol : List UInt8
  maxAllowedValidators : U16
  kappa : U16
  activityCutoff : U16
  subnetLocked : U64
  subnetIdentitiesV3 : Option SubnetIdentity
  unlisted : UnlistedItems A

/-- The storage of both pallets. -/
structure Storage (A B H : Type) where
  net : Network A B (SwapStorage A) H
  other : NetUid → OtherItems A

namespace Storage

variable {A B H : Type} [DecidableEq A]

/-! ## Removal -/

/-- The loop over the entries of a row of root. -/
def zeroRootWeight (netuid : NetUid) (row : List (U16 × U16)) : List (U16 × U16) :=
  row.map fun entry => if entry.1 = netuid then (entry.1, 0) else entry

omit [DecidableEq A] in
/-- What `remove_network` does to weights. -/
def removeWeights (initial : InitialValues) (weights : NetUid → SubnetWeights A H)
    (netuid : NetUid) : NetUid → SubnetWeights A H :=
  let removed := Function.update weights netuid
    { weights netuid with
      weights := fun _ => []
      maxWeightsLimit := initial.initialMaxWeightsLimit
      minAllowedWeights := initial.initialMinAllowedWeights }
  Function.update removed .ROOT
    { removed .ROOT with weights := fun uid => zeroRootWeight netuid ((removed .ROOT).weights uid) }

def removeNetwork (rt : Runtime A B (SwapStorage A)) (initial : InitialValues)
    (s : Storage A B H) (netuid : NetUid) : Storage A B H where
  net :=
    { chain := s.net.chain.removeNetwork rt
        { tempo := initial.initialTempo
          difficulty := initial.initialDifficulty
          maxAllowedUids := initial.initialMaxAllowedUids
          immunityPeriod := initial.initialImmunityPeriod
          lockedBalance := (s.other netuid).subnetLocked } netuid
      weights := removeWeights initial s.net.weights netuid }
  other := Function.update s.other netuid
    { s.other netuid with
      networkModality := 0
      networkRegisteredAt := 0
      kappa := initial.initialKappa
      activityCutoff := initial.initialActivityCutoff
      subnetLocked := 0
      subnetIdentitiesV3 := none }

/-- What a caller of `do_register_network` provides. -/
structure Registration (A : Type) where
  coldkey : A
  hotkey : A
  mechid : U16
  identity : Option SubnetIdentity

/-- `do_register_network`. `symbolForSubnet` is `get_symbol_for_subnet`. The
parameters that are made explicit keep the value that they are read with. -/
def doRegisterNetwork (rt : Runtime A B (SwapStorage A)) (initial : InitialValues)
    (symbolForSubnet : NetUid → List UInt8) (s : Storage A B H) (call : Registration A) :
    Option (Except Error (Storage A B H)) :=
  (s.net.chain.doRegisterNetwork rt initial.initialTempo call.coldkey call.hotkey call.mechid
    call.identity).bind fun
  | .error e => some (.error e)
  | .ok chain => s.net.chain.getNextNetuid.map fun netuid => .ok
      { net :=
          { chain := chain
            weights := Function.update s.net.weights netuid
              { s.net.weights netuid with
                minAllowedWeights := .sat 1
                maxWeightsLimit := .maxVal } }
        other := Function.update s.other netuid
          { s.other netuid with
            networkModality := 0
            maxAllowedValidators := .sat 64
            networkRegisteredAt := s.net.chain.block
            tokenSymbol := symbolForSubnet netuid
            subnetIdentitiesV3 :=
              match call.identity with
              | none => (s.other netuid).subnetIdentitiesV3
              | some identity => some identity } }

end Storage

end Subtensor
