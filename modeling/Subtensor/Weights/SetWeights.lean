import Subtensor.Emission.Coinbase
import Subtensor.Staking.Inherited

/-!
# Setting weights

The storage of the weights of a subnet, and `do_set_weights` with its checks
(`pallets/subtensor/src/subnets/weights.rs`, `epoch/math.rs`).
-/

namespace Subtensor

open Lib

/-! ## Storage -/

/-- An entry of `WeightCommits`: the hash, the block of the commit and the
blocks in which it may be revealed. -/
structure WeightCommit (H : Type) where
  commitHash : H
  commitBlock : U64
  firstRevealBlock : U64
  lastRevealBlock : U64

/-- An entry of `CRV3WeightCommits`: the hotkey, the serialized commit and the
round in which it is revealed. -/
structure Crv3Commit (A : Type) where
  who : A
  commit : List UInt8
  revealRound : U64
deriving DecidableEq

/-- The weights of a subnet, the commits for them, and the parameters that
the calls check. -/
structure SubnetWeights (A H : Type) where
  weights : U16 → List (U16 × U16)
  weightCommits : A → Option (List (WeightCommit H))
  crv3WeightCommits : StorageMap U64 (List (Crv3Commit A))
  commitRevealWeightsEnabled : Bool
  revealPeriodEpochs : U64
  weightsSetRateLimit : U64
  weightsVersionKey : U64
  minAllowedWeights : U16
  maxWeightsLimit : U16

/-- The storage of the pallet, with the weights. -/
structure Network (A B P H : Type) where
  chain : Chain A B P
  weights : NetUid → SubnetWeights A H

/-! ## Vectors -/

/-- `round`: to the nearest integer, halves away from zero. -/
def Lib.IFixed.round {i f : ℕ} (a : IFixed i f) : IFixed i f :=
  if 0 ≤ a.bits then .wrap ((a.bits + 2 ^ (f - 1)) / 2 ^ f * 2 ^ f)
  else .wrap (-((-a.bits + 2 ^ (f - 1)) / 2 ^ f * 2 ^ f))

/-- `iter().max()`. -/
def largest : List I32F32 → Option I32F32
  | [] => none
  | x :: xs => some (xs.foldl (fun m e => if m.bits ≤ e.bits then e else m) x)

/-- `iter().sum()`, which wraps. -/
def sumFixed (xs : List I32F32) : I32F32 := .wrap (xs.map (·.bits)).sum

def vecMaxUpscaleToU16 (vec : List I32F32) : List U16 :=
  let u16Max : I32F32 := .ofInt 65535
  let threshold : I32F32 := .ofInt 32768
  match largest vec with
  | some val =>
      if val.bits = 0 then vec.map fun e => (e.satMul u16Max).toWord 16
      else if threshold.bits < val.bits then
        vec.map fun e => (e.satMul (u16Max.safeDiv val)).round.toWord 16
      else vec.map fun e => ((e.satMul u16Max).safeDiv val).round.toWord 16
  | none => vec.map fun e => ((e.satMul u16Max).safeDiv (sumFixed vec)).toWord 16

def vecU16MaxUpscaleToU16 (vec : List U16) : List U16 :=
  vecMaxUpscaleToU16 (vec.map fun e => .ofInt e.val)

def normalize (xs : List I32F32) : List I32F32 :=
  if (sumFixed xs).bits = 0 then xs else xs.map fun value => value.safeDiv (sumFixed xs)

def checkVecMaxLimited (vec : List U16) (maxLimit : U16) : Bool :=
  let maxLimitFixed : I32F32 := (IFixed.ofInt maxLimit.val).safeDiv (.ofInt 65535)
  match largest (normalize (vec.map fun e => .ofInt e.val)) with
  | none => true
  | some value => value.bits ≤ maxLimitFixed.bits

/-! ## Checks -/

/-- `has_duplicate_uids`, with the items that were parsed. -/
def hasDuplicateUids : List U16 → List U16 → Bool
  | _, [] => false
  | parsed, item :: items => parsed.contains item || hasDuplicateUids (parsed ++ [item]) items

def isSelfWeight (uid : U16) (uids weights : List U16) : Bool :=
  weights.length = 1 && uids.head? = some uid

namespace Chain

variable {A B P : Type}

def isUidExistOnNetwork (chain : Chain A B P) (netuid : NetUid) (uid : U16) : Bool :=
  ((chain.neurons netuid).keys uid).isSome

def isHotkeyRegisteredOnNetwork (chain : Chain A B P) (netuid : NetUid) (hotkey : A) : Bool :=
  ((chain.neurons netuid).uids hotkey).isSome

def setLastUpdateForUid (chain : Chain A B P) (netuid : NetUid) (uid : U16) (block : U64) :
    Chain A B P :=
  let neurons := chain.neurons netuid
  let updated := { neurons with lastUpdate := neurons.lastUpdate.set uid.val block }
  { chain with neurons := Function.update chain.neurons netuid updated }

def containsInvalidUids (chain : Chain A B P) (netuid : NetUid) (uids : List U16) : Bool :=
  uids.any fun uid => !chain.isUidExistOnNetwork netuid uid

def checkLenUidsWithinAllowed (chain : Chain A B P) (netuid : NetUid) (uids : List U16) : Bool :=
  uids.length ≤ (chain.neurons netuid).subnetworkN.val

def checkValidatorPermit (chain : Chain A B P) (netuid : NetUid) (uid : U16)
    (uids weights : List U16) : Bool :=
  isSelfWeight uid uids weights ||
    ((chain.neurons netuid).validatorPermit[uid.val]?).getD false

variable [DecidableEq A]

/-- The first component of `get_stake_weights_for_hotkey_on_subnet`. -/
def totalStakeWeight (chain : Chain A B P) (hotkey : A) (netuid : NetUid) : I64F64 :=
  let taoWeight : I64F64 := .sat (chain.getTaoWeight.bits * 2 ^ 32)
  let alphaStake : I64F64 := .ofInt (chain.getInheritedForHotkeyOnSubnet hotkey netuid).val
  let taoStake : I64F64 := .ofInt (chain.getTaoInheritedForHotkeyOnSubnet hotkey netuid).val
  alphaStake.satAdd (taoStake.satMul taoWeight)

def checkWeightsMinStake (chain : Chain A B P) (hotkey : A) (netuid : NetUid) : Bool :=
  chain.params.stakeThreshold.val * 2 ^ 64 ≤ (chain.totalStakeWeight hotkey netuid).bits

end Chain

namespace Network

variable {A B P H : Type}

def checkVersionKey (net : Network A B P H) (netuid : NetUid) (versionKey : U64) : Bool :=
  (net.weights netuid).weightsVersionKey.val = 0 ||
    (net.weights netuid).weightsVersionKey.val ≤ versionKey.val

def checkRateLimit (net : Network A B P H) (netuid : NetUid) (uid : U16) (currentBlock : U64) :
    Bool :=
  if net.chain.isUidExistOnNetwork netuid uid then
    let lastSetWeights := ((net.chain.neurons netuid).lastUpdate[uid.val]?).getD 0
    if lastSetWeights.val = 0 then true
    else (net.weights netuid).weightsSetRateLimit.val ≤ (currentBlock.satSub lastSetWeights).val
  else false

def checkLength (net : Network A B P H) (netuid : NetUid) (uid : U16)
    (uids weights : List U16) : Bool :=
  let minAllowed := min (net.chain.neurons netuid).subnetworkN.val
    (net.weights netuid).minAllowedWeights.val
  (!netuid.isRoot && isSelfWeight uid uids weights) || minAllowed ≤ weights.length

def maxWeightLimited (net : Network A B P H) (netuid : NetUid) (uid : U16)
    (uids weights : List U16) : Bool :=
  isSelfWeight uid uids weights || (net.weights netuid).maxWeightsLimit.val = 65535 ||
    checkVecMaxLimited weights (net.weights netuid).maxWeightsLimit

/-- The network with other weights of a subnet. -/
def withWeights (net : Network A B P H) (netuid : NetUid) (weights : SubnetWeights A H) :
    Network A B P H :=
  { net with weights := Function.update net.weights netuid weights }

def withChain (net : Network A B P H) (chain : Chain A B P) : Network A B P H :=
  { net with chain := chain }

/-! ## The call -/

variable [DecidableEq A]

/-- What is stored once every check has passed. -/
def storeWeights (net : Network A B P H) (netuid : NetUid) (neuronUid : U16)
    (uids maxUpscaledWeights : List U16) : Network A B P H :=
  let weights := net.weights netuid
  let net := net.withWeights netuid
    { weights with
      weights := Function.update weights.weights neuronUid (uids.zip maxUpscaledWeights) }
  if weights.commitRevealWeightsEnabled then net
  else net.withChain (net.chain.setLastUpdateForUid netuid neuronUid net.chain.block)

def doSetWeights (net : Network A B P H) (hotkey : A) (netuid : NetUid) (uids values : List U16)
    (versionKey : U64) : Except Error (Network A B P H) :=
  if netuid.isRoot then .error .canNotSetRootNetworkWeights
  else if ¬uids.length = values.length then .error .weightVecNotEqualSize
  else if ¬net.chain.ifSubnetExist netuid then .error .subNetworkDoesNotExist
  else if ¬net.chain.checkLenUidsWithinAllowed netuid uids then
    .error .uidsLengthExceedUidsInSubNet
  else match (net.chain.neurons netuid).uids hotkey with
  | none => .error .hotKeyNotRegisteredInSubNet
  | some neuronUid =>
      let maxUpscaledWeights := vecU16MaxUpscaleToU16 values
      if ¬net.chain.checkWeightsMinStake hotkey netuid then .error .notEnoughStakeToSetWeights
      else if ¬net.checkVersionKey netuid versionKey then .error .incorrectWeightVersionKey
      else if ¬(net.weights netuid).commitRevealWeightsEnabled ∧
          ¬net.checkRateLimit netuid neuronUid net.chain.block then .error .settingWeightsTooFast
      else if ¬net.chain.checkValidatorPermit netuid neuronUid uids values then
        .error .neuronNoValidatorPermit
      else if hasDuplicateUids [] uids then .error .duplicateUids
      else if net.chain.containsInvalidUids netuid uids then .error .uidVecContainInvalidOne
      else if ¬net.checkLength netuid neuronUid uids values then .error .weightVecLengthIsLow
      else if ¬net.maxWeightLimited netuid neuronUid uids maxUpscaledWeights then
        .error .maxWeightExceeded
      else .ok (net.storeWeights netuid neuronUid uids maxUpscaledWeights)

end Network

/-! ## A small network -/

/-- The small chain with the hotkey `1` as the only neuron of the subnet `1`,
where commits are enabled and revealed in the next epoch. -/
def smallNetwork (H : Type) : Network ℕ (Balances ℕ) (SwapStorage ℕ) H where
  chain := { smallChain with
    neurons := fun netuid =>
      if netuid.val = 1 then
        { (Neurons.empty : Neurons ℕ) with
          subnetworkN := .sat 1
          keys := fun uid => if uid.val = 0 then some 1 else none
          uids := fun hotkey => if hotkey = 1 then some 0 else none
          lastUpdate := [0]
          validatorPermit := [true] }
      else Neurons.empty }
  weights := fun _ =>
    { weights := fun _ => []
      weightCommits := fun _ => none
      crv3WeightCommits := ∅
      commitRevealWeightsEnabled := true
      revealPeriodEpochs := .sat 1
      weightsSetRateLimit := .sat 100
      weightsVersionKey := 0
      minAllowedWeights := .sat 1
      maxWeightsLimit := .sat 65535 }

end Subtensor
