import Subtensor.Consensus.Dense
import Subtensor.Consensus.Sparse
import Subtensor.Emission.Epoch
import Subtensor.Registration.Root

/-!
# Epochs

`epoch` and `epoch_dense` (`epoch/run_epoch.rs`). Both read the stake and the
permits in the same way, and make emissions and stored vectors of their scores
in the same way; in between, one computes with sparse matrices and the other
with dense ones. An assertion that fails or an index out of range ends an epoch
without a result.
-/

namespace Subtensor

open Lib

/-- The parameters of the consensus on a subnet. -/
structure EpochParams where
  activityCutoff : U16
  maxAllowedValidators : U16
  kappa : U16
  bondsPenalty : U16
  bondsMovingAverage : U64
  yuma3On : Bool
  liquidAlphaOn : Bool
  alphaValues : U16 × U16
  alphaSigmoidSteepness : SWord 15

def u16ProportionToFixed (x : U16) : I32F32 := (IFixed.ofInt x.val).safeDiv (.ofInt 65535)

namespace EpochParams

def floatKappa (params : EpochParams) : I32F32 := u16ProportionToFixed params.kappa

def floatBondsPenalty (params : EpochParams) : I32F32 := u16ProportionToFixed params.bondsPenalty

/-- `get_alpha_values_32`. -/
def alphaLow (params : EpochParams) : I32F32 := u16ProportionToFixed params.alphaValues.1

def alphaHigh (params : EpochParams) : I32F32 := u16ProportionToFixed params.alphaValues.2

/-- The coefficient of `compute_ema_bonds_normal` and its sparse form. -/
def normalAlpha (params : EpochParams) : I32F32 :=
  let bondsMovingAverage := (IFixed.ofInt params.bondsMovingAverage.val : I64F64).safeDiv
    (.ofInt 1000000)
  (IFixed.ofInt 1).satSub (fixed64ToFixed32 bondsMovingAverage)

/-- `compute_disabled_liquid_alpha`. The conversions wrap. -/
def disabledLiquidAlpha (params : EpochParams) : I32F32 :=
  let average : I64F64 := .wrap (params.bondsMovingAverage.val * 2 ^ 64)
  let bondsMovingAverage : I64F64 := .sat ((average.bits * 2 ^ 64).tdiv (1000000 * 2 ^ 64))
  (IFixed.ofInt 1).satSub (.wrap (bondsMovingAverage.bits / 2 ^ 32))

end EpochParams

/-! ## Stake and permits -/

/-- What an epoch reads before it looks at weights. -/
structure EpochStake where
  lastUpdate : List U64
  active : List Bool
  blockAtRegistration : List U64
  stake : List I32F32
  validatorPermits : List Bool
  newValidatorPermits : List Bool
  activeStake : List I32F32

/-- The rows that have no permit. -/
def EpochStake.validatorForbids (stakes : EpochStake) : List Bool :=
  stakes.validatorPermits.map fun b => !b

namespace Chain

variable {A B P : Type} [DecidableEq A]

def getBlockAtRegistration (chain : Chain A B P) (netuid : NetUid) : List U64 :=
  let neurons := chain.neurons netuid
  (List.range neurons.subnetworkN.val).map fun i =>
    if (neurons.keys (.wrap i)).isSome then neurons.blockAtRegistration (.wrap i) else 0

/-- The first component of `get_stake_weights_for_network`. -/
def getStakeWeightsForNetwork (chain : Chain A B P) (netuid : NetUid) : List I64F64 :=
  let neurons := chain.neurons netuid
  (List.range neurons.subnetworkN.val).map fun i =>
    match neurons.keys (.wrap i) with
    | none => 0
    | some hotkey => chain.totalStakeWeight hotkey netuid

def getOwnerUid (chain : Chain A B P) (netuid : NetUid) : Option U16 :=
  (chain.subnets netuid).subnetOwnerHotkey.bind (chain.neurons netuid).uids

/-- The stake that meets the threshold, normalized. -/
def epochStakeVector (chain : Chain A B P) (netuid : NetUid) : List I32F32 :=
  (normalize64 ((chain.getStakeWeightsForNetwork netuid).map fun s =>
    if (s.toWord 64).val < chain.params.stakeThreshold.val then 0 else s)).map fixed64ToFixed32

def epochStake (params : EpochParams) (chain : Chain A B P) (netuid : NetUid) :
    Option EpochStake := do
  let neurons := chain.neurons netuid
  let inactive := neurons.lastUpdate.map fun updated : U64 =>
    decide ((updated.satAdd (.sat params.activityCutoff.val)).val < chain.block.val)
  let stake := chain.epochStakeVector netuid
  let masked ← maskVector inactive stake
  let masked ← maskVector (neurons.validatorPermit.map fun b => !b) masked
  return {
    lastUpdate := neurons.lastUpdate
    active := inactive.map fun b => !b
    blockAtRegistration := chain.getBlockAtRegistration netuid
    stake := stake
    validatorPermits := neurons.validatorPermit
    newValidatorPermits := isTopkNonzero stake params.maxAllowedValidators.val
    activeStake := normalize masked }

/-- The last block before which registrations are not recent. -/
def lastTempo (chain : Chain A B P) (netuid : NetUid) : U64 :=
  chain.block.satSub (.sat (chain.subnets netuid).tempo.val)

/-! ## Bonds in storage -/

def getBondsSparse (chain : Chain A B P) (netuid : NetUid) : SparseMatrix I32F32 :=
  let neurons := chain.neurons netuid
  (List.range neurons.subnetworkN.val).map fun i =>
    (neurons.bonds (.wrap i)).map fun e => (e.1.val, u16ToFixed e.2)

def getBonds (chain : Chain A B P) (netuid : NetUid) : DenseMatrix :=
  let neurons := chain.neurons netuid
  let n := neurons.subnetworkN.val
  (List.range n).map fun i =>
    ((neurons.bonds (.wrap i)).filter fun e => e.1.val < n).foldl
      (fun row e => row.set e.1.val (u16ToFixed e.2)) (List.replicate n 0)

end Chain

namespace Network

variable {A B P H : Type}

/-! ## Weights in storage -/

def getWeightsSparse (net : Network A B P H) (netuid : NetUid) : SparseMatrix I32F32 :=
  let n := (net.chain.neurons netuid).subnetworkN.val
  (List.range n).map fun i =>
    (((net.weights netuid).weights (.wrap i)).filter fun e => e.1.val < n).map fun e =>
      (e.1.val, u16ToFixed e.2)

def getWeights (net : Network A B P H) (netuid : NetUid) : DenseMatrix :=
  let n := (net.chain.neurons netuid).subnetworkN.val
  (List.range n).map fun i =>
    (((net.weights netuid).weights (.wrap i)).filter fun e => e.1.val < n).foldl
      (fun row e => row.set e.1.val (u16ToFixed e.2)) (List.replicate n 0)

end Network

/-! ## Liquid alpha -/

/-- `alpha_sigmoid`, by the exponential of the fixed-point library. The division
fails if the denominator is zero. -/
def alphaSigmoid (exp : I32F32 → Option I32F32) (params : EpochParams)
    (consensus weight bond : I32F32) : Option I32F32 := do
  let zero : I32F32 := 0
  let one : I32F32 := .ofInt 1
  let diffBuy := clampValue (weight.satSub consensus) zero one
  let diffSell := clampValue (bond.satSub weight) zero one
  let combinedDiff := if bond.bits ≤ weight.bits then diffBuy else diffSell
  let slope ← (IFixed.ofInt params.alphaSigmoidSteepness.val : I32F32).satDiv (.ofInt (-100))
  let exponential := (exp (slope.satMul (combinedDiff.satSub (.sat (2 ^ 31))))).getD 0
  let sigmoid ← one.satDiv (one.satAdd exponential)
  let alpha := params.alphaLow.satAdd (sigmoid.satMul (params.alphaHigh.satSub params.alphaLow))
  return clampValue alpha params.alphaLow params.alphaHigh

/-- The values that a scan of a row by increasing column meets; columns that come
too late in the row are missed. -/
def scanRow : ℕ → ℕ → SparseRow I32F32 → List I32F32
  | 0, _, _ => []
  | count + 1, j, row =>
      let rest := row.dropWhile fun e => decide (e.1 < j)
      (match rest with
        | [] => 0
        | e :: _ => if e.1 = j then e.2 else 0) :: scanRow count (j + 1) rest

def alphaRow (exp : I32F32 → Option I32F32) (params : EpochParams) (weights bonds : List I32F32)
    (consensus : List I32F32) : Option (List I32F32) :=
  ((weights.zip bonds).zip consensus).mapM fun e => alphaSigmoid exp params e.2 e.1.1 e.1.2

def computeLiquidAlphaValuesSparse (exp : I32F32 → Option I32F32) (params : EpochParams)
    (weights bonds : SparseMatrix I32F32) (consensus : List I32F32) :
    Option (List (List I32F32)) :=
  if weights.length = bonds.length then
    (weights.zip bonds).mapM fun rows =>
      alphaRow exp params (scanRow consensus.length 0 rows.1) (scanRow consensus.length 0 rows.2)
        consensus
  else none

def computeLiquidAlphaValues (exp : I32F32 → Option I32F32) (params : EpochParams)
    (weights bonds : DenseMatrix) (consensus : List I32F32) : Option DenseMatrix :=
  if weights.length = bonds.length then
    (weights.zip bonds).mapM fun rows => alphaRow exp params rows.1 rows.2 consensus
  else none

/-- Liquid alpha is on, and there is some consensus. -/
def EpochParams.usesLiquidAlpha (params : EpochParams) (consensus : List I32F32) : Bool :=
  params.liquidAlphaOn && !consensus.isEmpty && consensus.any fun c => decide (c.bits ≠ 0)

def computeBondsSparse (exp : I32F32 → Option I32F32) (params : EpochParams)
    (weights bonds : SparseMatrix I32F32) (consensus : List I32F32) :
    Option (SparseMatrix I32F32) :=
  if params.usesLiquidAlpha consensus then do
    let alphas ← computeLiquidAlphaValuesSparse exp params weights bonds consensus
    matEmaAlphaSparse weights bonds alphas
  else matEmaSparse weights bonds params.disabledLiquidAlpha

def computeBonds (exp : I32F32 → Option I32F32) (params : EpochParams)
    (weights bonds : DenseMatrix) (consensus : List I32F32) : Option DenseMatrix :=
  if params.usesLiquidAlpha consensus then do
    let alphas ← computeLiquidAlphaValues exp params weights bonds consensus
    matEmaAlpha weights bonds alphas
  else some (matEma weights bonds params.disabledLiquidAlpha)

/-! ## Scores -/

/-- What consensus says about the neurons; the ranks are normalized, and are the
incentive. -/
structure ConsensusScores where
  consensus : List I32F32
  validatorTrust : List I32F32
  trust : List I32F32
  ranks : List I32F32

/-- What the bonds are made of, and what they pay. -/
structure BondScores (M : Type) where
  dividends : List I32F32
  emaBonds : M

/-! ### Sparse -/

/-- The weights that count, normalized. -/
def maskWeightsSparse (stakes : EpochStake) (ownerUid : Option U16)
    (weights : SparseMatrix I32F32) : Option (SparseMatrix I32F32) := do
  let permitted ← maskRowsSparse stakes.validatorForbids weights
  let offDiagonal := match ownerUid with
    | some ownerUid => maskDiagSparseExceptIndex permitted ownerUid.val
    | none => maskDiagSparse permitted
  let current ← vecMaskSparseMatrix offDiagonal stakes.lastUpdate stakes.blockAtRegistration
    fun updated registered => decide (updated.val ≤ registered.val)
  return rowNormalizeSparse current

/-- The scores, and the weights for the bonds. -/
def consensusSparse (params : EpochParams) (stakes : EpochStake) (n : ℕ)
    (weights : SparseMatrix I32F32) : Option (ConsensusScores × SparseMatrix I32F32) := do
  let preranks ← matmulSparse weights stakes.activeStake n
  let consensus ← weightedMedianColSparse stakes.activeStake weights n params.floatKappa
  let clippedWeights ← colClipSparse weights consensus
  let ranks ← matmulSparse clippedWeights stakes.activeStake n
  let trust ← vecdiv ranks preranks
  let weightsForBonds ← interpolateSparse weights clippedWeights n params.floatBondsPenalty
  return (⟨consensus, rowSumSparse clippedWeights, trust, normalize ranks⟩, weightsForBonds)

def bondsSparse (exp : I32F32 → Option I32F32) (params : EpochParams) (stakes : EpochStake)
    (n : ℕ) (lastTempo : U64) (scores : ConsensusScores)
    (weightsForBonds bonds : SparseMatrix I32F32) : Option (BondScores (SparseMatrix I32F32)) := do
  let recent : U64 → U64 → Bool := fun lastTempo registered =>
    decide (lastTempo.val ≤ registered.val)
  if params.yuma3On then
    let bonds := SparseMatrix.mapEntries (fun _ _ bond => some (fixedToFixedU16Proportion bond))
      bonds
    let bonds ← scalarVecMaskSparseMatrix bonds lastTempo stakes.blockAtRegistration recent
    let emaBonds ← computeBondsSparse exp params weightsForBonds bonds scores.consensus
    let emaBondsNorm ← colNormalizeSparse emaBonds n
    let totalBondsPerValidator := rowSumSparse (matVecMulSparse emaBondsNorm scores.ranks)
    return ⟨normalize (vecMul totalBondsPerValidator stakes.activeStake), emaBonds⟩
  else
    let bonds ← scalarVecMaskSparseMatrix bonds lastTempo stakes.blockAtRegistration recent
    let bonds ← colNormalizeSparse bonds n
    let bondsDelta ← colNormalizeSparse (rowHadamardSparse weightsForBonds stakes.activeStake) n
    let emaBonds ← matEmaSparse bondsDelta bonds params.normalAlpha
    let emaBonds ← colNormalizeSparse emaBonds n
    let dividends ← matmulTransposeSparse emaBonds scores.ranks
    let upscaled ← colMaxUpscaleSparse emaBonds n
    return ⟨normalize dividends, upscaled⟩

/-! ### Dense -/

/-- The weights that count, normalized. The diagonal is masked a second time,
without the exception for the owner. -/
def maskWeights (stakes : EpochStake) (ownerUid : Option U16) (weights : DenseMatrix) :
    Option DenseMatrix := do
  let outdated := stakes.lastUpdate.map fun updated => stakes.blockAtRegistration.map
    fun registered => decide (updated.val ≤ registered.val)
  let permitted ← maskRows stakes.validatorForbids weights
  let offDiagonal ← match ownerUid with
    | some ownerUid => maskDiagExceptIndex permitted ownerUid.val
    | none => maskDiag permitted
  let offDiagonal ← maskDiag offDiagonal
  let current ← maskMatrix outdated offDiagonal
  return rowNormalize current

def consensusDense (params : EpochParams) (stakes : EpochStake) (weights : DenseMatrix) :
    Option (ConsensusScores × DenseMatrix) := do
  let preranks ← matmul weights stakes.activeStake
  let consensus ← weightedMedianCol stakes.activeStake weights params.floatKappa
  let clippedWeights := colClip weights consensus
  let ranks ← matmul clippedWeights stakes.activeStake
  let trust ← vecdiv ranks preranks
  let weightsForBonds ← interpolate weights clippedWeights params.floatBondsPenalty
  return (⟨consensus, rowSum clippedWeights, trust, normalize ranks⟩, weightsForBonds)

def bondsDense (exp : I32F32 → Option I32F32) (params : EpochParams) (stakes : EpochStake)
    (lastTempo : U64) (scores : ConsensusScores) (weightsForBonds bonds : DenseMatrix) :
    Option (BondScores DenseMatrix) := do
  let recentlyRegistered := stakes.blockAtRegistration.map fun registered =>
    decide (lastTempo.val ≤ registered.val)
  if params.yuma3On then
    let bonds := bonds.map fun row => row.map fixedToFixedU16Proportion
    let bonds ← maskCols recentlyRegistered bonds
    let emaBonds ← computeBonds exp params weightsForBonds bonds scores.consensus
    let emaBondsNorm := colNormalize emaBonds
    let totalBondsPerValidator := rowSum (matVecMul emaBondsNorm scores.ranks)
    return ⟨normalize (vecMul totalBondsPerValidator stakes.activeStake), emaBonds⟩
  else
    let bonds ← maskCols recentlyRegistered bonds
    let bonds := colNormalize bonds
    let bondsDelta := colNormalize (rowHadamard weightsForBonds stakes.activeStake)
    let emaBonds := colNormalize (matEma bondsDelta bonds params.normalAlpha)
    let dividends ← matmulTranspose emaBonds scores.ranks
    return ⟨normalize dividends, colMaxUpscale emaBonds⟩

/-! ## Emissions and storage -/

/-- The normalized emissions: server, validator and combined. -/
structure NormalizedEmission where
  server : List I32F32
  validator : List I32F32
  combined : List I32F32

/-- If nothing is emitted, the emission follows the stake. -/
def normalizedEmission (stakes : EpochStake) (incentive dividends : List I32F32) :
    NormalizedEmission :=
  let combined := List.zipWith IFixed.satAdd incentive dividends
  let emissionSum := sumFixed combined
  if emissionSum.bits = 0 then
    let byStake :=
      if (sumFixed stakes.activeStake).bits = 0 then stakes.stake else stakes.activeStake
    ⟨incentive, byStake, byStake⟩
  else
    ⟨EpochScores.normalizeUsingSum incentive emissionSum,
      EpochScores.normalizeUsingSum dividends emissionSum, normalize combined⟩

namespace Neurons

variable {A : Type}

/-- The rows of the validators that have a permit, and empty ones for those that
lost it. -/
def storeBonds (neurons : Neurons A) (stakes : EpochStake) (rows : List (List (U16 × U16))) :
    U16 → List (U16 × U16) := fun uid =>
  match ((stakes.newValidatorPermits.zip stakes.validatorPermits).zip rows)[uid.val]? with
  | none => neurons.bonds uid
  | some ((newPermit, permit), row) =>
      if newPermit then row else if permit then [] else neurons.bonds uid

/-- What an epoch stores. -/
def storeScores (neurons : Neurons A) (stakes : EpochStake) (scores : ConsensusScores)
    (dividends : List I32F32) (emission : NormalizedEmission) (raoEmission : U64)
    (rows : List (List (U16 × U16))) : Neurons A :=
  { neurons with
    active := stakes.active
    emission := emission.combined.map (EpochScores.raoEmission raoEmission)
    rank := scores.ranks.map fixedProportionToU16
    trust := scores.trust.map fixedProportionToU16
    consensus := scores.consensus.map fixedProportionToU16
    incentive := scores.ranks.map fixedProportionToU16
    dividends := dividends.map fixedProportionToU16
    pruningScores := vecMaxUpscaleToU16 emission.combined
    validatorTrust := scores.validatorTrust.map fixedProportionToU16
    validatorPermit := stakes.newValidatorPermits
    bonds := neurons.storeBonds stakes rows }

/-- What is paid to the hotkeys, by the position of their uids. -/
def emissionTuples (neurons : Neurons A) (emission : NormalizedEmission) (raoEmission : U64) :
    Option (List (A × U64 × U64)) :=
  let server := emission.server.map (EpochScores.raoEmission raoEmission)
  let validator := emission.validator.map (EpochScores.raoEmission raoEmission)
  neurons.storedKeys.mapM fun entry => do
    let s ← server[entry.1.val]?
    let v ← validator[entry.1.val]?
    return (entry.2, s, v)

/-- The last part of an epoch. -/
def finishEpoch (neurons : Neurons A) (stakes : EpochStake) (scores : ConsensusScores)
    (dividends : List I32F32) (raoEmission : U64) (rows : List (List (U16 × U16))) :
    Option (List (A × U64 × U64) × Neurons A) :=
  let emission := normalizedEmission stakes scores.ranks dividends
  (neurons.emissionTuples emission raoEmission).map fun tuples =>
    (tuples, neurons.storeScores stakes scores dividends emission raoEmission rows)

end Neurons

/-- A row of bonds as it is stored by `epoch`. -/
def bondsRowSparse (row : SparseRow I32F32) : List (U16 × U16) :=
  row.map fun e => (.wrap e.1, fixedProportionToU16 e.2)

/-- A row of bonds as it is stored by `epoch_dense`. -/
def bondsRow (n : ℕ) (row : List I32F32) : List (U16 × U16) :=
  ((List.range n).map fun j => (.wrap j : U16)).zip (row.map fixedProportionToU16)

namespace Network

variable {A B P H : Type} [DecidableEq A]

def epoch (exp : I32F32 → Option I32F32) (params : EpochParams) (net : Network A B P H)
    (netuid : NetUid) (raoEmission : U64) : Option (List (A × U64 × U64) × Neurons A) := do
  let neurons := net.chain.neurons netuid
  let n := neurons.subnetworkN.val
  let stakes ← net.chain.epochStake params netuid
  let weights ← maskWeightsSparse stakes (net.chain.getOwnerUid netuid)
    (net.getWeightsSparse netuid)
  let (scores, weightsForBonds) ← consensusSparse params stakes n weights
  let bonds ← bondsSparse exp params stakes n (net.chain.lastTempo netuid) scores weightsForBonds
    (net.chain.getBondsSparse netuid)
  neurons.finishEpoch stakes scores bonds.dividends raoEmission
    (bonds.emaBonds.map bondsRowSparse)

def epochDense (exp : I32F32 → Option I32F32) (params : EpochParams) (net : Network A B P H)
    (netuid : NetUid) (raoEmission : U64) : Option (List (A × U64 × U64) × Neurons A) := do
  let neurons := net.chain.neurons netuid
  let n := neurons.subnetworkN.val
  let stakes ← net.chain.epochStake params netuid
  let weights ← maskWeights stakes (net.chain.getOwnerUid netuid) (net.getWeights netuid)
  let (scores, weightsForBonds) ← consensusDense params stakes weights
  let bonds ← bondsDense exp params stakes (net.chain.lastTempo netuid) scores weightsForBonds
    (net.chain.getBonds netuid)
  neurons.finishEpoch stakes scores bonds.dividends raoEmission
    (bonds.emaBonds.map (bondsRow n))

end Network

end Subtensor
