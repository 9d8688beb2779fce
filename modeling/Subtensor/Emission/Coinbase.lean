import Subtensor.Emission.BlockEmission
import Subtensor.Emission.Dividends
import Subtensor.Pallet.SetChildren

/-!
# Coinbase

What happens in every block (`run_coinbase` and `block_step`): TAO and alpha
are injected into the pools, the part of root is sold, and subnets that
reached their tempo distribute what is pending. The epoch of a subnet is a
parameter: any table of neurons and any emission may come out of it.
-/

namespace Subtensor

open Lib

variable {A B P : Type} [DecidableEq A]

/-- The epoch of a subnet on some emission: the table of its neurons, and the
emission of the hotkeys. -/
abbrev Epoch (A B P : Type) :=
  Chain A B P → NetUid → U64 → Neurons A × Chain.HotkeyEmission A

namespace Chain

/-! ## Terms -/

def getAlphaIssuance (chain : Chain A B P) (netuid : NetUid) : U64 :=
  (chain.reserves netuid).subnetAlphaIn.satAdd (chain.reserves netuid).subnetAlphaOut

def getMovingAlphaPrice (chain : Chain A B P) (netuid : NetUid) : U96F32 :=
  if netuid.isRoot then .ofNat 1
  else if (chain.mechanism netuid).val = 0 then .ofNat 1
  else (chain.subnets netuid).subnetMovingPrice.toUFixed

/-- `BlockEmission` is written whenever an emission below the total supply is
computed. -/
def recordBlockEmission (rt : Runtime A B P) (chain : Chain A B P) (issuance : U64) : Chain A B P :=
  if totalSupply.val ≤ issuance.val then chain
  else match blockEmissionForIssuance rt.log2 issuance with
  | none => chain
  | some emission => { chain with blockEmission := emission }

/-- All subnets but root. -/
def coinbaseSubnets (chain : Chain A B P) : List NetUid :=
  chain.getAllSubnetNetuids.filter fun netuid => netuid ≠ .ROOT

def subnetsToEmitTo (chain : Chain A B P) : List NetUid :=
  chain.coinbaseSubnets.filter fun netuid => (chain.subnets netuid).firstEmissionBlockNumber.isSome

def totalMovingPrices (chain : Chain A B P) : U96F32 :=
  chain.subnetsToEmitTo.foldl
    (fun total netuid => total.satAdd (chain.getMovingAlphaPrice netuid)) 0

structure EmissionTerms where
  taoIn : U96F32
  alphaIn : U96F32
  alphaOut : U96F32

def emissionTerms (rt : Runtime A B P) (chain : Chain A B P) (blockEmission : U96F32)
    (netuid : NetUid) : EmissionTerms :=
  let taoIn := ((blockEmission.satMul (chain.getMovingAlphaPrice netuid)).checkedDiv
    chain.totalMovingPrices).getD 0
  let alphaEmission : U96F32 :=
    .ofNat ((blockEmissionForIssuance rt.log2 (chain.getAlphaIssuance netuid)).getD 0).val
  -- no TAO is emitted to a subnet that does not allow registrations
  { taoIn :=
      if ¬(chain.subnets netuid).networkRegistrationAllowed ∧
          ¬(chain.subnets netuid).networkPowRegistrationAllowed then 0
      else taoIn
    alphaIn := ((taoIn.checkedDiv (chain.currentAlphaPrice rt netuid)).getD alphaEmission).least
      alphaEmission
    alphaOut := alphaEmission }

/-! ## Injection -/

def injectReserves (terms : EmissionTerms) (reserves : Reserves) : Reserves :=
  { reserves with
    subnetAlphaIn := reserves.subnetAlphaIn.satAdd (terms.alphaIn.toWord 64)
    subnetAlphaOut := reserves.subnetAlphaOut.satAdd (terms.alphaOut.toWord 64)
    subnetTAO := reserves.subnetTAO.satAdd (terms.taoIn.toWord 64) }

def inject (rt : Runtime A B P) (terms : NetUid → EmissionTerms) (chain : Chain A B P)
    (netuid : NetUid) : Chain A B P :=
  let taoIn := (terms netuid).taoIn.toWord 64
  let chain := chain.withReserves netuid (injectReserves (terms netuid))
  let chain := chain.withLedger (·.addStake taoIn)
  let chain := chain.withLedger (·.addIssuance taoIn)
  chain.withSwap (rt.swap.adjustProtocolLiquidity chain.swap netuid taoIn
    ((terms netuid).alphaIn.toWord 64))

/-! ## Owner cuts and root dividends -/

def ownerCut (chain : Chain A B P) (alphaOut : U96F32) : U96F32 :=
  alphaOut.satMul ((UFixed.ofNat chain.params.subnetOwnerCut.val).safeDiv (.ofNat (2 ^ 16 - 1)))

def withPending (chain : Chain A B P) (f : Pending → Pending) : Chain A B P :=
  { chain with pending := f chain.pending }

def addPendingOwnerCut (terms : NetUid → EmissionTerms) (chain : Chain A B P) (netuid : NetUid) :
    Chain A B P :=
  chain.withPending fun pending =>
    { pending with
      pendingOwnerCut := Function.update pending.pendingOwnerCut netuid
        ((pending.pendingOwnerCut netuid).satAdd
          ((chain.ownerCut (terms netuid).alphaOut).toWord 64)) }

def rootWeight (chain : Chain A B P) : U96F32 :=
  (UFixed.ofNat (chain.reserves .ROOT).subnetTAO.val).satMul chain.getTaoWeight

theorem half_lt : 2 ^ 31 < 2 ^ (96 + 32) := by norm_num

/-- The part of the emission that root earns, half of it for validators. -/
def rootAlpha (chain : Chain A B P) (netuid : NetUid) (alphaOut : U96F32) : U96F32 :=
  let rootProportion := (chain.rootWeight.checkedDiv
    (chain.rootWeight.satAdd (.ofNat (chain.getAlphaIssuance netuid).val))).getD 0
  (rootProportion.satMul alphaOut).satMul ⟨2 ^ 31, half_lt⟩

/-- What is pending after root alpha was sold for TAO. -/
def addPendingEmission (netuid : NetUid) (swapped alpha rootTao : U64) (pending : Pending) :
    Pending :=
  { pending with
    pendingAlphaSwapped := Function.update pending.pendingAlphaSwapped netuid
      ((pending.pendingAlphaSwapped netuid).satAdd swapped)
    pendingEmission := Function.update pending.pendingEmission netuid
      ((pending.pendingEmission netuid).satAdd alpha)
    pendingRootDivs := pending.pendingRootDivs.insert netuid
      (((pending.pendingRootDivs.lookup netuid).getD 0).satAdd rootTao) }

/-- Root alpha is sold through the pool; the ledger records an overflow of the
root dividends. Nothing becomes pending when the sale fails. -/
def sellRootAlpha (rt : Runtime A B P) (terms : NetUid → EmissionTerms) (chain : Chain A B P)
    (netuid : NetUid) : Chain A B P :=
  let alphaOut := (terms netuid).alphaOut.satSub (chain.ownerCut (terms netuid).alphaOut)
  let rootAlpha := chain.rootAlpha netuid alphaOut
  match chain.swapAlphaForTao rt netuid (rootAlpha.toWord 64) rt.swap.minPrice with
  | (chain, .error _) => chain
  | (chain, .ok result) =>
      (chain.withPending (addPendingEmission netuid (rootAlpha.toWord 64)
        ((alphaOut.satSub rootAlpha).toWord 64) result.amountPaidOut)).withLedger
        (·.note (2 ^ 64 ≤ ((chain.pending.pendingRootDivs.lookup netuid).getD 0).val +
          result.amountPaidOut.val))

/-! ## Moving prices -/

/-- The moving price after a block. -/
def nextMovingPrice (rt : Runtime A B P) (chain : Chain A B P) (netuid : NetUid) : I96F32 :=
  let startCallBlock :=
    ((chain.subnets netuid).firstEmissionBlockNumber.getD 0).satSub (.sat 1)
  let blocksSinceStartCall : U96F32 := .ofNat (chain.block.satSub startCallBlock).val
  let alpha := (chain.params.subnetMovingAlpha.toUFixed : U96F32).satMul
    (blocksSinceStartCall.safeDiv
      (blocksSinceStartCall.satAdd (.ofNat (chain.subnets netuid).emaPriceHalvingBlocks.val)))
  let currentPrice := alpha.satMul ((chain.currentAlphaPrice rt netuid).least (.ofNat 1))
  let currentMoving :=
    ((UFixed.ofNat 1 : U96F32).satSub alpha).satMul (chain.getMovingAlphaPrice netuid)
  .ofUFixed (currentPrice.satAdd currentMoving)

def withSubnet (chain : Chain A B P) (netuid : NetUid) (f : Subnet A → Subnet A) : Chain A B P :=
  { chain with subnets := Function.update chain.subnets netuid (f (chain.subnets netuid)) }

def updateMovingPrice (rt : Runtime A B P) (chain : Chain A B P) (netuid : NetUid) : Chain A B P :=
  chain.withSubnet netuid fun subnet =>
    { subnet with subnetMovingPrice := chain.nextMovingPrice rt netuid }

/-! ## Draining -/

def blocksUntilNextEpoch (netuid : NetUid) (tempo : U16) (blockNumber : U64) : U64 :=
  if tempo.val = 0 then .maxVal
  else
    let adjustedBlock : U64 := .wrap (blockNumber.val + (netuid.val + 1))
    .sat (tempo.val - adjustedBlock.val % (tempo.val + 1))

def shouldRunEpoch (chain : Chain A B P) (netuid : NetUid) : Bool :=
  (blocksUntilNextEpoch netuid (chain.subnets netuid).tempo chain.block).val = 0

/-- What was pending for a subnet is taken out. -/
def clearPending (netuid : NetUid) (pending : Pending) : Pending where
  pendingEmission := Function.update pending.pendingEmission netuid 0
  pendingAlphaSwapped := Function.update pending.pendingAlphaSwapped netuid 0
  pendingOwnerCut := Function.update pending.pendingOwnerCut netuid 0
  pendingRootDivs := pending.pendingRootDivs.insert netuid 0

/-- A subnet that reached its tempo runs its epoch and distributes what was
pending. -/
def drainIfDue (rt : Runtime A B P) (epoch : Epoch A B P) (chain : Chain A B P) (netuid : NetUid) :
    Chain A B P :=
  if chain.shouldRunEpoch netuid then
    let pendingAlpha := chain.pending.pendingEmission netuid
    let pendingTao := (chain.pending.pendingRootDivs.lookup netuid).getD 0
    let pendingSwapped := chain.pending.pendingAlphaSwapped netuid
    let ownerCut := chain.pending.pendingOwnerCut netuid
    let chain := chain.withPending (clearPending netuid)
    let outcome := epoch chain netuid (pendingAlpha.satAdd pendingSwapped)
    ({ chain with neurons := Function.update chain.neurons netuid outcome.1 }).drainPendingEmission
      rt netuid pendingAlpha pendingTao pendingSwapped ownerCut outcome.2
  else chain

/-! ## The phases -/

/-- TAO and alpha are injected into the pools of the emitting subnets, by the
terms of the state before. -/
def injection (rt : Runtime A B P) (chain : Chain A B P) (blockEmission : U96F32) : Chain A B P :=
  chain.subnetsToEmitTo.foldl (inject rt (chain.emissionTerms rt blockEmission))
    (chain.subnetsToEmitTo.foldl
      (fun c netuid => c.recordBlockEmission rt (chain.getAlphaIssuance netuid)) chain)

/-- The owner cuts are set aside, and the part of root is sold. -/
def rootSale (rt : Runtime A B P) (chain : Chain A B P) (emitting : List NetUid)
    (terms : NetUid → EmissionTerms) : Chain A B P :=
  emitting.foldl (sellRootAlpha rt terms) (emitting.foldl (addPendingOwnerCut terms) chain)

def runCoinbase (rt : Runtime A B P) (epoch : Epoch A B P) (chain : Chain A B P)
    (blockEmission : U96F32) : Chain A B P :=
  let sold := (chain.injection rt blockEmission).rootSale rt chain.subnetsToEmitTo
    (chain.emissionTerms rt blockEmission)
  let priced := chain.subnetsToEmitTo.foldl (updateMovingPrice rt) sold
  chain.coinbaseSubnets.foldl (drainIfDue rt epoch) priced

end Chain

end Subtensor
