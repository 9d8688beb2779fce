import Subtensor.Emission.Coinbase

/-!
# The step of a block

`block_step` (`pallets/subtensor/src/coinbase/block_step.rs`): the terms of
registrations are adjusted, the emission of the block is run through the
network, and pending children are set on subnets that reached their tempo.
-/

namespace Subtensor.Chain

open Lib

variable {A B P : Type} [DecidableEq A]

/-! ## Terms of registrations -/

abbrev U110F18 := UFixed 110 18

/-- `upgraded_difficulty` and `upgraded_burn`: the term follows the ratio of
actual to wanted registrations, within its bounds. -/
@[irreducible] def upgradedTerm (current : U64) (registrationsThisInterval
    targetRegistrationsPerInterval : U16) (adjustmentAlpha least most : U64) : U64 :=
  let updated := ((UFixed.ofNat current.val : U110F18).satMul
    (.ofNat (registrationsThisInterval.satAdd targetRegistrationsPerInterval).val)).safeDiv
    (.ofNat (targetRegistrationsPerInterval.satAdd targetRegistrationsPerInterval).val)
  let alpha := (UFixed.ofNat adjustmentAlpha.val : U110F18).safeDiv (.ofNat (2 ^ 64 - 1))
  let next := (alpha.satMul (.ofNat current.val)).satAdd
    (((UFixed.ofNat 1 : U110F18).satSub alpha).satMul updated)
  if (UFixed.ofNat most.val : U110F18).bits ≤ next.bits then most
  else if next.bits ≤ (UFixed.ofNat least.val : U110F18).bits then least
  else next.toWord 64

/-- Too many registrations raise the terms by which most of them came, too few
lower the other ones; both are adjusted when they came alike. -/
def adjustTerms (subnet : Subnet A) (registrations : Registrations) : Subnet A :=
  let most := subnet.targetRegistrationsPerInterval.val < registrations.thisInterval.val
  let burn := upgradedTerm subnet.burn registrations.thisInterval
    subnet.targetRegistrationsPerInterval subnet.adjustmentAlpha subnet.minBurn subnet.maxBurn
  let difficulty := upgradedTerm subnet.difficulty registrations.thisInterval
    subnet.targetRegistrationsPerInterval subnet.adjustmentAlpha subnet.minDifficulty
    subnet.maxDifficulty
  if registrations.burnThisInterval.val < registrations.powThisInterval.val then
    if most then { subnet with difficulty := difficulty } else { subnet with burn := burn }
  else if registrations.powThisInterval.val < registrations.burnThisInterval.val then
    if most then { subnet with burn := burn } else { subnet with difficulty := difficulty }
  else { subnet with burn := burn, difficulty := difficulty }

def withRegistrations (chain : Chain A B P) (netuid : NetUid)
    (f : Registrations → Registrations) : Chain A B P :=
  { chain with
    registrations := Function.update chain.registrations netuid (f (chain.registrations netuid)) }

/-- One network of `adjust_registration_terms_for_networks`. -/
def adjustRegistrationTerms (chain : Chain A B P) (netuid : NetUid) : Chain A B P :=
  let subnet := chain.subnets netuid
  if subnet.adjustmentInterval.val ≤ (chain.block.satSub subnet.lastAdjustmentBlock).val then
    (chain.withSubnet netuid fun subnet =>
      { adjustTerms subnet (chain.registrations netuid) with
        lastAdjustmentBlock := chain.block }).withRegistrations netuid fun registrations =>
      { registrations with
        thisInterval := 0, powThisInterval := 0, burnThisInterval := 0, thisBlock := 0 }
  else
    chain.withRegistrations netuid fun registrations => { registrations with thisBlock := 0 }

/-! ## The block -/

def trySetPendingChildren (chain : Chain A B P) : Chain A B P :=
  chain.getAllSubnetNetuids.foldl (fun chain netuid =>
    if chain.shouldRunEpoch netuid then
      chain.doSetPendingChildren netuid (chain.pendingEntries netuid)
    else chain) chain

/-- The emission that the total issuance calls for. -/
def getBlockEmission (rt : Runtime A B P) (chain : Chain A B P) : Option U64 :=
  blockEmissionForIssuance rt.log2 chain.ledger.totalIssuance

/-- The state in which the coinbase is run. -/
def beforeCoinbase (rt : Runtime A B P) (chain : Chain A B P) : Chain A B P :=
  (chain.getAllSubnetNetuids.foldl adjustRegistrationTerms chain).recordBlockEmission rt
    chain.ledger.totalIssuance

def blockStep (rt : Runtime A B P) (epoch : Epoch A B P) (chain : Chain A B P) : Chain A B P :=
  let blockEmission : U96F32 := .ofNat ((chain.getBlockEmission rt).getD 0).val
  ((chain.beforeCoinbase rt).runCoinbase rt epoch blockEmission).trySetPendingChildren

end Subtensor.Chain
