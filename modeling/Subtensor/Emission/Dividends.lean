import Subtensor.Staking.Stake

/-!
# Dividends and incentives

How the outcome of an epoch becomes incentives, dividends in alpha and
dividends in TAO (`pallets/subtensor/src/coinbase/run_coinbase.rs`). The
source iterates over its maps in the order of the keys, the model in the order
of the entries; every hotkey has its own share pool, so nothing that is stored
depends on it but the order in which a coldkey lists its hotkeys.
-/

namespace Subtensor

open Lib Children

variable {A B P : Type} [DecidableEq A]

/-- Add a value to the entry of a key. -/
def accumulate {V : Type} (add : V → V → V) (m : StorageMap A V) (key : A) (value : V) :
    StorageMap A V :=
  m.insert key (match m.lookup key with
    | some entry => add entry value
    | none => value)

namespace Chain

/-- The global weight of TAO, between zero and one. -/
def getTaoWeight (chain : Chain A B P) : U96F32 :=
  (UFixed.ofNat chain.params.taoWeight.val).safeDiv (.ofNat (2 ^ 64 - 1))

/-- `proportion / u64::MAX`. -/
def normalizedProportion (proportion : U64) : U96F32 :=
  (UFixed.ofNat proportion.val).safeDiv (.ofNat (2 ^ 64 - 1))

def getHotkeyTakeFloat (rt : Runtime A B P) (chain : Chain A B P) (hotkey : A) : U96F32 :=
  (UFixed.ofNat (chain.getHotkeyTake rt hotkey).val).safeDiv (.ofNat (2 ^ 16 - 1))

/-! ## Parents -/

/-- A part of a hotkey's stake: its alpha and its weighted TAO. -/
def contribution (chain : Chain A B P) (hotkey : A) (netuid : NetUid) (proportion : U96F32) :
    U96F32 :=
  let root : U96F32 := .ofNat (chain.getStakeForHotkeyOnSubnet hotkey .ROOT).val
  let alpha : U96F32 := .ofNat (chain.getStakeForHotkeyOnSubnet hotkey netuid).val
  (alpha.satMul proportion).satAdd ((root.satMul proportion).satMul chain.getTaoWeight)

/-- The stake that a hotkey did not pass on to children. -/
def getSelfContribution (chain : Chain A B P) (hotkey : A) (netuid : NetUid) : U64 :=
  let remaining : U96F32 := ((chain.graph netuid).childKeys hotkey).foldl
    (fun remaining child => remaining.satSub (normalizedProportion child.1)) (.ofNat 1)
  (chain.contribution hotkey netuid remaining).toWord 64

/-- What the loop over the parents carries. -/
structure ParentShares (A : Type) where
  remainingEmission : U96F32
  totalChildEmissionTake : U96F32
  dividendTuples : List (A × U64)

/-- One parent gets its part of the emission, less the take of the child. -/
def payParent (rt : Runtime A B P) (chain : Chain A B P) (hotkey : A) (netuid : NetUid)
    (validatingEmission totalContribution : U96F32) (shares : ParentShares A)
    (parent : A × U96F32) : ParentShares A :=
  let emissionFactor := (parent.2.checkedDiv totalContribution).getD 0
  let parentEmission := validatingEmission.satMul emissionFactor
  let childkeyTake := (UFixed.ofNat (chain.accounts.childkeyTake hotkey netuid).val).safeDiv
    (.ofNat (2 ^ 16 - 1))
  let childEmissionTake :=
    if chain.getOwningColdkeyForHotkey rt parent.1 = chain.getOwningColdkeyForHotkey rt hotkey then
      0
    else childkeyTake.satMul parentEmission
  { remainingEmission := shares.remainingEmission.satSub parentEmission
    totalChildEmissionTake := shares.totalChildEmissionTake.satAdd childEmissionTake
    dividendTuples := shares.dividendTuples ++
      [(parent.1, (parentEmission.satSub childEmissionTake).toWord 64)] }

def getParentChildDividendsDistribution (rt : Runtime A B P) (chain : Chain A B P) (hotkey : A)
    (netuid : NetUid) (dividends : U64) : List (A × U64) :=
  let validatingEmission : U96F32 := .ofNat dividends.val
  let parentContributions := ((chain.graph netuid).parentKeys hotkey).map fun parent =>
    (parent.2, chain.contribution parent.2 netuid (normalizedProportion parent.1))
  let totalContribution := parentContributions.foldl (fun total parent => total.satAdd parent.2)
    (UFixed.ofNat (chain.getSelfContribution hotkey netuid).val)
  let shares := parentContributions.foldl
    (chain.payParent rt hotkey netuid validatingEmission totalContribution)
    ⟨validatingEmission, 0, []⟩
  shares.dividendTuples ++
    [(hotkey, (shares.remainingEmission.satAdd shares.totalChildEmissionTake).toWord 64)]

/-! ## Distribution -/

/-- The outcome of an epoch: hotkeys with their incentive and their dividend. -/
abbrev HotkeyEmission (A : Type) := List (A × U64 × U64)

def calculateIncentives (hotkeyEmission : HotkeyEmission A) : StorageMap A U64 :=
  hotkeyEmission.foldl
    (fun incentives e => accumulate Word.satAdd incentives e.1 e.2.1) ∅

def calculateDividends (rt : Runtime A B P) (chain : Chain A B P) (netuid : NetUid)
    (hotkeyEmission : HotkeyEmission A) : StorageMap A U96F32 :=
  hotkeyEmission.foldl
    (fun dividends e =>
      (chain.getParentChildDividendsDistribution rt e.1 netuid e.2.2).foldl
        (fun dividends tuple =>
          accumulate UFixed.satAdd dividends tuple.1 (.ofNat tuple.2.val)) dividends) ∅

/-- The part of a hotkey's dividend that its TAO on root earned. -/
def rootDivs (chain : Chain A B P) (netuid : NetUid) (hotkey : A) (dividend : U96F32) : U96F32 :=
  let alphaStake : U96F32 := .ofNat (chain.getStakeForHotkeyOnSubnet hotkey netuid).val
  let rootStake : U96F32 := .ofNat (chain.getStakeForHotkeyOnSubnet hotkey .ROOT).val
  let rootAlpha := rootStake.satMul chain.getTaoWeight
  dividend.satMul ((rootAlpha.checkedDiv (alphaStake.satAdd rootAlpha)).getD 0)

/-- An amount is divided in proportion to the shares. -/
def divideInProportion (pending : U64) (shares : StorageMap A U96F32) : StorageMap A U96F32 :=
  let total := shares.entries.foldl (fun total e => total.satAdd e.2) (0 : U96F32)
  shares.mapValues fun _ share =>
    (UFixed.ofNat pending.val : U96F32).satMul ((share.checkedDiv total).getD 0)

/-- `calculate_dividend_distribution`: dividends in alpha and in TAO. -/
def calculateDividendDistribution (chain : Chain A B P) (netuid : NetUid)
    (pendingAlpha pendingTao : U64) (dividends : StorageMap A U96F32) :
    StorageMap A U96F32 × StorageMap A U96F32 :=
  let alphaDividends : StorageMap A U96F32 := dividends.mapValues fun hotkey dividend =>
    dividend.satSub (chain.rootDivs netuid hotkey dividend)
  let rootDividends : StorageMap A U96F32 := dividends.mapValues fun hotkey dividend =>
    chain.rootDivs netuid hotkey dividend
  (divideInProportion pendingAlpha alphaDividends, divideInProportion pendingTao rootDividends)

/-! ## Payment -/

/-- A miner is paid, unless it is the hotkey of the subnet owner. -/
def payIncentive (rt : Runtime A B P) (netuid : NetUid) (chain : Chain A B P) (hotkey : A)
    (incentive : U64) : Chain A B P :=
  if (chain.subnets netuid).subnetOwnerHotkey = some hotkey then chain
  else
    (chain.increaseStakeForHotkeyAndColdkeyOnSubnet hotkey
      (chain.getOwningColdkeyForHotkey rt hotkey) netuid incentive).1

/-- The validator gets its take, the nominators get the rest. -/
def payAlphaDividend (rt : Runtime A B P) (netuid : NetUid) (chain : Chain A B P) (hotkey : A)
    (alphaDivs : U96F32) : Chain A B P :=
  let alphaTake := (chain.getHotkeyTakeFloat rt hotkey).satMul alphaDivs
  let chain := (chain.increaseStakeForHotkeyAndColdkeyOnSubnet hotkey
    (chain.getOwningColdkeyForHotkey rt hotkey) netuid (alphaTake.toWord 64)).1
  chain.increaseStakeForHotkeyOnSubnet hotkey netuid ((alphaDivs.satSub alphaTake).toWord 64)

/-- The reserve of root after a dividend; the ledger records an overflow. -/
def addRootTao (chain : Chain A B P) (validatorStake nominatorStake : U64) : Chain A B P :=
  (chain.withReserves .ROOT fun reserves =>
    { reserves with
      subnetTAO := (reserves.subnetTAO.satAdd validatorStake).satAdd nominatorStake }).withLedger
    (·.note (2 ^ 64 ≤ (chain.reserves .ROOT).subnetTAO.val + validatorStake.val +
      nominatorStake.val))

/-- Dividends in TAO become stake on root. -/
def payRootDividend (rt : Runtime A B P) (chain : Chain A B P) (hotkey : A) (rootTao : U96F32) :
    Chain A B P :=
  let taoTake := (chain.getHotkeyTakeFloat rt hotkey).satMul rootTao
  let nominatorStake := (rootTao.satSub taoTake).toWord 64
  match chain.increaseStakeForHotkeyAndColdkeyOnSubnet hotkey
      (chain.getOwningColdkeyForHotkey rt hotkey) .ROOT (taoTake.toWord 64) with
  | (chain, validatorStake) =>
      (chain.increaseStakeForHotkeyOnSubnet hotkey .ROOT nominatorStake).addRootTao validatorStake
        nominatorStake

/-- The owner of the subnet gets its cut. -/
def payOwnerCut (netuid : NetUid) (chain : Chain A B P) (ownerCut : U64) : Chain A B P :=
  match (chain.subnets netuid).subnetOwner, (chain.subnets netuid).subnetOwnerHotkey with
  | some ownerColdkey, some ownerHotkey =>
      (chain.increaseStakeForHotkeyAndColdkeyOnSubnet ownerHotkey ownerColdkey netuid ownerCut).1
  | _, _ => chain

/-- Pay every entry of a map. -/
def payAll {V : Type} (pay : Chain A B P → A → V → Chain A B P) (chain : Chain A B P)
    (m : StorageMap A V) : Chain A B P :=
  m.entries.foldl (fun chain e => pay chain e.1 e.2) chain

def distributeDividendsAndIncentives (rt : Runtime A B P) (chain : Chain A B P) (netuid : NetUid)
    (ownerCut : U64) (incentives : StorageMap A U64)
    (alphaDividends taoDividends : StorageMap A U96F32) : Chain A B P :=
  let chain := payOwnerCut netuid chain ownerCut
  let chain := payAll (payIncentive rt netuid) chain incentives
  let chain := payAll (payAlphaDividend rt netuid) chain alphaDividends
  payAll (payRootDividend rt) chain taoDividends

/-- The alpha for the validators: half of the emission without what was
swapped for TAO, and all of it when there are no incentives. -/
def pendingValidatorAlpha (pendingAlpha pendingSwapped : U64) (hotkeyEmission : HotkeyEmission A) :
    U64 :=
  let incentiveSum : U64 := .wrap (hotkeyEmission.map fun e => e.2.1.val).sum
  if incentiveSum.val ≠ 0 then
    (Word.sat ((pendingAlpha.satAdd pendingSwapped).val / 2) : U64).satSub pendingSwapped
  else pendingAlpha

/-- `drain_pending_emission`, with the outcome of the epoch. -/
def drainPendingEmission (rt : Runtime A B P) (chain : Chain A B P) (netuid : NetUid)
    (pendingAlpha pendingTao pendingSwapped ownerCut : U64) (hotkeyEmission : HotkeyEmission A) :
    Chain A B P :=
  let distribution := chain.calculateDividendDistribution netuid
    (pendingValidatorAlpha pendingAlpha pendingSwapped hotkeyEmission) pendingTao
    (chain.calculateDividends rt netuid hotkeyEmission)
  chain.distributeDividendsAndIncentives rt netuid ownerCut (calculateIncentives hotkeyEmission)
    distribution.1 distribution.2

end Chain

end Subtensor
