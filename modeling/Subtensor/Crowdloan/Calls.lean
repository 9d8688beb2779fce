import Subtensor.Lib.Balances
import Subtensor.Lib.Except
import Subtensor.Lib.FixedPoint

/-!
# The crowdloan pallet

The nine calls of the pallet (`pallets/crowdloan/src/lib.rs`). What is raised
lies on an account that is derived from the id of the crowdloan: nobody signs
for it. The call that is dispatched at the end is a call of the runtime; it is
stored by its preimage, and what it does is a parameter of `finalize`.
-/

namespace Subtensor.Crowdloan

open Lib

abbrev CrowdloanId := U32

abbrev BlockNumber := U32

/-- An account with a key, or one that `funds_account` derives. -/
inductive Account (A : Type) where
  | user (who : A)
  | funds (id : CrowdloanId)
deriving DecidableEq

structure CrowdloanInfo (A C : Type) where
  creator : A
  deposit : U64
  minContribution : U64
  endBlock : BlockNumber
  cap : U64
  fundsAccount : Account A
  raised : U64
  targetAddress : Option (Account A)
  call : Option C
  finalized : Bool
  contributorsCount : U32

inductive Error where
  | depositTooLow
  | capTooLow
  | minimumContributionTooLow
  | cannotEndInPast
  | blockDurationTooShort
  | blockDurationTooLong
  | insufficientBalance
  | overflow
  | invalidCrowdloanId
  | capRaised
  | contributionPeriodEnded
  | contributionTooLow
  | invalidOrigin
  | alreadyFinalized
  | contributionPeriodNotEnded
  | noContribution
  | capNotRaised
  | underflow
  | callUnavailable
  | notReadyToDissolve
  | depositCannotBeWithdrawn
  | maxContributorsReached
  /-- The currency does not transfer. -/
  | fundsUnavailable
  /-- The dispatched call fails. -/
  | dispatchFailed
deriving DecidableEq

structure Config where
  minimumDeposit : U64
  absoluteMinimumContribution : U64
  minimumBlockDuration : BlockNumber
  maximumBlockDuration : BlockNumber
  refundContributorsLimit : U32
  maxContributors : U32

/-! ## Storage -/

structure Storage (A C : Type) where
  balances : Balances (Account A)
  crowdloans : CrowdloanId → Option (CrowdloanInfo A C)
  nextCrowdloanId : CrowdloanId
  contributions : CrowdloanId → StorageMap A U64
  currentCrowdloanId : Option CrowdloanId

/-- A chain without crowdloans. -/
def Storage.genesis {A C : Type} (free : A → ℕ) : Storage A C where
  balances := ⟨fun account => match account with
    | .user who => free who
    | .funds _ => 0, ∅⟩
  crowdloans := fun _ => none
  nextCrowdloanId := 0
  contributions := fun _ => ∅
  currentCrowdloanId := none

variable {A C : Type} [DecidableEq A]

namespace Storage

def free (storage : Storage A C) (account : Account A) : ℕ := storage.balances.free account

def ensureCrowdloanExists (storage : Storage A C) (id : CrowdloanId) :
    Except Error (CrowdloanInfo A C) :=
  match storage.crowdloans id with
  | none => .error .invalidCrowdloanId
  | some crowdloan => .ok crowdloan

/-- `CurrencyOf::<T>::transfer`. -/
def transfer (storage : Storage A C) (source dest : Account A) (amount : U64) :
    Except Error (Storage A C) :=
  match storage.balances.transfer source dest amount.val with
  | none => .error .fundsUnavailable
  | some balances => .ok { storage with balances := balances }

def insertCrowdloan (storage : Storage A C) (id : CrowdloanId) (crowdloan : CrowdloanInfo A C) :
    Storage A C :=
  { storage with crowdloans := Function.update storage.crowdloans id (some crowdloan) }

def setContributions (storage : Storage A C) (id : CrowdloanId)
    (contributions : StorageMap A U64) : Storage A C :=
  { storage with contributions := Function.update storage.contributions id contributions }

end Storage

open Storage

def ensure (p : Prop) [Decidable p] (e : Error) : Except Error Unit :=
  if p then .ok () else .error e

/-- A checked operation, with the error for an overflow. -/
def orError {α : Type} (e : Error) : Option α → Except Error α
  | none => .error e
  | some a => .ok a

def ensureValidEnd (cfg : Config) (now endBlock : BlockNumber) : Except Error Unit := do
  ensure (now.val < endBlock.val) .cannotEndInPast
  let blockDuration ← orError .underflow (endBlock.checkedSub now)
  ensure (cfg.minimumBlockDuration.val ≤ blockDuration.val) .blockDurationTooShort
  ensure (blockDuration.val ≤ cfg.maximumBlockDuration.val) .blockDurationTooLong

/-! ## Calls -/

def create (cfg : Config) (now : BlockNumber) (storage : Storage A C) (creator : A)
    (deposit minContribution cap : U64) (endBlock : BlockNumber) (call : Option C)
    (targetAddress : Option (Account A)) : Except Error (Storage A C) := do
  ensure (cfg.minimumDeposit.val ≤ deposit.val) .depositTooLow
  ensure (deposit.val < cap.val) .capTooLow
  ensure (cfg.absoluteMinimumContribution.val ≤ minContribution.val) .minimumContributionTooLow
  ensureValidEnd cfg now endBlock
  ensure (deposit.val ≤ storage.free (.user creator)) .insufficientBalance
  let crowdloanId := storage.nextCrowdloanId
  let nextCrowdloanId ← orError .overflow (crowdloanId.checkedAdd (.sat 1))
  let fundsAccount := Account.funds crowdloanId
  let crowdloan : CrowdloanInfo A C :=
    { creator, deposit, minContribution, endBlock, cap, fundsAccount, raised := deposit,
      targetAddress, call, finalized := false, contributorsCount := .sat 1 }
  let storage := { storage with nextCrowdloanId := nextCrowdloanId }
  let storage ← (storage.insertCrowdloan crowdloanId crowdloan).transfer (.user creator)
    crowdloan.fundsAccount deposit
  return storage.setContributions crowdloanId
    ((storage.contributions crowdloanId).insert creator deposit)

/-- The new contribution of an account, and the number of contributors. -/
def addContribution (contribution : Option U64) (contributorsCount : U32) (amount : U64) :
    Except Error (U64 × U32) :=
  match contribution with
  | some contribution => do
      let contribution ← orError .overflow (contribution.checkedAdd amount)
      return (contribution, contributorsCount)
  | none => do
      let contributorsCount ← orError .overflow (contributorsCount.checkedAdd (.sat 1))
      return (amount, contributorsCount)

def leastAmount (a b : U64) : U64 := if a.val ≤ b.val then a else b

def contribute (cfg : Config) (now : BlockNumber) (storage : Storage A C) (contributor : A)
    (crowdloanId : CrowdloanId) (amount : U64) : Except Error (Storage A C) := do
  let crowdloan ← storage.ensureCrowdloanExists crowdloanId
  ensure (now.val < crowdloan.endBlock.val) .contributionPeriodEnded
  ensure (crowdloan.raised.val < crowdloan.cap.val) .capRaised
  ensure (crowdloan.minContribution.val ≤ amount.val) .contributionTooLow
  ensure (crowdloan.contributorsCount.val < cfg.maxContributors.val)
    .maxContributorsReached
  let leftToRaise ← orError .underflow (crowdloan.cap.checkedSub crowdloan.raised)
  let amount := leastAmount amount leftToRaise
  let raised ← orError .overflow (crowdloan.raised.checkedAdd amount)
  let (contribution, contributorsCount) ← addContribution
    ((storage.contributions crowdloanId).lookup contributor) crowdloan.contributorsCount amount
  ensure (amount.val ≤ storage.free (.user contributor)) .insufficientBalance
  let storage ← storage.transfer (.user contributor) crowdloan.fundsAccount amount
  return (storage.setContributions crowdloanId
    ((storage.contributions crowdloanId).insert contributor contribution)).insertCrowdloan
      crowdloanId { crowdloan with raised := raised, contributorsCount := contributorsCount }

/-- What is withdrawn, the contributions that are left, and their number. -/
def takeContribution (crowdloan : CrowdloanInfo A C) (contributions : StorageMap A U64) (who : A)
    (amount : U64) : Except Error (U64 × StorageMap A U64 × U32) :=
  if who = crowdloan.creator then do
    let amount := amount.satSub crowdloan.deposit
    ensure (0 < amount.val) .depositCannotBeWithdrawn
    return (amount, contributions.insert who crowdloan.deposit, crowdloan.contributorsCount)
  else do
    let contributorsCount ← orError .underflow (crowdloan.contributorsCount.checkedSub (.sat 1))
    return (amount, contributions.erase who, contributorsCount)

def withdraw (storage : Storage A C) (who : A) (crowdloanId : CrowdloanId) :
    Except Error (Storage A C) := do
  let crowdloan ← storage.ensureCrowdloanExists crowdloanId
  ensure (crowdloan.finalized = false) .alreadyFinalized
  let contributions := storage.contributions crowdloanId
  let amount := (contributions.lookup who).getD 0
  ensure (0 < amount.val) .noContribution
  let (amount, contributions, contributorsCount) ←
    takeContribution crowdloan contributions who amount
  let storage ← (storage.setContributions crowdloanId contributions).transfer
    crowdloan.fundsAccount (.user who) amount
  return storage.insertCrowdloan crowdloanId
    { crowdloan with
      raised := crowdloan.raised.satSub amount
      contributorsCount := contributorsCount }

/-- The part of `finalize` before the dispatch: the raised amount goes to the
target address. -/
def payTarget (storage : Storage A C) (crowdloan : CrowdloanInfo A C) :
    Except Error (Storage A C) :=
  match crowdloan.targetAddress with
  | none => .ok storage
  | some targetAddress =>
      storage.transfer crowdloan.fundsAccount targetAddress crowdloan.raised

/-- The stored call is dispatched, and can read which crowdloan is finalized. -/
def dispatchCall (dispatch : C → Storage A C → Except Error (Storage A C))
    (storage : Storage A C) (crowdloanId : CrowdloanId) (call : Option C) :
    Except Error (Storage A C) :=
  match call with
  | none => .ok storage
  | some call => do
      let storage ← dispatch call { storage with currentCrowdloanId := some crowdloanId }
      return { storage with currentCrowdloanId := none }

/-- The crowdloan is written back as it was read before the dispatch. -/
def finalize (now : BlockNumber) (dispatch : C → Storage A C → Except Error (Storage A C))
    (storage : Storage A C) (who : A) (crowdloanId : CrowdloanId) :
    Except Error (Storage A C) := do
  let crowdloan ← storage.ensureCrowdloanExists crowdloanId
  ensure (who = crowdloan.creator) .invalidOrigin
  ensure (crowdloan.endBlock.val ≤ now.val) .contributionPeriodNotEnded
  ensure (crowdloan.raised = crowdloan.cap) .capNotRaised
  ensure (crowdloan.finalized = false) .alreadyFinalized
  let storage ← payTarget storage crowdloan
  let storage ← dispatchCall dispatch storage crowdloanId crowdloan.call
  return storage.insertCrowdloan crowdloanId { crowdloan with finalized := true }

/-- What the loop of `refund` carries along. -/
structure Refunds (A C : Type) where
  storage : Storage A C
  raised : U64
  refundedContributors : List A
  refundCount : U32

/-- The loop of `refund`; it stops at the limit. -/
def refundLoop (limit : U32) (fundsAccount : Account A) :
    List (A × U64) → Refunds A C → Except Error (Refunds A C)
  | [], refunds => .ok refunds
  | (contributor, amount) :: rest, refunds =>
      if limit.val ≤ refunds.refundCount.val then .ok refunds
      else do
        let storage ← refunds.storage.transfer fundsAccount (.user contributor) amount
        let refundCount ← orError .overflow (refunds.refundCount.checkedAdd (.sat 1))
        refundLoop limit fundsAccount rest
          { storage := storage
            raised := refunds.raised.satSub amount
            refundedContributors := refunds.refundedContributors ++ [contributor]
            refundCount := refundCount }

/-- The contributions of the others, in the order of storage. -/
def otherContributions (contributions : StorageMap A U64) (creator : A) : List (A × U64) :=
  (contributions.entries.map fun e => (e.1, e.2)).filter fun e => e.1 ≠ creator

def refund (cfg : Config) (now : BlockNumber) (storage : Storage A C)
    (crowdloanId : CrowdloanId) : Except Error (Storage A C) := do
  let crowdloan ← storage.ensureCrowdloanExists crowdloanId
  ensure (crowdloan.endBlock.val ≤ now.val) .contributionPeriodNotEnded
  ensure (crowdloan.finalized = false) .alreadyFinalized
  let refunds ← refundLoop cfg.refundContributorsLimit crowdloan.fundsAccount
    (otherContributions (storage.contributions crowdloanId) crowdloan.creator)
    ⟨storage, crowdloan.raised, [], 0⟩
  let contributorsCount ← orError .underflow
    (crowdloan.contributorsCount.checkedSub refunds.refundCount)
  return (refunds.storage.insertCrowdloan crowdloanId
    { crowdloan with
      raised := refunds.raised
      contributorsCount := contributorsCount }).setContributions crowdloanId
        (refunds.refundedContributors.foldl (fun contributions who => contributions.erase who)
          (storage.contributions crowdloanId))

def dissolve (storage : Storage A C) (who : A) (crowdloanId : CrowdloanId) :
    Except Error (Storage A C) := do
  let crowdloan ← storage.ensureCrowdloanExists crowdloanId
  ensure (crowdloan.finalized = false) .alreadyFinalized
  ensure (who = crowdloan.creator) .invalidOrigin
  let contributions := storage.contributions crowdloanId
  let creatorContribution ← orError .noContribution (contributions.lookup crowdloan.creator)
  ensure (creatorContribution = crowdloan.raised) .notReadyToDissolve
  let storage ← storage.transfer crowdloan.fundsAccount (.user crowdloan.creator)
    creatorContribution
  let storage := storage.setContributions crowdloanId (contributions.erase crowdloan.creator)
  return { storage with crowdloans := Function.update storage.crowdloans crowdloanId none }

/-- The checks and the write that the three updates share. -/
def updateCrowdloan (storage : Storage A C) (who : A) (crowdloanId : CrowdloanId)
    (check : CrowdloanInfo A C → Except Error Unit)
    (change : CrowdloanInfo A C → CrowdloanInfo A C) : Except Error (Storage A C) := do
  let crowdloan ← storage.ensureCrowdloanExists crowdloanId
  ensure (crowdloan.finalized = false) .alreadyFinalized
  ensure (who = crowdloan.creator) .invalidOrigin
  check crowdloan
  return storage.insertCrowdloan crowdloanId (change crowdloan)

def updateMinContribution (cfg : Config) (storage : Storage A C) (who : A)
    (crowdloanId : CrowdloanId) (newMinContribution : U64) : Except Error (Storage A C) :=
  updateCrowdloan storage who crowdloanId
    (fun _ => ensure (cfg.absoluteMinimumContribution.val ≤ newMinContribution.val)
      .minimumContributionTooLow)
    fun crowdloan => { crowdloan with minContribution := newMinContribution }

def updateEnd (cfg : Config) (now : BlockNumber) (storage : Storage A C) (who : A)
    (crowdloanId : CrowdloanId) (newEnd : BlockNumber) : Except Error (Storage A C) :=
  updateCrowdloan storage who crowdloanId (fun _ => ensureValidEnd cfg now newEnd)
    fun crowdloan => { crowdloan with endBlock := newEnd }

def updateCap (storage : Storage A C) (who : A) (crowdloanId : CrowdloanId) (newCap : U64) :
    Except Error (Storage A C) :=
  updateCrowdloan storage who crowdloanId
    (fun crowdloan => ensure (crowdloan.raised.val ≤ newCap.val) .capTooLow)
    fun crowdloan => { crowdloan with cap := newCap }

/-! ## The calls but `finalize` as one type -/

/-- A call other than `finalize`, with its signer. -/
inductive Call (A C : Type) where
  | create (creator : A) (deposit minContribution cap : U64) (endBlock : BlockNumber)
      (call : Option C) (targetAddress : Option (Account A))
  | contribute (contributor : A) (id : CrowdloanId) (amount : U64)
  | withdraw (who : A) (id : CrowdloanId)
  | refund (id : CrowdloanId)
  | dissolve (who : A) (id : CrowdloanId)
  | updateMinContribution (who : A) (id : CrowdloanId) (newMinContribution : U64)
  | updateEnd (who : A) (id : CrowdloanId) (newEnd : BlockNumber)
  | updateCap (who : A) (id : CrowdloanId) (newCap : U64)

def runCall (cfg : Config) (now : BlockNumber) (storage : Storage A C) :
    Call A C → Except Error (Storage A C)
  | .create creator deposit minContribution cap endBlock call targetAddress =>
      create cfg now storage creator deposit minContribution cap endBlock call targetAddress
  | .contribute contributor id amount => contribute cfg now storage contributor id amount
  | .withdraw who id => withdraw storage who id
  | .refund id => refund cfg now storage id
  | .dissolve who id => dissolve storage who id
  | .updateMinContribution who id newMinContribution =>
      updateMinContribution cfg storage who id newMinContribution
  | .updateEnd who id newEnd => updateEnd cfg now storage who id newEnd
  | .updateCap who id newCap => updateCap storage who id newCap

/-- What happens outside of the pallet: users have other balances, funds
accounts receive, and the crowdloan that is finalized may be spent from. -/
structure External (A : Type) where
  users : A → ℕ
  received : CrowdloanId → ℕ
  spent : ℕ

def runExternal (storage : Storage A C) (effect : External A) : Storage A C :=
  { storage with balances := { storage.balances with
      free := fun account => match account with
        | .user who => effect.users who
        | .funds id => storage.free (.funds id) + effect.received id -
            if storage.currentCrowdloanId = some id then effect.spent else 0 } }

end Subtensor.Crowdloan
