import Subtensor.Lib.Dispatch
import Subtensor.Weights.Crv3

/-!
# Batches of weights

`do_set_weights` and `do_commit_weights` as programs over storage, in the order in which the
source checks, reads and writes, and the three loops that swallow their errors:
`do_batch_set_weights`, `do_batch_commit_weights` (`subnets/weights.rs`) and the loop of
`reveal_crv3_commits` (`coinbase/run_coinbase.rs`). No outer rollback protects these loops.
-/

namespace Subtensor.WeightCall

open Lib Dispatch

/-! ## Storage -/

inductive DispatchError where
  | badOrigin
  | inputLengthsUnequal
  | commitRevealEnabled
  | module (e : Error)
deriving DecidableEq

inductive Event (A H : Type) where
  | weightsSet (netuid : NetUid) (neuronUid : U16)
  | weightsCommitted (who : A) (netuid : NetUid) (commitHash : H)
  | crv3WeightsRevealed (netuid : NetUid) (who : A)
  | batchCompletedWithErrors
  | batchWeightItemFailed (e : DispatchError)
  | batchWeightsCompleted (netuids : List NetUid) (who : A)

/-- The storage of the pallet, and the events that were deposited. -/
structure Storage (A B P H : Type) where
  net : Network A B P H
  events : List (Event A H)

/-- A call: it may fail, and what it has written by then stays written. -/
abbrev Call (A B P H α : Type) := EStateM DispatchError (Storage A B P H) α

variable {A B P H : Type}

def depositEvent (event : Event A H) : Call A B P H Unit :=
  modify fun storage => { storage with events := storage.events ++ [event] }

def modifyNet (f : Network A B P H → Network A B P H) : Call A B P H Unit :=
  modify fun storage => { storage with net := f storage.net }

def readNet : Call A B P H (Network A B P H) := do return (← get).net

/-- `ensure!` of something that is read off the storage. -/
def check (p : Network A B P H → Bool) (e : Error) : Call A B P H Unit := do
  ensure (p (← readNet) = true) (.module e)

/-- `ensure_signed`; an origin that is not signed is `none`. -/
def ensureSigned (origin : Option A) : Call A B P H A := orError .badOrigin origin

def getUidForNetAndHotkey (netuid : NetUid) (hotkey : A) : Call A B P H U16 := do
  orError (.module .hotKeyNotRegisteredInSubNet) (((← readNet).chain.neurons netuid).uids hotkey)

def getCommitRevealWeightsEnabled (net : Network A B P H) (netuid : NetUid) : Bool :=
  (net.weights netuid).commitRevealWeightsEnabled

def setLastUpdateForUid (netuid : NetUid) (uid : U16) (block : U64) : Call A B P H Unit :=
  modifyNet fun net => net.withChain (net.chain.setLastUpdateForUid netuid uid block)

variable [DecidableEq A]

/-! ## One item -/

/-- The check of the rate is made only while commits are disabled. -/
def checkSettingRate (netuid : NetUid) (neuronUid : U16) (currentBlock : U64) :
    Call A B P H Unit := do
  unless getCommitRevealWeightsEnabled (← readNet) netuid do
    check (fun net => net.checkRateLimit netuid neuronUid currentBlock) .settingWeightsTooFast

/-- `Weights::insert`. -/
def insertWeights (netuid : NetUid) (neuronUid : U16) (zippedWeights : List (U16 × U16)) :
    Call A B P H Unit :=
  modifyNet fun net => net.withWeights netuid
    { net.weights netuid with
      weights := Function.update (net.weights netuid).weights neuronUid zippedWeights }

def doSetWeights (origin : Option A) (netuid : NetUid) (uids values : List U16)
    (versionKey : U64) : Call A B P H Unit := do
  let hotkey ← ensureSigned origin
  check (fun _ => !netuid.isRoot) .canNotSetRootNetworkWeights
  check (fun _ => uids.length = values.length) .weightVecNotEqualSize
  check (fun net => net.chain.ifSubnetExist netuid) .subNetworkDoesNotExist
  check (fun net => net.chain.checkLenUidsWithinAllowed netuid uids) .uidsLengthExceedUidsInSubNet
  check (fun net => net.chain.isHotkeyRegisteredOnNetwork netuid hotkey)
    .hotKeyNotRegisteredInSubNet
  check (fun net => net.chain.checkWeightsMinStake hotkey netuid) .notEnoughStakeToSetWeights
  check (fun net => net.checkVersionKey netuid versionKey) .incorrectWeightVersionKey
  let neuronUid ← getUidForNetAndHotkey netuid hotkey
  let currentBlock := (← readNet).chain.block
  checkSettingRate netuid neuronUid currentBlock
  check (fun net => net.chain.checkValidatorPermit netuid neuronUid uids values)
    .neuronNoValidatorPermit
  check (fun _ => !hasDuplicateUids [] uids) .duplicateUids
  check (fun net => !net.chain.containsInvalidUids netuid uids) .uidVecContainInvalidOne
  check (fun net => net.checkLength netuid neuronUid uids values) .weightVecLengthIsLow
  let maxUpscaledWeights := vecU16MaxUpscaleToU16 values
  check (fun net => net.maxWeightLimited netuid neuronUid uids maxUpscaledWeights)
    .maxWeightExceeded
  insertWeights netuid neuronUid (uids.zip maxUpscaledWeights)
  unless getCommitRevealWeightsEnabled (← readNet) netuid do
    setLastUpdateForUid netuid neuronUid currentBlock
  depositEvent (.weightsSet netuid neuronUid)

/-- The program that `try_mutate` runs on the queue: the expired commits are popped off a copy of
it, which is lost if there are too many left. -/
def pushCommit (who : A) (netuid : NetUid) (neuronUid : U16) (commitBlock : U64) (commitHash : H)
    (revealBlocks : U64 × U64) (maybeCommits : Option (List (WeightCommit H))) :
    Call A B P H (Unit × Option (List (WeightCommit H))) := do
  let commits := (← readNet).dropExpired netuid (maybeCommits.getD [])
  ensure (commits.length < 10) (.module .tooManyUnrevealedCommits)
  depositEvent (.weightsCommitted who netuid commitHash)
  setLastUpdateForUid netuid neuronUid commitBlock
  return ((), some (commits ++ [⟨commitHash, commitBlock, revealBlocks.1, revealBlocks.2⟩]))

def doCommitWeights (origin : Option A) (netuid : NetUid) (commitHash : H) :
    Call A B P H Unit := do
  let who ← ensureSigned origin
  check (fun net => getCommitRevealWeightsEnabled net netuid) .commitRevealDisabled
  check (fun net => net.chain.isHotkeyRegisteredOnNetwork netuid who) .hotKeyNotRegisteredInSubNet
  let commitBlock := (← readNet).chain.block
  let neuronUid ← getUidForNetAndHotkey netuid who
  check (fun net => net.checkRateLimit netuid neuronUid commitBlock) .committingWeightsTooFast
  let revealBlocks := (← readNet).getRevealBlocks netuid commitBlock
  tryMutate (fun storage => (storage.net.weights netuid).weightCommits who)
    (fun commits storage => { storage with net := storage.net.setCommits netuid who commits })
    (pushCommit who netuid neuronUid commitBlock commitHash revealBlocks)

/-! ## Batches -/

/-- One result of a batch: the first failure is announced, and each of them is reported. -/
def reportResult (completedWithErrors : Bool) (result : Except DispatchError Unit) :
    Call A B P H Bool :=
  match result with
  | .ok () => return completedWithErrors
  | .error e => do
      unless completedWithErrors do depositEvent .batchCompletedWithErrors
      depositEvent (.batchWeightItemFailed e)
      return true

def reportBatch (netuids : List NetUid) (who : A) (results : List (Except DispatchError Unit)) :
    Call A B P H Unit := do
  let _ ← results.foldlM reportResult false
  depositEvent (.batchWeightsCompleted netuids who)

/-- An item of `do_batch_set_weights`. -/
def setWeightsItem (origin : Option A) (item : (NetUid × List (U16 × U16)) × U64) :
    Call A B P H Unit := do
  if getCommitRevealWeightsEnabled (← readNet) item.1.1 then throw .commitRevealEnabled
  doSetWeights origin item.1.1 (item.1.2.map (·.1)) (item.1.2.map (·.2)) item.2

def doBatchSetWeights (origin : Option A) (netuids : List NetUid)
    (weights : List (List (U16 × U16))) (versionKeys : List U64) : Call A B P H Unit := do
  let hotkey ← ensureSigned origin
  ensure (netuids.length = weights.length ∧ netuids.length = versionKeys.length)
    .inputLengthsUnequal
  let results ← ((netuids.zip weights).zip versionKeys).mapM fun item =>
    attempt (setWeightsItem origin item)
  reportBatch netuids hotkey results

def doBatchCommitWeights (origin : Option A) (netuids : List NetUid) (commitHashes : List H) :
    Call A B P H Unit := do
  let hotkey ← ensureSigned origin
  ensure (netuids.length = commitHashes.length) .inputLengthsUnequal
  let results ← (netuids.zip commitHashes).mapM fun item =>
    attempt (doCommitWeights origin item.1 item.2)
  reportBatch netuids hotkey results

/-! ## Reveals -/

/-- Timelock encryption, as `reveal_crv3_commits` uses it. -/
structure Tlock (Ciphertext Signature : Type) where
  deserializeCommit : List UInt8 → Option Ciphertext
  deserializeSignature : List UInt8 → Option Signature
  decrypt : Ciphertext → Signature → Option (List UInt8)
  decodePayload : List UInt8 → Option WeightsTlockPayload

/-- `strip_prefix(b"0x")`, or the whole signature. -/
def stripPrefix0x (signature : List UInt8) : List UInt8 :=
  (List.dropPrefix? signature [48, 120]).getD signature

/-- What a commit says, if its round has a pulse and nothing fails on the way. -/
def Tlock.openCommit {Ciphertext Signature : Type} (tlock : Tlock Ciphertext Signature)
    (pulses : U64 → Option (List UInt8)) (entry : Crv3Commit A) : Option WeightsTlockPayload := do
  let commit ← tlock.deserializeCommit entry.commit
  let signature ← pulses entry.revealRound
  let signature ← tlock.deserializeSignature (stripPrefix0x signature)
  let decryptedBytes ← tlock.decrypt commit signature
  tlock.decodePayload decryptedBytes

/-- The call of an entry; one that is not opened calls nothing. -/
def revealItem (openCommit : Crv3Commit A → Option WeightsTlockPayload) (netuid : NetUid)
    (entry : Crv3Commit A) : Call A B P H Unit :=
  match openCommit entry with
  | none => pure ()
  | some payload =>
      doSetWeights (some entry.who) netuid payload.uids payload.values payload.versionKey

/-- One turn of the loop. -/
def revealEntry (openCommit : Crv3Commit A → Option WeightsTlockPayload) (netuid : NetUid)
    (entry : Crv3Commit A) : Call A B P H Unit :=
  match openCommit entry with
  | none => pure ()
  | some payload => do
      let result ← attempt
        (doSetWeights (some entry.who) netuid payload.uids payload.values payload.versionKey)
      match result with
      | .error _ => pure ()
      | .ok () => depositEvent (.crv3WeightsRevealed netuid entry.who)

/-- The part of `reveal_crv3_commits` before the loop, with the entries that it takes out. -/
def takeEntries (netuid : NetUid) : Call A B P H (List (Crv3Commit A)) := do
  let net ← readNet
  let curEpoch := net.getEpochIndex netuid net.chain.block
  let revealEpoch := net.crv3RevealEpoch netuid
  modifyNet fun net => net.withCrv3 netuid (Network.cleanCrv3Commits revealEpoch)
  if curEpoch.val < 2 then return []
  let entries := (← readNet).crv3CommitsOf netuid revealEpoch
  modifyNet fun net => net.withCrv3 netuid (·.erase revealEpoch)
  return entries

def revealCrv3Commits (openCommit : Crv3Commit A → Option WeightsTlockPayload)
    (netuid : NetUid) : Call A B P H Unit := do
  let entries ← takeEntries netuid
  entries.forM (revealEntry openCommit netuid)

end Subtensor.WeightCall
