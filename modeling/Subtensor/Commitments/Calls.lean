import Subtensor.Lib.Balances
import Subtensor.Lib.StorageMap
import Subtensor.Pallet.Types

/-!
# The commitments pallet

`set_commitment` and the pass over timelocked commitments at the start of a
block (`pallets/commitments/src/lib.rs`). The decryption of a timelock is code
of another library: it is given by three partial functions. `TimelockedIndex`
is a set of keys with the order in which it is iterated over.
-/

namespace Subtensor.Commitments

open Lib

/-! ## Data -/

abbrev U8 := Word 8

abbrev BoundedVec (α : Type) (bound : ℕ) := {l : List α // l.length ≤ bound}

/-- `[u8; 32]`. -/
abbrev Hash := {l : List U8 // l.length = 32}

inductive Data where
  | none
  | raw (bytes : BoundedVec U8 128)
  | blakeTwo256 (hash : Hash)
  | sha256 (hash : Hash)
  | keccak256 (hash : Hash)
  | shaThree256 (hash : Hash)
  | timelockEncrypted (encrypted : BoundedVec U8 1024) (revealRound : U64)
  | resetBondsFlag
  | bigRaw (bytes : BoundedVec U8 512)
deriving DecidableEq

namespace Data

def isTimelockEncrypted : Data → Bool
  | .timelockEncrypted .. => true
  | _ => false

def lenForRateLimit : Data → ℕ
  | .none => 0
  | .raw bytes => bytes.val.length
  | .blakeTwo256 hash | .sha256 hash | .keccak256 hash | .shaThree256 hash => hash.val.length
  | .timelockEncrypted encrypted _ => encrypted.val.length
  | .resetBondsFlag => 0
  | .bigRaw bytes => bytes.val.length

end Data

structure CommitmentInfo (maxFields : ℕ) where
  fields : BoundedVec Data maxFields

structure Registration (maxFields : ℕ) where
  deposit : U64
  block : U64
  info : CommitmentInfo maxFields

structure UsageTracker where
  lastEpoch : U64
  usedSpace : U64

inductive Error where
  | tooManyFieldsInCommitmentInfo
  | accountNotAllowedCommit
  | spaceLimitExceeded
  | unexpectedUnreserveLeftover
  /-- The currency has not enough free balance to reserve. -/
  | insufficientBalance
deriving DecidableEq

/-! ## Storage -/

structure Storage (A : Type) (maxFields : ℕ) where
  balances : Balances A
  timelockedIndex : StorageMap (NetUid × A) Unit
  commitmentOf : StorageMap (NetUid × A) (Registration maxFields)
  lastCommitment : NetUid × A → Option U64
  lastBondsReset : NetUid × A → Option U64
  revealedCommitments : NetUid × A → Option (List (List U8 × U64))
  usedSpaceOf : NetUid × A → Option UsageTracker
  maxSpace : U32

structure Config where
  maxFields : U32
  initialDeposit : U64
  fieldDeposit : U64

/-- What a call reads from other pallets: who may commit, and the index of the
epoch of a subnet in a block. -/
structure Env (A : Type) where
  block : U64
  canCommit : NetUid → A → Bool
  getEpochIndex : NetUid → U64 → U64

/-- A signature of the beacon, a ciphertext, and the decryption of one by the
other. -/
structure Timelock where
  Signature : Type
  Ciphertext : Type
  signature : List U8 → Option Signature
  ciphertext : List U8 → Option Ciphertext
  decrypt : Ciphertext → Signature → Option (List U8)

/-- `Pulses`: the signatures of the rounds that are known. -/
abbrev Pulses := U64 → Option (BoundedVec U8 144)

variable {A : Type} [DecidableEq A] {cfg : Config}

abbrev Config.Storage (cfg : Config) (A : Type) := Commitments.Storage A cfg.maxFields.val

/-- A chain on which nothing is committed yet. -/
def Storage.genesis (cfg : Config) (free : A → ℕ) (maxSpace : U32) : cfg.Storage A where
  balances := ⟨free, ∅⟩
  timelockedIndex := ∅
  commitmentOf := ∅
  lastCommitment := fun _ => none
  lastBondsReset := fun _ => none
  revealedCommitments := fun _ => none
  usedSpaceOf := fun _ => none
  maxSpace := maxSpace

/-! ## Setting a commitment -/

def requiredSpace {n : ℕ} (info : CommitmentInfo n) : U64 :=
  .wrap (max (info.fields.val.map Data.lenForRateLimit).sum 100)

/-- The usage of an account, in the current epoch. -/
def currentUsage (env : Env A) (storage : cfg.Storage A) (netuid : NetUid) (who : A) :
    UsageTracker :=
  let usage := (storage.usedSpaceOf (netuid, who)).getD ⟨0, 0⟩
  let currentEpoch := env.getEpochIndex netuid env.block
  if usage.lastEpoch ≠ currentEpoch then ⟨currentEpoch, 0⟩ else usage

/-- `InitialDeposit` and `FieldDeposit` for every field. -/
def depositFor (cfg : Config) (fields : ℕ) : U64 :=
  cfg.initialDeposit.satAdd (.sat (fields * cfg.fieldDeposit.val))

/-- The deposit of the commitment that is stored for a key. -/
def storedDeposit (storage : cfg.Storage A) (key : NetUid × A) : U64 :=
  (storage.commitmentOf.lookup key).elim 0 Registration.deposit

/-- The reserve follows the deposit. -/
def adjustDeposit (balances : Balances A) (who : A) (oldDeposit deposit : U64) :
    Except Error (Balances A) :=
  if oldDeposit.val < deposit.val then
    match balances.reserve who (deposit.satSub oldDeposit).val with
    | none => .error .insufficientBalance
    | some balances => .ok balances
  else if deposit.val < oldDeposit.val then
    let amount := (oldDeposit.satSub deposit).val
    if balances.released who amount ≠ amount then .error .unexpectedUnreserveLeftover
    else .ok (balances.release who amount)
  else .ok balances

def setCommitment (env : Env A) (storage : cfg.Storage A) (who : A) (netuid : NetUid)
    (info : CommitmentInfo cfg.maxFields.val) : Except Error (cfg.Storage A) :=
  let key := (netuid, who)
  let extraFields := info.fields.val.length
  if ¬env.canCommit netuid who then .error .accountNotAllowedCommit
  else if ¬extraFields ≤ cfg.maxFields.val then .error .tooManyFieldsInCommitmentInfo
  else
    let usage := currentUsage env storage netuid who
    let usedSpace := usage.usedSpace.satAdd (requiredSpace info)
    if ¬usedSpace.val ≤ storage.maxSpace.val then .error .spaceLimitExceeded
    else
      let deposit := depositFor cfg extraFields
      match adjustDeposit storage.balances who (storedDeposit storage key) deposit with
      | .error e => .error e
      | .ok balances => .ok { storage with
          balances := balances
          commitmentOf := storage.commitmentOf.insert key ⟨deposit, env.block, info⟩
          lastCommitment := Function.update storage.lastCommitment key (some env.block)
          lastBondsReset :=
            if info.fields.val.any (· = .resetBondsFlag) then
              Function.update storage.lastBondsReset key (some env.block)
            else storage.lastBondsReset
          usedSpaceOf := Function.update storage.usedSpaceOf key
            (some ⟨usage.lastEpoch, usedSpace⟩)
          timelockedIndex :=
            if info.fields.val.any Data.isTimelockEncrypted then
              storage.timelockedIndex.insert key ()
            else storage.timelockedIndex.erase key }

/-! ## Revealing timelocked commitments -/

/-- `strip_prefix(b"0x")`. -/
def stripHexMarker : List U8 → List U8
  | zero :: x :: rest => if zero.val = 48 ∧ x.val = 120 then rest else zero :: x :: rest
  | bytes => bytes

/-- What becomes of a field: it stays, it is revealed, or it is dropped. -/
inductive FieldOutcome where
  | remain (data : Data)
  | revealed (bytes : List U8)
  | dropped

/-- The bytes of a timelocked field; an empty decryption counts as none. -/
def decryptField (timelock : Timelock) (encrypted : List U8) (signatureBytes : List U8) :
    Option (List U8) := do
  let sig ← timelock.signature (stripHexMarker signatureBytes)
  let commit ← timelock.ciphertext encrypted
  let decryptedBytes := (timelock.decrypt commit sig).getD []
  if decryptedBytes.isEmpty then none else some decryptedBytes

def revealField (timelock : Timelock) (pulses : Pulses) : Data → FieldOutcome
  | .timelockEncrypted encrypted revealRound =>
      match pulses revealRound with
      | none => .remain (.timelockEncrypted encrypted revealRound)
      | some pulse =>
          match decryptField timelock encrypted.val pulse.val with
          | none => .dropped
          | some bytes => .revealed bytes
  | data => .remain data

def FieldOutcome.remaining : FieldOutcome → Option Data
  | .remain data => some data
  | _ => none

def FieldOutcome.revelation : FieldOutcome → Option (List U8)
  | .revealed bytes => some bytes
  | _ => none

/-- The fields that stay. There are no more of them than there were. -/
def remainFields {n : ℕ} (timelock : Timelock) (pulses : Pulses) (info : CommitmentInfo n) :
    CommitmentInfo n where
  fields := ⟨info.fields.val.filterMap fun data => (revealField timelock pulses data).remaining,
    (List.length_filterMap_le _ _).trans info.fields.property⟩

def revealedFields {n : ℕ} (timelock : Timelock) (pulses : Pulses) (info : CommitmentInfo n) :
    List (List U8) :=
  info.fields.val.filterMap fun data => (revealField timelock pulses data).revelation

/-- The reveals of an account, of which the last ten are kept. -/
def pushReveals (existing : Option (List (List U8 × U64))) (revealed : List (List U8))
    (block : U64) : Option (List (List U8 × U64)) :=
  if revealed.isEmpty then existing
  else
    let reveals := existing.getD [] ++ revealed.map fun bytes => (bytes, block)
    some (reveals.drop (reveals.length - 10))

/-- One iteration over the index. -/
def revealCommitment (timelock : Timelock) (pulses : Pulses) (block : U64)
    (storage : cfg.Storage A) (key : NetUid × A) : cfg.Storage A :=
  match storage.commitmentOf.lookup key with
  | none => { storage with timelockedIndex := storage.timelockedIndex.erase key }
  | some registration =>
      let info := remainFields timelock pulses registration.info
      let storage := { storage with
        revealedCommitments := Function.update storage.revealedCommitments key
          (pushReveals (storage.revealedCommitments key)
            (revealedFields timelock pulses registration.info) block) }
      if info.fields.val.isEmpty then
        { storage with
          commitmentOf := storage.commitmentOf.erase key
          timelockedIndex := storage.timelockedIndex.erase key }
      else
        { storage with
          commitmentOf := storage.commitmentOf.insert key { registration with info := info }
          timelockedIndex :=
            if info.fields.val.any Data.isTimelockEncrypted then storage.timelockedIndex
            else storage.timelockedIndex.erase key }

def revealTimelockedCommitments (timelock : Timelock) (pulses : Pulses) (block : U64)
    (storage : cfg.Storage A) : cfg.Storage A :=
  storage.timelockedIndex.keys.foldl (revealCommitment timelock pulses block) storage

/-! ## Runs -/

/-- A call of the pallet, its pass at the start of a block, or what other
pallets do to the free balances in between. -/
inductive Step (cfg : Config) (A : Type) where
  | setCommitment (env : Env A) (who : A) (netuid : NetUid)
      (info : CommitmentInfo cfg.maxFields.val)
  | revealTimelockedCommitments (pulses : Pulses) (block : U64)
  | setMaxSpace (newLimit : U32)
  | external (free : A → ℕ)

/-- A call that fails leaves the storage as it was. -/
def apply (timelock : Timelock) (storage : cfg.Storage A) : Step cfg A → cfg.Storage A
  | .setCommitment env who netuid info =>
      match setCommitment env storage who netuid info with
      | .error _ => storage
      | .ok storage => storage
  | .revealTimelockedCommitments pulses block =>
      revealTimelockedCommitments timelock pulses block storage
  | .setMaxSpace newLimit => { storage with maxSpace := newLimit }
  | .external free => { storage with balances := { storage.balances with free := free } }

def run (timelock : Timelock) (storage : cfg.Storage A) (steps : List (Step cfg A)) :
    cfg.Storage A :=
  steps.foldl (apply timelock) storage

end Subtensor.Commitments
