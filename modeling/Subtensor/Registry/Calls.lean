import Subtensor.Commitments.Calls

/-!
# The registry of identities

`set_identity` and `clear_identity` (`pallets/registry/src/lib.rs`). The
deposit is held from the signer, the identity is stored under the account that
is identified.
-/

namespace Subtensor.Registry

open Lib
open Commitments (U8 BoundedVec Hash)

inductive Data where
  | none
  | raw (bytes : BoundedVec U8 64)
  | blakeTwo256 (hash : Hash)
  | sha256 (hash : Hash)
  | keccak256 (hash : Hash)
  | shaThree256 (hash : Hash)
deriving DecidableEq

structure IdentityInfo (maxFields : ℕ) where
  additional : BoundedVec (Data × Data) maxFields
  display : Data
  legal : Data
  web : Data
  riot : Data
  email : Data
  pgpFingerprint : Option {l : List U8 // l.length = 20}
  image : Data
  twitter : Data

structure Registration (maxFields : ℕ) where
  deposit : U64
  info : IdentityInfo maxFields

namespace Registration

def totalDeposit {maxFields : ℕ} (registration : Registration maxFields) : U64 :=
  registration.deposit

end Registration

inductive Error where
  | cannotRegister
  | tooManyFieldsInIdentityInfo
  | notRegistered
  /-- The currency has not enough free balance to hold. -/
  | fundsUnavailable
deriving DecidableEq

structure Config where
  maxAdditionalFields : U32
  initialDeposit : U64
  fieldDeposit : U64

/-- `IdentityOf`, and what is held for the pallet. -/
structure Storage (A : Type) (maxFields : ℕ) where
  balances : Balances A
  identityOf : StorageMap A (Registration maxFields)

abbrev Config.Storage (cfg : Config) (A : Type) := Registry.Storage A cfg.maxAdditionalFields.val

variable {A : Type} [DecidableEq A] {cfg : Config}

/-- A chain without identities. -/
def Storage.genesis (cfg : Config) (free : A → ℕ) : cfg.Storage A := ⟨⟨free, ∅⟩, ∅⟩

/-! ## Calls -/

/-- `InitialDeposit` and `FieldDeposit` for every additional field. -/
def depositFor (cfg : Config) (extraFields : ℕ) : U64 :=
  cfg.initialDeposit.satAdd (.sat (extraFields * cfg.fieldDeposit.val))

def oldDeposit (storage : cfg.Storage A) (identified : A) : U64 :=
  (storage.identityOf.lookup identified).elim 0 Registration.deposit

/-- The hold on the signer follows the deposit. A release is best effort. -/
def adjustHold (balances : Balances A) (who : A) (oldDeposit deposit : U64) :
    Except Error (Balances A) :=
  if oldDeposit.val < deposit.val then
    match balances.reserve who (deposit.satSub oldDeposit).val with
    | none => .error .fundsUnavailable
    | some balances => .ok balances
  else if deposit.val < oldDeposit.val then
    .ok (balances.release who (oldDeposit.satSub deposit).val)
  else .ok balances

def setIdentity (canRegister : A → A → Bool) (storage : cfg.Storage A) (who identified : A)
    (info : IdentityInfo cfg.maxAdditionalFields.val) : Except Error (cfg.Storage A) :=
  let extraFields := info.additional.val.length
  if ¬canRegister who identified then .error .cannotRegister
  else if ¬extraFields ≤ cfg.maxAdditionalFields.val then .error .tooManyFieldsInIdentityInfo
  else
    let deposit := depositFor cfg extraFields
    match adjustHold storage.balances who (oldDeposit storage identified) deposit with
    | .error e => .error e
    | .ok balances => .ok {
        balances := balances
        identityOf := storage.identityOf.insert identified ⟨deposit, info⟩ }

/-- Nothing is asked of the signer. -/
def clearIdentity (storage : cfg.Storage A) (who identified : A) :
    Except Error (cfg.Storage A) :=
  match storage.identityOf.lookup identified with
  | none => .error .notRegistered
  | some id => .ok {
      balances := storage.balances.release who id.totalDeposit.val
      identityOf := storage.identityOf.erase identified }

/-! ## Runs -/

/-- A call, or what other pallets do to the free balances in between. Who can
register whom is up to another pallet and may change. -/
inductive Step (cfg : Config) (A : Type) where
  | setIdentity (canRegister : A → A → Bool) (who identified : A)
      (info : IdentityInfo cfg.maxAdditionalFields.val)
  | clearIdentity (canRegister : A → A → Bool) (who identified : A)
  | external (free : A → ℕ)

/-- A call that fails leaves the storage as it was. -/
def apply (storage : cfg.Storage A) : Step cfg A → cfg.Storage A
  | .setIdentity canRegister who identified info =>
      match setIdentity canRegister storage who identified info with
      | .error _ => storage
      | .ok storage => storage
  | .clearIdentity _ who identified =>
      match clearIdentity storage who identified with
      | .error _ => storage
      | .ok storage => storage
  | .external free => { storage with balances := { storage.balances with free := free } }

end Subtensor.Registry
