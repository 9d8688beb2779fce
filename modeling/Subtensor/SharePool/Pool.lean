import Subtensor.Lib.FixedPoint

/-!
# The share pool

A value that is shared between keys in proportion to their shares
(`primitives/share-pool/src/lib.rs`). Where the shared value, the shares and
their total are stored is left to the data operations.
-/

namespace Subtensor.SharePool

open Lib

/-- The trait through which a pool reads and writes its storage. -/
structure SharePoolDataOperations (S K : Type) where
  getSharedValue : S → U64F64
  getShare : S → K → U64F64
  tryGetShare : S → K → Option U64F64
  getDenominator : S → U64F64
  setSharedValue : S → U64F64 → S
  setShare : S → K → U64F64 → S
  setDenominator : S → U64F64 → S

/-! ## Arithmetic -/

/-- The value of some shares: they are multiplied by the value of one share,
unless that value overflows. -/
@[irreducible] def valueFromShares (sharedValue denominator currentShare : U64F64) : U64 :=
  (match sharedValue.checkedDiv denominator with
    | some valuePerShare => valuePerShare.satMul currentShare
    | none => ((sharedValue.satMul currentShare).checkedDiv denominator).getD 0).toWord 64

/-- The number of shares that an update of the value is worth. -/
@[irreducible] def getSharesPerUpdate (update : I64) (sharedValue denominator : U64F64) :
    I64F64 :=
  match sharedValue.checkedDiv denominator with
  | some valuePerShare =>
      ((IFixed.ofInt update.val).checkedDiv (IFixed.ofUFixed valuePerShare)).getD 0
  | none =>
      (((IFixed.ofInt update.val).checkedDiv (IFixed.ofUFixed sharedValue)).getD 0).satMul
        (IFixed.ofUFixed denominator)

/-- The `f64` constant `0.00001`, to the nearest number of the format. -/
def minShareRemainder : U64F64 := ⟨184467440737096, by norm_num⟩

/-- A year worth of emissions. -/
def yearOfEmissions : U64F64 := .ofNat 2628000000000000

/-- Too little of the share would remain, or the total of the shares would
become too small for the shared value. -/
@[irreducible] def breaksPrecision (sharedValue currentShare newShare newDenominator : U64F64) :
    Bool :=
  (newShare.safeDiv currentShare).bits < minShareRemainder.bits ||
    ((sharedValue.satAdd yearOfEmissions).checkedDiv newDenominator).isNone

/-- The shared value after an update. -/
@[irreducible] def addUpdate (sharedValue : U64F64) (update : I64) : U64F64 :=
  if 0 ≤ update.val then sharedValue.satAdd (.ofNat update.val.toNat)
  else sharedValue.satSub (.ofNat update.neg.val.toNat)

/-! ## Operations -/

section

variable {S K : Type} (ops : SharePoolDataOperations S K)

def getValue (s : S) (key : K) : U64 :=
  valueFromShares (ops.getSharedValue s) (ops.getDenominator s) (ops.getShare s key)

def tryGetValue (s : S) (key : K) : Option U64 :=
  (ops.tryGetShare s key).map fun _ => getValue ops s key

/-- Every key's value changes with the shared value. -/
def updateValueForAll (s : S) (update : I64) : S :=
  ops.setSharedValue s (addUpdate (ops.getSharedValue s) update)

def simUpdateValueForOne (s : S) (update : I64) : Bool :=
  if (ops.getDenominator s).bits = 0 then true
  else decide
    ((getSharesPerUpdate update (ops.getSharedValue s) (ops.getDenominator s)).bits ≠ 0)

/-- The new denominator and share of a key, and the update that takes place. -/
structure ShareUpdate where
  denominator : U64F64
  share : U64F64
  actualUpdate : I64

/-- How `update_value_for_one` changes the shares. -/
def shareUpdate (sharedValue denominator currentShare : U64F64) (update : I64) : ShareUpdate :=
  if denominator.bits = 0 then
    -- the first key gets all
    ⟨.ofNat update.val.toNat, .ofNat update.val.toNat, update⟩
  else
    let sharesPerUpdate := getSharesPerUpdate update sharedValue denominator
    if 0 ≤ sharesPerUpdate.bits then
      ⟨denominator.satAdd sharesPerUpdate.toUFixed, currentShare.satAdd sharesPerUpdate.toUFixed,
        update⟩
    else
      let newDenominator := denominator.satSub sharesPerUpdate.neg.toUFixed
      let newShare := currentShare.satSub sharesPerUpdate.neg.toUFixed
      if breaksPrecision sharedValue currentShare newShare newDenominator then
        -- precision is low, the whole share is removed
        ⟨denominator.satSub currentShare, 0,
          (valueFromShares sharedValue denominator currentShare).asI64.neg⟩
      else ⟨newDenominator, newShare, update⟩

/-- The pool after an update of one key's value, and the actual update. -/
def updateValueForOne (s : S) (key : K) (update : I64) : S × I64 :=
  let u := shareUpdate (ops.getSharedValue s) (ops.getDenominator s) (ops.getShare s key) update
  let s := ops.setShare (ops.setDenominator s u.denominator) key u.share
  (updateValueForAll ops s u.actualUpdate, u.actualUpdate)

end

end Subtensor.SharePool
