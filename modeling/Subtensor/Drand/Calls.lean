import Subtensor.Commitments.Calls
import Subtensor.Lib.Except

/-!
# The drand pallet

The two calls of the pallet (`pallets/drand/src/lib.rs`) that write to the
chain. Pulses come from workers that run beside the chain; anybody can send
them, and the verifier decides which ones are genuine. The verifier is a
parameter: `Verifier::verify` of the runtime checks a pairing, and can fail.
-/

namespace Subtensor.Drand

open Lib Commitments

abbrev RoundNumber := U64

abbrev BlockNumber := U32

abbrev OpaquePublicKey := BoundedVec U8 96

abbrev BoundedHash := BoundedVec U8 32

/-- `BoundedVec::truncate_from`. -/
def truncateFrom {α : Type} {bound : ℕ} (items : List α) : BoundedVec α bound :=
  ⟨items.take bound, List.length_take_le bound items⟩

def bytes (values : List ℕ) : List U8 := values.map .sat

structure Metadata where
  beaconId : BoundedHash

structure BeaconConfiguration where
  publicKey : OpaquePublicKey
  period : U32
  genesisTime : U32
  hash : BoundedHash
  groupHash : BoundedHash
  schemeId : BoundedHash
  metadata : Metadata

structure Pulse where
  round : RoundNumber
  randomness : BoundedVec U8 32
  signature : BoundedVec U8 144
deriving DecidableEq

/-- `Verifier::verify`; the error is a text that nobody reads. -/
abbrev Verifier := BeaconConfiguration → Pulse → Except Unit Bool

inductive Origin where
  | none
  | root
  | signed
deriving DecidableEq

inductive Error where
  | badOrigin
  | pulseVerificationError
  | invalidRoundNumber
deriving DecidableEq

/-! ## Storage -/

structure Storage where
  beaconConfig : BeaconConfiguration
  pulses : RoundNumber → Option Pulse
  lastStoredRound : RoundNumber
  nextUnsignedAt : BlockNumber

/-- `DefaultBeaconConfig`: the beacon of quicknet. -/
def defaultBeaconConfig : BeaconConfiguration where
  publicKey := truncateFrom (bytes
    [131, 207, 15, 40, 150, 173, 238, 126, 184, 181, 240, 31, 202, 211, 145, 34, 18,
      196, 55, 224, 7, 62, 145, 31, 185, 0, 34, 211, 231, 96, 24, 60, 140, 75, 69, 11,
      106, 10, 108, 58, 198, 165, 119, 106, 45, 16, 100, 81, 13, 31, 236, 117, 140, 146,
      28, 194, 43, 14, 23, 230, 58, 175, 75, 203, 94, 214, 99, 4, 222, 156, 248, 9, 189,
      39, 76, 167, 59, 171, 74, 245, 166, 233, 199, 106, 75, 192, 158, 118, 234, 232,
      153, 30, 245, 236, 228, 90])
  period := .sat 3
  genesisTime := .sat 1692803367
  hash := truncateFrom (bytes
    [82, 219, 155, 167, 14, 12, 192, 246, 234, 247, 128, 61, 208, 116, 71, 161, 245, 71,
      119, 53, 253, 63, 102, 23, 146, 186, 148, 96, 12, 132, 233, 113])
  groupHash := truncateFrom (bytes
    [244, 119, 213, 200, 159, 33, 161, 124, 134, 58, 127, 147, 124, 106, 109, 21, 133,
      148, 20, 210, 190, 9, 205, 68, 141, 66, 121, 175, 51, 28, 93, 62])
  schemeId := truncateFrom (bytes
    [98, 108, 115, 45, 117, 110, 99, 104, 97, 105, 110, 101, 100, 45, 103, 49, 45, 114,
      102, 99, 57, 51, 56, 48])
  metadata := ⟨truncateFrom (bytes [113, 117, 105, 99, 107, 110, 101, 116])⟩

def Storage.empty : Storage where
  beaconConfig := defaultBeaconConfig
  pulses := fun _ => none
  lastStoredRound := 0
  nextUnsignedAt := 0

/-! ## Calls -/

/-- The loop of `write_pulse`: the pulses that are stored, and the round that
was stored last. -/
def storePulses (verify : Verifier) (config : BeaconConfiguration) :
    List Pulse → (RoundNumber → Option Pulse) → RoundNumber →
      Except Error ((RoundNumber → Option Pulse) × RoundNumber)
  | [], pulses, lastStoredRound => .ok (pulses, lastStoredRound)
  | pulse :: rest, pulses, lastStoredRound =>
      match verify config pulse with
      | .error _ => .error .pulseVerificationError
      | .ok false => storePulses verify config rest pulses lastStoredRound
      | .ok true =>
          if lastStoredRound.val < pulse.round.val then
            storePulses verify config rest
              (Function.update pulses pulse.round (some pulse)) pulse.round
          else .error .invalidRoundNumber

def writePulse (verify : Verifier) (currentBlock : BlockNumber) (storage : Storage)
    (origin : Origin) (pulses : List Pulse) : Except Error Storage :=
  if origin ≠ .none then .error .badOrigin
  else do
    let (stored, lastStoredRound) ←
      storePulses verify storage.beaconConfig pulses storage.pulses storage.lastStoredRound
    return { storage with
      pulses := stored
      lastStoredRound := lastStoredRound
      nextUnsignedAt := currentBlock.satAdd (.sat 1) }

def setBeaconConfig (currentBlock : BlockNumber) (storage : Storage) (origin : Origin)
    (config : BeaconConfiguration) : Except Error Storage :=
  if origin ≠ .root then .error .badOrigin
  else .ok { storage with
    beaconConfig := config
    nextUnsignedAt := currentBlock.satAdd (.sat 1) }

/-! ## Runs -/

/-- A call in some block. -/
inductive Call where
  | writePulse (currentBlock : BlockNumber) (origin : Origin) (pulses : List Pulse)
  | setBeaconConfig (currentBlock : BlockNumber) (origin : Origin)
      (config : BeaconConfiguration)

def runCall (verify : Verifier) (storage : Storage) : Call → Except Error Storage
  | .writePulse currentBlock origin pulses =>
      writePulse verify currentBlock storage origin pulses
  | .setBeaconConfig currentBlock origin config =>
      setBeaconConfig currentBlock storage origin config

/-- A call that fails is rolled back. -/
def apply (verify : Verifier) (storage : Storage) (call : Call) : Storage :=
  match runCall verify storage call with
  | .error _ => storage
  | .ok storage => storage

def run (verify : Verifier) (storage : Storage) (calls : List Call) : Storage :=
  calls.foldl (apply verify) storage

/-- The signatures that the commitments pallet reads. -/
def Storage.signatures (storage : Storage) : Commitments.Pulses :=
  fun round => (storage.pulses round).map Pulse.signature

end Subtensor.Drand
