import Subtensor.Lib.FixedPoint
import Subtensor.Lib.Except

/-!
# Types of the pallet

Subnet identifiers and the errors of the calls that are modelled
(`common/src/lib.rs`, `pallets/subtensor/src/macros/errors.rs`).
-/

namespace Subtensor

open Lib

/-- `NetUid`, a `u16`. -/
abbrev NetUid := U16

instance : LawfulBEq NetUid := inferInstance

def NetUid.ROOT : NetUid := 0

def NetUid.isRoot (netuid : NetUid) : Bool := netuid = NetUid.ROOT

inductive Error where
  | subNetworkDoesNotExist
  | subnetNotExists
  | subtokenDisabled
  | registrationNotPermittedOnRootSubnet
  | subNetRegistrationDisabled
  | tooManyRegistrationsThisBlock
  | tooManyRegistrationsThisInterval
  | hotKeyAlreadyRegisteredInSubNet
  | noNeuronIdAvailable
  | mechanismDoesNotExist
  | networkTxRateLimitExceeded
  | nonAssociatedColdKey
  | hotKeyAccountNotExists
  | txRateLimitExceeded
  | tooManyChildren
  | invalidChild
  | proportionOverflow
  | duplicateChild
  | notEnoughStakeToSetChildkeys
  | newHotKeyIsSameWithOld
  | hotKeySetTxRateLimitExceeded
  | hotKeySwapOnSubnetIntervalNotPassed
  | notEnoughBalanceToPaySwapHotKey
  | notEnoughBalanceToPaySwapColdKey
  | coldKeyAlreadyAssociated
  | newColdKeyIsHotkey
  | balanceWithdrawalError
  | zeroBalanceAfterWithdrawn
  | notEnoughBalanceToStake
  | notEnoughStakeToWithdraw
  | amountTooLow
  | slippageTooHigh
  | insufficientLiquidity
  | zeroMaxStakeAmount
  | sameNetuid
  | transferDisallowed
  | insufficientBalance
  | invalidIdentity
  | canNotSetRootNetworkWeights
  | weightVecNotEqualSize
  | uidsLengthExceedUidsInSubNet
  | hotKeyNotRegisteredInSubNet
  | notEnoughStakeToSetWeights
  | incorrectWeightVersionKey
  | settingWeightsTooFast
  | neuronNoValidatorPermit
  | duplicateUids
  | uidVecContainInvalidOne
  | weightVecLengthIsLow
  | maxWeightExceeded
  | commitRevealDisabled
  | committingWeightsTooFast
  | tooManyUnrevealedCommits
  | noWeightsCommitFound
  | expiredWeightCommit
  | invalidRevealCommitHashNotMatch
  | revealTooEarly
  | transactorAccountShouldBeHotKey
  | invalidWorkBlock
  | invalidDifficulty
  | invalidSeal
  | rootNetworkDoesNotExist
  | stakeTooLowForRoot
  | couldNotJoinSenate
  | notSubnetOwner
  /-- An error of another pallet that is passed on. -/
  | other
deriving DecidableEq

end Subtensor
