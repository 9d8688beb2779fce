import Subtensor.Emission.Dividends

/-!
# The emission of an epoch

The last part of `epoch` (`pallets/subtensor/src/epoch/run_epoch.rs`): the
scores that consensus gave to the neurons become incentives and dividends in
alpha. The scores themselves are an input.
-/

namespace Subtensor

open Lib

/-- What consensus says about the neurons of a subnet, in the order of their
uids. -/
structure EpochScores (A : Type) where
  hotkeys : List A
  incentive : List I32F32
  dividends : List I32F32
  stake : List I32F32
  activeStake : List I32F32

namespace EpochScores

variable {A : Type}

/-- `iter().sum()`; the sum is not checked. -/
def sum (x : List I32F32) : I32F32 := .wrap (x.map (·.bits)).sum

def normalizeUsingSum (x : List I32F32) (total : I32F32) : List I32F32 :=
  if total.bits = 0 then x else x.map (·.safeDiv total)

/-- The emission of a neuron with a normalized score. -/
def raoEmission (emission : U64) (score : I32F32) : U64 :=
  ((IFixed.sat score.bits : I96F32).satMul (.ofInt emission.val)).toWord 64

/-- Incentives go to servers and dividends to validators, normalized on the
sum of both. If both are zero, the emission follows the stake. -/
def emission (scores : EpochScores A) (rao : U64) : Chain.HotkeyEmission A :=
  let total := sum (List.zipWith IFixed.satAdd scores.incentive scores.dividends)
  let server := normalizeUsingSum scores.incentive total
  let validator :=
    if total.bits = 0 then
      if (sum scores.activeStake).bits = 0 then scores.stake else scores.activeStake
    else normalizeUsingSum scores.dividends total
  scores.hotkeys.zip ((server.map (raoEmission rao)).zip (validator.map (raoEmission rao)))

end EpochScores

end Subtensor
