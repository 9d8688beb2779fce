import Subtensor.Pallet.Types

/-!
# The neuron table of a subnet

The slots of a subnet and the vectors that hold one value for every slot,
with the functions that fill a slot (`pallets/subtensor/src/subnets/uids.rs`,
`register_neuron` and `get_neuron_to_prune` in `registration.rs`).
-/

namespace Subtensor

open Lib

structure Neurons (A : Type) where
  subnetworkN : U16
  keys : U16 → Option A
  uids : A → Option U16
  blockAtRegistration : U16 → U64
  rank : List U16
  trust : List U16
  active : List Bool
  emission : List U64
  consensus : List U16
  incentive : List U16
  dividends : List U16
  lastUpdate : List U64
  pruningScores : List U16
  validatorTrust : List U16
  validatorPermit : List Bool
  bonds : U16 → List (U16 × U16)

/-- A subnet without neurons. -/
def Neurons.empty {A : Type} : Neurons A where
  subnetworkN := 0
  keys := fun _ => none
  uids := fun _ => none
  blockAtRegistration := fun _ => 0
  rank := []
  trust := []
  active := []
  emission := []
  consensus := []
  incentive := []
  dividends := []
  lastUpdate := []
  pruningScores := []
  validatorTrust := []
  validatorPermit := []
  bonds := fun _ => []

namespace Neurons

variable {A : Type} [DecidableEq A]

/-- `append_neuron`: the hotkey gets the next slot. -/
def appendNeuron (neurons : Neurons A) (newHotkey : A) (blockNumber : U64) : Neurons A :=
  let nextUid := neurons.subnetworkN
  { subnetworkN := nextUid.satAdd (.sat 1)
    keys := Function.update neurons.keys nextUid (some newHotkey)
    uids := Function.update neurons.uids newHotkey (some nextUid)
    blockAtRegistration := Function.update neurons.blockAtRegistration nextUid blockNumber
    rank := neurons.rank ++ [0]
    trust := neurons.trust ++ [0]
    active := neurons.active ++ [true]
    emission := neurons.emission ++ [0]
    consensus := neurons.consensus ++ [0]
    incentive := neurons.incentive ++ [0]
    dividends := neurons.dividends ++ [0]
    lastUpdate := neurons.lastUpdate ++ [blockNumber]
    pruningScores := neurons.pruningScores ++ [0]
    validatorTrust := neurons.validatorTrust ++ [0]
    validatorPermit := neurons.validatorPermit ++ [false]
    bonds := neurons.bonds }

omit [DecidableEq A] in
/-- `clear_neuron`; trust, emission, consensus, incentive and dividends are
reset, and the bonds are removed. -/
def clearNeuron (neurons : Neurons A) (uid : U16) : Neurons A :=
  { neurons with
    emission := neurons.emission.set uid.val 0
    trust := neurons.trust.set uid.val 0
    consensus := neurons.consensus.set uid.val 0
    incentive := neurons.incentive.set uid.val 0
    dividends := neurons.dividends.set uid.val 0
    bonds := Function.update neurons.bonds uid [] }

/-- `replace_neuron`, unless the slot is that of the owner of the subnet. The
second component is the hotkey that lost its slot. -/
def replaceNeuron (neurons : Neurons A) (defaultAccount : A) (ownerHotkey : Option A)
    (uid : U16) (newHotkey : A) (blockNumber : U64) : Neurons A × Option A :=
  let oldHotkey := (neurons.keys uid).getD defaultAccount
  if ownerHotkey = some oldHotkey then (neurons, none)
  else
    (({ neurons with
      uids := Function.update (Function.update neurons.uids oldHotkey none) newHotkey (some uid)
      active := neurons.active.set uid.val true
      keys := Function.update neurons.keys uid (some newHotkey)
      blockAtRegistration :=
        Function.update neurons.blockAtRegistration uid blockNumber } : Neurons A).clearNeuron uid,
      some oldHotkey)

/-! ## Pruning -/

/-- The least score so far, with the earliest registration among equals. -/
structure PruneCandidate where
  minScore : U16
  earliestRegistration : U64
  uidToPrune : U16

def PruneCandidate.start : PruneCandidate := ⟨.maxVal, .maxVal, 0⟩

def PruneCandidate.consider (c : PruneCandidate) (score : U16) (registration : U64) (uid : U16) :
    PruneCandidate :=
  if score.val < c.minScore.val ∨
      (score.val = c.minScore.val ∧ registration.val < c.earliestRegistration.val) then
    ⟨score, registration, uid⟩
  else c

/-- The accumulators of the loop of `get_neuron_to_prune`. -/
structure PruneState where
  nonImmune : PruneCandidate
  immune : PruneCandidate
  foundNonImmune : Bool

def pruneStep (neurons : Neurons A) (ownerHotkey : Option A) (currentBlock : U64)
    (immunityPeriod : U16) (state : PruneState) (uid : U16) : PruneState :=
  if neurons.keys uid ≠ none ∧ neurons.keys uid = ownerHotkey then state
  else
    let score := (neurons.pruningScores[uid.val]?).getD .maxVal
    let registration := neurons.blockAtRegistration uid
    if (currentBlock.satSub registration).val < immunityPeriod.val then
      { state with immune := state.immune.consider score registration uid }
    else
      { state with
        nonImmune := state.nonImmune.consider score registration uid
        foundNonImmune := true }

/-- `get_neuron_to_prune`: the slot, and the table with its score at the
maximum. -/
def getNeuronToPrune (neurons : Neurons A) (ownerHotkey : Option A) (currentBlock : U64)
    (immunityPeriod : U16) : U16 × Neurons A :=
  if neurons.subnetworkN.val = 0 then (0, neurons)
  else
    let state := (List.range neurons.subnetworkN.val).foldl
      (fun state uid => neurons.pruneStep ownerHotkey currentBlock immunityPeriod state
        (.wrap uid)) ⟨.start, .start, false⟩
    let uid :=
      if state.foundNonImmune then state.nonImmune.uidToPrune else state.immune.uidToPrune
    (uid, { neurons with pruningScores := neurons.pruningScores.set uid.val .maxVal })

/-- `register_neuron`: the slot, the table, and the hotkey that lost its
slot. -/
def registerNeuron (neurons : Neurons A) (defaultAccount : A) (ownerHotkey : Option A)
    (currentBlock : U64) (immunityPeriod maxAllowedUids : U16) (hotkey : A) :
    U16 × Neurons A × Option A :=
  if neurons.subnetworkN.val < maxAllowedUids.val then
    (neurons.subnetworkN, neurons.appendNeuron hotkey currentBlock, none)
  else
    let pruned := neurons.getNeuronToPrune ownerHotkey currentBlock immunityPeriod
    (pruned.1, pruned.2.replaceNeuron defaultAccount ownerHotkey pruned.1 hotkey currentBlock)

end Neurons

end Subtensor
