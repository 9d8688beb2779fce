import Subtensor.Registration.Calls

/-!
# The root network

A hotkey is registered on the root network in place of the one with the least
stake there, and joins the Senate; a network is removed
(`pallets/subtensor/src/coinbase/root.rs`).
-/

namespace Subtensor

open Lib

/-- The members of the Senate beside `swap_member`. -/
structure Senate (A : Type) where
  maxMembers : ℕ
  addMember : List A → A → Except Error (List A)

/-- What storage returns where a subnet has no value, and the balance that is
locked for a subnet. -/
structure RemovalTerms where
  tempo : U16
  difficulty : U64
  maxAllowedUids : U16
  immunityPeriod : U16
  lockedBalance : U64

/-- `iter_prefix` over the uids of a subnet. Their keys are not hashed, so they
are in the order of their bytes, the low one first. -/
def storedUids : List U16 :=
  (List.range (2 ^ 16)).map fun i => .wrap (i / 2 ^ 8 + 2 ^ 8 * (i % 2 ^ 8))

/-- `Keys::iter_prefix(netuid)`. -/
def Neurons.storedKeys {A : Type} (neurons : Neurons A) : List (U16 × A) :=
  storedUids.filterMap fun uid => (neurons.keys uid).map fun hotkey => (uid, hotkey)

/-- A table without neurons; the blocks of registrations stay. -/
def Neurons.cleared {A : Type} (neurons : Neurons A) : Neurons A :=
  { (Neurons.empty : Neurons A) with blockAtRegistration := neurons.blockAtRegistration }

namespace Chain

variable {A B P : Type} [DecidableEq A]

/-! ## Joining the Senate -/

def joinSenateIfEligible (rt : Runtime A B P) (senate : Senate A) (chain : Chain A B P)
    (hotkey : A) : Except Error (Chain A B P) :=
  let stake := fun member => (chain.getStakeForHotkeyOnSubnet member .ROOT).val
  if ¬((chain.neurons .ROOT).uids hotkey).isSome then .error .hotKeyNotRegisteredInSubNet
  else if chain.senateMembers.contains hotkey then .error .hotKeyAlreadyRegisteredInSubNet
  else if chain.senateMembers.length = senate.maxMembers then
    match (chain.senateMembers.mergeSort fun a b => stake b ≤ stake a).getLast? with
    | none => .ok chain
    | some last =>
        if stake last < stake hotkey then
          match rt.swapSenateMember chain.senateMembers last hotkey with
          | .error _ => .error .couldNotJoinSenate
          | .ok members => .ok { chain with senateMembers := members }
        else .ok chain
  else match senate.addMember chain.senateMembers hotkey with
    | .error _ => .error .couldNotJoinSenate
    | .ok members => .ok { chain with senateMembers := members }

/-! ## Registration -/

/-- The uid with the lowest stake on root, the first one among equals. -/
def lowestRootStake (chain : Chain A B P) : U64 × U16 :=
  (chain.neurons .ROOT).storedKeys.foldl (fun lowest entry =>
    let stake := chain.getStakeForHotkeyOnSubnet entry.2 .ROOT
    if stake.val < lowest.1.val then (stake, entry.1) else lowest) (.maxVal, 0)

/-- `replace_neuron`, with the memberships. -/
def replaceNeuron (rt : Runtime A B P) (chain : Chain A B P) (netuid : NetUid) (uid : U16)
    (hotkey : A) : Chain A B P :=
  let replaced := (chain.neurons netuid).replaceNeuron rt.defaultAccount
    (chain.subnets netuid).subnetOwnerHotkey uid hotkey chain.block
  chain.withNeurons netuid replaced.1
    (match replaced.2 with
    | none => chain.isNetworkMember
    | some oldHotkey =>
        (chain.isNetworkMember.erase (oldHotkey, netuid)).insert (hotkey, netuid) true)

/-- A slot of root for the hotkey: a new one, or that of the lowest stake. -/
def takeRootSlot (rt : Runtime A B P) (chain : Chain A B P) (hotkey : A) :
    Except Error (Chain A B P) :=
  if (chain.neurons .ROOT).subnetworkN.val < (chain.subnets .ROOT).maxAllowedUids.val then
    .ok (chain.appendNeuron .ROOT hotkey)
  else
    let lowest := chain.lowestRootStake
    match (chain.neurons .ROOT).keys lowest.2 with
    | none => .error .hotKeyNotRegisteredInSubNet
    | some _ =>
        if ¬lowest.1.val < (chain.getStakeForHotkeyOnSubnet hotkey .ROOT).val then
          .error .stakeTooLowForRoot
        else .ok (chain.replaceNeuron rt .ROOT lowest.2 hotkey)

/-- `delegate_hotkey`, with the default take, unless the hotkey is a delegate. -/
def delegateHotkey (chain : Chain A B P) (hotkey : A) : Chain A B P :=
  if (chain.accounts.delegates hotkey).isSome then chain
  else chain.withAccounts { chain.accounts with
    delegates := Function.update chain.accounts.delegates hotkey (some (.sat 11796)) }

def countRootRegistration (chain : Chain A B P) : Chain A B P :=
  chain.withRegistrations .ROOT fun registrations =>
    { registrations with
      thisInterval := registrations.thisInterval.satAdd (.sat 1)
      thisBlock := registrations.thisBlock.satAdd (.sat 1) }

/-- The slot of root that `do_root_register` gives away. -/
def rootSlotUid (chain : Chain A B P) : U16 :=
  if (chain.neurons .ROOT).subnetworkN.val < (chain.subnets .ROOT).maxAllowedUids.val then
    (chain.neurons .ROOT).subnetworkN
  else chain.lowestRootStake.2

/-- `do_root_register`, with the event that it deposits. -/
def doRootRegisterEvent (rt : Runtime A B P) (senate : Senate A) (chain : Chain A B P)
    (coldkey hotkey : A) : Except Error (Chain A B P × NeuronRegistered A) :=
  let subnet := chain.subnets .ROOT
  let registrations := chain.registrations .ROOT
  if ¬chain.ifSubnetExist .ROOT then .error .rootNetworkDoesNotExist
  else if ¬registrations.thisBlock.val < subnet.maxRegistrationsPerBlock.val then
    .error .tooManyRegistrationsThisBlock
  else if ¬registrations.thisInterval.val <
      (Word.sat (subnet.targetRegistrationsPerInterval.val * 3) : U16).val then
    .error .tooManyRegistrationsThisInterval
  else if ((chain.neurons .ROOT).uids hotkey).isSome then .error .hotKeyAlreadyRegisteredInSubNet
  else
    let chain := chain.createAccountIfNonExistent coldkey hotkey
    let subnetworkUid := chain.rootSlotUid
    match chain.takeRootSlot rt hotkey with
    | .error e => .error e
    | .ok chain =>
        match chain.joinSenateIfEligible rt senate hotkey with
        | .error e => .error e
        | .ok chain =>
            .ok ((chain.delegateHotkey hotkey).countRootRegistration,
              ⟨.ROOT, subnetworkUid, hotkey⟩)

def doRootRegister (rt : Runtime A B P) (senate : Senate A) (chain : Chain A B P)
    (coldkey hotkey : A) : Except Error (Chain A B P) :=
  (chain.doRootRegisterEvent rt senate coldkey hotkey).map Prod.fst

/-- `do_adjust_senate`. `join_senate_if_eligible` never returns the member that
it swapped out, so the membership is checked in every case. -/
def doAdjustSenate (rt : Runtime A B P) (senate : Senate A) (chain : Chain A B P)
    (coldkey hotkey : A) : Except Error (Chain A B P) :=
  if ¬chain.ifSubnetExist .ROOT then .error .rootNetworkDoesNotExist
  else if ¬((chain.neurons .ROOT).uids hotkey).isSome then .error .hotKeyNotRegisteredInSubNet
  else match (chain.createAccountIfNonExistent coldkey hotkey).joinSenateIfEligible rt senate
      hotkey with
  | .error e => .error e
  | .ok chain =>
      if ¬chain.senateMembers.contains hotkey then .error .stakeTooLowForRoot else .ok chain

/-! ## Removal of a network -/

def removeNetwork (rt : Runtime A B P) (terms : RemovalTerms) (chain : Chain A B P)
    (netuid : NetUid) : Chain A B P :=
  let subnet := chain.subnets netuid
  let keys := (chain.neurons netuid).storedKeys.map (·.2)
  let removed :=
    { chain with
      neurons := Function.update chain.neurons netuid (chain.neurons netuid).cleared
      networksAdded := chain.networksAdded.erase netuid
      isNetworkMember := keys.foldl (fun members hotkey => members.erase (hotkey, netuid))
        chain.isNetworkMember
      registrations := Function.update chain.registrations netuid
        { chain.registrations netuid with
          thisInterval := 0, powThisInterval := 0, burnThisInterval := 0 }
      subnets := Function.update chain.subnets netuid
        { subnet with
          tempo := terms.tempo
          difficulty := terms.difficulty
          maxAllowedUids := terms.maxAllowedUids
          immunityPeriod := terms.immunityPeriod
          subnetOwner := none } }
  removed.addBalanceToColdkeyAccount rt (subnet.subnetOwner.getD rt.defaultAccount)
    terms.lockedBalance

end Chain

end Subtensor
