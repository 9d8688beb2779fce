import Subtensor.Registration.Pruning

/-!
# The slot that a registration announces

Each registration ends with the event `NeuronRegistered`. When the subnet is full
and every neuron of it is the owner's, `replace_neuron` skips the replacement,
and the event names a slot that the hotkey does not have. On root the Senate
turns such a hotkey away, so the call fails.
-/

namespace Subtensor

open Lib

/-! ## A slot in the table -/

namespace Neurons

variable {A : Type} {neurons : Neurons A} {defaultAccount hotkey : A} {ownerHotkey : Option A}
  {currentBlock : U64} {immunityPeriod maxAllowedUids uid : U16}

structure HoldsSlot (neurons : Neurons A) (uid : U16) (hotkey : A) : Prop where
  uids : neurons.uids hotkey = some uid
  keys : neurons.keys uid = some hotkey

/-- Every slot has a hotkey, registered at a block below the sentinel of the pass. -/
structure Filled (neurons : Neurons A) : Prop where
  keys : ∀ uid : U16, uid.val < neurons.subnetworkN.val → neurons.keys uid ≠ none
  blocks : ∀ uid : U16, uid.val < neurons.subnetworkN.val →
    (neurons.blockAtRegistration uid).val < 2 ^ 64 - 1

/-- There is room, or a neuron that is not the owner's. -/
def HasOpenSlot (neurons : Neurons A) (ownerHotkey : Option A) (maxAllowedUids : U16) : Prop :=
  neurons.subnetworkN.val < maxAllowedUids.val ∨
    ∃ uid : U16, uid.val < neurons.subnetworkN.val ∧ neurons.keys uid ≠ ownerHotkey

variable [DecidableEq A]

theorem appendNeuron_holdsSlot :
    (neurons.appendNeuron hotkey currentBlock).HoldsSlot neurons.subnetworkN hotkey :=
  ⟨Function.update_self .., Function.update_self ..⟩

theorem replaceNeuron_holdsSlot (h : ownerHotkey ≠ some ((neurons.keys uid).getD defaultAccount)) :
    (neurons.replaceNeuron defaultAccount ownerHotkey uid hotkey currentBlock).1.HoldsSlot uid
      hotkey := by
  unfold replaceNeuron
  simp only
  rw [if_neg h]
  exact ⟨Function.update_self .., Function.update_self ..⟩

theorem replaceNeuron_of_owner (h : ownerHotkey = some ((neurons.keys uid).getD defaultAccount)) :
    neurons.replaceNeuron defaultAccount ownerHotkey uid hotkey currentBlock = (neurons, none) :=
  if_pos h

/-- The slot that is announced is the hotkey's exactly when one was open. -/
theorem registerNeuron_holdsSlot_iff (hfilled : neurons.Filled) (hmax : maxAllowedUids.val ≠ 0)
    (hfree : neurons.uids hotkey = none) :
    (neurons.registerNeuron defaultAccount ownerHotkey currentBlock immunityPeriod maxAllowedUids
        hotkey).2.1.HoldsSlot
      (neurons.registerNeuron defaultAccount ownerHotkey currentBlock immunityPeriod maxAllowedUids
        hotkey).1 hotkey ↔ neurons.HasOpenSlot ownerHotkey maxAllowedUids := by
  unfold registerNeuron HasOpenSlot
  by_cases hlt : neurons.subnetworkN.val < maxAllowedUids.val
  · rw [if_pos hlt]
    exact iff_of_true appendNeuron_holdsSlot (Or.inl hlt)
  · rw [if_neg hlt]
    simp only [hlt, false_or]
    have hpos : 0 < neurons.subnetworkN.val := by omega
    have hsame : SameSlots neurons
        (neurons.getNeuronToPrune ownerHotkey currentBlock immunityPeriod).2 :=
      getNeuronToPrune_sameSlots
    have hpruned : (neurons.getNeuronToPrune ownerHotkey currentBlock immunityPeriod).1.val <
        neurons.subnetworkN.val := getNeuronToPrune_lt hpos
    obtain ⟨oldHotkey, hold⟩ := Option.ne_none_iff_exists'.mp (hfilled.keys _ hpruned)
    by_cases hother : ∃ uid : U16, uid.val < neurons.subnetworkN.val ∧
        neurons.keys uid ≠ ownerHotkey
    · refine iff_of_true (replaceNeuron_holdsSlot ?_) hother
      obtain ⟨uid, huid, hne⟩ := hother
      have hnot : ¬neurons.IsOwnerSlot ownerHotkey
          (neurons.getNeuronToPrune ownerHotkey currentBlock immunityPeriod).1 :=
        getNeuronToPrune_not_owner ⟨uid, huid, fun howner => hne howner.2⟩
          fun uid huid _ => hfilled.blocks uid huid
      rw [hsame.keys, hold, Option.getD_some]
      intro howner
      exact hnot ⟨hfilled.keys _ hpruned, hold.trans howner.symm⟩
    · -- every neuron is the owner's, and so is the one that is pruned
      have howner : ownerHotkey = some oldHotkey := by
        rw [← hold]
        by_contra hne
        exact hother ⟨_, hpruned, Ne.symm hne⟩
      rw [replaceNeuron_of_owner (by rw [hsame.keys, hold, Option.getD_some]; exact howner)]
      refine iff_of_false (fun hslot => ?_) hother
      have huids := hslot.uids
      rw [hsame.uids, hfree] at huids
      cases huids

end Neurons

namespace Chain

variable {A B P : Type} [DecidableEq A] {rt : Runtime A B P} {chain chain' : Chain A B P}
  {netuid : NetUid} {coldkey hotkey : A} {event : NeuronRegistered A}

/-! ## The slot of the event -/

/-- The hotkey has the slot that was announced. -/
def HoldsSlot (chain : Chain A B P) (event : NeuronRegistered A) : Prop :=
  (chain.neurons event.netuid).HoldsSlot event.uid event.hotkey

def HasOpenSlot (chain : Chain A B P) (netuid : NetUid) : Prop :=
  (chain.neurons netuid).HasOpenSlot (chain.subnets netuid).subnetOwnerHotkey
    (chain.subnets netuid).maxAllowedUids

theorem registerNeuron_holdsSlot_iff (hfilled : (chain.neurons netuid).Filled)
    (hmax : (chain.subnets netuid).maxAllowedUids.val ≠ 0)
    (hfree : (chain.neurons netuid).uids hotkey = none) :
    (chain.registerNeuron rt netuid hotkey).HoldsSlot
      ⟨netuid, chain.registeredUid rt netuid hotkey, hotkey⟩ ↔ chain.HasOpenSlot netuid := by
  have hneurons : (chain.registerNeuron rt netuid hotkey).neurons netuid =
      ((chain.neurons netuid).registerNeuron rt.defaultAccount
        (chain.subnets netuid).subnetOwnerHotkey chain.block (chain.subnets netuid).immunityPeriod
        (chain.subnets netuid).maxAllowedUids hotkey).2.1 := Function.update_self ..
  unfold HoldsSlot
  rw [hneurons]
  exact Neurons.registerNeuron_holdsSlot_iff hfilled hmax hfree

theorem doBurnedRegistrationEvent_holdsSlot_iff (hfilled : (chain.neurons netuid).Filled)
    (h : chain.doBurnedRegistrationEvent rt coldkey netuid hotkey = .ok (chain', event)) :
    event.netuid = netuid ∧ event.hotkey = hotkey ∧
      (chain'.HoldsSlot event ↔ chain.HasOpenSlot netuid) := by
  unfold doBurnedRegistrationEvent at h
  obtain ⟨-, h⟩ := ite_error_eq_ok.mp h
  obtain ⟨-, h⟩ := ite_error_eq_ok.mp h
  obtain ⟨-, h⟩ := ite_error_eq_ok.mp h
  obtain ⟨-, h⟩ := ite_error_eq_ok.mp h
  obtain ⟨-, h⟩ := ite_error_eq_ok.mp h
  obtain ⟨hfree, h⟩ := ite_error_eq_ok.mp h
  obtain ⟨-, h⟩ := ite_error_eq_ok.mp h
  obtain ⟨-, h⟩ := ite_error_eq_ok.mp h
  obtain ⟨hmax, h⟩ := ite_error_eq_ok.mp h
  obtain ⟨accounts, haccounts⟩ : ∃ accounts, chain.createAccountIfNonExistent coldkey hotkey =
      chain.withAccounts accounts := createAccountIfNonExistent_frame
  rw [haccounts] at h
  cases hremove : (chain.withAccounts accounts).removeBalanceFromColdkeyAccount rt coldkey
      (chain.subnets netuid).burn with
  | error e =>
      simp only [hremove] at h
      cases h
  | ok paid =>
      obtain ⟨chain₁, actualBurnAmount⟩ := paid
      simp only [hremove] at h
      obtain ⟨currency, rfl⟩ := removeBalance_frame hremove
      cases hburn : ((chain.withAccounts accounts).setCurrency currency).burnOnSubnet rt netuid
          actualBurnAmount with
      | error e =>
          rw [hburn] at h
          cases h
      | ok chain₂ =>
          rw [hburn] at h
          obtain ⟨ledger, swap, reserves, rfl⟩ := burnOnSubnet_frame hburn
          obtain ⟨rfl, rfl⟩ := Prod.mk.inj (Except.ok.inj h)
          exact ⟨rfl, rfl, @registerNeuron_holdsSlot_iff A B P _ rt
            { chain.withAccounts accounts with
              ledger := ledger, swap := swap, reserves := reserves }
            netuid hotkey hfilled hmax (Option.not_isSome_iff_eq_none.mp hfree)⟩

theorem doRegistrationEvent_holdsSlot_iff {sealHash : U64 → U64 → A → List UInt8}
    {signingOrigin : A} {blockNumber nonce : U64} {work : List UInt8}
    (hfilled : (chain.neurons netuid).Filled)
    (h : chain.doRegistrationEvent rt sealHash signingOrigin netuid blockNumber nonce work hotkey
      coldkey = some (.ok (chain', event))) :
    event.netuid = netuid ∧ event.hotkey = hotkey ∧
      (chain'.HoldsSlot event ↔ chain.HasOpenSlot netuid) := by
  unfold doRegistrationEvent at h
  obtain ⟨-, h⟩ := ite_some_error_eq_ok.mp h
  obtain ⟨-, h⟩ := ite_some_error_eq_ok.mp h
  obtain ⟨-, h⟩ := ite_some_error_eq_ok.mp h
  obtain ⟨-, h⟩ := ite_some_error_eq_ok.mp h
  obtain ⟨-, h⟩ := ite_some_error_eq_ok.mp h
  obtain ⟨-, h⟩ := ite_some_error_eq_ok.mp h
  obtain ⟨hfree, h⟩ := ite_some_error_eq_ok.mp h
  obtain ⟨-, h⟩ := ite_some_error_eq_ok.mp h
  obtain ⟨-, h⟩ := ite_some_error_eq_ok.mp h
  split at h
  · cases h
  · obtain ⟨-, h⟩ := ite_some_error_eq_ok.mp h
    obtain ⟨-, h⟩ := ite_some_error_eq_ok.mp h
    obtain ⟨-, h⟩ := ite_some_error_eq_ok.mp h
    obtain ⟨hmax, h⟩ := ite_some_error_eq_ok.mp h
    obtain ⟨accounts, haccounts⟩ : ∃ accounts, chain.createAccountIfNonExistent coldkey hotkey =
        chain.withAccounts accounts := createAccountIfNonExistent_frame
    rw [haccounts] at h
    obtain ⟨rfl, rfl⟩ := Prod.mk.inj (Except.ok.inj (Option.some.inj h))
    exact ⟨rfl, rfl, @registerNeuron_holdsSlot_iff A B P _ rt (chain.withAccounts accounts) netuid
      hotkey hfilled hmax (Option.not_isSome_iff_eq_none.mp hfree)⟩

omit [DecidableEq A] in
theorem withNeurons_self {neurons : Neurons A} {members : StorageMap (A × NetUid) Bool} :
    (chain.withNeurons netuid neurons members).neurons netuid = neurons :=
  Function.update_self ..

/-- A hotkey with a slot of root has the one that was given away. -/
theorem takeRootSlot_holdsSlot (hfree : (chain.neurons .ROOT).uids hotkey = none)
    (h : chain.takeRootSlot rt hotkey = .ok chain')
    (hslot : (chain'.neurons .ROOT).uids hotkey ≠ none) :
    (chain'.neurons .ROOT).HoldsSlot chain.rootSlotUid hotkey := by
  unfold takeRootSlot at h
  unfold rootSlotUid
  split at h
  · rename_i hlt
    obtain rfl := Except.ok.inj h
    rw [if_pos hlt]
    rw [appendNeuron, withNeurons_self]
    exact Neurons.appendNeuron_holdsSlot
  · rename_i hlt
    rw [if_neg hlt]
    extract_lets lowest at h
    split at h
    · cases h
    · obtain ⟨-, h⟩ := ite_error_eq_ok.mp h
      obtain rfl := Except.ok.inj h
      have hneurons : (chain.replaceNeuron rt .ROOT lowest.2 hotkey).neurons .ROOT =
          ((chain.neurons .ROOT).replaceNeuron rt.defaultAccount
            (chain.subnets .ROOT).subnetOwnerHotkey lowest.2 hotkey chain.block).1 :=
        withNeurons_self
      rw [hneurons] at hslot ⊢
      refine Neurons.replaceNeuron_holdsSlot fun howner => hslot ?_
      -- the replacement was skipped, so the hotkey has no slot
      rw [Neurons.replaceNeuron_of_owner howner, hfree]

theorem doRootRegisterEvent_holdsSlot {senate : Senate A}
    (h : chain.doRootRegisterEvent rt senate coldkey hotkey = .ok (chain', event)) :
    event.netuid = .ROOT ∧ event.hotkey = hotkey ∧ chain'.HoldsSlot event := by
  unfold doRootRegisterEvent at h
  obtain ⟨-, h⟩ := ite_error_eq_ok.mp h
  obtain ⟨-, h⟩ := ite_error_eq_ok.mp h
  obtain ⟨-, h⟩ := ite_error_eq_ok.mp h
  obtain ⟨hfree, h⟩ := ite_error_eq_ok.mp h
  obtain ⟨accounts, haccounts⟩ : ∃ accounts, chain.createAccountIfNonExistent coldkey hotkey =
      chain.withAccounts accounts := createAccountIfNonExistent_frame
  rw [haccounts] at h
  extract_lets chain₁ uid at h
  split at h
  · cases h
  · rename_i slotted hslot
    split at h
    · cases h
    · rename_i joined hjoin
      obtain ⟨rfl, rfl⟩ := Prod.mk.inj (Except.ok.inj h)
      refine ⟨rfl, rfl, ?_⟩
      have hregistered : (slotted.neurons .ROOT).uids hotkey ≠ none := by
        unfold joinSenateIfEligible at hjoin
        have hsome := (ite_error_eq_ok.mp hjoin).1
        exact Option.isSome_iff_ne_none.mp (not_not.mp hsome)
      have hnone : (chain₁.neurons .ROOT).uids hotkey = none :=
        Option.not_isSome_iff_eq_none.mp hfree
      have hholds := takeRootSlot_holdsSlot hnone hslot hregistered
      have hkeeps : Neurons.SameSlots (slotted.neurons .ROOT)
          ((joined.delegateHotkey hotkey).neurons .ROOT) := by
        have hjoined := (joinSenateIfEligible_keeps hjoin .ROOT).neurons
        have hdelegate := (joined.delegateHotkey_keeps hotkey .ROOT).neurons
        exact ⟨hdelegate.keys.trans hjoined.keys, hdelegate.uids.trans hjoined.uids,
          hdelegate.subnetworkN.trans hjoined.subnetworkN⟩
      have hend : ((joined.delegateHotkey hotkey).neurons .ROOT).HoldsSlot uid hotkey :=
        ⟨by rw [hkeeps.uids]; exact hholds.uids, by rw [hkeeps.keys]; exact hholds.keys⟩
      exact hend

/-- **A registration yields a slot**, exactly when one was open: a registration
against the burn or by work gives the hotkey the slot of its event if and only
if the subnet has room or a neuron that is not the owner's. A registration on
root that succeeds always does. -/
theorem registration_holdsSlot_iff (rt : Runtime A B P) (chain : Chain A B P) :
    (∀ netuid, (chain.neurons netuid).Filled → ∀ coldkey hotkey chain' event,
      chain.doBurnedRegistrationEvent rt coldkey netuid hotkey = .ok (chain', event) →
        event.netuid = netuid ∧ event.hotkey = hotkey ∧
          (chain'.HoldsSlot event ↔ chain.HasOpenSlot netuid)) ∧
    (∀ netuid, (chain.neurons netuid).Filled →
      ∀ sealHash signingOrigin blockNumber nonce work hotkey coldkey chain' event,
        chain.doRegistrationEvent rt sealHash signingOrigin netuid blockNumber nonce work hotkey
            coldkey = some (.ok (chain', event)) →
          event.netuid = netuid ∧ event.hotkey = hotkey ∧
            (chain'.HoldsSlot event ↔ chain.HasOpenSlot netuid)) ∧
    ∀ senate coldkey hotkey chain' event,
      chain.doRootRegisterEvent rt senate coldkey hotkey = .ok (chain', event) →
        event.netuid = .ROOT ∧ event.hotkey = hotkey ∧ chain'.HoldsSlot event :=
  ⟨fun _ hfilled _ _ _ _ h => doBurnedRegistrationEvent_holdsSlot_iff hfilled h,
    fun _ hfilled _ _ _ _ _ _ _ _ _ h => doRegistrationEvent_holdsSlot_iff hfilled h,
    fun _ _ _ _ _ h => doRootRegisterEvent_holdsSlot h⟩

/-- A Senate that takes everyone. -/
def openSenate : Senate ℕ := ⟨12, fun members hotkey => .ok (members ++ [hotkey])⟩

/-- The hotkey `2` registers on the subnet `1`, against the burn and by work, and
on root. -/
theorem registration_holdsSlot_iff_smallChain :
    (∃ chain' event, smallChain.doBurnedRegistrationEvent runtime 10 (.sat 1) 2 =
      .ok (chain', event) ∧ chain'.HoldsSlot event) ∧
    (∃ chain' event, smallChain.doRegistrationEvent runtime
        (fun _ _ _ => List.replicate 32 0) 2 (.sat 1) (.sat 999) 0 (List.replicate 32 0) 2 10 =
      some (.ok (chain', event)) ∧ chain'.HoldsSlot event) ∧
    ∃ chain' event, smallChain.doRootRegisterEvent runtime openSenate 10 2 =
      .ok (chain', event) ∧ chain'.HoldsSlot event := by
  have hfilled : (smallChain.neurons (.sat 1)).Filled :=
    ⟨fun uid huid => absurd huid (Nat.not_lt_zero _), fun uid huid => absurd huid (Nat.not_lt_zero _)⟩
  have hopen : smallChain.HasOpenSlot (.sat 1) := Or.inl (by decide)
  obtain ⟨hburned, hwork, hroot⟩ := registration_holdsSlot_iff runtime smallChain
  refine ⟨?_, ?_, ?_⟩
  · have hok : (smallChain.doBurnedRegistrationEvent runtime 10 (.sat 1) 2).toOption.isSome =
        true := by decide +kernel
    cases h : smallChain.doBurnedRegistrationEvent runtime 10 (.sat 1) 2 with
    | error e =>
        rw [h] at hok
        cases hok
    | ok result =>
        exact ⟨result.1, result.2, rfl, (hburned _ hfilled _ _ _ _ h).2.2.mpr hopen⟩
  · have hok : ((smallChain.doRegistrationEvent runtime (fun _ _ _ => List.replicate 32 0) 2
        (.sat 1) (.sat 999) 0 (List.replicate 32 0) 2 10).bind (·.toOption)).isSome = true := by
      decide +kernel
    cases h : smallChain.doRegistrationEvent runtime (fun _ _ _ => List.replicate 32 0) 2
        (.sat 1) (.sat 999) 0 (List.replicate 32 0) 2 10 with
    | none =>
        rw [h] at hok
        cases hok
    | some result =>
        rw [h] at hok
        cases result with
        | error e => cases hok
        | ok result =>
            exact ⟨result.1, result.2, rfl, (hwork _ hfilled _ _ _ _ _ _ _ _ _ h).2.2.mpr hopen⟩
  · have hok : (smallChain.doRootRegisterEvent runtime openSenate 10 2).toOption.isSome = true := by
      decide +kernel
    cases h : smallChain.doRootRegisterEvent runtime openSenate 10 2 with
    | error e =>
        rw [h] at hok
        cases hok
    | ok result => exact ⟨result.1, result.2, rfl, (hroot _ _ _ _ _ h).2.2⟩

/-- The subnet `1` has one slot, which is the owner's. -/
def ownerOnlyChain : Chain ℕ (Balances ℕ) (SwapStorage ℕ) :=
  { smallChain.appendNeuron (.sat 1) 1 with
    subnets := fun netuid =>
      { smallSubnet (if netuid.val = 1 then .sat 1 else 0) with maxAllowedUids := .sat 1 } }

/-- The hotkey `2` paid, and its event names the slot of the owner. -/
theorem doBurnedRegistration_no_slot :
    ∃ chain' event, ownerOnlyChain.doBurnedRegistrationEvent runtime 10 (.sat 1) 2 =
        .ok (chain', event) ∧
      event.uid = 0 ∧ (chain'.neurons (.sat 1)).uids 2 = none ∧
      (chain'.neurons (.sat 1)).keys 0 = some 1 ∧
      (chain'.ledger.currency.free 10).val + 1000000 =
        (ownerOnlyChain.ledger.currency.free 10).val := by
  have hrun : (ownerOnlyChain.doBurnedRegistrationEvent runtime 10 (.sat 1) 2).toOption.map
      (fun result => (result.2.uid, (result.1.neurons (.sat 1)).uids 2,
        (result.1.neurons (.sat 1)).keys 0, (result.1.ledger.currency.free 10).val)) =
      some (0, none, some 1, 9999000000) := by
    decide +kernel
  obtain ⟨result, hok, hresult⟩ := exists_ok_of_toOption_map hrun
  obtain ⟨huid, hresult⟩ := Prod.mk.inj hresult
  obtain ⟨huids, hresult⟩ := Prod.mk.inj hresult
  obtain ⟨hkeys, hfree⟩ := Prod.mk.inj hresult
  refine ⟨result.1, result.2, hok, huid, huids, hkeys, ?_⟩
  rw [hfree]
  decide +kernel

end Chain

end Subtensor
