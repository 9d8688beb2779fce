import Subtensor.Accounts.KeySwaps
import Subtensor.Lib.Inverse
import Subtensor.Registration.Root

/-!
# The slots of a subnet

Four storage maps say who has which slot of a subnet: `Keys`, `Uids`,
`SubnetworkN` and `IsNetworkMember`. They are edited by registrations, by hotkey
swaps and by the removal of a network, and agree after each.
-/

namespace Subtensor

open Lib

/-! ## The table of one subnet -/

namespace Neurons

variable {A : Type} {neurons neurons' : Neurons A}

/-- `Keys` and `Uids` are inverse to each other, and the slots are the first
ones. -/
structure Slots (neurons : Neurons A) : Prop where
  bijection : IsPartialBijection neurons.keys neurons.uids
  range : ∀ uid, (neurons.keys uid).isSome = true ↔ uid.val < neurons.subnetworkN.val

structure SameSlots (neurons neurons' : Neurons A) : Prop where
  keys : neurons'.keys = neurons.keys
  uids : neurons'.uids = neurons.uids
  subnetworkN : neurons'.subnetworkN = neurons.subnetworkN

theorem SameSlots.slots (h : SameSlots neurons neurons') (hslots : neurons.Slots) :
    neurons'.Slots := by
  refine ⟨?_, ?_⟩
  · rw [h.keys, h.uids]
    exact hslots.bijection
  · rw [h.keys, h.subnetworkN]
    exact hslots.range

theorem cleared_slots (neurons : Neurons A) : neurons.cleared.Slots := by
  refine ⟨IsPartialBijection.empty, ?_⟩
  intro uid
  simp [cleared, empty]

variable [DecidableEq A]

theorem appendNeuron_subnetworkN {hotkey : A} {block : U64}
    (hlt : neurons.subnetworkN.val < 2 ^ 16 - 1) :
    (neurons.appendNeuron hotkey block).subnetworkN.val = neurons.subnetworkN.val + 1 := by
  have hone : ((.sat 1 : U16)).val = 1 := rfl
  unfold appendNeuron
  rw [Word.val_satAdd_of_lt] <;> rw [hone]
  omega

theorem appendNeuron_slots (hslots : neurons.Slots) {hotkey : A} {block : U64}
    (hlt : neurons.subnetworkN.val < 2 ^ 16 - 1) (hfree : neurons.uids hotkey = none) :
    (neurons.appendNeuron hotkey block).Slots := by
  have hnext : neurons.keys neurons.subnetworkN = none := by
    rw [← Option.not_isSome_iff_eq_none, hslots.range]
    exact lt_irrefl _
  refine ⟨hslots.bijection.insert hnext hfree, ?_⟩
  intro uid
  rw [appendNeuron_subnetworkN hlt]
  show (Function.update neurons.keys neurons.subnetworkN (some hotkey) uid).isSome = true ↔ _
  by_cases huid : uid = neurons.subnetworkN
  · subst huid
    simp
  · have hne : uid.val ≠ neurons.subnetworkN.val := fun h => huid (Word.ext h)
    rw [Function.update_of_ne huid, hslots.range]
    omega

theorem slots_of_replace (hslots : neurons.Slots) {uid : U16} {oldHotkey newHotkey : A}
    (hold : neurons.keys uid = some oldHotkey) (hfree : neurons.uids newHotkey = none)
    (hkeys : neurons'.keys = Function.update neurons.keys uid (some newHotkey))
    (huids : neurons'.uids =
      Function.update (Function.update neurons.uids oldHotkey none) newHotkey (some uid))
    (hcount : neurons'.subnetworkN = neurons.subnetworkN) : neurons'.Slots := by
  refine ⟨?_, ?_⟩
  · rw [hkeys, huids]
    exact hslots.bijection.replace hold hfree
  · intro uid'
    rw [hkeys, hcount, ← hslots.range]
    by_cases huid : uid' = uid
    · subst huid
      simp [hold]
    · rw [Function.update_of_ne huid]

/-! ## Pruning -/

omit [DecidableEq A] in
theorem PruneCandidate.consider_uidToPrune {c : PruneCandidate} {score : U16}
    {registration : U64} {uid : U16} {n : ℕ} (hc : c.uidToPrune.val < n) (huid : uid.val < n) :
    (c.consider score registration uid).uidToPrune.val < n := by
  unfold PruneCandidate.consider
  split
  · exact huid
  · exact hc

theorem pruneStep_uidToPrune {ownerHotkey : Option A} {currentBlock : U64}
    {immunityPeriod : U16} {state : PruneState} {uid : U16} {n : ℕ}
    (hstate : state.nonImmune.uidToPrune.val < n ∧ state.immune.uidToPrune.val < n)
    (huid : uid.val < n) :
    (neurons.pruneStep ownerHotkey currentBlock immunityPeriod state uid).nonImmune.uidToPrune.val
        < n ∧
      (neurons.pruneStep ownerHotkey currentBlock immunityPeriod state uid).immune.uidToPrune.val
        < n := by
  obtain ⟨hnonImmune, himmune⟩ := hstate
  unfold pruneStep
  split
  · exact ⟨hnonImmune, himmune⟩
  · extract_lets score registration
    split
    · exact ⟨hnonImmune, PruneCandidate.consider_uidToPrune himmune huid⟩
    · exact ⟨PruneCandidate.consider_uidToPrune hnonImmune huid, himmune⟩

theorem getNeuronToPrune_lt (hpos : 0 < neurons.subnetworkN.val) {ownerHotkey : Option A}
    {currentBlock : U64} {immunityPeriod : U16} :
    (neurons.getNeuronToPrune ownerHotkey currentBlock immunityPeriod).1.val <
      neurons.subnetworkN.val := by
  have hstart : (0 : U16).val < neurons.subnetworkN.val := hpos
  have hloop := List.foldlRecOn
    (motive := fun state : PruneState => state.nonImmune.uidToPrune.val < neurons.subnetworkN.val ∧
      state.immune.uidToPrune.val < neurons.subnetworkN.val)
    (List.range neurons.subnetworkN.val)
    (fun state uid => neurons.pruneStep ownerHotkey currentBlock immunityPeriod state (.wrap uid))
    (b := ⟨.start, .start, false⟩) ⟨hstart, hstart⟩ (by
      intro state hstate uid huid
      have hlt := List.mem_range.mp huid
      have hwrap : (Word.wrap uid : U16).val = uid :=
        Nat.mod_eq_of_lt (hlt.trans neurons.subnetworkN.isLt)
      exact pruneStep_uidToPrune hstate (hwrap.symm ▸ hlt))
  obtain ⟨hnonImmune, himmune⟩ := hloop
  unfold getNeuronToPrune
  rw [if_neg hpos.ne']
  simp only
  split
  · exact hnonImmune
  · exact himmune

theorem getNeuronToPrune_sameSlots {ownerHotkey : Option A} {currentBlock : U64}
    {immunityPeriod : U16} :
    SameSlots neurons
      (neurons.getNeuronToPrune ownerHotkey currentBlock immunityPeriod).2 := by
  unfold getNeuronToPrune
  split
  · exact ⟨rfl, rfl, rfl⟩
  · exact ⟨rfl, rfl, rfl⟩

/-! ## Replacing -/

/-- The slot of the owner of the subnet is not given away. -/
theorem replaceNeuron_cases (neurons : Neurons A) (defaultAccount : A) (ownerHotkey : Option A)
    (uid : U16) (newHotkey : A) (block : U64) :
    neurons.replaceNeuron defaultAccount ownerHotkey uid newHotkey block = (neurons, none) ∨
      ∃ neurons', neurons.replaceNeuron defaultAccount ownerHotkey uid newHotkey block =
          (neurons', some ((neurons.keys uid).getD defaultAccount)) ∧
        neurons'.keys = Function.update neurons.keys uid (some newHotkey) ∧
        neurons'.uids = Function.update (Function.update neurons.uids
          ((neurons.keys uid).getD defaultAccount) none) newHotkey (some uid) ∧
        neurons'.subnetworkN = neurons.subnetworkN := by
  unfold replaceNeuron
  extract_lets oldHotkey
  split
  · exact Or.inl rfl
  · exact Or.inr ⟨_, rfl, rfl, rfl, rfl⟩

omit [DecidableEq A] in
theorem mem_storedUids (uid : U16) : uid ∈ storedUids := by
  have hlt : uid.val < 2 ^ 16 := uid.isLt
  rw [storedUids, List.mem_map]
  refine ⟨2 ^ 8 * (uid.val % 2 ^ 8) + uid.val / 2 ^ 8, ?_, ?_⟩
  · rw [List.mem_range]
    omega
  · have hlow : (2 ^ 8 * (uid.val % 2 ^ 8) + uid.val / 2 ^ 8) / 2 ^ 8 = uid.val % 2 ^ 8 := by omega
    have hhigh : (2 ^ 8 * (uid.val % 2 ^ 8) + uid.val / 2 ^ 8) % 2 ^ 8 = uid.val / 2 ^ 8 := by
      omega
    apply Word.ext
    show _ % 2 ^ 16 = uid.val
    rw [hlow, hhigh, Nat.mod_add_div]
    exact Nat.mod_eq_of_lt hlt

omit [DecidableEq A] in
theorem mem_storedKeys {uid : U16} {hotkey : A} :
    (uid, hotkey) ∈ neurons.storedKeys ↔ neurons.keys uid = some hotkey := by
  unfold storedKeys
  rw [List.mem_filterMap]
  constructor
  · rintro ⟨uid', -, h⟩
    obtain ⟨hotkey', hkey, heq⟩ := Option.map_eq_some_iff.mp h
    cases heq
    exact hkey
  · intro h
    exact ⟨uid, mem_storedUids uid, by rw [h]; rfl⟩

end Neurons

/-! ## The maps of one subnet -/

namespace Chain

variable {A B P : Type} [DecidableEq A] {rt : Runtime A B P} {chain chain' : Chain A B P}
  {netuid : NetUid} {coldkey hotkey oldHotkey newHotkey : A}

/-- The four maps agree on a subnet; a subnet that does not exist has no
neurons. -/
structure SubnetUids (chain : Chain A B P) (netuid : NetUid) : Prop where
  slots : (chain.neurons netuid).Slots
  member : ∀ hotkey, chain.isNetworkMember.lookup (hotkey, netuid) = some true ↔
    ((chain.neurons netuid).uids hotkey).isSome = true
  absent : chain.networksAdded.lookup netuid = none → (chain.neurons netuid).subnetworkN.val = 0

/-- The four maps are as before on a subnet. -/
structure KeepsSubnetUids (netuid : NetUid) (chain chain' : Chain A B P) : Prop where
  neurons : Neurons.SameSlots (chain.neurons netuid) (chain'.neurons netuid)
  member : ∀ hotkey, chain'.isNetworkMember.lookup (hotkey, netuid) =
    chain.isNetworkMember.lookup (hotkey, netuid)
  networksAdded : chain'.networksAdded.lookup netuid = chain.networksAdded.lookup netuid

theorem KeepsSubnetUids.subnetUids (h : KeepsSubnetUids netuid chain chain')
    (hagree : SubnetUids chain netuid) : SubnetUids chain' netuid := by
  refine ⟨h.neurons.slots hagree.slots, ?_, ?_⟩
  · intro hotkey
    rw [h.member, h.neurons.uids]
    exact hagree.member hotkey
  · rw [h.networksAdded, h.neurons.subnetworkN]
    exact hagree.absent

/-- The members of the subnet after one lost its slot to another. -/
theorem member_replaced (hagree : SubnetUids chain netuid) {uid : U16} (hne : oldHotkey ≠ newHotkey) :
    ∀ hotkey, ((chain.isNetworkMember.erase (oldHotkey, netuid)).insert (newHotkey, netuid)
        true).lookup (hotkey, netuid) = some true ↔
      (Function.update (Function.update (chain.neurons netuid).uids oldHotkey none) newHotkey
        (some uid) hotkey).isSome = true := by
  intro hotkey
  by_cases hnew : hotkey = newHotkey
  · subst hnew
    simp
  · rw [AList.lookup_insert_ne (by simpa using hnew), Function.update_of_ne hnew]
    by_cases hold : hotkey = oldHotkey
    · subst hold
      simp
    · rw [AList.lookup_erase_ne (by simpa using hold), Function.update_of_ne hold]
      exact hagree.member hotkey

/-! ## Registrations -/

theorem appendNeuron_subnetUids (hagree : SubnetUids chain netuid)
    (hexists : chain.networksAdded.lookup netuid ≠ none)
    (hlt : (chain.neurons netuid).subnetworkN.val < 2 ^ 16 - 1)
    (hfree : (chain.neurons netuid).uids hotkey = none) :
    SubnetUids (chain.appendNeuron netuid hotkey) netuid := by
  have hneurons : (chain.appendNeuron netuid hotkey).neurons netuid =
      (chain.neurons netuid).appendNeuron hotkey chain.block := Function.update_self ..
  refine ⟨?_, ?_, fun habsent => absurd habsent hexists⟩
  · rw [hneurons]
    exact Neurons.appendNeuron_slots hagree.slots hlt hfree
  · intro hotkey'
    rw [hneurons]
    show (chain.isNetworkMember.insert (hotkey, netuid) true).lookup (hotkey', netuid) = some true ↔
      (Function.update (chain.neurons netuid).uids hotkey _ hotkey').isSome = true
    by_cases hkey : hotkey' = hotkey
    · subst hkey
      simp
    · rw [AList.lookup_insert_ne (by simpa using hkey), Function.update_of_ne hkey]
      exact hagree.member hotkey'

theorem replaceNeuron_subnetUids (hagree : SubnetUids chain netuid) {neurons : Neurons A}
    (hsame : Neurons.SameSlots (chain.neurons netuid) neurons) {uid : U16}
    (hold : (chain.neurons netuid).keys uid = some oldHotkey)
    (hfree : (chain.neurons netuid).uids hotkey = none) (ownerHotkey : Option A) (block : U64) :
    SubnetUids (chain.withNeurons netuid
      (neurons.replaceNeuron rt.defaultAccount ownerHotkey uid hotkey block).1
      (match (neurons.replaceNeuron rt.defaultAccount ownerHotkey uid hotkey block).2 with
      | none => chain.isNetworkMember
      | some oldHotkey =>
          (chain.isNetworkMember.erase (oldHotkey, netuid)).insert (hotkey, netuid) true))
      netuid := by
  rcases neurons.replaceNeuron_cases rt.defaultAccount ownerHotkey uid hotkey block with
    heq | ⟨neurons', heq, hkeys, huids, hcount⟩
  · rw [heq]
    have hkeeps : KeepsSubnetUids netuid chain
        (chain.withNeurons netuid neurons chain.isNetworkMember) := by
      refine ⟨?_, fun _ => rfl, rfl⟩
      show Neurons.SameSlots _ (Function.update chain.neurons netuid neurons netuid)
      rw [Function.update_self]
      exact hsame
    exact hkeeps.subnetUids hagree
  · rw [hsame.keys] at heq hkeys huids
    rw [heq]
    rw [hold, Option.getD_some] at huids ⊢
    have huidOld : (chain.neurons netuid).uids oldHotkey = some uid :=
      (hagree.slots.bijection uid oldHotkey).mp hold
    have hne : oldHotkey ≠ hotkey := by
      rintro rfl
      rw [hfree] at huidOld
      cases huidOld
    have hneurons : (chain.withNeurons netuid neurons'
        ((chain.isNetworkMember.erase (oldHotkey, netuid)).insert (hotkey, netuid) true)).neurons
          netuid = neurons' := Function.update_self ..
    rw [hsame.uids] at huids
    rw [hsame.subnetworkN] at hcount
    refine ⟨?_, ?_, ?_⟩
    · rw [hneurons]
      exact Neurons.slots_of_replace hagree.slots hold hfree hkeys huids hcount
    · rw [hneurons, huids]
      exact member_replaced hagree hne
    · rw [hneurons, hcount]
      exact hagree.absent

theorem registerNeuron_subnetUids (hagree : SubnetUids chain netuid)
    (hexists : chain.networksAdded.lookup netuid ≠ none)
    (hmax : (chain.subnets netuid).maxAllowedUids.val ≠ 0)
    (hfree : (chain.neurons netuid).uids hotkey = none) :
    SubnetUids (chain.registerNeuron rt netuid hotkey) netuid := by
  have hword := (chain.subnets netuid).maxAllowedUids.isLt
  unfold registerNeuron Neurons.registerNeuron
  simp only
  by_cases hlt : (chain.neurons netuid).subnetworkN.val <
      (chain.subnets netuid).maxAllowedUids.val
  · rw [if_pos hlt, if_pos hlt]
    exact appendNeuron_subnetUids hagree hexists (by omega) hfree
  · rw [if_neg hlt, if_neg hlt]
    have hpos : 0 < (chain.neurons netuid).subnetworkN.val := by omega
    -- the slot to prune is in use
    have hpruned : ((chain.neurons netuid).getNeuronToPrune
        (chain.subnets netuid).subnetOwnerHotkey chain.block
        (chain.subnets netuid).immunityPeriod).1.val < (chain.neurons netuid).subnetworkN.val :=
      Neurons.getNeuronToPrune_lt hpos
    rw [← hagree.slots.range, Option.isSome_iff_exists] at hpruned
    obtain ⟨oldHotkey, hold⟩ := hpruned
    exact replaceNeuron_subnetUids hagree Neurons.getNeuronToPrune_sameSlots hold hfree _ _

/-! ## Other subnets -/

theorem withNeurons_keeps {netuid' : NetUid} (hne : netuid' ≠ netuid) {neurons : Neurons A}
    {members : StorageMap (A × NetUid) Bool}
    (hmember : ∀ hotkey, members.lookup (hotkey, netuid') =
      chain.isNetworkMember.lookup (hotkey, netuid')) :
    KeepsSubnetUids netuid' chain (chain.withNeurons netuid neurons members) := by
  refine ⟨?_, hmember, rfl⟩
  show Neurons.SameSlots _ (Function.update chain.neurons netuid neurons netuid')
  rw [Function.update_of_ne hne]
  exact ⟨rfl, rfl, rfl⟩

theorem lookup_insert_of_ne {netuid' : NetUid} (hne : netuid' ≠ netuid)
    (members : StorageMap (A × NetUid) Bool) (hotkey key : A) (member : Bool) :
    (members.insert (key, netuid) member).lookup (hotkey, netuid') =
      members.lookup (hotkey, netuid') :=
  AList.lookup_insert_ne fun h => hne (Prod.ext_iff.mp h).2

theorem lookup_erase_of_ne {netuid' : NetUid} (hne : netuid' ≠ netuid)
    (members : StorageMap (A × NetUid) Bool) (hotkey key : A) :
    (members.erase (key, netuid)).lookup (hotkey, netuid') = members.lookup (hotkey, netuid') :=
  AList.lookup_erase_ne fun h => hne (Prod.ext_iff.mp h).2

theorem registerNeuron_keeps {netuid' : NetUid} (hne : netuid' ≠ netuid) :
    KeepsSubnetUids netuid' chain (chain.registerNeuron rt netuid hotkey) := by
  unfold registerNeuron
  simp only
  apply withNeurons_keeps hne
  intro hotkey'
  split
  · exact lookup_insert_of_ne hne ..
  · split
    · rfl
    · exact (lookup_insert_of_ne hne ..).trans (lookup_erase_of_ne hne ..)

end Chain

end Subtensor
