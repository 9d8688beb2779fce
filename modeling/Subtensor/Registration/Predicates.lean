import Subtensor.Registration.UidRuns
import Subtensor.Weights.SetWeights

/-!
# Who is registered

Three predicates say that a hotkey is registered (`subnets/uids.rs`): one looks for its uid,
one for a key of `IsNetworkMember`, whatever the value, and one for a value that is `true`. A
swap of hotkeys writes the membership of the new hotkey on every subnet it is made on, and
writes `false` where the old hotkey was no member: from then on the predicates disagree.
-/

namespace Subtensor.Chain

open Lib

variable {A B P : Type} [DecidableEq A] {rt : Runtime A B P} {chain chain' : Chain A B P}
  {netuid : NetUid} {coldkey hotkey oldHotkey newHotkey : A}

structure PredicatesAgree (chain : Chain A B P) : Prop where
  specific : ∀ hotkey netuid, chain.isHotkeyRegisteredOnSpecificNetwork hotkey netuid = true ↔
    chain.isHotkeyRegisteredOnNetwork netuid hotkey = true
  any : ∀ hotkey, chain.isHotkeyRegisteredOnAnyNetwork hotkey = true ↔
    ∃ netuid, chain.isHotkeyRegisteredOnSpecificNetwork hotkey netuid = true ∨
      chain.isHotkeyRegisteredOnNetwork netuid hotkey = true

/-! ## Memberships that are stored as false -/

/-- Whatever membership is stored is `true`. -/
def AllMembers (members : StorageMap (A × NetUid) Bool) : Prop :=
  ∀ key, members.lookup key ≠ some false

theorem isHotkeyRegisteredOnAnyNetwork_iff :
    chain.isHotkeyRegisteredOnAnyNetwork hotkey = true ↔
      ∃ netuid, chain.isNetworkMember.lookup (hotkey, netuid) = some true := by
  unfold isHotkeyRegisteredOnAnyNetwork
  rw [List.any_eq_true]
  constructor
  · rintro ⟨⟨⟨key, netuid⟩, member⟩, hmem, htrue⟩
    obtain ⟨rfl, rfl⟩ : key = hotkey ∧ member = true := by simpa using htrue
    exact ⟨netuid, StorageMap.mem_entries_iff.mp hmem⟩
  · rintro ⟨netuid, hmember⟩
    exact ⟨⟨(hotkey, netuid), true⟩, StorageMap.mem_entries_iff.mpr hmember, by simp⟩

/-- **Agreement.** When the slots are in order, the predicates agree exactly if no membership is
stored as `false`. -/
theorem predicatesAgree_iff (hagree : UidsAgree chain) :
    PredicatesAgree chain ↔ AllMembers chain.isNetworkMember := by
  have hslot : ∀ hotkey netuid, chain.isHotkeyRegisteredOnNetwork netuid hotkey = true ↔
      chain.isNetworkMember.lookup (hotkey, netuid) = some true :=
    fun hotkey netuid => ((hagree netuid).member hotkey).symm
  constructor
  · rintro h ⟨hotkey, netuid⟩ hfalse
    have hkey : chain.isHotkeyRegisteredOnSpecificNetwork hotkey netuid = true := by
      rw [isHotkeyRegisteredOnSpecificNetwork, hfalse]
      rfl
    have hmember := (hslot hotkey netuid).mp ((h.specific hotkey netuid).mp hkey)
    rw [hfalse] at hmember
    cases hmember
  · intro h
    have hkey : ∀ hotkey netuid, chain.isHotkeyRegisteredOnSpecificNetwork hotkey netuid = true ↔
        chain.isNetworkMember.lookup (hotkey, netuid) = some true := by
      intro hotkey netuid
      unfold isHotkeyRegisteredOnSpecificNetwork
      rcases hlookup : chain.isNetworkMember.lookup (hotkey, netuid) with _ | _ | _
      · simp
      · exact absurd hlookup (h _)
      · simp
    refine ⟨fun hotkey netuid => (hkey hotkey netuid).trans (hslot hotkey netuid).symm, ?_⟩
    intro hotkey
    simp only [isHotkeyRegisteredOnAnyNetwork_iff, hkey, hslot, or_self]

section

variable {members : StorageMap (A × NetUid) Bool} {key : A × NetUid}

theorem AllMembers.insert_true (h : AllMembers members) : AllMembers (members.insert key true) := by
  intro other
  by_cases heq : other = key
  · subst heq
    rw [AList.lookup_insert]
    simp
  · rw [AList.lookup_insert_ne heq]
    exact h other

theorem AllMembers.erase (h : AllMembers members) : AllMembers (members.erase key) := by
  intro other
  by_cases heq : other = key
  · subst heq
    rw [AList.lookup_erase]
    simp
  · rw [AList.lookup_erase_ne heq]
    exact h other

theorem AllMembers.foldl_erase (h : AllMembers members) (keys : List (A × NetUid)) :
    AllMembers (keys.foldl (fun members key => members.erase key) members) := by
  induction keys generalizing members with
  | nil => exact h
  | cons key keys ih => exact ih h.erase

end

/-! ## Registrations and removals -/

theorem replaced_allMembers (h : AllMembers chain.isNetworkMember) (replaced : Option A) :
    AllMembers (match replaced with
      | none => chain.isNetworkMember
      | some oldHotkey =>
          (chain.isNetworkMember.erase (oldHotkey, netuid)).insert (hotkey, netuid) true) := by
  cases replaced with
  | none => exact h
  | some oldHotkey => exact h.erase.insert_true

theorem registerNeuron_allMembers (h : AllMembers chain.isNetworkMember) :
    AllMembers (chain.registerNeuron rt netuid hotkey).isNetworkMember := by
  show AllMembers (if _ then _ else _)
  split
  · exact h.insert_true
  · exact replaced_allMembers h _

theorem takeRootSlot_allMembers (h : AllMembers chain.isNetworkMember)
    (hslot : chain.takeRootSlot rt hotkey = .ok chain') : AllMembers chain'.isNetworkMember := by
  unfold takeRootSlot at hslot
  split at hslot
  · obtain rfl := Except.ok.inj hslot
    exact h.insert_true
  · extract_lets lowest at hslot
    split at hslot
    · cases hslot
    · obtain ⟨-, hslot⟩ := ite_error_eq_ok.mp hslot
      obtain rfl := Except.ok.inj hslot
      exact replaced_allMembers h _

theorem KeepsUids.allMembers (hkeeps : KeepsUids chain chain')
    (h : AllMembers chain.isNetworkMember) : AllMembers chain'.isNetworkMember := by
  rintro ⟨hotkey, netuid⟩
  rw [(hkeeps netuid).member]
  exact h _

theorem createNetwork_isNetworkMember {defaultTempo mechid : U16} {lock : U64} :
    (chain.createNetwork defaultTempo netuid coldkey hotkey mechid lock).isNetworkMember =
      chain.isNetworkMember.insert (hotkey, netuid) true := by
  unfold createNetwork splitLock
  extract_lets lock' lockedChain registered pool rest burned
  have hregistered : registered.isNetworkMember =
      chain.isNetworkMember.insert (hotkey, netuid) true := by
    obtain ⟨accounts, haccounts⟩ : ∃ accounts,
        (lockedChain.initNewNetwork netuid defaultTempo).createAccountIfNonExistent coldkey
          hotkey = (lockedChain.initNewNetwork netuid defaultTempo).withAccounts accounts :=
      createAccountIfNonExistent_frame
    show (((lockedChain.initNewNetwork netuid defaultTempo).createAccountIfNonExistent coldkey
      hotkey).appendNeuron netuid hotkey).isNetworkMember = _
    rw [haccounts]
    rfl
  have hburned : burned.isNetworkMember = registered.isNetworkMember := by
    show (if _ then _ else _ : Chain A B P).isNetworkMember = _
    split
    · rfl
    · rfl
  rw [← hregistered, ← hburned]
  split
  · rfl
  · rfl

/-! ## Swaps -/

/-- The old hotkey is a member of every subnet on which it is swapped. -/
def SwapsMember (chain : Chain A B P) (oldHotkey : A) (onSubnet : Option NetUid) : Prop :=
  ∀ netuid ∈ chain.swappedSubnets onSubnet,
    chain.isNetworkMember.lookup (oldHotkey, netuid) = some true

/-- A swap stores a membership as `false` exactly if the old hotkey was no member somewhere. -/
theorem performHotkeySwapOnSubnets_allMembers_iff {netuids : List NetUid} (hnodup : netuids.Nodup)
    (hne : oldHotkey ≠ newHotkey) (h : AllMembers chain.isNetworkMember) :
    AllMembers (chain.performHotkeySwapOnSubnets oldHotkey newHotkey netuids).isNetworkMember ↔
      ∀ netuid ∈ netuids, chain.isNetworkMember.lookup (oldHotkey, netuid) = some true := by
  constructor
  · intro hall netuid hmem
    have hnew := (performHotkeySwapOnSubnets_member chain hnodup hne hmem).1
    rcases hold : chain.isNetworkMember.lookup (oldHotkey, netuid) with _ | _ | _
    · rw [hold] at hnew
      exact absurd hnew (hall _)
    · exact absurd hold (h _)
    · rfl
  · rintro hmembers ⟨hotkey, netuid⟩
    by_cases hmem : netuid ∈ netuids
    · obtain ⟨hnew, hold⟩ := performHotkeySwapOnSubnets_member chain hnodup hne hmem
      by_cases hkeyNew : hotkey = newHotkey
      · subst hkeyNew
        rw [hnew, hmembers netuid hmem]
        simp
      · by_cases hkeyOld : hotkey = oldHotkey
        · subst hkeyOld
          rw [hold]
          simp
        · rw [performHotkeySwapOnSubnets_member_ne netuids chain netuid hkeyNew hkeyOld]
          exact h _
    · rw [performHotkeySwapOnSubnets_member_of_not_mem oldHotkey newHotkey chain hmem]
      exact h _

theorem doSwapHotkey_allMembers_iff {onSubnet : Option NetUid}
    (h : AllMembers chain.isNetworkMember)
    (hswap : chain.doSwapHotkey rt coldkey oldHotkey newHotkey onSubnet = .ok chain') :
    AllMembers chain'.isNetworkMember ↔ chain.SwapsMember oldHotkey onSubnet := by
  obtain ⟨-, hne, -⟩ := doSwapHotkey_ok hswap
  rw [doSwapHotkey_isNetworkMember hswap]
  exact performHotkeySwapOnSubnets_allMembers_iff (swappedSubnets_nodup chain onSubnet) hne h

/-- **A swap** keeps the predicates in agreement exactly if the old hotkey is a member of every
subnet on which it is swapped. -/
theorem doSwapHotkey_predicatesAgree_iff {onSubnet : Option NetUid} (hagree : UidsAgree chain)
    (h : PredicatesAgree chain)
    (hswap : chain.doSwapHotkey rt coldkey oldHotkey newHotkey onSubnet = .ok chain') :
    PredicatesAgree chain' ↔ chain.SwapsMember oldHotkey onSubnet := by
  rw [predicatesAgree_iff (doSwapHotkey_uidsAgree hagree hswap)]
  exact doSwapHotkey_allMembers_iff ((predicatesAgree_iff hagree).mp h) hswap

/-! ## Runs -/

/-- A step of a run in which hotkeys are swapped on subnets of which they are members. -/
inductive MemberStep (rt : Runtime A B P) (chain chain' : Chain A B P) : Prop
  | burnedRegistration (coldkey : A) (netuid : NetUid) (hotkey : A)
      (h : chain.doBurnedRegistration rt coldkey netuid hotkey = .ok chain')
  | registration (sealHash : U64 → U64 → A → List UInt8) (signingOrigin : A) (netuid : NetUid)
      (blockNumber nonce : U64) (work : List UInt8) (hotkey coldkey : A)
      (h : chain.doRegistration rt sealHash signingOrigin netuid blockNumber nonce work hotkey
        coldkey = some (.ok chain'))
  | rootRegister (senate : Senate A) (coldkey hotkey : A)
      (h : chain.doRootRegister rt senate coldkey hotkey = .ok chain')
  | registerNetwork (defaultTempo : U16) (coldkey hotkey : A) (mechid : U16)
      (identity : Option SubnetIdentity)
      (h : chain.doRegisterNetwork rt defaultTempo coldkey hotkey mechid identity =
        some (.ok chain'))
  | swapHotkey (coldkey oldHotkey newHotkey : A) (onSubnet : Option NetUid)
      (h : chain.doSwapHotkey rt coldkey oldHotkey newHotkey onSubnet = .ok chain')
      (hmember : chain.SwapsMember oldHotkey onSubnet)
  | removeNetwork (terms : RemovalTerms) (netuid : NetUid)
      (h : chain' = chain.removeNetwork rt terms netuid)
  | other (h : KeepsUids chain chain')

theorem MemberStep.uidStep (h : MemberStep rt chain chain') : UidStep rt chain chain' := by
  cases h with
  | burnedRegistration coldkey netuid hotkey h => exact .burnedRegistration coldkey netuid hotkey h
  | registration sealHash signingOrigin netuid blockNumber nonce work hotkey coldkey h =>
      exact .registration sealHash signingOrigin netuid blockNumber nonce work hotkey coldkey h
  | rootRegister senate coldkey hotkey h => exact .rootRegister senate coldkey hotkey h
  | registerNetwork defaultTempo coldkey hotkey mechid identity h =>
      exact .registerNetwork defaultTempo coldkey hotkey mechid identity h
  | swapHotkey coldkey oldHotkey newHotkey onSubnet h _ =>
      exact .swapHotkey coldkey oldHotkey newHotkey onSubnet h
  | removeNetwork terms netuid h => exact .removeNetwork terms netuid h
  | other h => exact .other h

/-- **One step** stores no membership as `false`. -/
theorem MemberStep.allMembers (hstep : MemberStep rt chain chain')
    (h : AllMembers chain.isNetworkMember) : AllMembers chain'.isNetworkMember := by
  cases hstep with
  | burnedRegistration coldkey netuid hotkey hok =>
      obtain ⟨-, -, -, ledger, swap, reserves, accounts, rfl⟩ := doBurnedRegistration_ok hok
      exact registerNeuron_allMembers h
  | registration sealHash signingOrigin netuid blockNumber nonce work hotkey coldkey hok =>
      obtain ⟨-, -, -, accounts, rfl⟩ := doRegistration_ok hok
      exact registerNeuron_allMembers h
  | rootRegister senate coldkey hotkey hok =>
      obtain ⟨-, -, accounts, slotted, joined, hslot, hjoin, hkeeps⟩ := doRootRegister_slots hok
      have hstart : AllMembers (chain.withAccounts accounts).isNetworkMember := h
      have hslotted := takeRootSlot_allMembers hstart hslot
      exact hkeeps.allMembers ((joinSenateIfEligible_keeps hjoin).allMembers hslotted)
  | registerNetwork defaultTempo coldkey hotkey mechid identity hok =>
      obtain ⟨netuid, chain₁, lock, -, hremove, rfl⟩ := doRegisterNetwork_ok hok
      obtain ⟨currency, rfl⟩ := removeBalance_frame hremove
      rw [createNetwork_isNetworkMember]
      exact h.insert_true
  | swapHotkey coldkey oldHotkey newHotkey onSubnet hok hmember =>
      exact (doSwapHotkey_allMembers_iff h hok).mpr hmember
  | removeNetwork terms netuid hremoved =>
      subst hremoved
      rw [removeNetwork_isNetworkMember]
      exact h.foldl_erase _
  | other hkeeps => exact hkeeps.allMembers h

/-- **The predicates agree** in every state that is reached when hotkeys are swapped only on
subnets of which they are members; and the first swap that is not leaves a state in which they
disagree. -/
theorem predicatesAgree_run (hstart : NoNeurons chain)
    (hmembers : AllMembers chain.isNetworkMember)
    (hrun : Relation.ReflTransGen (MemberStep rt) chain chain') :
    PredicatesAgree chain' ∧
      ∀ (coldkey oldHotkey newHotkey : A) (onSubnet : Option NetUid) (swapped : Chain A B P),
        chain'.doSwapHotkey rt coldkey oldHotkey newHotkey onSubnet = .ok swapped →
          (PredicatesAgree swapped ↔ chain'.SwapsMember oldHotkey onSubnet) := by
  obtain ⟨hagree, hall⟩ : UidsAgree chain' ∧ AllMembers chain'.isNetworkMember := by
    induction hrun with
    | refl => exact ⟨hstart.uidsAgree, hmembers⟩
    | tail _ hstep ih => exact ⟨hstep.uidStep.uidsAgree ih.1, hstep.allMembers ih.2⟩
  have hpredicates := (predicatesAgree_iff hagree).mpr hall
  exact ⟨hpredicates, fun coldkey oldHotkey newHotkey onSubnet swapped hswap =>
    doSwapHotkey_predicatesAgree_iff hagree hpredicates hswap⟩

/-- The coldkey `10` registers its hotkey `2` and swaps it for the hotkey `4` on that subnet. -/
theorem predicatesAgree_run_lateChain :
    ∃ chain₁ chain', lateChain.doBurnedRegistration runtime 10 (.sat 1) 2 = .ok chain₁ ∧
      chain₁.doSwapHotkey runtime 10 2 4 (some (.sat 1)) = .ok chain' ∧
      PredicatesAgree chain' := by
  have hregister : (lateChain.doBurnedRegistration runtime 10 (.sat 1) 2).toOption.map
      (fun chain => ((chain.doSwapHotkey runtime 10 2 4 (some (.sat 1))).toOption.map fun _ => (),
        chain.isNetworkMember.lookup (2, .sat 1))) = some (some (), some true) := by
    decide +kernel
  obtain ⟨chain₁, hok₁, hboth⟩ := exists_ok_of_toOption_map hregister
  obtain ⟨hswap, hmember⟩ := Prod.mk.inj hboth
  obtain ⟨chain', hok', -⟩ := exists_ok_of_toOption_map hswap
  have hswaps : chain₁.SwapsMember 2 (some (.sat 1)) := by
    intro netuid hmem
    rw [List.mem_singleton.mp hmem]
    exact hmember
  have hrun : Relation.ReflTransGen (MemberStep runtime) lateChain chain' :=
    (Relation.ReflTransGen.single (.burnedRegistration 10 (.sat 1) 2 hok₁)).tail
      (.swapHotkey 10 2 4 (some (.sat 1)) hok' hswaps)
  have hstart : NoNeurons lateChain := ⟨fun _ => ⟨rfl, rfl, rfl⟩, fun _ _ => nofun⟩
  have hmembers : AllMembers lateChain.isNetworkMember := fun _ => by simp [lateChain, smallChain]
  exact ⟨chain₁, chain', hok₁, hok', (predicatesAgree_run hstart hmembers hrun).1⟩

/-- The coldkey `10` registers its hotkey `2` on subnet `1` and swaps it for the hotkey `4` on
all subnets: `4` is then known on root, where it has no slot. -/
theorem predicates_disagree :
    NoNeurons smallChain ∧ AllMembers smallChain.isNetworkMember ∧
      ∃ chain₁ chain', smallChain.doBurnedRegistration runtime 10 (.sat 1) 2 = .ok chain₁ ∧
        chain₁.doSwapHotkey runtime 10 2 4 none = .ok chain' ∧
        Relation.ReflTransGen (UidStep runtime) smallChain chain' ∧
        chain'.isHotkeyRegisteredOnSpecificNetwork 4 .ROOT = true ∧
        chain'.isHotkeyRegisteredOnNetwork .ROOT 4 = false := by
  have hregister : (smallChain.doBurnedRegistration runtime 10 (.sat 1) 2).toOption.map
      (fun chain => (chain.doSwapHotkey runtime 10 2 4 none).toOption.map fun chain =>
        (chain.isHotkeyRegisteredOnSpecificNetwork 4 .ROOT,
          chain.isHotkeyRegisteredOnNetwork .ROOT 4)) = some (some (true, false)) := by
    decide +kernel
  obtain ⟨chain₁, hok₁, hswap⟩ := exists_ok_of_toOption_map hregister
  obtain ⟨chain', hok', hboth⟩ := exists_ok_of_toOption_map hswap
  obtain ⟨hspecific, hslot⟩ := Prod.mk.inj hboth
  exact ⟨smallChain_noNeurons, fun _ => by simp [smallChain], chain₁, chain', hok₁, hok',
    (Relation.ReflTransGen.single (.burnedRegistration 10 (.sat 1) 2 hok₁)).tail
      (.swapHotkey 10 2 4 none hok'), hspecific, hslot⟩

end Subtensor.Chain
