import Subtensor.Registration.Issuance
import Subtensor.Registration.Uids

/-!
# Slots along a run

Every call that fills, moves or clears a slot keeps the four maps in agreement
on every subnet, in whatever order the calls come.
-/

namespace Subtensor.Chain

open Lib

variable {A B P : Type} [DecidableEq A] {rt : Runtime A B P} {chain chain₁ chain' : Chain A B P}
  {netuid : NetUid} {coldkey hotkey oldHotkey newHotkey : A}

/-- The four maps agree on every subnet. -/
def UidsAgree (chain : Chain A B P) : Prop := ∀ netuid, SubnetUids chain netuid

/-- The four maps are as before on every subnet. -/
def KeepsUids (chain chain' : Chain A B P) : Prop := ∀ netuid, KeepsSubnetUids netuid chain chain'

theorem keepsUids_of_eq (hneurons : chain'.neurons = chain.neurons)
    (hmember : chain'.isNetworkMember = chain.isNetworkMember)
    (hadded : chain'.networksAdded = chain.networksAdded) : KeepsUids chain chain' := by
  intro netuid
  refine ⟨?_, fun _ => by rw [hmember], by rw [hadded]⟩
  rw [hneurons]
  exact ⟨rfl, rfl, rfl⟩

theorem KeepsUids.uidsAgree (h : KeepsUids chain chain') (hagree : UidsAgree chain) :
    UidsAgree chain' :=
  fun netuid => (h netuid).subnetUids (hagree netuid)

theorem UidsAgree.of_eq (hagree : UidsAgree chain) (hneurons : chain'.neurons = chain.neurons)
    (hmember : chain'.isNetworkMember = chain.isNetworkMember)
    (hadded : chain'.networksAdded = chain.networksAdded) : UidsAgree chain' :=
  (keepsUids_of_eq hneurons hmember hadded).uidsAgree hagree

omit [DecidableEq A] in
theorem ifSubnetExist_lookup (h : chain.ifSubnetExist netuid = true) :
    chain.networksAdded.lookup netuid ≠ none := by
  intro hnone
  rw [ifSubnetExist, hnone] at h
  cases h

/-! ## Registration of a neuron -/

theorem registerNeuron_uidsAgree (hagree : UidsAgree chain)
    (hexists : chain.ifSubnetExist netuid = true)
    (hmax : (chain.subnets netuid).maxAllowedUids.val ≠ 0)
    (hfree : (chain.neurons netuid).uids hotkey = none) :
    UidsAgree (chain.registerNeuron rt netuid hotkey) := by
  intro netuid'
  by_cases hne : netuid' = netuid
  · subst hne
    exact registerNeuron_subnetUids (hagree netuid') (ifSubnetExist_lookup hexists) hmax hfree
  · exact (registerNeuron_keeps hne).subnetUids (hagree netuid')

theorem createAccountIfNonExistent_frame :
    ∃ accounts, chain.createAccountIfNonExistent coldkey hotkey =
      chain.withAccounts accounts := by
  unfold createAccountIfNonExistent
  split
  · exact ⟨chain.accounts, rfl⟩
  · exact ⟨_, rfl⟩

omit [DecidableEq A] in
theorem burnOnSubnet_frame {tao : U64} (h : chain.burnOnSubnet rt netuid tao = .ok chain') :
    ∃ ledger swap reserves,
      chain' = { chain with ledger := ledger, swap := swap, reserves := reserves } := by
  unfold burnOnSubnet at h
  rcases swapTaoForAlpha_cases rt chain netuid tao rt.swap.maxPrice with
    ⟨-, heq⟩ | ⟨-, swap, _, -, ⟨_, -, heq⟩ | ⟨_, -, heq⟩⟩
  · rw [heq] at h
    exact ⟨_, _, _, (Except.ok.inj h).symm⟩
  · rw [heq] at h
    cases h
  · rw [heq] at h
    exact ⟨_, _, _, (Except.ok.inj h).symm⟩

/-- **A burned registration that succeeds** passed its checks and registers
the hotkey; apart from that it paid, and made an account. -/
theorem doBurnedRegistration_ok
    (h : chain.doBurnedRegistration rt coldkey netuid hotkey = .ok chain') :
    chain.ifSubnetExist netuid = true ∧ (chain.subnets netuid).maxAllowedUids.val ≠ 0 ∧
      (chain.neurons netuid).uids hotkey = none ∧
      ∃ ledger swap reserves accounts,
        chain' = (({ chain.withAccounts accounts with
            ledger := ledger, swap := swap, reserves := reserves } : Chain A B P).registerNeuron rt
              netuid hotkey).countBurnRegistration netuid := by
  obtain ⟨event, h⟩ := map_fst_eq_ok.mp h
  unfold doBurnedRegistrationEvent at h
  obtain ⟨-, h⟩ := ite_error_eq_ok.mp h
  obtain ⟨hexists, h⟩ := ite_error_eq_ok.mp h
  obtain ⟨-, h⟩ := ite_error_eq_ok.mp h
  obtain ⟨-, h⟩ := ite_error_eq_ok.mp h
  obtain ⟨-, h⟩ := ite_error_eq_ok.mp h
  obtain ⟨hfree, h⟩ := ite_error_eq_ok.mp h
  obtain ⟨-, h⟩ := ite_error_eq_ok.mp h
  obtain ⟨-, h⟩ := ite_error_eq_ok.mp h
  obtain ⟨hmax, h⟩ := ite_error_eq_ok.mp h
  refine ⟨not_not.mp hexists, hmax, Option.not_isSome_iff_eq_none.mp hfree, ?_⟩
  obtain ⟨accounts, haccounts⟩ : ∃ accounts, chain.createAccountIfNonExistent coldkey hotkey =
      chain.withAccounts accounts := createAccountIfNonExistent_frame
  rw [haccounts] at h
  cases hremove : (chain.withAccounts accounts).removeBalanceFromColdkeyAccount rt coldkey
      (chain.subnets netuid).burn with
  | error e =>
      simp only [hremove] at h
      cases h
  | ok paid =>
      obtain ⟨chain₁, actualBurnAmount⟩ := paid
      simp only [hremove] at h
      obtain ⟨currency, rfl⟩ := removeBalance_frame hremove
      cases hburn : ((chain.withAccounts accounts).setCurrency currency).burnOnSubnet rt netuid
          actualBurnAmount with
      | error e =>
          rw [hburn] at h
          cases h
      | ok chain₂ =>
          rw [hburn] at h
          obtain ⟨ledger, swap, reserves, rfl⟩ := burnOnSubnet_frame hburn
          exact ⟨ledger, swap, reserves, accounts, (Prod.mk.inj (Except.ok.inj h)).1.symm⟩

theorem doRegistration_ok {sealHash : U64 → U64 → A → List UInt8} {signingOrigin : A}
    {blockNumber nonce : U64} {work : List UInt8}
    (h : chain.doRegistration rt sealHash signingOrigin netuid blockNumber nonce work hotkey
      coldkey = some (.ok chain')) :
    chain.ifSubnetExist netuid = true ∧ (chain.subnets netuid).maxAllowedUids.val ≠ 0 ∧
      (chain.neurons netuid).uids hotkey = none ∧
      ∃ accounts, chain' =
        ((chain.withAccounts accounts).registerNeuron rt netuid hotkey).countPowRegistration
          netuid := by
  obtain ⟨event, h⟩ := map_map_fst_eq_ok.mp h
  unfold doRegistrationEvent at h
  obtain ⟨-, h⟩ := ite_some_error_eq_ok.mp h
  obtain ⟨-, h⟩ := ite_some_error_eq_ok.mp h
  obtain ⟨hexists, h⟩ := ite_some_error_eq_ok.mp h
  obtain ⟨-, h⟩ := ite_some_error_eq_ok.mp h
  obtain ⟨-, h⟩ := ite_some_error_eq_ok.mp h
  obtain ⟨-, h⟩ := ite_some_error_eq_ok.mp h
  obtain ⟨hfree, h⟩ := ite_some_error_eq_ok.mp h
  obtain ⟨-, h⟩ := ite_some_error_eq_ok.mp h
  obtain ⟨-, h⟩ := ite_some_error_eq_ok.mp h
  split at h
  · cases h
  · obtain ⟨-, h⟩ := ite_some_error_eq_ok.mp h
    obtain ⟨-, h⟩ := ite_some_error_eq_ok.mp h
    obtain ⟨-, h⟩ := ite_some_error_eq_ok.mp h
    obtain ⟨hmax, h⟩ := ite_some_error_eq_ok.mp h
    obtain ⟨accounts, haccounts⟩ : ∃ accounts, chain.createAccountIfNonExistent coldkey hotkey =
        chain.withAccounts accounts := createAccountIfNonExistent_frame
    rw [haccounts] at h
    exact ⟨not_not.mp hexists, hmax, Option.not_isSome_iff_eq_none.mp hfree, accounts,
      (Prod.mk.inj (Except.ok.inj (Option.some.inj h))).1.symm⟩

/-! ## Registration on root -/

theorem takeRootSlot_uidsAgree (hagree : UidsAgree chain)
    (hexists : chain.ifSubnetExist .ROOT = true) (hfree : (chain.neurons .ROOT).uids hotkey = none)
    (h : chain.takeRootSlot rt hotkey = .ok chain') : UidsAgree chain' := by
  have hother : ∀ netuid' ≠ NetUid.ROOT, ∀ neurons members,
      (∀ hotkey, members.lookup (hotkey, netuid') =
        chain.isNetworkMember.lookup (hotkey, netuid')) →
      SubnetUids (chain.withNeurons .ROOT neurons members) netuid' :=
    fun netuid' hne _ _ hmember => (withNeurons_keeps hne hmember).subnetUids (hagree netuid')
  have hword := (chain.subnets .ROOT).maxAllowedUids.isLt
  unfold takeRootSlot at h
  split at h
  · rename_i hlt
    obtain rfl := Except.ok.inj h
    intro netuid'
    by_cases hne : netuid' = .ROOT
    · subst hne
      exact appendNeuron_subnetUids (hagree .ROOT) (ifSubnetExist_lookup hexists) (by omega) hfree
    · exact hother netuid' hne _ _ fun _ => lookup_insert_of_ne hne ..
  · extract_lets lowest at h
    split at h
    · cases h
    · rename_i oldHotkey hold
      obtain ⟨-, h⟩ := ite_error_eq_ok.mp h
      obtain rfl := Except.ok.inj h
      intro netuid'
      by_cases hne : netuid' = .ROOT
      · subst hne
        exact replaceNeuron_subnetUids (hagree .ROOT) ⟨rfl, rfl, rfl⟩ hold hfree _ _
      · refine hother netuid' hne _ _ ?_
        intro hotkey'
        split
        · rfl
        · exact (lookup_insert_of_ne hne ..).trans (lookup_erase_of_ne hne ..)

theorem joinSenateIfEligible_keeps {senate : Senate A}
    (h : chain.joinSenateIfEligible rt senate hotkey = .ok chain') : KeepsUids chain chain' := by
  unfold joinSenateIfEligible at h
  extract_lets stake at h
  obtain ⟨-, h⟩ := ite_error_eq_ok.mp h
  obtain ⟨-, h⟩ := ite_error_eq_ok.mp h
  split at h
  · split at h
    · obtain rfl := Except.ok.inj h
      exact keepsUids_of_eq rfl rfl rfl
    · split at h
      · split at h
        · cases h
        · obtain rfl := Except.ok.inj h
          exact keepsUids_of_eq rfl rfl rfl
      · obtain rfl := Except.ok.inj h
        exact keepsUids_of_eq rfl rfl rfl
  · split at h
    · cases h
    · obtain rfl := Except.ok.inj h
      exact keepsUids_of_eq rfl rfl rfl

theorem delegateHotkey_keeps (chain : Chain A B P) (hotkey : A) :
    KeepsUids chain (chain.delegateHotkey hotkey) := by
  unfold delegateHotkey
  split
  · exact keepsUids_of_eq rfl rfl rfl
  · exact keepsUids_of_eq rfl rfl rfl

/-- A registration on root that succeeds: the slot, the Senate, and what touches neither. -/
theorem doRootRegister_slots {senate : Senate A}
    (h : chain.doRootRegister rt senate coldkey hotkey = .ok chain') :
    chain.ifSubnetExist .ROOT = true ∧ (chain.neurons .ROOT).uids hotkey = none ∧
      ∃ accounts slotted joined,
        (chain.withAccounts accounts).takeRootSlot rt hotkey = .ok slotted ∧
          slotted.joinSenateIfEligible rt senate hotkey = .ok joined ∧
          KeepsUids joined chain' := by
  obtain ⟨event, h⟩ := map_fst_eq_ok.mp h
  unfold doRootRegisterEvent at h
  obtain ⟨hexists, h⟩ := ite_error_eq_ok.mp h
  obtain ⟨-, h⟩ := ite_error_eq_ok.mp h
  obtain ⟨-, h⟩ := ite_error_eq_ok.mp h
  obtain ⟨hfree, h⟩ := ite_error_eq_ok.mp h
  obtain ⟨accounts, haccounts⟩ : ∃ accounts, chain.createAccountIfNonExistent coldkey hotkey =
      chain.withAccounts accounts := createAccountIfNonExistent_frame
  rw [haccounts] at h
  refine ⟨not_not.mp hexists, Option.not_isSome_iff_eq_none.mp hfree, accounts, ?_⟩
  extract_lets chain₁ uid at h
  split at h
  · cases h
  · rename_i slotted hslot
    split at h
    · cases h
    · rename_i joined hjoin
      obtain ⟨rfl, -⟩ := Prod.mk.inj (Except.ok.inj h)
      refine ⟨slotted, joined, hslot, hjoin, fun netuid => ?_⟩
      obtain ⟨hneurons, hmember, hadded⟩ := delegateHotkey_keeps joined hotkey netuid
      exact ⟨hneurons, hmember, hadded⟩

theorem doRootRegister_uidsAgree {senate : Senate A} (hagree : UidsAgree chain)
    (h : chain.doRootRegister rt senate coldkey hotkey = .ok chain') : UidsAgree chain' := by
  obtain ⟨hexists, hfree, accounts, slotted, joined, hslot, hjoin, hkeeps⟩ :=
    doRootRegister_slots h
  have hstart : UidsAgree (chain.withAccounts accounts) := hagree.of_eq rfl rfl rfl
  have hslots := takeRootSlot_uidsAgree hstart hexists hfree hslot
  exact hkeeps.uidsAgree ((joinSenateIfEligible_keeps hjoin).uidsAgree hslots)

/-! ## Hotkey swaps -/

theorem not_member_of_not_registered
    (h : chain.isHotkeyRegisteredOnAnyNetwork hotkey = false) (netuid : NetUid) :
    chain.isNetworkMember.lookup (hotkey, netuid) ≠ some true := by
  intro hmember
  have hmem : (⟨(hotkey, netuid), true⟩ : Sigma fun _ : A × NetUid => Bool) ∈
      chain.isNetworkMember.entries := StorageMap.mem_entries_iff.mpr hmember
  have hall := List.any_eq_false.mp h _ hmem
  simp at hall

/-- A slot moves to the new hotkey, which is not a member of the subnet. -/
theorem performHotkeySwapOnOneSubnet_subnetUids (hagree : SubnetUids chain netuid)
    (hne : oldHotkey ≠ newHotkey)
    (hnew : chain.isNetworkMember.lookup (newHotkey, netuid) ≠ some true) :
    SubnetUids (chain.performHotkeySwapOnOneSubnet oldHotkey newHotkey netuid) netuid := by
  have hfree : (chain.neurons netuid).uids newHotkey = none := by
    rw [← Option.not_isSome_iff_eq_none, ← hagree.member]
    exact hnew
  unfold performHotkeySwapOnOneSubnet
  extract_lets isMember stakes moved
  by_cases hmember : chain.isNetworkMember.lookup (oldHotkey, netuid) = some true
  · have hisMember : isMember = true := by
      show (chain.isNetworkMember.lookup (oldHotkey, netuid)).getD false = true
      rw [hmember]
      rfl
    obtain ⟨uid, huid⟩ := Option.isSome_iff_exists.mp ((hagree.member oldHotkey).mp hmember)
    have hkey : (chain.neurons netuid).keys uid = some oldHotkey :=
      (hagree.slots.bijection uid oldHotkey).mpr huid
    have hneurons : Function.update chain.neurons netuid
        (swapUid (chain.neurons netuid) oldHotkey newHotkey) netuid =
          { chain.neurons netuid with
            uids := Function.update (Function.update (chain.neurons netuid).uids oldHotkey none)
              newHotkey (some uid)
            keys := Function.update (chain.neurons netuid).keys uid (some newHotkey) } := by
      rw [Function.update_self, swapUid, huid]
    rw [hisMember, if_pos rfl]
    refine ⟨?_, ?_, ?_⟩
    · simp only
      rw [hneurons]
      exact Neurons.slots_of_replace hagree.slots hkey hfree rfl rfl rfl
    · simp only
      rw [hneurons]
      exact member_replaced hagree hne
    · simp only
      rw [hneurons]
      exact hagree.absent
  · have hisMember : isMember = false := by
      show (chain.isNetworkMember.lookup (oldHotkey, netuid)).getD false = false
      rcases hlookup : chain.isNetworkMember.lookup (oldHotkey, netuid) with _ | _ | _
      · rfl
      · rfl
      · exact absurd hlookup hmember
    rw [hisMember, if_neg Bool.false_ne_true]
    refine ⟨hagree.slots, ?_, hagree.absent⟩
    intro hotkey
    show ((chain.isNetworkMember.erase (oldHotkey, netuid)).insert (newHotkey, netuid)
      false).lookup (hotkey, netuid) = some true ↔ ((chain.neurons netuid).uids hotkey).isSome = true
    by_cases hkeyNew : hotkey = newHotkey
    · subst hkeyNew
      simp [hfree]
    · rw [AList.lookup_insert_ne (by simpa using hkeyNew), ← hagree.member]
      by_cases hkeyOld : hotkey = oldHotkey
      · subst hkeyOld
        simp [hmember]
      · rw [AList.lookup_erase_ne (by simpa using hkeyOld)]

theorem performHotkeySwapOnOneSubnet_keeps {netuid' : NetUid} (hne : netuid' ≠ netuid) :
    KeepsSubnetUids netuid' chain
      (chain.performHotkeySwapOnOneSubnet oldHotkey newHotkey netuid) := by
  unfold performHotkeySwapOnOneSubnet
  extract_lets isMember stakes moved
  refine ⟨?_, ?_, rfl⟩
  · simp only
    split
    · rw [Function.update_of_ne hne]
      exact ⟨rfl, rfl, rfl⟩
    · exact ⟨rfl, rfl, rfl⟩
  · intro hotkey
    exact (lookup_insert_of_ne hne ..).trans (lookup_erase_of_ne hne ..)

/-- The subnets are swapped one after the other, none of them twice. -/
theorem performHotkeySwapOnSubnets_uidsAgree {netuids : List NetUid} (hagree : UidsAgree chain)
    (hne : oldHotkey ≠ newHotkey) (hnodup : netuids.Nodup)
    (hnew : ∀ netuid ∈ netuids, chain.isNetworkMember.lookup (newHotkey, netuid) ≠ some true) :
    UidsAgree (chain.performHotkeySwapOnSubnets oldHotkey newHotkey netuids) := by
  induction netuids generalizing chain with
  | nil => exact hagree
  | cons netuid netuids ih =>
      obtain ⟨hnotin, hnodup⟩ := List.nodup_cons.mp hnodup
      refine ih ?_ hnodup ?_
      · intro netuid'
        by_cases heq : netuid' = netuid
        · subst heq
          exact performHotkeySwapOnOneSubnet_subnetUids (hagree netuid') hne
            (hnew netuid' List.mem_cons_self)
        · exact (performHotkeySwapOnOneSubnet_keeps heq).subnetUids (hagree netuid')
      · intro netuid' hmem
        have heq : netuid' ≠ netuid := by
          rintro rfl
          exact hnotin hmem
        rw [(performHotkeySwapOnOneSubnet_keeps heq).member]
        exact hnew netuid' (List.mem_cons_of_mem netuid hmem)

theorem doSwapHotkey_uidsAgree {onSubnet : Option NetUid} (hagree : UidsAgree chain)
    (h : chain.doSwapHotkey rt coldkey oldHotkey newHotkey onSubnet = .ok chain') :
    UidsAgree chain' := by
  obtain ⟨-, hne, hfree, ledger, lastBlocks, senateMembers, rfl⟩ := doSwapHotkey_ok h
  have hstart : UidsAgree ({ chain with
      accounts := swapOwner chain.accounts coldkey oldHotkey newHotkey onSubnet.isNone }) :=
    hagree.of_eq rfl rfl rfl
  have hswapped := performHotkeySwapOnSubnets_uidsAgree hstart hne (swappedSubnets_nodup chain onSubnet)
    fun netuid _ => not_member_of_not_registered hfree netuid
  cases onSubnet with
  | none => exact hswapped.of_eq rfl rfl rfl
  | some netuid => exact hswapped.of_eq rfl rfl rfl

theorem performHotkeySwapOnOneSubnet_member (netuid : NetUid) :
    (chain.performHotkeySwapOnOneSubnet oldHotkey newHotkey netuid).isNetworkMember =
      (chain.isNetworkMember.erase (oldHotkey, netuid)).insert (newHotkey, netuid)
        ((chain.isNetworkMember.lookup (oldHotkey, netuid)).getD false) := rfl

/-- The memberships after the swaps follow from those before alone. -/
theorem performHotkeySwapOnSubnets_isNetworkMember (oldHotkey newHotkey : A)
    (netuids : List NetUid) (chain : Chain A B P) :
    (chain.performHotkeySwapOnSubnets oldHotkey newHotkey netuids).isNetworkMember =
      netuids.foldl (fun members netuid =>
        (members.erase (oldHotkey, netuid)).insert (newHotkey, netuid)
          ((members.lookup (oldHotkey, netuid)).getD false)) chain.isNetworkMember := by
  induction netuids generalizing chain with
  | nil => rfl
  | cons netuid netuids ih =>
      exact ih (chain.performHotkeySwapOnOneSubnet oldHotkey newHotkey netuid)

theorem doSwapHotkey_isNetworkMember {onSubnet : Option NetUid}
    (h : chain.doSwapHotkey rt coldkey oldHotkey newHotkey onSubnet = .ok chain') :
    chain'.isNetworkMember = (chain.performHotkeySwapOnSubnets oldHotkey newHotkey
      (chain.swappedSubnets onSubnet)).isNetworkMember := by
  obtain ⟨-, -, -, ledger, lastBlocks, senateMembers, rfl⟩ := doSwapHotkey_ok h
  rw [performHotkeySwapOnSubnets_isNetworkMember]
  unfold swapHotkeyStorage
  dsimp only
  split
  · exact performHotkeySwapOnSubnets_isNetworkMember ..
  · exact performHotkeySwapOnSubnets_isNetworkMember ..

theorem performHotkeySwapOnSubnets_member_ne (netuids : List NetUid) (chain : Chain A B P)
    (netuid : NetUid) (hnew : hotkey ≠ newHotkey) (hold : hotkey ≠ oldHotkey) :
    (chain.performHotkeySwapOnSubnets oldHotkey newHotkey netuids).isNetworkMember.lookup
        (hotkey, netuid) = chain.isNetworkMember.lookup (hotkey, netuid) := by
  induction netuids generalizing chain with
  | nil => rfl
  | cons first rest ih =>
      refine (ih (chain.performHotkeySwapOnOneSubnet oldHotkey newHotkey first)).trans ?_
      rw [performHotkeySwapOnOneSubnet_member, AList.lookup_insert_ne (by simp [hnew]),
        AList.lookup_erase_ne (by simp [hold])]

theorem performHotkeySwapOnSubnets_member_of_not_mem (oldHotkey newHotkey : A)
    {netuids : List NetUid} (chain : Chain A B P) {netuid : NetUid} (hmem : netuid ∉ netuids)
    (hotkey : A) :
    (chain.performHotkeySwapOnSubnets oldHotkey newHotkey netuids).isNetworkMember.lookup
        (hotkey, netuid) = chain.isNetworkMember.lookup (hotkey, netuid) := by
  induction netuids generalizing chain with
  | nil => rfl
  | cons first rest ih =>
      obtain ⟨hne, hrest⟩ := not_or.mp (mt List.mem_cons.mpr hmem)
      refine (ih (chain.performHotkeySwapOnOneSubnet oldHotkey newHotkey first) hrest).trans ?_
      exact (performHotkeySwapOnOneSubnet_keeps hne).member hotkey

/-- On a swapped subnet the new hotkey is a member if the old one was, which
is none any more. -/
theorem performHotkeySwapOnSubnets_member {netuids : List NetUid} (chain : Chain A B P)
    (hnodup : netuids.Nodup) (hne : oldHotkey ≠ newHotkey) {netuid : NetUid} (hmem : netuid ∈ netuids) :
    (chain.performHotkeySwapOnSubnets oldHotkey newHotkey netuids).isNetworkMember.lookup
          (newHotkey, netuid) =
        some ((chain.isNetworkMember.lookup (oldHotkey, netuid)).getD false) ∧
      (chain.performHotkeySwapOnSubnets oldHotkey newHotkey netuids).isNetworkMember.lookup
          (oldHotkey, netuid) = none := by
  induction netuids generalizing chain with
  | nil => cases hmem
  | cons first rest ih =>
      obtain ⟨hfirst, hrest⟩ := List.nodup_cons.mp hnodup
      by_cases heq : netuid = first
      · subst heq
        have hkeep := performHotkeySwapOnSubnets_member_of_not_mem oldHotkey newHotkey
          (chain.performHotkeySwapOnOneSubnet oldHotkey newHotkey netuid) hfirst
        refine ⟨(hkeep newHotkey).trans ?_, (hkeep oldHotkey).trans ?_⟩
        · rw [performHotkeySwapOnOneSubnet_member, AList.lookup_insert]
        · rw [performHotkeySwapOnOneSubnet_member, AList.lookup_insert_ne (by simp [hne]),
            AList.lookup_erase]
      · have hhead : (chain.performHotkeySwapOnOneSubnet oldHotkey newHotkey
            first).isNetworkMember.lookup (oldHotkey, netuid) =
              chain.isNetworkMember.lookup (oldHotkey, netuid) :=
          (performHotkeySwapOnOneSubnet_keeps heq).member oldHotkey
        rw [← hhead]
        exact ih (chain.performHotkeySwapOnOneSubnet oldHotkey newHotkey first) hrest
          ((List.mem_cons.mp hmem).resolve_left heq)

/-- The hotkey has a slot on the subnet. -/
def Registered (chain : Chain A B P) (netuid : NetUid) (hotkey : A) : Prop :=
  ((chain.neurons netuid).uids hotkey).isSome = true

/-- Who has a slot on a subnet after a swap: the new hotkey has that of the old
one, if the subnet is swapped. -/
theorem doSwapHotkey_registered {onSubnet : Option NetUid} (hagree : UidsAgree chain)
    (h : chain.doSwapHotkey rt coldkey oldHotkey newHotkey onSubnet = .ok chain')
    (netuid : NetUid) :
    ¬chain.Registered netuid newHotkey ∧
      (∀ other, other ≠ oldHotkey → other ≠ newHotkey →
        (chain'.Registered netuid other ↔ chain.Registered netuid other)) ∧
      (netuid ∈ chain.swappedSubnets onSubnet → ¬chain'.Registered netuid oldHotkey ∧
        (chain'.Registered netuid newHotkey ↔ chain.Registered netuid oldHotkey)) ∧
      (netuid ∉ chain.swappedSubnets onSubnet → ∀ other,
        (chain'.Registered netuid other ↔ chain.Registered netuid other)) := by
  have hagree' := doSwapHotkey_uidsAgree hagree h
  have hbefore : ∀ hotkey, chain.Registered netuid hotkey ↔
      chain.isNetworkMember.lookup (hotkey, netuid) = some true :=
    fun hotkey => ((hagree netuid).member hotkey).symm
  have hafter : ∀ hotkey, chain'.Registered netuid hotkey ↔
      chain'.isNetworkMember.lookup (hotkey, netuid) = some true :=
    fun hotkey => ((hagree' netuid).member hotkey).symm
  obtain ⟨-, hne, hfree, -⟩ := doSwapHotkey_ok h
  simp only [hafter, hbefore]
  rw [doSwapHotkey_isNetworkMember h]
  refine ⟨not_member_of_not_registered hfree netuid, ?_, ?_, ?_⟩
  · intro other hold hnew
    rw [performHotkeySwapOnSubnets_member_ne _ _ _ hnew hold]
  · intro hmem
    obtain ⟨hnew, hold⟩ := performHotkeySwapOnSubnets_member chain
      (swappedSubnets_nodup chain onSubnet) hne hmem
    rw [hnew, hold]
    refine ⟨nofun, ?_⟩
    cases chain.isNetworkMember.lookup (oldHotkey, netuid) with
    | none => simp
    | some member => simp
  · intro hmem other
    rw [performHotkeySwapOnSubnets_member_of_not_mem _ _ _ hmem]

/-! ## Networks -/

theorem removeNetwork_isNetworkMember {terms : RemovalTerms} :
    (chain.removeNetwork rt terms netuid).isNetworkMember =
      ((chain.neurons netuid).storedKeys.map fun entry => (entry.2, netuid)).foldl
        (fun members key => members.erase key) chain.isNetworkMember := by
  simp only [removeNetwork, addBalanceToColdkeyAccount, setCurrency, List.foldl_map]

/-- The members of a subnet all have a slot, so that none of them is missed. -/
theorem removeNetwork_subnetUids {terms : RemovalTerms} (hagree : SubnetUids chain netuid) :
    SubnetUids (chain.removeNetwork rt terms netuid) netuid := by
  have hneurons : (chain.removeNetwork rt terms netuid).neurons netuid =
      (chain.neurons netuid).cleared := Function.update_self ..
  refine ⟨?_, ?_, ?_⟩
  · rw [hneurons]
    exact Neurons.cleared_slots _
  · intro hotkey
    rw [hneurons]
    refine iff_of_false ?_ nofun
    rw [removeNetwork_isNetworkMember, StorageMap.lookup_foldl_erase]
    split
    · nofun
    · rename_i hnot
      intro hmember
      obtain ⟨uid, huid⟩ := Option.isSome_iff_exists.mp ((hagree.member hotkey).mp hmember)
      have hkey := (hagree.slots.bijection uid hotkey).mpr huid
      exact hnot (List.mem_map.mpr ⟨(uid, hotkey), Neurons.mem_storedKeys.mpr hkey, rfl⟩)
  · intro _
    rw [hneurons]
    rfl

theorem removeNetwork_keeps {terms : RemovalTerms} {netuid' : NetUid} (hne : netuid' ≠ netuid) :
    KeepsSubnetUids netuid' chain (chain.removeNetwork rt terms netuid) := by
  refine ⟨?_, ?_, AList.lookup_erase_ne hne⟩
  · have hneurons : (chain.removeNetwork rt terms netuid).neurons netuid' =
        chain.neurons netuid' := Function.update_of_ne hne ..
    rw [hneurons]
    exact ⟨rfl, rfl, rfl⟩
  · intro hotkey
    rw [removeNetwork_isNetworkMember, StorageMap.lookup_foldl_erase, if_neg]
    intro hmem
    obtain ⟨_, -, heq⟩ := List.mem_map.mp hmem
    exact hne (Prod.ext_iff.mp heq).2.symm

theorem removeNetwork_uidsAgree {terms : RemovalTerms} (hagree : UidsAgree chain) :
    UidsAgree (chain.removeNetwork rt terms netuid) := by
  intro netuid'
  by_cases hne : netuid' = netuid
  · subst hne
    exact removeNetwork_subnetUids (hagree netuid')
  · exact (removeNetwork_keeps hne).subnetUids (hagree netuid')

theorem nextNetuidFrom_not_mem {netuids : List NetUid} {n : ℕ} {start : NetUid}
    (h : nextNetuidFrom netuids n start = some netuid) : netuid ∉ netuids := by
  induction n generalizing start with
  | zero => cases h
  | succ n ih =>
      rw [nextNetuidFrom] at h
      split at h
      · exact ih h
      · rename_i hnot
        obtain rfl := Option.some.inj h
        exact hnot

omit [DecidableEq A] in
theorem getNextNetuid_absent (h : chain.getNextNetuid = some netuid) :
    chain.networksAdded.lookup netuid = none :=
  AList.lookup_eq_none.mpr (nextNetuidFrom_not_mem h)

theorem initNewNetwork_uidsAgree {tempo : U16} (hagree : UidsAgree chain)
    (hcount : (chain.neurons netuid).subnetworkN = 0) :
    UidsAgree (chain.initNewNetwork netuid tempo) := by
  intro netuid'
  by_cases hne : netuid' = netuid
  · subst hne
    have hneurons : (chain.initNewNetwork netuid' tempo).neurons netuid' =
        { chain.neurons netuid' with subnetworkN := 0 } := Function.update_self ..
    have hsame : Neurons.SameSlots (chain.neurons netuid')
        { chain.neurons netuid' with subnetworkN := 0 } := ⟨rfl, rfl, hcount.symm⟩
    refine ⟨?_, ?_, ?_⟩
    · rw [hneurons]
      exact hsame.slots (hagree netuid').slots
    · rw [hneurons]
      exact (hagree netuid').member
    · intro _
      rw [hneurons]
      rfl
  · have hkeeps : KeepsSubnetUids netuid' chain (chain.initNewNetwork netuid tempo) := by
      refine ⟨?_, fun _ => rfl, AList.lookup_insert_ne hne⟩
      have hneurons : (chain.initNewNetwork netuid tempo).neurons netuid' =
          chain.neurons netuid' := Function.update_of_ne hne ..
      rw [hneurons]
      exact ⟨rfl, rfl, rfl⟩
    exact hkeeps.subnetUids (hagree netuid')

theorem appendNeuron_uidsAgree (hagree : UidsAgree chain)
    (hexists : chain.networksAdded.lookup netuid ≠ none)
    (hlt : (chain.neurons netuid).subnetworkN.val < 2 ^ 16 - 1)
    (hfree : (chain.neurons netuid).uids hotkey = none) :
    UidsAgree (chain.appendNeuron netuid hotkey) := by
  intro netuid'
  by_cases hne : netuid' = netuid
  · subst hne
    exact appendNeuron_subnetUids (hagree netuid') hexists hlt hfree
  · exact (withNeurons_keeps hne fun _ => lookup_insert_of_ne hne ..).subnetUids (hagree netuid')

theorem createNetwork_uidsAgree {defaultTempo mechid : U16} {lock : U64}
    (hagree : UidsAgree chain) (habsent : chain.networksAdded.lookup netuid = none) :
    UidsAgree (chain.createNetwork defaultTempo netuid coldkey hotkey mechid lock) := by
  have hcount : (chain.neurons netuid).subnetworkN = 0 :=
    Word.ext ((hagree netuid).absent habsent)
  have hfree : (chain.neurons netuid).uids hotkey = none := by
    cases huid : (chain.neurons netuid).uids hotkey with
    | none => rfl
    | some uid =>
        have hkey := ((hagree netuid).slots.bijection uid hotkey).mpr huid
        have hlt := ((hagree netuid).slots.range uid).mp (by rw [hkey]; rfl)
        rw [hcount] at hlt
        exact absurd hlt (Nat.not_lt_zero uid.val)
  have hinit : UidsAgree (chain.initNewNetwork netuid defaultTempo) :=
    initNewNetwork_uidsAgree hagree hcount
  have hneurons : (chain.initNewNetwork netuid defaultTempo).neurons netuid =
      { chain.neurons netuid with subnetworkN := 0 } := Function.update_self ..
  have hexists : (chain.initNewNetwork netuid defaultTempo).networksAdded.lookup netuid ≠ none := by
    show (chain.networksAdded.insert netuid true).lookup netuid ≠ none
    rw [AList.lookup_insert]
    nofun
  unfold createNetwork splitLock
  extract_lets lock' lockedChain registered pool rest burned
  obtain ⟨accounts, haccounts⟩ : ∃ accounts,
      (lockedChain.initNewNetwork netuid defaultTempo).createAccountIfNonExistent coldkey hotkey =
        (lockedChain.initNewNetwork netuid defaultTempo).withAccounts accounts :=
    createAccountIfNonExistent_frame
  have hregistered : UidsAgree registered := by
    show UidsAgree (((lockedChain.initNewNetwork netuid defaultTempo).createAccountIfNonExistent coldkey
      hotkey).appendNeuron netuid hotkey)
    rw [haccounts]
    refine appendNeuron_uidsAgree (hinit.of_eq rfl rfl rfl) hexists ?_ ?_
    · show ((chain.initNewNetwork netuid defaultTempo).neurons netuid).subnetworkN.val < _
      rw [hneurons]
      show (0 : U16).val < 2 ^ 16 - 1
      decide
    · show ((chain.initNewNetwork netuid defaultTempo).neurons netuid).uids hotkey = none
      rw [hneurons]
      exact hfree
  have hcreated : UidsAgree (registered.setCreationTerms netuid coldkey hotkey mechid pool) :=
    hregistered.of_eq rfl rfl rfl
  have hburned : UidsAgree burned := by
    show UidsAgree (if _ then _ else _)
    split
    · exact hcreated.of_eq rfl rfl rfl
    · exact hcreated
  split
  · exact hburned.of_eq rfl rfl rfl
  · exact hburned

/-! ## Runs -/

/-- A step of a run: a registration, a swap of hotkeys or the removal of a
network, or anything that leaves the slots alone. -/
inductive UidStep (rt : Runtime A B P) (chain chain' : Chain A B P) : Prop
  | burnedRegistration (coldkey : A) (netuid : NetUid) (hotkey : A)
      (h : chain.doBurnedRegistration rt coldkey netuid hotkey = .ok chain')
  | registration (sealHash : U64 → U64 → A → List UInt8) (signingOrigin : A) (netuid : NetUid)
      (blockNumber nonce : U64) (work : List UInt8) (hotkey coldkey : A)
      (h : chain.doRegistration rt sealHash signingOrigin netuid blockNumber nonce work hotkey
        coldkey = some (.ok chain'))
  | rootRegister (senate : Senate A) (coldkey hotkey : A)
      (h : chain.doRootRegister rt senate coldkey hotkey = .ok chain')
  | registerNetwork (defaultTempo : U16) (coldkey hotkey : A) (mechid : U16)
      (identity : Option SubnetIdentity)
      (h : chain.doRegisterNetwork rt defaultTempo coldkey hotkey mechid identity =
        some (.ok chain'))
  | swapHotkey (coldkey oldHotkey newHotkey : A) (netuid : Option NetUid)
      (h : chain.doSwapHotkey rt coldkey oldHotkey newHotkey netuid = .ok chain')
  | removeNetwork (terms : RemovalTerms) (netuid : NetUid)
      (h : chain' = chain.removeNetwork rt terms netuid)
  | other (h : KeepsUids chain chain')

/-- **One step.** -/
theorem UidStep.uidsAgree (h : UidStep rt chain chain') (hagree : UidsAgree chain) :
    UidsAgree chain' := by
  cases h with
  | burnedRegistration coldkey netuid hotkey h =>
      obtain ⟨hexists, hmax, hfree, ledger, swap, reserves, accounts, rfl⟩ :=
        doBurnedRegistration_ok h
      have hstart : UidsAgree { chain.withAccounts accounts with
          ledger := ledger, swap := swap, reserves := reserves } := hagree.of_eq rfl rfl rfl
      exact (registerNeuron_uidsAgree hstart hexists hmax hfree).of_eq rfl rfl rfl
  | registration sealHash signingOrigin netuid blockNumber nonce work hotkey coldkey h =>
      obtain ⟨hexists, hmax, hfree, accounts, rfl⟩ := doRegistration_ok h
      have hstart : UidsAgree (chain.withAccounts accounts) := hagree.of_eq rfl rfl rfl
      exact (registerNeuron_uidsAgree hstart hexists hmax hfree).of_eq rfl rfl rfl
  | rootRegister senate coldkey hotkey h => exact doRootRegister_uidsAgree hagree h
  | registerNetwork defaultTempo coldkey hotkey mechid identity h =>
      obtain ⟨netuid, chain₁, lock, hnetuid, hremove, rfl⟩ := doRegisterNetwork_ok h
      obtain ⟨currency, rfl⟩ := removeBalance_frame hremove
      have hstart : UidsAgree (chain.setCurrency currency) := hagree.of_eq rfl rfl rfl
      exact createNetwork_uidsAgree hstart (getNextNetuid_absent hnetuid)
  | swapHotkey coldkey oldHotkey newHotkey netuid h => exact doSwapHotkey_uidsAgree hagree h
  | removeNetwork terms netuid h =>
      subst h
      exact removeNetwork_uidsAgree hagree
  | other h => exact h.uidsAgree hagree

/-- No subnet has a neuron or a member. -/
structure NoNeurons (chain : Chain A B P) : Prop where
  slots : ∀ netuid, Neurons.SameSlots .empty (chain.neurons netuid)
  member : ∀ hotkey netuid, chain.isNetworkMember.lookup (hotkey, netuid) ≠ some true

theorem NoNeurons.uidsAgree (h : NoNeurons chain) : UidsAgree chain := by
  intro netuid
  have huids : (chain.neurons netuid).uids = fun _ => none := (h.slots netuid).uids
  refine ⟨(h.slots netuid).slots (Neurons.cleared_slots .empty), ?_, ?_⟩
  · intro hotkey
    rw [huids]
    exact iff_of_false (h.member hotkey netuid) nofun
  · intro _
    rw [(h.slots netuid).subnetworkN]
    rfl

/-- **Uids are a bijection.** Whatever is registered, swapped and removed, and
in which order: on every subnet `Keys` and `Uids` are inverse to each other, the
slots that are in use are the first ones, and the members are the hotkeys that
have one. -/
theorem uidsAgree_run (hstart : NoNeurons chain)
    (hrun : Relation.ReflTransGen (UidStep rt) chain chain') (netuid : NetUid) :
    (∀ uid hotkey, (chain'.neurons netuid).keys uid = some hotkey ↔
        (chain'.neurons netuid).uids hotkey = some uid) ∧
      (∀ uid, ((chain'.neurons netuid).keys uid).isSome = true ↔
        uid.val < (chain'.neurons netuid).subnetworkN.val) ∧
      ∀ hotkey, chain'.isNetworkMember.lookup (hotkey, netuid) = some true ↔
        ((chain'.neurons netuid).uids hotkey).isSome = true := by
  have hagree : UidsAgree chain' := by
    induction hrun with
    | refl => exact hstart.uidsAgree
    | tail _ hstep ih => exact hstep.uidsAgree ih
  obtain ⟨hslots, hmember, -⟩ := hagree netuid
  exact ⟨hslots.bijection, hslots.range, hmember⟩

theorem smallChain_noNeurons : NoNeurons smallChain :=
  ⟨fun _ => ⟨rfl, rfl, rfl⟩, fun _ _ => nofun⟩

/-- The coldkey `10` registers its hotkey `2` and swaps it for the hotkey
`4`. -/
theorem uidsAgree_run_smallChain :
    ∃ chain₁ chain', smallChain.doBurnedRegistration runtime 10 (.sat 1) 2 = .ok chain₁ ∧
      chain₁.doSwapHotkey runtime 10 2 4 none = .ok chain' ∧
      (chain'.neurons (.sat 1)).keys 0 = some 4 ∧ (chain'.neurons (.sat 1)).uids 4 = some 0 := by
  have hregister : (smallChain.doBurnedRegistration runtime 10 (.sat 1) 2).toOption.map
      (fun chain => (chain.doSwapHotkey runtime 10 2 4 none).toOption.map fun chain =>
        ((chain.neurons (.sat 1)).keys 0)) = some (some (some 4)) := by
    decide +kernel
  obtain ⟨chain₁, hok₁, hswap⟩ := exists_ok_of_toOption_map hregister
  obtain ⟨chain', hok', hkey⟩ := exists_ok_of_toOption_map hswap
  have hrun : Relation.ReflTransGen (UidStep runtime) smallChain chain' :=
    (Relation.ReflTransGen.single (.burnedRegistration 10 (.sat 1) 2 hok₁)).tail
      (.swapHotkey 10 2 4 none hok')
  obtain ⟨hbijection, -, -⟩ := uidsAgree_run smallChain_noNeurons hrun (.sat 1)
  exact ⟨chain₁, chain', hok₁, hok', hkey, (hbijection 0 4).mp hkey⟩

end Subtensor.Chain
