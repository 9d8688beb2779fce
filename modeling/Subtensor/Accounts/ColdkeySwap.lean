import Subtensor.Accounts.HotkeyStake
import Subtensor.Accounts.StakingIndex

/-!
# A swap of coldkeys is complete

A coldkey swap finds stake through `StakingHotkeys` only. In every state that
calls, blocks and swaps lead to, all shares on the subnets that exist are
listed there, so that the swap leaves none of them behind.
-/

namespace Subtensor.Chain

open Lib SharePool

variable {A B P : Type} [DecidableEq A] {rt : Runtime A B P} {chain chain' : Chain A B P}
  {oldHotkey newHotkey hotkey oldColdkey newColdkey coldkey defaultAccount : A} {netuid : NetUid}

/-- Every hotkey of which a coldkey has shares on the subnet is listed. -/
def IndexedAt (netuid : NetUid) (stakes : Stakes A) (accounts : Accounts A) : Prop :=
  ∀ hotkey coldkey, shareOf stakes hotkey coldkey netuid ≠ 0 →
    hotkey ∈ accounts.stakingHotkeys coldkey

/-- The index lists all shares on the subnets that exist. -/
def IndexComplete (chain : Chain A B P) : Prop :=
  ∀ netuid ∈ chain.networksAdded, IndexedAt netuid chain.stakes chain.accounts

/-- Every hotkey is listed with its owner. The default account stands for no
owner, and genesis makes it the owner of itself without a list. -/
def OwnersListed (defaultAccount : A) (accounts : Accounts A) : Prop :=
  ∀ hotkey coldkey, coldkey ≠ defaultAccount → accounts.owner hotkey = some coldkey →
    hotkey ∈ accounts.ownedHotkeys coldkey

theorem KeepsIndex.indexComplete (h : KeepsIndex chain chain') (hindex : IndexComplete chain) :
    IndexComplete chain' := by
  intro netuid hmem hotkey coldkey hshare
  rw [h.networksAdded] at hmem
  rcases h.shares hotkey coldkey netuid hshare with hshare | hlisted
  · exact h.listed coldkey hotkey (hindex netuid hmem hotkey coldkey hshare)
  · exact hlisted

omit [DecidableEq A] in
theorem KeepsOwners.ownersListed {accounts accounts' : Accounts A}
    (h : KeepsOwners accounts accounts') (howners : OwnersListed defaultAccount accounts) :
    OwnersListed defaultAccount accounts' := by
  unfold OwnersListed
  rw [h.owner, h.ownedHotkeys]
  exact howners

/-! ## Hotkeys: one subnet -/

theorem swapAlphaEntry_listed {state : Stakes A × Accounts A} {entry : (A × NetUid) × U64F64}
    (h : hotkey ∈ state.2.stakingHotkeys coldkey) :
    hotkey ∈ (swapAlphaEntry oldHotkey newHotkey netuid state entry).2.stakingHotkeys coldkey := by
  unfold swapAlphaEntry
  extract_lets coldkey' newAlpha alpha stakingHotkeys
  split
  · simp only
    split
    · show hotkey ∈ Function.update state.2.stakingHotkeys coldkey' _ coldkey
      by_cases hcoldkey : coldkey = coldkey'
      · subst hcoldkey
        rw [Function.update_self]
        exact List.mem_append_left _ h
      · rw [Function.update_of_ne hcoldkey]
        exact h
    · exact h
  · exact h

/-- A coldkey that stakes to the old hotkey is listed with the new one. -/
theorem swapAlphaEntry_lists {state : Stakes A × Accounts A} {share : U64F64}
    (h : oldHotkey ∈ state.2.stakingHotkeys coldkey) :
    newHotkey ∈ (swapAlphaEntry oldHotkey newHotkey netuid state
      ((coldkey, netuid), share)).2.stakingHotkeys coldkey := by
  unfold swapAlphaEntry
  extract_lets coldkey' newAlpha alpha stakingHotkeys
  rw [if_pos rfl]
  simp only
  split
  · show newHotkey ∈ Function.update state.2.stakingHotkeys coldkey _ coldkey
    rw [Function.update_self]
    exact List.mem_append_right _ (List.mem_singleton_self newHotkey)
  · rename_i hcontains
    have hold : stakingHotkeys.contains oldHotkey = true := List.contains_iff_mem.mpr h
    rw [hold, Bool.true_and, Bool.not_eq_true', Bool.not_eq_false] at hcontains
    exact List.contains_iff_mem.mp hcontains

theorem swapAlphaLoop_listed (entries : List ((A × NetUid) × U64F64))
    {state : Stakes A × Accounts A} (h : hotkey ∈ state.2.stakingHotkeys coldkey) :
    hotkey ∈ (entries.foldl (swapAlphaEntry oldHotkey newHotkey netuid) state).2.stakingHotkeys
      coldkey := by
  induction entries generalizing state with
  | nil => exact h
  | cons entry entries ih => exact ih (swapAlphaEntry_listed h)

theorem swapAlphaLoop_lists {entries : List ((A × NetUid) × U64F64)} {share : U64F64}
    (hmem : ((coldkey, netuid), share) ∈ entries) {state : Stakes A × Accounts A}
    (h : oldHotkey ∈ state.2.stakingHotkeys coldkey) :
    newHotkey ∈ (entries.foldl (swapAlphaEntry oldHotkey newHotkey netuid) state).2.stakingHotkeys
      coldkey := by
  induction entries generalizing state with
  | nil => cases hmem
  | cons entry entries ih =>
      rcases List.mem_cons.mp hmem with rfl | hmem
      · exact swapAlphaLoop_listed entries (swapAlphaEntry_lists h)
      · exact ih hmem (swapAlphaEntry_listed h)

theorem swapAlphaLoop_other (entries : List ((A × NetUid) × U64F64))
    (state : Stakes A × Accounts A) (hold : hotkey ≠ oldHotkey) (hnew : hotkey ≠ newHotkey) :
    (entries.foldl (swapAlphaEntry oldHotkey newHotkey netuid) state).1.alpha.lookup
      (hotkey, coldkey, netuid) = state.1.alpha.lookup (hotkey, coldkey, netuid) := by
  have hkey : ∀ key : A × NetUid, ∀ hotkey' ≠ hotkey,
      (hotkey, coldkey, netuid) ≠ (hotkey', key) := by
    intro key hotkey' hne h
    exact hne (Prod.ext_iff.mp h).1.symm
  induction entries generalizing state with
  | nil => rfl
  | cons entry entries ih =>
      rw [List.foldl_cons, ih]
      unfold swapAlphaEntry
      extract_lets coldkey' newAlpha alpha stakingHotkeys
      split
      · show (alpha.insert _ _).lookup _ = _
        rw [AList.lookup_insert_ne (hkey _ newHotkey hnew.symm),
          AList.lookup_erase_ne (hkey _ oldHotkey hold.symm),
          AList.lookup_erase_ne (hkey _ newHotkey hnew.symm)]
      · rfl

theorem satAdd_ne_zero {a b : U64F64} (h : a.satAdd b ≠ 0) : a ≠ 0 ∨ b ≠ 0 := by
  by_contra hzero
  rw [not_or, not_not, not_not] at hzero
  obtain ⟨rfl, rfl⟩ := hzero
  exact h (satAdd_zero_left 0)

theorem performHotkeySwapOnOneSubnet_indexed (hne : oldHotkey ≠ newHotkey) {n : NetUid}
    (hindex : IndexedAt n chain.stakes chain.accounts) :
    IndexedAt n (chain.performHotkeySwapOnOneSubnet oldHotkey newHotkey netuid).stakes
      (chain.performHotkeySwapOnOneSubnet oldHotkey newHotkey netuid).accounts := by
  have hlisted : ∀ hotkey coldkey, hotkey ∈ chain.accounts.stakingHotkeys coldkey →
      hotkey ∈ (chain.performHotkeySwapOnOneSubnet oldHotkey newHotkey
        netuid).accounts.stakingHotkeys coldkey :=
    fun hotkey coldkey h => swapAlphaLoop_listed (alphaOfHotkey chain.stakes oldHotkey) h
  intro hotkey coldkey hshare
  by_cases hn : n = netuid
  · subst hn
    have hmerged : PoolsMerged oldHotkey newHotkey n chain.stakes
        (chain.performHotkeySwapOnOneSubnet oldHotkey newHotkey n).stakes :=
      performHotkeySwapOnOneSubnet_merged hne
    by_cases hold : hotkey = oldHotkey
    · subst hold
      rw [shareOf, hmerged.left] at hshare
      exact absurd rfl hshare
    by_cases hnew : hotkey = newHotkey
    · subst hnew
      rw [hmerged.share] at hshare
      rcases satAdd_ne_zero hshare with hshare | hshare
      · -- the entry of the old hotkey is one of those that are swapped
        obtain ⟨share, hlookup⟩ : ∃ share,
            chain.stakes.alpha.lookup (oldHotkey, coldkey, n) = some share := by
          rw [← Option.isSome_iff_exists, Option.isSome_iff_ne_none]
          intro hnone
          rw [shareOf, hnone] at hshare
          exact hshare rfl
        exact swapAlphaLoop_lists (mem_alphaOfHotkey.mpr hlookup)
          (hindex oldHotkey coldkey hshare)
      · exact hlisted _ _ (hindex _ _ hshare)
    · have hother : shareOf (chain.performHotkeySwapOnOneSubnet oldHotkey newHotkey n).stakes hotkey
          coldkey n = shareOf chain.stakes hotkey coldkey n := by
        unfold shareOf
        exact congrArg (·.getD 0) (swapAlphaLoop_other (alphaOfHotkey chain.stakes oldHotkey) _
          hold hnew)
      rw [hother] at hshare
      exact hlisted _ _ (hindex _ _ hshare)
  · have houtside : Stakes.SameOutside netuid chain.stakes
        (chain.performHotkeySwapOnOneSubnet oldHotkey newHotkey netuid).stakes :=
      performHotkeySwapOnOneSubnet_outside
    rw [shareOf, houtside.alpha _ _ _ hn] at hshare
    exact hlisted _ _ (hindex _ _ hshare)

/-! ## Hotkeys: all subnets -/

theorem performHotkeySwapOnSubnets_indexed (hne : oldHotkey ≠ newHotkey) {n : NetUid}
    (netuids : List NetUid) {chain : Chain A B P}
    (hindex : IndexedAt n chain.stakes chain.accounts) :
    IndexedAt n (chain.performHotkeySwapOnSubnets oldHotkey newHotkey netuids).stakes
      (chain.performHotkeySwapOnSubnets oldHotkey newHotkey netuids).accounts := by
  induction netuids generalizing chain with
  | nil => exact hindex
  | cons netuid netuids ih => exact ih (performHotkeySwapOnOneSubnet_indexed hne hindex)

/-- The second pass over the entries takes the old hotkey from the lists, and no
other one. -/
theorem swapStakingHotkey_listed {accounts : Accounts A} {entry : (A × NetUid) × U64F64}
    (hold : hotkey ≠ oldHotkey) (h : hotkey ∈ accounts.stakingHotkeys coldkey) :
    hotkey ∈ (swapStakingHotkey oldHotkey newHotkey accounts entry).stakingHotkeys coldkey := by
  unfold swapStakingHotkey
  extract_lets coldkey' stakingHotkeys
  split
  · show hotkey ∈ Function.update accounts.stakingHotkeys coldkey' _ coldkey
    by_cases hcoldkey : coldkey = coldkey'
    · subst hcoldkey
      rw [Function.update_self, mem_pushNew, List.mem_filter]
      by_cases hnew : hotkey = newHotkey
      · exact Or.inr hnew
      · exact Or.inl ⟨h, by simp [hold, hnew]⟩
    · rw [Function.update_of_ne hcoldkey]
      exact h
  · exact h

theorem swapStakingHotkeys_listed (entries : List ((A × NetUid) × U64F64)) {accounts : Accounts A}
    (hold : hotkey ≠ oldHotkey) (h : hotkey ∈ accounts.stakingHotkeys coldkey) :
    hotkey ∈ (entries.foldl (swapStakingHotkey oldHotkey newHotkey) accounts).stakingHotkeys
      coldkey := by
  induction entries generalizing accounts with
  | nil => exact h
  | cons entry entries ih => exact ih (swapStakingHotkey_listed hold h)

theorem swapDelegate_stakingHotkeys (accounts : Accounts A) :
    (swapDelegate rt accounts oldHotkey newHotkey).stakingHotkeys = accounts.stakingHotkeys := by
  unfold swapDelegate
  split
  · rfl
  · rfl

theorem swapOwner_stakingHotkeys (accounts : Accounts A) (drop : Bool) :
    (swapOwner accounts coldkey oldHotkey newHotkey drop).stakingHotkeys =
      accounts.stakingHotkeys := by
  unfold swapOwner
  cases drop <;> rfl

/-- **Hotkey swaps keep the index.** On all subnets the old hotkey is taken from
the lists only after its shares are gone from every subnet that exists. -/
theorem doSwapHotkey_indexComplete {onSubnet : Option NetUid} (hindex : IndexComplete chain)
    (h : chain.doSwapHotkey rt coldkey oldHotkey newHotkey onSubnet = .ok chain') :
    IndexComplete chain' := by
  have hnetworks := doSwapHotkey_networksAdded h
  intro netuid hmem
  rw [hnetworks] at hmem
  have hmerged : ∀ n ∈ chain.swappedSubnets onSubnet,
      PoolsMerged oldHotkey newHotkey n chain.stakes chain'.stakes :=
    fun n hn => doSwapHotkey_merged h hn
  obtain ⟨-, hne, -, ledger, lastBlocks, senateMembers, rfl⟩ := doSwapHotkey_ok h
  have howned : IndexedAt netuid chain.stakes
      (swapOwner chain.accounts coldkey oldHotkey newHotkey onSubnet.isNone) := by
    unfold IndexedAt
    rw [swapOwner_stakingHotkeys]
    exact hindex netuid hmem
  have hswapped := performHotkeySwapOnSubnets_indexed hne (chain.swappedSubnets onSubnet)
    (show IndexedAt netuid ({ chain with
      accounts := swapOwner chain.accounts coldkey oldHotkey newHotkey onSubnet.isNone } :
        Chain A B P).stakes _ from howned)
  cases onSubnet with
  | some n => exact hswapped
  | none =>
      intro hotkey coldkey' hshare
      have hold : hotkey ≠ oldHotkey := by
        rintro rfl
        rw [shareOf, (hmerged netuid hmem).left] at hshare
        exact hshare rfl
      refine swapStakingHotkeys_listed _ hold ?_
      rw [swapDelegate_stakingHotkeys]
      exact hswapped hotkey coldkey' hshare

theorem swapOwner_ownersListed {accounts : Accounts A} {drop : Bool}
    (howners : OwnersListed defaultAccount accounts) (hne : oldHotkey ≠ newHotkey) :
    OwnersListed defaultAccount (swapOwner accounts coldkey oldHotkey newHotkey drop) := by
  have hkept : ∀ hotkey coldkey', coldkey' ≠ defaultAccount →
      accounts.owner hotkey = some coldkey' → (drop = true → hotkey ≠ oldHotkey) → hotkey ∈
        (swapOwner accounts coldkey oldHotkey newHotkey drop).ownedHotkeys coldkey' := by
    intro hotkey coldkey' hdefault howner hold
    have hmem := howners hotkey coldkey' hdefault howner
    by_cases hcoldkey : coldkey' = coldkey
    · subst hcoldkey
      unfold swapOwner
      cases drop with
      | false => simpa using mem_pushNew.mpr (Or.inl hmem)
      | true => simpa [hold rfl] using mem_pushNew.mpr (Or.inl hmem)
    · rw [swapOwner_ownedHotkeys_of_ne hcoldkey]
      exact hmem
  intro hotkey coldkey' hdefault howner
  by_cases hnew : hotkey = newHotkey
  · subst hnew
    rw [swapOwner_owner_new] at howner
    cases howner
    unfold swapOwner
    cases drop with
    | false => simpa using mem_pushNew.mpr (Or.inr rfl)
    | true => simpa [hne.symm] using mem_pushNew.mpr (Or.inr rfl)
  by_cases hold : hotkey = oldHotkey
  · subst hold
    unfold swapOwner at howner
    cases drop with
    | false =>
        refine hkept hotkey coldkey' hdefault ?_ nofun
        simpa [hnew] using howner
    | true => simp [hnew] at howner
  · rw [swapOwner_owner_of_ne hold hnew] at howner
    exact hkept hotkey coldkey' hdefault howner fun _ => hold

theorem doSwapHotkey_ownersListed {onSubnet : Option NetUid}
    (howners : OwnersListed defaultAccount chain.accounts)
    (h : chain.doSwapHotkey rt coldkey oldHotkey newHotkey onSubnet = .ok chain') :
    OwnersListed defaultAccount chain'.accounts := by
  obtain ⟨-, hne, -, ledger, lastBlocks, senateMembers, rfl⟩ := doSwapHotkey_ok h
  exact swapHotkeyStorage_keepsOwners.ownersListed (swapOwner_ownersListed howners hne)

/-! ## Coldkeys: shares -/

/-- The shares of the old coldkey were moved for the pairs in `done`, and all
others are as before. -/
structure MovedShares (oldColdkey newColdkey : A) (done : A → NetUid → Prop)
    (stakes stakes' : Stakes A) : Prop where
  old : ∀ hotkey netuid, done hotkey netuid → shareOf stakes' hotkey oldColdkey netuid = 0
  new : ∀ hotkey netuid, done hotkey netuid → shareOf stakes' hotkey newColdkey netuid =
    (shareOf stakes hotkey newColdkey netuid).satAdd (shareOf stakes hotkey oldColdkey netuid)
  other : ∀ hotkey coldkey netuid,
    ¬(done hotkey netuid ∧ (coldkey = oldColdkey ∨ coldkey = newColdkey)) →
      shareOf stakes' hotkey coldkey netuid = shareOf stakes hotkey coldkey netuid

theorem shareOf_swapColdkeyAlpha (hne : oldColdkey ≠ newColdkey) (stakes : Stakes A)
    (hotkey : A) (netuid : NetUid) :
    MovedShares oldColdkey newColdkey (fun h n => h = hotkey ∧ n = netuid) stakes
      { stakes with
        alpha := swapColdkeyAlpha oldColdkey newColdkey hotkey stakes.alpha netuid } := by
  have hkey : (hotkey, newColdkey, netuid) ≠ (hotkey, oldColdkey, netuid) := by
    intro h
    exact hne (Prod.ext_iff.mp (Prod.ext_iff.mp h).2).1.symm
  refine ⟨?_, ?_, ?_⟩
  · rintro h n ⟨rfl, rfl⟩
    show ((AList.erase _ _).lookup (h, oldColdkey, n)).getD 0 = 0
    rw [AList.lookup_erase]
    rfl
  · rintro h n ⟨rfl, rfl⟩
    show ((AList.erase _ (AList.insert _ _ _)).lookup (h, newColdkey, n)).getD 0 = _
    rw [AList.lookup_erase_ne hkey, AList.lookup_insert]
    rfl
  · intro h coldkey n hnot
    have hold : (h, coldkey, n) ≠ (hotkey, oldColdkey, netuid) := by
      rintro heq
      cases heq
      exact hnot ⟨⟨rfl, rfl⟩, Or.inl rfl⟩
    have hnew : (h, coldkey, n) ≠ (hotkey, newColdkey, netuid) := by
      rintro heq
      cases heq
      exact hnot ⟨⟨rfl, rfl⟩, Or.inr rfl⟩
    show ((AList.erase _ (AList.insert _ _ _)).lookup (h, coldkey, n)).getD 0 = _
    rw [AList.lookup_erase_ne hold, AList.lookup_insert_ne hnew]
    rfl

theorem satAdd_zero_right (share : U64F64) : share.satAdd 0 = share := by
  apply UFixed.ext
  have := share.isLt
  rw [UFixed.bits_satAdd, UFixed.bits_zero]
  omega

/-- A pair that was moved before has nothing left to move. -/
theorem MovedShares.trans {done done₁ : A → NetUid → Prop} {stakes stakes₁ stakes' : Stakes A}
    (h₁ : MovedShares oldColdkey newColdkey done stakes stakes₁)
    (h₂ : MovedShares oldColdkey newColdkey done₁ stakes₁ stakes') :
    MovedShares oldColdkey newColdkey (fun h n => done h n ∨ done₁ h n) stakes stakes' := by
  refine ⟨?_, ?_, ?_⟩
  · intro hotkey netuid hdone
    by_cases hdone₁ : done₁ hotkey netuid
    · exact h₂.old hotkey netuid hdone₁
    · rw [h₂.other hotkey oldColdkey netuid fun h => hdone₁ h.1]
      exact h₁.old hotkey netuid (hdone.resolve_right hdone₁)
  · intro hotkey netuid hdone
    by_cases hdone₁ : done₁ hotkey netuid
    · rw [h₂.new hotkey netuid hdone₁]
      by_cases hdone₀ : done hotkey netuid
      · rw [h₁.new hotkey netuid hdone₀, h₁.old hotkey netuid hdone₀, satAdd_zero_right]
      · rw [h₁.other hotkey newColdkey netuid fun h => hdone₀ h.1,
          h₁.other hotkey oldColdkey netuid fun h => hdone₀ h.1]
    · rw [h₂.other hotkey newColdkey netuid fun h => hdone₁ h.1]
      exact h₁.new hotkey netuid (hdone.resolve_right hdone₁)
  · intro hotkey coldkey netuid hnot
    rw [h₂.other hotkey coldkey netuid fun h => hnot ⟨Or.inr h.1, h.2⟩]
    exact h₁.other hotkey coldkey netuid fun h => hnot ⟨Or.inl h.1, h.2⟩

theorem MovedShares.refl (stakes : Stakes A) :
    MovedShares oldColdkey newColdkey (fun _ _ => False) stakes stakes :=
  ⟨nofun, nofun, fun _ _ _ _ => rfl⟩

theorem MovedShares.foldl {α : Type} {f : Stakes A → α → Stakes A} {done : α → A → NetUid → Prop}
    (h : ∀ stakes a, MovedShares oldColdkey newColdkey (done a) stakes (f stakes a)) (l : List α)
    (stakes : Stakes A) :
    MovedShares oldColdkey newColdkey (fun hotkey netuid => ∃ a ∈ l, done a hotkey netuid) stakes
      (l.foldl f stakes) := by
  induction l generalizing stakes with
  | nil =>
      have hnone : (fun hotkey netuid => ∃ a ∈ ([] : List α), done a hotkey netuid) =
          fun _ _ => False := by
        funext hotkey netuid
        simp
      rw [hnone]
      exact .refl stakes
  | cons a l ih =>
      have hcons : (fun hotkey netuid => ∃ b ∈ a :: l, done b hotkey netuid) =
          fun hotkey netuid => done a hotkey netuid ∨ ∃ b ∈ l, done b hotkey netuid := by
        funext hotkey netuid
        simp
      rw [hcons]
      exact (h stakes a).trans (ih (f stakes a))

omit [DecidableEq A] in
theorem foldl_alpha {α : Type}
    (f : StorageMap (A × A × NetUid) U64F64 → α → StorageMap (A × A × NetUid) U64F64)
    (l : List α) (stakes : Stakes A) :
    { stakes with alpha := l.foldl f stakes.alpha } =
      l.foldl (fun stakes a => { stakes with alpha := f stakes.alpha a }) stakes := by
  induction l generalizing stakes with
  | nil => rfl
  | cons a l ih => exact ih { stakes with alpha := f stakes.alpha a }

/-- **What a coldkey swap moves**: the shares of the listed hotkeys on all
subnets that exist. -/
theorem swapColdkeyStorage_moved (rt : Runtime A B P) (chain : Chain A B P)
    (hne : oldColdkey ≠ newColdkey) :
    MovedShares oldColdkey newColdkey
      (fun hotkey netuid => hotkey ∈ chain.accounts.stakingHotkeys oldColdkey ∧
        netuid ∈ chain.networksAdded) chain.stakes
      (chain.swapColdkeyStorage rt oldColdkey newColdkey).stakes := by
  have hone : ∀ (stakes : Stakes A) (hotkey : A), MovedShares oldColdkey newColdkey
      (fun h n => h = hotkey ∧ n ∈ chain.networksAdded) stakes
      { stakes with
        alpha := chain.getAllSubnetNetuids.foldl (swapColdkeyAlpha oldColdkey newColdkey hotkey)
          stakes.alpha } := by
    intro stakes hotkey
    have hdone : (fun h n => h = hotkey ∧ n ∈ chain.networksAdded) =
        fun h n => ∃ netuid ∈ chain.getAllSubnetNetuids, h = hotkey ∧ n = netuid := by
      funext h n
      rw [eq_iff_iff]
      constructor
      · rintro ⟨rfl, hmem⟩
        exact ⟨n, hmem, rfl, rfl⟩
      · rintro ⟨netuid, hmem, rfl, rfl⟩
        exact ⟨rfl, hmem⟩
    rw [foldl_alpha, hdone]
    exact .foldl (fun stakes netuid => shareOf_swapColdkeyAlpha hne stakes hotkey netuid) _ stakes
  have hdone : (fun hotkey netuid => hotkey ∈ chain.accounts.stakingHotkeys oldColdkey ∧
      netuid ∈ chain.networksAdded) = fun h n =>
        ∃ hotkey ∈ chain.accounts.stakingHotkeys oldColdkey,
          h = hotkey ∧ n ∈ chain.networksAdded := by
    funext h n
    simp
  unfold swapColdkeyStorage
  extract_lets netuids
  rw [hdone, foldl_alpha]
  exact .foldl hone _ chain.stakes

/-! ## Coldkeys: owners and lists -/

theorem swapColdkeyAccounts_ownersListed {accounts : Accounts A}
    (howners : OwnersListed defaultAccount accounts) :
    OwnersListed defaultAccount (swapColdkeyAccounts accounts oldColdkey newColdkey) := by
  intro hotkey coldkey hdefault howner
  have howner : (accounts.ownedHotkeys oldColdkey).foldl
      (fun owner hotkey => Function.update owner hotkey (some newColdkey)) accounts.owner hotkey =
      some coldkey := howner
  rw [foldl_owner] at howner
  show hotkey ∈ Function.update (Function.update accounts.ownedHotkeys oldColdkey []) newColdkey
    ((accounts.ownedHotkeys oldColdkey).foldl pushNew (accounts.ownedHotkeys newColdkey)) coldkey
  split at howner
  · rename_i howned
    cases howner
    rw [Function.update_self]
    exact mem_foldl_pushNew.mpr (Or.inl howned)
  · rename_i hnot
    have hmem := howners hotkey coldkey hdefault howner
    by_cases hnew : coldkey = newColdkey
    · subst hnew
      rw [Function.update_self]
      exact mem_foldl_pushNew.mpr (Or.inr hmem)
    · have hold : coldkey ≠ oldColdkey := by
        rintro rfl
        exact hnot hmem
      rw [Function.update_of_ne hnew, Function.update_of_ne hold]
      exact hmem

/-- A hotkey that the old coldkey owns is listed with it, so that the swap finds
it. -/
theorem swapColdkeyAccounts_owner {accounts : Accounts A}
    (howners : OwnersListed defaultAccount accounts) (hdefault : oldColdkey ≠ defaultAccount)
    (howner : accounts.owner hotkey = some oldColdkey) :
    (swapColdkeyAccounts accounts oldColdkey newColdkey).owner hotkey = some newColdkey := by
  show (accounts.ownedHotkeys oldColdkey).foldl _ accounts.owner hotkey = some newColdkey
  rw [foldl_owner, if_pos (howners hotkey oldColdkey hdefault howner)]

theorem swapSubnetOwner_of_eq {subnets : NetUid → Subnet A}
    (h : (subnets netuid).subnetOwner.getD rt.defaultAccount = oldColdkey) :
    (swapSubnetOwner rt oldColdkey newColdkey subnets netuid netuid).subnetOwner =
      some newColdkey := by
  unfold swapSubnetOwner
  rw [if_pos h, Function.update_self]

theorem swapSubnetOwner_of_ne {subnets : NetUid → Subnet A} {n : NetUid} (hne : n ≠ netuid) :
    swapSubnetOwner rt oldColdkey newColdkey subnets netuid n = subnets n := by
  unfold swapSubnetOwner
  split
  · exact Function.update_of_ne hne ..
  · rfl

theorem foldl_swapSubnetOwner {netuids : List NetUid} (hnodup : netuids.Nodup) {n : NetUid}
    (hmem : n ∈ netuids) {subnets : NetUid → Subnet A}
    (h : (subnets n).subnetOwner.getD rt.defaultAccount = oldColdkey) :
    (netuids.foldl (swapSubnetOwner rt oldColdkey newColdkey) subnets n).subnetOwner =
      some newColdkey := by
  have hkept : ∀ (netuids : List NetUid) (subnets : NetUid → Subnet A), n ∉ netuids →
      netuids.foldl (swapSubnetOwner rt oldColdkey newColdkey) subnets n = subnets n := by
    intro netuids
    induction netuids with
    | nil => exact fun _ _ => rfl
    | cons netuid netuids ih =>
        intro subnets hnot
        rw [List.foldl_cons, ih _ fun hmem => hnot (List.mem_cons_of_mem netuid hmem)]
        exact swapSubnetOwner_of_ne fun heq => hnot (heq ▸ List.mem_cons_self)
  induction netuids generalizing subnets with
  | nil => cases hmem
  | cons netuid netuids ih =>
      obtain ⟨hnotin, hnodup⟩ := List.nodup_cons.mp hnodup
      rw [List.foldl_cons]
      by_cases heq : n = netuid
      · subst heq
        rw [hkept netuids _ hnotin]
        exact swapSubnetOwner_of_eq h
      · refine ih hnodup ((List.mem_cons.mp hmem).resolve_left heq) ?_
        rw [swapSubnetOwner_of_ne heq]
        exact h

/-- Coldkey swaps keep the index: what was listed with the old coldkey is
listed with the new one. -/
theorem doSwapColdkey_indexComplete {swapCost : U64} (hindex : IndexComplete chain)
    (h : chain.doSwapColdkey rt oldColdkey newColdkey swapCost = .ok chain') :
    IndexComplete chain' := by
  obtain ⟨hempty, -, ledger, lastBlocks, rfl⟩ := doSwapColdkey_ok h
  intro netuid hnetwork hotkey coldkey hshare
  have hnetwork : netuid ∈ chain.networksAdded := hnetwork
  have hshare : shareOf (chain.swapColdkeyStorage rt oldColdkey newColdkey).stakes hotkey coldkey
      netuid ≠ 0 := hshare
  show hotkey ∈ Function.update (Function.update chain.accounts.stakingHotkeys oldColdkey [])
    newColdkey ((chain.accounts.stakingHotkeys oldColdkey).foldl pushNew
      (chain.accounts.stakingHotkeys newColdkey)) coldkey
  by_cases hne : oldColdkey = newColdkey
  · -- nothing is listed, and nothing moves
    subst hne
    have hstakes : (chain.swapColdkeyStorage rt oldColdkey oldColdkey).stakes = chain.stakes := by
      unfold swapColdkeyStorage
      rw [hempty]
      rfl
    rw [hstakes] at hshare
    have hlisted := hindex netuid hnetwork hotkey coldkey hshare
    have hcoldkey : coldkey ≠ oldColdkey := by
      rintro rfl
      rw [hempty] at hlisted
      cases hlisted
    rw [Function.update_of_ne hcoldkey, Function.update_of_ne hcoldkey]
    exact hlisted
  · have hmoved := swapColdkeyStorage_moved rt chain hne
    by_cases hdone : (hotkey ∈ chain.accounts.stakingHotkeys oldColdkey ∧
        netuid ∈ chain.networksAdded) ∧ (coldkey = oldColdkey ∨ coldkey = newColdkey)
    · obtain ⟨hdone, rfl | rfl⟩ := hdone
      · exact absurd (hmoved.old hotkey netuid hdone) hshare
      · rw [Function.update_self]
        exact mem_foldl_pushNew.mpr (Or.inl hdone.1)
    · rw [hmoved.other hotkey coldkey netuid hdone] at hshare
      have hlisted := hindex netuid hnetwork hotkey coldkey hshare
      by_cases hnew : coldkey = newColdkey
      · subst hnew
        rw [Function.update_self]
        exact mem_foldl_pushNew.mpr (Or.inr hlisted)
      · have hold : coldkey ≠ oldColdkey := by
          rintro rfl
          exact hdone ⟨⟨hlisted, hnetwork⟩, Or.inl rfl⟩
        rw [Function.update_of_ne hnew, Function.update_of_ne hold]
        exact hlisted

theorem doSwapColdkey_ownersListed {swapCost : U64}
    (howners : OwnersListed defaultAccount chain.accounts)
    (h : chain.doSwapColdkey rt oldColdkey newColdkey swapCost = .ok chain') :
    OwnersListed defaultAccount chain'.accounts := by
  obtain ⟨-, -, ledger, lastBlocks, rfl⟩ := doSwapColdkey_ok h
  exact swapColdkeyAccounts_ownersListed howners

/-! ## Runs -/

/-- An account that is made is listed at once with its coldkey. -/
theorem createAccountIfNonExistent_indexComplete (hindex : IndexComplete chain) :
    IndexComplete (chain.createAccountIfNonExistent coldkey hotkey) := by
  unfold createAccountIfNonExistent
  split
  · exact hindex
  · intro netuid hmem hotkey' coldkey' hshare
    have hlisted := hindex netuid hmem hotkey' coldkey' hshare
    exact mem_pushStakingHotkey.mpr (Or.inl hlisted)

theorem createAccountIfNonExistent_ownersListed
    (howners : OwnersListed defaultAccount chain.accounts) :
    OwnersListed defaultAccount (chain.createAccountIfNonExistent coldkey hotkey).accounts := by
  unfold createAccountIfNonExistent
  split
  · exact howners
  · intro hotkey' coldkey' hdefault howner
    show hotkey' ∈ Function.update chain.accounts.ownedHotkeys coldkey _ coldkey'
    have howner : Function.update chain.accounts.owner hotkey (some coldkey) hotkey' =
        some coldkey' := howner
    by_cases hhotkey : hotkey' = hotkey
    · subst hhotkey
      rw [Function.update_self] at howner
      cases howner
      rw [Function.update_self]
      exact mem_pushNew.mpr (Or.inr rfl)
    · rw [Function.update_of_ne hhotkey] at howner
      have hmem := howners hotkey' coldkey' hdefault howner
      by_cases hcoldkey : coldkey' = coldkey
      · subst hcoldkey
        rw [Function.update_self]
        exact mem_pushNew.mpr (Or.inl hmem)
      · rw [Function.update_of_ne hcoldkey]
        exact hmem

/-- A step of a run on a fixed set of subnets. -/
inductive StakeStep (rt : Runtime A B P) (chain chain' : Chain A B P) : Prop
  | staking (call : StakingCall A) (h : chain.dispatch rt call = .ok chain')
  | transition (originColdkey destinationColdkey originHotkey destinationHotkey : A)
      (originNetuid destinationNetuid : NetUid) (alphaAmount : U64) (limitPrice : Option U64)
      (allowPartial : Option Bool) (checkTransferToggle : Bool) (tao : U64)
      (h : chain.transitionStakeInternal rt originColdkey destinationColdkey originHotkey
        destinationHotkey originNetuid destinationNetuid alphaAmount limitPrice allowPartial
          checkTransferToggle = .ok (chain', tao))
  | increase (hotkey coldkey : A) (netuid : NetUid) (amount : U64)
      (h : chain' =
        (chain.increaseStakeForHotkeyAndColdkeyOnSubnet hotkey coldkey netuid amount).1)
  | decrease (hotkey coldkey : A) (netuid : NetUid) (amount : U64)
      (h : chain' =
        (chain.decreaseStakeForHotkeyAndColdkeyOnSubnet hotkey coldkey netuid amount).1)
  | block (epoch : Epoch A B P) (h : chain' = chain.blockStep rt epoch)
  | createAccount (coldkey hotkey : A)
      (h : chain' = chain.createAccountIfNonExistent coldkey hotkey)
  | swapHotkey (coldkey oldHotkey newHotkey : A) (netuid : Option NetUid)
      (h : chain.doSwapHotkey rt coldkey oldHotkey newHotkey netuid = .ok chain')
  | swapColdkey (oldColdkey newColdkey : A) (swapCost : U64)
      (h : chain.doSwapColdkey rt oldColdkey newColdkey swapCost = .ok chain')
  | other (hnetworks : chain'.networksAdded = chain.networksAdded)
      (hstakes : chain'.stakes = chain.stakes) (haccounts : chain'.accounts = chain.accounts)

/-- What is found through an index is all there is. -/
structure Indexed (rt : Runtime A B P) (chain : Chain A B P) : Prop where
  index : IndexComplete chain
  owners : OwnersListed rt.defaultAccount chain.accounts

theorem KeepsIndex.indexed (h : KeepsIndex chain chain') (hindexed : Indexed rt chain) :
    Indexed rt chain' :=
  ⟨h.indexComplete hindexed.index, h.owners.ownersListed hindexed.owners⟩

/-- **One step.** -/
theorem StakeStep.indexed (h : StakeStep rt chain chain') (hindexed : Indexed rt chain) :
    Indexed rt chain' := by
  cases h with
  | staking call h => exact (dispatch_keepsIndex h).indexed hindexed
  | transition _ _ _ _ _ _ _ _ _ _ _ h =>
      exact (transitionStakeInternal_keepsIndex h).indexed hindexed
  | increase hotkey coldkey netuid amount h =>
      subst h
      exact increaseStake_keepsIndex.indexed hindexed
  | decrease hotkey coldkey netuid amount h =>
      subst h
      exact decreaseStake_keepsIndex.indexed hindexed
  | block epoch h =>
      subst h
      exact blockStep_keepsIndex.indexed hindexed
  | createAccount coldkey hotkey h =>
      subst h
      exact ⟨createAccountIfNonExistent_indexComplete hindexed.index,
        createAccountIfNonExistent_ownersListed hindexed.owners⟩
  | swapHotkey coldkey oldHotkey newHotkey netuid h =>
      exact ⟨doSwapHotkey_indexComplete hindexed.index h,
        doSwapHotkey_ownersListed hindexed.owners h⟩
  | swapColdkey oldColdkey newColdkey swapCost h =>
      exact ⟨doSwapColdkey_indexComplete hindexed.index h,
        doSwapColdkey_ownersListed hindexed.owners h⟩
  | other hnetworks hstakes haccounts =>
      exact (KeepsIndex.of_eq hnetworks hstakes haccounts).indexed hindexed

theorem indexed_run (hstart : Indexed rt chain)
    (hrun : Relation.ReflTransGen (StakeStep rt) chain chain') : Indexed rt chain' := by
  induction hrun with
  | refl => exact hstart
  | tail _ hstep ih => exact hstep.indexed ih

/-- The new coldkey has all that the old one had. The hotkeys are those with an
owner, which the default account is not. -/
structure MovedAll (rt : Runtime A B P) (oldColdkey newColdkey : A) (chain chain' : Chain A B P) :
    Prop where
  oldShare : ∀ hotkey, ∀ netuid ∈ chain.networksAdded,
    shareOf chain'.stakes hotkey oldColdkey netuid = 0
  newShare : ∀ hotkey, ∀ netuid ∈ chain.networksAdded,
    (shareOf chain'.stakes hotkey newColdkey netuid).bits =
      (shareOf chain.stakes hotkey oldColdkey netuid).bits +
        (shareOf chain.stakes hotkey newColdkey netuid).bits
  totalHotkeyShares : chain'.stakes.totalHotkeyShares = chain.stakes.totalHotkeyShares
  totalHotkeyAlpha : chain'.stakes.totalHotkeyAlpha = chain.stakes.totalHotkeyAlpha
  owner : oldColdkey ≠ rt.defaultAccount → ∀ hotkey,
    chain.accounts.owner hotkey = some oldColdkey →
      chain'.accounts.owner hotkey = some newColdkey
  subnetOwner : ∀ netuid ∈ chain.networksAdded,
    (chain.subnets netuid).subnetOwner.getD rt.defaultAccount = oldColdkey →
      (chain'.subnets netuid).subnetOwner = some newColdkey

theorem doSwapColdkey_movesAll {swapCost : U64} (hindexed : Indexed rt chain)
    (hne : oldColdkey ≠ newColdkey)
    (h : chain.doSwapColdkey rt oldColdkey newColdkey swapCost = .ok chain') :
    MovedAll rt oldColdkey newColdkey chain chain' := by
  obtain ⟨hempty, -, ledger, lastBlocks, rfl⟩ := doSwapColdkey_ok h
  have hmoved := swapColdkeyStorage_moved rt chain hne
  -- the new coldkey stakes to no hotkey, so that the sums do not saturate
  have hnew : ∀ hotkey, ∀ netuid ∈ chain.networksAdded,
      shareOf chain.stakes hotkey newColdkey netuid = 0 := by
    intro hotkey netuid hnetwork
    by_contra hshare
    have hlisted := hindexed.index netuid hnetwork hotkey newColdkey hshare
    rw [hempty] at hlisted
    cases hlisted
  have hunlisted : ∀ hotkey, ∀ netuid ∈ chain.networksAdded,
      hotkey ∉ chain.accounts.stakingHotkeys oldColdkey →
        shareOf chain.stakes hotkey oldColdkey netuid = 0 := by
    intro hotkey netuid hnetwork hnot
    by_contra hshare
    exact hnot (hindexed.index netuid hnetwork hotkey oldColdkey hshare)
  refine ⟨?_, ?_, rfl, rfl, ?_, ?_⟩
  · intro hotkey netuid hnetwork
    show shareOf (chain.swapColdkeyStorage rt oldColdkey newColdkey).stakes _ _ _ = 0
    by_cases hlisted : hotkey ∈ chain.accounts.stakingHotkeys oldColdkey
    · exact hmoved.old hotkey netuid ⟨hlisted, hnetwork⟩
    · rw [hmoved.other hotkey oldColdkey netuid fun hdone => hlisted hdone.1.1]
      exact hunlisted hotkey netuid hnetwork hlisted
  · intro hotkey netuid hnetwork
    show (shareOf (chain.swapColdkeyStorage rt oldColdkey newColdkey).stakes _ _ _).bits = _
    rw [hnew hotkey netuid hnetwork]
    by_cases hlisted : hotkey ∈ chain.accounts.stakingHotkeys oldColdkey
    · rw [hmoved.new hotkey netuid ⟨hlisted, hnetwork⟩, hnew hotkey netuid hnetwork,
        satAdd_zero_left]
      rfl
    · rw [hmoved.other hotkey newColdkey netuid fun hdone => hlisted hdone.1.1,
        hunlisted hotkey netuid hnetwork hlisted, hnew hotkey netuid hnetwork]
      rfl
  · intro hdefault hotkey howner
    exact swapColdkeyAccounts_owner hindexed.owners hdefault howner
  · intro netuid hnetwork howner
    exact foldl_swapSubnetOwner chain.networksAdded.nodupKeys hnetwork howner

/-- **Coldkey swaps are complete.** In every state of a run all shares on the
subnets that exist are listed, so that a coldkey swap made there moves all of
them, and the hotkeys and subnets of the old coldkey with them. -/
theorem indexComplete_run (hstart : Indexed rt chain)
    (hrun : Relation.ReflTransGen (StakeStep rt) chain chain') :
    IndexComplete chain' ∧ ∀ (oldColdkey newColdkey : A) (swapCost : U64) (chain'' : Chain A B P),
      oldColdkey ≠ newColdkey →
        chain'.doSwapColdkey rt oldColdkey newColdkey swapCost = .ok chain'' →
          MovedAll rt oldColdkey newColdkey chain' chain'' := by
  have hindexed := indexed_run hstart hrun
  exact ⟨hindexed.index, fun _ _ _ _ hne h => doSwapColdkey_movesAll hindexed hne h⟩

theorem smallChain_indexed : Indexed runtime smallChain := by
  refine ⟨?_, ?_⟩
  · intro netuid _ hotkey coldkey hshare
    exact absurd rfl hshare
  · intro hotkey coldkey _ howner
    exact (smallChain_ownersDual.mem hotkey coldkey).mp howner

/-- The coldkey `10` stakes, and is then swapped for the coldkey `11`. -/
theorem indexComplete_run_smallChain :
    ∃ chain chain', smallChain.dispatch runtime (.addStake 10 1 (.sat 1) (.sat 1000000000)) =
        .ok chain ∧ IndexComplete chain ∧
      chain.doSwapColdkey runtime 10 11 (.sat 100000000) = .ok chain' ∧
      MovedAll runtime 10 11 chain chain' := by
  have hcalls : (smallChain.dispatch runtime (.addStake 10 1 (.sat 1)
      (.sat 1000000000))).toOption.map (fun chain => (chain.doSwapColdkey runtime 10 11
        (.sat 100000000)).toOption.map fun _ => ()) = some (some ()) := by
    decide +kernel
  obtain ⟨chain, hstake, hcalls⟩ := exists_ok_of_toOption_map hcalls
  obtain ⟨chain', hswap, -⟩ := exists_ok_of_toOption_map hcalls
  have hrun : Relation.ReflTransGen (StakeStep runtime) smallChain chain :=
    .single (.staking _ hstake)
  obtain ⟨hindex, hmoves⟩ := indexComplete_run smallChain_indexed hrun
  exact ⟨chain, chain', hstake, hindex, hswap, hmoves 10 11 _ chain' (by decide) hswap⟩

/-- The accounts and the stake that genesis makes: the default account owns
itself on the subnet `1`, with a billion shares, and is listed as a staker but
not as an owner. -/
def genesisChain : Chain ℕ (Balances ℕ) (SwapStorage ℕ) :=
  { smallChain.appendNeuron (.sat 1) 0 with
    stakes :=
      { totalHotkeyAlpha := (∅ : StorageMap (ℕ × NetUid) U64).insert (0, .sat 1) (.sat 1000000000)
        totalHotkeyShares := fun key => if key = (0, .sat 1) then .ofNat 1000000000 else 0
        alpha := (∅ : StorageMap (ℕ × ℕ × NetUid) U64F64).insert (0, 0, .sat 1)
          (.ofNat 1000000000) }
    accounts :=
      { owner := fun hotkey => if hotkey = 0 then some 0 else none
        ownedHotkeys := fun _ => []
        stakingHotkeys := fun coldkey => if coldkey = 0 then [0] else []
        delegates := fun _ => none
        childkeyTake := fun _ _ => 0 }
    subnets := fun netuid =>
      { smallChain.subnets netuid with
        subnetOwner := if netuid = .sat 1 then some 0 else none
        subnetOwnerHotkey := none } }

theorem genesisChain_indexed : Indexed runtime genesisChain := by
  refine ⟨?_, ?_⟩
  · intro netuid _ hotkey coldkey hshare
    by_cases hkey : (hotkey, coldkey, netuid) = (0, 0, .sat 1)
    · cases hkey
      exact List.mem_singleton_self 0
    · refine absurd ?_ hshare
      show ((AList.insert _ _ _).lookup (hotkey, coldkey, netuid)).getD 0 = 0
      rw [AList.lookup_insert_ne hkey]
      rfl
  · intro hotkey coldkey hdefault howner
    have howner : (if hotkey = 0 then some 0 else none) = some coldkey := howner
    split at howner
    · cases howner
      exact absurd rfl hdefault
    · cases howner

/-- A swap of the default account leaves it the hotkey that genesis gave it. -/
theorem doSwapColdkey_keepsOwner_genesisChain :
    Indexed runtime genesisChain ∧ ∃ chain, genesisChain.doSwapColdkey runtime 0 11 0 = .ok chain ∧
      genesisChain.accounts.owner 0 = some 0 ∧ chain.accounts.owner 0 = some 0 := by
  have hswap : (genesisChain.doSwapColdkey runtime 0 11 0).toOption.map
      (fun chain => chain.accounts.owner 0) = some (some 0) := by decide +kernel
  obtain ⟨chain, hok, howner⟩ := exists_ok_of_toOption_map hswap
  exact ⟨genesisChain_indexed, chain, hok, rfl, howner⟩

end Subtensor.Chain
