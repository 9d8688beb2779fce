import Subtensor.Accounts.KeySwaps
import Subtensor.Pallet.Instances
import Subtensor.SharePool.Merge
import Subtensor.Staking.Frame

/-!
# Stake and a swap of hotkeys

On every subnet that is swapped the pool of the old hotkey is merged into that
of the new one: the shared values, the totals of the shares, and the shares of
every coldkey are added up. Each coldkey gains or loses what the difference
between the two values of one share makes of it.
-/

namespace Subtensor.Chain

open Lib SharePool

variable {A B P : Type} [DecidableEq A] {rt : Runtime A B P} {chain chain' : Chain A B P}
  {oldHotkey newHotkey hotkey coldkey : A} {netuid : NetUid} {stakes stakes' : Stakes A}

/-! ## One entry -/

theorem mem_alphaOfHotkey {share : U64F64} :
    ((coldkey, netuid), share) ∈ alphaOfHotkey stakes hotkey ↔
      stakes.alpha.lookup (hotkey, coldkey, netuid) = some share := by
  unfold alphaOfHotkey
  rw [← StorageMap.mem_entries_iff, List.mem_map]
  constructor
  · rintro ⟨⟨⟨hotkey', key⟩, value⟩, hmem, heq⟩
    obtain ⟨hentry, hhotkey⟩ := List.mem_filter.mp hmem
    cases heq
    obtain rfl : hotkey' = hotkey := of_decide_eq_true hhotkey
    exact hentry
  · intro hmem
    exact ⟨_, List.mem_filter.mpr ⟨hmem, decide_eq_true rfl⟩, rfl⟩

theorem alphaOfHotkey_nodup : ((alphaOfHotkey stakes hotkey).map (·.1)).Nodup := by
  unfold alphaOfHotkey
  rw [List.map_map]
  refine List.Nodup.map_on ?_ (stakes.alpha.nodupKeys.nodup.filter _)
  intro x hx y hy heq
  obtain ⟨hx, hxhotkey⟩ := List.mem_filter.mp hx
  obtain ⟨hy, hyhotkey⟩ := List.mem_filter.mp hy
  have hhotkey : x.1.1 = y.1.1 :=
    (of_decide_eq_true hxhotkey).trans (of_decide_eq_true hyhotkey).symm
  exact stakes.alpha.nodupKeys.eq_of_fst_eq hx hy (Prod.ext hhotkey heq)

/-- An entry of another coldkey or of another subnet leaves the shares alone. -/
theorem swapAlphaEntry_of_ne {state : Stakes A × Accounts A} {entry : (A × NetUid) × U64F64}
    (hentry : entry.1 ≠ (coldkey, netuid)) :
    (swapAlphaEntry oldHotkey newHotkey netuid state entry).1.alpha.lookup
        (hotkey, coldkey, netuid) = state.1.alpha.lookup (hotkey, coldkey, netuid) := by
  unfold swapAlphaEntry
  extract_lets coldkey' newAlpha alpha stakingHotkeys
  split
  · rename_i hnetuid
    have hcoldkey : coldkey ≠ coldkey' := by
      rintro rfl
      exact hentry (Prod.ext rfl hnetuid)
    have hkey : ∀ hotkey', (hotkey, coldkey, netuid) ≠ (hotkey', coldkey', netuid) := by
      intro hotkey' h
      exact hcoldkey (Prod.ext_iff.mp (Prod.ext_iff.mp h).2).1
    show (alpha.insert _ _).lookup _ = _
    rw [AList.lookup_insert_ne (hkey newHotkey), AList.lookup_erase_ne (hkey oldHotkey),
      AList.lookup_erase_ne (hkey newHotkey)]
  · rfl

theorem swapAlphaEntry_self (hne : oldHotkey ≠ newHotkey) {state : Stakes A × Accounts A}
    {share : U64F64} :
    (swapAlphaEntry oldHotkey newHotkey netuid state ((coldkey, netuid), share)).1.alpha.lookup
        (newHotkey, coldkey, netuid) =
          some (share.satAdd ((state.1.alpha.lookup (newHotkey, coldkey, netuid)).getD 0)) ∧
      (swapAlphaEntry oldHotkey newHotkey netuid state ((coldkey, netuid), share)).1.alpha.lookup
        (oldHotkey, coldkey, netuid) = none := by
  have hkey : (oldHotkey, coldkey, netuid) ≠ (newHotkey, coldkey, netuid) := by
    intro h
    exact hne (Prod.ext_iff.mp h).1
  unfold swapAlphaEntry
  extract_lets coldkey' newAlpha alpha stakingHotkeys
  rw [if_pos rfl]
  constructor
  · exact AList.lookup_insert _
  · exact (AList.lookup_insert_ne hkey).trans (AList.lookup_erase _ _)

/-- An entry changes neither the totals nor another subnet. -/
theorem swapAlphaEntry_frame (oldHotkey newHotkey : A) (netuid : NetUid)
    (state : Stakes A × Accounts A) (entry : (A × NetUid) × U64F64) :
    (swapAlphaEntry oldHotkey newHotkey netuid state entry).1.totalHotkeyAlpha =
        state.1.totalHotkeyAlpha ∧
      (swapAlphaEntry oldHotkey newHotkey netuid state entry).1.totalHotkeyShares =
        state.1.totalHotkeyShares ∧
      Stakes.SameOutside netuid state.1
        (swapAlphaEntry oldHotkey newHotkey netuid state entry).1 := by
  unfold swapAlphaEntry
  extract_lets coldkey' newAlpha alpha stakingHotkeys
  split
  · refine ⟨rfl, rfl, fun _ _ _ => rfl, fun _ _ _ => rfl, ?_⟩
    intro hotkey coldkey n hn
    have hkey : ∀ hotkey', (hotkey, coldkey, n) ≠ (hotkey', coldkey', netuid) := by
      intro hotkey' h
      exact hn (Prod.ext_iff.mp (Prod.ext_iff.mp h).2).2
    show (alpha.insert _ _).lookup _ = _
    rw [AList.lookup_insert_ne (hkey newHotkey), AList.lookup_erase_ne (hkey oldHotkey),
      AList.lookup_erase_ne (hkey newHotkey)]
  · exact ⟨rfl, rfl, .refl netuid state.1⟩

/-! ## The loop over the entries -/

theorem swapAlphaLoop_frame (oldHotkey newHotkey : A) (netuid : NetUid)
    (entries : List ((A × NetUid) × U64F64)) (state : Stakes A × Accounts A) :
    (entries.foldl (swapAlphaEntry oldHotkey newHotkey netuid) state).1.totalHotkeyAlpha =
        state.1.totalHotkeyAlpha ∧
      (entries.foldl (swapAlphaEntry oldHotkey newHotkey netuid) state).1.totalHotkeyShares =
        state.1.totalHotkeyShares ∧
      Stakes.SameOutside netuid state.1
        (entries.foldl (swapAlphaEntry oldHotkey newHotkey netuid) state).1 := by
  induction entries generalizing state with
  | nil => exact ⟨rfl, rfl, .refl netuid state.1⟩
  | cons entry entries ih =>
      obtain ⟨halpha, hshares, houtside⟩ := ih (swapAlphaEntry oldHotkey newHotkey netuid state entry)
      obtain ⟨halpha₁, hshares₁, houtside₁⟩ :=
        swapAlphaEntry_frame oldHotkey newHotkey netuid state entry
      exact ⟨halpha.trans halpha₁, hshares.trans hshares₁, houtside₁.trans houtside⟩

theorem swapAlphaLoop_of_notMem {entries : List ((A × NetUid) × U64F64)}
    (hnot : (coldkey, netuid) ∉ entries.map (·.1)) (state : Stakes A × Accounts A) :
    (entries.foldl (swapAlphaEntry oldHotkey newHotkey netuid) state).1.alpha.lookup
      (hotkey, coldkey, netuid) = state.1.alpha.lookup (hotkey, coldkey, netuid) := by
  induction entries generalizing state with
  | nil => rfl
  | cons entry entries ih =>
      rw [List.map_cons, List.mem_cons, not_or] at hnot
      rw [List.foldl_cons, ih hnot.2]
      exact swapAlphaEntry_of_ne (Ne.symm hnot.1)

/-- Every coldkey has at most one entry on the subnet, which is swapped once. -/
theorem swapAlphaLoop_of_mem (hne : oldHotkey ≠ newHotkey)
    {entries : List ((A × NetUid) × U64F64)} (hnodup : (entries.map (·.1)).Nodup)
    {share : U64F64} (hmem : ((coldkey, netuid), share) ∈ entries)
    (state : Stakes A × Accounts A) :
    (entries.foldl (swapAlphaEntry oldHotkey newHotkey netuid) state).1.alpha.lookup
        (newHotkey, coldkey, netuid) =
          some (share.satAdd ((state.1.alpha.lookup (newHotkey, coldkey, netuid)).getD 0)) ∧
      (entries.foldl (swapAlphaEntry oldHotkey newHotkey netuid) state).1.alpha.lookup
        (oldHotkey, coldkey, netuid) = none := by
  induction entries generalizing state with
  | nil => cases hmem
  | cons entry entries ih =>
      rw [List.map_cons, List.nodup_cons] at hnodup
      obtain ⟨hnot, hnodup⟩ := hnodup
      rw [List.foldl_cons]
      rcases List.mem_cons.mp hmem with rfl | hmem
      · rw [swapAlphaLoop_of_notMem hnot, swapAlphaLoop_of_notMem hnot]
        exact swapAlphaEntry_self hne
      · have hentry : entry.1 ≠ (coldkey, netuid) := by
          intro heq
          rw [heq] at hnot
          exact hnot (List.mem_map.mpr ⟨_, hmem, rfl⟩)
        obtain ⟨hnew, hold⟩ := ih hnodup hmem (swapAlphaEntry oldHotkey newHotkey netuid state entry)
        rw [swapAlphaEntry_of_ne hentry] at hnew
        exact ⟨hnew, hold⟩

/-! ## One subnet -/

/-- The pool of the old hotkey was merged into that of the new one. -/
structure PoolsMerged (oldHotkey newHotkey : A) (netuid : NetUid) (stakes stakes' : Stakes A) :
    Prop where
  value : (stakes'.totalHotkeyAlpha.lookup (newHotkey, netuid)).getD 0 =
    ((stakes.totalHotkeyAlpha.lookup (newHotkey, netuid)).getD 0).satAdd
      ((stakes.totalHotkeyAlpha.lookup (oldHotkey, netuid)).getD 0)
  denominator : stakes'.totalHotkeyShares (newHotkey, netuid) =
    (stakes.totalHotkeyShares (newHotkey, netuid)).satAdd
      (stakes.totalHotkeyShares (oldHotkey, netuid))
  share : ∀ coldkey, shareOf stakes' newHotkey coldkey netuid =
    (shareOf stakes oldHotkey coldkey netuid).satAdd (shareOf stakes newHotkey coldkey netuid)
  left : ∀ coldkey, stakes'.alpha.lookup (oldHotkey, coldkey, netuid) = none

theorem satAdd_zero_left (share : U64F64) : (0 : U64F64).satAdd share = share := by
  apply UFixed.ext
  have := share.isLt
  rw [UFixed.bits_satAdd, UFixed.bits_zero]
  omega

/-- What the loop over all entries makes of the shares of one coldkey. -/
theorem swapAlphaLoop_share (hne : oldHotkey ≠ newHotkey) {state : Stakes A × Accounts A}
    (halpha : state.1.alpha = stakes.alpha) :
    shareOf ((alphaOfHotkey stakes oldHotkey).foldl (swapAlphaEntry oldHotkey newHotkey netuid)
        state).1 newHotkey coldkey netuid =
      (shareOf stakes oldHotkey coldkey netuid).satAdd (shareOf stakes newHotkey coldkey netuid) ∧
    ((alphaOfHotkey stakes oldHotkey).foldl (swapAlphaEntry oldHotkey newHotkey netuid)
        state).1.alpha.lookup (oldHotkey, coldkey, netuid) = none := by
  unfold shareOf
  cases hshare : stakes.alpha.lookup (oldHotkey, coldkey, netuid) with
  | some share =>
      obtain ⟨hnew, hold⟩ := swapAlphaLoop_of_mem hne alphaOfHotkey_nodup
        (mem_alphaOfHotkey.mpr hshare) state
      rw [hnew, halpha]
      exact ⟨rfl, hold⟩
  | none =>
      have hnot : (coldkey, netuid) ∉ (alphaOfHotkey stakes oldHotkey).map (·.1) := by
        intro hmem
        obtain ⟨⟨key, share⟩, hentry, rfl⟩ := List.mem_map.mp hmem
        rw [mem_alphaOfHotkey, hshare] at hentry
        cases hentry
      rw [swapAlphaLoop_of_notMem hnot, swapAlphaLoop_of_notMem hnot, halpha, Option.getD_none,
        satAdd_zero_left]
      exact ⟨rfl, hshare⟩

theorem performHotkeySwapOnOneSubnet_merged (hne : oldHotkey ≠ newHotkey) :
    PoolsMerged oldHotkey newHotkey netuid chain.stakes
      (chain.performHotkeySwapOnOneSubnet oldHotkey newHotkey netuid).stakes := by
  have hkey : (newHotkey, netuid) ≠ (oldHotkey, netuid) := by
    intro h
    exact hne (Prod.ext_iff.mp h).1.symm
  unfold performHotkeySwapOnOneSubnet
  extract_lets isMember stakes moved
  obtain ⟨halpha, hshares, -⟩ := swapAlphaLoop_frame oldHotkey newHotkey netuid
    (alphaOfHotkey chain.stakes oldHotkey) (stakes, chain.accounts)
  have hloop : ∀ coldkey, shareOf moved.1 newHotkey coldkey netuid =
        (shareOf chain.stakes oldHotkey coldkey netuid).satAdd
          (shareOf chain.stakes newHotkey coldkey netuid) ∧
      moved.1.alpha.lookup (oldHotkey, coldkey, netuid) = none :=
    fun coldkey => swapAlphaLoop_share hne rfl
  refine ⟨?_, ?_, fun coldkey => (hloop coldkey).1, fun coldkey => (hloop coldkey).2⟩
  · show (moved.1.totalHotkeyAlpha.lookup (newHotkey, netuid)).getD 0 = _
    rw [halpha]
    show ((AList.insert _ _ _).lookup (newHotkey, netuid)).getD 0 = _
    rw [AList.lookup_insert, AList.lookup_erase_ne hkey]
    rfl
  · show moved.1.totalHotkeyShares (newHotkey, netuid) = _
    rw [hshares]
    show Function.update (Function.update _ _ _) _ _ (newHotkey, netuid) = _
    rw [Function.update_self, Function.update_of_ne hkey]

theorem performHotkeySwapOnOneSubnet_outside :
    Stakes.SameOutside netuid chain.stakes
      (chain.performHotkeySwapOnOneSubnet oldHotkey newHotkey netuid).stakes := by
  have htotals : Stakes.SameOutside netuid chain.stakes
      (swapHotkeyTotals chain.stakes oldHotkey newHotkey netuid) := by
    refine ⟨?_, ?_, fun _ _ _ _ => rfl⟩
    · intro hotkey n hn
      exact (AList.lookup_insert_ne (Stakes.SameOutside.key_ne hn)).trans
        (AList.lookup_erase_ne (Stakes.SameOutside.key_ne hn))
    · intro hotkey n hn
      show Function.update (Function.update _ _ _) _ _ (hotkey, n) = _
      rw [Function.update_of_ne (Stakes.SameOutside.key_ne hn),
        Function.update_of_ne (Stakes.SameOutside.key_ne hn)]
  exact htotals.trans (swapAlphaLoop_frame oldHotkey newHotkey netuid
    (alphaOfHotkey chain.stakes oldHotkey) (_, chain.accounts)).2.2

/-! ## All subnets that are swapped -/

theorem PoolsMerged.of_outside {stakes₁ : Stakes A} {n : NetUid} (hn : netuid ≠ n)
    (h : PoolsMerged oldHotkey newHotkey netuid stakes₁ stakes')
    (houtside : Stakes.SameOutside n stakes stakes₁) :
    PoolsMerged oldHotkey newHotkey netuid stakes stakes' := by
  refine ⟨?_, ?_, ?_, h.left⟩
  · rw [h.value, houtside.totalHotkeyAlpha _ _ hn, houtside.totalHotkeyAlpha _ _ hn]
  · rw [h.denominator, houtside.totalHotkeyShares _ _ hn, houtside.totalHotkeyShares _ _ hn]
  · intro coldkey
    rw [h.share, shareOf, shareOf, houtside.alpha _ _ _ hn, houtside.alpha _ _ _ hn]
    rfl

theorem PoolsMerged.then_outside {stakes₁ : Stakes A} {n : NetUid} (hn : netuid ≠ n)
    (h : PoolsMerged oldHotkey newHotkey netuid stakes stakes₁)
    (houtside : Stakes.SameOutside n stakes₁ stakes') :
    PoolsMerged oldHotkey newHotkey netuid stakes stakes' := by
  refine ⟨?_, ?_, ?_, ?_⟩
  · rw [houtside.totalHotkeyAlpha _ _ hn, h.value]
  · rw [houtside.totalHotkeyShares _ _ hn, h.denominator]
  · intro coldkey
    rw [shareOf, houtside.alpha _ _ _ hn]
    exact h.share coldkey
  · intro coldkey
    rw [houtside.alpha _ _ _ hn, h.left]

theorem PoolsMerged.then_subnets {netuids : List NetUid} (hnot : netuid ∉ netuids)
    (h : PoolsMerged oldHotkey newHotkey netuid stakes chain.stakes) :
    PoolsMerged oldHotkey newHotkey netuid stakes
      (chain.performHotkeySwapOnSubnets oldHotkey newHotkey netuids).stakes := by
  induction netuids generalizing chain with
  | nil => exact h
  | cons n netuids ih =>
      rw [List.mem_cons, not_or] at hnot
      exact ih hnot.2 (h.then_outside hnot.1 performHotkeySwapOnOneSubnet_outside)

theorem performHotkeySwapOnSubnets_merged (chain : Chain A B P) (hne : oldHotkey ≠ newHotkey)
    {netuids : List NetUid} (hnodup : netuids.Nodup) (hmem : netuid ∈ netuids) :
    PoolsMerged oldHotkey newHotkey netuid chain.stakes
      (chain.performHotkeySwapOnSubnets oldHotkey newHotkey netuids).stakes := by
  induction netuids generalizing chain with
  | nil => cases hmem
  | cons n netuids ih =>
      obtain ⟨hnot, hnodup'⟩ := List.nodup_cons.mp hnodup
      rcases List.mem_cons.mp hmem with rfl | hmem'
      · show PoolsMerged _ _ _ _ ((chain.performHotkeySwapOnOneSubnet oldHotkey newHotkey
          netuid).performHotkeySwapOnSubnets oldHotkey newHotkey netuids).stakes
        exact PoolsMerged.then_subnets hnot (performHotkeySwapOnOneSubnet_merged hne)
      · have hn : netuid ≠ n := by
          rintro rfl
          exact hnot hmem'
        exact (ih _ hnodup' hmem').of_outside hn performHotkeySwapOnOneSubnet_outside

theorem doSwapHotkey_merged {onSubnet : Option NetUid}
    (h : chain.doSwapHotkey rt coldkey oldHotkey newHotkey onSubnet = .ok chain')
    (hmem : netuid ∈ chain.swappedSubnets onSubnet) :
    PoolsMerged oldHotkey newHotkey netuid chain.stakes chain'.stakes := by
  obtain ⟨-, hne, -, ledger, lastBlocks, senateMembers, rfl⟩ := doSwapHotkey_ok h
  have hmerged := performHotkeySwapOnSubnets_merged ({ chain with
    accounts := swapOwner chain.accounts coldkey oldHotkey newHotkey onSubnet.isNone }) hne
      (swappedSubnets_nodup chain onSubnet) hmem
  cases onSubnet with
  | none => exact hmerged
  | some n => exact hmerged

/-! ## Values -/

/-- A pair without an entry has no shares, and is worth nothing. -/
theorem val_getStake (chain : Chain A B P) (hotkey coldkey : A) (netuid : NetUid) :
    (chain.getStakeForHotkeyAndColdkeyOnSubnet hotkey coldkey netuid).val =
      (valueFromShares (.ofNat (chain.getStakeForHotkeyOnSubnet hotkey netuid).val)
        (chain.stakes.totalHotkeyShares (hotkey, netuid))
        (shareOf chain.stakes hotkey coldkey netuid)).val := by
  unfold getStakeForHotkeyAndColdkeyOnSubnet tryGetValue getValue shareOf
  simp only [hotkeyAlphaSharePool]
  cases hshare : chain.stakes.alpha.lookup (hotkey, coldkey, netuid) with
  | some share => rfl
  | none =>
      rw [Option.map_none, Option.getD_none, Option.getD_none, valueFromShares_zero]
      rfl

/-- The pools of the two hotkeys can be added up, and the coldkey has no more
shares than there are. -/
structure PoolsFit (stakes : Stakes A) (oldHotkey newHotkey coldkey : A) (netuid : NetUid) :
    Prop where
  value : ((stakes.totalHotkeyAlpha.lookup (oldHotkey, netuid)).getD 0).val +
    ((stakes.totalHotkeyAlpha.lookup (newHotkey, netuid)).getD 0).val < 2 ^ 64
  denominator : (stakes.totalHotkeyShares (oldHotkey, netuid)).bits +
    (stakes.totalHotkeyShares (newHotkey, netuid)).bits < 2 ^ 128
  oldShare : (shareOf stakes oldHotkey coldkey netuid).bits ≤
    (stakes.totalHotkeyShares (oldHotkey, netuid)).bits
  newShare : (shareOf stakes newHotkey coldkey netuid).bits ≤
    (stakes.totalHotkeyShares (newHotkey, netuid)).bits

/-- What the merge of the two pools gives to the coldkey, before rounding. -/
def swapGain (stakes : Stakes A) (oldHotkey newHotkey coldkey : A) (netuid : NetUid) : ℚ :=
  mergeGain ((stakes.totalHotkeyAlpha.lookup (oldHotkey, netuid)).getD 0)
    ((stakes.totalHotkeyAlpha.lookup (newHotkey, netuid)).getD 0)
    (stakes.totalHotkeyShares (oldHotkey, netuid)) (stakes.totalHotkeyShares (newHotkey, netuid))
    (shareOf stakes oldHotkey coldkey netuid) (shareOf stakes newHotkey coldkey netuid)

/-- The value of a coldkey after a swap, less its values under both hotkeys
before. -/
def valueChange (chain chain' : Chain A B P) (oldHotkey newHotkey coldkey : A)
    (netuid : NetUid) : ℤ :=
  (chain'.getStakeForHotkeyAndColdkeyOnSubnet newHotkey coldkey netuid).val -
    ((chain.getStakeForHotkeyAndColdkeyOnSubnet oldHotkey coldkey netuid).val +
      (chain.getStakeForHotkeyAndColdkeyOnSubnet newHotkey coldkey netuid).val)

theorem PoolsMerged.valueChange_bounds
    (h : PoolsMerged oldHotkey newHotkey netuid chain.stakes chain'.stakes)
    (hfit : PoolsFit chain.stakes oldHotkey newHotkey coldkey netuid) :
    swapGain chain.stakes oldHotkey newHotkey coldkey netuid - 2 <
        (valueChange chain chain' oldHotkey newHotkey coldkey netuid : ℚ) ∧
      (valueChange chain chain' oldHotkey newHotkey coldkey netuid : ℚ) <
        swapGain chain.stakes oldHotkey newHotkey coldkey netuid + 3 := by
  have hvalue : (chain'.getStakeForHotkeyOnSubnet newHotkey netuid).val =
      (chain.getStakeForHotkeyOnSubnet oldHotkey netuid).val +
        (chain.getStakeForHotkeyOnSubnet newHotkey netuid).val := by
    rw [getStakeForHotkeyOnSubnet, h.value, Word.val_satAdd_of_lt]
    · exact Nat.add_comm _ _
    · rw [Nat.add_comm]
      exact hfit.value
  have hdenominator : (chain'.stakes.totalHotkeyShares (newHotkey, netuid)).bits =
      (chain.stakes.totalHotkeyShares (oldHotkey, netuid)).bits +
        (chain.stakes.totalHotkeyShares (newHotkey, netuid)).bits := by
    have hlt := hfit.denominator
    rw [h.denominator, UFixed.bits_satAdd]
    omega
  have hshare : (shareOf chain'.stakes newHotkey coldkey netuid).bits =
      (shareOf chain.stakes oldHotkey coldkey netuid).bits +
        (shareOf chain.stakes newHotkey coldkey netuid).bits := by
    have hlt := hfit.denominator
    have hold := hfit.oldShare
    have hnew := hfit.newShare
    rw [h.share, UFixed.bits_satAdd]
    omega
  unfold valueChange
  rw [val_getStake, val_getStake, val_getStake]
  exact valueFromShares_merge hvalue hdenominator hshare hfit.oldShare hfit.newShare

/-- The coldkey keeps its value, up to two units, and has nothing left under the
old hotkey. -/
def KeepsStakeValue (chain chain' : Chain A B P) (oldHotkey newHotkey coldkey : A) (netuid : NetUid) :
    Prop :=
  |valueChange chain chain' oldHotkey newHotkey coldkey netuid| ≤ 2 ∧
    chain'.getStakeForHotkeyAndColdkeyOnSubnet oldHotkey coldkey netuid = 0

/-- **Stake after a swap of hotkeys.** A coldkey keeps its value if the merge of
the two pools gives it nothing, that is if their shares are worth the same or the
coldkey has the same part of both; and it does not if the merge gives or takes
more than rounding can hide. -/
theorem doSwapHotkey_keepsValue {signer : A} {onSubnet : Option NetUid}
    (h : chain.doSwapHotkey rt signer oldHotkey newHotkey onSubnet = .ok chain')
    (hmem : netuid ∈ chain.swappedSubnets onSubnet)
    (hfit : PoolsFit chain.stakes oldHotkey newHotkey coldkey netuid) :
    (-1 ≤ swapGain chain.stakes oldHotkey newHotkey coldkey netuid ∧
        swapGain chain.stakes oldHotkey newHotkey coldkey netuid ≤ 0 →
      KeepsStakeValue chain chain' oldHotkey newHotkey coldkey netuid) ∧
    (KeepsStakeValue chain chain' oldHotkey newHotkey coldkey netuid →
      -5 < swapGain chain.stakes oldHotkey newHotkey coldkey netuid ∧
        swapGain chain.stakes oldHotkey newHotkey coldkey netuid < 4) := by
  have hmerged := doSwapHotkey_merged h hmem
  obtain ⟨hlower, hupper⟩ := hmerged.valueChange_bounds hfit
  have hleft : chain'.getStakeForHotkeyAndColdkeyOnSubnet oldHotkey coldkey netuid = 0 := by
    unfold getStakeForHotkeyAndColdkeyOnSubnet tryGetValue
    simp only [hotkeyAlphaSharePool]
    rw [hmerged.left]
    rfl
  constructor
  · rintro ⟨hgain, hgain'⟩
    refine ⟨?_, hleft⟩
    have hgt : (-3 : ℚ) < valueChange chain chain' oldHotkey newHotkey coldkey netuid := by
      linarith
    have hlt : (valueChange chain chain' oldHotkey newHotkey coldkey netuid : ℚ) < 3 := by
      linarith
    have hgt' : -3 < valueChange chain chain' oldHotkey newHotkey coldkey netuid := by
      exact_mod_cast hgt
    have hlt' : valueChange chain chain' oldHotkey newHotkey coldkey netuid < 3 := by
      exact_mod_cast hlt
    rw [abs_le]
    omega
  · rintro ⟨habs, -⟩
    obtain ⟨hge, hle⟩ := abs_le.mp habs
    have hge' : (-2 : ℚ) ≤ valueChange chain chain' oldHotkey newHotkey coldkey netuid := by
      exact_mod_cast hge
    have hle' : (valueChange chain chain' oldHotkey newHotkey coldkey netuid : ℚ) ≤ 2 := by
      exact_mod_cast hle
    constructor
    · linarith
    · linarith

/-- The coldkey `10` has 1000 shares of its hotkey `1`, which are worth 2000, and
the coldkey `20` has shares of the hotkey `2`, which are worth 1000. -/
def twoPoolsChain (newShares : U64) : Chain ℕ (Balances ℕ) (SwapStorage ℕ) :=
  { smallChain with
    stakes :=
      { totalHotkeyAlpha :=
          ((∅ : StorageMap (ℕ × NetUid) U64).insert (1, .sat 1) (.sat 2000)).insert (2, .sat 1)
            (.sat 1000)
        totalHotkeyShares := fun key =>
          if key = (1, .sat 1) then .ofNat 1000
          else if key = (2, .sat 1) then .ofNat newShares.val else 0
        alpha :=
          ((∅ : StorageMap (ℕ × ℕ × NetUid) U64F64).insert (1, 10, .sat 1) (.ofNat 1000)).insert
            (2, 20, .sat 1) (.ofNat newShares.val) } }

/-- Shares of both hotkeys are worth two units each. -/
theorem doSwapHotkey_keepsValue_twoPoolsChain :
    ∃ chain', (twoPoolsChain (.sat 500)).doSwapHotkey runtime 10 1 2 none = .ok chain' ∧
      KeepsStakeValue (twoPoolsChain (.sat 500)) chain' 1 2 20 (.sat 1) := by
  have hswap : ((twoPoolsChain (.sat 500)).doSwapHotkey runtime 10 1 2 none).toOption.map
      (fun _ => ()) = some () := by decide +kernel
  obtain ⟨chain', hok, -⟩ := exists_ok_of_toOption_map hswap
  have hfit : PoolsFit (twoPoolsChain (.sat 500)).stakes 1 2 20 (.sat 1) := by
    constructor <;> decide +kernel
  have hgain : swapGain (twoPoolsChain (.sat 500)).stakes 1 2 20 (.sat 1) = 0 :=
    (mergeGain_eq_zero_iff (by decide +kernel) (by decide +kernel)).mpr
      (Or.inl (by decide +kernel))
  refine ⟨chain', hok, (doSwapHotkey_keepsValue hok (by decide +kernel) hfit).1 ?_⟩
  rw [hgain]
  norm_num

/-- Shares of the hotkey `1` are worth twice as much as those of the hotkey `2`.
The coldkey `20`, which did nothing, gains 500, and the coldkey `10` loses them. -/
theorem doSwapHotkey_movesValue_twoPoolsChain :
    ∃ chain', (twoPoolsChain (.sat 1000)).doSwapHotkey runtime 10 1 2 none = .ok chain' ∧
      valueChange (twoPoolsChain (.sat 1000)) chain' 1 2 20 (.sat 1) = 500 ∧
      valueChange (twoPoolsChain (.sat 1000)) chain' 1 2 10 (.sat 1) = -500 ∧
      ¬KeepsStakeValue (twoPoolsChain (.sat 1000)) chain' 1 2 20 (.sat 1) := by
  have hswap : ((twoPoolsChain (.sat 1000)).doSwapHotkey runtime 10 1 2 none).toOption.map
      (fun chain => (valueChange (twoPoolsChain (.sat 1000)) chain 1 2 20 (.sat 1),
        valueChange (twoPoolsChain (.sat 1000)) chain 1 2 10 (.sat 1))) = some (500, -500) := by
    decide +kernel
  obtain ⟨chain', hok, hchange⟩ := exists_ok_of_toOption_map hswap
  obtain ⟨hgains, hloses⟩ := Prod.mk.inj hchange
  refine ⟨chain', hok, hgains, hloses, ?_⟩
  rintro ⟨hkeeps, -⟩
  rw [hgains] at hkeeps
  exact absurd hkeeps (by decide)

end Subtensor.Chain
