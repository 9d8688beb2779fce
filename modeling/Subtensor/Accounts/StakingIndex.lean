import Subtensor.Accounts.Owners
import Subtensor.Emission.Frame
import Subtensor.SharePool.Merge
import Subtensor.SharePool.Update
import Subtensor.Staking.Issuance

/-!
# The index of stakers

`StakingHotkeys` lists the hotkeys that a coldkey stakes to. Whatever gives
shares to a coldkey lists the hotkey first: no staking call and no block gives
shares that the list does not know of, and none takes a hotkey from it.
-/

namespace Subtensor.Chain

open Lib SharePool

variable {A B P : Type} [DecidableEq A] {rt : Runtime A B P} {chain chain₁ chain' : Chain A B P}
  {hotkey coldkey : A} {netuid : NetUid} {amount : U64}

/-- Shares that are new are listed, nothing is taken from a list, and subnets
and owners are as before. -/
structure KeepsIndex (chain chain' : Chain A B P) : Prop where
  networksAdded : chain'.networksAdded = chain.networksAdded
  owners : KeepsOwners chain.accounts chain'.accounts
  listed : ∀ coldkey, ∀ hotkey ∈ chain.accounts.stakingHotkeys coldkey,
    hotkey ∈ chain'.accounts.stakingHotkeys coldkey
  shares : ∀ hotkey coldkey netuid, shareOf chain'.stakes hotkey coldkey netuid ≠ 0 →
    shareOf chain.stakes hotkey coldkey netuid ≠ 0 ∨
      hotkey ∈ chain'.accounts.stakingHotkeys coldkey

namespace KeepsIndex

theorem of_eq (hnetworks : chain'.networksAdded = chain.networksAdded)
    (hstakes : chain'.stakes = chain.stakes) (haccounts : chain'.accounts = chain.accounts) :
    KeepsIndex chain chain' := by
  refine ⟨hnetworks, ?_, ?_, ?_⟩
  · rw [haccounts]
    exact .refl chain.accounts
  · rw [haccounts]
    exact fun _ _ h => h
  · rw [hstakes]
    exact fun _ _ _ => Or.inl

theorem refl (chain : Chain A B P) : KeepsIndex chain chain := of_eq rfl rfl rfl

theorem trans (h₁ : KeepsIndex chain chain₁) (h₂ : KeepsIndex chain₁ chain') :
    KeepsIndex chain chain' := by
  refine ⟨h₂.networksAdded.trans h₁.networksAdded, h₁.owners.trans h₂.owners, ?_, ?_⟩
  · intro coldkey hotkey hmem
    exact h₂.listed coldkey hotkey (h₁.listed coldkey hotkey hmem)
  · intro hotkey coldkey netuid hshare
    rcases h₂.shares hotkey coldkey netuid hshare with hshare | hmem
    · rcases h₁.shares hotkey coldkey netuid hshare with hshare | hmem
      · exact Or.inl hshare
      · exact Or.inr (h₂.listed coldkey hotkey hmem)
    · exact Or.inr hmem

theorem foldl {α : Type} {f : Chain A B P → α → Chain A B P}
    (h : ∀ chain a, KeepsIndex chain (f chain a)) (l : List α) (chain : Chain A B P) :
    KeepsIndex chain (l.foldl f chain) := by
  induction l generalizing chain with
  | nil => exact refl chain
  | cons a l ih => exact (h chain a).trans (ih (f chain a))

end KeepsIndex

/-! ## The shares of one pair -/

theorem shareOf_congr {stakes stakes' : Stakes A} (h : stakes'.alpha = stakes.alpha) :
    shareOf stakes' hotkey coldkey netuid = shareOf stakes hotkey coldkey netuid := by
  unfold shareOf
  rw [h]

theorem updateValueForAll_alpha {stakes : Stakes A} {update : I64} :
    (updateValueForAll (hotkeyAlphaSharePool hotkey netuid) stakes update).alpha =
      stakes.alpha := rfl

theorem shareOf_setShare {stakes : Stakes A} {share : U64F64} {hotkey' coldkey' : A}
    {netuid' : NetUid} :
    shareOf ((hotkeyAlphaSharePool hotkey netuid).setShare stakes coldkey share) hotkey' coldkey'
        netuid' =
      if (hotkey', coldkey', netuid') = (hotkey, coldkey, netuid) then share
      else shareOf stakes hotkey' coldkey' netuid' := by
  show ((if share.bits ≠ 0 then _ else _ : StorageMap (A × A × NetUid) U64F64).lookup _).getD 0 = _
  by_cases hkey : (hotkey', coldkey', netuid') = (hotkey, coldkey, netuid)
  · rw [if_pos hkey, hkey]
    by_cases hzero : share.bits = 0
    · rw [if_neg (not_not.mpr hzero), AList.lookup_erase]
      exact UFixed.ext hzero.symm
    · rw [if_pos hzero, AList.lookup_insert]
      rfl
  · rw [if_neg hkey]
    split
    · rw [AList.lookup_insert_ne hkey]
      rfl
    · rw [AList.lookup_erase_ne hkey]
      rfl

/-- An update of one pair changes the shares of this pair only. -/
theorem shareOf_updateValueForOne {stakes : Stakes A} {update : I64} {hotkey' coldkey' : A}
    {netuid' : NetUid} :
    shareOf (updateValueForOne (hotkeyAlphaSharePool hotkey netuid) stakes coldkey update).1
        hotkey' coldkey' netuid' =
      if (hotkey', coldkey', netuid') = (hotkey, coldkey, netuid) then
        (shareUpdate ((hotkeyAlphaSharePool hotkey netuid).getSharedValue stakes)
          ((hotkeyAlphaSharePool hotkey netuid).getDenominator stakes)
          (shareOf stakes hotkey coldkey netuid) update).share
      else shareOf stakes hotkey' coldkey' netuid' :=
  shareOf_setShare

/-- Shares that an update makes belong to its pair, and come from an amount. -/
theorem shareOf_updateValueForOne_ne_zero {stakes : Stakes A} {update : I64} {hotkey' coldkey' : A}
    {netuid' : NetUid}
    (h : shareOf (updateValueForOne (hotkeyAlphaSharePool hotkey netuid) stakes coldkey update).1
      hotkey' coldkey' netuid' ≠ 0) :
    shareOf stakes hotkey' coldkey' netuid' ≠ 0 ∨
      (hotkey' = hotkey ∧ coldkey' = coldkey ∧ netuid' = netuid ∧ update.val ≠ 0) := by
  rw [shareOf_updateValueForOne] at h
  by_cases hkey : (hotkey', coldkey', netuid') = (hotkey, coldkey, netuid)
  · rw [if_pos hkey] at h
    cases hkey
    by_cases hzero : shareOf stakes hotkey coldkey netuid = 0
    · refine Or.inr ⟨rfl, rfl, rfl, ?_⟩
      intro hupdate
      rw [hzero] at h
      exact h (share_shareUpdate_zero hupdate)
    · exact Or.inl hzero
  · rw [if_neg hkey] at h
    exact Or.inl h

/-! ## Stake -/

theorem withAccounts_keepsIndex {accounts : Accounts A}
    (howners : KeepsOwners chain.accounts accounts)
    (hlisted : ∀ coldkey, ∀ hotkey ∈ chain.accounts.stakingHotkeys coldkey,
      hotkey ∈ accounts.stakingHotkeys coldkey) :
    KeepsIndex chain (chain.withAccounts accounts) :=
  ⟨rfl, howners, hlisted, fun _ _ _ => Or.inl⟩

theorem mem_pushStakingHotkey {accounts : Accounts A} {hotkey' coldkey' : A} :
    hotkey' ∈ (pushStakingHotkey accounts coldkey hotkey).stakingHotkeys coldkey' ↔
      hotkey' ∈ accounts.stakingHotkeys coldkey' ∨ (coldkey' = coldkey ∧ hotkey' = hotkey) := by
  show hotkey' ∈ Function.update accounts.stakingHotkeys coldkey _ coldkey' ↔ _
  by_cases hcoldkey : coldkey' = coldkey
  · subst hcoldkey
    rw [Function.update_self, mem_pushNew]
    simp
  · rw [Function.update_of_ne hcoldkey]
    simp [hcoldkey]

theorem pushStakingHotkey_keepsIndex :
    KeepsIndex chain (chain.withAccounts (pushStakingHotkey chain.accounts coldkey hotkey)) :=
  withAccounts_keepsIndex ⟨rfl, rfl⟩ fun _ _ hmem => mem_pushStakingHotkey.mpr (Or.inl hmem)

theorem updateStakes_keepsIndex {stakes : Stakes A} {update : I64} {value : U64}
    (h : ∀ hotkey' coldkey' netuid', shareOf stakes hotkey' coldkey' netuid' ≠ 0 →
      shareOf chain.stakes hotkey' coldkey' netuid' ≠ 0 ∨
        hotkey' ∈ chain.accounts.stakingHotkeys coldkey') :
    KeepsIndex chain (chain.updateStakes hotkey netuid value stakes update) :=
  ⟨rfl, .refl chain.accounts, fun _ _ hmem => hmem, h⟩

theorem increaseStakeForHotkey_keepsIndex :
    KeepsIndex chain (chain.increaseStakeForHotkeyOnSubnet hotkey netuid amount) := by
  refine updateStakes_keepsIndex ?_
  intro hotkey' coldkey' netuid' hshare
  rw [shareOf_congr updateValueForAll_alpha] at hshare
  exact Or.inl hshare

theorem val_asI64_of_zero (h : amount.val = 0) : amount.asI64.val = 0 := by
  have hlt : amount.val < 2 ^ 63 := by omega
  rw [Word.val_asI64_of_lt hlt, h, Nat.cast_zero]

theorem increaseStake_keepsIndex :
    KeepsIndex chain
      (chain.increaseStakeForHotkeyAndColdkeyOnSubnet hotkey coldkey netuid amount).1 := by
  unfold increaseStakeForHotkeyAndColdkeyOnSubnet
  by_cases hpos : 0 < amount.val
  · simp only [if_pos hpos]
    refine pushStakingHotkey_keepsIndex.trans (updateStakes_keepsIndex ?_)
    intro hotkey' coldkey' netuid' hshare
    rcases shareOf_updateValueForOne_ne_zero hshare with hshare | ⟨rfl, rfl, -, -⟩
    · exact Or.inl hshare
    · exact Or.inr (mem_pushStakingHotkey.mpr (Or.inr ⟨rfl, rfl⟩))
  · simp only [if_neg hpos]
    refine updateStakes_keepsIndex ?_
    intro hotkey' coldkey' netuid' hshare
    rcases shareOf_updateValueForOne_ne_zero hshare with hshare | ⟨-, -, -, hupdate⟩
    · exact Or.inl hshare
    · exact absurd (val_asI64_of_zero (Nat.eq_zero_of_not_pos hpos)) hupdate

/-- A pair without shares has no value, and nothing is taken from it. -/
theorem decreaseStake_keepsIndex :
    KeepsIndex chain
      (chain.decreaseStakeForHotkeyAndColdkeyOnSubnet hotkey coldkey netuid amount).1 := by
  rcases decreaseStake_cases chain hotkey coldkey netuid amount with
    heq | ⟨value, hvalue, hle, updated, rfl, heq⟩
  · rw [heq]
    exact .refl chain
  · rw [heq]
    refine updateStakes_keepsIndex ?_
    intro hotkey' coldkey' netuid' hshare
    rcases shareOf_updateValueForOne_ne_zero hshare with hshare | ⟨rfl, rfl, rfl, hupdate⟩
    · exact Or.inl hshare
    · left
      intro hzero
      have hworthless : value.val = 0 := by
        obtain ⟨share, -, rfl⟩ := Option.map_eq_some_iff.mp hvalue
        show (valueFromShares _ _ (shareOf chain.stakes hotkey' coldkey' netuid')).val = 0
        rw [hzero]
        exact valueFromShares_zero _ _
      have hamount : amount.asI64.val = 0 := val_asI64_of_zero (by omega)
      apply hupdate
      rw [SWord.val_neg_of_ne (by rw [hamount]; norm_num), hamount, neg_zero]

/-! ## Staking and unstaking -/

omit [DecidableEq A] in
theorem swapTaoForAlpha_frame (rt : Runtime A B P) (chain : Chain A B P) (netuid : NetUid)
    (tao priceLimit : U64) :
    ∃ ledger swap reserves, (chain.swapTaoForAlpha rt netuid tao priceLimit).1 =
      { chain with ledger := ledger, swap := swap, reserves := reserves } := by
  rcases swapTaoForAlpha_cases rt chain netuid tao priceLimit with
    ⟨-, heq⟩ | ⟨-, swap, result, -, ⟨e, -, heq⟩ | ⟨r, -, heq⟩⟩
  · rw [heq]
    exact ⟨_, _, _, rfl⟩
  · rw [heq]
    exact ⟨_, _, _, rfl⟩
  · rw [heq]
    exact ⟨_, _, _, rfl⟩

omit [DecidableEq A] in
theorem swapAlphaForTao_frame (rt : Runtime A B P) (chain : Chain A B P) (netuid : NetUid)
    (alpha priceLimit : U64) :
    ∃ ledger swap reserves, (chain.swapAlphaForTao rt netuid alpha priceLimit).1 =
      { chain with ledger := ledger, swap := swap, reserves := reserves } := by
  rcases swapAlphaForTao_cases rt chain netuid alpha priceLimit with
    ⟨-, heq⟩ | ⟨-, swap, result, -, ⟨e, -, heq⟩ | ⟨r, -, heq⟩⟩
  · rw [heq]
    exact ⟨_, _, _, rfl⟩
  · rw [heq]
    exact ⟨_, _, _, rfl⟩
  · rw [heq]
    exact ⟨_, _, _, rfl⟩

variable {alpha tao priceLimit : U64}

theorem swapTaoForAlpha_keepsIndex :
    KeepsIndex chain (chain.swapTaoForAlpha rt netuid tao priceLimit).1 := by
  obtain ⟨ledger, swap, reserves, heq⟩ := swapTaoForAlpha_frame rt chain netuid tao priceLimit
  rw [heq]
  exact .of_eq rfl rfl rfl

theorem swapAlphaForTao_keepsIndex :
    KeepsIndex chain (chain.swapAlphaForTao rt netuid alpha priceLimit).1 := by
  obtain ⟨ledger, swap, reserves, heq⟩ := swapAlphaForTao_frame rt chain netuid alpha priceLimit
  rw [heq]
  exact .of_eq rfl rfl rfl

theorem refundStake_keepsIndex {refund : U64} :
    KeepsIndex chain (chain.refundStake hotkey coldkey netuid refund) := by
  unfold refundStake
  split
  · exact increaseStake_keepsIndex
  · exact .refl chain

theorem unstakeFromSubnet_keepsIndex :
    KeepsIndex chain (chain.unstakeFromSubnet rt hotkey coldkey netuid alpha priceLimit).1 := by
  obtain ⟨chain₁, taken, hdec, hcases⟩ :=
    unstakeFromSubnet_cases rt chain hotkey coldkey netuid alpha priceLimit
  have hdecreased : KeepsIndex chain chain₁ := by
    have hkeeps : KeepsIndex chain
        (chain.decreaseStakeForHotkeyAndColdkeyOnSubnet hotkey coldkey netuid alpha).1 :=
      decreaseStake_keepsIndex
    rwa [hdec] at hkeeps
  have hsold : KeepsIndex chain₁ (chain₁.swapAlphaForTao rt netuid taken priceLimit).1 :=
    swapAlphaForTao_keepsIndex
  rcases hcases with ⟨chain₂, e, hswap, heq⟩ | ⟨chain₂, result, hswap, heq⟩
  · rw [hswap] at hsold
    rw [heq]
    exact hdecreased.trans hsold
  · rw [hswap] at hsold
    rw [heq]
    exact (hdecreased.trans hsold).trans refundStake_keepsIndex

theorem unstakeFromSubnet_keepsIndex_of_eq {result : Except Error U64}
    (h : chain.unstakeFromSubnet rt hotkey coldkey netuid alpha priceLimit = (chain', result)) :
    KeepsIndex chain chain' := by
  have hkeeps : KeepsIndex chain
      (chain.unstakeFromSubnet rt hotkey coldkey netuid alpha priceLimit).1 :=
    unstakeFromSubnet_keepsIndex
  rwa [h] at hkeeps

theorem stakeIntoSubnet_keepsIndex {added : U64}
    (h : chain.stakeIntoSubnet rt hotkey coldkey netuid tao priceLimit = .ok (chain', added)) :
    KeepsIndex chain chain' := by
  have hbought : KeepsIndex chain (chain.swapTaoForAlpha rt netuid tao priceLimit).1 :=
    swapTaoForAlpha_keepsIndex
  unfold stakeIntoSubnet at h
  rcases hswap : chain.swapTaoForAlpha rt netuid tao priceLimit with ⟨chain₁, e | result⟩
  · simp only [hswap] at h
    cases h
  · rw [hswap] at hbought
    simp only [hswap] at h
    obtain ⟨-, h⟩ := ite_error_eq_ok.mp h
    obtain ⟨-, h⟩ := ite_error_eq_ok.mp h
    split at h
    · cases h
      exact hbought.trans increaseStake_keepsIndex
    · cases h
      exact (hbought.trans increaseStake_keepsIndex).trans pushStakingHotkey_keepsIndex

theorem addBalance_keepsIndex :
    KeepsIndex chain (chain.addBalanceToColdkeyAccount rt coldkey amount) :=
  .of_eq rfl rfl rfl

theorem clearSmallNomination_keepsIndex :
    KeepsIndex chain (chain.clearSmallNominationIfRequired rt hotkey coldkey netuid) := by
  rcases clearSmallNomination_cases rt chain hotkey coldkey netuid with
    heq | ⟨stake, chain₁, cleared, hunstake, heq⟩ | ⟨stake, rest, chain₁, e, hunstake, heq⟩
  · rw [heq]
    exact .refl chain
  · rw [heq]
    exact (unstakeFromSubnet_keepsIndex_of_eq hunstake).trans addBalance_keepsIndex
  · rw [heq]
    exact (unstakeFromSubnet_keepsIndex_of_eq hunstake).trans decreaseStake_keepsIndex

theorem delegateIfNotOwner_keepsIndex :
    KeepsIndex chain (chain.delegateIfNotOwner rt coldkey hotkey) := by
  unfold delegateIfNotOwner maybeBecomeDelegate
  split
  · split
    · exact .refl chain
    · exact withAccounts_keepsIndex ⟨rfl, rfl⟩ fun _ _ hmem => hmem
  · exact .refl chain

theorem dropPendingChildren_keepsIndex :
    KeepsIndex chain (chain.dropPendingChildren rt hotkey) := by
  unfold dropPendingChildren
  split
  · exact .of_eq rfl rfl rfl
  · exact .refl chain

/-! ## Staking calls -/

theorem withdrawAndStake_keepsIndex
    (h : chain.withdrawAndStake rt coldkey hotkey netuid amount priceLimit = .ok chain') :
    KeepsIndex chain chain' := by
  unfold withdrawAndStake at h
  split at h
  · cases h
  · rename_i chain₁ taoStaked hremove
    obtain ⟨currency, rfl⟩ := removeBalance_frame hremove
    split at h
    · cases h
    · rename_i chain₂ added hstake
      cases h
      have hpaid : KeepsIndex chain (chain.setCurrency currency) := .of_eq rfl rfl rfl
      exact hpaid.trans (stakeIntoSubnet_keepsIndex hstake)

theorem unstakeAndCredit_keepsIndex
    (h : chain.unstakeAndCredit rt coldkey hotkey netuid alpha priceLimit = .ok chain') :
    KeepsIndex chain chain' := by
  unfold unstakeAndCredit at h
  split at h
  · cases h
  · rename_i chain₁ taoUnstaked hunstake
    cases h
    exact ((unstakeFromSubnet_keepsIndex_of_eq hunstake).trans addBalance_keepsIndex).trans
      clearSmallNomination_keepsIndex

theorem doAddStake_keepsIndex
    (h : chain.doAddStake rt coldkey hotkey netuid amount = .ok chain') :
    KeepsIndex chain chain' := by
  unfold doAddStake at h
  obtain ⟨-, h⟩ := ite_error_eq_ok.mp h
  split at h
  · cases h
  · exact withdrawAndStake_keepsIndex h

theorem doAddStakeLimit_keepsIndex {allowPartial : Bool}
    (h : chain.doAddStakeLimit rt coldkey hotkey netuid amount priceLimit allowPartial =
      .ok chain') : KeepsIndex chain chain' := by
  unfold doAddStakeLimit at h
  split at h
  · cases h
  · simp only at h
    split at h
    · cases h
    · exact delegateIfNotOwner_keepsIndex.trans (withdrawAndStake_keepsIndex h)

theorem doRemoveStake_keepsIndex
    (h : chain.doRemoveStake rt coldkey hotkey netuid alpha = .ok chain') :
    KeepsIndex chain chain' := by
  unfold doRemoveStake at h
  obtain ⟨-, h⟩ := ite_error_eq_ok.mp h
  split at h
  · cases h
  · split at h
    · cases h
    · rename_i hunstake
      cases h
      exact (unstakeAndCredit_keepsIndex hunstake).trans dropPendingChildren_keepsIndex

theorem doRemoveStakeLimit_keepsIndex {allowPartial : Bool}
    (h : chain.doRemoveStakeLimit rt coldkey hotkey netuid alpha priceLimit allowPartial =
      .ok chain') : KeepsIndex chain chain' := by
  unfold doRemoveStakeLimit at h
  split at h
  · cases h
  · simp only at h
    split at h
    · cases h
    · split at h
      · cases h
      · rename_i hunstake
        cases h
        exact (unstakeAndCredit_keepsIndex hunstake).trans dropPendingChildren_keepsIndex

theorem unstakeAllLoop_keepsIndex {netuids : List NetUid}
    (h : chain.unstakeAllLoop rt coldkey hotkey netuids = .ok chain') :
    KeepsIndex chain chain' := by
  induction netuids generalizing chain with
  | nil =>
      cases h
      exact .refl _
  | cons netuid netuids ih =>
      rw [unstakeAllLoop] at h
      split at h
      · split at h
        · cases h
        · rename_i hunstake
          exact (unstakeAndCredit_keepsIndex hunstake).trans (ih h)
      · exact ih h

theorem unstakeAllAlphaLoop_keepsIndex {netuids : List NetUid} {total total' : U64}
    (h : chain.unstakeAllAlphaLoop rt coldkey hotkey total netuids = .ok (chain', total')) :
    KeepsIndex chain chain' := by
  induction netuids generalizing chain total with
  | nil =>
      cases h
      exact .refl _
  | cons netuid netuids ih =>
      rw [unstakeAllAlphaLoop] at h
      generalize (if netuid.isRoot = true then 0
        else chain.unstakeAllAmount rt coldkey hotkey netuid) = alphaUnstaked at h
      split at h
      · split at h
        · cases h
        · rename_i chain₁ taoUnstaked hunstake
          have hnoted : KeepsIndex chain₁ (chain₁.withLedger
              (·.note (2 ^ 64 ≤ total.val + taoUnstaked.val))) := .of_eq rfl rfl rfl
          exact (((unstakeFromSubnet_keepsIndex_of_eq hunstake).trans hnoted).trans
            clearSmallNomination_keepsIndex).trans (ih h)
      · exact ih h

theorem doUnstakeAllAlpha_keepsIndex
    (h : chain.doUnstakeAllAlpha rt coldkey hotkey = .ok chain') : KeepsIndex chain chain' := by
  unfold doUnstakeAllAlpha at h
  obtain ⟨-, h⟩ := ite_error_eq_ok.mp h
  split at h
  · cases h
  · rename_i hloop
    split at h
    · cases h
    · rename_i hstake
      cases h
      exact (unstakeAllAlphaLoop_keepsIndex hloop).trans (stakeIntoSubnet_keepsIndex hstake)

theorem dispatch_keepsIndex {call : StakingCall A} (h : chain.dispatch rt call = .ok chain') :
    KeepsIndex chain chain' := by
  cases call with
  | addStake coldkey hotkey netuid stakeToBeAdded => exact doAddStake_keepsIndex h
  | addStakeLimit coldkey hotkey netuid stakeToBeAdded limitPrice allowPartial =>
      exact doAddStakeLimit_keepsIndex h
  | removeStake coldkey hotkey netuid alphaUnstaked => exact doRemoveStake_keepsIndex h
  | removeStakeLimit coldkey hotkey netuid alphaUnstaked limitPrice allowPartial =>
      exact doRemoveStakeLimit_keepsIndex h
  | removeStakeFullLimit coldkey hotkey netuid limitPrice =>
      cases limitPrice with
      | none => exact doRemoveStake_keepsIndex h
      | some limitPrice => exact doRemoveStakeLimit_keepsIndex h
  | unstakeAll coldkey hotkey =>
      obtain ⟨-, h⟩ := ite_error_eq_ok.mp h
      exact unstakeAllLoop_keepsIndex h
  | unstakeAllAlpha coldkey hotkey => exact doUnstakeAllAlpha_keepsIndex h

/-! ## Transitions -/

theorem restake_keepsIndex (h : chain.restake rt coldkey hotkey netuid tao = .ok chain') :
    KeepsIndex chain chain' := by
  unfold restake at h
  split at h
  · split at h
    · cases h
    · rename_i hstake
      cases h
      exact delegateIfNotOwner_keepsIndex.trans (stakeIntoSubnet_keepsIndex hstake)
  · cases h
    exact .refl chain

theorem transitionStakeInternal_keepsIndex {originColdkey destinationColdkey originHotkey
    destinationHotkey : A} {originNetuid destinationNetuid : NetUid} {limitPrice : Option U64}
    {allowPartial : Option Bool} {checkTransferToggle : Bool}
    (h : chain.transitionStakeInternal rt originColdkey destinationColdkey originHotkey
      destinationHotkey originNetuid destinationNetuid alpha limitPrice allowPartial
        checkTransferToggle = .ok (chain', tao)) : KeepsIndex chain chain' := by
  unfold transitionStakeInternal at h
  split at h
  · cases h
  · split at h
    · cases h
    · simp only at h
      split at h
      · cases h
      · rename_i hunstake
        split at h
        · cases h
        · rename_i hrestake
          cases h
          exact (unstakeFromSubnet_keepsIndex_of_eq hunstake).trans (restake_keepsIndex hrestake)

/-! ## Blocks -/

theorem payOwnerCut_keepsIndex {cut : U64} :
    KeepsIndex chain (payOwnerCut netuid chain cut) := by
  unfold payOwnerCut
  split
  · exact increaseStake_keepsIndex
  · exact .refl chain

theorem payIncentive_keepsIndex {incentive : U64} :
    KeepsIndex chain (payIncentive rt netuid chain hotkey incentive) := by
  unfold payIncentive
  split
  · exact .refl chain
  · exact increaseStake_keepsIndex

theorem payAlphaDividend_keepsIndex {alphaDivs : U96F32} :
    KeepsIndex chain (payAlphaDividend rt netuid chain hotkey alphaDivs) :=
  increaseStake_keepsIndex.trans increaseStakeForHotkey_keepsIndex

theorem payRootDividend_keepsIndex {rootTao : U96F32} :
    KeepsIndex chain (payRootDividend rt chain hotkey rootTao) := by
  have hrecorded : ∀ (c : Chain A B P) validatorStake nominatorStake,
      KeepsIndex c (c.addRootTao validatorStake nominatorStake) :=
    fun _ _ _ => .of_eq rfl rfl rfl
  exact (increaseStake_keepsIndex.trans increaseStakeForHotkey_keepsIndex).trans (hrecorded _ _ _)

theorem payAll_keepsIndex {V : Type} {pay : Chain A B P → A → V → Chain A B P}
    {m : StorageMap A V} (h : ∀ chain hotkey v, KeepsIndex chain (pay chain hotkey v)) :
    KeepsIndex chain (payAll pay chain m) :=
  KeepsIndex.foldl (fun c (e : Sigma fun _ : A => V) => h c e.1 e.2) m.entries chain

theorem drainIfDue_keepsIndex {epoch : Epoch A B P} :
    KeepsIndex chain (drainIfDue rt epoch chain netuid) := by
  unfold drainIfDue
  split
  · have hepoch : ∀ pending neurons, KeepsIndex chain
        { chain with pending := pending, neurons := neurons } :=
      fun _ _ => .of_eq rfl rfl rfl
    refine (hepoch _ _).trans (((payOwnerCut_keepsIndex.trans (payAll_keepsIndex ?_)).trans
      (payAll_keepsIndex ?_)).trans (payAll_keepsIndex ?_))
    · intro c h v
      exact payIncentive_keepsIndex
    · intro c h v
      exact payAlphaDividend_keepsIndex
    · intro c h v
      exact payRootDividend_keepsIndex
  · exact .refl chain

theorem recordBlockEmission_keepsIndex {issuance : U64} :
    KeepsIndex chain (chain.recordBlockEmission rt issuance) := by
  unfold recordBlockEmission
  split
  · exact .refl chain
  · split
    · exact .refl chain
    · exact .of_eq rfl rfl rfl

theorem sellRootAlpha_keepsIndex {terms : NetUid → EmissionTerms} :
    KeepsIndex chain (sellRootAlpha rt terms chain netuid) := by
  obtain ⟨alphaOut, alpha, chain₁, -, hcases⟩ := sellRootAlpha_cases rt terms chain netuid
  have hsold : KeepsIndex chain (chain.swapAlphaForTao rt netuid alpha rt.swap.minPrice).1 :=
    swapAlphaForTao_keepsIndex
  rcases hcases with ⟨e, hswap, heq⟩ | ⟨result, pendingAlpha, hswap, heq⟩
  · rw [hswap] at hsold
    rw [heq]
    exact hsold
  · rw [hswap] at hsold
    rw [heq]
    exact hsold.trans (.of_eq rfl rfl rfl)

theorem runCoinbase_keepsIndex {epoch : Epoch A B P} {blockEmission : U96F32} :
    KeepsIndex chain (chain.runCoinbase rt epoch blockEmission) := by
  refine runCoinbase_induction (motive := KeepsIndex chain) blockEmission (.refl chain)
    ?_ ?_ ?_ ?_ ?_ ?_
  · intro c issuance h
    exact h.trans recordBlockEmission_keepsIndex
  · intro c terms n _ h
    exact h.trans (.of_eq rfl rfl rfl)
  · intro c terms n h
    exact h.trans (.of_eq rfl rfl rfl)
  · intro c terms n _ h
    exact h.trans sellRootAlpha_keepsIndex
  · intro c n h
    exact h.trans (.of_eq rfl rfl rfl)
  · intro c n _ h
    exact h.trans drainIfDue_keepsIndex

theorem adjustRegistrationTerms_keepsIndex :
    KeepsIndex chain (chain.adjustRegistrationTerms netuid) := by
  unfold adjustRegistrationTerms
  extract_lets subnet
  split
  · exact .of_eq rfl rfl rfl
  · exact .of_eq rfl rfl rfl

theorem trySetPendingChildren_keepsIndex : KeepsIndex chain chain.trySetPendingChildren := by
  refine KeepsIndex.foldl ?_ _ chain
  intro c n
  split
  · exact .of_eq rfl rfl rfl
  · exact .refl c

theorem blockStep_keepsIndex {epoch : Epoch A B P} :
    KeepsIndex chain (chain.blockStep rt epoch) := by
  have hadjusted : KeepsIndex chain
      (chain.getAllSubnetNetuids.foldl adjustRegistrationTerms chain) :=
    KeepsIndex.foldl (fun _ _ => adjustRegistrationTerms_keepsIndex) _ chain
  exact ((hadjusted.trans recordBlockEmission_keepsIndex).trans runCoinbase_keepsIndex).trans
    trySetPendingChildren_keepsIndex

end Subtensor.Chain
