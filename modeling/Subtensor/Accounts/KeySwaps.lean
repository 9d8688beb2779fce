import Subtensor.Children.HotkeySwap
import Subtensor.Pallet.SwapColdkey

/-!
# What a swap of keys leaves behind

A hotkey or coldkey swap that succeeds passed its checks and moved what belongs
to the old key; apart from that it changed balances, the blocks of the last
transactions and the senate.
-/

namespace Subtensor.Chain

open Lib

variable {A B P : Type} [DecidableEq A] {rt : Runtime A B P} {chain chain' : Chain A B P}

/-! ## Hotkeys -/

/-- What a hotkey swap moves: the owner first, then the subnets one by one,
and on all subnets the delegation and the index of the stakers. -/
def swapHotkeyStorage (rt : Runtime A B P) (chain : Chain A B P)
    (coldkey oldHotkey newHotkey : A) (netuid : Option NetUid) : Chain A B P :=
  let owned :=
    { chain with
      accounts := swapOwner chain.accounts coldkey oldHotkey newHotkey netuid.isNone }
  let swapped := owned.performHotkeySwapOnSubnets oldHotkey newHotkey
    (chain.swappedSubnets netuid)
  if netuid.isNone then
    { swapped with
      accounts := (alphaOfHotkey chain.stakes oldHotkey).foldl
        (swapStakingHotkey oldHotkey newHotkey)
        (swapDelegate rt swapped.accounts oldHotkey newHotkey) }
  else swapped

omit [DecidableEq A] in
theorem swappedSubnets_nodup (chain : Chain A B P) (onSubnet : Option NetUid) :
    (chain.swappedSubnets onSubnet).Nodup := by
  cases onSubnet with
  | none => exact chain.networksAdded.keys_nodup
  | some netuid => exact List.nodup_singleton netuid

/-- The swap of the subnets reads neither the ledger nor the last blocks. -/
theorem performHotkeySwapOnSubnets_frame (ledger : Ledger B) (lastBlocks : LastBlocks A)
    (oldHotkey newHotkey : A) (netuids : List NetUid) (chain : Chain A B P) :
    ({ chain with ledger := ledger, lastBlocks := lastBlocks } :
        Chain A B P).performHotkeySwapOnSubnets oldHotkey newHotkey netuids =
      { chain.performHotkeySwapOnSubnets oldHotkey newHotkey netuids with
        ledger := ledger, lastBlocks := lastBlocks } := by
  induction netuids generalizing chain with
  | nil => rfl
  | cons netuid netuids ih =>
      exact ih (chain.performHotkeySwapOnOneSubnet oldHotkey newHotkey netuid)

/-- **A hotkey swap that succeeds.** -/
theorem doSwapHotkey_ok {coldkey oldHotkey newHotkey : A} {netuid : Option NetUid}
    (h : chain.doSwapHotkey rt coldkey oldHotkey newHotkey netuid = .ok chain') :
    chain.accounts.owner oldHotkey = some coldkey ∧ oldHotkey ≠ newHotkey ∧
      chain.isHotkeyRegisteredOnAnyNetwork newHotkey = false ∧
      ∃ ledger lastBlocks senateMembers,
        chain' = { chain.swapHotkeyStorage rt coldkey oldHotkey newHotkey netuid with
          ledger := ledger, lastBlocks := lastBlocks, senateMembers := senateMembers } := by
  unfold doSwapHotkey at h
  obtain ⟨howns, h⟩ := ite_error_eq_ok.mp h
  obtain ⟨hne, h⟩ := ite_error_eq_ok.mp h
  obtain ⟨-, h⟩ := ite_error_eq_ok.mp h
  obtain ⟨hfree, h⟩ := ite_error_eq_ok.mp h
  refine ⟨of_decide_eq_true (not_not.mp howns), hne, Bool.eq_false_iff.mpr hfree, ?_⟩
  extract_lets chain₁ at h
  cases netuid with
  | some netuid =>
      simp only [swapHotkeyOnSubnet] at h
      obtain ⟨-, h⟩ := ite_error_eq_ok.mp h
      obtain ⟨-, h⟩ := ite_error_eq_ok.mp h
      split at h
      · cases h
      · rename_i chain₂ hpay
        obtain ⟨ledger, rfl⟩ := paySwapCost_frame hpay
        exact ⟨_, _, _, (Except.ok.inj h).symm⟩
  | none =>
      simp only at h
      split at h
      · cases h
      · rename_i chain₂ hpay
        obtain ⟨ledger, rfl⟩ := paySwapCost_frame hpay
        split at h
        · cases h
        · rename_i chain₃ hperform
          have heq := Except.ok.inj h
          subst heq
          unfold performHotkeySwapOnAllSubnets at hperform
          simp only at hperform
          split at hperform
          · cases hperform
          · have heq := Except.ok.inj hperform
            subst heq
            have hframe := performHotkeySwapOnSubnets_frame ledger
              (copyLastBlocks chain.lastBlocks oldHotkey newHotkey) oldHotkey newHotkey
              chain.getAllSubnetNetuids
              { chain with accounts := swapOwner chain.accounts coldkey oldHotkey newHotkey true }
            refine ⟨ledger, ?_, ?_, ?_⟩
            rotate_left 2
            · unfold swapHotkeyStorage setLastTxBlock
              dsimp only [chain₁, Option.isNone_none, swappedSubnets, getAllSubnetNetuids] at hframe ⊢
              rw [hframe]
              rfl

theorem performHotkeySwapOnSubnets_networksAdded {oldHotkey newHotkey : A}
    (netuids : List NetUid) :
    (chain.performHotkeySwapOnSubnets oldHotkey newHotkey netuids).networksAdded =
      chain.networksAdded := by
  induction netuids generalizing chain with
  | nil => rfl
  | cons netuid netuids ih => exact ih

theorem doSwapHotkey_networksAdded {coldkey oldHotkey newHotkey : A} {onSubnet : Option NetUid}
    (h : chain.doSwapHotkey rt coldkey oldHotkey newHotkey onSubnet = .ok chain') :
    chain'.networksAdded = chain.networksAdded := by
  obtain ⟨-, -, -, ledger, lastBlocks, senateMembers, rfl⟩ := doSwapHotkey_ok h
  cases onSubnet with
  | none => exact performHotkeySwapOnSubnets_networksAdded _
  | some netuid => exact performHotkeySwapOnSubnets_networksAdded _

/-! ## Coldkeys -/

omit [DecidableEq A] in
theorem transferRemainingBalance_frame (rt : Runtime A B P) (chain : Chain A B P)
    (oldColdkey newColdkey : A) :
    ∃ ledger, chain.transferRemainingBalance rt oldColdkey newColdkey =
      { chain with ledger := ledger } := by
  unfold transferRemainingBalance
  extract_lets remainingBalance
  split
  · split
    · exact ⟨chain.ledger, rfl⟩
    · rename_i hkill
      obtain ⟨currency, rfl⟩ := killColdkey_frame hkill
      exact ⟨_, rfl⟩
  · exact ⟨chain.ledger, rfl⟩

/-- **A coldkey swap that succeeds.** -/
theorem doSwapColdkey_ok {oldColdkey newColdkey : A} {swapCost : U64}
    (h : chain.doSwapColdkey rt oldColdkey newColdkey swapCost = .ok chain') :
    chain.accounts.stakingHotkeys newColdkey = [] ∧
      chain.accounts.owner newColdkey = none ∧
      ∃ ledger lastBlocks, chain' = { chain.swapColdkeyStorage rt oldColdkey newColdkey with
        ledger := ledger, lastBlocks := lastBlocks } := by
  unfold doSwapColdkey at h
  obtain ⟨hempty, h⟩ := ite_error_eq_ok.mp h
  obtain ⟨hhotkey, h⟩ := ite_error_eq_ok.mp h
  refine ⟨List.isEmpty_iff.mp (not_not.mp hempty), ?_, ?_⟩
  · unfold hotkeyAccountExists at hhotkey
    rwa [Option.isSome_iff_ne_none, not_not] at hhotkey
  · split at h
    · cases h
    · rename_i chain₁ hpay
      obtain ⟨ledger, rfl⟩ := paySwapCost_frame hpay
      obtain ⟨ledger', hswap⟩ := transferRemainingBalance_frame rt
        (({ chain with ledger := ledger } : Chain A B P).swapColdkeyStorage rt oldColdkey
          newColdkey) oldColdkey newColdkey
      have heq := Except.ok.inj h
      unfold performSwapColdkey at heq
      rw [hswap] at heq
      exact ⟨ledger', _, heq.symm⟩

end Subtensor.Chain
