import Subtensor.SharePool.ExactRun
import Subtensor.Staking.Stake

/-!
# The stake on a hotkey

What the coldkeys have staked to a hotkey on a subnet is a share pool in the
storage of the chain. It stays solvent when stake is added and removed.
-/

namespace Subtensor

open Lib SharePool

variable {A B P : Type} [DecidableEq A]

/-! ## Storage -/

/-- A share of zero is read back although it is not stored. -/
theorem hotkeyAlphaSharePool_lawful (hotkey : A) (netuid : NetUid) :
    (hotkeyAlphaSharePool hotkey netuid).Lawful where
  share_setShare s key share := by
    funext coldkey
    show ((if share.bits ≠ 0 then _ else _ : StorageMap (A × A × NetUid) U64F64).lookup
      (hotkey, coldkey, netuid)).getD 0 = _
    rcases eq_or_ne coldkey key with rfl | hne
    · rw [Function.update_self]
      split_ifs with hshare
      · rw [AList.lookup_insert, Option.getD_some]
      · rw [AList.lookup_erase, Option.getD_none]
        exact (UFixed.ext (not_not.mp hshare)).symm
    · have hkey : (hotkey, coldkey, netuid) ≠ (hotkey, key, netuid) := by
        intro h
        exact hne (congrArg (fun k => k.2.1) h)
      rw [Function.update_of_ne hne]
      split_ifs
      · rw [AList.lookup_insert_ne hkey]
        rfl
      · rw [AList.lookup_erase_ne hkey]
        rfl
  share_setDenominator _ _ := rfl
  share_setSharedValue _ _ := rfl
  denominator_setShare _ _ _ := rfl
  denominator_setDenominator s value := by
    show Function.update s.totalHotkeyShares (hotkey, netuid) value (hotkey, netuid) = value
    rw [Function.update_self]
  denominator_setSharedValue _ _ := rfl

/-- The shared value is stored in whole units. -/
theorem hotkeyAlphaSharePool_faithful (hotkey : A) (netuid : NetUid) :
    (hotkeyAlphaSharePool hotkey netuid).Faithful where
  toLawful := hotkeyAlphaSharePool_lawful hotkey netuid
  sharedValue_setSharedValue s value := by
    have hread : ∀ stored : U64F64, (hotkeyAlphaSharePool hotkey netuid).getSharedValue
        ((hotkeyAlphaSharePool hotkey netuid).setSharedValue s stored) =
          .ofNat (((if stored.bits ≠ 0 then
            s.totalHotkeyAlpha.insert (hotkey, netuid) (stored.toWord 64)
          else s.totalHotkeyAlpha.erase (hotkey, netuid)).lookup (hotkey, netuid)).getD 0).val :=
      fun _ => rfl
    have hword : ((UFixed.ofNat value.val : U64F64).toWord 64) = value := by
      apply Word.ext
      unfold UFixed.toWord
      rw [bits_ofNat_word, Nat.mul_div_cancel _ (Nat.two_pow_pos 64),
        Word.val_sat_of_lt value.isLt]
    rw [hread, hword]
    split_ifs with hzero
    · rw [AList.lookup_insert, Option.getD_some]
    · rw [AList.lookup_erase, Option.getD_none]
      rw [bits_ofNat_word] at hzero
      have hnone : value.val = 0 := by omega
      rw [hnone]
      rfl
  sharedValue_setShare _ _ _ := rfl
  sharedValue_setDenominator _ _ := rfl

/-! ## Stake operations -/

namespace Chain

variable {chain : Chain A B P} {hotkey : A} {netuid : NetUid}

/-- The pool of the hotkey is solvent. -/
def StakeSolvent (chain : Chain A B P) (hotkey : A) (netuid : NetUid) : Prop :=
  Solvent (hotkeyAlphaSharePool hotkey netuid) chain.stakes

/-- An update of the pool fits into its fields. -/
def StakeFits (chain : Chain A B P) (hotkey : A) (netuid : NetUid) (update : Update A) : Prop :=
  ¬Saturates (hotkeyAlphaSharePool hotkey netuid) chain.stakes update

theorem StakeSolvent.apply (h : chain.StakeSolvent hotkey netuid) {update : Update A}
    (hfits : chain.StakeFits hotkey netuid update) :
    Solvent (hotkeyAlphaSharePool hotkey netuid)
      (SharePool.apply (hotkeyAlphaSharePool hotkey netuid) chain.stakes update) :=
  (h.shared.apply (hotkeyAlphaSharePool_lawful hotkey netuid) update hfits).solvent

theorem StakeSolvent.increaseHotkey (h : chain.StakeSolvent hotkey netuid) (amount : U64) :
    (chain.increaseStakeForHotkeyOnSubnet hotkey netuid amount).StakeSolvent hotkey netuid :=
  StakeSolvent.apply h (show chain.StakeFits hotkey netuid (.all amount.asI64) from id)

theorem StakeSolvent.increase (h : chain.StakeSolvent hotkey netuid) {coldkey : A} {amount : U64}
    (hfits : chain.StakeFits hotkey netuid (.one coldkey amount.asI64)) :
    (chain.increaseStakeForHotkeyAndColdkeyOnSubnet hotkey coldkey netuid amount).1.StakeSolvent
      hotkey netuid := by
  unfold increaseStakeForHotkeyAndColdkeyOnSubnet
  split_ifs
  · exact h.apply hfits
  · exact h.apply hfits

/-- Stake that is taken out, in part or with what too little would remain of. -/
theorem StakeSolvent.decrease (h : chain.StakeSolvent hotkey netuid) {coldkey : A} {amount : U64}
    (hfits : chain.StakeFits hotkey netuid (.one coldkey amount.asI64.neg)) :
    (chain.decreaseStakeForHotkeyAndColdkeyOnSubnet hotkey coldkey netuid amount).1.StakeSolvent
      hotkey netuid := by
  unfold decreaseStakeForHotkeyAndColdkeyOnSubnet
  cases tryGetValue (hotkeyAlphaSharePool hotkey netuid) chain.stakes coldkey with
  | none => exact h
  | some value =>
      simp only
      split_ifs
      · exact h.apply hfits
      · exact h.apply hfits
      · exact h

/-! ## Exactness -/

theorem StakeSolvent.accounted (h : chain.StakeSolvent hotkey netuid) :
    Accounted (hotkeyAlphaSharePool hotkey netuid) chain.stakes :=
  ⟨h.shared, _, rfl⟩

/-- No more alpha is taken out than the coldkey has staked. -/
theorem StakeSolvent.decrease_le (h : chain.StakeSolvent hotkey netuid) {coldkey : A}
    {amount : U64} (hfits : NothingSaturates (hotkeyAlphaSharePool hotkey netuid) chain.stakes
      (.one coldkey amount.asI64.neg)) :
    (chain.decreaseStakeForHotkeyAndColdkeyOnSubnet hotkey coldkey netuid amount).2.val ≤
      (chain.getStakeForHotkeyAndColdkeyOnSubnet hotkey coldkey netuid).val := by
  have hexact := h.accounted.oneExact (hotkeyAlphaSharePool_faithful hotkey netuid) hfits
  unfold decreaseStakeForHotkeyAndColdkeyOnSubnet getStakeForHotkeyAndColdkeyOnSubnet
  cases hget : tryGetValue (hotkeyAlphaSharePool hotkey netuid) chain.stakes coldkey with
  | none => exact Nat.zero_le _
  | some value =>
      have hvalue : getValue (hotkeyAlphaSharePool hotkey netuid) chain.stakes coldkey = value := by
        rcases Option.map_eq_some_iff.mp hget with ⟨-, -, heq⟩
        exact heq
      simp only
      split_ifs with hle hsign
      · show (SWord.neg _).val.natAbs ≤ value.val
        rcases lt_or_ge amount.asI64.neg.val 0 with hupdate | hupdate
        · have hleast := (hexact.removed hupdate).1
          have hfit := hfits.valueFits hupdate
          have hbefore : (getValue (hotkeyAlphaSharePool hotkey netuid) chain.stakes
            coldkey).val < 2 ^ 63 := hfit
          rw [hvalue] at hleast hbefore
          rw [SWord.val_neg_of_ne (by omega)] at hsign ⊢
          omega
        · rw [hexact.added hupdate] at hsign ⊢
          rw [SWord.val_neg_of_ne (by omega)] at hsign ⊢
          omega
      · exact Nat.zero_le _
      · exact Nat.zero_le _

end Chain

end Subtensor
