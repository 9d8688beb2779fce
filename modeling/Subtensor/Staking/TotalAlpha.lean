import Subtensor.SharePool.Update
import Subtensor.Staking.Frame

/-!
# The alpha of a subnet

The sum of `TotalHotkeyAlpha` over the hotkeys of a subnet, and by how much
the parts of the staking calls move it. `AddsAlpha` adds up along a
computation in which nothing overflowed; that an increase adds no more than
its amount holds in any case.
-/

namespace Subtensor

open Lib SharePool

variable {A B P : Type} [DecidableEq A]

/-! ## Stakes -/

/-- The alpha of all hotkeys on a subnet. -/
def Stakes.totalAlpha (s : Stakes A) (netuid : NetUid) : ℕ :=
  s.totalHotkeyAlpha.sumBy fun key alpha => if key.2 = netuid then alpha.val else 0

namespace Stakes

variable {netuid : NetUid} {s s' : Stakes A} {hotkey coldkey : A}

theorem SameOutside.totalAlpha_eq (h : SameOutside netuid s s') {n : NetUid} (hn : n ≠ netuid) :
    s'.totalAlpha n = s.totalAlpha n := by
  apply StorageMap.sumBy_congr_lookup
  rintro ⟨hotkey, m⟩
  by_cases hm : m = n
  · subst hm
    rw [h.totalHotkeyAlpha hotkey m hn]
  · simp only [hm, if_false]
    cases s'.totalHotkeyAlpha.lookup (hotkey, m) <;>
      cases s.totalHotkeyAlpha.lookup (hotkey, m) <;> rfl

theorem totalAlpha_setSharedValue (value : U64F64) :
    ((hotkeyAlphaSharePool hotkey netuid).setSharedValue s value).totalAlpha netuid +
        ((s.totalHotkeyAlpha.lookup (hotkey, netuid)).getD 0).val =
      (value.toWord 64).val + s.totalAlpha netuid := by
  have hinsert := StorageMap.sumBy_insert_add (d := 0)
    (fun (key : A × NetUid) alpha => if key.2 = netuid then alpha.val else 0) s.totalHotkeyAlpha
    (hotkey, netuid) (value.toWord 64) (ite_self 0)
  have herase := StorageMap.sumBy_erase_add (d := 0)
    (fun (key : A × NetUid) (alpha : U64) => if key.2 = netuid then alpha.val else 0)
    s.totalHotkeyAlpha (hotkey, netuid) (ite_self 0)
  simp only [if_true] at hinsert herase
  by_cases hbits : value.bits ≠ 0
  · have heq : (hotkeyAlphaSharePool hotkey netuid).setSharedValue s value =
        { s with totalHotkeyAlpha :=
          s.totalHotkeyAlpha.insert (hotkey, netuid) (value.toWord 64) } := by
      simp only [hotkeyAlphaSharePool, if_pos hbits]
    rw [heq]
    exact hinsert
  · have heq : (hotkeyAlphaSharePool hotkey netuid).setSharedValue s value =
        { s with totalHotkeyAlpha := s.totalHotkeyAlpha.erase (hotkey, netuid) } := by
      simp only [hotkeyAlphaSharePool, if_neg hbits]
    have hzero : (value.toWord 64).val = 0 := by
      rw [UFixed.toWord, not_not.mp hbits, Nat.zero_div]
      rfl
    rw [heq, hzero, Nat.zero_add]
    exact herase

theorem lookup_setSharedValue (value : U64F64) :
    ((((hotkeyAlphaSharePool hotkey netuid).setSharedValue s value).totalHotkeyAlpha.lookup
      (hotkey, netuid)).getD 0) = value.toWord 64 := by
  by_cases hbits : value.bits ≠ 0
  · simp only [hotkeyAlphaSharePool, if_pos hbits, AList.lookup_insert, Option.getD_some]
  · simp only [hotkeyAlphaSharePool, if_neg hbits, AList.lookup_erase, Option.getD_none]
    rw [UFixed.toWord, not_not.mp hbits, Nat.zero_div]
    rfl

theorem totalAlpha_updateValueForAll (update : I64) :
    (updateValueForAll (hotkeyAlphaSharePool hotkey netuid) s update).totalAlpha netuid +
        ((s.totalHotkeyAlpha.lookup (hotkey, netuid)).getD 0).val =
      ((addUpdate (.ofNat ((s.totalHotkeyAlpha.lookup (hotkey, netuid)).getD 0).val)
        update).toWord 64).val + s.totalAlpha netuid :=
  totalAlpha_setSharedValue _

theorem totalAlpha_updateValueForOne (update : I64) :
    (updateValueForOne (hotkeyAlphaSharePool hotkey netuid) s coldkey update).1.totalAlpha netuid +
        ((s.totalHotkeyAlpha.lookup (hotkey, netuid)).getD 0).val =
      ((addUpdate (.ofNat ((s.totalHotkeyAlpha.lookup (hotkey, netuid)).getD 0).val)
        (updateValueForOne (hotkeyAlphaSharePool hotkey netuid) s coldkey update).2).toWord
          64).val + s.totalAlpha netuid :=
  totalAlpha_setSharedValue _

end Stakes

namespace Chain

/-- The alpha of all hotkeys on a subnet. -/
def totalAlpha (chain : Chain A B P) (netuid : NetUid) : ℕ := chain.stakes.totalAlpha netuid

/-- The alpha of the subnet moves by `δ`, unless something overflowed on the
way. -/
def AddsAlpha (netuid : NetUid) (chain chain' : Chain A B P) (δ : ℤ) : Prop :=
  chain'.ledger.overflowed = false →
    chain.ledger.overflowed = false ∧ (chain'.totalAlpha netuid : ℤ) = chain.totalAlpha netuid + δ

variable {rt : Runtime A B P} {netuid : NetUid} {chain chain₁ chain₂ chain' : Chain A B P}
  {hotkey coldkey : A} {amount : U64} {δ δ' : ℤ}

omit [DecidableEq A] in
theorem AddsAlpha.trans (h₁ : AddsAlpha netuid chain chain₁ δ)
    (h₂ : AddsAlpha netuid chain₁ chain₂ δ') : AddsAlpha netuid chain chain₂ (δ + δ') := by
  intro hok
  obtain ⟨hok₁, heq₂⟩ := h₂ hok
  obtain ⟨hok₀, heq₁⟩ := h₁ hok₁
  exact ⟨hok₀, by rw [heq₂, heq₁, add_assoc]⟩

omit [DecidableEq A] in
/-- An operation that leaves the alpha of the subnet alone. -/
theorem addsAlpha_of_eq (h : chain'.totalAlpha netuid = chain.totalAlpha netuid)
    (hoverflow : chain'.ledger.overflowed = false → chain.ledger.overflowed = false) :
    AddsAlpha netuid chain chain' 0 :=
  fun hok => ⟨hoverflow hok, by rw [h, add_zero]⟩

theorem Touches.totalAlpha (h : Touches netuid chain chain') {n : NetUid} (hn : n ≠ netuid) :
    chain'.totalAlpha n = chain.totalAlpha n :=
  h.stakes.totalAlpha_eq hn

/-! ## Increasing stake -/

theorem updateStakes_addsAlpha {stakes : Stakes A} {update : I64}
    (hstakes : stakes.totalAlpha netuid + (chain.getStakeForHotkeyOnSubnet hotkey netuid).val =
      ((addUpdate (.ofNat (chain.getStakeForHotkeyOnSubnet hotkey netuid).val) update).toWord
        64).val + chain.totalAlpha netuid)
    (hleast : amount.val < 2 ^ 63 → update.val ≠ -2 ^ 63) :
    AddsAlpha netuid chain (chain.updateStakes hotkey netuid amount stakes update) update.val := by
  intro hok
  obtain ⟨hok', hnote⟩ := Bool.or_eq_false_iff.mp hok
  obtain ⟨hsmall, htotal⟩ := Bool.or_eq_false_iff.mp hnote
  obtain ⟨hamount, hnonneg⟩ := Bool.or_eq_false_iff.mp hsmall
  have hvalue := val_addUpdate_of_mem (hleast (not_le.mp (of_decide_eq_false hamount)))
    (not_lt.mp (of_decide_eq_false hnonneg)) (not_le.mp (of_decide_eq_false htotal))
  refine ⟨hok', ?_⟩
  show (stakes.totalAlpha netuid : ℤ) = _
  omega

/-- An amount that overflowed nothing survives the cast to `i64`. -/
theorem updateStakes_small {stakes : Stakes A} {update : I64}
    (hok : (chain.updateStakes hotkey netuid amount stakes update).ledger.overflowed = false) :
    amount.val < 2 ^ 63 := by
  obtain ⟨-, hnote⟩ := Bool.or_eq_false_iff.mp hok
  obtain ⟨hsmall, -⟩ := Bool.or_eq_false_iff.mp hnote
  exact not_le.mp (of_decide_eq_false (Bool.or_eq_false_iff.mp hsmall).1)

theorem increaseStakeForHotkey_addsAlpha :
    AddsAlpha netuid chain (chain.increaseStakeForHotkeyOnSubnet hotkey netuid amount)
      amount.val := by
  intro hok
  have hupdate := Word.val_asI64_of_lt (updateStakes_small hok)
  have hadds : AddsAlpha netuid chain (chain.increaseStakeForHotkeyOnSubnet hotkey netuid amount)
      amount.asI64.val :=
    updateStakes_addsAlpha (Stakes.totalAlpha_updateValueForAll _) (fun _ => by omega)
  rw [hupdate] at hadds
  exact hadds hok

/-- An increase is an update of the share pool, on a chain with other lists of
staking hotkeys. -/
theorem increaseStake_eq (chain : Chain A B P) (hotkey coldkey : A) (netuid : NetUid)
    (amount : U64) :
    ∃ accounts updated,
      updated = updateValueForOne (hotkeyAlphaSharePool hotkey netuid) chain.stakes coldkey
          amount.asI64 ∧
        chain.increaseStakeForHotkeyAndColdkeyOnSubnet hotkey coldkey netuid amount =
          ((chain.withAccounts accounts).updateStakes hotkey netuid amount updated.1 updated.2,
            if 0 ≤ updated.2.val then updated.2.unsignedAbs else 0) := by
  unfold increaseStakeForHotkeyAndColdkeyOnSubnet
  by_cases h : 0 < amount.val
  · simp only [if_pos h]
    exact ⟨_, _, rfl, rfl⟩
  · simp only [if_neg h]
    exact ⟨chain.accounts, _, rfl, rfl⟩

theorem updateValueForOne_of_small (s : Stakes A) (h : amount.val < 2 ^ 63) :
    (updateValueForOne (hotkeyAlphaSharePool hotkey netuid) s coldkey amount.asI64).2 =
      amount.asI64 := by
  apply actualUpdate_of_nonneg
  rw [Word.val_asI64_of_lt h]
  exact Int.natCast_nonneg _

theorem increaseStake_ok {added : U64}
    (h : chain.increaseStakeForHotkeyAndColdkeyOnSubnet hotkey coldkey netuid amount =
      (chain', added)) :
    chain'.reserves = chain.reserves ∧ AddsAlpha netuid chain chain' amount.val ∧
      (chain'.ledger.overflowed = false → added = amount) := by
  obtain ⟨accounts, updated, hupdated, heq⟩ :=
    increaseStake_eq chain hotkey coldkey netuid amount
  rw [heq] at h
  cases h
  have hupdate : amount.val < 2 ^ 63 → updated.2.val = amount.val := by
    intro hsmall
    rw [hupdated, updateValueForOne_of_small chain.stakes hsmall, Word.val_asI64_of_lt hsmall]
  refine ⟨rfl, ?_, ?_⟩
  · intro hok
    have hval := hupdate (updateStakes_small hok)
    have hadds : AddsAlpha netuid (chain.withAccounts accounts)
        ((chain.withAccounts accounts).updateStakes hotkey netuid amount updated.1 updated.2)
        updated.2.val := by
      apply updateStakes_addsAlpha
      · rw [hupdated]
        exact Stakes.totalAlpha_updateValueForOne _
      · intro _
        omega
    rw [hval] at hadds
    exact hadds hok
  · intro hok
    have hval := hupdate (updateStakes_small hok)
    rw [if_pos (by omega)]
    apply Word.ext
    show updated.2.val.natAbs = amount.val
    omega

theorem increaseStake_addsAlpha :
    AddsAlpha netuid chain
      (chain.increaseStakeForHotkeyAndColdkeyOnSubnet hotkey coldkey netuid amount).1
      amount.val := by
  rcases hinc : chain.increaseStakeForHotkeyAndColdkeyOnSubnet hotkey coldkey netuid amount with
    ⟨chain₁, added⟩
  exact (increaseStake_ok hinc).2.1

/-! ## No more than the amount -/

omit [DecidableEq A] in
/-- The total never rises by more than a positive update. -/
theorem totalAlpha_le_of_update {stakes : Stakes A} {update : I64} {value : U64} {total total' : ℕ}
    (h : stakes.totalAlpha netuid + value.val =
      ((addUpdate (.ofNat value.val) update).toWord 64).val + total)
    (hupdate : update.val ≤ total') : stakes.totalAlpha netuid ≤ total + total' := by
  have hle := val_addUpdate_le value update
  omega

theorem val_asI64_le (amount : U64) : amount.asI64.val ≤ amount.val := by
  by_cases h : amount.val < 2 ^ 63
  · exact (Word.val_asI64_of_lt h).le
  · have hlt := amount.asI64.upper
    omega

theorem increaseStakeForHotkey_totalAlpha_le :
    (chain.increaseStakeForHotkeyOnSubnet hotkey netuid amount).totalAlpha netuid ≤
      chain.totalAlpha netuid + amount.val :=
  totalAlpha_le_of_update (Stakes.totalAlpha_updateValueForAll _) (val_asI64_le amount)

theorem increaseStake_totalAlpha_le :
    (chain.increaseStakeForHotkeyAndColdkeyOnSubnet hotkey coldkey netuid amount).1.totalAlpha
        netuid ≤ chain.totalAlpha netuid + amount.val := by
  obtain ⟨accounts, updated, hupdated, heq⟩ :=
    increaseStake_eq chain hotkey coldkey netuid amount
  have hle : updated.2.val ≤ amount.val := by
    by_cases h : amount.val < 2 ^ 63
    · rw [hupdated, updateValueForOne_of_small chain.stakes h]
      exact val_asI64_le amount
    · have hlt := updated.2.upper
      omega
  rw [heq]
  subst hupdated
  exact totalAlpha_le_of_update (Stakes.totalAlpha_updateValueForOne _) hle

/-! ## Decreasing stake -/

theorem val_unsignedAbs_neg {update : I64} {taken : U64} (h : update.val = -taken.val)
    (hsmall : taken.val < 2 ^ 63) :
    (if 0 ≤ update.neg.val then update.neg.unsignedAbs else 0) = taken := by
  have hneg : update.neg.val = taken.val := by
    rw [SWord.val_neg_of_ne (by omega), h, neg_neg]
  rw [if_pos (by omega)]
  apply Word.ext
  show update.neg.val.natAbs = taken.val
  omega

/-- A decrease takes out the amount, or the whole value of the pair. -/
theorem updateValueForOne_neg {s : Stakes A} {value : U64}
    (hvalue : tryGetValue (hotkeyAlphaSharePool hotkey netuid) s coldkey = some value)
    (hle : amount.val ≤ value.val) (hsmall : value.val < 2 ^ 63) :
    ∃ taken : U64, amount.val ≤ taken.val ∧ taken.val ≤ value.val ∧
      (updateValueForOne (hotkeyAlphaSharePool hotkey netuid) s coldkey amount.asI64.neg).2.val =
        -taken.val := by
  have hneg : ∀ a : U64, a.val < 2 ^ 63 → a.asI64.neg.val = -a.val := by
    intro a ha
    have hval := Word.val_asI64_of_lt ha
    rw [SWord.val_neg_of_ne (by omega), hval]
  have hgetValue : getValue (hotkeyAlphaSharePool hotkey netuid) s coldkey = value := by
    unfold tryGetValue at hvalue
    obtain ⟨-, -, heq⟩ := Option.map_eq_some_iff.mp hvalue
    exact heq
  rcases actualUpdate_cases ((hotkeyAlphaSharePool hotkey netuid).getSharedValue s)
    ((hotkeyAlphaSharePool hotkey netuid).getDenominator s)
    ((hotkeyAlphaSharePool hotkey netuid).getShare s coldkey) amount.asI64.neg with heq | ⟨-, heq⟩
  · refine ⟨amount, le_refl _, hle, ?_⟩
    show (shareUpdate _ _ _ _).actualUpdate.val = _
    rw [heq]
    exact hneg amount (lt_of_le_of_lt hle hsmall)
  · refine ⟨value, hle, le_refl _, ?_⟩
    show (shareUpdate _ _ _ _).actualUpdate.val = _
    rw [heq]
    show (getValue (hotkeyAlphaSharePool hotkey netuid) s coldkey).asI64.neg.val = _
    rw [hgetValue]
    exact hneg value hsmall

/-- A decrease takes out what it says, and at least the amount when the pair
has it. -/
theorem decreaseStake_addsAlpha {taken : U64}
    (h : chain.decreaseStakeForHotkeyAndColdkeyOnSubnet hotkey coldkey netuid amount =
      (chain', taken)) :
    AddsAlpha netuid chain chain' (-taken.val) ∧
      (chain'.ledger.overflowed = false →
        chain.hasEnoughStakeOnSubnet hotkey coldkey netuid amount = true →
          amount.val ≤ taken.val) := by
  unfold decreaseStakeForHotkeyAndColdkeyOnSubnet at h
  unfold hasEnoughStakeOnSubnet getStakeForHotkeyAndColdkeyOnSubnet
  cases hvalue : tryGetValue (hotkeyAlphaSharePool hotkey netuid) chain.stakes coldkey with
  | none =>
      simp only [hvalue] at h
      cases h
      refine ⟨addsAlpha_of_eq rfl id, ?_⟩
      intro _ henough
      exact of_decide_eq_true henough
  | some value =>
      simp only [hvalue] at h
      by_cases hle : amount.val ≤ value.val
      · rw [if_pos hle] at h
        cases h
        constructor
        · intro hok
          have hsmall := updateStakes_small hok
          obtain ⟨taken, -, htaken, hupdate⟩ := updateValueForOne_neg hvalue hle hsmall
          rw [val_unsignedAbs_neg hupdate (lt_of_le_of_lt htaken hsmall), ← hupdate]
          exact updateStakes_addsAlpha (Stakes.totalAlpha_updateValueForOne _)
            (fun _ => by omega) hok
        · intro hok _
          have hsmall := updateStakes_small hok
          obtain ⟨taken, hamount, htaken, hupdate⟩ := updateValueForOne_neg hvalue hle hsmall
          rw [val_unsignedAbs_neg hupdate (lt_of_le_of_lt htaken hsmall)]
          exact hamount
      · rw [if_neg hle] at h
        cases h
        refine ⟨addsAlpha_of_eq rfl id, ?_⟩
        intro _ henough
        exact absurd (of_decide_eq_true henough) hle

/-! ## Updates that fit -/

/-- The alpha of the subnet, and that of one hotkey on it, move by exactly `δ`. -/
structure MovesAlpha (hotkey : A) (netuid : NetUid) (chain chain' : Chain A B P) (δ : ℤ) :
    Prop where
  total : (chain'.totalAlpha netuid : ℤ) = chain.totalAlpha netuid + δ
  shared : ((chain'.getStakeForHotkeyOnSubnet hotkey netuid).val : ℤ) =
    (chain.getStakeForHotkeyOnSubnet hotkey netuid).val + δ

theorem MovesAlpha.trans (h₁ : MovesAlpha hotkey netuid chain chain₁ δ)
    (h₂ : MovesAlpha hotkey netuid chain₁ chain₂ δ') :
    MovesAlpha hotkey netuid chain chain₂ (δ + δ') where
  total := by rw [h₂.total, h₁.total, add_assoc]
  shared := by rw [h₂.shared, h₁.shared, add_assoc]

theorem movesAlpha_of_stakes (h : chain'.stakes = chain.stakes) :
    MovesAlpha hotkey netuid chain chain' 0 where
  total := by
    unfold totalAlpha
    rw [h, add_zero]
  shared := by
    unfold getStakeForHotkeyOnSubnet
    rw [h, add_zero]

/-- An update of the share pool that stays in the range of `u64` is exact. -/
theorem updateStakes_movesAlpha {stakes : Stakes A} {asked update : I64}
    (hupdated : (stakes, update) =
      updateValueForOne (hotkeyAlphaSharePool hotkey netuid) chain.stakes coldkey asked)
    (hleast : update.val ≠ -2 ^ 63)
    (hnonneg : 0 ≤ ((chain.getStakeForHotkeyOnSubnet hotkey netuid).val : ℤ) + update.val)
    (hlt : ((chain.getStakeForHotkeyOnSubnet hotkey netuid).val : ℤ) + update.val < 2 ^ 64) :
    MovesAlpha hotkey netuid chain (chain.updateStakes hotkey netuid amount stakes update)
      update.val := by
  have hvalue := val_addUpdate_of_mem hleast hnonneg hlt
  have htotal : stakes.totalAlpha netuid + (chain.getStakeForHotkeyOnSubnet hotkey netuid).val =
      ((addUpdate (.ofNat (chain.getStakeForHotkeyOnSubnet hotkey netuid).val) update).toWord
        64).val + chain.totalAlpha netuid := by
    have htotal : (updateValueForOne (hotkeyAlphaSharePool hotkey netuid) chain.stakes coldkey
        asked).1.totalAlpha netuid + _ = _ := Stakes.totalAlpha_updateValueForOne asked
    rw [← hupdated] at htotal
    exact htotal
  have hafter : (stakes.totalHotkeyAlpha.lookup (hotkey, netuid)).getD 0 =
      (addUpdate (.ofNat (chain.getStakeForHotkeyOnSubnet hotkey netuid).val) update).toWord 64 := by
    obtain ⟨rfl, rfl⟩ := Prod.mk.inj hupdated
    exact Stakes.lookup_setSharedValue _
  constructor
  · show (stakes.totalAlpha netuid : ℤ) = _
    omega
  · rw [← hvalue, ← hafter]
    rfl

theorem increaseStake_movesAlpha (hsmall : amount.val < 2 ^ 63)
    (hfits : (chain.getStakeForHotkeyOnSubnet hotkey netuid).val + amount.val < 2 ^ 64) :
    MovesAlpha hotkey netuid chain
      (chain.increaseStakeForHotkeyAndColdkeyOnSubnet hotkey coldkey netuid amount).1
      amount.val := by
  obtain ⟨accounts, ⟨stakes, update⟩, hupdated, heq⟩ :=
    increaseStake_eq chain hotkey coldkey netuid amount
  have hupdate : update = amount.asI64 := by
    rw [← updateValueForOne_of_small chain.stakes hsmall, ← hupdated]
  have hval : update.val = amount.val := by
    rw [hupdate, Word.val_asI64_of_lt hsmall]
  have hmoves : MovesAlpha hotkey netuid (chain.withAccounts accounts)
      ((chain.withAccounts accounts).updateStakes hotkey netuid amount stakes update)
      update.val := by
    have hshared : (chain.withAccounts accounts).getStakeForHotkeyOnSubnet hotkey netuid =
      chain.getStakeForHotkeyOnSubnet hotkey netuid := rfl
    have hpool : (stakes, update) = updateValueForOne (hotkeyAlphaSharePool hotkey netuid)
      (chain.withAccounts accounts).stakes coldkey amount.asI64 := hupdated
    apply updateStakes_movesAlpha hpool
    · omega
    · omega
    · rw [hshared]
      omega
  rw [hval] at hmoves
  rw [heq]
  exact ⟨hmoves.total, hmoves.shared⟩

/-- What is taken from a stake is taken exactly. -/
theorem decreaseStake_movesAlpha {taken : U64}
    (hheld : (chain.getStakeForHotkeyAndColdkeyOnSubnet hotkey coldkey netuid).val ≤
      (chain.getStakeForHotkeyOnSubnet hotkey netuid).val)
    (hsmall : (chain.getStakeForHotkeyOnSubnet hotkey netuid).val < 2 ^ 63)
    (h : chain.decreaseStakeForHotkeyAndColdkeyOnSubnet hotkey coldkey netuid amount =
      (chain', taken)) :
    MovesAlpha hotkey netuid chain chain' (-taken.val) ∧
      taken.val ≤ (chain.getStakeForHotkeyOnSubnet hotkey netuid).val := by
  rcases decreaseStake_cases chain hotkey coldkey netuid amount with
    heq | ⟨value, hvalue, hle, ⟨stakes, update⟩, hupdated, heq⟩
  · rw [heq] at h
    cases h
    exact ⟨movesAlpha_of_stakes rfl, Nat.zero_le _⟩
  · rw [heq] at h
    cases h
    have hheld' : value.val ≤ (chain.getStakeForHotkeyOnSubnet hotkey netuid).val := by
      unfold getStakeForHotkeyAndColdkeyOnSubnet at hheld
      rwa [hvalue] at hheld
    obtain ⟨taken, -, htaken, hupdate⟩ :=
      updateValueForOne_neg hvalue hle (lt_of_le_of_lt hheld' hsmall)
    rw [← hupdated] at hupdate
    rw [val_unsignedAbs_neg hupdate (by omega), ← hupdate]
    dsimp only at hupdate ⊢
    have hmoves : MovesAlpha hotkey netuid chain
        (chain.updateStakes hotkey netuid value stakes update) update.val := by
      apply updateStakes_movesAlpha hupdated <;> omega
    exact ⟨hmoves, by omega⟩

/-! ## Stable subnets -/

variable {tao alpha priceLimit : U64}

/-- On a stable subnet alpha is unstaked one to one, and no reserve moves. -/
theorem unstakeFromSubnet_stable (hstable : chain.isDynamic netuid = false)
    (h : chain.unstakeFromSubnet rt hotkey coldkey netuid alpha priceLimit = (chain', .ok tao)) :
    chain'.reserves = chain.reserves ∧ AddsAlpha netuid chain chain' (-tao.val) ∧
      (chain'.ledger.overflowed = false →
        chain.hasEnoughStakeOnSubnet hotkey coldkey netuid alpha = true →
          alpha.val ≤ tao.val) := by
  unfold unstakeFromSubnet at h
  rcases hdec : chain.decreaseStakeForHotkeyAndColdkeyOnSubnet hotkey coldkey netuid alpha with
    ⟨chain₁, taken⟩
  have hstable₁ : chain₁.isDynamic netuid = false :=
    ((decreaseStake_frame rt hdec).1.isDynamic netuid).trans hstable
  have hnothing : unusedAlpha taken (oneToOne taken) = 0 := by
    apply Word.ext
    show taken.val - (taken.satAdd 0).val = 0
    rw [Word.val_satAdd, Word.val_zero]
    have := taken.isLt
    omega
  have hswap : chain₁.swapAlphaForTao rt netuid taken priceLimit =
      (chain₁, .ok (oneToOne taken)) := by
    unfold swapAlphaForTao
    rw [hstable₁]
    rfl
  simp only [hdec, hswap, hnothing, refundStake, Word.val_zero, lt_irrefl, if_false] at h
  cases h
  obtain ⟨hadds, henough⟩ := decreaseStake_addsAlpha hdec
  have hreserves : chain'.reserves = chain.reserves := by
    rcases decreaseStake_cases chain hotkey coldkey netuid alpha with heq | ⟨_, -, -, _, -, heq⟩
    · rw [heq] at hdec
      cases hdec
      rfl
    · rw [heq] at hdec
      cases hdec
      rfl
  exact ⟨hreserves, hadds, henough⟩

/-- On a stable subnet nothing keeps alpha from being sold. -/
theorem unstakeFromSubnet_stable_ne_error (hstable : chain.isDynamic netuid = false) {e : Error} :
    chain.unstakeFromSubnet rt hotkey coldkey netuid alpha priceLimit ≠ (chain', .error e) := by
  intro h
  obtain ⟨chain₁, taken, hdec, ⟨chain₂, e', hswap, -⟩ | ⟨chain₂, result, -, heq⟩⟩ :=
    unstakeFromSubnet_cases rt chain hotkey coldkey netuid alpha priceLimit
  · have hstable₁ : chain₁.isDynamic netuid = false :=
      ((decreaseStake_frame rt hdec).1.isDynamic netuid).trans hstable
    unfold swapAlphaForTao at hswap
    rw [hstable₁] at hswap
    cases hswap
  · rw [heq] at h
    cases h

/-- On a stable subnet TAO is staked one to one, and no reserve moves. -/
theorem stakeIntoSubnet_stable (hstable : chain.isDynamic netuid = false) {added : U64}
    (h : chain.stakeIntoSubnet rt hotkey coldkey netuid tao priceLimit = .ok (chain', added)) :
    chain'.reserves = chain.reserves ∧ AddsAlpha netuid chain chain' tao.val ∧ 0 < tao.val := by
  obtain ⟨chain₁, result, hswap, hpos, accounts, -, rfl⟩ := stakeIntoSubnet_cases h
  unfold swapTaoForAlpha at hswap
  rw [hstable] at hswap
  cases hswap
  rcases hinc : chain.increaseStakeForHotkeyAndColdkeyOnSubnet hotkey coldkey netuid
    (oneToOne tao).amountPaidOut with ⟨chain₂, added'⟩
  obtain ⟨hreserves, hadds, -⟩ := increaseStake_ok hinc
  exact ⟨hreserves, hadds, hpos⟩

theorem clearSmallNomination_stable (hstable : chain.isDynamic netuid = false) :
    (chain.clearSmallNominationIfRequired rt hotkey coldkey netuid).reserves = chain.reserves ∧
      ∃ cleared : U64, AddsAlpha netuid chain
        (chain.clearSmallNominationIfRequired rt hotkey coldkey netuid) (-cleared.val) := by
  rcases clearSmallNomination_cases rt chain hotkey coldkey netuid with
    heq | ⟨stake, chain₁, cleared, hunstake, heq⟩ | ⟨stake, rest, chain₁, e, hunstake, -⟩
  · rw [heq]
    exact ⟨rfl, 0, addsAlpha_of_eq rfl id⟩
  · rw [heq]
    obtain ⟨hreserves, hadds, -⟩ := unstakeFromSubnet_stable hstable hunstake
    exact ⟨hreserves, cleared, hadds⟩
  · exact absurd hunstake (unstakeFromSubnet_stable_ne_error hstable)

end Chain

end Subtensor
