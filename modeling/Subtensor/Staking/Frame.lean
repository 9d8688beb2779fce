import Subtensor.Pallet.Ledger
import Subtensor.Staking.Calls

/-!
# What staking on a subnet touches

The parts of the staking calls change the stake, the reserves and the pool of
one subnet, the ledger, and the lists of staking hotkeys. `Touches` says that
everything else is as it was; next to it stands how each part moves the
ledger.
-/

namespace Subtensor

open Lib SharePool

variable {A B P : Type} [DecidableEq A]

/-! ## Stake of other subnets -/

/-- The stakes differ on one subnet at most. -/
structure Stakes.SameOutside (netuid : NetUid) (s s' : Stakes A) : Prop where
  totalHotkeyAlpha : ∀ hotkey n, n ≠ netuid →
    s'.totalHotkeyAlpha.lookup (hotkey, n) = s.totalHotkeyAlpha.lookup (hotkey, n)
  totalHotkeyShares : ∀ hotkey n, n ≠ netuid →
    s'.totalHotkeyShares (hotkey, n) = s.totalHotkeyShares (hotkey, n)
  alpha : ∀ hotkey coldkey n, n ≠ netuid →
    s'.alpha.lookup (hotkey, coldkey, n) = s.alpha.lookup (hotkey, coldkey, n)

namespace Stakes.SameOutside

variable {netuid : NetUid} {s s₁ s₂ : Stakes A}

theorem refl (netuid : NetUid) (s : Stakes A) : SameOutside netuid s s :=
  ⟨fun _ _ _ => rfl, fun _ _ _ => rfl, fun _ _ _ _ => rfl⟩

theorem trans (h₁ : SameOutside netuid s s₁) (h₂ : SameOutside netuid s₁ s₂) :
    SameOutside netuid s s₂ where
  totalHotkeyAlpha := fun hotkey n hn =>
    (h₂.totalHotkeyAlpha hotkey n hn).trans (h₁.totalHotkeyAlpha hotkey n hn)
  totalHotkeyShares := fun hotkey n hn =>
    (h₂.totalHotkeyShares hotkey n hn).trans (h₁.totalHotkeyShares hotkey n hn)
  alpha := fun hotkey coldkey n hn =>
    (h₂.alpha hotkey coldkey n hn).trans (h₁.alpha hotkey coldkey n hn)

omit [DecidableEq A] in
theorem key_ne {hotkey hotkey' : A} {n : NetUid} (hn : n ≠ netuid) :
    (hotkey', n) ≠ (hotkey, netuid) :=
  fun h => hn (Prod.mk.inj h).2

theorem setSharedValue (hotkey : A) (netuid : NetUid) (s : Stakes A) (value : U64F64) :
    SameOutside netuid s ((hotkeyAlphaSharePool hotkey netuid).setSharedValue s value) := by
  refine ⟨?_, fun _ _ _ => rfl, fun _ _ _ _ => rfl⟩
  intro hotkey' n hn
  show (if value.bits ≠ 0 then _ else _ : StorageMap (A × NetUid) U64).lookup _ = _
  split_ifs
  · exact AList.lookup_insert_ne (key_ne hn)
  · exact AList.lookup_erase_ne (key_ne hn)

theorem setShare (hotkey coldkey : A) (netuid : NetUid) (s : Stakes A) (share : U64F64) :
    SameOutside netuid s ((hotkeyAlphaSharePool hotkey netuid).setShare s coldkey share) := by
  refine ⟨fun _ _ _ => rfl, fun _ _ _ => rfl, ?_⟩
  intro hotkey' coldkey' n hn
  have hne : (hotkey', coldkey', n) ≠ (hotkey, coldkey, netuid) := by
    intro h
    exact key_ne hn (Prod.mk.inj h).2
  show (if share.bits ≠ 0 then _ else _ : StorageMap (A × A × NetUid) U64F64).lookup _ = _
  split_ifs
  · exact AList.lookup_insert_ne hne
  · exact AList.lookup_erase_ne hne

theorem setDenominator (hotkey : A) (netuid : NetUid) (s : Stakes A) (update : U64F64) :
    SameOutside netuid s ((hotkeyAlphaSharePool hotkey netuid).setDenominator s update) := by
  refine ⟨fun _ _ _ => rfl, ?_, fun _ _ _ _ => rfl⟩
  intro hotkey' n hn
  exact Function.update_of_ne (key_ne hn) _ _

theorem updateValueForAll (hotkey : A) (netuid : NetUid) (s : Stakes A) (update : I64) :
    SameOutside netuid s
      (SharePool.updateValueForAll (hotkeyAlphaSharePool hotkey netuid) s update) :=
  setSharedValue hotkey netuid s _

theorem updateValueForOne (hotkey coldkey : A) (netuid : NetUid) (s : Stakes A) (update : I64) :
    SameOutside netuid s
      (SharePool.updateValueForOne (hotkeyAlphaSharePool hotkey netuid) s coldkey update).1 :=
  ((setDenominator hotkey netuid s _).trans (setShare hotkey coldkey netuid _ _)).trans
    (updateValueForAll hotkey netuid _ _)

end Stakes.SameOutside

/-! ## The rest of the storage -/

namespace Chain

/-- The shares of a coldkey; a coldkey without an entry has none. -/
def shareOf (stakes : Stakes A) (hotkey coldkey : A) (netuid : NetUid) : U64F64 :=
  (stakes.alpha.lookup (hotkey, coldkey, netuid)).getD 0

/-- Nothing but stake, reserves and pool of one subnet, the ledger and the
accounts was touched. -/
structure Touches (netuid : NetUid) (chain chain' : Chain A B P) : Prop where
  subnets : chain'.subnets = chain.subnets
  networksAdded : chain'.networksAdded = chain.networksAdded
  params : chain'.params = chain.params
  pending : chain'.pending = chain.pending
  owner : chain'.accounts.owner = chain.accounts.owner
  reserves : ∀ n, n ≠ netuid → chain'.reserves n = chain.reserves n
  stakes : Stakes.SameOutside netuid chain.stakes chain'.stakes

variable {rt : Runtime A B P} {netuid : NetUid} {chain chain₁ chain₂ chain' : Chain A B P}
  {hotkey coldkey : A} {amount : U64}

namespace Touches

theorem refl (netuid : NetUid) (chain : Chain A B P) : Touches netuid chain chain :=
  ⟨rfl, rfl, rfl, rfl, rfl, fun _ _ => rfl, .refl netuid _⟩

theorem trans (h₁ : Touches netuid chain chain₁) (h₂ : Touches netuid chain₁ chain₂) :
    Touches netuid chain chain₂ where
  subnets := h₂.subnets.trans h₁.subnets
  networksAdded := h₂.networksAdded.trans h₁.networksAdded
  params := h₂.params.trans h₁.params
  pending := h₂.pending.trans h₁.pending
  owner := h₂.owner.trans h₁.owner
  reserves := fun n hn => (h₂.reserves n hn).trans (h₁.reserves n hn)
  stakes := h₁.stakes.trans h₂.stakes

theorem isDynamic (h : Touches netuid chain chain') (n : NetUid) :
    chain'.isDynamic n = chain.isDynamic n := by
  unfold Chain.isDynamic mechanism
  rw [h.subnets]

theorem stake_eq (h : Touches netuid chain chain') {n : NetUid} (hn : n ≠ netuid) :
    chain'.getStakeForHotkeyAndColdkeyOnSubnet hotkey coldkey n =
      chain.getStakeForHotkeyAndColdkeyOnSubnet hotkey coldkey n := by
  unfold getStakeForHotkeyAndColdkeyOnSubnet tryGetValue getValue
  simp only [hotkeyAlphaSharePool]
  rw [h.stakes.alpha _ _ _ hn, h.stakes.totalHotkeyAlpha _ _ hn,
    h.stakes.totalHotkeyShares _ _ hn]

end Touches

/-! ## Stake -/

theorem updateStakes_touches {stakes : Stakes A} {update : I64}
    (h : Stakes.SameOutside netuid chain.stakes stakes) :
    Touches netuid chain (chain.updateStakes hotkey netuid amount stakes update) :=
  ⟨rfl, rfl, rfl, rfl, rfl, fun _ _ => rfl, h⟩

theorem updateStakes_moves {stakes : Stakes A} {update : I64} :
    Moves rt chain (chain.updateStakes hotkey netuid amount stakes update) 0 0 := by
  intro hok
  obtain ⟨hok', -⟩ := Bool.or_eq_false_iff.mp hok
  exact ⟨hok', (add_zero _).symm, (add_zero _).symm⟩

theorem withAccounts_touches {accounts : Accounts A}
    (h : accounts.owner = chain.accounts.owner) :
    Touches netuid chain (chain.withAccounts accounts) :=
  ⟨rfl, rfl, rfl, rfl, h, fun _ _ => rfl, .refl netuid _⟩

theorem increaseStakeForHotkey_touches :
    Touches netuid chain (chain.increaseStakeForHotkeyOnSubnet hotkey netuid amount) :=
  updateStakes_touches (.updateValueForAll hotkey netuid _ _)

theorem increaseStake_touches :
    Touches netuid chain
      (chain.increaseStakeForHotkeyAndColdkeyOnSubnet hotkey coldkey netuid amount).1 := by
  unfold increaseStakeForHotkeyAndColdkeyOnSubnet
  by_cases h : 0 < amount.val
  · simp only [if_pos h]
    have haccounts : Touches netuid chain
        (chain.withAccounts (pushStakingHotkey chain.accounts coldkey hotkey)) :=
      withAccounts_touches rfl
    exact haccounts.trans (updateStakes_touches (.updateValueForOne hotkey coldkey netuid _ _))
  · simp only [if_neg h]
    exact updateStakes_touches (.updateValueForOne hotkey coldkey netuid _ _)

theorem increaseStake_moves :
    Moves rt chain
      (chain.increaseStakeForHotkeyAndColdkeyOnSubnet hotkey coldkey netuid amount).1 0 0 := by
  unfold increaseStakeForHotkeyAndColdkeyOnSubnet
  by_cases h : 0 < amount.val
  · simp only [if_pos h]
    exact (moves_of_ledger_eq rfl).none_then updateStakes_moves
  · simp only [if_neg h]
    exact updateStakes_moves

/-- A decrease does nothing, or updates the share of the pair. -/
theorem decreaseStake_cases (chain : Chain A B P) (hotkey coldkey : A) (netuid : NetUid)
    (amount : U64) :
    chain.decreaseStakeForHotkeyAndColdkeyOnSubnet hotkey coldkey netuid amount = (chain, 0) ∨
      ∃ value, tryGetValue (hotkeyAlphaSharePool hotkey netuid) chain.stakes coldkey = some value ∧
        amount.val ≤ value.val ∧
        ∃ updated, updated = updateValueForOne (hotkeyAlphaSharePool hotkey netuid) chain.stakes
            coldkey amount.asI64.neg ∧
          chain.decreaseStakeForHotkeyAndColdkeyOnSubnet hotkey coldkey netuid amount =
            (chain.updateStakes hotkey netuid value updated.1 updated.2,
              if 0 ≤ updated.2.neg.val then updated.2.neg.unsignedAbs else 0) := by
  unfold decreaseStakeForHotkeyAndColdkeyOnSubnet
  cases hvalue : tryGetValue (hotkeyAlphaSharePool hotkey netuid) chain.stakes coldkey with
  | none => exact Or.inl rfl
  | some value =>
      by_cases hle : amount.val ≤ value.val
      · simp only [if_pos hle]
        exact Or.inr ⟨value, rfl, hle, _, rfl, rfl⟩
      · left
        simp only [if_neg hle]

theorem decreaseStake_touches :
    Touches netuid chain
      (chain.decreaseStakeForHotkeyAndColdkeyOnSubnet hotkey coldkey netuid amount).1 := by
  rcases decreaseStake_cases chain hotkey coldkey netuid amount with h | ⟨value, -, -, updated, rfl, h⟩
  · rw [h]
    exact .refl netuid chain
  · rw [h]
    exact updateStakes_touches (.updateValueForOne hotkey coldkey netuid _ _)

theorem decreaseStake_moves :
    Moves rt chain
      (chain.decreaseStakeForHotkeyAndColdkeyOnSubnet hotkey coldkey netuid amount).1 0 0 := by
  rcases decreaseStake_cases chain hotkey coldkey netuid amount with h | ⟨value, -, -, updated, -, h⟩
  · rw [h]
    exact .refl chain
  · rw [h]
    exact updateStakes_moves

/-! ## Swaps -/

/-- What staking some TAO adds to the total stake: nothing on a subnet that is
not dynamic. -/
def countedStake (chain : Chain A B P) (netuid : NetUid) (tao : U64) : ℤ :=
  if chain.isDynamic netuid then tao.val else 0

theorem Touches.countedStake (h : Touches netuid chain chain') (n : NetUid) (tao : U64) :
    chain'.countedStake n tao = chain.countedStake n tao := by
  unfold Chain.countedStake
  rw [h.isDynamic n]

theorem withSwap_touches {swap : P} : Touches netuid chain (chain.withSwap swap) :=
  ⟨rfl, rfl, rfl, rfl, rfl, fun _ _ => rfl, .refl netuid _⟩

theorem withLedger_touches {f : Ledger B → Ledger B} :
    Touches netuid chain (chain.withLedger f) :=
  ⟨rfl, rfl, rfl, rfl, rfl, fun _ _ => rfl, .refl netuid _⟩

theorem withReserves_touches {f : Reserves → Reserves} :
    Touches netuid chain (chain.withReserves netuid f) :=
  ⟨rfl, rfl, rfl, rfl, rfl, fun _ hn => Function.update_of_ne hn _ _, .refl netuid _⟩

omit [DecidableEq A] in
/-- A swap of TAO for alpha either leaves all but the storage of the swap
pallet, or updates the reserves and counts the TAO. -/
theorem swapTaoForAlpha_cases (rt : Runtime A B P) (chain : Chain A B P) (netuid : NetUid)
    (tao priceLimit : U64) :
    (chain.isDynamic netuid = false ∧
        chain.swapTaoForAlpha rt netuid tao priceLimit = (chain, .ok (oneToOne tao))) ∨
      (chain.isDynamic netuid = true ∧ ∃ swap result,
        rt.swap.swap (chain.subnetInfo netuid) chain.swap netuid .buy tao priceLimit =
            (swap, result) ∧
          ((∃ e, result = .error e ∧
              chain.swapTaoForAlpha rt netuid tao priceLimit = (chain.withSwap swap, .error e)) ∨
            ∃ r, result = .ok r ∧ chain.swapTaoForAlpha rt netuid tao priceLimit =
              (((chain.withSwap swap).withReserves netuid (boughtReserves tao r)).withLedger
                (·.addStake tao), .ok r))) := by
  unfold swapTaoForAlpha
  cases hdyn : chain.isDynamic netuid with
  | false => exact Or.inl ⟨rfl, rfl⟩
  | true =>
      refine Or.inr ⟨rfl, ?_⟩
      rcases hswap : rt.swap.swap (chain.subnetInfo netuid) chain.swap netuid .buy tao priceLimit
        with ⟨swap, e | r⟩
      · exact ⟨swap, _, rfl, Or.inl ⟨e, rfl, rfl⟩⟩
      · exact ⟨swap, _, rfl, Or.inr ⟨r, rfl, rfl⟩⟩

omit [DecidableEq A] in
theorem swapAlphaForTao_cases (rt : Runtime A B P) (chain : Chain A B P) (netuid : NetUid)
    (alpha priceLimit : U64) :
    (chain.isDynamic netuid = false ∧
        chain.swapAlphaForTao rt netuid alpha priceLimit = (chain, .ok (oneToOne alpha))) ∨
      (chain.isDynamic netuid = true ∧ ∃ swap result,
        rt.swap.swap (chain.subnetInfo netuid) chain.swap netuid .sell alpha priceLimit =
            (swap, result) ∧
          ((∃ e, result = .error e ∧
              chain.swapAlphaForTao rt netuid alpha priceLimit = (chain.withSwap swap, .error e)) ∨
            ∃ r, result = .ok r ∧ chain.swapAlphaForTao rt netuid alpha priceLimit =
              (((chain.withSwap swap).withReserves netuid (soldReserves r)).withLedger
                (·.subStake r.amountPaidOut), .ok r))) := by
  unfold swapAlphaForTao
  cases hdyn : chain.isDynamic netuid with
  | false => exact Or.inl ⟨rfl, rfl⟩
  | true =>
      refine Or.inr ⟨rfl, ?_⟩
      rcases hswap : rt.swap.swap (chain.subnetInfo netuid) chain.swap netuid .sell alpha priceLimit
        with ⟨swap, e | r⟩
      · exact ⟨swap, _, rfl, Or.inl ⟨e, rfl, rfl⟩⟩
      · exact ⟨swap, _, rfl, Or.inr ⟨r, rfl, rfl⟩⟩

variable {tao alpha priceLimit : U64} {result : Swap.SwapResult} {e : Error}

theorem swapTaoForAlpha_ok
    (h : chain.swapTaoForAlpha rt netuid tao priceLimit = (chain', .ok result)) :
    Touches netuid chain chain' ∧ Moves rt chain chain' (chain.countedStake netuid tao) 0 := by
  unfold countedStake
  rcases swapTaoForAlpha_cases rt chain netuid tao priceLimit with
    ⟨hdyn, heq⟩ | ⟨hdyn, swap, swapResult, -, ⟨e, -, heq⟩ | ⟨r, -, heq⟩⟩
  · rw [heq] at h
    cases h
    rw [if_neg (by simp [hdyn])]
    exact ⟨.refl netuid chain, .refl chain⟩
  · rw [heq] at h
    cases h
  · rw [heq] at h
    cases h
    rw [if_pos hdyn]
    refine ⟨(withSwap_touches.trans withReserves_touches).trans withLedger_touches, ?_⟩
    have hmoves : Moves rt chain
        ((chain.withSwap swap).withReserves netuid (boughtReserves tao result)) 0 0 :=
      moves_of_ledger_eq rfl
    exact hmoves.none_then (moves_addStake tao)

theorem swapAlphaForTao_ok
    (h : chain.swapAlphaForTao rt netuid alpha priceLimit = (chain', .ok result)) :
    Touches netuid chain chain' ∧
      Moves rt chain chain' (-chain.countedStake netuid result.amountPaidOut) 0 := by
  unfold countedStake
  rcases swapAlphaForTao_cases rt chain netuid alpha priceLimit with
    ⟨hdyn, heq⟩ | ⟨hdyn, swap, swapResult, -, ⟨e, -, heq⟩ | ⟨r, -, heq⟩⟩
  · rw [heq] at h
    cases h
    rw [if_neg (by simp [hdyn]), neg_zero]
    exact ⟨.refl netuid chain, .refl chain⟩
  · rw [heq] at h
    cases h
  · rw [heq] at h
    cases h
    rw [if_pos hdyn]
    refine ⟨(withSwap_touches.trans withReserves_touches).trans withLedger_touches, ?_⟩
    have hmoves : Moves rt chain
        ((chain.withSwap swap).withReserves netuid (soldReserves result)) 0 0 :=
      moves_of_ledger_eq rfl
    exact hmoves.none_then (moves_subStake result.amountPaidOut)

theorem swapAlphaForTao_error
    (h : chain.swapAlphaForTao rt netuid alpha priceLimit = (chain', .error e)) :
    Touches netuid chain chain' ∧ Moves rt chain chain' 0 0 := by
  rcases swapAlphaForTao_cases rt chain netuid alpha priceLimit with
    ⟨hdyn, heq⟩ | ⟨hdyn, swap, swapResult, -, ⟨e, -, heq⟩ | ⟨r, -, heq⟩⟩
  · rw [heq] at h
    cases h
  · rw [heq] at h
    cases h
    exact ⟨withSwap_touches, moves_of_ledger_eq rfl⟩
  · rw [heq] at h
    cases h

/-! ## Staking and unstaking -/

theorem refundStake_touches {refund : U64} :
    Touches netuid chain (chain.refundStake hotkey coldkey netuid refund) := by
  unfold refundStake
  split_ifs
  · exact increaseStake_touches
  · exact .refl netuid chain

theorem refundStake_moves {refund : U64} :
    Moves rt chain (chain.refundStake hotkey coldkey netuid refund) 0 0 := by
  unfold refundStake
  split_ifs
  · exact increaseStake_moves
  · exact .refl chain

/-- Unstaking decreases the stake and sells what was taken; what was not sold
is given back. -/
theorem unstakeFromSubnet_cases (rt : Runtime A B P) (chain : Chain A B P) (hotkey coldkey : A)
    (netuid : NetUid) (alpha priceLimit : U64) :
    ∃ chain₁ taken,
      chain.decreaseStakeForHotkeyAndColdkeyOnSubnet hotkey coldkey netuid alpha =
          (chain₁, taken) ∧
        ((∃ chain₂ e, chain₁.swapAlphaForTao rt netuid taken priceLimit = (chain₂, .error e) ∧
            chain.unstakeFromSubnet rt hotkey coldkey netuid alpha priceLimit =
              (chain₂, .error e)) ∨
          ∃ chain₂ result,
            chain₁.swapAlphaForTao rt netuid taken priceLimit = (chain₂, .ok result) ∧
              chain.unstakeFromSubnet rt hotkey coldkey netuid alpha priceLimit =
                (chain₂.refundStake hotkey coldkey netuid (unusedAlpha taken result),
                  .ok result.amountPaidOut)) := by
  unfold unstakeFromSubnet
  rcases hdec : chain.decreaseStakeForHotkeyAndColdkeyOnSubnet hotkey coldkey netuid alpha with
    ⟨chain₁, taken⟩
  refine ⟨chain₁, taken, rfl, ?_⟩
  rcases hswap : chain₁.swapAlphaForTao rt netuid taken priceLimit with ⟨chain₂, e | result⟩
  · exact Or.inl ⟨chain₂, e, rfl, by simp only [hswap]⟩
  · exact Or.inr ⟨chain₂, result, rfl, by simp only [hswap]⟩

/-- The first part of unstaking touches the subnet only and moves nothing. -/
theorem decreaseStake_frame (rt : Runtime A B P) {taken : U64}
    (h : chain.decreaseStakeForHotkeyAndColdkeyOnSubnet hotkey coldkey netuid alpha =
      (chain₁, taken)) :
    Touches netuid chain chain₁ ∧ Moves rt chain chain₁ 0 0 := by
  have heq : chain₁ =
      (chain.decreaseStakeForHotkeyAndColdkeyOnSubnet hotkey coldkey netuid alpha).1 := by
    rw [h]
  subst heq
  exact ⟨decreaseStake_touches, decreaseStake_moves⟩

/-- Unstaking takes the TAO that it returns out of the total stake, on a
dynamic subnet. -/
theorem unstakeFromSubnet_ok
    (h : chain.unstakeFromSubnet rt hotkey coldkey netuid alpha priceLimit = (chain', .ok tao)) :
    Touches netuid chain chain' ∧ Moves rt chain chain' (-chain.countedStake netuid tao) 0 := by
  obtain ⟨chain₁, taken, hdec, ⟨chain₂, e, -, heq⟩ | ⟨chain₂, result, hswap, heq⟩⟩ :=
    unstakeFromSubnet_cases rt chain hotkey coldkey netuid alpha priceLimit
  · rw [heq] at h
    cases h
  · rw [heq] at h
    cases h
    obtain ⟨htouch₁, hmoves₁⟩ := decreaseStake_frame rt hdec
    obtain ⟨htouch₂, hmoves₂⟩ := swapAlphaForTao_ok hswap
    rw [htouch₁.countedStake] at hmoves₂
    exact ⟨(htouch₁.trans htouch₂).trans refundStake_touches,
      (hmoves₁.none_then hmoves₂).then_none refundStake_moves⟩

theorem unstakeFromSubnet_error
    (h : chain.unstakeFromSubnet rt hotkey coldkey netuid alpha priceLimit =
      (chain', .error e)) :
    Touches netuid chain chain' ∧ Moves rt chain chain' 0 0 := by
  obtain ⟨chain₁, taken, hdec, ⟨chain₂, e, hswap, heq⟩ | ⟨chain₂, result, -, heq⟩⟩ :=
    unstakeFromSubnet_cases rt chain hotkey coldkey netuid alpha priceLimit
  · rw [heq] at h
    cases h
    obtain ⟨htouch₁, hmoves₁⟩ := decreaseStake_frame rt hdec
    obtain ⟨htouch₂, hmoves₂⟩ := swapAlphaForTao_error hswap
    exact ⟨htouch₁.trans htouch₂, hmoves₁.none_then hmoves₂⟩
  · rw [heq] at h
    cases h

theorem stakeIntoSubnet_cases {added : U64}
    (h : chain.stakeIntoSubnet rt hotkey coldkey netuid tao priceLimit = .ok (chain', added)) :
    ∃ chain₁ result, chain.swapTaoForAlpha rt netuid tao priceLimit = (chain₁, .ok result) ∧
      0 < result.amountPaidOut.val ∧
      ∃ accounts, accounts.owner = chain₁.accounts.owner ∧
        chain' = (chain₁.increaseStakeForHotkeyAndColdkeyOnSubnet hotkey coldkey netuid
          result.amountPaidOut).1.withAccounts accounts := by
  unfold stakeIntoSubnet at h
  rcases hswap : chain.swapTaoForAlpha rt netuid tao priceLimit with ⟨chain₁, e | result⟩
  · simp only [hswap] at h
    cases h
  · simp only [hswap] at h
    refine ⟨chain₁, result, rfl, ?_⟩
    have htouch : Touches netuid chain₁ (chain₁.increaseStakeForHotkeyAndColdkeyOnSubnet hotkey
        coldkey netuid result.amountPaidOut).1 := increaseStake_touches
    split_ifs at h with hout htry hzero
    · cases h
      exact ⟨hout, _, htouch.owner, rfl⟩
    · cases h
      exact ⟨hout, pushStakingHotkey _ coldkey hotkey, htouch.owner, rfl⟩

/-- Staking adds the TAO to the total stake, on a dynamic subnet. -/
theorem stakeIntoSubnet_ok {added : U64}
    (h : chain.stakeIntoSubnet rt hotkey coldkey netuid tao priceLimit = .ok (chain', added)) :
    Touches netuid chain chain' ∧ Moves rt chain chain' (chain.countedStake netuid tao) 0 := by
  obtain ⟨chain₁, result, hswap, -, accounts, howner, rfl⟩ := stakeIntoSubnet_cases h
  obtain ⟨htouch₁, hmoves₁⟩ := swapTaoForAlpha_ok hswap
  have htouch₂ : Touches netuid chain₁ (chain₁.increaseStakeForHotkeyAndColdkeyOnSubnet hotkey
      coldkey netuid result.amountPaidOut).1 := increaseStake_touches
  refine ⟨(htouch₁.trans htouch₂).trans (withAccounts_touches ?_), ?_⟩
  · exact howner.trans htouch₂.owner.symm
  · exact (hmoves₁.then_none increaseStake_moves).then_none (moves_of_ledger_eq rfl)

/-- Unstaking from a dynamic subnet and crediting the TAO moves nothing. -/
theorem unstake_credit_moves (hexact : rt.currency.Exact) (hdyn : chain.isDynamic netuid = true)
    (h : chain.unstakeFromSubnet rt hotkey coldkey netuid alpha priceLimit = (chain', .ok tao)) :
    Moves rt chain (chain'.addBalanceToColdkeyAccount rt coldkey tao) 0 0 := by
  have hmoves := (unstakeFromSubnet_ok h).2
  rw [countedStake, if_pos hdyn] at hmoves
  have hcredit : Moves rt chain' (chain'.addBalanceToColdkeyAccount rt coldkey tao) tao.val 0 :=
    moves_addBalance hexact
  have hboth := hmoves.trans hcredit
  rwa [neg_add_cancel, add_zero] at hboth

theorem addBalance_touches :
    Touches netuid chain (chain.addBalanceToColdkeyAccount rt coldkey amount) :=
  ⟨rfl, rfl, rfl, rfl, rfl, fun _ _ => rfl, .refl netuid _⟩

/-- A nomination is kept, sold for its coldkey, or dropped. -/
theorem clearSmallNomination_cases (rt : Runtime A B P) (chain : Chain A B P) (hotkey coldkey : A)
    (netuid : NetUid) :
    chain.clearSmallNominationIfRequired rt hotkey coldkey netuid = chain ∨
      (∃ stake chain₁ cleared,
        chain.unstakeFromSubnet rt hotkey coldkey netuid stake rt.swap.minPrice =
            (chain₁, .ok cleared) ∧
          chain.clearSmallNominationIfRequired rt hotkey coldkey netuid =
            chain₁.addBalanceToColdkeyAccount rt coldkey cleared) ∨
      ∃ stake rest chain₁ e,
        chain.unstakeFromSubnet rt hotkey coldkey netuid stake rt.swap.minPrice =
            (chain₁, .error e) ∧
          chain.clearSmallNominationIfRequired rt hotkey coldkey netuid =
            (chain₁.decreaseStakeForHotkeyAndColdkeyOnSubnet hotkey coldkey netuid rest).1 := by
  unfold clearSmallNominationIfRequired
  rcases hunstake : chain.unstakeFromSubnet rt hotkey coldkey netuid
    (chain.getStakeForHotkeyAndColdkeyOnSubnet hotkey coldkey netuid) rt.swap.minPrice with
    ⟨chain₁, e | cleared⟩
  · simp only [hunstake]
    split_ifs
    · exact Or.inl rfl
    · exact Or.inr (Or.inr ⟨_, _, chain₁, e, hunstake, rfl⟩)
    · exact Or.inl rfl
  · simp only [hunstake]
    split_ifs
    · exact Or.inl rfl
    · exact Or.inr (Or.inl ⟨_, chain₁, cleared, hunstake, rfl⟩)
    · exact Or.inl rfl

theorem clearSmallNomination_touches :
    Touches netuid chain (chain.clearSmallNominationIfRequired rt hotkey coldkey netuid) := by
  rcases clearSmallNomination_cases rt chain hotkey coldkey netuid with
    heq | ⟨stake, chain₁, cleared, hunstake, heq⟩ | ⟨stake, rest, chain₁, e, hunstake, heq⟩
  · rw [heq]
    exact .refl netuid chain
  · rw [heq]
    exact (unstakeFromSubnet_ok hunstake).1.trans addBalance_touches
  · rw [heq]
    exact (unstakeFromSubnet_error hunstake).1.trans decreaseStake_touches

/-- What is sold of a small nomination is credited: on a dynamic subnet
nothing is lost. -/
theorem clearSmallNomination_moves (hexact : rt.currency.Exact)
    (hdyn : chain.isDynamic netuid = true) :
    Moves rt chain (chain.clearSmallNominationIfRequired rt hotkey coldkey netuid) 0 0 := by
  rcases clearSmallNomination_cases rt chain hotkey coldkey netuid with
    heq | ⟨stake, chain₁, cleared, hunstake, heq⟩ | ⟨stake, rest, chain₁, e, hunstake, heq⟩
  · rw [heq]
    exact .refl chain
  · rw [heq]
    exact unstake_credit_moves hexact hdyn hunstake
  · rw [heq]
    exact (unstakeFromSubnet_error hunstake).2.none_then decreaseStake_moves

/-! ## Calls -/

theorem doAddStake_ok (h : chain.doAddStake rt coldkey hotkey netuid amount = .ok chain') :
    ∃ chain₁ paid added,
      chain.removeBalanceFromColdkeyAccount rt coldkey amount = .ok (chain₁, paid) ∧
        chain₁.stakeIntoSubnet rt hotkey coldkey netuid paid rt.swap.maxPrice =
          .ok (chain', added) := by
  unfold doAddStake at h
  cases hvalid : chain.validateAddStake rt coldkey hotkey netuid amount amount false with
  | error e =>
      simp only [hvalid] at h
      split_ifs at h
  | ok u =>
      simp only [hvalid] at h
      split_ifs at h
      unfold withdrawAndStake at h
      cases hremove : chain.removeBalanceFromColdkeyAccount rt coldkey amount with
      | error e =>
          rw [hremove] at h
          cases h
      | ok result =>
          obtain ⟨chain₁, paid⟩ := result
          rw [hremove] at h
          cases hstake : chain₁.stakeIntoSubnet rt hotkey coldkey netuid paid rt.swap.maxPrice with
          | error e =>
              simp only [hstake] at h
              cases h
          | ok staked =>
              obtain ⟨chain₂, added⟩ := staked
              simp only [hstake] at h
              cases h
              exact ⟨chain₁, paid, added, rfl, hstake⟩

theorem validateRemoveStake_ok {maxAmount : U64} {allowPartial : Bool}
    (h : chain.validateRemoveStake rt coldkey hotkey netuid alpha maxAmount allowPartial = .ok ()) :
    chain.hasEnoughStakeOnSubnet hotkey coldkey netuid alpha = true ∧
      ∃ result, chain.simSwap rt netuid .sell alpha = .ok result ∧
        rt.defaultMinStake.val < result.amountPaidOut.val := by
  unfold validateRemoveStake at h
  cases hsim : chain.simSwap rt netuid .sell alpha with
  | error e =>
      simp only [hsim] at h
      split_ifs at h
  | ok result =>
      simp only [hsim] at h
      split_ifs at h with hexist hmin hpartial haccount henough
      exact ⟨henough, result, rfl, hmin⟩

theorem doRemoveStake_ok (h : chain.doRemoveStake rt coldkey hotkey netuid alpha = .ok chain') :
    chain.validateRemoveStake rt coldkey hotkey netuid alpha alpha false = .ok () ∧
      ∃ chain₁ tao,
        chain.unstakeFromSubnet rt hotkey coldkey netuid alpha rt.swap.minPrice =
            (chain₁, .ok tao) ∧
          chain' = ((chain₁.addBalanceToColdkeyAccount rt coldkey
            tao).clearSmallNominationIfRequired rt hotkey coldkey netuid).dropPendingChildren rt
              hotkey := by
  unfold doRemoveStake unstakeAndCredit at h
  cases hvalid : chain.validateRemoveStake rt coldkey hotkey netuid alpha alpha false with
  | error e =>
      simp only [hvalid] at h
      split_ifs at h
  | ok u =>
      rcases hunstake : chain.unstakeFromSubnet rt hotkey coldkey netuid alpha rt.swap.minPrice with
        ⟨chain₁, e | tao⟩
      · simp only [hvalid, hunstake] at h
        split_ifs at h
      · simp only [hvalid, hunstake] at h
        split_ifs at h
        cases h
        exact ⟨rfl, chain₁, tao, rfl, rfl⟩

end Chain

end Subtensor
