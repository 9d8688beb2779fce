import Subtensor.Pallet.Instances
import Subtensor.Staking.Frame

/-!
# Staking and the issuance equation

`TotalIssuance` is the issuance of the currency and the total stake. A
staking call takes TAO from one of the two and adds it to the other, but the
swap wrappers count it in `TotalStake` only when the subnet is dynamic. The
equation is kept along every run in which stake moves on dynamic subnets
only; on root and on stable subnets it is lost with the first call.
-/

namespace Subtensor.Chain

open Lib

variable {A B P : Type} [DecidableEq A]

/-! ## Calls -/

/-- The calls that stake and unstake. -/
inductive StakingCall (A : Type) where
  | addStake (coldkey hotkey : A) (netuid : NetUid) (stakeToBeAdded : U64)
  | addStakeLimit (coldkey hotkey : A) (netuid : NetUid) (stakeToBeAdded limitPrice : U64)
      (allowPartial : Bool)
  | removeStake (coldkey hotkey : A) (netuid : NetUid) (alphaUnstaked : U64)
  | removeStakeLimit (coldkey hotkey : A) (netuid : NetUid) (alphaUnstaked limitPrice : U64)
      (allowPartial : Bool)
  | removeStakeFullLimit (coldkey hotkey : A) (netuid : NetUid) (limitPrice : Option U64)
  | unstakeAll (coldkey hotkey : A)
  | unstakeAllAlpha (coldkey hotkey : A)

def dispatch (rt : Runtime A B P) (chain : Chain A B P) :
    StakingCall A → Except Error (Chain A B P)
  | .addStake coldkey hotkey netuid stakeToBeAdded =>
      chain.doAddStake rt coldkey hotkey netuid stakeToBeAdded
  | .addStakeLimit coldkey hotkey netuid stakeToBeAdded limitPrice allowPartial =>
      chain.doAddStakeLimit rt coldkey hotkey netuid stakeToBeAdded limitPrice allowPartial
  | .removeStake coldkey hotkey netuid alphaUnstaked =>
      chain.doRemoveStake rt coldkey hotkey netuid alphaUnstaked
  | .removeStakeLimit coldkey hotkey netuid alphaUnstaked limitPrice allowPartial =>
      chain.doRemoveStakeLimit rt coldkey hotkey netuid alphaUnstaked limitPrice allowPartial
  | .removeStakeFullLimit coldkey hotkey netuid limitPrice =>
      chain.doRemoveStakeFullLimit rt coldkey hotkey netuid limitPrice
  | .unstakeAll coldkey hotkey => chain.doUnstakeAll rt coldkey hotkey
  | .unstakeAllAlpha coldkey hotkey => chain.doUnstakeAllAlpha rt coldkey hotkey

/-- A call that fails changes nothing. -/
def apply (rt : Runtime A B P) (chain : Chain A B P) (call : StakingCall A) : Chain A B P :=
  match chain.dispatch rt call with
  | .ok chain' => chain'
  | .error _ => chain

def applyAll (rt : Runtime A B P) (chain : Chain A B P) (calls : List (StakingCall A)) :
    Chain A B P :=
  calls.foldl (apply rt) chain

/-- The call moves stake on dynamic subnets only. `do_unstake_all_alpha`
stakes what it sells on root. -/
def OnlyDynamic (rt : Runtime A B P) (chain : Chain A B P) : StakingCall A → Prop
  | .addStake _ _ netuid _ => chain.isDynamic netuid = true
  | .addStakeLimit _ _ netuid _ _ _ => chain.isDynamic netuid = true
  | .removeStake _ _ netuid _ => chain.isDynamic netuid = true
  | .removeStakeLimit _ _ netuid _ _ _ => chain.isDynamic netuid = true
  | .removeStakeFullLimit _ _ netuid _ => chain.isDynamic netuid = true
  | .unstakeAll coldkey hotkey => ∀ netuid ∈ chain.getAllSubnetNetuids,
      chain.isDynamic netuid = true ∨ chain.unstakeAllAmount rt coldkey hotkey netuid = 0
  | .unstakeAllAlpha coldkey hotkey => chain.isDynamic .ROOT = true ∧
      ∀ netuid ∈ chain.getAllSubnetNetuids,
        chain.isDynamic netuid = true ∨ chain.unstakeAllAmount rt coldkey hotkey netuid = 0

instance decidableOnlyDynamic (rt : Runtime A B P) (chain : Chain A B P) :
    (call : StakingCall A) → Decidable (OnlyDynamic rt chain call)
  | .addStake _ _ netuid _ => inferInstanceAs (Decidable (chain.isDynamic netuid = true))
  | .addStakeLimit _ _ netuid _ _ _ => inferInstanceAs (Decidable (chain.isDynamic netuid = true))
  | .removeStake _ _ netuid _ => inferInstanceAs (Decidable (chain.isDynamic netuid = true))
  | .removeStakeLimit _ _ netuid _ _ _ =>
      inferInstanceAs (Decidable (chain.isDynamic netuid = true))
  | .removeStakeFullLimit _ _ netuid _ => inferInstanceAs (Decidable (chain.isDynamic netuid = true))
  | .unstakeAll coldkey hotkey => inferInstanceAs (Decidable (∀ netuid ∈ chain.getAllSubnetNetuids,
      chain.isDynamic netuid = true ∨ chain.unstakeAllAmount rt coldkey hotkey netuid = 0))
  | .unstakeAllAlpha coldkey hotkey => inferInstanceAs (Decidable (chain.isDynamic .ROOT = true ∧
      ∀ netuid ∈ chain.getAllSubnetNetuids,
        chain.isDynamic netuid = true ∨ chain.unstakeAllAmount rt coldkey hotkey netuid = 0))

/-- Every call of the run moves stake on dynamic subnets only, in the state in
which it is made. -/
def OnlyDynamicRun (rt : Runtime A B P) (chain : Chain A B P) : List (StakingCall A) → Prop
  | [] => True
  | call :: calls => OnlyDynamic rt chain call ∧ OnlyDynamicRun rt (chain.apply rt call) calls

/-! ## One subnet -/

variable {rt : Runtime A B P} {chain chain' : Chain A B P} {coldkey hotkey : A} {netuid : NetUid}
  {amount priceLimit : U64}

theorem delegateIfNotOwner_touches (n : NetUid) :
    Touches n chain (chain.delegateIfNotOwner rt coldkey hotkey) := by
  unfold delegateIfNotOwner maybeBecomeDelegate
  split_ifs
  · exact .refl n chain
  · exact withAccounts_touches rfl
  · exact .refl n chain

theorem delegateIfNotOwner_ledger :
    (chain.delegateIfNotOwner rt coldkey hotkey).ledger = chain.ledger := by
  unfold delegateIfNotOwner maybeBecomeDelegate
  split_ifs <;> rfl

theorem withdrawAndStake_moves (hexact : rt.currency.Exact)
    (hdyn : chain.isDynamic netuid = true)
    (h : chain.withdrawAndStake rt coldkey hotkey netuid amount priceLimit = .ok chain') :
    Moves rt chain chain' 0 0 := by
  unfold withdrawAndStake at h
  cases hremove : chain.removeBalanceFromColdkeyAccount rt coldkey amount with
  | error e =>
      rw [hremove] at h
      cases h
  | ok paid =>
      obtain ⟨chain₁, taoStaked⟩ := paid
      rw [hremove] at h
      cases hstake : chain₁.stakeIntoSubnet rt hotkey coldkey netuid taoStaked priceLimit with
      | error e =>
          simp only [hstake] at h
          cases h
      | ok staked =>
          obtain ⟨chain₂, added⟩ := staked
          simp only [hstake] at h
          cases h
          obtain ⟨-, hmoves₁⟩ := moves_removeBalance hexact hremove
          have hmoves₂ := (stakeIntoSubnet_ok hstake).2
          have hdyn₁ : chain₁.isDynamic netuid = true := by
            obtain ⟨currency, rfl⟩ := removeBalance_frame hremove
            exact hdyn
          rw [countedStake, if_pos hdyn₁] at hmoves₂
          have hboth := hmoves₁.trans hmoves₂
          rwa [neg_add_cancel, add_zero] at hboth

theorem unstakeAndCredit_ok (hexact : rt.currency.Exact) (hdyn : chain.isDynamic netuid = true)
    (h : chain.unstakeAndCredit rt coldkey hotkey netuid amount priceLimit = .ok chain') :
    Touches netuid chain chain' ∧ Moves rt chain chain' 0 0 := by
  unfold unstakeAndCredit at h
  rcases hunstake : chain.unstakeFromSubnet rt hotkey coldkey netuid amount priceLimit with
    ⟨chain₁, e | tao⟩
  · simp only [hunstake] at h
    cases h
  · simp only [hunstake] at h
    cases h
    have htouch : Touches netuid chain (chain₁.addBalanceToColdkeyAccount rt coldkey tao) :=
      (unstakeFromSubnet_ok hunstake).1.trans addBalance_touches
    have hmoves := unstake_credit_moves hexact hdyn hunstake
    have hdyn₁ := (htouch.isDynamic netuid).trans hdyn
    exact ⟨htouch.trans clearSmallNomination_touches,
      hmoves.then_none (clearSmallNomination_moves hexact hdyn₁)⟩

theorem dropPendingChildren_ledger :
    (chain.dropPendingChildren rt hotkey).ledger = chain.ledger := by
  unfold dropPendingChildren
  split_ifs <;> rfl

theorem doAddStake_moves (hexact : rt.currency.Exact) (hdyn : chain.isDynamic netuid = true)
    (h : chain.doAddStake rt coldkey hotkey netuid amount = .ok chain') :
    Moves rt chain chain' 0 0 := by
  unfold doAddStake at h
  cases hvalid : chain.validateAddStake rt coldkey hotkey netuid amount amount false with
  | error e =>
      simp only [hvalid] at h
      split_ifs at h
  | ok u =>
      simp only [hvalid] at h
      split_ifs at h
      exact withdrawAndStake_moves hexact hdyn h

theorem doAddStakeLimit_moves (hexact : rt.currency.Exact) {allowPartial : Bool}
    (hdyn : chain.isDynamic netuid = true)
    (h : chain.doAddStakeLimit rt coldkey hotkey netuid amount priceLimit allowPartial =
      .ok chain') :
    Moves rt chain chain' 0 0 := by
  unfold doAddStakeLimit at h
  cases hmax : chain.getMaxAmountAdd rt netuid priceLimit with
  | error e =>
      simp only [hmax] at h
      cases h
  | ok maxAmount =>
      cases hvalid : chain.validateAddStake rt coldkey hotkey netuid amount maxAmount
          allowPartial with
      | error e =>
          simp only [hmax, hvalid] at h
          cases h
      | ok u =>
          simp only [hmax, hvalid] at h
          have htouch : Touches netuid chain (chain.delegateIfNotOwner rt coldkey hotkey) :=
            delegateIfNotOwner_touches netuid
          have hdyn₁ := (htouch.isDynamic netuid).trans hdyn
          exact (moves_of_ledger_eq delegateIfNotOwner_ledger).none_then
            (withdrawAndStake_moves hexact hdyn₁ h)

/-- The end that all calls which remove stake from one subnet share. -/
theorem unstakeAndDrop_moves (hexact : rt.currency.Exact) (hdyn : chain.isDynamic netuid = true)
    (h : (match chain.unstakeAndCredit rt coldkey hotkey netuid amount priceLimit with
      | .error e => .error e
      | .ok chain => .ok (chain.dropPendingChildren rt hotkey)) = Except.ok chain') :
    Moves rt chain chain' 0 0 := by
  cases hunstake : chain.unstakeAndCredit rt coldkey hotkey netuid amount priceLimit with
  | error e =>
      simp only [hunstake] at h
      cases h
  | ok chain₁ =>
      simp only [hunstake] at h
      cases h
      exact (unstakeAndCredit_ok hexact hdyn hunstake).2.then_none
        (moves_of_ledger_eq dropPendingChildren_ledger)

theorem doRemoveStake_moves (hexact : rt.currency.Exact) (hdyn : chain.isDynamic netuid = true)
    (h : chain.doRemoveStake rt coldkey hotkey netuid amount = .ok chain') :
    Moves rt chain chain' 0 0 := by
  unfold doRemoveStake at h
  cases hvalid : chain.validateRemoveStake rt coldkey hotkey netuid amount amount false with
  | error e =>
      simp only [hvalid] at h
      split_ifs at h
  | ok u =>
      simp only [hvalid] at h
      by_cases henabled : ¬(chain.subnets netuid).subtokenEnabled
      · rw [if_pos henabled] at h
        cases h
      · rw [if_neg henabled] at h
        exact unstakeAndDrop_moves hexact hdyn h

theorem doRemoveStakeLimit_moves (hexact : rt.currency.Exact) {allowPartial : Bool}
    (hdyn : chain.isDynamic netuid = true)
    (h : chain.doRemoveStakeLimit rt coldkey hotkey netuid amount priceLimit allowPartial =
      .ok chain') :
    Moves rt chain chain' 0 0 := by
  unfold doRemoveStakeLimit at h
  cases hmax : chain.getMaxAmountRemove rt netuid priceLimit with
  | error e =>
      simp only [hmax] at h
      cases h
  | ok maxAmount =>
      cases hvalid : chain.validateRemoveStake rt coldkey hotkey netuid amount maxAmount
          allowPartial with
      | error e =>
          simp only [hmax, hvalid] at h
          cases h
      | ok u =>
          simp only [hmax, hvalid] at h
          exact unstakeAndDrop_moves hexact hdyn h

theorem doRemoveStakeFullLimit_moves (hexact : rt.currency.Exact) {limitPrice : Option U64}
    (hdyn : chain.isDynamic netuid = true)
    (h : chain.doRemoveStakeFullLimit rt coldkey hotkey netuid limitPrice = .ok chain') :
    Moves rt chain chain' 0 0 := by
  unfold doRemoveStakeFullLimit at h
  cases limitPrice with
  | none => exact doRemoveStake_moves hexact hdyn h
  | some limitPrice => exact doRemoveStakeLimit_moves hexact hdyn h

/-! ## All subnets -/

/-- On a subnet that is not dynamic the price is one. -/
def OneToOneStable (rt : Runtime A B P) : Prop :=
  ∀ info swap netuid order amount, info.mechanism.val ≠ 1 →
    rt.swap.simSwap info swap netuid order amount = .ok (oneToOne amount)

theorem oneToOneStable_of_swapPallet {rt : Runtime A B (SwapStorage A)} {cfg : Swap.Config A}
    (h : rt.swap = swapPallet cfg) : OneToOneStable rt := by
  intro info swap netuid order amount hmechanism
  rw [h]
  show swapPalletSimSwap cfg info swap netuid order amount = _
  unfold swapPalletSimSwap
  rw [if_neg hmechanism]
  rfl

/-- What is taken from a stable subnet does not depend on what happened on
another one. -/
theorem unstakeAllAmount_of_touches (hstable : OneToOneStable rt)
    (htouch : Touches netuid chain chain') {n : NetUid} (hn : n ≠ netuid)
    (hdyn : chain.isDynamic n = false) :
    chain'.unstakeAllAmount rt coldkey hotkey n = chain.unstakeAllAmount rt coldkey hotkey n := by
  have hmechanism : ∀ c : Chain A B P, c.isDynamic n = false →
      (c.subnetInfo n).mechanism.val ≠ 1 := fun c hc => of_decide_eq_false hc
  have hsim := hstable (chain.subnetInfo n) chain.swap n .sell
    (chain.getStakeForHotkeyAndColdkeyOnSubnet hotkey coldkey n) (hmechanism chain hdyn)
  have hsim' := hstable (chain'.subnetInfo n) chain'.swap n .sell
    (chain.getStakeForHotkeyAndColdkeyOnSubnet hotkey coldkey n)
    (hmechanism chain' ((htouch.isDynamic n).trans hdyn))
  unfold unstakeAllAmount validateRemoveStake hasEnoughStakeOnSubnet simSwap ifSubnetExist
    hotkeyAccountExists
  simp only [htouch.stake_eq hn, hsim, hsim', htouch.subnets, htouch.networksAdded, htouch.owner]

/-- The subnets that are left keep their condition while one of them is
unstaked. -/
theorem onlyDynamic_of_touches (hstable : OneToOneStable rt)
    (htouch : Touches netuid chain chain') (hdyn : chain.isDynamic netuid = true)
    {netuids : List NetUid}
    (h : ∀ n ∈ netuids, chain.isDynamic n = true ∨ chain.unstakeAllAmount rt coldkey hotkey n = 0) :
    ∀ n ∈ netuids, chain'.isDynamic n = true ∨
      chain'.unstakeAllAmount rt coldkey hotkey n = 0 := by
  intro n hmem
  cases hn : chain.isDynamic n with
  | true => exact Or.inl ((htouch.isDynamic n).trans hn)
  | false =>
      have hne : n ≠ netuid := by
        rintro rfl
        rw [hn] at hdyn
        cases hdyn
      have hzero : chain.unstakeAllAmount rt coldkey hotkey n = 0 := by
        rcases h n hmem with htrue | hzero
        · rw [hn] at htrue
          cases htrue
        · exact hzero
      exact Or.inr ((unstakeAllAmount_of_touches hstable htouch hne hn).trans hzero)

/-- A subnet from which something is taken is dynamic. -/
theorem isDynamic_of_amount_pos
    (h : chain.isDynamic netuid = true ∨ chain.unstakeAllAmount rt coldkey hotkey netuid = 0)
    (hpos : 0 < (chain.unstakeAllAmount rt coldkey hotkey netuid).val) :
    chain.isDynamic netuid = true := by
  rcases h with h | h
  · exact h
  · rw [h] at hpos
    exact absurd hpos (lt_irrefl 0)

theorem unstakeAllLoop_moves (hexact : rt.currency.Exact) (hstable : OneToOneStable rt)
    {netuids : List NetUid}
    (hdyn : ∀ n ∈ netuids, chain.isDynamic n = true ∨
      chain.unstakeAllAmount rt coldkey hotkey n = 0)
    (h : chain.unstakeAllLoop rt coldkey hotkey netuids = .ok chain') :
    Moves rt chain chain' 0 0 := by
  induction netuids generalizing chain with
  | nil =>
      cases h
      exact .refl _
  | cons netuid netuids ih =>
      have hrest : ∀ n ∈ netuids, chain.isDynamic n = true ∨
          chain.unstakeAllAmount rt coldkey hotkey n = 0 :=
        fun n hn => hdyn n (List.mem_cons_of_mem netuid hn)
      unfold unstakeAllLoop at h
      by_cases hpos : 0 < (chain.unstakeAllAmount rt coldkey hotkey netuid).val
      · simp only [if_pos hpos] at h
        have hdyn₀ := isDynamic_of_amount_pos (hdyn netuid List.mem_cons_self) hpos
        cases hunstake : chain.unstakeAndCredit rt coldkey hotkey netuid
            (chain.unstakeAllAmount rt coldkey hotkey netuid) rt.swap.minPrice with
        | error e =>
            simp only [hunstake] at h
            cases h
        | ok chain₁ =>
            simp only [hunstake] at h
            obtain ⟨htouch, hmoves⟩ := unstakeAndCredit_ok hexact hdyn₀ hunstake
            exact hmoves.none_then
              (ih (onlyDynamic_of_touches hstable htouch hdyn₀ hrest) h)
      · simp only [if_neg hpos] at h
        exact ih hrest h

/-- TAO that was unstaked for `do_unstake_all_alpha` is out of the ledger until
it is staked on root. -/
theorem unstakeForRoot_moves (hexact : rt.currency.Exact) {total tao : U64} {chain₁ : Chain A B P}
    (hdyn : chain.isDynamic netuid = true)
    (h : chain.unstakeFromSubnet rt hotkey coldkey netuid amount priceLimit = (chain₁, .ok tao))
    (hnext : chain' = (chain₁.withLedger (·.note (2 ^ 64 ≤ total.val + tao.val)
      )).clearSmallNominationIfRequired rt hotkey coldkey netuid) :
    Touches netuid chain chain' ∧ Moves rt chain chain' (-tao.val) 0 ∧
      (chain'.ledger.overflowed = false → total.val + tao.val < 2 ^ 64) := by
  obtain ⟨htouch₁, hmoves₁⟩ := unstakeFromSubnet_ok h
  rw [countedStake, if_pos hdyn] at hmoves₁
  have htouch₂ : Touches netuid chain
      (chain₁.withLedger (·.note (2 ^ 64 ≤ total.val + tao.val))) :=
    htouch₁.trans withLedger_touches
  have hclear : Moves rt (chain₁.withLedger (·.note (2 ^ 64 ≤ total.val + tao.val))) chain' 0 0 := by
    rw [hnext]
    exact clearSmallNomination_moves hexact ((htouch₂.isDynamic netuid).trans hdyn)
  refine ⟨?_, (hmoves₁.then_none (moves_note _)).then_none hclear, ?_⟩
  · rw [hnext]
    exact htouch₂.trans clearSmallNomination_touches
  · intro hok
    obtain ⟨-, hlt⟩ := Bool.or_eq_false_iff.mp (hclear hok).1
    exact not_le.mp (of_decide_eq_false hlt)

theorem unstakeAllAlphaLoop_moves (hexact : rt.currency.Exact) (hstable : OneToOneStable rt)
    {netuids : List NetUid} {total total' : U64}
    (hdyn : ∀ n ∈ netuids, chain.isDynamic n = true ∨
      chain.unstakeAllAmount rt coldkey hotkey n = 0)
    (h : chain.unstakeAllAlphaLoop rt coldkey hotkey total netuids = .ok (chain', total')) :
    chain'.subnets = chain.subnets ∧ Moves rt chain chain' (total.val - total'.val) 0 := by
  induction netuids generalizing chain total with
  | nil =>
      cases h
      rw [sub_self]
      exact ⟨rfl, .refl _⟩
  | cons netuid netuids ih =>
      have hrest : ∀ n ∈ netuids, chain.isDynamic n = true ∨
          chain.unstakeAllAmount rt coldkey hotkey n = 0 :=
        fun n hn => hdyn n (List.mem_cons_of_mem netuid hn)
      unfold unstakeAllAlphaLoop at h
      by_cases hroot : netuid.isRoot = true
      · simp only [if_pos hroot, Word.val_zero, lt_irrefl, if_false] at h
        exact ih hrest h
      by_cases hpos : 0 < (chain.unstakeAllAmount rt coldkey hotkey netuid).val
      · simp only [if_neg hroot, if_pos hpos] at h
        have hdyn₀ := isDynamic_of_amount_pos (hdyn netuid List.mem_cons_self) hpos
        rcases hunstake : chain.unstakeFromSubnet rt hotkey coldkey netuid
          (chain.unstakeAllAmount rt coldkey hotkey netuid) rt.swap.minPrice with ⟨chain₁, e | tao⟩
        · simp only [hunstake] at h
          cases h
        · simp only [hunstake] at h
          obtain ⟨htouch, hmoves, hfits⟩ := unstakeForRoot_moves hexact hdyn₀ hunstake rfl
          obtain ⟨hsubnets, hloop⟩ :=
            ih (onlyDynamic_of_touches hstable htouch hdyn₀ hrest) h
          refine ⟨hsubnets.trans htouch.subnets, ?_⟩
          intro hok
          -- the sum did not overflow, so what is out of the ledger adds up
          have hsum : ((total.satAdd tao).val : ℤ) = total.val + tao.val := by
            rw [Word.val_satAdd_of_lt (hfits (hloop hok).1), Nat.cast_add]
          have hboth := hmoves.trans hloop
          rw [hsum, add_zero, show -(tao.val : ℤ) + (total.val + tao.val - total'.val) =
            total.val - total'.val by ring] at hboth
          exact hboth hok
      · simp only [if_neg hroot, if_neg hpos] at h
        exact ih hrest h

theorem doUnstakeAll_moves (hexact : rt.currency.Exact) (hstable : OneToOneStable rt)
    (hdyn : OnlyDynamic rt chain (.unstakeAll coldkey hotkey))
    (h : chain.doUnstakeAll rt coldkey hotkey = .ok chain') :
    Moves rt chain chain' 0 0 := by
  unfold doUnstakeAll at h
  split_ifs at h
  exact unstakeAllLoop_moves hexact hstable hdyn h

theorem doUnstakeAllAlpha_moves (hexact : rt.currency.Exact) (hstable : OneToOneStable rt)
    (hdyn : OnlyDynamic rt chain (.unstakeAllAlpha coldkey hotkey))
    (h : chain.doUnstakeAllAlpha rt coldkey hotkey = .ok chain') :
    Moves rt chain chain' 0 0 := by
  obtain ⟨hroot, hsubnets⟩ := hdyn
  unfold doUnstakeAllAlpha at h
  cases hloop : chain.unstakeAllAlphaLoop rt coldkey hotkey 0 chain.getAllSubnetNetuids with
  | error e =>
      simp only [hloop] at h
      split_ifs at h
  | ok unstaked =>
      obtain ⟨chain₁, total⟩ := unstaked
      simp only [hloop] at h
      cases hstake : chain₁.stakeIntoSubnet rt hotkey coldkey .ROOT total rt.swap.maxPrice with
      | error e =>
          simp only [hstake] at h
          split_ifs at h
      | ok staked =>
          obtain ⟨chain₂, added⟩ := staked
          simp only [hstake] at h
          split_ifs at h
          cases h
          obtain ⟨hsame, hmoves₁⟩ := unstakeAllAlphaLoop_moves hexact hstable hsubnets hloop
          have hroot₁ : chain₁.isDynamic .ROOT = true := by
            unfold isDynamic mechanism at hroot ⊢
            rw [hsame]
            exact hroot
          have hmoves₂ := (stakeIntoSubnet_ok hstake).2
          rw [countedStake, if_pos hroot₁] at hmoves₂
          have hboth := hmoves₁.trans hmoves₂
          rwa [Word.val_zero, Nat.cast_zero, zero_sub, neg_add_cancel, add_zero] at hboth

/-! ## Runs -/

/-- A call that moves stake on dynamic subnets only moves nothing in the
ledger. -/
theorem dispatch_moves (hexact : rt.currency.Exact) (hstable : OneToOneStable rt)
    {call : StakingCall A} (hdyn : OnlyDynamic rt chain call)
    (h : chain.dispatch rt call = .ok chain') : Moves rt chain chain' 0 0 := by
  cases call with
  | addStake coldkey hotkey netuid amount => exact doAddStake_moves hexact hdyn h
  | addStakeLimit coldkey hotkey netuid amount limit allowPartial =>
      exact doAddStakeLimit_moves hexact hdyn h
  | removeStake coldkey hotkey netuid alpha => exact doRemoveStake_moves hexact hdyn h
  | removeStakeLimit coldkey hotkey netuid alpha limit allowPartial =>
      exact doRemoveStakeLimit_moves hexact hdyn h
  | removeStakeFullLimit coldkey hotkey netuid limit =>
      exact doRemoveStakeFullLimit_moves hexact hdyn h
  | unstakeAll coldkey hotkey => exact doUnstakeAll_moves hexact hstable hdyn h
  | unstakeAllAlpha coldkey hotkey => exact doUnstakeAllAlpha_moves hexact hstable hdyn h

theorem apply_moves (hexact : rt.currency.Exact) (hstable : OneToOneStable rt)
    {call : StakingCall A} (hdyn : OnlyDynamic rt chain call) :
    Moves rt chain (chain.apply rt call) 0 0 := by
  unfold apply
  cases h : chain.dispatch rt call with
  | error e => exact .refl chain
  | ok chain' => exact dispatch_moves hexact hstable hdyn h

theorem applyAll_moves (hexact : rt.currency.Exact) (hstable : OneToOneStable rt)
    {calls : List (StakingCall A)} (hdyn : OnlyDynamicRun rt chain calls) :
    Moves rt chain (chain.applyAll rt calls) 0 0 := by
  induction calls generalizing chain with
  | nil => exact .refl chain
  | cons call calls ih => exact (apply_moves hexact hstable hdyn.1).none_then (ih hdyn.2)

/-- **Staking on dynamic subnets.** In every run in which each call moves stake
on dynamic subnets only, the issuance of the currency plus the total stake,
and `TotalIssuance`, are what they were; so the issuance equation is kept. -/
theorem applyAll_issuance {rt : Runtime A B (SwapStorage A)} {cfg : Swap.Config A}
    (hswap : rt.swap = swapPallet cfg) (hexact : rt.currency.Exact)
    {chain : Chain A B (SwapStorage A)} {calls : List (StakingCall A)}
    (hdyn : OnlyDynamicRun rt chain calls)
    (hok : (chain.applyAll rt calls).ledger.overflowed = false) :
    (chain.applyAll rt calls).accounted rt = chain.accounted rt ∧
      (chain.applyAll rt calls).ledger.totalIssuance.val = chain.ledger.totalIssuance.val ∧
      (chain.IssuanceBalanced rt → (chain.applyAll rt calls).IssuanceBalanced rt) := by
  have hmoves := applyAll_moves hexact (oneToOneStable_of_swapPallet hswap) hdyn
  obtain ⟨-, hvalue, hissuance⟩ := hmoves hok
  rw [add_zero] at hvalue hissuance
  exact ⟨hvalue, by exact_mod_cast hissuance, hmoves.issuanceBalanced hok⟩

/-- A coldkey stakes on a dynamic subnet and unstakes all of it. -/
theorem applyAll_issuance_smallChain :
    let calls : List (StakingCall ℕ) :=
      [.addStake 10 1 (.sat 1) (.sat 1000000000), .unstakeAll 10 1]
    (smallChain.applyAll runtime calls).ledger.totalStake = .sat 1000755321 ∧
      (smallChain.applyAll runtime calls).IssuanceBalanced runtime := by
  intro calls
  have hdyn : OnlyDynamicRun runtime smallChain calls :=
    ⟨by decide +kernel, by decide +kernel, trivial⟩
  have hok : (smallChain.applyAll runtime calls).ledger.overflowed = false := by decide +kernel
  exact ⟨by decide +kernel, (applyAll_issuance rfl balances_exact hdyn hok).2.2 rfl⟩

/-- On root the TAO leaves the currency and is counted nowhere. -/
theorem doAddStake_root_not_balanced :
    smallChain.IssuanceBalanced runtime ∧
      ∃ chain', smallChain.doAddStake runtime 10 1 .ROOT (.sat 1000000000) = .ok chain' ∧
        chain'.ledger.overflowed = false ∧ ¬chain'.IssuanceBalanced runtime := by
  refine ⟨rfl, ?_⟩
  have hledger : (smallChain.doAddStake runtime 10 1 .ROOT (.sat 1000000000)).toOption.map
      (fun chain => (chain.ledger.currency.totalIssuance, chain.ledger.totalIssuance,
        chain.ledger.totalStake, chain.ledger.overflowed)) =
      some (9000000000, .sat 11000000000, .sat 1000000000, false) := by
    decide +kernel
  cases h : smallChain.doAddStake runtime 10 1 .ROOT (.sat 1000000000) with
  | error e =>
      rw [h] at hledger
      cases hledger
  | ok chain' =>
      rw [h] at hledger
      simp only [Except.toOption, Option.map_some, Option.some.injEq, Prod.mk.injEq] at hledger
      obtain ⟨hcurrency, hissuance, hstake, hok⟩ := hledger
      refine ⟨chain', rfl, hok, ?_⟩
      intro hbalanced
      have hsum : (chain'.ledger.totalIssuance.val : ℤ) =
          chain'.ledger.currency.totalIssuance + chain'.ledger.totalStake.val := hbalanced
      rw [hcurrency, hissuance, hstake] at hsum
      exact absurd hsum (by decide)

end Subtensor.Chain
