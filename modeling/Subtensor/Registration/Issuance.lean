import Subtensor.Pallet.Instances
import Subtensor.Pallet.SwapColdkey
import Subtensor.Registration.Calls
import Subtensor.Staking.Frame

/-!
# Registrations, key swaps and the issuance

Every one of these operations withdraws a cost. What becomes of it differs:
the burn of a subnet is swapped and counted as stake, the lock of a network is
split between its pool and the issuance, the cost of a key swap leaves the
issuance, and the balance of a swapped coldkey is withdrawn and deposited
again. In all of them `TotalIssuance` and what the chain accounts for move
alike.
-/

namespace Subtensor.Chain

open Lib

variable {A B P : Type} [DecidableEq A]

/-! ## The difference -/

omit [DecidableEq A] in
/-- `TotalIssuance` without the issuance of the currency and the total
stake. -/
def issuanceDifference (rt : Runtime A B P) (chain : Chain A B P) : ℤ :=
  chain.ledger.totalIssuance.val - (chain.currencyIssuance rt + chain.ledger.totalStake.val)

/-- Registrations and key swaps that succeed. -/
inductive KeyOperation (rt : Runtime A B P) (defaultTempo : U16) (chain chain' : Chain A B P) :
    Prop where
  | burnedRegistration (coldkey : A) (netuid : NetUid) (hotkey : A) :
      chain.isDynamic netuid = true →
        chain.doBurnedRegistration rt coldkey netuid hotkey = .ok chain' →
          KeyOperation rt defaultTempo chain chain'
  | registerNetwork (coldkey hotkey : A) (mechid : U16) (identity : Option SubnetIdentity) :
      chain.doRegisterNetwork rt defaultTempo coldkey hotkey mechid identity = some (.ok chain') →
        KeyOperation rt defaultTempo chain chain'
  | swapHotkey (coldkey oldHotkey newHotkey : A) (netuid : Option NetUid) :
      chain.doSwapHotkey rt coldkey oldHotkey newHotkey netuid = .ok chain' →
        KeyOperation rt defaultTempo chain chain'
  | swapColdkey (oldColdkey newColdkey : A) (swapCost : U64) :
      chain.doSwapColdkey rt oldColdkey newColdkey swapCost = .ok chain' →
        KeyOperation rt defaultTempo chain chain'

variable {rt : Runtime A B P} {chain chain' : Chain A B P} {coldkey hotkey : A} {netuid : NetUid}
  {defaultTempo : U16} {v : ℤ}

omit [DecidableEq A] in
/-- The difference does not see a movement of both sides. -/
theorem Moves.issuanceDifference_eq (h : Moves rt chain chain' v v)
    (hok : chain'.ledger.overflowed = false) :
    chain'.issuanceDifference rt = chain.issuanceDifference rt := by
  obtain ⟨-, hvalue, hissuance⟩ := h hok
  show (chain'.ledger.totalIssuance.val : ℤ) - chain'.accounted rt =
    chain.ledger.totalIssuance.val - chain.accounted rt
  rw [hvalue, hissuance]
  ring

/-! ## Burned registration -/

theorem createAccountIfNonExistent_ledger :
    (chain.createAccountIfNonExistent coldkey hotkey).ledger = chain.ledger := by
  unfold createAccountIfNonExistent
  split_ifs <;> rfl

theorem createAccountIfNonExistent_isDynamic :
    (chain.createAccountIfNonExistent coldkey hotkey).isDynamic netuid =
      chain.isDynamic netuid := by
  unfold createAccountIfNonExistent
  split_ifs <;> rfl

theorem createAccountIfNonExistent_networkLock :
    (chain.createAccountIfNonExistent coldkey hotkey).networkLock = chain.networkLock := by
  unfold createAccountIfNonExistent
  split_ifs <;> rfl

/-- On a dynamic subnet the TAO that is burned is counted as stake. -/
theorem burnOnSubnet_moves {tao : U64} (hdyn : chain.isDynamic netuid = true)
    (h : chain.burnOnSubnet rt netuid tao = .ok chain') : Moves rt chain chain' tao.val 0 := by
  unfold burnOnSubnet at h
  rcases hswap : chain.swapTaoForAlpha rt netuid tao rt.swap.maxPrice with ⟨chain₁, e | result⟩
  · rw [hswap] at h
    cases h
  · rw [hswap] at h
    cases h
    obtain ⟨-, hmoves⟩ := swapTaoForAlpha_ok hswap
    have hcounted : (chain.countedStake netuid tao : ℤ) = tao.val := by
      unfold countedStake
      rw [if_pos hdyn]
    rw [hcounted] at hmoves
    exact hmoves.then_none (moves_of_ledger_eq rfl)

theorem doBurnedRegistration_moves (hexact : rt.currency.Exact)
    (hdyn : chain.isDynamic netuid = true)
    (h : chain.doBurnedRegistration rt coldkey netuid hotkey = .ok chain') :
    Moves rt chain chain' 0 0 := by
  obtain ⟨event, h⟩ := map_fst_eq_ok.mp h
  unfold doBurnedRegistrationEvent at h
  obtain ⟨-, h⟩ := ite_error_eq_ok.mp h
  obtain ⟨-, h⟩ := ite_error_eq_ok.mp h
  obtain ⟨-, h⟩ := ite_error_eq_ok.mp h
  obtain ⟨-, h⟩ := ite_error_eq_ok.mp h
  obtain ⟨-, h⟩ := ite_error_eq_ok.mp h
  obtain ⟨-, h⟩ := ite_error_eq_ok.mp h
  obtain ⟨-, h⟩ := ite_error_eq_ok.mp h
  obtain ⟨-, h⟩ := ite_error_eq_ok.mp h
  obtain ⟨-, h⟩ := ite_error_eq_ok.mp h
  cases hremove : (chain.createAccountIfNonExistent coldkey hotkey).removeBalanceFromColdkeyAccount
      rt coldkey (chain.subnets netuid).burn with
  | error e =>
      simp only [hremove] at h
      cases h
  | ok paid =>
      obtain ⟨chain₁, actualBurnAmount⟩ := paid
      simp only [hremove] at h
      cases hburn : chain₁.burnOnSubnet rt netuid actualBurnAmount with
      | error e =>
          rw [hburn] at h
          cases h
      | ok chain₂ =>
          rw [hburn] at h
          cases h
          obtain ⟨-, hpaid⟩ := moves_removeBalance hexact hremove
          obtain ⟨currency, rfl⟩ := removeBalance_frame hremove
          have hdyn₁ : ((chain.createAccountIfNonExistent coldkey hotkey).setCurrency
              currency).isDynamic netuid = true := by
            show (chain.createAccountIfNonExistent coldkey hotkey).isDynamic netuid = true
            rw [createAccountIfNonExistent_isDynamic]
            exact hdyn
          have hburned := burnOnSubnet_moves hdyn₁ hburn
          have hcreate : Moves rt chain (chain.createAccountIfNonExistent coldkey hotkey) 0 0 :=
            moves_of_ledger_eq createAccountIfNonExistent_ledger
          have hboth := (hcreate.none_then hpaid).trans hburned
          rw [neg_add_cancel, add_zero] at hboth
          exact hboth.then_none (moves_of_ledger_eq rfl)

/-! ## Registration of a network -/

omit [DecidableEq A] in
/-- The lock covers the TAO of the pool. -/
theorem networkMinLockCost_le_getNetworkLockCost :
    chain.networkLock.networkMinLockCost.val ≤ (chain.getNetworkLockCost rt).val := by
  unfold getNetworkLockCost
  extract_lets lock mult decay lockCost
  split_ifs with hlt
  · exact le_rfl
  · exact not_lt.mp hlt

omit [DecidableEq A] in
/-- The pool is counted as stake and the rest leaves the issuance. -/
theorem splitLock_moves {lock pool : U64} (hle : pool.val ≤ lock.val) :
    Moves rt chain (chain.splitLock lock pool) pool.val (pool.val - lock.val) := by
  have hrest : ((lock.satSub pool).val : ℤ) = lock.val - pool.val := Nat.cast_sub hle
  have hburn : Moves rt chain
      (if 0 < (lock.satSub pool).val then chain.burnTokens (lock.satSub pool) else chain) 0
      (pool.val - lock.val) := by
    split_ifs with hpos
    · have h : Moves rt chain (chain.burnTokens (lock.satSub pool)) 0 (-(lock.satSub pool).val) :=
        moves_subIssuance _
      rwa [hrest, neg_sub] at h
    · have hzero : (pool.val : ℤ) - lock.val = 0 := by
        rw [← neg_sub, ← hrest, Nat.eq_zero_of_not_pos hpos]
        rfl
      rw [hzero]
      exact .refl chain
  unfold splitLock
  extract_lets rest chain₁
  by_cases hboth : 0 < lock.val ∧ 0 < pool.val
  · rw [if_pos hboth]
    have h := hburn.trans (moves_addStake pool)
    rwa [zero_add, add_zero] at h
  · rw [if_neg hboth]
    -- the pool is empty, as it is not larger than the lock
    have hpool : pool.val = 0 := by omega
    rw [hpool, Nat.cast_zero] at hburn ⊢
    exact hburn

theorem createNetwork_moves {mechid : U16} {lock : U64}
    (hle : chain.networkLock.networkMinLockCost.val ≤ lock.val) :
    Moves rt chain (chain.createNetwork defaultTempo netuid coldkey hotkey mechid lock)
      chain.networkLock.networkMinLockCost.val
      (chain.networkLock.networkMinLockCost.val - lock.val) := by
  unfold createNetwork
  extract_lets lockBefore chain₁ chain₂ pool
  have hlock : chain₂.networkLock = chain₁.networkLock := createAccountIfNonExistent_networkLock
  have hpool : pool = chain.networkLock.networkMinLockCost := by
    show chain₂.networkLock.networkMinLockCost = _
    rw [hlock]
  have hledger : (chain₂.setCreationTerms netuid coldkey hotkey mechid pool).ledger =
      chain.ledger := createAccountIfNonExistent_ledger
  rw [hpool] at hledger ⊢
  exact (moves_of_ledger_eq hledger).none_then (splitLock_moves hle)

theorem doRegisterNetwork_ok {mechid : U16} {identity : Option SubnetIdentity}
    (h : chain.doRegisterNetwork rt defaultTempo coldkey hotkey mechid identity =
      some (.ok chain')) :
    ∃ netuid chain₁ lock,
      chain.getNextNetuid = some netuid ∧
        chain.removeBalanceFromColdkeyAccount rt coldkey (chain.getNetworkLockCost rt) =
          .ok (chain₁, lock) ∧
        chain' = chain₁.createNetwork defaultTempo netuid coldkey hotkey mechid lock := by
  unfold doRegisterNetwork at h
  obtain ⟨-, h⟩ := ite_some_error_eq_ok.mp h
  obtain ⟨-, h⟩ := ite_some_error_eq_ok.mp h
  obtain ⟨-, h⟩ := ite_some_error_eq_ok.mp h
  obtain ⟨-, h⟩ := ite_some_error_eq_ok.mp h
  obtain ⟨netuid, hnetuid, h⟩ := Option.map_eq_some_iff.mp h
  cases hremove : chain.removeBalanceFromColdkeyAccount rt coldkey
      (chain.getNetworkLockCost rt) with
  | error e =>
      simp only [hremove] at h
      cases h
  | ok paid =>
      obtain ⟨chain₁, lock⟩ := paid
      refine ⟨netuid, chain₁, lock, hnetuid, rfl, ?_⟩
      simp only [hremove] at h
      cases identity with
      | none => exact (Except.ok.inj h).symm
      | some identity =>
          simp only at h
          split_ifs at h
          exact (Except.ok.inj h).symm

theorem doRegisterNetwork_moves (hexact : rt.currency.Exact) {mechid : U16}
    {identity : Option SubnetIdentity}
    (h : chain.doRegisterNetwork rt defaultTempo coldkey hotkey mechid identity =
      some (.ok chain')) :
    ∃ v, Moves rt chain chain' v v := by
  obtain ⟨netuid, chain₁, lock, -, hremove, rfl⟩ := doRegisterNetwork_ok h
  obtain ⟨hlock, hpaid⟩ := moves_removeBalance hexact hremove
  obtain ⟨currency, rfl⟩ := removeBalance_frame hremove
  have hle : chain.networkLock.networkMinLockCost.val ≤ lock.val := by
    rw [hlock]
    exact networkMinLockCost_le_getNetworkLockCost
  have hcreate : Moves rt (chain.setCurrency currency)
      ((chain.setCurrency currency).createNetwork defaultTempo netuid coldkey hotkey mechid lock)
      chain.networkLock.networkMinLockCost.val
      (chain.networkLock.networkMinLockCost.val - lock.val) := createNetwork_moves hle
  have hboth := hpaid.trans hcreate
  rw [zero_add, neg_add_eq_sub] at hboth
  exact ⟨_, hboth⟩

/-! ## Key swaps -/

omit [DecidableEq A] in
/-- The cost of a key swap leaves the currency and the issuance. -/
theorem paySwapCost_moves (hexact : rt.currency.Exact) {cost : U64} {error : Error}
    (h : chain.paySwapCost rt coldkey cost error = .ok chain') :
    Moves rt chain chain' (-cost.val) (-cost.val) := by
  unfold paySwapCost at h
  obtain ⟨-, h⟩ := ite_error_eq_ok.mp h
  cases hremove : chain.removeBalanceFromColdkeyAccount rt coldkey cost with
  | error e =>
      rw [hremove] at h
      cases h
  | ok paid =>
      obtain ⟨chain₁, actualBurnAmount⟩ := paid
      rw [hremove] at h
      cases h
      obtain ⟨rfl, hpaid⟩ := moves_removeBalance hexact hremove
      have hboth : Moves rt chain (chain₁.burnTokens actualBurnAmount)
          (-actualBurnAmount.val + 0) (0 + -actualBurnAmount.val) :=
        hpaid.trans (moves_subIssuance actualBurnAmount)
      rwa [zero_add, add_zero] at hboth

theorem performHotkeySwapOnSubnets_ledger {oldHotkey newHotkey : A} (netuids : List NetUid) :
    (chain.performHotkeySwapOnSubnets oldHotkey newHotkey netuids).ledger = chain.ledger := by
  induction netuids generalizing chain with
  | nil => rfl
  | cons netuid netuids ih => exact ih

theorem performHotkeySwapOnAllSubnets_ledger {oldHotkey newHotkey : A}
    (h : chain.performHotkeySwapOnAllSubnets rt oldHotkey newHotkey coldkey = .ok chain') :
    chain'.ledger = chain.ledger := by
  unfold performHotkeySwapOnAllSubnets at h
  extract_lets values chain₁ chain₂ chain₃ at h
  split at h
  · cases h
  · cases h
    exact performHotkeySwapOnSubnets_ledger _

theorem swapHotkeyOnSubnet_moves (hexact : rt.currency.Exact) {oldHotkey newHotkey : A}
    (h : chain.swapHotkeyOnSubnet rt coldkey oldHotkey newHotkey netuid = .ok chain') :
    ∃ v, Moves rt chain chain' v v := by
  unfold swapHotkeyOnSubnet at h
  obtain ⟨-, h⟩ := ite_error_eq_ok.mp h
  obtain ⟨-, h⟩ := ite_error_eq_ok.mp h
  split at h
  · cases h
  · rename_i chain₁ hpay
    cases h
    exact ⟨_, (paySwapCost_moves hexact hpay).then_none (moves_of_ledger_eq rfl)⟩

theorem doSwapHotkey_moves (hexact : rt.currency.Exact) {oldHotkey newHotkey : A}
    {netuid : Option NetUid}
    (h : chain.doSwapHotkey rt coldkey oldHotkey newHotkey netuid = .ok chain') :
    ∃ v, Moves rt chain chain' v v := by
  unfold doSwapHotkey at h
  obtain ⟨-, h⟩ := ite_error_eq_ok.mp h
  obtain ⟨-, h⟩ := ite_error_eq_ok.mp h
  obtain ⟨-, h⟩ := ite_error_eq_ok.mp h
  obtain ⟨-, h⟩ := ite_error_eq_ok.mp h
  extract_lets chain₁ at h
  have hstart : Moves rt chain chain₁ 0 0 := moves_of_ledger_eq rfl
  cases netuid with
  | some netuid =>
      obtain ⟨v, hmoves⟩ := swapHotkeyOnSubnet_moves hexact h
      exact ⟨v, hstart.none_then hmoves⟩
  | none =>
      simp only at h
      split at h
      · cases h
      · rename_i chain₂ hpay
        split at h
        · cases h
        · rename_i chain₃ hswap
          cases h
          have hpaid := hstart.none_then (paySwapCost_moves hexact hpay)
          have hledger := performHotkeySwapOnAllSubnets_ledger hswap
          exact ⟨_, hpaid.then_none (moves_of_ledger_eq hledger)⟩

omit [DecidableEq A] in
/-- The balance of the old coldkey is deposited again, or stays. -/
theorem transferRemainingBalance_moves (hexact : rt.currency.Exact) {oldColdkey newColdkey : A} :
    Moves rt chain (chain.transferRemainingBalance rt oldColdkey newColdkey) 0 0 := by
  unfold transferRemainingBalance
  extract_lets remainingBalance
  by_cases hpos : 0 < remainingBalance.val
  · rw [if_pos hpos]
    cases hkill : chain.killColdkeyAccount rt oldColdkey remainingBalance with
    | error e => exact .refl chain
    | ok paid =>
        obtain ⟨chain₁, credit⟩ := paid
        obtain ⟨hcredit, hkilled⟩ := moves_killColdkey hexact hkill
        rw [← hcredit]
        have hboth : Moves rt chain
            (chain₁.addBalanceToColdkeyAccount rt newColdkey credit) (-credit.val + credit.val)
            (0 + 0) :=
          hkilled.trans (moves_addBalance hexact)
        rwa [neg_add_cancel, add_zero] at hboth
  · rw [if_neg hpos]
    exact .refl chain

theorem doSwapColdkey_moves (hexact : rt.currency.Exact) {oldColdkey newColdkey : A}
    {swapCost : U64} (h : chain.doSwapColdkey rt oldColdkey newColdkey swapCost = .ok chain') :
    ∃ v, Moves rt chain chain' v v := by
  unfold doSwapColdkey at h
  obtain ⟨-, h⟩ := ite_error_eq_ok.mp h
  obtain ⟨-, h⟩ := ite_error_eq_ok.mp h
  split at h
  · cases h
  · rename_i chain₁ hpay
    cases h
    have hstorage : Moves rt chain₁ (chain₁.swapColdkeyStorage rt oldColdkey newColdkey) 0 0 :=
      moves_of_ledger_eq rfl
    have hswap : Moves rt chain₁ (chain₁.performSwapColdkey rt oldColdkey newColdkey) 0 0 :=
      hstorage.none_then (transferRemainingBalance_moves hexact)
    have hpaid := (paySwapCost_moves hexact hpay).then_none hswap
    exact ⟨_, hpaid.then_none (moves_of_ledger_eq rfl)⟩

/-! ## All operations -/

/-- **The difference is kept.** A registration or a key swap that succeeds
leaves `TotalIssuance`, less the issuance of the currency and the total stake,
as it was. -/
theorem keyOperation_issuanceDifference (hexact : rt.currency.Exact)
    (h : KeyOperation rt defaultTempo chain chain') (hok : chain'.ledger.overflowed = false) :
    chain'.issuanceDifference rt = chain.issuanceDifference rt := by
  cases h with
  | burnedRegistration coldkey netuid hotkey hdyn h =>
      exact (doBurnedRegistration_moves hexact hdyn h).issuanceDifference_eq hok
  | registerNetwork coldkey hotkey mechid identity h =>
      obtain ⟨v, hmoves⟩ := doRegisterNetwork_moves hexact h
      exact hmoves.issuanceDifference_eq hok
  | swapHotkey coldkey oldHotkey newHotkey netuid h =>
      obtain ⟨v, hmoves⟩ := doSwapHotkey_moves hexact h
      exact hmoves.issuanceDifference_eq hok
  | swapColdkey oldColdkey newColdkey swapCost h =>
      obtain ⟨v, hmoves⟩ := doSwapColdkey_moves hexact h
      exact hmoves.issuanceDifference_eq hok

/-- A small chain on which a network may be registered, and a hotkey swapped
on one subnet. -/
def lateChain : Chain ℕ (Balances ℕ) (SwapStorage ℕ) := { smallChain with block := .sat 80000 }

/-- The burn of a million RAO, the lock of a tenth of a TAO, and the costs of
key swaps. -/
theorem keyOperation_issuanceDifference_lateChain :
    (∃ chain', lateChain.doBurnedRegistration runtime 10 (.sat 1) 5 = .ok chain' ∧
        chain'.issuanceDifference runtime = lateChain.issuanceDifference runtime) ∧
      (∃ chain', lateChain.doRegisterNetwork runtime (.sat 360) 10 5 (.sat 1) none =
          some (.ok chain') ∧
        chain'.issuanceDifference runtime = lateChain.issuanceDifference runtime) ∧
      (∃ chain', lateChain.doSwapHotkey runtime 10 1 7 none = .ok chain' ∧
        chain'.issuanceDifference runtime = lateChain.issuanceDifference runtime) ∧
      (∃ chain', lateChain.doSwapHotkey runtime 10 1 7 (some (.sat 1)) = .ok chain' ∧
        chain'.issuanceDifference runtime = lateChain.issuanceDifference runtime) ∧
      ∃ chain', lateChain.doSwapColdkey runtime 10 11 (.sat 100000000) = .ok chain' ∧
        chain'.issuanceDifference runtime = lateChain.issuanceDifference runtime := by
  have hburned : (lateChain.doBurnedRegistration runtime 10 (.sat 1) 5).toOption.map
      (fun chain => chain.ledger.overflowed) = some false := by
    decide +kernel
  have hnetwork : (lateChain.doRegisterNetwork runtime (.sat 360) 10 5 (.sat 1) none).bind
      (fun result => result.toOption.map fun chain => chain.ledger.overflowed) = some false := by
    decide +kernel
  have hhotkey : ∀ netuid ∈ [none, some (.sat 1)],
      (lateChain.doSwapHotkey runtime 10 1 7 netuid).toOption.map
        (fun chain => chain.ledger.overflowed) = some false := by
    decide +kernel
  have hcoldkey : (lateChain.doSwapColdkey runtime 10 11 (.sat 100000000)).toOption.map
      (fun chain => chain.ledger.overflowed) = some false := by
    decide +kernel
  obtain ⟨c₁, h₁, hok₁⟩ := exists_ok_of_toOption_map hburned
  obtain ⟨result, hresult, hnetwork⟩ := Option.bind_eq_some_iff.mp hnetwork
  obtain ⟨c₂, rfl, hok₂⟩ := exists_ok_of_toOption_map hnetwork
  obtain ⟨c₃, h₃, hok₃⟩ := exists_ok_of_toOption_map (hhotkey none (by simp))
  obtain ⟨c₄, h₄, hok₄⟩ := exists_ok_of_toOption_map (hhotkey (some (.sat 1)) (by simp))
  obtain ⟨c₅, h₅, hok₅⟩ := exists_ok_of_toOption_map hcoldkey
  have hop : ∀ chain', KeyOperation runtime (.sat 360) lateChain chain' →
      chain'.ledger.overflowed = false →
        chain'.issuanceDifference runtime = lateChain.issuanceDifference runtime :=
    fun _ h hok => keyOperation_issuanceDifference balances_exact h hok
  exact ⟨⟨c₁, h₁, hop c₁ (.burnedRegistration 10 (.sat 1) 5 rfl h₁) hok₁⟩,
    ⟨c₂, hresult, hop c₂ (.registerNetwork 10 5 (.sat 1) none hresult) hok₂⟩,
    ⟨c₃, h₃, hop c₃ (.swapHotkey 10 1 7 none h₃) hok₃⟩,
    ⟨c₄, h₄, hop c₄ (.swapHotkey 10 1 7 (some (.sat 1)) h₄) hok₄⟩,
    ⟨c₅, h₅, hop c₅ (.swapColdkey 10 11 (.sat 100000000) h₅) hok₅⟩⟩

end Subtensor.Chain
