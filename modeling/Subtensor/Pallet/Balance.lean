import Subtensor.Pallet.Chain

/-!
# Balances of coldkeys

The functions through which the pallet moves the balances of coldkeys
(`pallets/subtensor/src/staking/helpers.rs`, `burn_tokens`), and what they do
to the ledger when the currency is exact.
-/

namespace Subtensor

open Lib

variable {A B P : Type}

namespace Chain

def getColdkeyBalance (rt : Runtime A B P) (chain : Chain A B P) (coldkey : A) : U64 :=
  rt.currency.reducibleBalance chain.ledger.currency coldkey

def canRemoveBalanceFromColdkeyAccount (rt : Runtime A B P) (chain : Chain A B P) (coldkey : A)
    (amount : U64) : Bool :=
  amount.val ≤ (chain.getColdkeyBalance rt coldkey).val &&
    rt.currency.canWithdraw chain.ledger.currency coldkey amount

def setCurrency (chain : Chain A B P) (currency : B) : Chain A B P :=
  { chain with ledger := { chain.ledger with currency := currency } }

def addBalanceToColdkeyAccount (rt : Runtime A B P) (chain : Chain A B P) (coldkey : A)
    (amount : U64) : Chain A B P :=
  chain.setCurrency (rt.currency.deposit chain.ledger.currency coldkey amount)

/-- What a withdrawal becomes: the chain without the amount, and the amount. -/
def settleWithdrawal (chain : Chain A B P) (amount : U64) (withdrawal : Option (B × U64)) :
    Except Error (Chain A B P × U64) :=
  if amount = 0 then .ok (chain, 0)
  else match withdrawal with
  | none => .error .balanceWithdrawalError
  | some (currency, credit) =>
      if credit = 0 then .error .zeroBalanceAfterWithdrawn
      else .ok (chain.setCurrency currency, credit)

def removeBalanceFromColdkeyAccount (rt : Runtime A B P) (chain : Chain A B P) (coldkey : A)
    (amount : U64) : Except Error (Chain A B P × U64) :=
  chain.settleWithdrawal amount (rt.currency.withdraw chain.ledger.currency coldkey amount)

def killColdkeyAccount (rt : Runtime A B P) (chain : Chain A B P) (coldkey : A)
    (amount : U64) : Except Error (Chain A B P × U64) :=
  chain.settleWithdrawal amount (rt.currency.withdrawForced chain.ledger.currency coldkey amount)

def burnTokens (chain : Chain A B P) (amount : U64) : Chain A B P :=
  chain.withLedger fun ledger => ledger.subIssuance amount

/-! ## What is in the ledger -/

def currencyIssuance (rt : Runtime A B P) (chain : Chain A B P) : ℕ :=
  rt.currency.totalIssuance chain.ledger.currency

variable {rt : Runtime A B P} {chain chain' : Chain A B P} {coldkey : A} {amount credit : U64}

theorem addBalance_currencyIssuance (hexact : rt.currency.Exact) :
    (chain.addBalanceToColdkeyAccount rt coldkey amount).currencyIssuance rt =
      chain.currencyIssuance rt + amount.val :=
  hexact.deposit _ _ _

/-- A withdrawal that succeeds is nothing, or a credit of the currency. -/
theorem settleWithdrawal_ok {withdrawal : Option (B × U64)}
    (h : chain.settleWithdrawal amount withdrawal = .ok (chain', credit)) :
    (amount = 0 ∧ credit = 0 ∧ chain' = chain) ∨
      ∃ currency, withdrawal = some (currency, credit) ∧ chain' = chain.setCurrency currency := by
  unfold settleWithdrawal at h
  by_cases h0 : amount = 0
  · rw [if_pos h0] at h
    cases h
    exact Or.inl ⟨h0, rfl, rfl⟩
  · rw [if_neg h0] at h
    cases hw : withdrawal with
    | none =>
        rw [hw] at h
        cases h
    | some w =>
        obtain ⟨currency, c⟩ := w
        rw [hw] at h
        simp only at h
        split_ifs at h
        rw [Except.ok.injEq, Prod.mk.injEq] at h
        obtain ⟨rfl, rfl⟩ := h
        exact Or.inr ⟨currency, rfl, rfl⟩

theorem settleWithdrawal_frame {withdrawal : Option (B × U64)}
    (h : chain.settleWithdrawal amount withdrawal = .ok (chain', credit)) :
    ∃ currency, chain' = chain.setCurrency currency := by
  rcases settleWithdrawal_ok h with ⟨-, -, rfl⟩ | ⟨currency, -, rfl⟩
  · exact ⟨chain'.ledger.currency, rfl⟩
  · exact ⟨currency, rfl⟩

/-- An exact withdrawal takes the amount out of the currency. -/
theorem settleWithdrawal_exact {withdrawal : Option (B × U64)}
    (hexact : ∀ {b c}, withdrawal = some (b, c) →
      c = amount ∧ rt.currency.totalIssuance b + amount.val = chain.currencyIssuance rt)
    (h : chain.settleWithdrawal amount withdrawal = .ok (chain', credit)) :
    credit = amount ∧ chain'.currencyIssuance rt + amount.val = chain.currencyIssuance rt := by
  rcases settleWithdrawal_ok h with ⟨rfl, rfl, rfl⟩ | ⟨currency, hw, rfl⟩
  · exact ⟨rfl, rfl⟩
  · exact hexact hw

theorem removeBalance_frame
    (h : chain.removeBalanceFromColdkeyAccount rt coldkey amount = .ok (chain', credit)) :
    ∃ currency, chain' = chain.setCurrency currency :=
  settleWithdrawal_frame h

theorem removeBalance_exact (hexact : rt.currency.Exact)
    (h : chain.removeBalanceFromColdkeyAccount rt coldkey amount = .ok (chain', credit)) :
    credit = amount ∧ chain'.currencyIssuance rt + amount.val = chain.currencyIssuance rt :=
  settleWithdrawal_exact (fun hw => hexact.withdraw hw) h

theorem killColdkey_frame
    (h : chain.killColdkeyAccount rt coldkey amount = .ok (chain', credit)) :
    ∃ currency, chain' = chain.setCurrency currency :=
  settleWithdrawal_frame h

theorem killColdkey_exact (hexact : rt.currency.Exact)
    (h : chain.killColdkeyAccount rt coldkey amount = .ok (chain', credit)) :
    credit = amount ∧ chain'.currencyIssuance rt + amount.val = chain.currencyIssuance rt :=
  settleWithdrawal_exact (fun hw => hexact.withdrawForced hw) h

end Chain

end Subtensor
