import Subtensor.Pallet.Balance

/-!
# What moves the ledger

The equation that `check_total_issuance` verifies is about two numbers: what
the chain accounts for, which is the issuance of the currency and the total
stake, and `TotalIssuance`. `Moves` says by how much an operation moves each
of them; movements add up along a computation, as long as no counter was
clamped.
-/

namespace Subtensor

open Lib

variable {A B P : Type}

/-- The issuance of the currency and the total stake. -/
def Ledger.accounted (currency : Currency A B) (ledger : Ledger B) : ℤ :=
  currency.totalIssuance ledger.currency + ledger.totalStake.val

namespace Chain

def accounted (rt : Runtime A B P) (chain : Chain A B P) : ℤ := chain.ledger.accounted rt.currency

/-- What `check_total_issuance` checks, without the tolerance. -/
def IssuanceBalanced (rt : Runtime A B P) (chain : Chain A B P) : Prop :=
  (chain.ledger.totalIssuance.val : ℤ) = chain.accounted rt

/-- The accounted TAO moves by `value` and `TotalIssuance` by `issuance`,
unless something overflowed on the way. -/
def Moves (rt : Runtime A B P) (chain chain' : Chain A B P) (value issuance : ℤ) : Prop :=
  chain'.ledger.overflowed = false →
    chain.ledger.overflowed = false ∧
      chain'.accounted rt = chain.accounted rt + value ∧
      (chain'.ledger.totalIssuance.val : ℤ) = chain.ledger.totalIssuance.val + issuance

variable {rt : Runtime A B P} {chain chain₁ chain₂ chain' : Chain A B P} {v i v' i' : ℤ}
  {coldkey : A} {amount credit : U64}

/-- An operation that leaves the ledger alone moves nothing. -/
theorem moves_of_ledger_eq (h : chain'.ledger = chain.ledger) : Moves rt chain chain' 0 0 := by
  intro hok
  unfold accounted
  rw [h] at hok ⊢
  exact ⟨hok, (add_zero _).symm, (add_zero _).symm⟩

theorem Moves.refl (chain : Chain A B P) : Moves rt chain chain 0 0 := moves_of_ledger_eq rfl

theorem Moves.trans (h₁ : Moves rt chain chain₁ v i) (h₂ : Moves rt chain₁ chain₂ v' i') :
    Moves rt chain chain₂ (v + v') (i + i') := by
  intro hok
  obtain ⟨hok₁, hvalue₂, hissuance₂⟩ := h₂ hok
  obtain ⟨hok₀, hvalue₁, hissuance₁⟩ := h₁ hok₁
  exact ⟨hok₀, by rw [hvalue₂, hvalue₁, add_assoc], by rw [hissuance₂, hissuance₁, add_assoc]⟩

theorem Moves.then_none (h₁ : Moves rt chain chain₁ v i) (h₂ : Moves rt chain₁ chain₂ 0 0) :
    Moves rt chain chain₂ v i := by
  have h := h₁.trans h₂
  rwa [add_zero, add_zero] at h

theorem Moves.none_then (h₁ : Moves rt chain chain₁ 0 0) (h₂ : Moves rt chain₁ chain₂ v i) :
    Moves rt chain chain₂ v i := by
  have h := h₁.trans h₂
  rwa [zero_add, zero_add] at h

/-- An operation that moves both alike keeps the ledger balanced. -/
theorem Moves.issuanceBalanced (h : Moves rt chain chain' v v)
    (hok : chain'.ledger.overflowed = false) (hbalanced : chain.IssuanceBalanced rt) :
    chain'.IssuanceBalanced rt := by
  obtain ⟨-, hvalue, hissuance⟩ := h hok
  unfold IssuanceBalanced at hbalanced ⊢
  rw [hvalue, hissuance, hbalanced]

/-! ## Counters -/

theorem moves_note (overflow : Bool) :
    Moves rt chain (chain.withLedger (·.note overflow)) 0 0 := by
  intro hok
  obtain ⟨hok', -⟩ := Bool.or_eq_false_iff.mp hok
  exact ⟨hok', (add_zero _).symm, (add_zero _).symm⟩

theorem moves_addStake (tao : U64) :
    Moves rt chain (chain.withLedger (·.addStake tao)) tao.val 0 := by
  intro hok
  obtain ⟨hok', hlt⟩ := Bool.or_eq_false_iff.mp hok
  have hval : (chain.ledger.totalStake.satAdd tao).val = chain.ledger.totalStake.val + tao.val :=
    Word.val_satAdd_of_lt (not_le.mp (of_decide_eq_false hlt))
  refine ⟨hok', ?_, (add_zero _).symm⟩
  show (_ : ℤ) + ((chain.ledger.totalStake.satAdd tao).val : ℤ) = _ + _ + _
  rw [hval, Nat.cast_add]
  exact (add_assoc _ _ _).symm

theorem moves_subStake (tao : U64) :
    Moves rt chain (chain.withLedger (·.subStake tao)) (-tao.val) 0 := by
  intro hok
  obtain ⟨hok', hlt⟩ := Bool.or_eq_false_iff.mp hok
  have hle : tao.val ≤ chain.ledger.totalStake.val := not_lt.mp (of_decide_eq_false hlt)
  refine ⟨hok', ?_, (add_zero _).symm⟩
  show (_ : ℤ) + ((chain.ledger.totalStake.val - tao.val : ℕ) : ℤ) = _ + _ + _
  rw [Nat.cast_sub hle, sub_eq_add_neg]
  exact (add_assoc _ _ _).symm

theorem moves_addIssuance (tao : U64) :
    Moves rt chain (chain.withLedger (·.addIssuance tao)) 0 tao.val := by
  intro hok
  obtain ⟨hok', hlt⟩ := Bool.or_eq_false_iff.mp hok
  have hval : (chain.ledger.totalIssuance.satAdd tao).val =
      chain.ledger.totalIssuance.val + tao.val :=
    Word.val_satAdd_of_lt (not_le.mp (of_decide_eq_false hlt))
  refine ⟨hok', (add_zero _).symm, ?_⟩
  show ((chain.ledger.totalIssuance.satAdd tao).val : ℤ) = _
  rw [hval, Nat.cast_add]

theorem moves_subIssuance (tao : U64) :
    Moves rt chain (chain.withLedger (·.subIssuance tao)) 0 (-tao.val) := by
  intro hok
  obtain ⟨hok', hlt⟩ := Bool.or_eq_false_iff.mp hok
  have hle : tao.val ≤ chain.ledger.totalIssuance.val := not_lt.mp (of_decide_eq_false hlt)
  refine ⟨hok', (add_zero _).symm, ?_⟩
  show ((chain.ledger.totalIssuance.val - tao.val : ℕ) : ℤ) = _
  rw [Nat.cast_sub hle, sub_eq_add_neg]

/-! ## Balances -/

theorem moves_addBalance (hexact : rt.currency.Exact) :
    Moves rt chain (chain.addBalanceToColdkeyAccount rt coldkey amount) amount.val 0 := by
  intro hok
  refine ⟨hok, ?_, (add_zero _).symm⟩
  have h : (chain.addBalanceToColdkeyAccount rt coldkey amount).currencyIssuance rt =
      chain.currencyIssuance rt + amount.val :=
    addBalance_currencyIssuance hexact
  show ((chain.addBalanceToColdkeyAccount rt coldkey amount).currencyIssuance rt : ℤ) + _ = _
  rw [h, Nat.cast_add]
  exact add_right_comm _ _ _

theorem moves_settleWithdrawal {withdrawal : Option (B × U64)}
    (hframe : chain.settleWithdrawal amount withdrawal = .ok (chain', credit))
    (hexact : chain'.currencyIssuance rt + amount.val = chain.currencyIssuance rt) :
    Moves rt chain chain' (-amount.val) 0 := by
  obtain ⟨currency, rfl⟩ := settleWithdrawal_frame hframe
  intro hok
  refine ⟨hok, ?_, (add_zero _).symm⟩
  have hcast : ((chain.setCurrency currency).currencyIssuance rt : ℤ) + amount.val =
      chain.currencyIssuance rt := by
    exact_mod_cast hexact
  show ((chain.setCurrency currency).currencyIssuance rt : ℤ) + _ = chain.currencyIssuance rt + _ + _
  rw [← hcast]
  show _ + (chain.ledger.totalStake.val : ℤ) = _ + _ + chain.ledger.totalStake.val + _
  ring

theorem moves_removeBalance (hexact : rt.currency.Exact)
    (h : chain.removeBalanceFromColdkeyAccount rt coldkey amount = .ok (chain', credit)) :
    credit = amount ∧ Moves rt chain chain' (-credit.val) 0 := by
  obtain ⟨rfl, hissuance⟩ := removeBalance_exact hexact h
  exact ⟨rfl, moves_settleWithdrawal h hissuance⟩

theorem moves_killColdkey (hexact : rt.currency.Exact)
    (h : chain.killColdkeyAccount rt coldkey amount = .ok (chain', credit)) :
    credit = amount ∧ Moves rt chain chain' (-credit.val) 0 := by
  obtain ⟨rfl, hissuance⟩ := killColdkey_exact hexact h
  exact ⟨rfl, moves_settleWithdrawal h hissuance⟩

end Chain

end Subtensor
