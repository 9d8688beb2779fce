import Subtensor.Lib.Run
import Subtensor.Registry.Calls

/-!
# The deposits of identities

What is held from all accounts is the sum of the deposits of the identities,
as long as nobody gives up a deposit that was held from another account; and
identities are safe from strangers, as long as no stranger clears one.
-/

namespace Subtensor.Registry

open Lib Run

variable {A : Type} [DecidableEq A] {cfg : Config}

def totalDeposits (storage : cfg.Storage A) : ℕ :=
  StorageMap.sumBy (fun _ registration => registration.deposit.val) storage.identityOf

/-- As much is held as the identities own. -/
def Conserved (storage : cfg.Storage A) : Prop :=
  storage.balances.totalReserved = totalDeposits storage

/-- No identity is replaced or removed but by an account that can register
it. -/
def Step.Authorized (storage : cfg.Storage A) (step : Step cfg A) : Prop :=
  ∀ identified, (storage.identityOf.lookup identified).isSome →
    (apply storage step).identityOf.lookup identified ≠ storage.identityOf.lookup identified →
      match step with
      | .setIdentity canRegister who _ _ => canRegister who identified = true
      | .clearIdentity canRegister who _ => canRegister who identified = true
      | .external _ => False

/-! ## Conditions -/

/-- What the signer gives up is held from the signer. -/
def Step.ReleasesOwn (storage : cfg.Storage A) : Step cfg A → Prop
  | .setIdentity canRegister who identified info =>
      canRegister who identified = true →
        (oldDeposit storage identified).val ≤
          storage.balances.reservedOf who + (depositFor cfg info.additional.val.length).val
  | .clearIdentity _ who identified =>
      (oldDeposit storage identified).val ≤ storage.balances.reservedOf who
  | .external _ => True

/-- An identity is cleared by an account that can register it. -/
def Step.ClearsOwn (storage : cfg.Storage A) : Step cfg A → Prop
  | .clearIdentity canRegister who identified =>
      (storage.identityOf.lookup identified).isSome → canRegister who identified = true
  | _ => True

/-! ## Holds -/

theorem adjustHold_ok {balances balances' : Balances A} {who : A} {oldDeposit deposit : U64}
    (h : adjustHold balances who oldDeposit deposit = .ok balances') :
    balances'.totalReserved + oldDeposit.val = balances.totalReserved + deposit.val ↔
      oldDeposit.val ≤ balances.reservedOf who + deposit.val := by
  unfold adjustHold at h
  split at h
  · rename_i hlt
    split at h
    · cases h
    · rename_i hreserve
      cases h
      have htotal := Balances.totalReserved_of_reserve hreserve
      rw [Word.val_satSub] at htotal
      omega
  · split at h
    · cases h
      have htotal := balances.totalReserved_release who (oldDeposit.satSub deposit).val
      have hexact : balances.released who (oldDeposit.satSub deposit).val =
          (oldDeposit.satSub deposit).val ↔
        (oldDeposit.satSub deposit).val ≤ balances.reservedOf who := Balances.released_eq_iff
      have hle : balances.released who (oldDeposit.satSub deposit).val ≤
        (oldDeposit.satSub deposit).val := min_le_left _ _
      rw [Word.val_satSub] at *
      omega
    · cases h
      omega

/-! ## Calls -/

theorem setIdentity_ok {canRegister : A → A → Bool} {storage storage' : cfg.Storage A}
    {who identified : A} {info : IdentityInfo cfg.maxAdditionalFields.val}
    (h : setIdentity canRegister storage who identified info = .ok storage') :
    canRegister who identified = true ∧
      adjustHold storage.balances who (oldDeposit storage identified)
        (depositFor cfg info.additional.val.length) = .ok storage'.balances ∧
      storage'.identityOf = storage.identityOf.insert identified
        ⟨depositFor cfg info.additional.val.length, info⟩ := by
  unfold setIdentity at h
  rw [ite_error_eq_ok, not_not] at h
  obtain ⟨hcan, h⟩ := h
  rw [ite_error_eq_ok] at h
  obtain ⟨-, h⟩ := h
  dsimp only at h
  split at h
  · cases h
  · rename_i balances hbalances
    cases h
    exact ⟨hcan, hbalances, rfl⟩

theorem setIdentity_conserved_iff {canRegister : A → A → Bool} {storage storage' : cfg.Storage A}
    {who identified : A} {info : IdentityInfo cfg.maxAdditionalFields.val}
    (h : setIdentity canRegister storage who identified info = .ok storage')
    (hconserved : Conserved storage) :
    Conserved storage' ↔ (oldDeposit storage identified).val ≤
      storage.balances.reservedOf who + (depositFor cfg info.additional.val.length).val := by
  obtain ⟨-, hadjust, hidentity⟩ := setIdentity_ok h
  rw [← adjustHold_ok hadjust]
  have hsum := StorageMap.sumBy_insert_elim
    (fun _ (registration : Registration cfg.maxAdditionalFields.val) => registration.deposit.val)
    storage.identityOf identified ⟨depositFor cfg info.additional.val.length, info⟩
  have hold : (storage.identityOf.lookup identified).elim 0 (fun registration =>
      registration.deposit.val) = (oldDeposit storage identified).val := by
    unfold oldDeposit
    cases storage.identityOf.lookup identified <;> rfl
  unfold Conserved totalDeposits at hconserved ⊢
  rw [hidentity]
  dsimp only at hsum
  omega

theorem clearIdentity_conserved_iff {storage storage' : cfg.Storage A} {who identified : A}
    (h : clearIdentity storage who identified = .ok storage') (hconserved : Conserved storage) :
    Conserved storage' ↔
      (oldDeposit storage identified).val ≤ storage.balances.reservedOf who := by
  unfold clearIdentity at h
  cases hlookup : storage.identityOf.lookup identified with
  | none =>
      rw [hlookup] at h
      cases h
  | some id =>
      rw [hlookup] at h
      cases h
      have hsum := StorageMap.sumBy_erase
        (fun _ (registration : Registration cfg.maxAdditionalFields.val) =>
          registration.deposit.val) hlookup
      have htotal := storage.balances.totalReserved_release who id.totalDeposit.val
      have hle : storage.balances.released who id.totalDeposit.val ≤ id.totalDeposit.val :=
        min_le_left _ _
      have hold : oldDeposit storage identified = id.totalDeposit := by
        unfold oldDeposit
        rw [hlookup]
        rfl
      rw [hold, ← Balances.released_eq_iff]
      unfold Conserved totalDeposits at hconserved ⊢
      have hdeposit : id.totalDeposit.val = id.deposit.val := rfl
      dsimp only
      omega

/-! ## Runs -/

/-- A `set_identity` that fails for want of free balance gives up nothing, so
that the condition on it may be read for every authorized signer. -/
theorem setIdentity_error_le {canRegister : A → A → Bool} {storage : cfg.Storage A}
    {who identified : A} {info : IdentityInfo cfg.maxAdditionalFields.val} {e : Error}
    (h : setIdentity canRegister storage who identified info = .error e)
    (hcan : canRegister who identified = true) :
    (oldDeposit storage identified).val ≤
      storage.balances.reservedOf who + (depositFor cfg info.additional.val.length).val := by
  unfold setIdentity at h
  rw [if_neg (not_not.mpr hcan), if_neg (not_not.mpr info.additional.property)] at h
  dsimp only at h
  split at h
  · rename_i hadjust
    unfold adjustHold at hadjust
    split at hadjust
    · omega
    · split at hadjust <;> cases hadjust
  · cases h

theorem apply_conserved_iff {storage : cfg.Storage A} (hconserved : Conserved storage)
    (step : Step cfg A) : Conserved (apply storage step) ↔ step.ReleasesOwn storage := by
  cases step with
  | setIdentity canRegister who identified info =>
      unfold Step.ReleasesOwn
      cases h : setIdentity canRegister storage who identified info with
      | error e =>
          simp only [apply, h]
          exact iff_of_true hconserved fun hcan => setIdentity_error_le h hcan
      | ok storage' =>
          simp only [apply, h]
          rw [setIdentity_conserved_iff h hconserved]
          exact ⟨fun hle _ => hle, fun hle => hle (setIdentity_ok h).1⟩
  | clearIdentity canRegister who identified =>
      unfold Step.ReleasesOwn
      cases h : clearIdentity storage who identified with
      | error e =>
          have hnone : oldDeposit storage identified = 0 := by
            unfold clearIdentity at h
            unfold oldDeposit
            split at h
            · rename_i hlookup
              rw [hlookup]
              rfl
            · cases h
          simp only [apply, h]
          rw [hnone]
          exact iff_of_true hconserved (Nat.zero_le _)
      | ok storage' =>
          simp only [apply, h]
          exact clearIdentity_conserved_iff h hconserved
  | external free => exact iff_of_true hconserved trivial

theorem authorized_iff (storage : cfg.Storage A) (step : Step cfg A) :
    step.Authorized storage ↔ step.ClearsOwn storage := by
  cases step with
  | setIdentity canRegister who identified info =>
      refine iff_of_true ?_ trivial
      intro other _ hchange
      cases h : setIdentity canRegister storage who identified info with
      | error e =>
          simp only [apply, h] at hchange
          exact absurd rfl hchange
      | ok storage' =>
          obtain ⟨hcan, -, hidentity⟩ := setIdentity_ok h
          simp only [apply, h, hidentity] at hchange
          by_cases heq : other = identified
          · subst heq
            exact hcan
          · exact absurd (AList.lookup_insert_ne heq) hchange
  | clearIdentity canRegister who identified =>
      unfold Step.Authorized Step.ClearsOwn
      cases hlookup : storage.identityOf.lookup identified with
      | none =>
          have hsame : apply storage (.clearIdentity canRegister who identified) = storage := by
            simp only [apply, clearIdentity, hlookup]
          rw [hsame]
          refine iff_of_true (fun _ _ hchange => absurd rfl hchange) ?_
          intro hsome
          rw [hlookup] at hsome
          cases hsome
      | some id =>
          have hidentity : (apply storage (.clearIdentity canRegister who identified)).identityOf =
              storage.identityOf.erase identified := by
            simp only [apply, clearIdentity, hlookup]
          rw [hidentity]
          constructor
          · intro h _
            refine h identified (by rw [hlookup]; rfl) ?_
            rw [AList.lookup_erase, hlookup]
            rintro ⟨⟩
          · intro h other _ hchange
            by_cases heq : other = identified
            · subst heq
              exact h (by rw [hlookup]; rfl)
            · exact absurd (AList.lookup_erase_ne heq) hchange
  | external free =>
      refine iff_of_true ?_ trivial
      intro other _ hchange
      exact absurd rfl hchange

/-- **Deposits follow identities exactly while signers give up what is their
own.** In every state of a run as much is held as the identities own, and
identities change only by the hand of accounts that can register them, if and
only if every signer has as much on hold as the call releases, and clears
only identities that it can register. -/
theorem identityDeposits_run_iff (free : A → ℕ) (steps : List (Step cfg A)) :
    AllStates apply Conserved (Storage.genesis cfg free) steps ∧
        AllInputs apply (fun storage step => step.Authorized storage)
          (Storage.genesis cfg free) steps ↔
      AllInputs apply (fun storage step => step.ReleasesOwn storage)
          (Storage.genesis cfg free) steps ∧
        AllInputs apply (fun storage step => step.ClearsOwn storage)
          (Storage.genesis cfg free) steps := by
  have hstart : Conserved (Storage.genesis cfg free) := rfl
  have hconserved : AllStates apply Conserved (Storage.genesis cfg free) steps ↔ _ :=
    allStates_iff_of_step (p := Conserved) (fun _ step h => apply_conserved_iff h step) hstart
      steps
  rw [hconserved, AllInputs.congr fun storage step => authorized_iff storage step]

/-! ## A stranger clears an identity -/

def smallConfig : Config := ⟨.sat 1, .sat 100, .sat 100⟩

def blankInfo : IdentityInfo smallConfig.maxAdditionalFields.val :=
  ⟨⟨[], by decide⟩, .none, .none, .none, .none, .none, none, .none, .none⟩

def onlyItself : Bool → Bool → Bool := fun who identified => who == identified

/-- One account registers itself, and another one clears that. -/
def clearedSteps : List (Step smallConfig Bool) :=
  [.setIdentity onlyItself true true blankInfo, .clearIdentity onlyItself false true]

def clearedStorage : smallConfig.Storage Bool :=
  clearedSteps.foldl apply (Storage.genesis smallConfig fun _ => 1000)

/-- The deposit of 100 stays on hold, and the identity is gone. -/
theorem identityDeposits_run_cleared :
    ¬AllStates apply Conserved (Storage.genesis smallConfig fun _ => 1000) clearedSteps ∧
      ¬AllInputs apply (fun storage step => step.Authorized storage)
        (Storage.genesis smallConfig fun _ => 1000) clearedSteps := by
  constructor
  · rintro ⟨-, -, hlast⟩
    have hheld : clearedStorage.balances.totalReserved = totalDeposits clearedStorage := hlast
    exact absurd hheld (by decide +kernel)
  · rintro ⟨-, hclear, -⟩
    have hgone : (clearedStorage.identityOf.lookup true).isSome = false := by decide +kernel
    have hcan := hclear true (by decide +kernel) (by
      intro hsame
      have hstays := congrArg Option.isSome hsame
      exact absurd (hgone.symm.trans hstays) (by decide +kernel))
    cases hcan

end Subtensor.Registry
