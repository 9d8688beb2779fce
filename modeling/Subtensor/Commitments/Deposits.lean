import Subtensor.Commitments.Index
import Subtensor.Lib.Run

/-!
# The deposits of commitments

A call reserves the difference between the deposit of a commitment and the one
before it. The pass that reveals commitments deletes those of which no field
is left, and releases nothing.
-/

namespace Subtensor.Commitments

open Lib Run

variable {A : Type} [DecidableEq A] {cfg : Config}

/-- What a commitment counts for the deposits of an account. -/
def depositFrom (who : A) (key : NetUid × A) (registration : Registration cfg.maxFields.val) : ℕ :=
  if key.2 = who then registration.deposit.val else 0

/-- The deposits of the commitments of an account, on all subnets. -/
def depositsOf (storage : cfg.Storage A) (who : A) : ℕ :=
  StorageMap.sumBy (depositFrom who) storage.commitmentOf

/-- What is reserved from an account is what its commitments own. -/
def Conserved (storage : cfg.Storage A) : Prop :=
  ∀ who, storage.balances.reservedOf who = depositsOf storage who

/-! ## Setting a commitment -/

theorem adjustDeposit_ok {balances balances' : Balances A} {who : A} {oldDeposit deposit : U64}
    (h : adjustDeposit balances who oldDeposit deposit = .ok balances')
    (hle : oldDeposit.val ≤ balances.reservedOf who) :
    balances'.reservedOf = Function.update balances.reservedOf who
      (balances.reservedOf who - oldDeposit.val + deposit.val) := by
  unfold adjustDeposit at h
  split at h
  · rename_i hlt
    split at h
    · cases h
    · rename_i hreserve
      cases h
      rw [Balances.reservedOf_of_reserve hreserve, Word.val_satSub]
      congr 1
      omega
  · rename_i hnlt
    split at h
    · dsimp only at h
      rw [ite_error_eq_ok, not_not] at h
      obtain ⟨hreleased, h⟩ := h
      cases h
      rw [Balances.reservedOf_release, hreleased, Word.val_satSub]
      congr 1
      omega
    · cases h
      have heq : balances.reservedOf who - oldDeposit.val + deposit.val = balances.reservedOf who := by
        omega
      rw [heq, Function.update_eq_self]

theorem storedDeposit_le {storage : cfg.Storage A} (hconserved : Conserved storage)
    (netuid : NetUid) (who : A) :
    (storedDeposit storage (netuid, who)).val ≤ storage.balances.reservedOf who := by
  rw [hconserved who]
  unfold storedDeposit
  cases hlookup : storage.commitmentOf.lookup (netuid, who) with
  | none => exact Nat.zero_le _
  | some registration =>
      have hle := StorageMap.le_sumBy (depositFrom who) hlookup
      unfold depositFrom at hle
      rw [if_pos rfl] at hle
      exact hle

theorem setCommitment_conserved {env : Env A} {storage storage' : cfg.Storage A} {who : A}
    {netuid : NetUid} {info : CommitmentInfo cfg.maxFields.val}
    (h : setCommitment env storage who netuid info = .ok storage')
    (hconserved : Conserved storage) : Conserved storage' := by
  obtain ⟨hadjust, hcommitment, -⟩ := setCommitment_ok h
  have hreserved := adjustDeposit_ok hadjust (storedDeposit_le hconserved netuid who)
  have hle := storedDeposit_le hconserved netuid who
  intro other
  have hsum := StorageMap.sumBy_insert_elim (depositFrom other) storage.commitmentOf (netuid, who)
    ⟨depositFor cfg info.fields.val.length, env.block, info⟩
  have hother := hconserved other
  unfold depositsOf at hother ⊢
  rw [hcommitment, hreserved]
  by_cases heq : other = who
  · subst heq
    have hold : (storage.commitmentOf.lookup (netuid, other)).elim 0
        (depositFrom other (netuid, other)) =
          (storedDeposit storage (netuid, other)).val := by
      unfold storedDeposit
      cases storage.commitmentOf.lookup (netuid, other) with
      | none => rfl
      | some registration => exact if_pos rfl
    have hnew : depositFrom other (netuid, other)
        (⟨depositFor cfg info.fields.val.length, env.block, info⟩ :
          Registration cfg.maxFields.val) = (depositFor cfg info.fields.val.length).val :=
      if_pos rfl
    rw [Function.update_self]
    rw [hold, hnew] at hsum
    omega
  · have hold : (storage.commitmentOf.lookup (netuid, who)).elim 0
        (depositFrom other (netuid, who)) = 0 := by
      cases storage.commitmentOf.lookup (netuid, who) with
      | none => rfl
      | some registration => exact if_neg (Ne.symm heq)
    have hnew : depositFrom other (netuid, who)
        (⟨depositFor cfg info.fields.val.length, env.block, info⟩ :
          Registration cfg.maxFields.val) = 0 := if_neg (Ne.symm heq)
    rw [Function.update_of_ne heq]
    rw [hold, hnew] at hsum
    omega

/-! ## The pass over the index -/

/-- The deposit that is lost when the pass deletes the commitment of a key. -/
def lostDeposit (pulses : Pulses) (storage : cfg.Storage A) (who : A) (key : NetUid × A) : ℕ :=
  (storage.commitmentOf.lookup key).elim 0 fun registration =>
    if (registration.info.fields.val.filter (staysFor pulses)).isEmpty then
      depositFrom who key registration
    else 0

theorem revealCommitment_balances (timelock : Timelock) (pulses : Pulses) (block : U64)
    (storage : cfg.Storage A) (key : NetUid × A) :
    (revealCommitment timelock pulses block storage key).balances = storage.balances := by
  unfold revealCommitment
  cases storage.commitmentOf.lookup key with
  | none => rfl
  | some registration =>
      dsimp only
      split <;> rfl

theorem revealCommitment_depositsOf (timelock : Timelock) (pulses : Pulses) (block : U64)
    (storage : cfg.Storage A) (key : NetUid × A) (who : A) :
    depositsOf (revealCommitment timelock pulses block storage key) who +
      lostDeposit pulses storage who key = depositsOf storage who := by
  unfold depositsOf lostDeposit revealCommitment
  cases hlookup : storage.commitmentOf.lookup key with
  | none => rfl
  | some registration =>
      simp only [Option.elim_some, remainFields_eq]
      split
      · have herase := StorageMap.sumBy_erase_elim (depositFrom who) storage.commitmentOf key
        rw [hlookup] at herase
        exact herase
      · have hinsert := StorageMap.sumBy_insert_elim (depositFrom who) storage.commitmentOf key
          { registration with info := remainFields timelock pulses registration.info }
        rw [hlookup, add_comm (depositFrom who key _)] at hinsert
        exact Nat.add_right_cancel hinsert

theorem lostDeposit_revealCommitment (timelock : Timelock) (pulses : Pulses) (block : U64)
    (storage : cfg.Storage A) {key other : NetUid × A} (hne : other ≠ key) (who : A) :
    lostDeposit pulses (revealCommitment timelock pulses block storage key) who other =
      lostDeposit pulses storage who other := by
  unfold lostDeposit
  rw [(revealCommitment_of_ne timelock pulses block storage hne).1]

/-- What the pass takes from the deposits of an account, key by key. -/
theorem revealCommitments_depositsOf (timelock : Timelock) (pulses : Pulses) (block : U64)
    {keys : List (NetUid × A)} (hnodup : keys.Nodup) (storage : cfg.Storage A) (who : A) :
    depositsOf (keys.foldl (revealCommitment timelock pulses block) storage) who +
      (keys.map (lostDeposit pulses storage who)).sum = depositsOf storage who := by
  induction keys generalizing storage with
  | nil => rfl
  | cons key keys ih =>
      obtain ⟨hnot, hnodup⟩ := List.nodup_cons.mp hnodup
      have hrest := ih hnodup (revealCommitment timelock pulses block storage key)
      have hlost : keys.map (lostDeposit pulses
          (revealCommitment timelock pulses block storage key) who) =
            keys.map (lostDeposit pulses storage who) := by
        refine List.map_congr_left fun other hmem => ?_
        exact lostDeposit_revealCommitment timelock pulses block storage
          (ne_of_mem_of_not_mem hmem hnot) who
      have hfirst := revealCommitment_depositsOf timelock pulses block storage key who
      rw [hlost] at hrest
      rw [List.foldl_cons, List.map_cons, List.sum_cons]
      omega

theorem revealCommitments_balances (timelock : Timelock) (pulses : Pulses) (block : U64)
    (keys : List (NetUid × A)) (storage : cfg.Storage A) :
    (keys.foldl (revealCommitment timelock pulses block) storage).balances =
      storage.balances := by
  induction keys generalizing storage with
  | nil => rfl
  | cons key keys ih =>
      rw [List.foldl_cons, ih]
      exact revealCommitment_balances timelock pulses block storage key

/-- No commitment with a deposit is left without fields: of each that is
indexed, some field is not timelocked or its round has no pulse yet. -/
def KeepsCommitments (pulses : Pulses) (storage : cfg.Storage A) : Prop :=
  ∀ key ∈ storage.timelockedIndex, ∀ registration,
    storage.commitmentOf.lookup key = some registration → registration.deposit.val ≠ 0 →
      ∃ data ∈ registration.info.fields.val, staysFor pulses data = true

theorem lostDeposit_eq_zero_iff {pulses : Pulses} {storage : cfg.Storage A} {key : NetUid × A} :
    (∀ who, lostDeposit pulses storage who key = 0) ↔
      ∀ registration, storage.commitmentOf.lookup key = some registration →
        registration.deposit.val ≠ 0 →
          ∃ data ∈ registration.info.fields.val, staysFor pulses data = true := by
  unfold lostDeposit
  cases storage.commitmentOf.lookup key with
  | none => exact ⟨by rintro - registration ⟨⟩, fun _ _ => rfl⟩
  | some registration =>
      simp only [Option.elim_some, Option.some.injEq, forall_eq']
      rw [← not_imp_not, ← List.any_eq_true, not_not]
      constructor
      · intro h hany
        by_contra hne
        have := h key.2
        rw [if_pos, depositFrom, if_pos rfl] at this
        · exact hne this
        · simpa [List.filter_eq_nil_iff] using hany
      · intro h who
        split
        · rename_i hempty
          unfold depositFrom
          split
          · exact h (by simpa [List.filter_eq_nil_iff] using hempty)
          · rfl
        · rfl

theorem revealTimelockedCommitments_conserved_iff (timelock : Timelock) (pulses : Pulses)
    (block : U64) {storage : cfg.Storage A} (hconserved : Conserved storage) :
    Conserved (revealTimelockedCommitments timelock pulses block storage) ↔
      KeepsCommitments pulses storage := by
  have hnodup : storage.timelockedIndex.keys.Nodup := storage.timelockedIndex.keys_nodup
  have hsum := revealCommitments_depositsOf timelock pulses block hnodup storage
  have hzero : Conserved (revealTimelockedCommitments timelock pulses block storage) ↔
      ∀ who, (storage.timelockedIndex.keys.map (lostDeposit pulses storage who)).sum = 0 := by
    unfold Conserved revealTimelockedCommitments
    rw [revealCommitments_balances]
    refine forall_congr' fun who => ?_
    have := hsum who
    have := hconserved who
    omega
  rw [hzero]
  simp only [List.sum_eq_zero_iff, List.mem_map, forall_exists_index, and_imp,
    forall_apply_eq_imp_iff₂]
  rw [forall_comm]
  refine forall_congr' fun key => ?_
  rw [forall_comm]
  exact forall_congr' fun _ => lostDeposit_eq_zero_iff

/-! ## Runs -/

/-- The pass is over commitments that it does not delete, or that have no
deposit. -/
def Step.KeepsDeposits (storage : cfg.Storage A) : Step cfg A → Prop
  | .revealTimelockedCommitments pulses _ => KeepsCommitments pulses storage
  | _ => True

theorem apply_conserved_iff (timelock : Timelock) {storage : cfg.Storage A}
    (hconserved : Conserved storage) (step : Step cfg A) :
    Conserved (apply timelock storage step) ↔ step.KeepsDeposits storage := by
  cases step with
  | setCommitment env who netuid info =>
      refine iff_of_true ?_ trivial
      cases h : setCommitment env storage who netuid info with
      | error e => simpa only [apply, h] using hconserved
      | ok storage' => simpa only [apply, h] using setCommitment_conserved h hconserved
  | revealTimelockedCommitments pulses block =>
      exact revealTimelockedCommitments_conserved_iff timelock pulses block hconserved
  | setMaxSpace newLimit => exact iff_of_true hconserved trivial
  | external free => exact iff_of_true hconserved trivial

/-- **Deposits are conserved exactly while no commitment with a deposit is
deleted.** In every state of a run what is reserved is what the commitments
own, if and only if every pass of the run keeps the commitments with a
deposit. -/
theorem conserved_run_iff (timelock : Timelock) (free : A → ℕ) (maxSpace : U32)
    (steps : List (Step cfg A)) :
    AllStates (apply timelock) Conserved (Storage.genesis cfg free maxSpace) steps ↔
      AllInputs (apply timelock) (fun storage step => step.KeepsDeposits storage)
        (Storage.genesis cfg free maxSpace) steps := by
  have hstart : Conserved (Storage.genesis cfg free maxSpace) := fun _ => rfl
  exact allStates_iff_of_step (p := Conserved)
    (fun _ step hconserved => apply_conserved_iff timelock hconserved step) hstart steps

/-! ## A deposit that stays locked -/

def smallConfig : Config := ⟨.sat 3, .sat 100, .sat 10⟩

/-- The key opens the ciphertext, which is the text itself. -/
def openTimelock : Timelock := ⟨List U8, List U8, some, some, fun commit _ => some commit⟩

def smallEnv : Env Bool := ⟨.sat 5, fun _ _ => true, fun _ _ => 0⟩

def timelockedInfo : CommitmentInfo smallConfig.maxFields.val :=
  ⟨[.timelockEncrypted ⟨[.sat 7], by decide⟩ (.sat 9)], by decide⟩

/-- A commitment with one timelocked field is set, and revealed a block later. -/
def revealedSteps : List (Step smallConfig Bool) :=
  [.setCommitment smallEnv true (.sat 1) timelockedInfo,
    .revealTimelockedCommitments (fun _ => some ⟨[.sat 3], by decide⟩) (.sat 6)]

/-- After the reveal 110 are reserved, and there is no commitment. -/
theorem conserved_run_revealed : ¬AllStates (apply openTimelock) Conserved
    (Storage.genesis smallConfig (fun _ => 1000) (.sat 3100)) revealedSteps := by
  rintro ⟨-, -, hlast⟩
  exact absurd (hlast true) (by decide +kernel)

end Subtensor.Commitments
