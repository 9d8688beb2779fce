import Subtensor.Commitments.Calls

/-!
# The index of timelocked commitments

`TimelockedIndex` is redundant: it holds the keys of the commitments with a
timelocked field. It is written by a call, and by the pass that reveals
commitments while it iterates over a snapshot of it.
-/

namespace Subtensor.Commitments

open Lib

variable {A : Type} [DecidableEq A] {cfg : Config}

/-- The stored commitment of a key has a field that is still timelocked. -/
def HasTimelock (storage : cfg.Storage A) (key : NetUid × A) : Prop :=
  ∃ registration, storage.commitmentOf.lookup key = some registration ∧
    ∃ data ∈ registration.info.fields.val, data.isTimelockEncrypted = true

/-- The index holds the keys with a timelocked field, and no others. -/
def IndexExact (storage : cfg.Storage A) : Prop :=
  ∀ key, key ∈ storage.timelockedIndex ↔ HasTimelock storage key

theorem hasTimelock_of_lookup {storage : cfg.Storage A} {key : NetUid × A}
    {registration : Registration cfg.maxFields.val}
    (h : storage.commitmentOf.lookup key = some registration) :
    HasTimelock storage key ↔ registration.info.fields.val.any Data.isTimelockEncrypted = true := by
  rw [List.any_eq_true]
  constructor
  · rintro ⟨other, hother, hdata⟩
    rw [h] at hother
    cases hother
    exact hdata
  · intro hdata
    exact ⟨registration, h, hdata⟩

theorem not_hasTimelock_of_lookup {storage : cfg.Storage A} {key : NetUid × A}
    (h : storage.commitmentOf.lookup key = none) : ¬HasTimelock storage key := by
  rintro ⟨registration, hother, -⟩
  rw [h] at hother
  cases hother

theorem hasTimelock_congr {storage storage' : cfg.Storage A} {key : NetUid × A}
    (h : storage'.commitmentOf.lookup key = storage.commitmentOf.lookup key) :
    HasTimelock storage' key ↔ HasTimelock storage key := by
  unfold HasTimelock
  rw [h]

/-! ## Setting a commitment -/

theorem setCommitment_ok {env : Env A} {storage storage' : cfg.Storage A} {who : A}
    {netuid : NetUid} {info : CommitmentInfo cfg.maxFields.val}
    (h : setCommitment env storage who netuid info = .ok storage') :
    adjustDeposit storage.balances who (storedDeposit storage (netuid, who))
        (depositFor cfg info.fields.val.length) = .ok storage'.balances ∧
      storage'.commitmentOf = storage.commitmentOf.insert (netuid, who)
        ⟨depositFor cfg info.fields.val.length, env.block, info⟩ ∧
      storage'.timelockedIndex =
        if info.fields.val.any Data.isTimelockEncrypted then
          storage.timelockedIndex.insert (netuid, who) ()
        else storage.timelockedIndex.erase (netuid, who) := by
  unfold setCommitment at h
  rw [ite_error_eq_ok] at h
  obtain ⟨-, h⟩ := h
  rw [ite_error_eq_ok] at h
  obtain ⟨-, h⟩ := h
  dsimp only at h
  rw [ite_error_eq_ok] at h
  obtain ⟨-, h⟩ := h
  split at h
  · cases h
  · rename_i balances hbalances
    cases h
    exact ⟨hbalances, rfl, rfl⟩

theorem setCommitment_indexExact {env : Env A} {storage storage' : cfg.Storage A} {who : A}
    {netuid : NetUid} {info : CommitmentInfo cfg.maxFields.val}
    (h : setCommitment env storage who netuid info = .ok storage') (hexact : IndexExact storage) :
    IndexExact storage' := by
  obtain ⟨-, hcommitment, hindex⟩ := setCommitment_ok h
  intro key
  by_cases hkey : key = (netuid, who)
  · have hlookup : storage'.commitmentOf.lookup key =
        some ⟨depositFor cfg info.fields.val.length, env.block, info⟩ := by
      rw [hcommitment, hkey, AList.lookup_insert]
    rw [hasTimelock_of_lookup hlookup, hindex, hkey]
    split
    · simp [*]
    · simp [*]
  · have hlookup : storage'.commitmentOf.lookup key = storage.commitmentOf.lookup key := by
      rw [hcommitment, AList.lookup_insert_ne hkey]
    rw [hasTimelock_congr hlookup, ← hexact key, hindex]
    split
    · rw [AList.mem_insert]
      exact or_iff_right hkey
    · rw [AList.mem_erase]
      exact and_iff_right hkey

/-! ## The pass over the index -/

/-- A field stays unless it is timelocked and the pulse of its round is known;
whether it can be decrypted does not matter. -/
def staysFor (pulses : Pulses) : Data → Bool
  | .timelockEncrypted _ revealRound => (pulses revealRound).isNone
  | _ => true

theorem revealField_remaining (timelock : Timelock) (pulses : Pulses) (data : Data) :
    (revealField timelock pulses data).remaining =
      if staysFor pulses data then some data else none := by
  cases data with
  | timelockEncrypted encrypted revealRound =>
      cases hpulse : pulses revealRound with
      | none =>
          simp only [revealField, staysFor, hpulse]
          rfl
      | some pulse =>
          simp only [revealField, staysFor, hpulse]
          cases decryptField timelock encrypted.val pulse.val <;> rfl
  | _ => rfl

theorem remainFields_eq {n : ℕ} (timelock : Timelock) (pulses : Pulses)
    (info : CommitmentInfo n) :
    (remainFields timelock pulses info).fields.val =
      info.fields.val.filter (staysFor pulses) := by
  unfold remainFields
  dsimp only
  rw [← List.filterMap_eq_filter]
  refine List.filterMap_congr fun data _ => ?_
  rw [revealField_remaining]
  cases h : staysFor pulses data <;> simp [Option.guard, h]

theorem mem_remainFields {n : ℕ} {timelock : Timelock} {pulses : Pulses}
    {info : CommitmentInfo n} {data : Data}
    (h : data ∈ (remainFields timelock pulses info).fields.val) : data ∈ info.fields.val := by
  rw [remainFields_eq] at h
  exact (List.mem_filter.mp h).1

theorem lookup_revealCommitment (timelock : Timelock) (pulses : Pulses) (block : U64)
    (storage : cfg.Storage A) (key : NetUid × A) :
    (revealCommitment timelock pulses block storage key).commitmentOf.lookup key =
      (storage.commitmentOf.lookup key).bind fun registration =>
        let info := remainFields timelock pulses registration.info
        if info.fields.val.isEmpty then none else some { registration with info := info } := by
  unfold revealCommitment
  cases hlookup : storage.commitmentOf.lookup key with
  | none => exact hlookup
  | some registration =>
      dsimp only [Option.bind_some]
      split
      · exact AList.lookup_erase key storage.commitmentOf
      · exact AList.lookup_insert storage.commitmentOf

theorem revealCommitment_of_ne (timelock : Timelock) (pulses : Pulses) (block : U64)
    (storage : cfg.Storage A) {key other : NetUid × A} (hne : other ≠ key) :
    (revealCommitment timelock pulses block storage key).commitmentOf.lookup other =
        storage.commitmentOf.lookup other ∧
      (other ∈ (revealCommitment timelock pulses block storage key).timelockedIndex ↔
        other ∈ storage.timelockedIndex) := by
  unfold revealCommitment
  have herase : other ∈ storage.timelockedIndex.erase key ↔ other ∈ storage.timelockedIndex := by
    rw [AList.mem_erase]
    exact and_iff_right hne
  cases storage.commitmentOf.lookup key with
  | none => exact ⟨rfl, herase⟩
  | some registration =>
      dsimp only
      split
      · exact ⟨AList.lookup_erase_ne hne, herase⟩
      · refine ⟨AList.lookup_insert_ne hne, ?_⟩
        dsimp only
        split
        · exact Iff.rfl
        · exact herase

/-- The key stays in the index if a timelocked field stays. -/
theorem mem_revealCommitment (timelock : Timelock) (pulses : Pulses) (block : U64)
    (storage : cfg.Storage A) (key : NetUid × A) :
    key ∈ (revealCommitment timelock pulses block storage key).timelockedIndex ↔
      key ∈ storage.timelockedIndex ∧
        HasTimelock (revealCommitment timelock pulses block storage key) key := by
  have hlookup := lookup_revealCommitment timelock pulses block storage key
  have herase : ¬key ∈ storage.timelockedIndex.erase key := by
    rw [AList.mem_erase]
    exact fun h => h.1 rfl
  revert hlookup
  unfold revealCommitment
  cases storage.commitmentOf.lookup key with
  | none =>
      intro hlookup
      exact ⟨fun h => absurd h herase, fun h => absurd h.2 (not_hasTimelock_of_lookup hlookup)⟩
  | some registration =>
      dsimp only [Option.bind_some]
      split
      · intro hlookup
        exact ⟨fun h => absurd h herase, fun h => absurd h.2 (not_hasTimelock_of_lookup hlookup)⟩
      · intro hlookup
        rw [hasTimelock_of_lookup hlookup]
        split
        · rename_i hany
          exact (and_iff_left hany).symm
        · rename_i hany
          exact ⟨fun h => absurd h herase, fun h => absurd h.2 hany⟩

theorem revealCommitment_indexExact (timelock : Timelock) (pulses : Pulses) (block : U64)
    {storage : cfg.Storage A} (hexact : IndexExact storage) (key : NetUid × A) :
    IndexExact (revealCommitment timelock pulses block storage key) := by
  intro other
  by_cases hkey : other = key
  · subst hkey
    rw [mem_revealCommitment, hexact other]
    refine and_iff_right_of_imp ?_
    -- a timelocked field that stays was there before
    rintro ⟨registration, hlookup, data, hdata, htimelock⟩
    rw [lookup_revealCommitment] at hlookup
    obtain ⟨original, horiginal, hinfo⟩ := Option.bind_eq_some_iff.mp hlookup
    dsimp only at hinfo
    split at hinfo
    · cases hinfo
    · cases hinfo
      exact ⟨original, horiginal, data, mem_remainFields hdata, htimelock⟩
  · obtain ⟨hlookup, hmem⟩ := revealCommitment_of_ne timelock pulses block storage hkey
    rw [hmem, hasTimelock_congr hlookup]
    exact hexact other

theorem revealTimelockedCommitments_indexExact (timelock : Timelock) (pulses : Pulses) (block : U64)
    {storage : cfg.Storage A} (hexact : IndexExact storage) :
    IndexExact (revealTimelockedCommitments timelock pulses block storage) := by
  unfold revealTimelockedCommitments
  generalize storage.timelockedIndex.keys = keys
  induction keys generalizing storage with
  | nil => exact hexact
  | cons key keys ih => exact ih (revealCommitment_indexExact timelock pulses block hexact key)

/-! ## Runs -/

theorem apply_indexExact (timelock : Timelock) {storage : cfg.Storage A}
    (hexact : IndexExact storage) (step : Step cfg A) :
    IndexExact (apply timelock storage step) := by
  cases step with
  | setCommitment env who netuid info =>
      cases h : setCommitment env storage who netuid info with
      | error e => simpa only [apply, h] using hexact
      | ok storage' => simpa only [apply, h] using setCommitment_indexExact h hexact
  | revealTimelockedCommitments pulses block =>
      exact revealTimelockedCommitments_indexExact timelock pulses block hexact
  | setMaxSpace newLimit => exact hexact
  | external free => exact hexact

/-- **The index is exact.** After any run, it holds a key exactly when the
commitment of the key exists and has a timelocked field. -/
theorem indexExact_run (timelock : Timelock) (free : A → ℕ) (maxSpace : U32)
    (steps : List (Step cfg A)) :
    IndexExact (run timelock (Storage.genesis cfg free maxSpace) steps) := by
  have hstart : IndexExact (Storage.genesis cfg free maxSpace) := by
    intro key
    constructor
    · intro h
      exact absurd h (AList.notMem_empty key)
    · rintro ⟨registration, hlookup, -⟩
      rw [Storage.genesis, AList.lookup_empty] at hlookup
      cases hlookup
  unfold run
  induction steps using List.reverseRecOn with
  | nil => exact hstart
  | append_singleton steps step ih =>
      rw [List.foldl_append]
      exact apply_indexExact timelock ih step

end Subtensor.Commitments
