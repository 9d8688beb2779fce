import Subtensor.Commitments.Index
import Subtensor.Lib.Run
import Mathlib.Data.List.DropRight

/-!
# What the pass over timelocked commitments does

The pass iterates over a snapshot of the index and edits the index on the way.
Still it does the same to every account of the snapshot, whatever the order:
the fields whose round has come leave the commitment, and what could be
decrypted of them is appended to the reveals, of which the last ten are kept.
-/

namespace Subtensor.Commitments

open Lib Run

variable {A : Type} [DecidableEq A] {cfg : Config}

/-! ## Fields -/

/-- What a field reveals: the decryption, if the pulse is known, all of it can
be parsed and decrypted, and something is in it. -/
def payload (timelock : Timelock) (pulses : Pulses) : Data → Option (List U8)
  | .timelockEncrypted encrypted revealRound =>
      (pulses revealRound).bind fun pulse => decryptField timelock encrypted.val pulse.val
  | _ => none

theorem revealField_revelation (timelock : Timelock) (pulses : Pulses) (data : Data) :
    (revealField timelock pulses data).revelation = payload timelock pulses data := by
  cases data with
  | timelockEncrypted encrypted revealRound =>
      cases hpulse : pulses revealRound with
      | none =>
          simp only [revealField, payload, hpulse]
          rfl
      | some pulse =>
          simp only [revealField, payload, hpulse, Option.bind_some]
          cases decryptField timelock encrypted.val pulse.val with
          | none => rfl
          | some bytes => rfl
  | _ => rfl

theorem revealedFields_eq {n : ℕ} (timelock : Timelock) (pulses : Pulses)
    (info : CommitmentInfo n) :
    revealedFields timelock pulses info =
      info.fields.val.filterMap (payload timelock pulses) := by
  unfold revealedFields
  simp only [revealField_revelation]

theorem payload_of_staysFor {timelock : Timelock} {pulses : Pulses} {data : Data}
    (h : staysFor pulses data = true) : payload timelock pulses data = none := by
  cases data with
  | timelockEncrypted encrypted revealRound =>
      have hpulse : pulses revealRound = none := Option.isNone_iff_eq_none.mp h
      simp only [payload, hpulse, Option.bind_none]
  | _ => rfl

/-! ## Reveals -/

theorem pushReveals_nil (existing : Option (List (List U8 × U64))) (block : U64) :
    pushReveals existing [] block = existing := rfl

/-- The last ten of the old and the new reveals, if there were at most ten. -/
theorem pushReveals_getD {existing : Option (List (List U8 × U64))} (revealed : List (List U8))
    (block : U64) (hlength : (existing.getD []).length ≤ 10) :
    (pushReveals existing revealed block).getD [] =
      (existing.getD [] ++ revealed.map fun bytes => (bytes, block)).rtake 10 := by
  cases revealed with
  | nil =>
      rw [pushReveals_nil, List.map_nil, List.append_nil, List.rtake,
        Nat.sub_eq_zero_of_le hlength, List.drop_zero]
  | cons bytes rest => rfl

theorem length_pushReveals {existing : Option (List (List U8 × U64))} (revealed : List (List U8))
    (block : U64) (hlength : (existing.getD []).length ≤ 10) :
    ((pushReveals existing revealed block).getD []).length ≤ 10 := by
  rw [pushReveals_getD revealed block hlength, List.rtake, List.length_drop]
  omega

/-! ## One account -/

/-- What is stored for an account on a subnet, and whether it is indexed. -/
def accountData (storage : cfg.Storage A) (key : NetUid × A) :
    Option (Registration cfg.maxFields.val) × Option (List (List U8 × U64)) × Prop :=
  (storage.commitmentOf.lookup key, storage.revealedCommitments key,
    key ∈ storage.timelockedIndex)

def fieldsOf (storage : cfg.Storage A) (key : NetUid × A) : List Data :=
  (storage.commitmentOf.lookup key).elim [] fun registration => registration.info.fields.val

/-- What the pass leaves of an account: its fields that stay, in their order,
with the registration if there are any, and the last ten reveals. -/
structure Reveals (timelock : Timelock) (pulses : Pulses) (block : U64)
    (storage storage' : cfg.Storage A) (key : NetUid × A) : Prop where
  fields : fieldsOf storage' key = (fieldsOf storage key).filter (staysFor pulses)
  removed : fieldsOf storage' key = [] → storage'.commitmentOf.lookup key = none
  registration : ∀ registration', storage'.commitmentOf.lookup key = some registration' →
    ∃ registration, storage.commitmentOf.lookup key = some registration ∧
      registration'.deposit = registration.deposit ∧ registration'.block = registration.block
  reveals : (storage'.revealedCommitments key).getD [] =
    ((storage.revealedCommitments key).getD [] ++
      ((fieldsOf storage key).filterMap (payload timelock pulses)).map
        fun bytes => (bytes, block)).rtake 10
  indexed : key ∈ storage'.timelockedIndex ↔
    ∃ data ∈ fieldsOf storage' key, data.isTimelockEncrypted = true

section

variable {timelock : Timelock} {pulses : Pulses} {block : U64} {storage storage' : cfg.Storage A}
  {key other : NetUid × A}

theorem accountData_eq_iff {s s' : cfg.Storage A} :
    accountData s' key = accountData s key ↔
      s'.commitmentOf.lookup key = s.commitmentOf.lookup key ∧
        s'.revealedCommitments key = s.revealedCommitments key ∧
        (key ∈ s'.timelockedIndex ↔ key ∈ s.timelockedIndex) := by
  unfold accountData
  rw [Prod.mk.injEq, Prod.mk.injEq, eq_iff_iff]

theorem revealCommitment_revealedCommitments (timelock : Timelock) (pulses : Pulses) (block : U64)
    (storage : cfg.Storage A) (key : NetUid × A) :
    (revealCommitment timelock pulses block storage key).revealedCommitments =
      Function.update storage.revealedCommitments key
        (pushReveals (storage.revealedCommitments key)
          ((fieldsOf storage key).filterMap (payload timelock pulses)) block) := by
  unfold revealCommitment fieldsOf
  cases storage.commitmentOf.lookup key with
  | none =>
      rw [Option.elim_none, List.filterMap_nil, pushReveals_nil, Function.update_eq_self]
  | some registration =>
      rw [Option.elim_some, ← revealedFields_eq]
      dsimp only
      split
      · rfl
      · rfl

theorem accountData_revealCommitment_of_ne (storage : cfg.Storage A) (key other : NetUid × A)
    (hne : other ≠ key) :
    accountData (revealCommitment timelock pulses block storage key) other =
      accountData storage other := by
  obtain ⟨hlookup, hmem⟩ := revealCommitment_of_ne timelock pulses block storage hne
  refine accountData_eq_iff.mpr ⟨hlookup, ?_, hmem⟩
  rw [revealCommitment_revealedCommitments, Function.update_of_ne hne]

theorem fieldsOf_revealCommitment (storage : cfg.Storage A) (key : NetUid × A) :
    fieldsOf (revealCommitment timelock pulses block storage key) key =
      (fieldsOf storage key).filter (staysFor pulses) := by
  unfold fieldsOf
  rw [lookup_revealCommitment]
  cases storage.commitmentOf.lookup key with
  | none => rfl
  | some registration =>
      rw [Option.bind_some, Option.elim_some, ← remainFields_eq timelock]
      dsimp only
      split
      · rename_i hempty
        rw [List.isEmpty_iff.mp hempty]
        rfl
      · rfl

theorem hasTimelock_iff {storage : cfg.Storage A} :
    HasTimelock storage key ↔ ∃ data ∈ fieldsOf storage key, data.isTimelockEncrypted = true := by
  unfold HasTimelock fieldsOf
  cases storage.commitmentOf.lookup key with
  | none => simp
  | some registration => simp

theorem revealCommitment_reveals (hmem : key ∈ storage.timelockedIndex)
    (hlength : ((storage.revealedCommitments key).getD []).length ≤ 10) :
    Reveals timelock pulses block storage (revealCommitment timelock pulses block storage key)
      key where
  fields := fieldsOf_revealCommitment storage key
  removed := by
    intro hnone
    cases hlookup : (revealCommitment timelock pulses block storage key).commitmentOf.lookup key with
    | none => rfl
    | some registration' =>
        unfold fieldsOf at hnone
        rw [hlookup, Option.elim_some] at hnone
        rw [lookup_revealCommitment] at hlookup
        obtain ⟨registration, -, hkept⟩ := Option.bind_eq_some_iff.mp hlookup
        dsimp only at hkept
        split at hkept
        · cases hkept
        · rename_i hsome
          cases hkept
          exact absurd (List.isEmpty_iff.mpr hnone) hsome
  registration := by
    intro registration' hlookup
    rw [lookup_revealCommitment] at hlookup
    obtain ⟨registration, hregistration, hkept⟩ := Option.bind_eq_some_iff.mp hlookup
    dsimp only at hkept
    split at hkept
    · cases hkept
    · cases hkept
      exact ⟨registration, hregistration, rfl, rfl⟩
  reveals := by
    rw [revealCommitment_revealedCommitments, Function.update_self]
    exact pushReveals_getD _ block hlength
  indexed := by
    rw [mem_revealCommitment, hasTimelock_iff]
    exact and_iff_right hmem

/-- The specification looks at nothing but the data of the account. -/
theorem Reveals.congr {s s' t t' : cfg.Storage A} (hs : accountData t key = accountData s key)
    (hs' : accountData t' key = accountData s' key)
    (h : Reveals timelock pulses block s s' key) : Reveals timelock pulses block t t' key := by
  obtain ⟨hlookup, hreveals, -⟩ := accountData_eq_iff.mp hs
  obtain ⟨hlookup', hreveals', hmem'⟩ := accountData_eq_iff.mp hs'
  have hfields : fieldsOf t key = fieldsOf s key := by rw [fieldsOf, hlookup, fieldsOf]
  have hfields' : fieldsOf t' key = fieldsOf s' key := by rw [fieldsOf, hlookup', fieldsOf]
  refine ⟨?_, ?_, ?_, ?_, ?_⟩
  · rw [hfields, hfields', h.fields]
  · rw [hfields', hlookup']
    exact h.removed
  · rw [hlookup, hlookup']
    exact h.registration
  · rw [hreveals, hreveals', hfields, h.reveals]
  · rw [hmem', hfields', h.indexed]

end

/-! ## The pass -/

section

variable {timelock : Timelock} {pulses : Pulses} {block : U64} {storage : cfg.Storage A}

/-- What the pass does not write. -/
structure SameElsewhere (storage storage' : cfg.Storage A) : Prop where
  balances : storage'.balances = storage.balances
  lastCommitment : storage'.lastCommitment = storage.lastCommitment
  lastBondsReset : storage'.lastBondsReset = storage.lastBondsReset
  usedSpaceOf : storage'.usedSpaceOf = storage.usedSpaceOf
  maxSpace : storage'.maxSpace = storage.maxSpace

/-- Two storages in which nobody can tell a difference: they may differ in the
order of the entries of a map. -/
structure Agree (storage storage' : cfg.Storage A) : Prop where
  accounts : ∀ key, accountData storage' key = accountData storage key
  elsewhere : SameElsewhere storage storage'

theorem revealCommitment_sameElsewhere (storage : cfg.Storage A) (key : NetUid × A) :
    SameElsewhere storage (revealCommitment timelock pulses block storage key) := by
  unfold revealCommitment
  split
  · exact ⟨rfl, rfl, rfl, rfl, rfl⟩
  · dsimp only
    split
    · exact ⟨rfl, rfl, rfl, rfl, rfl⟩
    · exact ⟨rfl, rfl, rfl, rfl, rfl⟩

theorem revealTimelockedCommitments_sameElsewhere (storage : cfg.Storage A) :
    SameElsewhere storage (revealTimelockedCommitments timelock pulses block storage) := by
  unfold revealTimelockedCommitments
  generalize storage.timelockedIndex.keys = keys
  induction keys generalizing storage with
  | nil => exact ⟨rfl, rfl, rfl, rfl, rfl⟩
  | cons key keys ih =>
      obtain ⟨h₁, h₂, h₃, h₄, h₅⟩ := ih (revealCommitment timelock pulses block storage key)
      have hstep : SameElsewhere storage (revealCommitment timelock pulses block storage key) :=
        revealCommitment_sameElsewhere storage key
      exact ⟨h₁.trans hstep.balances, h₂.trans hstep.lastCommitment,
        h₃.trans hstep.lastBondsReset, h₄.trans hstep.usedSpaceOf, h₅.trans hstep.maxSpace⟩

theorem accountData_pass_of_notMem {key : NetUid × A} (hkey : key ∉ storage.timelockedIndex) :
    accountData (revealTimelockedCommitments timelock pulses block storage) key =
      accountData storage key :=
  view_foldl_of_notMem accountData_revealCommitment_of_ne hkey storage

/-- For an indexed account the pass does what its iteration does. -/
theorem accountData_pass_of_mem {key : NetUid × A} (hkey : key ∈ storage.timelockedIndex) :
    ∃ mid, accountData mid key = accountData storage key ∧
      accountData (revealTimelockedCommitments timelock pulses block storage) key =
        accountData (revealCommitment timelock pulses block mid key) key :=
  view_foldl_of_mem accountData_revealCommitment_of_ne storage.timelockedIndex.keys_nodup hkey
    storage

theorem revealTimelockedCommitments_reveals {key : NetUid × A}
    (hkey : key ∈ storage.timelockedIndex)
    (hlength : ((storage.revealedCommitments key).getD []).length ≤ 10) :
    Reveals timelock pulses block storage
      (revealTimelockedCommitments timelock pulses block storage) key := by
  obtain ⟨mid, hmid, hpass⟩ := accountData_pass_of_mem hkey
  obtain ⟨-, hreveals, hmem⟩ := accountData_eq_iff.mp hmid
  have hstep : Reveals timelock pulses block mid
      (revealCommitment timelock pulses block mid key) key :=
    revealCommitment_reveals (hmem.mpr hkey) (hreveals ▸ hlength)
  exact hstep.congr hmid.symm hpass

/-- Fields that all stay stay as they are. -/
theorem remainFields_of_stays {n : ℕ} {info : CommitmentInfo n}
    (hstays : ∀ data ∈ info.fields.val, staysFor pulses data = true) :
    remainFields timelock pulses info = info := by
  have hfields : (remainFields timelock pulses info).fields = info.fields := by
    apply Subtype.ext
    rw [remainFields_eq, List.filter_eq_self.mpr hstays]
  cases info
  exact congrArg CommitmentInfo.mk hfields

/-- An iteration that finds only fields that stay changes nothing. -/
theorem accountData_revealCommitment_of_stays {key : NetUid × A}
    (htimelock : HasTimelock storage key)
    (hstays : ∀ data ∈ fieldsOf storage key, staysFor pulses data = true) :
    accountData (revealCommitment timelock pulses block storage key) key =
      accountData storage key := by
  obtain ⟨registration, hlookup, data, hdata, hlocked⟩ := htimelock
  have hfields : fieldsOf storage key = registration.info.fields.val := by
    rw [fieldsOf, hlookup, Option.elim_some]
  have hkept : (revealCommitment timelock pulses block storage key).commitmentOf.lookup key =
      storage.commitmentOf.lookup key := by
    rw [lookup_revealCommitment, hlookup, Option.bind_some,
      remainFields_of_stays (hfields ▸ hstays), if_neg]
    exact fun hempty => List.ne_nil_of_mem hdata (List.isEmpty_iff.mp hempty)
  refine accountData_eq_iff.mpr ⟨hkept, ?_, ?_⟩
  · have hnone : (fieldsOf storage key).filterMap (payload timelock pulses) = [] := by
      rw [List.filterMap_eq_nil_iff]
      exact fun data hdata => payload_of_staysFor (hstays data hdata)
    rw [revealCommitment_revealedCommitments, hnone, pushReveals_nil, Function.update_self]
  · rw [mem_revealCommitment]
    exact and_iff_left ((hasTimelock_congr hkept).mpr ⟨registration, hlookup, data, hdata, hlocked⟩)

/-- A second pass finds nothing to do. -/
theorem revealTimelockedCommitments_agree (hexact : IndexExact storage)
    (hlength : ∀ key, ((storage.revealedCommitments key).getD []).length ≤ 10) :
    Agree (revealTimelockedCommitments timelock pulses block storage)
      (revealTimelockedCommitments timelock pulses block
        (revealTimelockedCommitments timelock pulses block storage)) := by
  refine ⟨?_, revealTimelockedCommitments_sameElsewhere _⟩
  intro key
  have hexact' : IndexExact (revealTimelockedCommitments timelock pulses block storage) :=
    revealTimelockedCommitments_indexExact timelock pulses block hexact
  by_cases hkey : key ∈ (revealTimelockedCommitments timelock pulses block storage).timelockedIndex
  · -- it was indexed before the first pass too, so what is left of it stays
    have hbefore : key ∈ storage.timelockedIndex := by
      by_contra hnot
      have hsame : accountData (revealTimelockedCommitments timelock pulses block storage) key =
        accountData storage key := accountData_pass_of_notMem hnot
      exact hnot ((accountData_eq_iff.mp hsame).2.2.mp hkey)
    have hstays : ∀ data ∈ fieldsOf (revealTimelockedCommitments timelock pulses block storage) key,
        staysFor pulses data = true := by
      intro data hdata
      rw [(revealTimelockedCommitments_reveals hbefore (hlength key)).fields] at hdata
      exact (List.mem_filter.mp hdata).2
    generalize revealTimelockedCommitments timelock pulses block storage = passed at *
    obtain ⟨mid, hmid, hpass⟩ : ∃ mid, accountData mid key = accountData passed key ∧
        accountData (revealTimelockedCommitments timelock pulses block passed) key =
          accountData (revealCommitment timelock pulses block mid key) key :=
      accountData_pass_of_mem hkey
    obtain ⟨hlookup, -, -⟩ := accountData_eq_iff.mp hmid
    have hmidFields : fieldsOf mid key = fieldsOf passed key := by
      rw [fieldsOf, hlookup, fieldsOf]
    have hmidLocked : HasTimelock mid key :=
      (hasTimelock_congr hlookup).mpr ((hexact' key).mp hkey)
    refine hpass.trans (Eq.trans ?_ hmid)
    exact accountData_revealCommitment_of_stays hmidLocked (hmidFields ▸ hstays)
  · exact accountData_pass_of_notMem hkey

end

/-! ## Runs -/

/-- At most ten reveals are kept of an account. -/
def RevealsBounded (storage : cfg.Storage A) : Prop :=
  ∀ key, ((storage.revealedCommitments key).getD []).length ≤ 10

theorem setCommitment_revealedCommitments {env : Env A} {storage storage' : cfg.Storage A} {who : A}
    {netuid : NetUid} {info : CommitmentInfo cfg.maxFields.val}
    (h : setCommitment env storage who netuid info = .ok storage') :
    storage'.revealedCommitments = storage.revealedCommitments := by
  unfold setCommitment at h
  rw [ite_error_eq_ok, ite_error_eq_ok] at h
  obtain ⟨-, -, h⟩ := h
  dsimp only at h
  rw [ite_error_eq_ok] at h
  obtain ⟨-, h⟩ := h
  split at h
  · cases h
  · cases h
    rfl

theorem revealCommitment_revealsBounded {timelock : Timelock} {pulses : Pulses} {block : U64}
    {storage : cfg.Storage A} (h : RevealsBounded storage) (key : NetUid × A) :
    RevealsBounded (revealCommitment timelock pulses block storage key) := by
  intro other
  rw [revealCommitment_revealedCommitments]
  by_cases heq : other = key
  · subst heq
    rw [Function.update_self]
    exact length_pushReveals _ block (h other)
  · rw [Function.update_of_ne heq]
    exact h other

theorem apply_revealsBounded {timelock : Timelock} {storage : cfg.Storage A}
    (h : RevealsBounded storage) (step : Step cfg A) :
    RevealsBounded (apply timelock storage step) := by
  cases step with
  | setCommitment env who netuid info =>
      cases hcall : setCommitment env storage who netuid info with
      | error e => simpa only [apply, hcall] using h
      | ok storage' =>
          simp only [apply, hcall]
          unfold RevealsBounded
          rw [setCommitment_revealedCommitments hcall]
          exact h
  | revealTimelockedCommitments pulses block =>
      exact List.foldlRecOn _ _ h fun _ hbounded key _ =>
        revealCommitment_revealsBounded hbounded key
  | setMaxSpace newLimit => exact h
  | external free => exact h

theorem run_revealsBounded (timelock : Timelock) (free : A → ℕ) (maxSpace : U32)
    (steps : List (Step cfg A)) :
    RevealsBounded (run timelock (Storage.genesis cfg free maxSpace) steps) :=
  List.foldlRecOn steps _ (fun _ => Nat.zero_le 10) fun _ hbounded step _ =>
    apply_revealsBounded hbounded step

/-- What one call of the pass does to a storage. -/
structure PassExact (timelock : Timelock) (pulses : Pulses) (block : U64)
    (storage : cfg.Storage A) : Prop where
  indexed : ∀ key ∈ storage.timelockedIndex, Reveals timelock pulses block storage
    (revealTimelockedCommitments timelock pulses block storage) key
  others : ∀ key, key ∉ storage.timelockedIndex →
    accountData (revealTimelockedCommitments timelock pulses block storage) key =
      accountData storage key
  elsewhere : SameElsewhere storage (revealTimelockedCommitments timelock pulses block storage)
  again : Agree (revealTimelockedCommitments timelock pulses block storage)
    (revealTimelockedCommitments timelock pulses block
      (revealTimelockedCommitments timelock pulses block storage))

/-- **The pass reveals exactly what has come due.** In every state that a run
reaches, and for any pulses: an indexed account keeps the fields that are not
timelocked or whose round has no pulse, and its last ten reveals, the new ones
at the end; the data of every other account and the rest of the storage stay;
and a second pass with the same pulses changes nothing. -/
theorem revealTimelockedCommitments_exact (cfg : Config) (timelock : Timelock) (free : A → ℕ)
    (maxSpace : U32) (steps : List (Step cfg A)) (pulses : Pulses) (block : U64) :
    PassExact timelock pulses block
      (run timelock (Storage.genesis cfg free maxSpace) steps) where
  indexed := by
    intro key hkey
    exact revealTimelockedCommitments_reveals hkey
      (run_revealsBounded timelock free maxSpace steps key)
  others := by
    intro key hkey
    exact accountData_pass_of_notMem hkey
  elsewhere := revealTimelockedCommitments_sameElsewhere _
  again := revealTimelockedCommitments_agree (indexExact_run timelock free maxSpace steps)
    (run_revealsBounded timelock free maxSpace steps)

end Subtensor.Commitments
