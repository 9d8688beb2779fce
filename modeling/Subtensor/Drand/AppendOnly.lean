import Subtensor.Commitments.Reveals
import Subtensor.Drand.Calls

/-!
# The pulses that are stored

What is committed against a round is decrypted with the pulse of that round. So
the store must only grow: a pulse is written once, under its own round, after
the verifier has accepted it, and the rounds are written in their order.
-/

namespace Subtensor.Drand

open Lib Run

variable {verify : Verifier}

/-- Every pulse is stored under its round, and no round is above the last one. -/
def Ordered (storage : Storage) : Prop :=
  ∀ round pulse, storage.pulses round = some pulse →
    round.val ≤ storage.lastStoredRound.val ∧ pulse.round = round

/-- What is stored stays, and the last round does not go back. -/
structure Extends (storage storage' : Storage) : Prop where
  pulses : ∀ round pulse, storage.pulses round = some pulse →
    storage'.pulses round = some pulse
  lastStoredRound : storage.lastStoredRound.val ≤ storage'.lastStoredRound.val

theorem Extends.refl (storage : Storage) : Extends storage storage :=
  ⟨fun _ _ h => h, le_rfl⟩

theorem Extends.trans {s s' s'' : Storage} (h : Extends s s') (h' : Extends s' s'') :
    Extends s s'' :=
  ⟨fun round pulse hstored => h'.pulses round pulse (h.pulses round pulse hstored),
    h.lastStoredRound.trans h'.lastStoredRound⟩

/-- A call writes a pulse: it is one of those that were sent, and the verifier
accepts it under the configuration that is in force. -/
structure WritesPulse (verify : Verifier) (storage : Storage) (call : Call) (pulse : Pulse) :
    Prop where
  sent : ∃ currentBlock pulses, call = .writePulse currentBlock .none pulses ∧ pulse ∈ pulses
  accepted : verify storage.beaconConfig pulse = .ok true
  fresh : storage.pulses pulse.round = none
  stored : (apply verify storage call).pulses pulse.round = some pulse

/-! ## The loop -/

/-- What the loop leaves: nothing changes up to the round that was the last one,
and what is above it was accepted. -/
structure Stores (verify : Verifier) (config : BeaconConfiguration) (sent : List Pulse)
    (pulses : RoundNumber → Option Pulse) (lastStoredRound : RoundNumber)
    (pulses' : RoundNumber → Option Pulse) (lastStoredRound' : RoundNumber) : Prop where
  forward : lastStoredRound.val ≤ lastStoredRound'.val
  kept : ∀ round, round.val ≤ lastStoredRound.val → pulses' round = pulses round
  written : ∀ round pulse, pulses' round = some pulse → pulses round = some pulse ∨
    lastStoredRound.val < round.val ∧ round.val ≤ lastStoredRound'.val ∧
      pulse.round = round ∧ pulse ∈ sent ∧ verify config pulse = .ok true

theorem storePulses_stores {config : BeaconConfiguration} {sent : List Pulse}
    {pulses pulses' : RoundNumber → Option Pulse} {last last' : RoundNumber}
    (h : storePulses verify config sent pulses last = .ok (pulses', last')) :
    Stores verify config sent pulses last pulses' last' := by
  induction sent generalizing pulses last with
  | nil =>
      cases h
      exact ⟨le_rfl, fun _ _ => rfl, fun _ _ h => .inl h⟩
  | cons pulse rest ih =>
      unfold storePulses at h
      split at h
      · cases h
      · obtain ⟨hforward, hkept, hwritten⟩ := ih h
        refine ⟨hforward, hkept, ?_⟩
        intro round stored hstored
        rcases hwritten round stored hstored with hold | ⟨hlt, hle, hround, hmem, hverified⟩
        · exact .inl hold
        · exact .inr ⟨hlt, hle, hround, List.mem_cons_of_mem _ hmem, hverified⟩
      · rename_i hverify
        split at h
        · rename_i hnew
          obtain ⟨hforward, hkept, hwritten⟩ := ih h
          refine ⟨hnew.le.trans hforward, ?_, ?_⟩
          · intro round hle
            have hne : round ≠ pulse.round := by
              rintro rfl
              exact absurd hnew (not_lt.mpr hle)
            rw [hkept round (hle.trans hnew.le), Function.update_of_ne hne]
          · intro round stored hstored
            rcases hwritten round stored hstored with hold | ⟨hlt, hle, hround, hmem, hverified⟩
            · by_cases heq : round = pulse.round
              · subst heq
                rw [Function.update_self] at hold
                cases hold
                exact .inr ⟨hnew, hforward, rfl, List.mem_cons_self, hverify⟩
              · rw [Function.update_of_ne heq] at hold
                exact .inl hold
            · exact .inr ⟨hnew.trans hlt, hle, hround, List.mem_cons_of_mem _ hmem, hverified⟩
        · cases h

/-! ## One call -/

theorem runCall_cases {storage storage' : Storage} {call : Call}
    (h : runCall verify storage call = .ok storage') :
    (∃ currentBlock sent, call = .writePulse currentBlock .none sent ∧
      Stores verify storage.beaconConfig sent storage.pulses storage.lastStoredRound
        storage'.pulses storage'.lastStoredRound) ∨
    (storage'.pulses = storage.pulses ∧ storage'.lastStoredRound = storage.lastStoredRound) := by
  cases call with
  | writePulse currentBlock origin sent =>
      change writePulse verify currentBlock storage origin sent = .ok storage' at h
      unfold writePulse at h
      split at h
      · cases h
      · rename_i horigin
        obtain ⟨⟨pulses, last⟩, hstored, h⟩ := bind_eq_ok.mp h
        cases h
        exact .inl ⟨currentBlock, sent, by rw [not_not.mp horigin], storePulses_stores hstored⟩
  | setBeaconConfig currentBlock origin config =>
      change setBeaconConfig currentBlock storage origin config = .ok storage' at h
      unfold setBeaconConfig at h
      split at h
      · cases h
      · cases h
        exact .inr ⟨rfl, rfl⟩

/-- A call keeps the order and what is stored; what it adds, it writes. -/
theorem apply_extends {storage : Storage} (hordered : Ordered storage) (call : Call) :
    Ordered (apply verify storage call) ∧ Extends storage (apply verify storage call) ∧
      ∀ round pulse, (apply verify storage call).pulses round = some pulse →
        storage.pulses round = some pulse ∨ WritesPulse verify storage call pulse := by
  cases h : runCall verify storage call with
  | error e =>
      have hsame : apply verify storage call = storage := by rw [apply, h]
      rw [hsame]
      exact ⟨hordered, Extends.refl storage, fun _ _ hstored => .inl hstored⟩
  | ok storage' =>
      have hnext : apply verify storage call = storage' := by rw [apply, h]
      rcases runCall_cases h with ⟨currentBlock, sent, rfl, hforward, hkept, hwritten⟩ |
        ⟨hpulses, hlast⟩
      · have hfresh : ∀ round, storage.lastStoredRound.val < round.val →
            storage.pulses round = none := by
          intro round hlt
          rw [Option.eq_none_iff_forall_ne_some]
          intro pulse hstored
          exact absurd (hordered round pulse hstored).1 (not_le.mpr hlt)
        refine ⟨?_, ⟨?_, ?_⟩, ?_⟩
        · rw [hnext]
          intro round pulse hstored
          rcases hwritten round pulse hstored with hold | ⟨-, hle, hround, -, -⟩
          · exact ⟨(hordered round pulse hold).1.trans hforward, (hordered round pulse hold).2⟩
          · exact ⟨hle, hround⟩
        · rw [hnext]
          intro round pulse hstored
          rw [hkept round (hordered round pulse hstored).1, hstored]
        · rw [hnext]
          exact hforward
        · intro round pulse hstored
          have hstored' : storage'.pulses round = some pulse := hnext ▸ hstored
          rcases hwritten round pulse hstored' with hold | ⟨hlt, -, rfl, hmem, hverified⟩
          · exact .inl hold
          · exact .inr ⟨⟨currentBlock, sent, rfl, hmem⟩, hverified, hfresh _ hlt, hstored⟩
      · rw [hnext]
        unfold Ordered
        rw [hpulses, hlast]
        refine ⟨hordered, ⟨?_, hlast ▸ le_rfl⟩, fun _ _ hstored => .inl hstored⟩
        rw [hpulses]
        exact fun _ _ hstored => hstored

/-! ## Runs -/

theorem Ordered.run {storage : Storage} (h : Ordered storage) (calls : List Call) :
    Ordered (run verify storage calls) := by
  have hall : AllStates (apply verify) Ordered storage calls :=
    allStates_of_step (p := Ordered) (fun _ call hordered => (apply_extends hordered call).1) h
      calls
  exact hall.foldl

theorem run_extends {storage : Storage} (h : Ordered storage) (calls : List Call) :
    Extends storage (run verify storage calls) := by
  induction calls generalizing storage with
  | nil => exact Extends.refl storage
  | cons call rest ih =>
      have ⟨hordered, hextends, _⟩ : Ordered (apply verify storage call) ∧ _ := apply_extends h call
      exact hextends.trans (ih hordered)

theorem Storage.empty_ordered : Ordered Storage.empty := by
  rintro round pulse ⟨⟩

/-- Every pulse that is stored was written by a call of the run. -/
theorem run_written (calls : List Call) {round : RoundNumber} {pulse : Pulse}
    (h : (run verify .empty calls).pulses round = some pulse) :
    ∃ before call after, calls = before ++ call :: after ∧
      WritesPulse verify (run verify .empty before) call pulse := by
  induction calls using List.reverseRecOn with
  | nil => cases h
  | append_singleton earlier call ih =>
      unfold run at h
      rw [List.foldl_append, List.foldl_cons, List.foldl_nil] at h
      have hordered : Ordered (Drand.run verify .empty earlier) := Storage.empty_ordered.run earlier
      rcases (apply_extends hordered call).2.2 round pulse h with hold | hwrites
      · obtain ⟨before, writer, after, rfl, hwrites⟩ := ih hold
        exact ⟨before, writer, after ++ [call], by simp, hwrites⟩
      · exact ⟨earlier, call, [], rfl, hwrites⟩

/-- **The pulse store is append-only.** Whatever is sent by whomever, from empty
storage: every pulse is stored under its own round, which is at most the last
one; whatever is sent later, it is neither overwritten nor removed, and the last
round does not go back; and it was accepted by the verifier, under the
configuration of that time, when it was written. -/
theorem pulses_appendOnly (verify : Verifier) (calls : List Call) :
    Ordered (run verify .empty calls) ∧
      (∀ later, Extends (run verify .empty calls) (run verify .empty (calls ++ later))) ∧
      ∀ round pulse, (run verify .empty calls).pulses round = some pulse →
        ∃ before call after, calls = before ++ call :: after ∧
          WritesPulse verify (run verify .empty before) call pulse := by
  have hordered : Ordered (run verify .empty calls) := Storage.empty_ordered.run calls
  refine ⟨hordered, ?_, fun _ _ => run_written calls⟩
  intro later
  have hlater : run verify .empty (calls ++ later) = run verify (run verify .empty calls) later :=
    List.foldl_append
  rw [hlater]
  exact run_extends hordered later

/-- A signature that a timelock is opened with does not change any more. -/
theorem run_signatures {storage : Storage} (h : Ordered storage) (calls : List Call)
    {round : RoundNumber} {signature : Commitments.BoundedVec Commitments.U8 144}
    (hstored : storage.signatures round = some signature) :
    (run verify storage calls).signatures round = some signature := by
  obtain ⟨pulse, hpulse, rfl⟩ := Option.map_eq_some_iff.mp hstored
  exact Option.map_eq_some_iff.mpr ⟨pulse, (run_extends h calls).pulses round pulse hpulse, rfl⟩

/-- So what a commitment reveals does not change either, whatever is sent later. -/
theorem run_payload {storage : Storage} (h : Ordered storage) (calls : List Call)
    {timelock : Commitments.Timelock} {data : Commitments.Data} {bytes : List Commitments.U8}
    (hpayload : Commitments.payload timelock storage.signatures data = some bytes) :
    Commitments.payload timelock (run verify storage calls).signatures data = some bytes := by
  cases data with
  | timelockEncrypted encrypted revealRound =>
      obtain ⟨signature, hsignature, hdecrypt⟩ := Option.bind_eq_some_iff.mp hpayload
      exact Option.bind_eq_some_iff.mpr
        ⟨signature, run_signatures h calls hsignature, hdecrypt⟩
  | _ => cases hpayload

end Subtensor.Drand
