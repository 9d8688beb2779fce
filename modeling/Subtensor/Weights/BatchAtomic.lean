import Subtensor.Weights.Batch

/-!
# Items of batches are atomic

Every check of `do_set_weights` and `do_commit_weights` comes before their first write, and the
commits that are popped before the last check are popped off a copy. So a batch ends as if its
failing items were not there, and an item does to the storage what the call alone does.
-/

namespace Subtensor.WeightCall

open Lib Dispatch

variable {A B P H : Type}

/-! ## Reading -/

theorem readOnly_readNet : ReadOnly (readNet : Call A B P H (Network A B P H)) := fun _ => rfl

theorem succeeds_readNet : Succeeds (readNet : Call A B P H (Network A B P H)) :=
  fun storage => ⟨storage.net, storage, rfl⟩

theorem readOnly_check (p : Network A B P H → Bool) (e : Error) :
    ReadOnly (check p e : Call A B P H Unit) :=
  Keeps.bind readOnly_readNet fun _ => readOnly_ensure _ _

theorem readOnly_ensureSigned (origin : Option A) :
    ReadOnly (ensureSigned origin : Call A B P H A) :=
  readOnly_orError _ _

theorem readOnly_getUidForNetAndHotkey (netuid : NetUid) (hotkey : A) :
    ReadOnly (getUidForNetAndHotkey netuid hotkey : Call A B P H U16) :=
  Keeps.bind readOnly_readNet fun _ => readOnly_orError _ _

theorem readOnly_checkSettingRate (netuid : NetUid) (neuronUid : U16) (currentBlock : U64) :
    ReadOnly (checkSettingRate netuid neuronUid currentBlock : Call A B P H Unit) := by
  refine Keeps.bind readOnly_readNet fun net => ?_
  split
  · exact readOnly_pure _
  · exact readOnly_check _ _

/-! ## Writing -/

theorem succeeds_depositEvent (event : Event A H) :
    Succeeds (depositEvent event : Call A B P H Unit) :=
  succeeds_modify _

theorem succeeds_modifyNet (f : Network A B P H → Network A B P H) : Succeeds (modifyNet f) :=
  succeeds_modify _

theorem keeps_depositEvent (event : Event A H) :
    Keeps Storage.net (depositEvent event : Call A B P H Unit) :=
  keeps_modify fun _ => rfl

theorem succeeds_writes [DecidableEq A] (netuid : NetUid) (neuronUid : U16)
    (zippedWeights : List (U16 × U16)) (currentBlock : U64) :
    Succeeds (do
      insertWeights netuid neuronUid zippedWeights
      unless getCommitRevealWeightsEnabled (← readNet) netuid do
        setLastUpdateForUid netuid neuronUid currentBlock
      depositEvent (.weightsSet netuid neuronUid) : Call A B P H Unit) := by
  refine (succeeds_modifyNet _).bind fun _ => succeeds_readNet.bind fun net => ?_
  split
  · exact succeeds_depositEvent _
  · exact (succeeds_modifyNet _).bind fun _ => succeeds_depositEvent _

/-! ## The calls -/

section

variable [DecidableEq A]

theorem doSetWeights_atomic (origin : Option A) (netuid : NetUid) (uids values : List U16)
    (versionKey : U64) :
    Atomic (doSetWeights origin netuid uids values versionKey : Call A B P H Unit) := by
  unfold doSetWeights
  refine (readOnly_ensureSigned origin).bind fun hotkey => ?_
  refine (readOnly_check _ _).bind fun _ => ?_
  refine (readOnly_check _ _).bind fun _ => ?_
  refine (readOnly_check _ _).bind fun _ => ?_
  refine (readOnly_check _ _).bind fun _ => ?_
  refine (readOnly_check _ _).bind fun _ => ?_
  refine (readOnly_check _ _).bind fun _ => ?_
  refine (readOnly_check _ _).bind fun _ => ?_
  refine (readOnly_getUidForNetAndHotkey netuid hotkey).bind fun neuronUid => ?_
  refine readOnly_readNet.bind fun net => ?_
  refine (readOnly_checkSettingRate _ _ _).bind fun _ => ?_
  refine (readOnly_check _ _).bind fun _ => ?_
  refine (readOnly_check _ _).bind fun _ => ?_
  refine (readOnly_check _ _).bind fun _ => ?_
  refine (readOnly_check _ _).bind fun _ => ?_
  refine (readOnly_check _ _).bind fun _ => ?_
  exact (succeeds_writes _ _ _ _).atomic

omit [DecidableEq A] in
theorem pushCommit_atomic (who : A) (netuid : NetUid) (neuronUid : U16) (commitBlock : U64)
    (commitHash : H) (revealBlocks : U64 × U64) (maybeCommits : Option (List (WeightCommit H))) :
    Atomic (pushCommit who netuid neuronUid commitBlock commitHash revealBlocks maybeCommits :
      Call A B P H _) := by
  unfold pushCommit
  refine readOnly_readNet.bind fun net => (readOnly_ensure _ _).bind fun _ => ?_
  exact ((succeeds_depositEvent _).bind fun _ => (succeeds_modifyNet _).bind fun _ =>
    succeeds_pure _).atomic

theorem doCommitWeights_atomic (origin : Option A) (netuid : NetUid) (commitHash : H) :
    Atomic (doCommitWeights origin netuid commitHash : Call A B P H Unit) := by
  unfold doCommitWeights
  refine (readOnly_ensureSigned origin).bind fun who => ?_
  refine (readOnly_check _ _).bind fun _ => ?_
  refine (readOnly_check _ _).bind fun _ => ?_
  refine readOnly_readNet.bind fun net => ?_
  refine (readOnly_getUidForNetAndHotkey netuid who).bind fun neuronUid => ?_
  refine (readOnly_check _ _).bind fun _ => ?_
  refine readOnly_readNet.bind fun net' => ?_
  exact atomic_tryMutate fun maybeCommits => pushCommit_atomic _ _ _ _ _ _ _

theorem setWeightsItem_atomic (origin : Option A)
    (item : (NetUid × List (U16 × U16)) × U64) :
    Atomic (setWeightsItem origin item : Call A B P H Unit) := by
  unfold setWeightsItem
  refine readOnly_readNet.bind fun net => ?_
  split
  · exact (readOnly_throw _).bind fun _ => doSetWeights_atomic _ _ _ _ _
  · exact doSetWeights_atomic _ _ _ _ _

end

/-! ## The calls without their events -/

/-- A call does to the storage what a function of the network says: it fails with the same error
and has written nothing, or the network is that of the function. -/
def Follows (storage : Storage A B P H)
    (result : EStateM.Result DispatchError (Storage A B P H) Unit)
    (expected : Except Error (Network A B P H)) : Prop :=
  match expected with
  | .error e => result = .error (.module e) storage
  | .ok net => ∃ events, result = .ok () ⟨net, events⟩

theorem Follows.effect_net {x : Call A B P H Unit} {storage : Storage A B P H}
    {expected : Except Error (Network A B P H)} (h : Follows storage (x.run storage) expected) :
    (effect x storage).net = expected.toOption.getD storage.net := by
  cases expected with
  | error e => rw [effect_of_error h]; rfl
  | ok net =>
      obtain ⟨events, hrun⟩ := h
      rw [effect_of_ok hrun]
      rfl

section

variable {storage : Storage A B P H} {expected : Except Error (Network A B P H)}

theorem run_readNet (storage : Storage A B P H) : readNet.run storage = .ok storage.net storage :=
  rfl

theorem run_ensureSigned (who : A) (storage : Storage A B P H) :
    (ensureSigned (some who)).run storage = .ok who storage := rfl

theorem run_ensureSigned_none (storage : Storage A B P H) :
    (ensureSigned none : Call A B P H A).run storage = .error .badOrigin storage := rfl

theorem run_check (p : Network A B P H → Bool) (e : Error) (storage : Storage A B P H) :
    (check p e).run storage =
      if p storage.net = true then .ok () storage else .error (.module e) storage :=
  run_ensure _ _ storage

theorem follows_check {p : Network A B P H → Bool} {e : Error} {f : Unit → Call A B P H Unit}
    {fails : Prop} [Decidable fails] (hfails : fails ↔ ¬p storage.net = true)
    (h : Follows storage ((f ()).run storage) expected) :
    Follows storage ((check p e >>= f).run storage) (if fails then .error e else expected) := by
  by_cases hp : p storage.net = true
  · have hok : (check p e).run storage = .ok () storage := by rw [run_check, if_pos hp]
    rw [if_neg fun hf => hfails.mp hf hp, run_bind_of_ok hok]
    exact h
  · have herror : (check p e).run storage = .error (.module e) storage := by
      rw [run_check, if_neg hp]
    rw [if_pos (hfails.mpr hp), run_bind_of_error herror]
    rfl

theorem run_getUid {netuid : NetUid} {hotkey : A} {uid : U16}
    (h : (storage.net.chain.neurons netuid).uids hotkey = some uid) :
    (getUidForNetAndHotkey netuid hotkey : Call A B P H U16).run storage = .ok uid storage := by
  unfold getUidForNetAndHotkey
  rw [run_bind_of_ok (run_readNet storage), h]
  rfl

theorem follows_checkSettingRate {netuid : NetUid} {neuronUid : U16} {currentBlock : U64}
    {f : Unit → Call A B P H Unit} (h : Follows storage ((f ()).run storage) expected) :
    Follows storage ((checkSettingRate netuid neuronUid currentBlock >>= f).run storage)
      (if ¬(storage.net.weights netuid).commitRevealWeightsEnabled ∧
          ¬storage.net.checkRateLimit netuid neuronUid currentBlock then
        .error .settingWeightsTooFast
      else expected) := by
  unfold checkSettingRate
  rw [bind_assoc, run_bind_of_ok (run_readNet storage)]
  cases henabled : getCommitRevealWeightsEnabled storage.net netuid with
  | true =>
      rw [if_pos rfl, pure_bind]
      unfold getCommitRevealWeightsEnabled at henabled
      rw [if_neg fun h => h.1 henabled]
      exact h
  | false =>
      unfold getCommitRevealWeightsEnabled at henabled
      rw [if_neg Bool.false_ne_true]
      exact follows_check (by simp [henabled]) h

end

section

variable [DecidableEq A]

omit [DecidableEq A] in
theorem follows_writes (storage : Storage A B P H) (netuid : NetUid) (neuronUid : U16)
    (uids maxUpscaledWeights : List U16) :
    Follows storage ((do
      insertWeights netuid neuronUid (uids.zip maxUpscaledWeights)
      unless getCommitRevealWeightsEnabled (← readNet) netuid do
        setLastUpdateForUid netuid neuronUid storage.net.chain.block
      depositEvent (.weightsSet netuid neuronUid) : Call A B P H Unit).run storage)
        (.ok (storage.net.storeWeights netuid neuronUid uids maxUpscaledWeights)) := by
  let written := storage.net.withWeights netuid
    { storage.net.weights netuid with
      weights := Function.update (storage.net.weights netuid).weights neuronUid
        (uids.zip maxUpscaledWeights) }
  have hwritten : (insertWeights netuid neuronUid (uids.zip maxUpscaledWeights)).run storage =
      .ok () { storage with net := written } := rfl
  have henabled : getCommitRevealWeightsEnabled written netuid =
      (storage.net.weights netuid).commitRevealWeightsEnabled := by
    show (Function.update storage.net.weights netuid _ netuid).commitRevealWeightsEnabled = _
    rw [Function.update_self]
  rw [run_bind_of_ok hwritten, run_bind_of_ok (run_readNet _), henabled]
  unfold Network.storeWeights
  dsimp only
  by_cases hreveal : (storage.net.weights netuid).commitRevealWeightsEnabled = true
  · rw [if_pos hreveal, if_pos hreveal]
    exact ⟨_, rfl⟩
  · rw [if_neg hreveal, if_neg hreveal]
    exact ⟨_, rfl⟩

/-- **Setting weights** as a program is setting weights as a function. -/
theorem doSetWeights_follows (storage : Storage A B P H) (hotkey : A) (netuid : NetUid)
    (uids values : List U16) (versionKey : U64) :
    Follows storage ((doSetWeights (some hotkey) netuid uids values versionKey).run storage)
      (storage.net.doSetWeights hotkey netuid uids values versionKey) := by
  unfold doSetWeights Network.doSetWeights
  rw [run_bind_of_ok (run_ensureSigned hotkey storage)]
  refine follows_check (by simp) ?_
  refine follows_check (by simp) ?_
  refine follows_check (by simp) ?_
  refine follows_check (by simp) ?_
  cases huid : (storage.net.chain.neurons netuid).uids hotkey with
  | none =>
      have herror : (check (fun net => net.chain.isHotkeyRegisteredOnNetwork netuid hotkey)
          .hotKeyNotRegisteredInSubNet).run storage =
            .error (.module .hotKeyNotRegisteredInSubNet) storage := by
        rw [run_check, if_neg (by simp [Chain.isHotkeyRegisteredOnNetwork, huid])]
      rw [run_bind_of_error herror]
      rfl
  | some neuronUid =>
      have hregistered : (check (fun net => net.chain.isHotkeyRegisteredOnNetwork netuid hotkey)
          .hotKeyNotRegisteredInSubNet).run storage = .ok () storage := by
        rw [run_check, if_pos (by simp [Chain.isHotkeyRegisteredOnNetwork, huid])]
      rw [run_bind_of_ok hregistered]
      refine follows_check (by simp) ?_
      refine follows_check (by simp) ?_
      rw [run_bind_of_ok (run_getUid huid), run_bind_of_ok (run_readNet storage)]
      refine follows_checkSettingRate ?_
      refine follows_check (by simp) ?_
      refine follows_check (by simp) ?_
      refine follows_check (by simp) ?_
      refine follows_check (by simp) ?_
      refine follows_check (by simp) ?_
      exact follows_writes storage netuid neuronUid uids _

theorem follows_pushCommit (storage : Storage A B P H) (who : A) (netuid : NetUid)
    (neuronUid : U16) (commitHash : H) :
    Follows storage ((tryMutate (fun storage => (storage.net.weights netuid).weightCommits who)
        (fun commits storage => { storage with net := storage.net.setCommits netuid who commits })
        (pushCommit who netuid neuronUid storage.net.chain.block commitHash
          (storage.net.getRevealBlocks netuid storage.net.chain.block))).run storage)
      (if ¬(storage.net.dropExpired netuid (storage.net.commitsOf netuid who)).length < 10 then
        .error .tooManyUnrevealedCommits
      else
        .ok ((storage.net.setCommits netuid who
            (some (storage.net.dropExpired netuid (storage.net.commitsOf netuid who) ++
              [storage.net.newCommit netuid commitHash]))).withChain
          (storage.net.chain.setLastUpdateForUid netuid neuronUid storage.net.chain.block))) := by
  by_cases hroom : (storage.net.dropExpired netuid (storage.net.commitsOf netuid who)).length < 10
  · rw [if_neg (not_not.mpr hroom)]
    have hok : (ensure ((storage.net.dropExpired netuid (storage.net.commitsOf netuid who)).length
        < 10) (DispatchError.module .tooManyUnrevealedCommits)).run storage = .ok () storage := by
      rw [run_ensure, if_pos hroom]
    have hpush : (pushCommit who netuid neuronUid storage.net.chain.block commitHash
        (storage.net.getRevealBlocks netuid storage.net.chain.block)
        ((storage.net.weights netuid).weightCommits who)).run storage =
          .ok ((), some (storage.net.dropExpired netuid (storage.net.commitsOf netuid who) ++
              [storage.net.newCommit netuid commitHash]))
            ⟨storage.net.withChain
              (storage.net.chain.setLastUpdateForUid netuid neuronUid storage.net.chain.block),
              storage.events ++ [.weightsCommitted who netuid commitHash]⟩ :=
      (run_bind_of_ok (run_readNet storage)).trans (run_bind_of_ok hok)
    exact ⟨_, (run_tryMutate_of_ok hpush).trans rfl⟩
  · rw [if_pos hroom]
    refine run_tryMutate_of_error ?_
    unfold pushCommit
    rw [run_bind_of_ok (run_readNet storage)]
    refine run_bind_of_error ?_
    rw [run_ensure]
    exact if_neg hroom

/-- **Committing weights** as a program is committing weights as a function. -/
theorem doCommitWeights_follows (storage : Storage A B P H) (who : A) (netuid : NetUid)
    (commitHash : H) :
    Follows storage ((doCommitWeights (some who) netuid commitHash).run storage)
      (storage.net.doCommitWeights who netuid commitHash) := by
  unfold doCommitWeights Network.doCommitWeights
  rw [run_bind_of_ok (run_ensureSigned who storage)]
  refine follows_check (by simp [getCommitRevealWeightsEnabled]) ?_
  cases huid : (storage.net.chain.neurons netuid).uids who with
  | none =>
      have herror : (check (fun net => net.chain.isHotkeyRegisteredOnNetwork netuid who)
          .hotKeyNotRegisteredInSubNet).run storage =
            .error (.module .hotKeyNotRegisteredInSubNet) storage := by
        rw [run_check, if_neg (by simp [Chain.isHotkeyRegisteredOnNetwork, huid])]
      rw [run_bind_of_error herror]
      rfl
  | some neuronUid =>
      have hregistered : (check (fun net => net.chain.isHotkeyRegisteredOnNetwork netuid who)
          .hotKeyNotRegisteredInSubNet).run storage = .ok () storage := by
        rw [run_check, if_pos (by simp [Chain.isHotkeyRegisteredOnNetwork, huid])]
      rw [run_bind_of_ok hregistered, run_bind_of_ok (run_readNet storage),
        run_bind_of_ok (run_getUid huid)]
      refine follows_check (by simp) ?_
      rw [run_bind_of_ok (run_readNet storage)]
      exact follows_pushCommit storage who netuid neuronUid commitHash

end

/-! ## Batches -/

theorem keeps_reportResult (completedWithErrors : Bool) (result : Except DispatchError Unit) :
    Keeps Storage.net (reportResult completedWithErrors result : Call A B P H Bool) := by
  cases result with
  | ok _ => exact fun _ => rfl
  | error e =>
      cases completedWithErrors with
      | true => exact (keeps_depositEvent _).bind fun _ _ => rfl
      | false =>
          exact (keeps_depositEvent _).bind fun _ => (keeps_depositEvent _).bind fun _ _ => rfl

theorem keeps_foldlM_reportResult (completedWithErrors : Bool)
    (results : List (Except DispatchError Unit)) :
    Keeps Storage.net (results.foldlM reportResult completedWithErrors : Call A B P H Bool) := by
  induction results generalizing completedWithErrors with
  | nil => exact fun _ => rfl
  | cons result results ih =>
      rw [List.foldlM_cons]
      exact (keeps_reportResult _ _).bind ih

theorem keeps_reportBatch (netuids : List NetUid) (who : A)
    (results : List (Except DispatchError Unit)) :
    Keeps Storage.net (reportBatch netuids who results : Call A B P H Unit) :=
  (keeps_foldlM_reportResult _ _).bind fun _ => keeps_depositEvent _

/-- A batch of atomic items: those that fail do nothing, and reporting leaves the storage as it
is. -/
theorem batch_net {ι : Type} {call : ι → Call A B P H Unit} (h : ∀ i, Atomic (call i))
    (items : List ι) (netuids : List NetUid) (who : A) (storage : Storage A B P H) :
    (final (do
      let results ← items.mapM fun item => attempt (call item)
      reportBatch netuids who results : Call A B P H Unit) storage).net =
        (items.foldl (fun storage item => effect (call item) storage) storage).net := by
  obtain ⟨results, hrun⟩ : ∃ results, (items.mapM fun item =>
      (attempt (call item) : Call A B P H (Except DispatchError Unit))).run storage =
        .ok results (items.foldl (fun storage item => effect (call item) storage) storage) :=
    run_mapM_attempt h items storage
  rw [final, run_bind_of_ok hrun]
  exact keeps_reportBatch netuids who results _

theorem foldl_effect_of_error {ι : Type} {call : ι → Call A B P H Unit}
    (h : ∀ i storage, ∃ e, (call i).run storage = .error e storage) (items : List ι)
    (storage : Storage A B P H) :
    items.foldl (fun storage item => effect (call item) storage) storage = storage := by
  induction items with
  | nil => rfl
  | cons item items ih =>
      obtain ⟨e, hrun⟩ := h item storage
      rw [List.foldl_cons, effect_of_error hrun, ih]

/-! ## The three loops -/

section

variable [DecidableEq A]

theorem setWeightsItem_error (item : (NetUid × List (U16 × U16)) × U64)
    (storage : Storage A B P H) :
    ∃ e, (setWeightsItem none item : Call A B P H Unit).run storage = .error e storage := by
  unfold setWeightsItem
  rw [run_bind_of_ok (run_readNet storage)]
  split
  · exact ⟨_, rfl⟩
  · exact ⟨_, rfl⟩

/-- **Batches of weights.** Items that fail do nothing. -/
theorem doBatchSetWeights_net (origin : Option A) (netuids : List NetUid)
    (weights : List (List (U16 × U16))) (versionKeys : List U64) (storage : Storage A B P H) :
    (final (doBatchSetWeights origin netuids weights versionKeys) storage).net =
      if netuids.length = weights.length ∧ netuids.length = versionKeys.length then
        (((netuids.zip weights).zip versionKeys).foldl
          (fun storage item => effect (setWeightsItem origin item) storage) storage).net
      else storage.net := by
  unfold doBatchSetWeights
  cases origin with
  | none =>
      rw [final_of_error (run_bind_of_error (run_ensureSigned_none storage)),
        foldl_effect_of_error setWeightsItem_error, ite_self]
  | some who =>
      rw [final, run_bind_of_ok (run_ensureSigned who storage)]
      by_cases hlength : netuids.length = weights.length ∧ netuids.length = versionKeys.length
      · rw [if_pos hlength, run_bind_of_ok (by rw [run_ensure, if_pos hlength])]
        exact batch_net (setWeightsItem_atomic (some who)) _ netuids who storage
      · rw [if_neg hlength, run_bind_of_error (by rw [run_ensure, if_neg hlength])]

/-- **Batches of commits.** Items that fail do nothing. -/
theorem doBatchCommitWeights_net (origin : Option A) (netuids : List NetUid)
    (commitHashes : List H) (storage : Storage A B P H) :
    (final (doBatchCommitWeights origin netuids commitHashes) storage).net =
      if netuids.length = commitHashes.length then
        ((netuids.zip commitHashes).foldl
          (fun storage item => effect (doCommitWeights origin item.1 item.2) storage) storage).net
      else storage.net := by
  unfold doBatchCommitWeights
  cases origin with
  | none =>
      have herror : ∀ (item : NetUid × H) (storage : Storage A B P H),
          ∃ e, (doCommitWeights none item.1 item.2 : Call A B P H Unit).run storage =
            .error e storage := fun _ _ => ⟨_, rfl⟩
      rw [final_of_error (run_bind_of_error (run_ensureSigned_none storage)),
        foldl_effect_of_error herror, ite_self]
  | some who =>
      rw [final, run_bind_of_ok (run_ensureSigned who storage)]
      by_cases hlength : netuids.length = commitHashes.length
      · rw [if_pos hlength, run_bind_of_ok (by rw [run_ensure, if_pos hlength])]
        exact batch_net (fun item : NetUid × H =>
          doCommitWeights_atomic (some who) item.1 item.2) _ netuids who storage
      · rw [if_neg hlength, run_bind_of_error (by rw [run_ensure, if_neg hlength])]

/-- A turn of the loop does to the network what its call does, if that succeeds. -/
theorem run_revealEntry (openCommit : Crv3Commit A → Option WeightsTlockPayload)
    (netuid : NetUid) (entry : Crv3Commit A) (storage : Storage A B P H) :
    ∃ events, (revealEntry openCommit netuid entry).run storage =
      .ok () ⟨storage.net.revealCrv3Commit openCommit netuid entry, events⟩ := by
  unfold revealEntry Network.revealCrv3Commit
  cases openCommit entry with
  | none => exact ⟨_, rfl⟩
  | some payload =>
      have hfollows := doSetWeights_follows storage entry.who netuid payload.uids payload.values
        payload.versionKey
      dsimp only
      cases hset : storage.net.doSetWeights entry.who netuid payload.uids payload.values
          payload.versionKey with
      | error e =>
          rw [hset] at hfollows
          rw [run_bind_of_ok (run_attempt_of_error hfollows)]
          exact ⟨_, rfl⟩
      | ok net =>
          rw [hset] at hfollows
          obtain ⟨events, hrun⟩ := hfollows
          rw [run_bind_of_ok (run_attempt_of_ok hrun)]
          exact ⟨_, rfl⟩

theorem effect_revealItem_net (openCommit : Crv3Commit A → Option WeightsTlockPayload)
    (netuid : NetUid) (entry : Crv3Commit A) (storage : Storage A B P H) :
    (effect (revealItem openCommit netuid entry) storage).net =
      storage.net.revealCrv3Commit openCommit netuid entry := by
  unfold revealItem Network.revealCrv3Commit
  cases openCommit entry with
  | none => rfl
  | some payload =>
      dsimp only
      rw [(doSetWeights_follows storage entry.who netuid payload.uids payload.values
        payload.versionKey).effect_net]
      cases storage.net.doSetWeights entry.who netuid payload.uids payload.values
          payload.versionKey with
      | error e => rfl
      | ok net => rfl

theorem foldl_effect_revealItem_net (openCommit : Crv3Commit A → Option WeightsTlockPayload)
    (netuid : NetUid) (entries : List (Crv3Commit A)) (storage : Storage A B P H) :
    (entries.foldl (fun storage entry => effect (revealItem openCommit netuid entry) storage)
        storage).net = entries.foldl (Network.revealCrv3Commit openCommit netuid) storage.net := by
  refine (List.foldl_hom Storage.net fun storage entry => ?_).symm
  exact (effect_revealItem_net openCommit netuid entry storage).symm

/-- The loop leaves the network that the calls leave, one after the other. -/
theorem forM_revealEntry_net (openCommit : Crv3Commit A → Option WeightsTlockPayload)
    (netuid : NetUid) (entries : List (Crv3Commit A)) (storage : Storage A B P H) :
    (final (entries.forM (revealEntry openCommit netuid)) storage).net =
      entries.foldl (Network.revealCrv3Commit openCommit netuid) storage.net := by
  have hsucceeds : ∀ entry, Succeeds (revealEntry openCommit netuid entry : Call A B P H Unit) := by
    intro entry storage
    obtain ⟨events, hrun⟩ := run_revealEntry openCommit netuid entry storage
    exact ⟨_, _, hrun⟩
  rw [final_of_ok (run_forM hsucceeds entries storage)]
  refine (List.foldl_hom Storage.net fun storage entry => ?_).symm
  obtain ⟨events, hrun⟩ := run_revealEntry openCommit netuid entry storage
  rw [final_of_ok hrun]

omit [DecidableEq A] in
theorem run_takeEntries (netuid : NetUid) (storage : Storage A B P H) :
    (takeEntries netuid).run storage =
      .ok (storage.net.takeCrv3Commits netuid).2.entries
        { storage with net := (storage.net.takeCrv3Commits netuid).1 } := by
  unfold takeEntries Network.takeCrv3Commits
  rw [run_bind_of_ok (run_readNet storage)]
  by_cases hepoch : (storage.net.getEpochIndex netuid storage.net.chain.block).val < 2
  · dsimp only
    rw [if_pos hepoch, if_pos hepoch]
    rfl
  · dsimp only
    rw [if_neg hepoch, if_neg hepoch]
    rfl

/-- **Revealing commits** as a program is revealing commits as a function. -/
theorem revealCrv3Commits_net (openCommit : Crv3Commit A → Option WeightsTlockPayload)
    (netuid : NetUid) (storage : Storage A B P H) :
    (final (revealCrv3Commits openCommit netuid) storage).net =
      (storage.net.revealCrv3Commits openCommit netuid).1 := by
  unfold revealCrv3Commits Network.revealCrv3Commits
  rw [final, run_bind_of_ok (run_takeEntries netuid storage)]
  exact forM_revealEntry_net openCommit netuid _ _

/-- **Items are atomic.** A failing `do_set_weights` or `do_commit_weights` has written nothing.
The two batches and the loop of `reveal_crv3_commits` end in the storage that the calls leave
one after the other, where a failing call does nothing; only the events differ. -/
theorem weightItems_atomic :
    (∀ (origin : Option A) (netuid : NetUid) (uids values : List U16) (versionKey : U64),
        Atomic (doSetWeights origin netuid uids values versionKey : Call A B P H Unit)) ∧
      (∀ (origin : Option A) (netuid : NetUid) (commitHash : H),
        Atomic (doCommitWeights origin netuid commitHash : Call A B P H Unit)) ∧
      (∀ (origin : Option A) (netuids : List NetUid) (weights : List (List (U16 × U16)))
          (versionKeys : List U64) (storage : Storage A B P H),
        (final (doBatchSetWeights origin netuids weights versionKeys) storage).net =
          if netuids.length = weights.length ∧ netuids.length = versionKeys.length then
            (((netuids.zip weights).zip versionKeys).foldl
              (fun storage item => effect (setWeightsItem origin item) storage) storage).net
          else storage.net) ∧
      (∀ (origin : Option A) (netuids : List NetUid) (commitHashes : List H)
          (storage : Storage A B P H),
        (final (doBatchCommitWeights origin netuids commitHashes) storage).net =
          if netuids.length = commitHashes.length then
            ((netuids.zip commitHashes).foldl (fun storage item =>
              effect (doCommitWeights origin item.1 item.2) storage) storage).net
          else storage.net) ∧
      ∀ (Ciphertext Signature : Type) (tlock : Tlock Ciphertext Signature)
          (pulses : U64 → Option (List UInt8)) (netuid : NetUid) (storage : Storage A B P H),
        ∃ entries taken, (takeEntries netuid).run storage = .ok entries taken ∧
          (final (revealCrv3Commits (tlock.openCommit pulses) netuid) storage).net =
            (entries.foldl (fun storage entry =>
              effect (revealItem (tlock.openCommit pulses) netuid entry) storage) taken).net := by
  refine ⟨doSetWeights_atomic, doCommitWeights_atomic, doBatchSetWeights_net,
    doBatchCommitWeights_net, ?_⟩
  intro Ciphertext Signature tlock pulses netuid storage
  refine ⟨_, _, run_takeEntries netuid storage, ?_⟩
  rw [revealCrv3Commits_net, foldl_effect_revealItem_net]
  rfl

end

end Subtensor.WeightCall
