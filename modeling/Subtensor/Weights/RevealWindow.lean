import Subtensor.Weights.CommitReveal

/-!
# The window of a commit

Two functions describe by epochs when a commit may be revealed and when it
has expired; a third computes the first and the last block of that time. Below
saturation they agree. What a commit and a reveal do to the queues of a subnet
is read off their definitions once, here.
-/

namespace Subtensor

open Lib

variable {A B P H : Type} {netuid : NetUid} {b t : U64}

/-! ## Epoch indices -/

theorem epochIndex_val {tempo : U16} (h : b.val + (netuid.val + 1) < 2 ^ 64) :
    (epochIndex netuid tempo b).val = (b.val + (netuid.val + 1)) / (tempo.val + 1) := by
  have htempo := tempo.isLt
  have hnetuid := netuid.isLt
  have hoffset : ((Word.sat (netuid.val + 1) : U64)).val = netuid.val + 1 :=
    Word.val_sat_of_lt (by omega)
  have hplus : ((Word.sat (tempo.val + 1) : U64)).val = tempo.val + 1 :=
    Word.val_sat_of_lt (by omega)
  have hblock : (b.satAdd (.sat (netuid.val + 1))).val = b.val + (netuid.val + 1) := by
    rw [Word.val_satAdd_of_lt (by rw [hoffset]; exact h), hoffset]
  simp only [epochIndex, hblock, hplus]
  exact Word.val_sat_of_lt ((Nat.div_le_self _ _).trans_lt h)

/-- Saturation only flattens the epoch index. -/
theorem epochIndex_mono {tempo : U16} (h : b.val ≤ t.val) :
    (epochIndex netuid tempo b).val ≤ (epochIndex netuid tempo t).val := by
  have hblock : (b.satAdd (.sat (netuid.val + 1))).val ≤
      (t.satAdd (.sat (netuid.val + 1))).val := by
    rw [Word.val_satAdd, Word.val_satAdd]
    exact min_le_min_right _ (Nat.add_le_add_right h _)
  unfold epochIndex
  rw [Word.val_sat, Word.val_sat]
  exact min_le_min_right _ (Nat.div_le_div_right hblock)

namespace Network

variable {net net' net₁ : Network A B P H}

/-- Nothing saturates in the computation of the window of a commit. -/
structure RevealUnsaturated (net : Network A B P H) (netuid : NetUid) (commitBlock block : U64) :
    Prop where
  offset : block.val + (netuid.val + 1) < 2 ^ 64
  epoch : (net.getEpochIndex netuid commitBlock).val + (net.getRevealPeriod netuid).val < 2 ^ 64
  start : (net.revealEpoch netuid commitBlock).val * ((net.tempo netuid).val + 1) < 2 ^ 64
  last : (net.getRevealBlocks netuid commitBlock).1.val + (net.tempo netuid).val < 2 ^ 64

theorem getRevealBlocks_fst (hu : net.RevealUnsaturated netuid b t) :
    (net.getRevealBlocks netuid b).1.val =
      (net.revealEpoch netuid b).val * ((net.tempo netuid).val + 1) - (netuid.val + 1) := by
  have hnetuid := netuid.isLt
  unfold getRevealBlocks
  simp only [Word.val_satSub]
  rw [Word.val_sat_of_lt hu.start, Word.val_sat_of_lt (by omega)]

theorem getRevealBlocks_snd (hu : net.RevealUnsaturated netuid b t) :
    (net.getRevealBlocks netuid b).2.val =
      (net.getRevealBlocks netuid b).1.val + (net.tempo netuid).val := by
  have htempo := (net.tempo netuid).isLt
  have hsat : ((Word.sat (net.tempo netuid).val : U64)).val = (net.tempo netuid).val :=
    Word.val_sat_of_lt (by omega)
  have hlast := hu.last
  rw [← hsat] at hlast
  refine (Word.val_satAdd_of_lt hlast).trans ?_
  rw [hsat]

/-- The first block of the window is not clipped at zero: a commit is
revealed in a later epoch, so not before its own block. -/
theorem offset_le_revealEpoch_mul (hperiod : 1 ≤ (net.getRevealPeriod netuid).val)
    (hle : b.val ≤ t.val) (hu : net.RevealUnsaturated netuid b t) :
    netuid.val + 1 ≤
      (net.revealEpoch netuid b).val * ((net.tempo netuid).val + 1) := by
  have hoffset := hu.offset
  have hindex : (net.getEpochIndex netuid b).val =
      (b.val + (netuid.val + 1)) / ((net.tempo netuid).val + 1) := epochIndex_val (by omega)
  have hepoch : (net.revealEpoch netuid b).val =
      (net.getEpochIndex netuid b).val + (net.getRevealPeriod netuid).val :=
    Word.val_satAdd_of_lt hu.epoch
  have hlt := Nat.lt_mul_div_succ (b.val + (netuid.val + 1)) (Nat.succ_pos (net.tempo netuid).val)
  rw [Nat.succ_eq_add_one, mul_comm, ← hindex] at hlt
  calc netuid.val + 1 ≤ b.val + (netuid.val + 1) := Nat.le_add_left _ _
    _ ≤ ((net.getEpochIndex netuid b).val + 1) * ((net.tempo netuid).val + 1) := hlt.le
    _ ≤ _ := Nat.mul_le_mul_right _ (by omega)

/-- **The window by epochs is the window by blocks.** -/
theorem revealWindow_iff (hperiod : 1 ≤ (net.getRevealPeriod netuid).val) (hle : b.val ≤ t.val)
    (hu : net.RevealUnsaturated netuid b t) :
    ((net.getEpochIndex netuid t).val = (net.revealEpoch netuid b).val ↔
        (net.getRevealBlocks netuid b).1.val ≤ t.val ∧
          t.val ≤ (net.getRevealBlocks netuid b).2.val) ∧
      ((net.revealEpoch netuid b).val < (net.getEpochIndex netuid t).val ↔
        (net.getRevealBlocks netuid b).2.val < t.val) := by
  have hoffset := hu.offset
  have hpos : 0 < (net.tempo netuid).val + 1 := Nat.succ_pos _
  have hstart := offset_le_revealEpoch_mul hperiod hle hu
  have hindex : (net.getEpochIndex netuid t).val =
      (t.val + (netuid.val + 1)) / ((net.tempo netuid).val + 1) := epochIndex_val hoffset
  have hfirst := getRevealBlocks_fst hu
  have hlast := getRevealBlocks_snd hu
  have hge : (net.revealEpoch netuid b).val ≤ (net.getEpochIndex netuid t).val ↔
      (net.getRevealBlocks netuid b).1.val ≤ t.val := by
    rw [hindex, Nat.le_div_iff_mul_le hpos, hfirst]
    omega
  have hgt : (net.revealEpoch netuid b).val < (net.getEpochIndex netuid t).val ↔
      (net.getRevealBlocks netuid b).2.val < t.val := by
    rw [hindex, ← Nat.add_one_le_iff, Nat.le_div_iff_mul_le hpos, hlast, hfirst, Nat.add_mul]
    omega
  refine ⟨?_, hgt⟩
  have hle_last : t.val ≤ (net.getRevealBlocks netuid b).2.val ↔
      ¬(net.revealEpoch netuid b).val < (net.getEpochIndex netuid t).val := by
    rw [hgt, Nat.not_lt]
  rw [← hge, hle_last]
  omega

/-! ## Commits and reveals, one at a time -/

/-- The schedule of the subnet is as before, and time has not gone back. -/
structure SameSchedule (netuid : NetUid) (net net' : Network A B P H) : Prop where
  tempo : net'.tempo netuid = net.tempo netuid
  period : net'.getRevealPeriod netuid = net.getRevealPeriod netuid
  block : net.chain.block.val ≤ net'.chain.block.val

/-- A step that also leaves the queues of the subnet alone. -/
structure KeepsQueues (netuid : NetUid) (net net' : Network A B P H) : Prop
    extends SameSchedule netuid net net' where
  queue : (net'.weights netuid).weightCommits = (net.weights netuid).weightCommits

namespace SameSchedule

theorem refl (net : Network A B P H) : SameSchedule netuid net net := ⟨rfl, rfl, le_rfl⟩

theorem trans (h₁ : SameSchedule netuid net net₁) (h₂ : SameSchedule netuid net₁ net') :
    SameSchedule netuid net net' :=
  ⟨h₂.tempo.trans h₁.tempo, h₂.period.trans h₁.period, h₁.block.trans h₂.block⟩

theorem getEpochIndex (h : SameSchedule netuid net net') (b : U64) :
    net'.getEpochIndex netuid b = net.getEpochIndex netuid b := by
  simp only [Network.getEpochIndex, h.tempo]

theorem revealEpoch (h : SameSchedule netuid net net') (b : U64) :
    net'.revealEpoch netuid b = net.revealEpoch netuid b := by
  simp only [Network.revealEpoch, h.getEpochIndex, h.period]

theorem getRevealBlocks (h : SameSchedule netuid net net') (b : U64) :
    net'.getRevealBlocks netuid b = net.getRevealBlocks netuid b := by
  simp only [Network.getRevealBlocks, h.revealEpoch, h.tempo]

end SameSchedule

theorem KeepsQueues.commitsOf (h : KeepsQueues netuid net net') (who : A) :
    net'.commitsOf netuid who = net.commitsOf netuid who := by
  simp only [Network.commitsOf, h.queue]

theorem KeepsQueues.trans (h₁ : KeepsQueues netuid net net₁) (h₂ : KeepsQueues netuid net₁ net') :
    KeepsQueues netuid net net' :=
  ⟨h₁.toSameSchedule.trans h₂.toSameSchedule, h₂.queue.trans h₁.queue⟩

variable [DecidableEq A] {m : NetUid} {who : A}

omit [DecidableEq A] in
theorem setLastUpdateForUid_keepsQueues (uid : U16) (block : U64) :
    KeepsQueues netuid net (net.withChain (net.chain.setLastUpdateForUid m uid block)) :=
  ⟨⟨rfl, rfl, le_rfl⟩, rfl⟩

omit [DecidableEq A] in
/-- Writing the weights of any subnet, with its commits and its period as
they were. -/
theorem withWeights_keepsQueues {weights : SubnetWeights A H}
    (hqueue : weights.weightCommits = (net.weights m).weightCommits)
    (hperiod : weights.revealPeriodEpochs = (net.weights m).revealPeriodEpochs) :
    KeepsQueues netuid net (net.withWeights m weights) := by
  by_cases hm : netuid = m
  · subst hm
    exact ⟨⟨rfl, by simpa [getRevealPeriod, withWeights] using hperiod, le_rfl⟩,
      by simpa [withWeights] using hqueue⟩
  · exact ⟨⟨rfl, by simp [getRevealPeriod, withWeights, hm], le_rfl⟩, by simp [withWeights, hm]⟩

omit [DecidableEq A] in
theorem storeWeights_keepsQueues (uid : U16) (uids values : List U16) :
    KeepsQueues netuid net (net.storeWeights m uid uids values) := by
  have hweights : KeepsQueues netuid net (net.withWeights m
      { net.weights m with
        weights := Function.update (net.weights m).weights uid (uids.zip values) }) :=
    withWeights_keepsQueues rfl rfl
  simp only [storeWeights]
  split
  · exact hweights
  · exact hweights.trans (setLastUpdateForUid_keepsQueues uid _)

theorem doSetWeights_ok {uids values : List U16} {versionKey : U64}
    (h : net.doSetWeights who m uids values versionKey = .ok net') :
    ∃ uid, (net.chain.neurons m).uids who = some uid ∧
      net' = net.storeWeights m uid uids (vecU16MaxUpscaleToU16 values) := by
  unfold doSetWeights at h
  obtain ⟨-, h⟩ := ite_error_eq_ok.mp h
  obtain ⟨-, h⟩ := ite_error_eq_ok.mp h
  obtain ⟨-, h⟩ := ite_error_eq_ok.mp h
  obtain ⟨-, h⟩ := ite_error_eq_ok.mp h
  split at h
  · cases h
  · rename_i uid huid
    obtain ⟨-, h⟩ := ite_error_eq_ok.mp h
    obtain ⟨-, h⟩ := ite_error_eq_ok.mp h
    obtain ⟨-, h⟩ := ite_error_eq_ok.mp h
    obtain ⟨-, h⟩ := ite_error_eq_ok.mp h
    obtain ⟨-, h⟩ := ite_error_eq_ok.mp h
    obtain ⟨-, h⟩ := ite_error_eq_ok.mp h
    obtain ⟨-, h⟩ := ite_error_eq_ok.mp h
    obtain ⟨-, h⟩ := ite_error_eq_ok.mp h
    exact ⟨uid, huid, (Except.ok.inj h).symm⟩

theorem doSetWeights_keepsQueues {uids values : List U16} {versionKey : U64}
    (h : net.doSetWeights who m uids values versionKey = .ok net') :
    KeepsQueues netuid net net' := by
  obtain ⟨uid, -, rfl⟩ := doSetWeights_ok h
  exact storeWeights_keepsQueues uid uids _

theorem setCommits_sameSchedule (commits : Option (List (WeightCommit H))) :
    SameSchedule netuid net (net.setCommits m who commits) := by
  refine ⟨rfl, ?_, le_rfl⟩
  by_cases hm : netuid = m
  · subst hm
    simp [getRevealPeriod, setCommits, withWeights]
  · simp [getRevealPeriod, setCommits, withWeights, hm]

theorem commitsOf_setCommits (commits : Option (List (WeightCommit H))) (other : A) :
    (net.setCommits netuid who commits).commitsOf netuid other =
      if other = who then commits.getD [] else net.commitsOf netuid other := by
  by_cases hother : other = who
  · subst hother
    simp [commitsOf, setCommits, withWeights]
  · simp [commitsOf, setCommits, withWeights, hother]

theorem setCommits_keepsQueues (hm : netuid ≠ m) (commits : Option (List (WeightCommit H))) :
    KeepsQueues netuid net (net.setCommits m who commits) :=
  ⟨setCommits_sameSchedule commits, by simp [setCommits, withWeights, hm]⟩

/-- **A commit** drops the expired entries and appends one. -/
theorem doCommitWeights_ok {commitHash : H}
    (h : net.doCommitWeights who m commitHash = .ok net') :
    (net.dropExpired m (net.commitsOf m who)).length < 10 ∧ ∃ uid,
      net' = (net.setCommits m who (some (net.dropExpired m (net.commitsOf m who) ++
          [net.newCommit m commitHash]))).withChain
        (net.chain.setLastUpdateForUid m uid net.chain.block) := by
  unfold doCommitWeights at h
  obtain ⟨-, h⟩ := ite_error_eq_ok.mp h
  split at h
  · cases h
  · rename_i uid huid
    obtain ⟨-, h⟩ := ite_error_eq_ok.mp h
    obtain ⟨hlength, h⟩ := ite_error_eq_ok.mp h
    exact ⟨not_not.mp hlength, uid, (Except.ok.inj h).symm⟩

/-- **A reveal** consumes an entry in its window, and everything before it. -/
theorem doRevealWeights_ok [DecidableEq H] {hashOf : A → NetUid → Reveal → H} {reveal : Reveal}
    (h : net.doRevealWeights hashOf who m reveal = .ok net') :
    ∃ popped entry rest commits, net.commitsOf m who = popped ++ entry :: rest ∧
      entry.commitHash = hashOf who m reveal ∧
      net.isRevealBlockRange m entry.commitBlock = true ∧ commits.getD [] = rest ∧
      (net.setCommits m who commits).doSetWeights who m reveal.uids reveal.values
        reveal.versionKey = .ok net' := by
  unfold doRevealWeights at h
  obtain ⟨-, h⟩ := ite_error_eq_ok.mp h
  split at h
  · cases h
  · rename_i stored hstored
    obtain ⟨-, h⟩ := ite_error_eq_ok.mp h
    split at h
    · cases h
    · rename_i position hposition
      split at h
      · cases h
      · rename_i entry hentry
        obtain ⟨hrange, h⟩ := ite_error_eq_ok.mp h
        obtain ⟨hlt, hhash, -⟩ := List.findIdx?_eq_some_iff_getElem.mp hposition
        obtain ⟨_, hget⟩ := List.getElem?_eq_some_iff.mp hentry
        rw [hget] at hhash
        have hsplit : net.dropExpired m stored = (net.dropExpired m stored).take position ++
            entry :: (net.dropExpired m stored).drop (position + 1) := by
          rw [← hget, List.getElem_cons_drop, List.take_append_drop]
        refine ⟨stored.takeWhile (fun c => net.isCommitExpired m c.commitBlock) ++
            (net.dropExpired m stored).take position, entry,
          (net.dropExpired m stored).drop (position + 1), _, ?_, of_decide_eq_true hhash,
          not_not.mp hrange, ?_, h⟩
        · rw [List.append_assoc, ← hsplit]
          simp only [commitsOf, hstored, Option.getD_some, dropExpired,
            List.takeWhile_append_dropWhile]
        · by_cases hempty : (net.dropExpired m stored).drop (position + 1) = []
          · simp [hempty]
          · simp [hempty]

/-! What the two calls do to the queues of one subnet. -/

theorem doCommitWeights_sameSchedule {commitHash : H}
    (h : net.doCommitWeights who m commitHash = .ok net') : SameSchedule netuid net net' := by
  obtain ⟨-, uid, rfl⟩ := doCommitWeights_ok h
  exact (setCommits_sameSchedule _).trans (setLastUpdateForUid_keepsQueues uid _).toSameSchedule

theorem doCommitWeights_commitsOf {commitHash : H}
    (h : net.doCommitWeights who netuid commitHash = .ok net') (other : A) :
    net'.commitsOf netuid other =
      if other = who then net.dropExpired netuid (net.commitsOf netuid who) ++
        [net.newCommit netuid commitHash]
      else net.commitsOf netuid other := by
  obtain ⟨-, uid, rfl⟩ := doCommitWeights_ok h
  exact commitsOf_setCommits _ other

/-- A commit on another subnet. -/
theorem doCommitWeights_keepsQueues (hm : netuid ≠ m) {commitHash : H}
    (h : net.doCommitWeights who m commitHash = .ok net') : KeepsQueues netuid net net' := by
  obtain ⟨-, uid, rfl⟩ := doCommitWeights_ok h
  exact (setCommits_keepsQueues hm _).trans (setLastUpdateForUid_keepsQueues uid _)

/-- A reveal on another subnet. -/
theorem doRevealWeights_keepsQueues [DecidableEq H] {hashOf : A → NetUid → Reveal → H}
    (hm : netuid ≠ m) {reveal : Reveal}
    (h : net.doRevealWeights hashOf who m reveal = .ok net') : KeepsQueues netuid net net' := by
  obtain ⟨popped, entry, rest, commits, -, -, -, -, h⟩ := doRevealWeights_ok h
  exact (setCommits_keepsQueues hm commits).trans (doSetWeights_keepsQueues h)

end Network

end Subtensor
