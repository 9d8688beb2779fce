import Subtensor.Weights.Crv3
import Subtensor.Weights.RevealWindow

/-!
# What a block does to the timelocked commits of a subnet

A subnet has one turn in the epoch loop. If it is due, that turn takes out
the commits of one epoch; everything else in the step of the block, the turns of
other subnets included, leaves the stored commits of the subnet alone.
-/

namespace Subtensor.Network

open Lib

variable {A B P H : Type} {netuid m : NetUid} {net net₁ net' : Network A B P H}

/-! ## Steps that leave the commits alone -/

/-- The stored commits, and what decides when they are revealed, are as
before. -/
structure KeepsCrv3 (netuid : NetUid) (net net' : Network A B P H) : Prop where
  stored : (net'.weights netuid).crv3WeightCommits = (net.weights netuid).crv3WeightCommits
  tempo : net'.tempo netuid = net.tempo netuid
  period : net'.getRevealPeriod netuid = net.getRevealPeriod netuid
  block : net'.chain.block = net.chain.block

namespace KeepsCrv3

theorem refl (net : Network A B P H) : KeepsCrv3 netuid net net := ⟨rfl, rfl, rfl, rfl⟩

theorem trans (h₁ : KeepsCrv3 netuid net net₁) (h₂ : KeepsCrv3 netuid net₁ net') :
    KeepsCrv3 netuid net net' :=
  ⟨h₂.stored.trans h₁.stored, h₂.tempo.trans h₁.tempo, h₂.period.trans h₁.period,
    h₂.block.trans h₁.block⟩

theorem crv3CommitsOf (h : KeepsCrv3 netuid net net') (epoch : U64) :
    net'.crv3CommitsOf netuid epoch = net.crv3CommitsOf netuid epoch := by
  unfold Network.crv3CommitsOf
  rw [h.stored]

theorem getEpochIndex (h : KeepsCrv3 netuid net net') (block : U64) :
    net'.getEpochIndex netuid block = net.getEpochIndex netuid block := by
  unfold Network.getEpochIndex
  rw [h.tempo]

theorem shouldRunEpoch (h : KeepsCrv3 netuid net net') :
    net'.chain.shouldRunEpoch netuid = net.chain.shouldRunEpoch netuid := by
  have htempo : (net'.chain.subnets netuid).tempo = (net.chain.subnets netuid).tempo := h.tempo
  unfold Chain.shouldRunEpoch
  rw [h.block, htempo]

theorem crv3RevealEpoch (h : KeepsCrv3 netuid net net') :
    net'.crv3RevealEpoch netuid = net.crv3RevealEpoch netuid := by
  unfold Network.crv3RevealEpoch
  rw [h.block, h.getEpochIndex, h.period]

end KeepsCrv3

theorem withChain_keepsCrv3 {chain : Chain A B P} (h : Chain.KeepsClock net.chain chain) :
    KeepsCrv3 netuid net (net.withChain chain) :=
  ⟨rfl, h.tempo netuid, rfl, h.block⟩

theorem withWeights_keepsCrv3 {weights : SubnetWeights A H}
    (hstored : weights.crv3WeightCommits = (net.weights m).crv3WeightCommits)
    (hperiod : weights.revealPeriodEpochs = (net.weights m).revealPeriodEpochs) :
    KeepsCrv3 netuid net (net.withWeights m weights) := by
  by_cases hm : netuid = m
  · subst hm
    exact ⟨by simpa [withWeights] using hstored, rfl,
      by simpa [getRevealPeriod, withWeights] using hperiod, rfl⟩
  · exact ⟨by simp [withWeights, hm], rfl, by simp [getRevealPeriod, withWeights, hm], rfl⟩

theorem storeWeights_keepsCrv3 (uid : U16) (uids values : List U16) :
    KeepsCrv3 netuid net (net.storeWeights m uid uids values) := by
  have hweights : KeepsCrv3 netuid net (net.withWeights m
      { net.weights m with
        weights := Function.update (net.weights m).weights uid (uids.zip values) }) :=
    withWeights_keepsCrv3 rfl rfl
  simp only [storeWeights]
  split
  · exact hweights
  · exact hweights.trans (withChain_keepsCrv3 (.of_subnets rfl rfl rfl))

theorem withCrv3_keepsCrv3 (hm : netuid ≠ m)
    (f : StorageMap U64 (List (Crv3Commit A)) → StorageMap U64 (List (Crv3Commit A))) :
    KeepsCrv3 netuid net (net.withCrv3 m f) :=
  ⟨by simp [withCrv3, withWeights, hm], rfl,
    by simp [getRevealPeriod, withCrv3, withWeights, hm], rfl⟩

/-! ## What is taken out -/

theorem withCrv3_stored
    (f : StorageMap U64 (List (Crv3Commit A)) → StorageMap U64 (List (Crv3Commit A))) :
    ((net.withCrv3 netuid f).weights netuid).crv3WeightCommits =
      f (net.weights netuid).crv3WeightCommits := by
  simp [withCrv3, withWeights]

theorem withCrv3_period
    (f : StorageMap U64 (List (Crv3Commit A)) → StorageMap U64 (List (Crv3Commit A))) :
    (net.withCrv3 m f).getRevealPeriod netuid = net.getRevealPeriod netuid := by
  by_cases hm : netuid = m
  · subst hm
    simp [getRevealPeriod, withCrv3, withWeights]
  · simp [getRevealPeriod, withCrv3, withWeights, hm]

theorem lookup_cleanCrv3Commits (r : U64) (stored : StorageMap U64 (List (Crv3Commit A)))
    (epoch : U64) :
    (cleanCrv3Commits r stored).lookup epoch =
      if epoch.val < r.val then none else stored.lookup epoch := by
  unfold cleanCrv3Commits
  rw [StorageMap.lookup_foldl_erase]
  by_cases hlt : epoch.val < r.val
  · rw [if_pos hlt]
    by_cases hmem : epoch ∈ stored.keys
    · rw [if_pos (List.mem_filter.mpr ⟨hmem, decide_eq_true hlt⟩)]
    · rw [if_neg (fun h => hmem (List.mem_of_mem_filter h))]
      exact AList.lookup_eq_none.mpr hmem
  · rw [if_neg hlt, if_neg]
    intro hmem
    exact hlt (of_decide_eq_true (List.mem_filter.mp hmem).2)

/-- **The reveal takes out one epoch** and purges the earlier ones. -/
theorem takeCrv3Commits_commitsOf (net : Network A B P H) (netuid : NetUid) (epoch : U64) :
    (net.takeCrv3Commits netuid).1.crv3CommitsOf netuid epoch =
      if epoch.val < (net.crv3RevealEpoch netuid).val ∨
          2 ≤ (net.getEpochIndex netuid net.chain.block).val ∧ epoch = net.crv3RevealEpoch netuid
      then [] else net.crv3CommitsOf netuid epoch := by
  simp only [takeCrv3Commits]
  by_cases hcur : (net.getEpochIndex netuid net.chain.block).val < 2
  · rw [if_pos hcur]
    simp only [crv3CommitsOf, withCrv3_stored, lookup_cleanCrv3Commits, Nat.not_le.mpr hcur,
      false_and, or_false]
    split <;> rfl
  · rw [if_neg hcur]
    simp only [crv3CommitsOf, withCrv3_stored, Nat.not_lt.mp hcur, true_and]
    by_cases hepoch : epoch = net.crv3RevealEpoch netuid
    · subst hepoch
      simp
    · rw [AList.lookup_erase_ne hepoch, lookup_cleanCrv3Commits]
      simp only [hepoch, or_false]
      split <;> rfl

theorem takeCrv3Commits_entries (net : Network A B P H) (netuid : NetUid) :
    (net.takeCrv3Commits netuid).2 =
      ⟨net.getEpochIndex netuid net.chain.block, net.crv3RevealEpoch netuid,
        if (net.getEpochIndex netuid net.chain.block).val < 2 then []
        else net.crv3CommitsOf netuid (net.crv3RevealEpoch netuid)⟩ := by
  simp only [takeCrv3Commits]
  split
  · rfl
  · simp [crv3CommitsOf, withCrv3_stored, lookup_cleanCrv3Commits]

/-! ## The turn of a subnet -/

/-- The commits of one epoch are taken out. -/
structure TakesCrv3 (netuid : NetUid) (net net' : Network A B P H) : Prop where
  stored : ∀ epoch, net'.crv3CommitsOf netuid epoch =
    (net.takeCrv3Commits netuid).1.crv3CommitsOf netuid epoch
  tempo : net'.tempo netuid = net.tempo netuid
  period : net'.getRevealPeriod netuid = net.getRevealPeriod netuid
  block : net'.chain.block = net.chain.block

theorem takeCrv3Commits_takes : TakesCrv3 netuid net (net.takeCrv3Commits netuid).1 := by
  refine ⟨fun _ => rfl, ?_, ?_, ?_⟩
  · simp only [takeCrv3Commits]
    split <;> rfl
  · simp only [takeCrv3Commits]
    split <;> simp [withCrv3_period]
  · simp only [takeCrv3Commits]
    split <;> rfl

theorem TakesCrv3.keeps (h₁ : TakesCrv3 netuid net net₁) (h₂ : KeepsCrv3 netuid net₁ net') :
    TakesCrv3 netuid net net' :=
  ⟨fun epoch => (h₂.crv3CommitsOf epoch).trans (h₁.stored epoch), h₂.tempo.trans h₁.tempo,
    h₂.period.trans h₁.period, h₂.block.trans h₁.block⟩

theorem KeepsCrv3.takes (h₁ : KeepsCrv3 netuid net net₁) (h₂ : TakesCrv3 netuid net₁ net') :
    TakesCrv3 netuid net net' := by
  refine ⟨?_, h₂.tempo.trans h₁.tempo, h₂.period.trans h₁.period, h₂.block.trans h₁.block⟩
  intro epoch
  rw [h₂.stored, takeCrv3Commits_commitsOf, takeCrv3Commits_commitsOf, h₁.crv3RevealEpoch,
    h₁.block, h₁.getEpochIndex, h₁.crv3CommitsOf]

theorem KeepsCrv3.takeCrv3Commits (h : KeepsCrv3 netuid net net') :
    (net'.takeCrv3Commits netuid).2 = (net.takeCrv3Commits netuid).2 := by
  rw [takeCrv3Commits_entries, takeCrv3Commits_entries, h.crv3RevealEpoch, h.block,
    h.getEpochIndex, h.crv3CommitsOf]

theorem takeCrv3Commits_keepsCrv3 (hm : netuid ≠ m) :
    KeepsCrv3 netuid net (net.takeCrv3Commits m).1 := by
  simp only [Network.takeCrv3Commits]
  split
  · exact withCrv3_keepsCrv3 hm _
  · exact (withCrv3_keepsCrv3 hm _).trans (withCrv3_keepsCrv3 hm _)

variable [DecidableEq A] {decrypt : Crv3Commit A → Option WeightsTlockPayload}

theorem revealCrv3Commit_keepsCrv3 (entry : Crv3Commit A) :
    KeepsCrv3 netuid net (revealCrv3Commit decrypt m net entry) := by
  unfold revealCrv3Commit
  split
  · exact .refl net
  · split
    · exact .refl net
    · rename_i h
      obtain ⟨uid, -, rfl⟩ := doSetWeights_ok h
      exact storeWeights_keepsCrv3 uid _ _

theorem revealCrv3Commit_foldl_keepsCrv3 (entries : List (Crv3Commit A)) :
    KeepsCrv3 netuid net (entries.foldl (revealCrv3Commit decrypt m) net) := by
  induction entries generalizing net with
  | nil => exact .refl net
  | cons entry entries ih => exact (revealCrv3Commit_keepsCrv3 entry).trans ih

theorem revealCrv3Commits_takes :
    TakesCrv3 netuid net (net.revealCrv3Commits decrypt netuid).1 :=
  takeCrv3Commits_takes.keeps (revealCrv3Commit_foldl_keepsCrv3 _)

theorem revealCrv3Commits_keepsCrv3 (hm : netuid ≠ m) :
    KeepsCrv3 netuid net (net.revealCrv3Commits decrypt m).1 :=
  (takeCrv3Commits_keepsCrv3 hm).trans (revealCrv3Commit_foldl_keepsCrv3 _)

/-! ## The epoch loop -/

def revealsOf (netuid : NetUid) (log : List (NetUid × Crv3Reveal A)) : List (Crv3Reveal A) :=
  (log.filter (·.1 = netuid)).map (·.2)

variable {rt : Runtime A B P} {epoch : Epoch A B P}

theorem drainIfDue_of_ne (rt : Runtime A B P) (epoch : Epoch A B P)
    (decrypt : Crv3Commit A → Option WeightsTlockPayload) (state : Revealed A B P H)
    (hm : netuid ≠ m) :
    KeepsCrv3 netuid state.1 (drainIfDue rt epoch decrypt state m).1 ∧
      revealsOf netuid (drainIfDue rt epoch decrypt state m).2 = revealsOf netuid state.2 := by
  unfold drainIfDue
  split
  · refine ⟨(revealCrv3Commits_keepsCrv3 hm).trans
      (withChain_keepsCrv3 Chain.drainIfDue_keepsClock), ?_⟩
    simp [revealsOf, hm.symm]
  · exact ⟨.refl _, rfl⟩

theorem foldl_drainIfDue_of_notMem (rt : Runtime A B P) (epoch : Epoch A B P)
    (decrypt : Crv3Commit A → Option WeightsTlockPayload) {netuids : List NetUid}
    (hnotin : netuid ∉ netuids) (state : Revealed A B P H) :
    KeepsCrv3 netuid state.1 (netuids.foldl (drainIfDue rt epoch decrypt) state).1 ∧
      revealsOf netuid (netuids.foldl (drainIfDue rt epoch decrypt) state).2 =
        revealsOf netuid state.2 := by
  induction netuids generalizing state with
  | nil => exact ⟨.refl _, rfl⟩
  | cons n netuids ih =>
      obtain ⟨hne, hnotin⟩ := not_or.mp (fun h => hnotin (List.mem_cons.mpr h))
      obtain ⟨hkeeps, hlog⟩ := drainIfDue_of_ne rt epoch decrypt state hne
      obtain ⟨hkeeps', hlog'⟩ := ih hnotin (drainIfDue rt epoch decrypt state n)
      exact ⟨hkeeps.trans hkeeps', hlog'.trans hlog⟩

omit [DecidableEq A] in
theorem beforeEpochs_keepsClock {chain : Chain A B P} {blockEmission : U96F32} :
    Chain.KeepsClock chain (beforeEpochs rt chain blockEmission) := by
  have hprice : ∀ c n, Chain.KeepsClock c (Chain.updateMovingPrice rt c n) :=
    fun _ _ => Chain.updateMovingPrice_keepsClock
  exact (Chain.injection_keepsClock.trans Chain.rootSale_keepsClock).trans
    (Chain.KeepsClock.foldl hprice _ _)

/-- What a block does to the commits of a subnet, and the reveals it adds. -/
def Crv3Effect (netuid : NetUid) (net net' : Network A B P H) (reveals : List (Crv3Reveal A)) :
    Prop :=
  (net.chain.shouldRunEpoch netuid = true ∧ TakesCrv3 netuid net net' ∧
      reveals = [(net.takeCrv3Commits netuid).2]) ∨
    (net.chain.shouldRunEpoch netuid = false ∧ KeepsCrv3 netuid net net' ∧ reveals = [])

omit [DecidableEq A] in
theorem Crv3Effect.after {reveals : List (Crv3Reveal A)} (h : Crv3Effect netuid net net₁ reveals)
    (hkeeps : KeepsCrv3 netuid net₁ net') : Crv3Effect netuid net net' reveals := by
  rcases h with ⟨hdue, htakes, hreveals⟩ | ⟨hdue, hkeeps₁, hreveals⟩
  · exact Or.inl ⟨hdue, htakes.keeps hkeeps, hreveals⟩
  · exact Or.inr ⟨hdue, hkeeps₁.trans hkeeps, hreveals⟩

omit [DecidableEq A] in
theorem Crv3Effect.before {reveals : List (Crv3Reveal A)} (h : Crv3Effect netuid net₁ net' reveals)
    (hkeeps : KeepsCrv3 netuid net net₁) : Crv3Effect netuid net net' reveals := by
  unfold Crv3Effect at h ⊢
  rw [hkeeps.shouldRunEpoch, hkeeps.takeCrv3Commits] at h
  rcases h with ⟨hdue, htakes, hreveals⟩ | ⟨hdue, hkeeps₁, hreveals⟩
  · exact Or.inl ⟨hdue, hkeeps.takes htakes, hreveals⟩
  · exact Or.inr ⟨hdue, hkeeps.trans hkeeps₁, hreveals⟩

theorem drainIfDue_self (rt : Runtime A B P) (epoch : Epoch A B P)
    (decrypt : Crv3Commit A → Option WeightsTlockPayload) (state : Revealed A B P H)
    (netuid : NetUid) :
    ∃ reveals, Crv3Effect netuid state.1 (drainIfDue rt epoch decrypt state netuid).1 reveals ∧
      revealsOf netuid (drainIfDue rt epoch decrypt state netuid).2 =
        revealsOf netuid state.2 ++ reveals := by
  unfold drainIfDue
  cases hdue : state.1.chain.shouldRunEpoch netuid with
  | true =>
      refine ⟨_, Or.inl ⟨hdue, ?_, rfl⟩, ?_⟩
      · exact revealCrv3Commits_takes.keeps (withChain_keepsCrv3 Chain.drainIfDue_keepsClock)
      · simp [revealsOf, revealCrv3Commits]
  | false => exact ⟨[], Or.inr ⟨hdue, .refl _, rfl⟩, by simp⟩

theorem foldl_drainIfDue_of_mem (rt : Runtime A B P) (epoch : Epoch A B P)
    (decrypt : Crv3Commit A → Option WeightsTlockPayload) {netuids : List NetUid}
    (hnodup : netuids.Nodup) (hmem : netuid ∈ netuids) (state : Revealed A B P H) :
    ∃ reveals, Crv3Effect netuid state.1
        (netuids.foldl (drainIfDue rt epoch decrypt) state).1 reveals ∧
      revealsOf netuid (netuids.foldl (drainIfDue rt epoch decrypt) state).2 =
        revealsOf netuid state.2 ++ reveals := by
  obtain ⟨before, after, rfl⟩ := List.append_of_mem hmem
  obtain ⟨hbefore, hafter⟩ : netuid ∉ before ∧ netuid ∉ after := by
    rw [List.nodup_append] at hnodup
    obtain ⟨-, hnodup, hdisjoint⟩ := hnodup
    refine ⟨?_, (List.nodup_cons.mp hnodup).1⟩
    intro h
    exact hdisjoint netuid h netuid (List.mem_cons_self) rfl
  rw [List.foldl_append, List.foldl_cons]
  obtain ⟨hkeeps₁, hlog₁⟩ := foldl_drainIfDue_of_notMem rt epoch decrypt hbefore state
  obtain ⟨reveals, heffect, hlog⟩ := drainIfDue_self rt epoch decrypt
    (before.foldl (drainIfDue rt epoch decrypt) state) netuid
  obtain ⟨hkeeps₂, hlog₂⟩ := foldl_drainIfDue_of_notMem rt epoch decrypt hafter
    (drainIfDue rt epoch decrypt (before.foldl (drainIfDue rt epoch decrypt) state) netuid)
  refine ⟨reveals, (heffect.after hkeeps₂).before hkeeps₁, ?_⟩
  rw [hlog₂, hlog, hlog₁]

/-- **The step of a block** gives every subnet its turn. -/
theorem blockStep_effect (rt : Runtime A B P) (epoch : Epoch A B P)
    (decrypt : Crv3Commit A → Option WeightsTlockPayload)
    (hsubnet : netuid ∈ net.chain.coinbaseSubnets) :
    Crv3Effect netuid net (net.blockStep rt epoch decrypt).1
      (revealsOf netuid (net.blockStep rt epoch decrypt).2) := by
  have hsubnets : (net.chain.beforeCoinbase rt).coinbaseSubnets = net.chain.coinbaseSubnets :=
    Chain.beforeCoinbase_keepsClock.coinbaseSubnets
  have hnodup : (net.chain.beforeCoinbase rt).coinbaseSubnets.Nodup :=
    (net.chain.beforeCoinbase rt).networksAdded.keys_nodup.filter _
  have hbefore : ∀ blockEmission, KeepsCrv3 netuid net
      ((net.withChain (net.chain.beforeCoinbase rt)).withChain
        (beforeEpochs rt (net.chain.beforeCoinbase rt) blockEmission)) :=
    fun blockEmission => (withChain_keepsCrv3 Chain.beforeCoinbase_keepsClock).trans
      (withChain_keepsCrv3 beforeEpochs_keepsClock)
  unfold blockStep runCoinbase
  extract_lets blockEmission run
  obtain ⟨reveals, heffect, hlog⟩ := foldl_drainIfDue_of_mem rt epoch decrypt hnodup
    (hsubnets ▸ hsubnet) ((net.withChain (net.chain.beforeCoinbase rt)).withChain
      (beforeEpochs rt (net.chain.beforeCoinbase rt) blockEmission), [])
  have hreveals : revealsOf netuid run.2 = reveals := hlog.trans (List.nil_append _)
  rw [hreveals]
  exact (heffect.before (hbefore blockEmission)).after
    (withChain_keepsCrv3 Chain.trySetPendingChildren_keepsClock)

/-! No subnet is added or removed by the step of a block. -/

theorem revealCrv3Commit_networksAdded (entry : Crv3Commit A) :
    (revealCrv3Commit decrypt m net entry).chain.networksAdded = net.chain.networksAdded := by
  unfold revealCrv3Commit
  split
  · rfl
  · split
    · rfl
    · rename_i h
      obtain ⟨uid, -, rfl⟩ := doSetWeights_ok h
      simp only [storeWeights]
      split <;> rfl

theorem revealCrv3Commits_networksAdded :
    (net.revealCrv3Commits decrypt m).1.chain.networksAdded = net.chain.networksAdded := by
  have htake : (net.takeCrv3Commits m).1.chain = net.chain := by
    simp only [Network.takeCrv3Commits]
    split <;> rfl
  refine (Chain.foldl_keeps (fun net : Network A B P H => net.chain.networksAdded)
    (fun _ entry => revealCrv3Commit_networksAdded entry) _ _).trans ?_
  rw [htake]

theorem blockStep_networksAdded :
    (net.blockStep rt epoch decrypt).1.chain.networksAdded = net.chain.networksAdded := by
  have hdrain : ∀ (state : Revealed A B P H) (n : NetUid),
      (drainIfDue rt epoch decrypt state n).1.chain.networksAdded =
        state.1.chain.networksAdded := by
    intro state n
    unfold drainIfDue
    split
    · exact Chain.drainIfDue_keepsClock.networksAdded.trans revealCrv3Commits_networksAdded
    · rfl
  have hloop := Chain.foldl_keeps (fun state : Revealed A B P H => state.1.chain.networksAdded)
    hdrain
  exact Chain.trySetPendingChildren_keepsClock.networksAdded.trans ((hloop _ _).trans
    (beforeEpochs_keepsClock.networksAdded.trans Chain.beforeCoinbase_keepsClock.networksAdded))

/-! ## The commit -/

theorem doCommitCrv3Weights_ok {m : NetUid} {who : A} {commit : List UInt8} {revealRound : U64}
    (h : net.doCommitCrv3Weights who m commit revealRound = .ok net') :
    ∃ uid, net' = (net.withCrv3 m fun stored => stored.insert (net.crv3CommitEpoch m)
        (net.crv3CommitsOf m (net.crv3CommitEpoch m) ++ [⟨who, commit, revealRound⟩])).withChain
      (net.chain.setLastUpdateForUid m uid net.chain.block) := by
  unfold doCommitCrv3Weights at h
  obtain ⟨-, h⟩ := ite_error_eq_ok.mp h
  split at h
  · cases h
  · rename_i uid huid
    obtain ⟨-, h⟩ := ite_error_eq_ok.mp h
    obtain ⟨-, h⟩ := ite_error_eq_ok.mp h
    exact ⟨uid, (Except.ok.inj h).symm⟩

theorem doCommitCrv3Weights_commitsOf {who : A} {commit : List UInt8} {revealRound : U64}
    (h : net.doCommitCrv3Weights who netuid commit revealRound = .ok net') (epoch : U64) :
    net'.crv3CommitsOf netuid epoch =
      if epoch = net.crv3CommitEpoch netuid then
        net.crv3CommitsOf netuid epoch ++ [⟨who, commit, revealRound⟩]
      else net.crv3CommitsOf netuid epoch := by
  obtain ⟨uid, rfl⟩ := doCommitCrv3Weights_ok h
  show (((net.withCrv3 netuid _).weights netuid).crv3WeightCommits.lookup epoch).getD [] = _
  rw [withCrv3_stored]
  by_cases hepoch : epoch = net.crv3CommitEpoch netuid
  · subst hepoch
    rw [AList.lookup_insert, if_pos rfl, Option.getD_some]
  · rw [AList.lookup_insert_ne hepoch, if_neg hepoch]
    rfl

theorem doCommitCrv3Weights_schedule {who : A} {commit : List UInt8} {revealRound : U64}
    (h : net.doCommitCrv3Weights who m commit revealRound = .ok net') :
    net'.tempo netuid = net.tempo netuid ∧
      net'.getRevealPeriod netuid = net.getRevealPeriod netuid ∧
      net'.chain.block = net.chain.block := by
  obtain ⟨uid, rfl⟩ := doCommitCrv3Weights_ok h
  exact ⟨rfl, withCrv3_period _, rfl⟩

/-- A commit on another subnet. -/
theorem doCommitCrv3Weights_keepsCrv3 (hm : netuid ≠ m) {who : A} {commit : List UInt8}
    {revealRound : U64} (h : net.doCommitCrv3Weights who m commit revealRound = .ok net') :
    KeepsCrv3 netuid net net' := by
  obtain ⟨uid, rfl⟩ := doCommitCrv3Weights_ok h
  exact (withCrv3_keepsCrv3 hm _).trans (withChain_keepsCrv3 (.of_subnets rfl rfl rfl))

end Subtensor.Network
