import Subtensor.Weights.Crv3Block

/-!
# Runs of timelocked commits

Blocks follow one another; each starts with its step, in which a subnet that
is due reveals, and goes on with extrinsics. Beside the storage stand the
commits accepted under each epoch and the reveals of the subnet. A commit stored
under epoch `e` waits until the epoch `e + p - 1` is run, where `p` is the reveal
period, and is taken out there, once. Only the first epoch is different: under a
period of more than three epochs its commits are taken out in epoch `2`, since
the subtraction of the period saturates.
-/

namespace Subtensor.Network

open Lib

variable {A B P H : Type} {netuid : NetUid} {net net' : Network A B P H}

/-! ## Epochs of consecutive blocks -/

/-- The epoch under which commits are stored in the current block: the one of
the next block. -/
def curKey (net : Network A B P H) (netuid : NetUid) : ℕ :=
  (net.chain.block.val + 1 + (netuid.val + 1)) / ((net.tempo netuid).val + 1)

/-- The quotient grows after the last number with the same quotient. -/
theorem succ_div_succ (n d : ℕ) :
    (n + 1) / (d + 1) = n / (d + 1) + if n % (d + 1) = d then 1 else 0 := by
  have hmod : (n + 1) % (d + 1) = (n % (d + 1) + 1) % (d + 1) := by rw [Nat.mod_add_mod]
  have hlt : n % (d + 1) < d + 1 := Nat.mod_lt n (Nat.succ_pos d)
  by_cases hlast : n % (d + 1) = d
  · rw [if_pos hlast]
    rw [hlast, Nat.mod_self] at hmod
    exact Nat.succ_div_of_mod_eq_zero hmod
  · rw [if_neg hlast]
    have hnext : (n % (d + 1) + 1) % (d + 1) = n % (d + 1) + 1 := Nat.mod_eq_of_lt (by omega)
    rw [hnext] at hmod
    exact Nat.succ_div_of_mod_ne_zero (by omega)

theorem getEpochIndex_block (hnumber : net.chain.block.val < 2 ^ 32) :
    (net.getEpochIndex netuid net.chain.block).val =
      (net.chain.block.val + (netuid.val + 1)) / ((net.tempo netuid).val + 1) := by
  have hnetuid := netuid.isLt
  exact epochIndex_val (by omega)

theorem shouldRunEpoch_iff (htempo : 0 < (net.tempo netuid).val)
    (hnumber : net.chain.block.val < 2 ^ 32) :
    net.chain.shouldRunEpoch netuid = true ↔
      (net.chain.block.val + (netuid.val + 1)) % ((net.tempo netuid).val + 1) =
        (net.tempo netuid).val := by
  have hnetuid := netuid.isLt
  have hlt := (net.tempo netuid).isLt
  have hmod : (net.chain.block.val + (netuid.val + 1)) % ((net.tempo netuid).val + 1) <
      (net.tempo netuid).val + 1 := Nat.mod_lt _ (Nat.succ_pos _)
  have hwrap : ((Word.wrap (net.chain.block.val + (netuid.val + 1)) : U64)).val =
      net.chain.block.val + (netuid.val + 1) := Nat.mod_eq_of_lt (by omega)
  show decide ((Chain.blocksUntilNextEpoch netuid (net.tempo netuid) net.chain.block).val = 0) =
    true ↔ _
  unfold Chain.blocksUntilNextEpoch
  rw [if_neg htempo.ne', decide_eq_true_eq]
  simp only [hwrap]
  rw [Word.val_sat_of_lt (by omega)]
  omega

/-- An epoch is run in its last block. -/
theorem curKey_eq (net : Network A B P H) (htempo : 0 < (net.tempo netuid).val) (hnumber : net.chain.block.val < 2 ^ 32) :
    net.curKey netuid = (net.getEpochIndex netuid net.chain.block).val +
      if net.chain.shouldRunEpoch netuid = true then 1 else 0 := by
  have hdue := shouldRunEpoch_iff htempo hnumber
  rw [getEpochIndex_block hnumber, curKey, Nat.add_right_comm, succ_div_succ]
  simp only [hdue]

theorem crv3CommitEpoch_val (htempo : 0 < (net.tempo netuid).val)
    (hnumber : net.chain.block.val < 2 ^ 32) :
    (net.crv3CommitEpoch netuid).val = net.curKey netuid := by
  have hindex : (net.getEpochIndex netuid net.chain.block).val < 2 ^ 33 := by
    rw [getEpochIndex_block hnumber]
    have hnetuid := netuid.isLt
    exact (Nat.div_le_self _ _).trans_lt (by omega)
  rw [curKey_eq net htempo hnumber]
  unfold crv3CommitEpoch
  split
  · exact Word.val_satAdd_of_lt (by
      rw [show ((Word.sat 1 : U64)).val = 1 from rfl]
      omega)
  · rfl

/-! ## Recorded runs -/

/-- The storage, with the commits accepted under each epoch of a subnet and
the reveals that were run. -/
structure Crv3Trace (A B P H : Type) where
  net : Network A B P H
  accepted : U64 → List (Crv3Commit A)
  reveals : List (Crv3Reveal A)

/-- Where a run starts: nothing was accepted, nothing revealed. -/
def Crv3Trace.start (net : Network A B P H) : Crv3Trace A B P H := ⟨net, fun _ => [], []⟩

/-- The reveal takes commits out of an epoch. -/
def pops (epoch : U64) (r : Crv3Reveal A) : Bool := r.revealEpoch = epoch && !r.entries.isEmpty

/-- Exactly one reveal takes commits out of an epoch: the one of the current
epoch `n`, and it takes `entries`. -/
def RevealedOnce (reveals : List (Crv3Reveal A)) (epoch : U64) (n : ℕ)
    (entries : List (Crv3Commit A)) : Prop :=
  ∃ r, reveals.filter (pops epoch) = [r] ∧ r.curEpoch.val = n ∧ r.entries = entries

/-- The epoch in which the commits stored under `epoch` are taken out. -/
def takenIn (period epoch : U64) : ℕ :=
  if epoch.val = 0 ∧ 4 ≤ period.val then 2 else epoch.val + period.val - 1

variable [DecidableEq A]

/-- A step of a run, seen from one subnet: the next block with its step, a
commit, or anything that leaves the commits of the subnet and its schedule
alone. Block numbers have 32 bits. -/
inductive Crv3Step (rt : Runtime A B P) (netuid : NetUid) :
    Crv3Trace A B P H → Crv3Trace A B P H → Prop
  | block {s : Crv3Trace A B P H} (block : U64) (epoch : Epoch A B P)
      (decrypt : Crv3Commit A → Option WeightsTlockPayload)
      (hnext : block.val = s.net.chain.block.val + 1) (hnumber : block.val < 2 ^ 32)
      (hsubnet : netuid ∈ s.net.chain.coinbaseSubnets) :
      Crv3Step rt netuid s
        { s with
          net := ((s.net.atBlock block).blockStep rt epoch decrypt).1
          reveals := s.reveals ++
            revealsOf netuid ((s.net.atBlock block).blockStep rt epoch decrypt).2 }
  | commit {s : Crv3Trace A B P H} {net' : Network A B P H} (who : A) (commit : List UInt8)
      (revealRound : U64)
      (h : s.net.doCommitCrv3Weights who netuid commit revealRound = .ok net') :
      Crv3Step rt netuid s
        { s with
          net := net'
          accepted := Function.update s.accepted (s.net.crv3CommitEpoch netuid)
            (s.accepted (s.net.crv3CommitEpoch netuid) ++ [⟨who, commit, revealRound⟩]) }
  | other {s : Crv3Trace A B P H} {net' : Network A B P H} (h : KeepsCrv3 netuid s.net net') :
      Crv3Step rt netuid s { s with net := net' }

/-- What holds along a run: commits wait as they were accepted, until they
are taken out together. -/
structure Crv3Inv (netuid : NetUid) (s : Crv3Trace A B P H) : Prop where
  number : s.net.chain.block.val < 2 ^ 32
  waiting : ∀ epoch : U64, 2 ≤ epoch.val + (s.net.getRevealPeriod netuid).val - 1 →
    s.net.curKey netuid ≤ takenIn (s.net.getRevealPeriod netuid) epoch →
    s.net.crv3CommitsOf netuid epoch = s.accepted epoch ∧ s.reveals.filter (pops epoch) = []
  taken : ∀ epoch : U64, 2 ≤ epoch.val + (s.net.getRevealPeriod netuid).val - 1 →
    takenIn (s.net.getRevealPeriod netuid) epoch < s.net.curKey netuid →
    s.net.crv3CommitsOf netuid epoch = [] ∧ (s.accepted epoch ≠ [] →
      RevealedOnce s.reveals epoch (takenIn (s.net.getRevealPeriod netuid) epoch)
        (s.accepted epoch))

namespace Crv3Inv

variable {s s' : Crv3Trace A B P H} {reveals : List (Crv3Reveal A)}

omit [DecidableEq A] in
theorem start (hnumber : net.chain.block.val < 2 ^ 32)
    (hempty : ∀ epoch, net.crv3CommitsOf netuid epoch = []) :
    Crv3Inv netuid (Crv3Trace.start net) where
  number := hnumber
  waiting := fun epoch _ _ => ⟨hempty epoch, rfl⟩
  taken := fun epoch _ _ => ⟨hempty epoch, fun h => absurd rfl h⟩

omit [DecidableEq A] in
theorem other (hinv : Crv3Inv netuid s) (h : KeepsCrv3 netuid s.net net') :
    Crv3Inv netuid { s with net := net' } := by
  have hkey : net'.curKey netuid = s.net.curKey netuid := by
    unfold curKey
    rw [h.block, h.tempo]
  refine ⟨?_, ?_, ?_⟩
  · show net'.chain.block.val < 2 ^ 32
    rw [h.block]
    exact hinv.number
  · simp only [h.period, hkey, h.crv3CommitsOf]
    exact hinv.waiting
  · simp only [h.period, hkey, h.crv3CommitsOf]
    exact hinv.taken

end Crv3Inv

/-! ## The reveal of an epoch -/

omit [DecidableEq A] in
theorem crv3RevealEpoch_val (net : Network A B P H) (netuid : NetUid) :
    (net.crv3RevealEpoch netuid).val = (net.getEpochIndex netuid net.chain.block).val -
      ((net.getRevealPeriod netuid).val - 1) := rfl

omit [DecidableEq A] in
theorem pops_takeCrv3Commits {epoch : U64} :
    pops epoch (net.takeCrv3Commits netuid).2 = true ↔
      net.crv3RevealEpoch netuid = epoch ∧
        2 ≤ (net.getEpochIndex netuid net.chain.block).val ∧
        net.crv3CommitsOf netuid epoch ≠ [] := by
  rw [takeCrv3Commits_entries]
  unfold pops
  by_cases hepoch : net.crv3RevealEpoch netuid = epoch
  · subst hepoch
    by_cases hcur : (net.getEpochIndex netuid net.chain.block).val < 2
    · simp [hcur]
    · simp [hcur, Nat.not_lt.mp hcur]
  · simp [hepoch]

section

omit [DecidableEq A]

variable (net : Network A B P H) {epoch : U64} (hperiod : 1 ≤ (net.getRevealPeriod netuid).val)
  (htwo : 2 ≤ epoch.val + (net.getRevealPeriod netuid).val - 1)

include hperiod htwo

/-- Before its time an epoch is neither purged nor taken out. -/
theorem takeCrv3Commits_early (hearly : (net.getEpochIndex netuid net.chain.block).val <
      takenIn (net.getRevealPeriod netuid) epoch) :
    (net.takeCrv3Commits netuid).1.crv3CommitsOf netuid epoch =
        net.crv3CommitsOf netuid epoch ∧
      pops epoch (net.takeCrv3Commits netuid).2 = false := by
  have hval := crv3RevealEpoch_val net netuid
  have hother : 2 ≤ (net.getEpochIndex netuid net.chain.block).val →
      net.crv3RevealEpoch netuid ≠ epoch := by
    rintro htwo' rfl
    unfold takenIn at hearly
    split at hearly <;> omega
  have hkept : ¬epoch.val < (net.crv3RevealEpoch netuid).val := by
    unfold takenIn at hearly
    split at hearly <;> omega
  constructor
  · rw [takeCrv3Commits_commitsOf, if_neg]
    rintro (hlt | ⟨hcur, heq⟩)
    · exact hkept hlt
    · exact hother hcur heq.symm
  · rw [Bool.eq_false_iff]
    intro hpops
    obtain ⟨heq, hcur, -⟩ := pops_takeCrv3Commits.mp hpops
    exact hother hcur heq

theorem takeCrv3Commits_due (hdue : (net.getEpochIndex netuid net.chain.block).val =
      takenIn (net.getRevealPeriod netuid) epoch) :
    (net.takeCrv3Commits netuid).1.crv3CommitsOf netuid epoch = [] ∧
      (net.takeCrv3Commits netuid).2 = ⟨net.getEpochIndex netuid net.chain.block, epoch,
        net.crv3CommitsOf netuid epoch⟩ := by
  have hval := crv3RevealEpoch_val net netuid
  have hcur : 2 ≤ (net.getEpochIndex netuid net.chain.block).val := by
    rw [hdue]
    unfold takenIn
    split <;> omega
  have hepoch : net.crv3RevealEpoch netuid = epoch := by
    apply Word.ext
    rw [hval, hdue]
    unfold takenIn
    split <;> omega
  constructor
  · rw [takeCrv3Commits_commitsOf, if_pos (Or.inr ⟨hcur, hepoch.symm⟩)]
  · rw [takeCrv3Commits_entries, hepoch, if_neg (Nat.not_lt.mpr hcur)]

end

omit [DecidableEq A] in
theorem takeCrv3Commits_empty (net : Network A B P H) {epoch : U64}
    (hempty : net.crv3CommitsOf netuid epoch = []) :
    (net.takeCrv3Commits netuid).1.crv3CommitsOf netuid epoch = [] ∧
      pops epoch (net.takeCrv3Commits netuid).2 = false := by
  constructor
  · rw [takeCrv3Commits_commitsOf, hempty, ite_self]
  · rw [Bool.eq_false_iff]
    intro hpops
    exact (pops_takeCrv3Commits.mp hpops).2.2 hempty

namespace Crv3Inv

variable {s s' : Crv3Trace A B P H} {reveals : List (Crv3Reveal A)}

omit [DecidableEq A] in
/-- A block takes out the commits whose time has come. -/
theorem block (hinv : Crv3Inv netuid s) (hperiod : 1 ≤ (s.net.getRevealPeriod netuid).val)
    (htempo : 0 < (s.net.tempo netuid).val) {block : U64}
    (hnext : block.val = s.net.chain.block.val + 1) (hnumber : block.val < 2 ^ 32)
    (h : Crv3Effect netuid (s.net.atBlock block) net' reveals) :
    Crv3Inv netuid { s with net := net', reveals := s.reveals ++ reveals } := by
  have hcur : ((s.net.atBlock block).getEpochIndex netuid
      (s.net.atBlock block).chain.block).val = s.net.curKey netuid := by
    rw [getEpochIndex_block hnumber]
    unfold curKey
    rw [← hnext]
    rfl
  rcases h with ⟨hdue, htakes, rfl⟩ | ⟨hdue, hkeeps, rfl⟩
  · have hkey : net'.curKey netuid = s.net.curKey netuid + 1 := by
      have := curKey_eq (s.net.atBlock block) htempo hnumber
      rw [if_pos hdue, hcur] at this
      rw [← this]
      unfold curKey
      rw [htakes.block, htakes.tempo]
    have hperiod' : net'.getRevealPeriod netuid = s.net.getRevealPeriod netuid := htakes.period
    refine ⟨?_, ?_, ?_⟩
    · show net'.chain.block.val < 2 ^ 32
      rw [htakes.block]
      exact hnumber
    · intro epoch htwo hle
      simp only [hkey, hperiod'] at htwo hle
      obtain ⟨hstored, hpops⟩ := hinv.waiting epoch htwo (by omega)
      obtain ⟨hkept, hnot⟩ := takeCrv3Commits_early (s.net.atBlock block) hperiod htwo
        (by rw [hcur]; exact hle)
      refine ⟨(htakes.stored epoch).trans (hkept.trans hstored), ?_⟩
      rw [List.filter_append, hpops, List.nil_append, List.filter_singleton, hnot]
      rfl
    · intro epoch htwo hlt
      simp only [hkey, hperiod'] at htwo hlt ⊢
      rcases Nat.lt_or_ge (takenIn (s.net.getRevealPeriod netuid) epoch)
        (s.net.curKey netuid) with hbefore | hge
      · obtain ⟨hstored, honce⟩ := hinv.taken epoch htwo hbefore
        obtain ⟨hempty, hnot⟩ := takeCrv3Commits_empty (s.net.atBlock block) hstored
        refine ⟨(htakes.stored epoch).trans hempty, ?_⟩
        intro haccepted
        obtain ⟨r, hr, hrest⟩ := honce haccepted
        refine ⟨r, ?_, hrest⟩
        rw [List.filter_append, hr, List.filter_singleton, hnot]
        rfl
      · obtain ⟨hstored, hpops⟩ := hinv.waiting epoch htwo hge
        obtain ⟨hempty, hentries⟩ := takeCrv3Commits_due (s.net.atBlock block) hperiod htwo
          (hcur.trans (Nat.le_antisymm hge (Nat.le_of_lt_succ hlt)))
        refine ⟨(htakes.stored epoch).trans hempty, ?_⟩
        intro haccepted
        rw [hentries]
        refine ⟨⟨(s.net.atBlock block).getEpochIndex netuid (s.net.atBlock block).chain.block,
          epoch, (s.net.atBlock block).crv3CommitsOf netuid epoch⟩, ?_, ?_, hstored⟩
        · have hnonempty :
              ((s.net.atBlock block).crv3CommitsOf netuid epoch).isEmpty = false := by
            rw [← hstored] at haccepted
            exact List.isEmpty_eq_false_iff.mpr haccepted
          rw [List.filter_append, hpops, List.nil_append, List.filter_singleton]
          simp [pops, hnonempty]
        · exact hcur.trans (Nat.le_antisymm hge (Nat.le_of_lt_succ hlt))
  · have hkey : net'.curKey netuid = s.net.curKey netuid := by
      have := curKey_eq (s.net.atBlock block) htempo hnumber
      rw [hdue, if_neg Bool.false_ne_true, hcur, Nat.add_zero] at this
      rw [← this]
      unfold curKey
      rw [hkeeps.block, hkeeps.tempo]
    have hperiod' : net'.getRevealPeriod netuid = s.net.getRevealPeriod netuid := hkeeps.period
    refine ⟨?_, ?_, ?_⟩
    · show net'.chain.block.val < 2 ^ 32
      rw [hkeeps.block]
      exact hnumber
    · simp only [hkey, hperiod', hkeeps.crv3CommitsOf, List.append_nil]
      exact hinv.waiting
    · simp only [hkey, hperiod', hkeeps.crv3CommitsOf, List.append_nil]
      exact hinv.taken

/-- A commit is appended to the commits of the current key, whose time has not
come. -/
theorem commit (hinv : Crv3Inv netuid s) (hperiod : 1 ≤ (s.net.getRevealPeriod netuid).val)
    (htempo : 0 < (s.net.tempo netuid).val) {who : A} {commit : List UInt8} {revealRound : U64}
    (h : s.net.doCommitCrv3Weights who netuid commit revealRound = .ok net') :
    Crv3Inv netuid
      { s with
        net := net'
        accepted := Function.update s.accepted (s.net.crv3CommitEpoch netuid)
          (s.accepted (s.net.crv3CommitEpoch netuid) ++ [⟨who, commit, revealRound⟩]) } := by
  have hstored := doCommitCrv3Weights_commitsOf h
  obtain ⟨htempo', hperiod', hblock'⟩ := doCommitCrv3Weights_schedule h
  have hcommit : (s.net.crv3CommitEpoch netuid).val = s.net.curKey netuid :=
    crv3CommitEpoch_val htempo hinv.number
  have hkey : net'.curKey netuid = s.net.curKey netuid := by
    unfold curKey
    rw [hblock', htempo']
  have hwaits : s.net.curKey netuid ≤
      takenIn (s.net.getRevealPeriod netuid) (s.net.crv3CommitEpoch netuid) := by
    unfold takenIn
    split <;> omega
  refine ⟨?_, ?_, ?_⟩
  · show net'.chain.block.val < 2 ^ 32
    rw [hblock']
    exact hinv.number
  · intro epoch htwo hle
    simp only [hkey, hperiod'] at htwo hle
    obtain ⟨hwaiting, hpops⟩ := hinv.waiting epoch htwo hle
    refine ⟨?_, hpops⟩
    show net'.crv3CommitsOf netuid epoch = Function.update s.accepted _ _ epoch
    rw [hstored]
    by_cases hepoch : epoch = s.net.crv3CommitEpoch netuid
    · subst hepoch
      rw [if_pos rfl, Function.update_self, hwaiting]
    · rw [if_neg hepoch, Function.update_of_ne hepoch, hwaiting]
  · intro epoch htwo hlt
    simp only [hkey, hperiod'] at htwo hlt ⊢
    have hepoch : epoch ≠ s.net.crv3CommitEpoch netuid := by
      rintro rfl
      exact Nat.not_lt.mpr hwaits hlt
    obtain ⟨hempty, honce⟩ := hinv.taken epoch htwo hlt
    rw [hstored, if_neg hepoch, Function.update_of_ne hepoch]
    exact ⟨hempty, honce⟩

end Crv3Inv

/-! ## Runs -/

variable {rt : Runtime A B P} {s s' : Crv3Trace A B P H}

theorem Crv3Step.schedule (h : Crv3Step rt netuid s s') :
    s'.net.tempo netuid = s.net.tempo netuid ∧
      s'.net.getRevealPeriod netuid = s.net.getRevealPeriod netuid := by
  cases h with
  | block block epoch decrypt hnext hnumber hsubnet =>
      have heffect : Crv3Effect netuid (s.net.atBlock block) _ _ :=
        blockStep_effect rt epoch decrypt hsubnet
      rcases heffect with ⟨-, htakes, -⟩ | ⟨-, hkeeps, -⟩
      · exact ⟨htakes.tempo, htakes.period⟩
      · exact ⟨hkeeps.tempo, hkeeps.period⟩
  | commit who commit revealRound h =>
      obtain ⟨htempo, hperiod, -⟩ := doCommitCrv3Weights_schedule h
      exact ⟨htempo, hperiod⟩
  | other h => exact ⟨h.tempo, h.period⟩

theorem Crv3Inv.step (hinv : Crv3Inv netuid s) (hperiod : 1 ≤ (s.net.getRevealPeriod netuid).val)
    (htempo : 0 < (s.net.tempo netuid).val) (h : Crv3Step rt netuid s s') :
    Crv3Inv netuid s' := by
  cases h with
  | block block epoch decrypt hnext hnumber hsubnet =>
      exact hinv.block hperiod htempo hnext hnumber (blockStep_effect rt epoch decrypt hsubnet)
  | commit who commit revealRound h => exact hinv.commit hperiod htempo h
  | other h => exact hinv.other h

/-- The invariant, and the constant schedule, along a run. -/
theorem Crv3Inv.run (hinv : Crv3Inv netuid s) (hperiod : 1 ≤ (s.net.getRevealPeriod netuid).val)
    (htempo : 0 < (s.net.tempo netuid).val)
    (h : Relation.ReflTransGen (Crv3Step rt netuid) s s') :
    Crv3Inv netuid s' ∧ s'.net.tempo netuid = s.net.tempo netuid ∧
      s'.net.getRevealPeriod netuid = s.net.getRevealPeriod netuid := by
  induction h with
  | refl => exact ⟨hinv, rfl, rfl⟩
  | tail _ hstep ih =>
      obtain ⟨hinv', htempo', hperiod'⟩ := ih
      obtain ⟨htempo'', hperiod''⟩ := hstep.schedule
      exact ⟨hinv'.step (hperiod' ▸ hperiod) (htempo' ▸ htempo) hstep, htempo''.trans htempo',
        hperiod''.trans hperiod'⟩

theorem exists_blocks (rt : Runtime A B P) (s : Crv3Trace A B P H) (epoch : Epoch A B P)
    (hsubnet : netuid ∈ s.net.chain.coinbaseSubnets) (n : ℕ)
    (hnumber : s.net.chain.block.val + n < 2 ^ 32) :
    ∃ s', Relation.ReflTransGen (Crv3Step rt netuid) s s' ∧ s'.accepted = s.accepted ∧
      s'.net.chain.block.val = s.net.chain.block.val + n ∧
      s'.net.tempo netuid = s.net.tempo netuid ∧ netuid ∈ s'.net.chain.coinbaseSubnets := by
  induction n with
  | zero => exact ⟨s, .refl, rfl, rfl, rfl, hsubnet⟩
  | succ n ih =>
      obtain ⟨s', hrun, haccepted, hblock, htempo, hsubnet'⟩ := ih (by omega)
      let block : U64 := ⟨s'.net.chain.block.val + 1, by omega⟩
      have hlt : block.val < 2 ^ 32 := by
        show s'.net.chain.block.val + 1 < 2 ^ 32
        omega
      have hstep : Crv3Step rt netuid s' _ :=
        .block block epoch (fun _ => none) rfl hlt hsubnet'
      refine ⟨_, hrun.tail hstep, haccepted, ?_, hstep.schedule.1.trans htempo, ?_⟩
      · have heffect : Crv3Effect netuid (s'.net.atBlock block) _ _ :=
          blockStep_effect rt epoch (fun _ => none) hsubnet'
        have hkept : (((s'.net.atBlock block).blockStep rt epoch fun _ => none).1).chain.block =
            block := by
          rcases heffect with ⟨-, htakes, -⟩ | ⟨-, hkeeps, -⟩
          · exact htakes.block
          · exact hkeeps.block
        show (((s'.net.atBlock block).blockStep rt epoch fun _ => none).1).chain.block.val = _
        rw [hkept]
        show s'.net.chain.block.val + 1 = _
        omega
      · have hnetworks : (((s'.net.atBlock block).blockStep rt epoch
            fun _ => none).1).chain.networksAdded = s'.net.chain.networksAdded :=
          blockStep_networksAdded
        show netuid ∈ Chain.coinbaseSubnets _
        unfold Chain.coinbaseSubnets Chain.getAllSubnetNetuids at hsubnet' ⊢
        rw [hnetworks]
        exact hsubnet'

/-- A commit, and `n` blocks after it. -/
theorem exists_run_of_commit (rt : Runtime A B P) {who : A} {commit : List UInt8}
    {revealRound : U64} (h : net.doCommitCrv3Weights who netuid commit revealRound = .ok net')
    (hsubnet : netuid ∈ net.chain.coinbaseSubnets) (n : ℕ)
    (hnumber : net.chain.block.val + n < 2 ^ 32) :
    ∃ s, Relation.ReflTransGen (Crv3Step rt netuid) (Crv3Trace.start net) s ∧
      s.accepted = Function.update (fun _ => []) (net.crv3CommitEpoch netuid)
        [⟨who, commit, revealRound⟩] ∧
      s.net.curKey netuid =
        (net.chain.block.val + n + 1 + (netuid.val + 1)) / ((net.tempo netuid).val + 1) := by
  have hstep : Crv3Step rt netuid (Crv3Trace.start net) _ := .commit who commit revealRound h
  have hsubnet' : netuid ∈ net'.chain.coinbaseSubnets := by
    obtain ⟨uid, rfl⟩ := doCommitCrv3Weights_ok h
    exact hsubnet
  obtain ⟨htempo, -, hblock⟩ : net'.tempo netuid = net.tempo netuid ∧ _ :=
    doCommitCrv3Weights_schedule h
  obtain ⟨s, hrun, haccepted, hblock', htempo', -⟩ := exists_blocks rt
    ⟨net', _, []⟩ (fun chain netuid _ => (chain.neurons netuid, [])) hsubnet' n
    (by show net'.chain.block.val + n < 2 ^ 32; rw [hblock]; exact hnumber)
  refine ⟨s, .head hstep hrun, haccepted, ?_⟩
  unfold curKey
  rw [hblock', htempo', htempo, ← hblock]

/-- **Timelocked commits.** In every run of consecutive blocks under a constant
tempo and period `p`, the commits accepted under an epoch `e` wait until the
epoch `e + p - 1` is run, where one reveal takes all of them out, if `e` is not
the first epoch or `p` is at most `3`; and only then. -/
theorem crv3_revealedOnce_iff (rt : Runtime A B P) (netuid : NetUid) (net : Network A B P H)
    (hnumber : net.chain.block.val < 2 ^ 32) (htempo : 0 < (net.tempo netuid).val)
    (hperiod : 1 ≤ (net.getRevealPeriod netuid).val)
    (hempty : ∀ epoch, net.crv3CommitsOf netuid epoch = [])
    (hrun : Relation.ReflTransGen (Crv3Step rt netuid) (Crv3Trace.start net) s)
    (epoch : U64) (haccepted : s.accepted epoch ≠ [])
    (htwo : 2 ≤ epoch.val + (net.getRevealPeriod netuid).val - 1) :
    ((1 ≤ epoch.val ∨ (net.getRevealPeriod netuid).val ≤ 3) →
      s.net.curKey netuid ≤ epoch.val + (net.getRevealPeriod netuid).val - 1 →
        s.net.crv3CommitsOf netuid epoch = s.accepted epoch ∧
          s.reveals.filter (pops epoch) = []) ∧
    (epoch.val + (net.getRevealPeriod netuid).val - 1 < s.net.curKey netuid →
      (RevealedOnce s.reveals epoch (epoch.val + (net.getRevealPeriod netuid).val - 1)
          (s.accepted epoch) ↔
        1 ≤ epoch.val ∨ (net.getRevealPeriod netuid).val ≤ 3)) := by
  have hstart : Crv3Inv netuid (Crv3Trace.start net) := .start hnumber hempty
  obtain ⟨hinv, -, hperiod'⟩ := hstart.run hperiod htempo hrun
  change s.net.getRevealPeriod netuid = net.getRevealPeriod netuid at hperiod'
  have htaken : (1 ≤ epoch.val ∨ (net.getRevealPeriod netuid).val ≤ 3) →
      takenIn (net.getRevealPeriod netuid) epoch =
        epoch.val + (net.getRevealPeriod netuid).val - 1 := by
    intro hcond
    unfold takenIn
    rw [if_neg (by omega)]
  constructor
  · intro hcond hle
    have hwaiting := hinv.waiting epoch
    rw [hperiod', htaken hcond] at hwaiting
    exact hwaiting htwo hle
  · intro hlt
    have htake := hinv.taken epoch
    rw [hperiod'] at htake
    constructor
    · intro honce
      by_contra hcond
      have hfirst : takenIn (net.getRevealPeriod netuid) epoch = 2 := by
        unfold takenIn
        rw [if_pos (by omega)]
      rw [hfirst] at htake
      obtain ⟨r, hr, hrepoch, -⟩ := honce
      obtain ⟨r', hr', hrepoch', -⟩ := (htake htwo (by omega)).2 haccepted
      rw [hr] at hr'
      obtain rfl := List.cons.inj hr' |>.1
      omega
    · intro hcond
      rw [htaken hcond] at htake
      exact (htake htwo hlt).2 haccepted

/-- A commit of the epoch `2` of the subnet `1`, taken out in its last block. -/
theorem crv3_revealedOnce_iff_smallNetwork :
    ∃ s, Relation.ReflTransGen (Crv3Step runtime (.sat 1))
        (Crv3Trace.start (smallNetwork ℕ)) s ∧
      s.accepted (.sat 2) ≠ [] ∧ RevealedOnce s.reveals (.sat 2) 2 (s.accepted (.sat 2)) := by
  have hcommit : ((smallNetwork ℕ).doCommitCrv3Weights 1 (.sat 1) [7] 0).toOption.map
      (fun _ => ()) = some () := by decide +kernel
  obtain ⟨net', hok, -⟩ := exists_ok_of_toOption_map hcommit
  have hsubnet : .sat 1 ∈ (smallNetwork ℕ).chain.coinbaseSubnets := by decide +kernel
  have hepoch : (smallNetwork ℕ).crv3CommitEpoch (.sat 1) = .sat 2 := by decide +kernel
  obtain ⟨s, hrun, haccepted, hkey⟩ := exists_run_of_commit runtime hok hsubnet 100 (by decide)
  have hnonempty : s.accepted (.sat 2) ≠ [] := by
    rw [haccepted, hepoch, Function.update_self]
    exact List.cons_ne_nil _ _
  have hiff := crv3_revealedOnce_iff runtime (.sat 1) (smallNetwork ℕ) (by decide) (by decide)
    (by decide) (fun _ => rfl) hrun (.sat 2) hnonempty (by decide)
  have hpassed : 2 < s.net.curKey (.sat 1) := by
    rw [hkey]
    decide +kernel
  exact ⟨s, hrun, hnonempty, (hiff.2 hpassed).mpr (by decide)⟩

/-- The small network at its first block, with epochs of four blocks and a
reveal period of four epochs. -/
def firstEpochNetwork : Network ℕ (Balances ℕ) (SwapStorage ℕ) ℕ where
  chain := { (smallNetwork ℕ).chain with
    block := 0
    subnets := fun netuid => { (smallNetwork ℕ).chain.subnets netuid with tempo := .sat 3 } }
  weights := fun netuid =>
    { (smallNetwork ℕ).weights netuid with revealPeriodEpochs := .sat 4 }

/-- A commit of the first epoch is taken out in the epoch `2`, while the epoch
`3 = 0 + 4 - 1` was not yet run. -/
theorem crv3_takenEarly_firstEpochNetwork :
    ∃ s, Relation.ReflTransGen (Crv3Step runtime (.sat 1))
        (Crv3Trace.start firstEpochNetwork) s ∧
      s.accepted 0 ≠ [] ∧
      s.net.curKey (.sat 1) ≤
        (0 : U64).val + (firstEpochNetwork.getRevealPeriod (.sat 1)).val - 1 ∧
      s.net.crv3CommitsOf (.sat 1) 0 = [] ∧ RevealedOnce s.reveals 0 2 (s.accepted 0) := by
  have hcommit : (firstEpochNetwork.doCommitCrv3Weights 1 (.sat 1) [7] 0).toOption.map
      (fun _ => ()) = some () := by decide +kernel
  obtain ⟨net', hok, -⟩ := exists_ok_of_toOption_map hcommit
  have hsubnet : .sat 1 ∈ firstEpochNetwork.chain.coinbaseSubnets := by decide +kernel
  have hepoch : firstEpochNetwork.crv3CommitEpoch (.sat 1) = 0 := by decide +kernel
  obtain ⟨s, hrun, haccepted, hkey⟩ := exists_run_of_commit runtime hok hsubnet 9 (by decide)
  have hnonempty : s.accepted 0 ≠ [] := by
    rw [haccepted, hepoch, Function.update_self]
    exact List.cons_ne_nil _ _
  have hkey' : s.net.curKey (.sat 1) = 3 := by
    rw [hkey]
    decide +kernel
  have hstart : Crv3Inv (.sat 1) (Crv3Trace.start firstEpochNetwork) :=
    .start (by decide) (fun _ => rfl)
  obtain ⟨hinv, -, hperiod⟩ := hstart.run (by decide) (by decide) hrun
  have htaken := hinv.taken 0
  rw [hperiod, hkey'] at htaken
  obtain ⟨hstored, honce⟩ := htaken (by decide) (by decide)
  exact ⟨s, hrun, hnonempty, by rw [hkey']; decide, hstored, honce hnonempty⟩

end Subtensor.Network
