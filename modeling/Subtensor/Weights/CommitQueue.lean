import Subtensor.Weights.RevealWindow

/-!
# Runs of commits and reveals

A run is recorded: beside the storage stand the commits that were accepted for
each hotkey, and for each successful reveal the place of the commit it
consumed. The queue in storage is always the end of the list of accepted
commits, so a consumed commit can not come back.
-/

namespace Subtensor.Network

open Lib

variable {A B P H : Type} {netuid : NetUid} {net net' : Network A B P H}

/-! ## The queue -/

/-- What holds of every stored queue. -/
structure QueueInv (net : Network A B P H) (netuid : NetUid) (queue : List (WeightCommit H)) :
    Prop where
  sorted : queue.Pairwise fun a b => a.commitBlock.val ≤ b.commitBlock.val
  past : ∀ c ∈ queue, c.commitBlock.val ≤ net.chain.block.val
  length : queue.length ≤ 10
  window : ∀ c ∈ queue,
    (c.firstRevealBlock, c.lastRevealBlock) = net.getRevealBlocks netuid c.commitBlock

/-- The expired entries are in front of the others. -/
def ExpiredPrefix (net : Network A B P H) (netuid : NetUid) (queue : List (WeightCommit H)) :
    Prop :=
  ∃ front back, queue = front ++ back ∧
    (∀ c ∈ front, net.isCommitExpired netuid c.commitBlock = true) ∧
    ∀ c ∈ back, net.isCommitExpired netuid c.commitBlock = false

theorem isCommitExpired_anti {a b : U64} (hle : a.val ≤ b.val)
    (h : net.isCommitExpired netuid b = true) : net.isCommitExpired netuid a = true := by
  unfold isCommitExpired at h ⊢
  rw [decide_eq_true_eq] at h ⊢
  refine lt_of_le_of_lt ?_ h
  have hindex : (net.getEpochIndex netuid a).val ≤ (net.getEpochIndex netuid b).val :=
    epochIndex_mono hle
  unfold revealEpoch
  rw [Word.val_satAdd, Word.val_satAdd]
  exact min_le_min_right _ (Nat.add_le_add_right hindex _)

namespace QueueInv

variable {queue queue' : List (WeightCommit H)}

theorem nil (net : Network A B P H) (netuid : NetUid) : QueueInv net netuid [] :=
  ⟨List.Pairwise.nil, by simp, by simp, by simp⟩

theorem sublist (h : QueueInv net netuid queue) (hsub : queue'.Sublist queue) :
    QueueInv net netuid queue' where
  sorted := h.sorted.sublist hsub
  past := fun c hc => h.past c (hsub.subset hc)
  length := hsub.length_le.trans h.length
  window := fun c hc => h.window c (hsub.subset hc)

/-- Time passes under a constant schedule. -/
theorem mono (h : QueueInv net netuid queue) (hs : SameSchedule netuid net net') :
    QueueInv net' netuid queue where
  sorted := h.sorted
  past := fun c hc => (h.past c hc).trans hs.block
  length := h.length
  window := fun c hc => by rw [hs.getRevealBlocks, h.window c hc]

theorem append_newCommit (h : QueueInv net netuid queue) (hlength : queue.length < 10)
    (commitHash : H) : QueueInv net netuid (queue ++ [net.newCommit netuid commitHash]) where
  sorted := by
    rw [List.pairwise_append]
    refine ⟨h.sorted, List.pairwise_singleton _ _, ?_⟩
    intro a ha b hb
    rw [List.mem_singleton] at hb
    subst hb
    exact h.past a ha
  past := by
    intro c hc
    rcases List.mem_append.mp hc with hc | hc
    · exact h.past c hc
    · rw [List.mem_singleton] at hc
      subst hc
      exact le_rfl
  length := by
    simp only [List.length_append, List.length_singleton]
    omega
  window := by
    intro c hc
    rcases List.mem_append.mp hc with hc | hc
    · exact h.window c hc
    · rw [List.mem_singleton] at hc
      subst hc
      rfl

/-- In a sorted queue an entry behind one that has not expired has not
expired either. -/
theorem expiredPrefix (h : QueueInv net netuid queue) : ExpiredPrefix net netuid queue := by
  induction queue with
  | nil => exact ⟨[], [], rfl, by simp, by simp⟩
  | cons c queue ih =>
      cases hc : net.isCommitExpired netuid c.commitBlock with
      | true =>
          obtain ⟨front, back, rfl, hfront, hback⟩ := ih (h.sublist (List.sublist_cons_self c queue))
          refine ⟨c :: front, back, rfl, ?_, hback⟩
          intro d hd
          rcases List.mem_cons.mp hd with rfl | hd
          · exact hc
          · exact hfront d hd
      | false =>
          refine ⟨[], c :: queue, rfl, by simp, ?_⟩
          intro d hd
          rcases List.mem_cons.mp hd with rfl | hd
          · exact hc
          · have hle := List.rel_of_pairwise_cons h.sorted hd
            by_contra hexpired
            rw [Bool.not_eq_false] at hexpired
            rw [isCommitExpired_anti hle hexpired] at hc
            cases hc

end QueueInv

/-! ## Recorded runs -/

/-- A successful reveal: the place of the consumed commit among the accepted
commits of its hotkey, the block, and what was revealed. -/
structure RevealRecord where
  index : ℕ
  block : U64
  reveal : Reveal

/-- The storage, with the accepted commits and the successful reveals of each
hotkey on a subnet. -/
structure Recorded (A B P H : Type) where
  net : Network A B P H
  accepted : A → List (WeightCommit H)
  revealed : A → List RevealRecord

variable {hashOf : A → NetUid → Reveal → H}

/-- Where a run starts: no commit is stored for the subnet. -/
def Recorded.start (net : Network A B P H) : Recorded A B P H := ⟨net, fun _ => [], fun _ => []⟩

/-- A consumed commit: it was accepted, its hash was provided, and it was
revealed in its epoch. -/
def RevealRecord.Consumes (record : RevealRecord) (hashOf : A → NetUid → Reveal → H)
    (s : Recorded A B P H) (netuid : NetUid) (who : A) : Prop :=
  ∃ entry, (s.accepted who)[record.index]? = some entry ∧
    entry.commitHash = hashOf who netuid record.reveal ∧
    entry.commitBlock.val ≤ record.block.val ∧
    (entry.firstRevealBlock, entry.lastRevealBlock) =
      s.net.getRevealBlocks netuid entry.commitBlock ∧
    (s.net.getEpochIndex netuid record.block).val =
      (s.net.revealEpoch netuid entry.commitBlock).val

/-- What was consumed stays consumed when commits are appended. -/
theorem RevealRecord.Consumes.mono {record : RevealRecord} {s s' : Recorded A B P H} {who : A}
    (h : record.Consumes hashOf s netuid who) (hs : SameSchedule netuid s.net s'.net)
    (hfront : s.accepted who <+: s'.accepted who) : record.Consumes hashOf s' netuid who := by
  obtain ⟨entry, hentry, hhash, hle, hblocks, hepoch⟩ := h
  refine ⟨entry, ?_, hhash, hle, ?_, ?_⟩
  · obtain ⟨tail, htail⟩ := hfront
    rw [← htail]
    exact List.getElem?_append_left (List.getElem?_eq_some_iff.mp hentry).1 ▸ hentry
  · rw [hs.getRevealBlocks, hblocks]
  · rw [hs.getEpochIndex, hs.revealEpoch, hepoch]

/-- What holds along a recorded run. -/
structure RecordedInv (hashOf : A → NetUid → Reveal → H) (netuid : NetUid)
    (s : Recorded A B P H) : Prop where
  queue : ∀ who, QueueInv s.net netuid (s.net.commitsOf netuid who)
  suffix : ∀ who, s.net.commitsOf netuid who <:+ s.accepted who
  consumed : ∀ who, ∀ record ∈ s.revealed who, record.Consumes hashOf s netuid who
  ahead : ∀ who, ∀ record ∈ s.revealed who,
    record.index + (s.net.commitsOf netuid who).length < (s.accepted who).length
  increasing : ∀ who, (s.revealed who).Pairwise fun a b => a.index < b.index

namespace RecordedInv

variable {s : Recorded A B P H}

theorem start (net : Network A B P H) (hempty : ∀ who, net.commitsOf netuid who = []) :
    RecordedInv hashOf netuid (Recorded.start net) where
  queue := fun who => hempty who ▸ QueueInv.nil net netuid
  suffix := fun who => by
    show net.commitsOf netuid who <:+ []
    rw [hempty who]
  consumed := fun who record hrecord => absurd hrecord (List.not_mem_nil)
  ahead := fun who record hrecord => absurd hrecord (List.not_mem_nil)
  increasing := fun who => List.Pairwise.nil

theorem other (h : RecordedInv hashOf netuid s) (hkeeps : KeepsQueues netuid s.net net') :
    RecordedInv hashOf netuid { s with net := net' } where
  queue := fun who => by
    rw [hkeeps.commitsOf]
    exact (h.queue who).mono hkeeps.toSameSchedule
  suffix := fun who => by
    rw [hkeeps.commitsOf]
    exact h.suffix who
  consumed := fun who record hrecord =>
    (h.consumed who record hrecord).mono hkeeps.toSameSchedule (List.prefix_refl _)
  ahead := fun who record hrecord => by
    rw [hkeeps.commitsOf]
    exact h.ahead who record hrecord
  increasing := h.increasing

end RecordedInv

/-! ## Steps -/

variable [DecidableEq A]

namespace Recorded

/-- The commit that was appended is accepted. -/
def accept (s : Recorded A B P H) (netuid : NetUid) (who : A) (commitHash : H)
    (net' : Network A B P H) : Recorded A B P H where
  net := net'
  accepted := Function.update s.accepted who
    (s.accepted who ++ [s.net.newCommit netuid commitHash])
  revealed := s.revealed

/-- A reveal removes its commit and everything before it, so the commit is the
one in front of what is left. -/
def consume (s : Recorded A B P H) (netuid : NetUid) (who : A) (reveal : Reveal)
    (net' : Network A B P H) : Recorded A B P H where
  net := net'
  accepted := s.accepted
  revealed := Function.update s.revealed who (s.revealed who ++
    [⟨(s.accepted who).length - (net'.commitsOf netuid who).length - 1, s.net.chain.block, reveal⟩])

end Recorded

variable [DecidableEq H]

/-- A step of the pallet, seen from one subnet: a successful commit, a
successful reveal, or anything that leaves the queues of the subnet alone
(such as a commit or a reveal on another subnet). -/
inductive RecordedStep (hashOf : A → NetUid → Reveal → H) (netuid : NetUid) :
    Recorded A B P H → Recorded A B P H → Prop
  | commit {s : Recorded A B P H} {net' : Network A B P H} (who : A) (commitHash : H)
      (h : s.net.doCommitWeights who netuid commitHash = .ok net') :
      RecordedStep hashOf netuid s (s.accept netuid who commitHash net')
  | reveal {s : Recorded A B P H} {net' : Network A B P H} (who : A) (r : Reveal)
      (h : s.net.doRevealWeights hashOf who netuid r = .ok net') :
      RecordedStep hashOf netuid s (s.consume netuid who r net')
  | other {s : Recorded A B P H} {net' : Network A B P H} (h : KeepsQueues netuid s.net net') :
      RecordedStep hashOf netuid s { s with net := net' }

namespace RecordedInv

variable {s s' : Recorded A B P H} {who : A}

omit [DecidableEq H] in
theorem commit (hinv : RecordedInv hashOf netuid s) {commitHash : H}
    (h : s.net.doCommitWeights who netuid commitHash = .ok net') :
    RecordedInv hashOf netuid (s.accept netuid who commitHash net') := by
  have hs : SameSchedule netuid s.net net' := doCommitWeights_sameSchedule h
  have hqueue := doCommitWeights_commitsOf h
  have hdrop : s.net.dropExpired netuid (s.net.commitsOf netuid who) <:+
      s.net.commitsOf netuid who := List.dropWhile_suffix _
  have hfront : ∀ x, s.accepted x <+: (s.accept netuid who commitHash net').accepted x := by
    intro x
    by_cases hx : x = who
    · subst hx
      simp [Recorded.accept]
    · simp [Recorded.accept, hx]
  refine ⟨?_, ?_, ?_, ?_, hinv.increasing⟩
  · intro x
    show QueueInv net' netuid (net'.commitsOf netuid x)
    rw [hqueue]
    split
    · exact (((hinv.queue who).sublist hdrop.sublist).append_newCommit
        (doCommitWeights_ok h).1 commitHash).mono hs
    · exact (hinv.queue x).mono hs
  · intro x
    show net'.commitsOf netuid x <:+ _
    rw [hqueue]
    by_cases hx : x = who
    · subst hx
      obtain ⟨front, hfront⟩ := hdrop.trans (hinv.suffix x)
      refine ⟨front, ?_⟩
      simp [Recorded.accept, ← hfront]
    · simpa [Recorded.accept, hx] using hinv.suffix x
  · intro x record hrecord
    exact (hinv.consumed x record hrecord).mono hs (hfront x)
  · intro x record hrecord
    have hahead := hinv.ahead x record hrecord
    show record.index + (net'.commitsOf netuid x).length < _
    rw [hqueue]
    by_cases hx : x = who
    · subst hx
      have hlength := hdrop.length_le
      simp only [Recorded.accept, if_true, Function.update_self, List.length_append,
        List.length_singleton]
      omega
    · simpa [Recorded.accept, hx] using hahead

theorem reveal (hinv : RecordedInv hashOf netuid s) {r : Reveal}
    (h : s.net.doRevealWeights hashOf who netuid r = .ok net') :
    RecordedInv hashOf netuid (s.consume netuid who r net') := by
  obtain ⟨popped, entry, rest, commits, hsplit, hhash, hrange, hrest, h⟩ := doRevealWeights_ok h
  have hkeeps : KeepsQueues netuid _ net' := doSetWeights_keepsQueues h
  have hs : SameSchedule netuid s.net net' :=
    (setCommits_sameSchedule commits).trans hkeeps.toSameSchedule
  have hqueue : ∀ x, net'.commitsOf netuid x =
      if x = who then rest else s.net.commitsOf netuid x := by
    intro x
    rw [hkeeps.commitsOf, commitsOf_setCommits, hrest]
  have hrest' : net'.commitsOf netuid who = rest := by rw [hqueue, if_pos rfl]
  have htail : rest <:+ s.net.commitsOf netuid who :=
    ⟨popped ++ [entry], by rw [hsplit, List.append_assoc, List.singleton_append]⟩
  -- the consumed commit among the accepted ones
  obtain ⟨before, hbefore⟩ := hinv.suffix who
  have hindex : (s.accepted who).length - rest.length - 1 = (before ++ popped).length := by
    rw [← hbefore, hsplit]
    simp only [List.length_append, List.length_cons]
    omega
  have hget : (s.accepted who)[(s.accepted who).length - rest.length - 1]? = some entry := by
    rw [hindex, ← hbefore, hsplit, ← List.append_assoc, List.getElem?_append_right le_rfl,
      Nat.sub_self, List.getElem?_cons_zero]
  have hmem : entry ∈ s.net.commitsOf netuid who := by
    rw [hsplit]
    simp
  have hnew : (⟨(s.accepted who).length - rest.length - 1, s.net.chain.block, r⟩ :
      RevealRecord).Consumes hashOf s netuid who :=
    ⟨entry, hget, hhash, (hinv.queue who).past entry hmem, (hinv.queue who).window entry hmem,
      of_decide_eq_true hrange⟩
  have hahead : ∀ record ∈ s.revealed who,
      record.index < (s.accepted who).length - rest.length - 1 := by
    intro record hrecord
    have hlt := hinv.ahead who record hrecord
    rw [hsplit] at hlt
    simp only [List.length_append, List.length_cons] at hlt
    omega
  refine ⟨?_, ?_, ?_, ?_, ?_⟩
  · intro x
    show QueueInv net' netuid (net'.commitsOf netuid x)
    rw [hqueue]
    split
    · exact ((hinv.queue who).sublist htail.sublist).mono hs
    · exact (hinv.queue x).mono hs
  · intro x
    show net'.commitsOf netuid x <:+ s.accepted x
    rw [hqueue]
    split
    · rename_i hx
      exact hx ▸ htail.trans (hinv.suffix who)
    · exact hinv.suffix x
  · intro x record hrecord
    by_cases hx : x = who
    · subst hx
      simp only [Recorded.consume, Function.update_self, hrest', List.mem_append,
        List.mem_singleton] at hrecord
      rcases hrecord with hrecord | rfl
      · exact (hinv.consumed x record hrecord).mono hs (List.prefix_refl _)
      · exact hnew.mono hs (List.prefix_refl _)
    · simp only [Recorded.consume, Function.update_of_ne hx] at hrecord
      exact (hinv.consumed x record hrecord).mono hs (List.prefix_refl _)
  · intro x record hrecord
    show record.index + (net'.commitsOf netuid x).length < (s.accepted x).length
    by_cases hx : x = who
    · subst hx
      rw [hrest']
      simp only [Recorded.consume, Function.update_self, hrest', List.mem_append,
        List.mem_singleton] at hrecord
      rcases hrecord with hrecord | rfl
      · have := hahead record hrecord
        omega
      · have hlength : rest.length < (s.accepted x).length := by
          rw [← hbefore, hsplit]
          simp only [List.length_append, List.length_cons]
          omega
        show (s.accepted x).length - rest.length - 1 + rest.length < (s.accepted x).length
        omega
    · rw [hqueue, if_neg hx]
      simp only [Recorded.consume, Function.update_of_ne hx] at hrecord
      exact hinv.ahead x record hrecord
  · intro x
    by_cases hx : x = who
    · subst hx
      simp only [Recorded.consume, Function.update_self, hrest', List.pairwise_append]
      refine ⟨hinv.increasing x, List.pairwise_singleton _ _, ?_⟩
      intro a ha b hb
      rw [List.mem_singleton] at hb
      subst hb
      exact hahead a ha
    · simpa [Recorded.consume, hx] using hinv.increasing x

theorem step (hinv : RecordedInv hashOf netuid s) (h : RecordedStep hashOf netuid s s') :
    RecordedInv hashOf netuid s' := by
  cases h with
  | commit who commitHash h => exact hinv.commit h
  | reveal who r h => exact hinv.reveal h
  | other h => exact hinv.other h

theorem run (hinv : RecordedInv hashOf netuid s)
    (h : Relation.ReflTransGen (RecordedStep hashOf netuid) s s') :
    RecordedInv hashOf netuid s' := by
  induction h with
  | refl => exact hinv
  | tail _ hstep ih => exact ih.step hstep

end RecordedInv

theorem RecordedStep.sameSchedule {s s' : Recorded A B P H} (h : RecordedStep hashOf netuid s s') :
    SameSchedule netuid s.net s'.net := by
  cases h with
  | commit who commitHash h => exact doCommitWeights_sameSchedule h
  | reveal who r h =>
      obtain ⟨popped, entry, rest, commits, -, -, -, -, h⟩ := doRevealWeights_ok h
      exact (setCommits_sameSchedule commits).trans (doSetWeights_keepsQueues h).toSameSchedule
  | other h => exact h.toSameSchedule

theorem recordedRun_sameSchedule {s s' : Recorded A B P H}
    (h : Relation.ReflTransGen (RecordedStep hashOf netuid) s s') :
    SameSchedule netuid s.net s'.net := by
  induction h with
  | refl => exact SameSchedule.refl _
  | tail _ hstep ih => exact ih.trans hstep.sameSchedule

/-- **The commit-reveal protocol.** Below saturation the three descriptions of
the window of a commit agree. In every run of a subnet under a constant schedule
a queue is sorted, with the expired commits in front, and holds at most ten; a
successful reveal consumes a commit with the provided hash in its window, and no
commit is consumed twice. -/
theorem commitReveal_protocol (hashOf : A → NetUid → Reveal → H) (netuid : NetUid)
    (net : Network A B P H) (hperiod : 1 ≤ (net.getRevealPeriod netuid).val) :
    (∀ b : U64, b.val ≤ net.chain.block.val → net.RevealUnsaturated netuid b net.chain.block →
      (net.isRevealBlockRange netuid b = true ↔
        (net.getRevealBlocks netuid b).1.val ≤ net.chain.block.val ∧
          net.chain.block.val ≤ (net.getRevealBlocks netuid b).2.val) ∧
      (net.isCommitExpired netuid b = true ↔
        (net.getRevealBlocks netuid b).2.val < net.chain.block.val)) ∧
    ((∀ who, net.commitsOf netuid who = []) → ∀ s,
      Relation.ReflTransGen (RecordedStep hashOf netuid) (Recorded.start net) s → ∀ who,
        ((s.net.commitsOf netuid who).Pairwise fun a b =>
            a.commitBlock.val ≤ b.commitBlock.val) ∧
          s.net.ExpiredPrefix netuid (s.net.commitsOf netuid who) ∧
          (s.net.commitsOf netuid who).length ≤ 10 ∧
          (∀ record ∈ s.revealed who, ∃ entry,
            (s.accepted who)[record.index]? = some entry ∧
            entry.commitHash = hashOf who netuid record.reveal ∧
            (s.net.getEpochIndex netuid record.block).val =
              (s.net.revealEpoch netuid entry.commitBlock).val ∧
            (s.net.RevealUnsaturated netuid entry.commitBlock record.block →
              entry.firstRevealBlock.val ≤ record.block.val ∧
                record.block.val ≤ entry.lastRevealBlock.val)) ∧
          (s.revealed who).Pairwise fun a b => a.index < b.index) := by
  constructor
  · intro b hle hu
    obtain ⟨hrange, hexpired⟩ := revealWindow_iff hperiod hle hu
    unfold isRevealBlockRange isCommitExpired
    rw [decide_eq_true_eq, decide_eq_true_eq]
    exact ⟨hrange, hexpired⟩
  · intro hempty s hrun who
    have hstart : RecordedInv hashOf netuid (Recorded.start net) := .start net hempty
    have hinv := hstart.run hrun
    refine ⟨(hinv.queue who).sorted, (hinv.queue who).expiredPrefix, (hinv.queue who).length, ?_,
      hinv.increasing who⟩
    intro record hrecord
    obtain ⟨entry, hentry, hhash, hle, hblocks, hepoch⟩ := hinv.consumed who record hrecord
    refine ⟨entry, hentry, hhash, hepoch, ?_⟩
    intro hu
    have hperiod' : 1 ≤ (s.net.getRevealPeriod netuid).val := by
      rw [(recordedRun_sameSchedule hrun).period]
      exact hperiod
    have hwindow := (revealWindow_iff hperiod' hle hu).1.mp hepoch
    rwa [← hblocks] at hwindow

/-- A commit at block `1000` that is revealed at block `1100`. -/
theorem commitReveal_protocol_smallNetwork :
    ∃ s, Relation.ReflTransGen (RecordedStep (fun _ _ r => r.salt.length) (.sat 1))
        (Recorded.start (smallNetwork ℕ)) s ∧ (s.revealed 1).length = 1 ∧
      (s.net.commitsOf (.sat 1) 1).length ≤ 10 ∧
      (s.revealed 1).Pairwise fun a b => a.index < b.index := by
  let reveal : Reveal := ⟨[0], [.sat 65535], [0, 0], 0⟩
  let later (net : Network ℕ (Balances ℕ) (SwapStorage ℕ) ℕ) :=
    net.withChain { net.chain with block := .sat 1100 }
  have hrun : (((smallNetwork ℕ).doCommitWeights 1 (.sat 1) 2 >>= fun net =>
      (later net).doRevealWeights (fun _ _ r => r.salt.length) 1 (.sat 1) reveal)
        ).toOption.map (fun _ => ()) = some () := by decide +kernel
  obtain ⟨net', hok, -⟩ := exists_ok_of_toOption_map hrun
  obtain ⟨net₁, hcommit, hreveal⟩ := bind_eq_ok.mp hok
  have hlater : KeepsQueues (.sat 1) net₁ (later net₁) := by
    obtain ⟨-, uid, rfl⟩ := doCommitWeights_ok hcommit
    refine ⟨⟨rfl, rfl, ?_⟩, rfl⟩
    show (Word.sat 1000 : U64).val ≤ (Word.sat 1100 : U64).val
    decide
  have hfirst : RecordedStep (fun _ _ r => r.salt.length) (.sat 1)
      (Recorded.start (smallNetwork ℕ)) _ := .commit 1 2 hcommit
  have hreach := ((Relation.ReflTransGen.single hfirst).tail (.other hlater)).tail
    (.reveal 1 reveal hreveal)
  obtain ⟨-, hprotocol⟩ := commitReveal_protocol (fun _ _ r => r.salt.length) (.sat 1)
    (smallNetwork ℕ) (by decide)
  obtain ⟨-, -, hlength, -, hincreasing⟩ := hprotocol (fun _ => rfl) _ hreach 1
  exact ⟨_, hreach, rfl, hlength, hincreasing⟩

end Subtensor.Network
