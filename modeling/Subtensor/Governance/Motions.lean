import Subtensor.Governance.Calls
import Subtensor.Lib.Except
import Subtensor.Lib.PartialMap

/-!
# Motions and their votes

The four places where an open motion is stored agree, and nobody votes twice on
it. Both hold whatever the calls that motions dispatch do in between, and
whichever of them are rolled back.
-/

namespace Subtensor.Governance

open Lib Lib.CallStack Lib.PartialMap Lib.Run

variable {A H P : Type} [DecidableEq H]

/-! ## Votes -/

/-- Nobody votes twice. -/
structure Votes.Proper (votes : Votes A) : Prop where
  ayes : votes.ayes.Nodup
  nays : votes.nays.Nodup
  disjoint : votes.ayes.Disjoint votes.nays

theorem Votes.Proper.retain {votes : Votes A} (h : votes.Proper) (keep : A → Bool) :
    (votes.retain keep).Proper where
  ayes := h.ayes.filter _
  nays := h.nays.filter _
  disjoint := by
    intro who hayes hnays
    exact h.disjoint (List.mem_of_mem_filter hayes) (List.mem_of_mem_filter hnays)

namespace Council

/-- What `swap_remove` leaves is in another order, and nothing else. -/
theorem swapRemove_perm {list : List A} {pos : ℕ} (h : pos < list.length) :
    (swapRemove list pos).Perm (list.eraseIdx pos) := by
  rcases List.eq_nil_or_concat' list with rfl | ⟨init, last, rfl⟩
  · exact absurd h (Nat.not_lt_zero _)
  · unfold swapRemove
    rw [List.getLast?_concat]
    dsimp only
    rcases lt_or_ge pos init.length with hlt | hge
    · rw [List.set_append_left _ _ hlt, List.dropLast_concat, List.eraseIdx_append_of_lt_length hlt,
        List.set_eq_take_append_cons_drop, if_pos hlt, List.eraseIdx_eq_take_drop_succ]
      exact List.perm_middle.trans (List.perm_append_singleton last _).symm
    · have hpos : pos = init.length := by
        rw [List.length_append, List.length_singleton] at h
        omega
      rw [hpos, List.set_append_right _ _ le_rfl, List.eraseIdx_append_of_length_le le_rfl]
      simp

/-- **What a vote does to the two lists.** -/
theorem castVote_ok [DecidableEq A] {who : A} {same other same' other' : List A}
    (h : castVote who same other = .ok (same', other')) :
    who ∉ same ∧ same' = same ++ [who] ∧ other'.Perm (other.erase who) := by
  unfold castVote at h
  cases hsame : same.idxOf? who with
  | some pos =>
      rw [hsame] at h
      cases h
  | none =>
      rw [hsame] at h
      simp only [Except.ok.injEq, Prod.mk.injEq] at h
      rcases h with ⟨rfl, rfl⟩
      refine ⟨List.idxOf?_eq_none_iff.mp hsame, rfl, ?_⟩
      rw [List.erase_eq_eraseIdx]
      cases hother : other.idxOf? who with
      | none => exact .refl _
      | some pos => exact swapRemove_perm (List.idxOf?_eq_some_iff.mp hother).1

theorem castVote_proper [DecidableEq A] {who : A} {same other same' other' : List A}
    (h : castVote who same other = .ok (same', other')) (hsame : same.Nodup) (hother : other.Nodup)
    (hdisjoint : same.Disjoint other) :
    same'.Nodup ∧ other'.Nodup ∧ same'.Disjoint other' := by
  rcases castVote_ok h with ⟨hnew, rfl, hperm⟩
  refine ⟨hsame.append (List.nodup_singleton who) ?_, hperm.nodup_iff.mpr (hother.erase who), ?_⟩
  · rintro a ha hwho
    rw [List.mem_singleton.mp hwho] at ha
    exact hnew ha
  · intro a ha hmem
    have herase := hperm.mem_iff.mp hmem
    rcases List.mem_append.mp ha with hsame' | hwho
    · exact hdisjoint hsame' (List.mem_of_mem_erase herase)
    · rw [List.mem_singleton.mp hwho] at herase
      exact hother.not_mem_erase herase

end Council

/-! ## What a call does to the motions -/

/-- What an event says about the number of open motions with a hash. -/
def Event.opened (h : H) : Event A H → ℤ
  | .proposed _ _ proposalHash _ => if proposalHash = h then 1 else 0
  | .executed proposalHash _ => if proposalHash = h then -1 else 0
  | .disapproved proposalHash => if proposalHash = h then -1 else 0
  | _ => 0

namespace Council

/-- How many motions with a hash are open, by the events. -/
def opened (council : Council A H P) (h : H) : ℤ := (council.events.map (Event.opened h)).sum

theorem opened_append {council council' : Council A H P} (events : List (Event A H))
    (h : council'.events = council.events ++ events) (k : H) :
    council'.opened k = council.opened k + (events.map (Event.opened k)).sum := by
  unfold opened
  rw [h, List.map_append, List.sum_append]

end Council

/-- What a part of a call does to the motions: it changes votes at most, it opens
a motion, or it closes one, which is named. -/
inductive MotionStep (cfg : Config A H P) (council council' : Council A H P) : Option H → Prop where
  | votes (hproposals : council'.proposals = council.proposals)
      (hproposalOf : council'.proposalOf = council.proposalOf)
      (hcount : council'.proposalCount = council.proposalCount)
      (hvoting : ∀ h, Option.Rel (fun votes votes' => votes'.index = votes.index ∧
        (votes.Proper → votes'.Proper)) (council.voting h) (council'.voting h))
      (hopened : ∀ h, council'.opened h = council.opened h) : MotionStep cfg council council' none
  | opens (proposal : P) (votes : Votes A)
      (hnew : council.proposalOf (cfg.hashOf proposal) = none)
      (hroom : council.proposals.length < cfg.maxProposals.val)
      (hproposals : council'.proposals = council.proposals ++ [cfg.hashOf proposal])
      (hproposalOf : council'.proposalOf =
        Function.update council.proposalOf (cfg.hashOf proposal) (some proposal))
      (hvoting : council'.voting =
        Function.update council.voting (cfg.hashOf proposal) (some votes))
      (hindex : votes.index = council.proposalCount) (hproper : votes.Proper)
      (hcount : council'.proposalCount.val = council.proposalCount.val + 1)
      (hopened : ∀ h, council'.opened h =
        council.opened h + if cfg.hashOf proposal = h then 1 else 0) :
      MotionStep cfg council council' none
  | closes (proposalHash : H)
      (hproposals : council'.proposals =
        council.proposals.filter fun h => decide (h ≠ proposalHash))
      (hproposalOf : council'.proposalOf = Function.update council.proposalOf proposalHash none)
      (hvoting : council'.voting = Function.update council.voting proposalHash none)
      (hcount : council'.proposalCount = council.proposalCount)
      (hopened : ∀ h, council'.opened h =
        council.opened h - if proposalHash = h then 1 else 0) :
      MotionStep cfg council council' (some proposalHash)

namespace Council

variable {cfg : Config A H P} {council council' : Council A H P}

theorem motionStep_of_eq (hproposals : council'.proposals = council.proposals)
    (hproposalOf : council'.proposalOf = council.proposalOf)
    (hcount : council'.proposalCount = council.proposalCount)
    (hvoting : council'.voting = council.voting)
    (hopened : ∀ h, council'.opened h = council.opened h) :
    MotionStep cfg council council' none := by
  refine .votes hproposals hproposalOf hcount ?_ hopened
  intro h
  rw [hvoting]
  cases council.voting h with
  | none => exact .none
  | some votes => exact .some ⟨rfl, id⟩

theorem motionStep_refl : MotionStep cfg council council none :=
  motionStep_of_eq rfl rfl rfl rfl fun _ => rfl

/-- **What a proposal does.** -/
theorem propose_ok [DecidableEq A] {who : A} {proposal : P} {lengthBound : U32}
    {duration : BlockNumber}
    (h : council.propose cfg who proposal lengthBound duration = .ok council') :
    council.proposalOf (cfg.hashOf proposal) = none ∧
      council.proposals.length < cfg.maxProposals.val ∧
      ∃ count threshold endBlock, council.proposalCount.checkedAdd (.sat 1) = some count ∧
        council' = { council with
          proposals := council.proposals ++ [cfg.hashOf proposal]
          proposalCount := count
          proposalOf := Function.update council.proposalOf (cfg.hashOf proposal) (some proposal)
          voting := Function.update council.voting (cfg.hashOf proposal)
            (some ⟨council.proposalCount, threshold, [], [], endBlock⟩)
          events := council.events ++
            [.proposed who council.proposalCount (cfg.hashOf proposal) threshold] } := by
  unfold propose doProposeProposed at h
  dsimp only at h
  split_ifs at h with _ _ _ hnew hroom
  refine ⟨Option.not_isSome_iff_eq_none.mp hnew, hroom, ?_⟩
  cases hcount : council.proposalCount.checkedAdd (.sat 1) with
  | none =>
      rw [hcount] at h
      cases h
  | some count =>
      rw [hcount] at h
      cases h
      exact ⟨count, _, _, rfl, rfl⟩

theorem propose_motionStep [DecidableEq A] {who : A} {proposal : P} {lengthBound : U32}
    {duration : BlockNumber}
    (h : council.propose cfg who proposal lengthBound duration = .ok council') :
    MotionStep cfg council council' none := by
  rcases propose_ok h with ⟨hnew, hroom, count, threshold, endBlock, hcount, rfl⟩
  refine .opens proposal _ hnew hroom rfl rfl rfl rfl
    ⟨List.nodup_nil, List.nodup_nil, List.disjoint_nil_left _⟩ (Word.val_checkedAdd hcount) ?_
  intro k
  rw [opened_append _ rfl]
  simp [Event.opened]

/-- **What a vote does.** -/
theorem doVote_ok [DecidableEq A] {who : A} {proposal : H} {index : ProposalIndex} {approve firstTime : Bool}
    (h : council.doVote who proposal index approve = .ok (council', firstTime)) :
    ∃ votes ayes nays, council.voting proposal = some votes ∧ votes.index = index ∧
      (if approve then castVote who votes.ayes votes.nays = .ok (ayes, nays)
        else castVote who votes.nays votes.ayes = .ok (nays, ayes)) ∧
      council' = { council with
        voting := Function.update council.voting proposal
          (some { votes with ayes := ayes, nays := nays })
        events := council.events ++
          [.voted who proposal approve (.wrap ayes.length) (.wrap nays.length)] } := by
  unfold doVote at h
  cases hvoting : council.voting proposal with
  | none =>
      rw [hvoting] at h
      cases h
  | some votes =>
      rw [hvoting] at h
      dsimp only at h
      by_cases hindex : votes.index ≠ index
      · rw [if_pos hindex] at h
        cases h
      rw [if_neg hindex] at h
      cases approve with
      | true =>
          cases hcast : castVote who votes.ayes votes.nays with
          | error e =>
              simp [hcast] at h
          | ok lists =>
              simp only [hcast, if_true, Except.ok.injEq, Prod.mk.injEq] at h
              exact ⟨votes, lists.1, lists.2, rfl, not_not.mp hindex, hcast, h.1.symm⟩
      | false =>
          cases hcast : castVote who votes.nays votes.ayes with
          | error e =>
              simp [hcast, Except.map] at h
          | ok lists =>
              simp only [hcast, Except.map, Bool.false_eq_true, if_false, Except.ok.injEq,
                Prod.mk.injEq] at h
              exact ⟨votes, lists.2, lists.1, rfl, not_not.mp hindex, hcast, h.1.symm⟩

theorem doVoteRoot_ok [DecidableEq A] {coldkey hotkey : A} {proposal : H} {index : ProposalIndex}
    {approve : Bool} {result : Council A H P × Bool}
    (h : council.doVoteRoot coldkey hotkey proposal index approve = .ok result) :
    council.owner hotkey = some coldkey ∧ hotkey ∈ council.senateMembers ∧
      council.doVote hotkey proposal index approve = .ok result := by
  unfold doVoteRoot at h
  split_ifs at h with howner hsenator
  exact ⟨howner, hsenator, h⟩

theorem doVote_motionStep [DecidableEq A] {who : A} {proposal : H} {index : ProposalIndex}
    {approve firstTime : Bool}
    (h : council.doVote who proposal index approve = .ok (council', firstTime)) :
    MotionStep cfg council council' none := by
  rcases doVote_ok h with ⟨votes, ayes, nays, hvotes, -, hcast, rfl⟩
  refine .votes rfl rfl rfl ?_ ?_
  · intro k
    dsimp only
    rcases eq_or_ne k proposal with rfl | hne
    · rw [Function.update_self, hvotes]
      refine .some ⟨rfl, ?_⟩
      intro hproper
      cases approve with
      | true =>
          rcases castVote_proper hcast hproper.ayes hproper.nays hproper.disjoint with
            ⟨hayes, hnays, hdisjoint⟩
          exact ⟨hayes, hnays, hdisjoint⟩
      | false =>
          rcases castVote_proper hcast hproper.nays hproper.ayes hproper.disjoint.symm with
            ⟨hnays, hayes, hdisjoint⟩
          exact ⟨hayes, hnays, hdisjoint.symm⟩
    · rw [Function.update_of_ne hne]
      cases council.voting k with
      | none => exact .none
      | some votes => exact .some ⟨rfl, id⟩
  · intro k
    rw [opened_append _ rfl]
    exact add_zero _

theorem retainVotes_voting (hnodup : council.proposals.Nodup) (keep : A → Bool) (h : H) :
    (council.retainVotes keep).voting h =
      if h ∈ council.proposals then (council.voting h).map fun votes => votes.retain keep
      else council.voting h := by
  have hother : ∀ (voting : H → Option (Votes A)) k k', k' ≠ k →
      Function.update voting k ((voting k).map fun votes => votes.retain keep) k' = voting k' := by
    intro voting k k' hne
    exact Function.update_of_ne hne _ _
  unfold retainVotes
  dsimp only
  split_ifs with hmem
  · obtain ⟨voting, hsame, heq⟩ := @view_foldl_of_mem _ _ _ _ (fun voting k => voting k)
      hother _ hnodup _ hmem council.voting
    refine heq.trans ?_
    rw [Function.update_self, hsame]
  · exact @view_foldl_of_notMem _ _ _ _ (fun voting k => voting k) hother _ _ hmem council.voting

theorem retainVotes_motionStep (hnodup : council.proposals.Nodup) (keep : A → Bool)
    (hproposals : council'.proposals = council.proposals)
    (hproposalOf : council'.proposalOf = council.proposalOf)
    (hcount : council'.proposalCount = council.proposalCount)
    (hvoting : council'.voting = (council.retainVotes keep).voting)
    (hevents : council'.events = council.events) : MotionStep cfg council council' none := by
  refine .votes hproposals hproposalOf hcount ?_ ?_
  · intro h
    rw [hvoting, retainVotes_voting hnodup]
    cases council.voting h with
    | none => split_ifs <;> exact .none
    | some votes =>
        split_ifs
        · exact .some ⟨rfl, fun hproper => hproper.retain keep⟩
        · exact .some ⟨rfl, id⟩
  · intro h
    unfold opened
    rw [hevents]

theorem removeProposal_motionStep (events : List (Event A H)) {proposalHash : H}
    (hevents : ∀ k, (events.map (Event.opened k)).sum = if proposalHash = k then -1 else 0) :
    MotionStep cfg council
      (({ council with events := council.events ++ events } : Council A H P).removeProposal
        proposalHash) (some proposalHash) := by
  refine .closes proposalHash rfl rfl rfl rfl ?_
  intro k
  rw [opened_append events rfl, hevents]
  split_ifs <;> ring

theorem doDisapproveProposal_motionStep (proposalHash : H) :
    MotionStep cfg council (council.doDisapproveProposal proposalHash)
      (some proposalHash) := by
  refine removeProposal_motionStep [.disapproved proposalHash] ?_
  intro k
  simp [Event.opened]

theorem finishApproval_motionStep (proposalHash : H) (result : Bool) :
    MotionStep cfg council (council.finishApproval proposalHash result)
      (some proposalHash) := by
  refine removeProposal_motionStep [.executed proposalHash result] ?_
  intro k
  simp [Event.opened]

theorem closeDisapproved_motionStep (proposalHash : H) (yes no : MemberCount) :
    MotionStep cfg council
      ((council.deposit (.closed proposalHash yes no)).doDisapproveProposal proposalHash)
      (some proposalHash) := by
  unfold doDisapproveProposal deposit
  rw [List.append_assoc]
  refine removeProposal_motionStep [.closed proposalHash yes no, .disapproved proposalHash] ?_
  intro k
  simp [Event.opened]

theorem beginApproval_motionStep (proposalHash : H) (yes no : MemberCount) :
    MotionStep cfg council (council.beginApproval proposalHash yes no) none := by
  refine motionStep_of_eq rfl rfl rfl rfl ?_
  intro k
  rw [opened_append [.closed proposalHash yes no, .approved proposalHash]
    (List.append_assoc _ _ _)]
  exact add_zero _

/-! ## The storage of the motions -/

/-- The list of the open motions, their calls, their votes and the count of all
motions agree. -/
structure WellFormed (cfg : Config A H P) (council : Council A H P) : Prop where
  nodup : council.proposals.Nodup
  bounded : council.proposals.length ≤ cfg.maxProposals.val
  stored : ListsKeys council.proposalOf council.proposals
  voted : ListsKeys council.voting council.proposals
  hashes : ∀ h proposal, council.proposalOf h = some proposal → cfg.hashOf proposal = h
  issued : ∀ h votes, council.voting h = some votes →
    votes.index.val < council.proposalCount.val
  indices : ∀ h h' votes votes', council.voting h = some votes →
    council.voting h' = some votes' → votes.index = votes'.index → h = h'
  proper : ∀ h votes, council.voting h = some votes → votes.Proper

end Council

variable {cfg : Config A H P} {council council' : Council A H P}

/-- **A part of a call keeps the motions well formed.** -/
theorem MotionStep.wellFormed {closed : Option H} (hstep : MotionStep cfg council council' closed)
    (h : council.WellFormed cfg) : council'.WellFormed cfg := by
  cases hstep with
  | votes hproposals hproposalOf hcount hvoting hopened =>
      have hback : ∀ k votes', council'.voting k = some votes' → ∃ votes,
          council.voting k = some votes ∧ votes'.index = votes.index ∧
            (votes.Proper → votes'.Proper) := by
        intro k votes' hvotes'
        have hrel := hvoting k
        rw [hvotes'] at hrel
        cases hvotes : council.voting k with
        | none =>
            rw [hvotes] at hrel
            cases hrel
        | some votes =>
            rw [hvotes] at hrel
            cases hrel with
            | some hrel => exact ⟨votes, rfl, hrel⟩
      refine ⟨hproposals ▸ h.nodup, hproposals ▸ h.bounded, ?_, ?_, hproposalOf ▸ h.hashes, ?_, ?_,
        ?_⟩
      · rw [hproposalOf, hproposals]
        exact h.stored
      · intro k
        have hrel := hvoting k
        rw [hproposals, ← h.voted k]
        cases hvotes : council.voting k <;> cases hvotes' : council'.voting k <;>
          rw [hvotes, hvotes'] at hrel <;> first | rfl | cases hrel
      · intro k votes' hvotes'
        rcases hback k votes' hvotes' with ⟨votes, hvotes, hindex, -⟩
        rw [hindex, hcount]
        exact h.issued k votes hvotes
      · intro k k' votes' votes'' hvotes' hvotes'' heq
        rcases hback k votes' hvotes' with ⟨votes₁, hvotes₁, hindex₁, -⟩
        rcases hback k' votes'' hvotes'' with ⟨votes₂, hvotes₂, hindex₂, -⟩
        exact h.indices k k' votes₁ votes₂ hvotes₁ hvotes₂ (hindex₁ ▸ hindex₂ ▸ heq)
      · intro k votes' hvotes'
        rcases hback k votes' hvotes' with ⟨votes, hvotes, -, hproper⟩
        exact hproper (h.proper k votes hvotes)
  | opens proposal votes hnew hroom hproposals hproposalOf hvoting hindex hproper hcount hopened =>
      have hfresh : ∀ k votes', council.voting k = some votes' → votes.index ≠ votes'.index := by
        intro k votes' hvotes' heq
        have hlt := h.issued k votes' hvotes'
        rw [← heq, hindex] at hlt
        exact lt_irrefl _ hlt
      refine ⟨?_, ?_, ?_, ?_, ?_, ?_, ?_, ?_⟩
      · have hnotMem : cfg.hashOf proposal ∉ council.proposals := by
          rw [← h.stored, hnew]
          exact Bool.false_ne_true
        rw [hproposals]
        exact h.nodup.append (List.nodup_singleton _) (List.disjoint_singleton.mpr hnotMem)
      · rw [hproposals, List.length_append, List.length_singleton]
        omega
      · rw [hproposalOf, hproposals]
        exact h.stored.concat _ _
      · rw [hvoting, hproposals]
        exact h.voted.concat _ _
      · intro k proposal' hproposal'
        rw [hproposalOf] at hproposal'
        rcases update_some_cases hproposal' with ⟨rfl, rfl⟩ | ⟨-, hproposal'⟩
        · rfl
        · exact h.hashes k proposal' hproposal'
      · intro k votes' hvotes'
        rw [hvoting] at hvotes'
        rw [hcount]
        rcases update_some_cases hvotes' with ⟨-, rfl⟩ | ⟨-, hvotes'⟩
        · rw [hindex]
          exact Nat.lt_succ_self _
        · exact (h.issued k votes' hvotes').trans (Nat.lt_succ_self _)
      · intro k k' votes₁ votes₂ hvotes₁ hvotes₂ heq
        rw [hvoting] at hvotes₁ hvotes₂
        rcases update_some_cases hvotes₁ with ⟨rfl, rfl⟩ | ⟨-, hvotes₁⟩ <;>
          rcases update_some_cases hvotes₂ with ⟨rfl, rfl⟩ | ⟨-, hvotes₂⟩
        · rfl
        · exact absurd heq (hfresh k' votes₂ hvotes₂)
        · exact absurd heq.symm (hfresh k votes₁ hvotes₁)
        · exact h.indices k k' votes₁ votes₂ hvotes₁ hvotes₂ heq
      · intro k votes' hvotes'
        rw [hvoting] at hvotes'
        rcases update_some_cases hvotes' with ⟨-, rfl⟩ | ⟨-, hvotes'⟩
        · exact hproper
        · exact h.proper k votes' hvotes'
  | closes proposalHash hproposals hproposalOf hvoting hcount hopened =>
      have hback : ∀ k votes, council'.voting k = some votes → council.voting k = some votes := by
        intro k votes hvotes
        rw [hvoting] at hvotes
        exact (update_none_eq_some hvotes).2
      refine ⟨?_, ?_, ?_, ?_, ?_, ?_, ?_, ?_⟩
      · rw [hproposals]
        exact h.nodup.filter _
      · rw [hproposals]
        exact (List.length_filter_le _ _).trans h.bounded
      · rw [hproposalOf, hproposals]
        exact h.stored.filter _
      · rw [hvoting, hproposals]
        exact h.voted.filter _
      · intro k proposal hproposal
        rw [hproposalOf] at hproposal
        exact h.hashes k proposal (update_none_eq_some hproposal).2
      · intro k votes hvotes
        rw [hcount]
        exact h.issued k votes (hback k votes hvotes)
      · intro k k' votes votes' hvotes hvotes' heq
        exact h.indices k k' votes votes' (hback k votes hvotes) (hback k' votes' hvotes') heq
      · intro k votes hvotes
        exact h.proper k votes (hback k votes hvotes)

end Subtensor.Governance
