import Subtensor.Governance.MotionRuns

/-!
# Votes of the Senate

A recorded vote is the vote of a member of the Senate as long as members leave
with their votes. A motion is then dispatched with the origin of a majority only
when more than half of the members agreed to it, or the prime member did and
fewer than half of the members disagreed until the end of the vote.
-/

namespace Subtensor.Governance

open Lib Lib.CallStack Lib.PartialMap Lib.Run

variable {A H P : Type} [DecidableEq A] [DecidableEq H] {cfg : Config A H P}
  {council council' : Council A H P}

/-- The pallet that keeps the members is a set with exact operations. -/
structure Membership.Exact (senate : Membership A) : Prop where
  addMember : ∀ members who members', senate.addMember members who = some members' →
    who ∉ members ∧ members.length < senate.maxMembers ∧ members'.Perm (who :: members)
  swapMember : ∀ members rm add members', senate.swapMember members rm add = some members' →
    (rm = add ∧ members' = members) ∨
      (rm ∈ members ∧ add ∉ members ∧ members'.Perm (add :: members.erase rm))

namespace Council

/-- An account has a vote on a motion. -/
def Voter (council : Council A H P) (h : H) (who : A) : Prop :=
  ∃ votes, council.voting h = some votes ∧ (who ∈ votes.ayes ∨ who ∈ votes.nays)

/-- Only members of the Senate have votes. -/
structure VotesOfSenators (cfg : Config A H P) (council : Council A H P) : Prop where
  nodup : council.senateMembers.Nodup
  bounded : council.senateMembers.length ≤ cfg.senate.maxMembers
  voters : ∀ h who, council.Voter h who → who ∈ council.senateMembers

omit [DecidableEq A] [DecidableEq H] in
theorem VotesOfSenators.of_voters (h : council.VotesOfSenators cfg)
    (hsenate : council'.senateMembers = council.senateMembers)
    (hvoters : ∀ k who, council'.Voter k who → council.Voter k who ∨ who ∈ council.senateMembers) :
    council'.VotesOfSenators cfg := by
  refine ⟨hsenate ▸ h.nodup, hsenate ▸ h.bounded, ?_⟩
  intro k who hvoter
  rw [hsenate]
  rcases hvoters k who hvoter with hvoter | hmem
  · exact h.voters k who hvoter
  · exact hmem

/-! ## What a call does to the votes -/

/-- A new motion has no votes. -/
theorem propose_voter {who who' : A} {proposal : P} {lengthBound : U32} {duration : BlockNumber}
    {k : H} (h : council.propose cfg who proposal lengthBound duration = .ok council')
    (hvoter : council'.Voter k who') : council.Voter k who' := by
  rcases propose_ok h with ⟨-, -, count, threshold, endBlock, -, rfl⟩
  rcases hvoter with ⟨votes, hvotes, hwho⟩
  rcases update_some_cases hvotes with ⟨-, rfl⟩ | ⟨-, hvotes⟩
  · simp at hwho
  · exact ⟨votes, hvotes, hwho⟩

omit [DecidableEq H] in
theorem castVote_mem {who who' : A} {same other same' other' : List A}
    (h : castVote who same other = .ok (same', other')) (hmem : who' ∈ same' ∨ who' ∈ other') :
    who' = who ∨ who' ∈ same ∨ who' ∈ other := by
  rcases castVote_ok h with ⟨-, rfl, hperm⟩
  rcases hmem with hsame | hother
  · rcases List.mem_append.mp hsame with hsame | hwho
    · exact .inr (.inl hsame)
    · exact .inl (List.mem_singleton.mp hwho)
  · exact .inr (.inr (List.mem_of_mem_erase (hperm.mem_iff.mp hother)))

theorem doVote_voter {who who' : A} {proposal k : H} {index : ProposalIndex}
    {approve firstTime : Bool}
    (h : council.doVote who proposal index approve = .ok (council', firstTime))
    (hvoter : council'.Voter k who') : council.Voter k who' ∨ who' = who := by
  rcases doVote_ok h with ⟨votes, ayes, nays, hvotes, -, hcast, rfl⟩
  rcases hvoter with ⟨votes', hvotes', hwho⟩
  rcases update_some_cases hvotes' with ⟨rfl, rfl⟩ | ⟨-, hvotes'⟩
  · have hold : who' = who ∨ who' ∈ votes.ayes ∨ who' ∈ votes.nays := by
      cases approve with
      | true => exact castVote_mem hcast hwho
      | false =>
          rcases castVote_mem hcast hwho.symm with heq | hnays | hayes
          · exact .inl heq
          · exact .inr (.inr hnays)
          · exact .inr (.inl hayes)
    rcases hold with heq | hmem
    · exact .inr heq
    · exact .inl ⟨votes, hvotes, hmem⟩
  · exact .inl ⟨votes', hvotes', hwho⟩

omit [DecidableEq A] in
/-- Votes that are kept are votes that were there, of accounts that keep theirs. -/
theorem retainVotes_voter (hwf : council.WellFormed cfg) {keep : A → Bool} {k : H} {who : A}
    (hvoter : (council.retainVotes keep).Voter k who) :
    council.Voter k who ∧ keep who = true := by
  rcases hvoter with ⟨votes', hvotes', hwho⟩
  rw [retainVotes_voting hwf.nodup] at hvotes'
  split_ifs at hvotes' with hmem
  · rcases Option.map_eq_some_iff.mp hvotes' with ⟨votes, hvotes, rfl⟩
    rcases hwho with hayes | hnays
    · rcases List.mem_filter.mp hayes with ⟨hayes, hkeep⟩
      exact ⟨⟨votes, hvotes, .inl hayes⟩, hkeep⟩
    · rcases List.mem_filter.mp hnays with ⟨hnays, hkeep⟩
      exact ⟨⟨votes, hvotes, .inr hnays⟩, hkeep⟩
  · exact absurd (hwf.voted.mem hvotes') hmem

omit [DecidableEq A] in
theorem removeProposal_voter {proposalHash k : H} {who : A}
    (hvoter : (council.removeProposal proposalHash).Voter k who) : council.Voter k who := by
  rcases hvoter with ⟨votes, hvotes, hwho⟩
  exact ⟨votes, (update_none_eq_some hvotes).2, hwho⟩

end Council

/-! ## Runs -/

/-- The pallet that keeps the members of the Senate leaves who has a vote in it. -/
def KeepsVoters (cfg : Config A H P) (config : CallStack.Config (Council A H P) (Call A H P)) :
    Move (Call A H P) → Prop
  | .call (.membership members) =>
      members.Nodup ∧ members.length ≤ cfg.senate.maxMembers ∧
        ∀ h who, config.state.Voter h who → who ∈ members
  | _ => True

/-- What every run keeps in which nobody loses a seat and keeps a vote. -/
structure Council.SenateSound (cfg : Config A H P) (council : Council A H P) : Prop where
  wellFormed : council.WellFormed cfg
  votes : council.VotesOfSenators cfg

theorem start_votesOfSenators (hexact : cfg.senate.Exact) (h : council.SenateSound cfg)
    {call : Call A H P} (hkeeps : KeepsVoters cfg ⟨council, []⟩ (.call call)) :
    (start cfg council call).state.VotesOfSenators cfg := by
  cases call with
  | propose who proposal lengthBound duration =>
      simp only [start, returnsOr, Start.state]
      cases hpropose : council.propose cfg who proposal lengthBound duration with
      | error e => exact h.votes
      | ok council' =>
          have hsenate : council'.senateMembers = council.senateMembers := by
            rcases Council.propose_ok hpropose with ⟨-, -, count, threshold, endBlock, -, heq⟩
            rw [heq]
          refine h.votes.of_voters hsenate ?_
          intro k who' hvoter
          exact .inl (Council.propose_voter hpropose hvoter)
  | vote coldkey hotkey proposal index approve =>
      simp only [start, returnsOr, Start.state]
      cases hvote : council.doVoteRoot coldkey hotkey proposal index approve with
      | error e => exact h.votes
      | ok result =>
          rcases Council.doVoteRoot_ok hvote with ⟨-, hsenator, hdoVote⟩
          have hsenate : result.1.senateMembers = council.senateMembers := by
            rcases Council.doVote_ok hdoVote with ⟨votes, ayes, nays, -, -, -, heq⟩
            rw [heq]
          refine h.votes.of_voters hsenate ?_
          intro k who hvoter
          rcases Council.doVote_voter hdoVote hvoter with hvoter | rfl
          · exact .inl hvoter
          · exact .inr hsenator
  | execute who proposal lengthBound =>
      simp only [start]
      split_ifs
      · exact h.votes
      · exact h.votes
  | disapproveProposal proposalHash =>
      exact h.votes.of_voters rfl fun k who hvoter => .inl (Council.removeProposal_voter hvoter)
  | close proposalHash index weightBound lengthBound =>
      simp only [start]
      cases council.verdict cfg proposalHash index weightBound lengthBound with
      | error e => exact h.votes
      | ok verdict =>
          cases verdict with
          | approved proposal yes no seats =>
              exact h.votes.of_voters rfl fun k who hvoter => .inl hvoter
          | disapproved yes no =>
              exact h.votes.of_voters rfl fun k who hvoter =>
                .inl (Council.removeProposal_voter hvoter)
  | changeMembers outgoing new =>
      exact h.votes.of_voters rfl fun k who hvoter =>
        .inl (Council.retainVotes_voter h.wellFormed hvoter).1
  | setPrime prime => exact h.votes.of_voters rfl fun k who hvoter => .inl hvoter
  | addSenator account =>
      simp only [start, Council.addSenator]
      cases hadd : cfg.senate.addMember council.senateMembers account with
      | none => exact h.votes
      | some members =>
          rcases hexact.addMember _ _ _ hadd with ⟨hnew, hroom, hperm⟩
          refine ⟨hperm.nodup_iff.mpr (List.nodup_cons.mpr ⟨hnew, h.votes.nodup⟩),
            hperm.length_eq.trans_le hroom, ?_⟩
          intro k who hvoter
          exact hperm.mem_iff.mpr (List.mem_cons_of_mem _ (h.votes.voters k who hvoter))
  | swapSenator rm add =>
      simp only [start, Council.swapSenator]
      cases hswap : cfg.senate.swapMember council.senateMembers rm add with
      | none => exact h.votes
      | some members =>
          have hvoters : ∀ k who, (council.removeVotes rm).Voter k who →
              council.Voter k who ∧ who ≠ rm := by
            intro k who hvoter
            rcases Council.retainVotes_voter h.wellFormed hvoter with ⟨hvoter, hne⟩
            exact ⟨hvoter, of_decide_eq_true hne⟩
          rcases hexact.swapMember _ _ _ _ hswap with ⟨-, rfl⟩ | ⟨hrm, hadd, hperm⟩
          · exact h.votes.of_voters rfl fun k who hvoter => .inl (hvoters k who hvoter).1
          · refine ⟨?_, ?_, ?_⟩
            · refine hperm.nodup_iff.mpr (List.nodup_cons.mpr ⟨?_, h.votes.nodup.erase rm⟩)
              exact fun hmem => hadd (List.mem_of_mem_erase hmem)
            · have hlength := List.length_erase_add_one hrm
              exact (hperm.length_eq.trans hlength).trans_le h.votes.bounded
            · intro k who hvoter
              rcases hvoters k who hvoter with ⟨hvoter, hne⟩
              have hmem := h.votes.voters k who hvoter
              exact hperm.mem_iff.mpr
                (List.mem_cons_of_mem _ ((List.mem_erase_of_ne hne).mpr hmem))
  | membership members =>
      rcases hkeeps with ⟨hnodup, hbounded, hvoters⟩
      exact ⟨hnodup, hbounded, hvoters⟩
  | other => exact h.votes
  | environment owner blockNumber =>
      exact h.votes.of_voters rfl fun k who hvoter => .inl hvoter

omit [DecidableEq A] in
theorem finish_votesOfSenators (h : council.VotesOfSenators cfg) (call : Call A H P)
    (result : Bool) : (finish cfg council call result).VotesOfSenators cfg := by
  cases call with
  | execute who proposal lengthBound => exact h.of_voters rfl fun k who hvoter => .inl hvoter
  | close proposalHash index weightBound lengthBound =>
      exact h.of_voters rfl fun k who hvoter => .inl (Council.removeProposal_voter hvoter)
  | _ => exact h

/-- Only members of the Senate have votes in such a run. -/
theorem allStates_senateSound (hexact : cfg.senate.Exact) (h : council.SenateSound cfg)
    {moves : List (Move (Call A H P))}
    (hkeeps : AllInputs (step (machine cfg)) (KeepsVoters cfg) ⟨council, []⟩ moves) :
    AllStates (step (machine cfg)) (Holds fun _ => Council.SenateSound cfg) ⟨council, []⟩ moves := by
  refine hkeeps.allStates ?_ (.init h)
  intro config move hconfig hkeep
  cases move with
  | call k =>
      have hstate := hconfig.state
      refine holds_call_iff.mpr ⟨⟨?_, start_votesOfSenators hexact hstate hkeep⟩, hconfig.saved⟩
      exact (start_motionStep hstate.wellFormed k).wellFormed hstate.wellFormed
  | result ok =>
      refine hconfig.result ?_
      intro f rest _ s hs _
      exact ⟨(finish_motionStep f.call ok).wellFormed hs.wellFormed,
        finish_votesOfSenators hs.votes f.call ok⟩

/-! ## Majorities -/

namespace Council

omit [DecidableEq A] [DecidableEq H] in
/-- Who votes on a motion votes once, so there are no more votes than seats. -/
theorem SenateSound.length_le (h : council.SenateSound cfg) {k : H} {votes : Votes A}
    (hvotes : council.voting k = some votes) :
    votes.ayes.length + votes.nays.length ≤ council.senateMembers.length := by
  have hproper := h.wellFormed.proper k votes hvotes
  have hnodup : (votes.ayes ++ votes.nays).Nodup :=
    hproper.ayes.append hproper.nays hproper.disjoint
  have hsubset : votes.ayes ++ votes.nays ⊆ council.senateMembers := by
    intro who hmem
    exact h.votes.voters k who ⟨votes, hvotes, List.mem_append.mp hmem⟩
  rw [← List.length_append]
  exact (hnodup.subperm hsubset).length_le

omit [DecidableEq H] in
/-- **When a motion is approved.** -/
theorem verdict_approved {k : H} {index : ProposalIndex} {weightBound : Weight} {lengthBound : U32}
    {proposal : P} {yes no seats : MemberCount}
    (h : council.verdict cfg k index weightBound lengthBound =
      .ok (.approved proposal yes no seats)) :
    seats = council.seats ∧ ∃ votes, council.voting k = some votes ∧
      (yes = .wrap votes.ayes.length ∨
        votes.endBlock.val ≤ council.blockNumber.val ∧
          cfg.defaultVote (council.prime.map fun who => votes.ayes.contains who)
            (.wrap votes.ayes.length) (.wrap votes.nays.length) council.seats = true ∧
          yes = (Word.wrap votes.ayes.length).satAdd
            (council.seats.satSub ((Word.wrap votes.ayes.length).satAdd
              (.wrap votes.nays.length)))) := by
  unfold verdict at h
  cases hvotes : council.voting k with
  | none =>
      rw [hvotes] at h
      cases h
  | some votes =>
      rw [hvotes] at h
      dsimp only at h
      have hmap : ∀ {yes' no' : MemberCount},
          (council.validateAndGetProposal cfg k lengthBound weightBound).map
              (fun proposal => Verdict.approved proposal yes' no' council.seats) =
            .ok (.approved proposal yes no seats) → yes = yes' ∧ seats = council.seats := by
        intro yes' no' heq
        cases hvalid : council.validateAndGetProposal cfg k lengthBound weightBound with
        | error e =>
            rw [hvalid] at heq
            cases heq
        | ok proposal' =>
            rw [hvalid] at heq
            cases heq
            exact ⟨rfl, rfl⟩
      split_ifs at h with _ _ _ hend hdefault
      · exact ⟨(hmap h).2, votes, rfl, .inl (hmap h).1⟩
      · cases h
      · exact ⟨(hmap h).2, votes, rfl, .inr ⟨hend, hdefault, (hmap h).1⟩⟩
      · cases h
      · cases h

/-- What the Senate has to have done for a motion to have a majority: more than
half of its members agreed, or the time to vote is over, the prime member agreed
and fewer than half of the members disagreed. -/
def MajorityBacked (council : Council A H P) (k : H) : Prop :=
  ∃ votes, council.voting k = some votes ∧ votes.Proper ∧
    (∀ who, who ∈ votes.ayes ∨ who ∈ votes.nays → who ∈ council.senateMembers) ∧
    (council.senateMembers.length < 2 * votes.ayes.length ∨
      votes.endBlock.val ≤ council.blockNumber.val ∧ (∃ who ∈ council.prime, who ∈ votes.ayes) ∧
        2 * votes.nays.length < council.senateMembers.length)

omit [DecidableEq H] in
theorem SenateSound.majorityBacked (hdefault : cfg.defaultVote = primeDefaultVote)
    (hmax : cfg.senate.maxMembers < 2 ^ 32) (h : council.SenateSound cfg) {k : H}
    {index : ProposalIndex} {weightBound : Weight} {lengthBound : U32} {proposal : P}
    {yes no seats : MemberCount}
    (hverdict : council.verdict cfg k index weightBound lengthBound =
      .ok (.approved proposal yes no seats))
    (hmajority : ensureProportionMoreThan (.sat 1) (.sat 2) (RawOrigin.members (A := A) yes seats) =
      true) : council.MajorityBacked k := by
  rcases verdict_approved hverdict with ⟨rfl, votes, hvotes, hyes⟩
  have hlength := h.length_le hvotes
  have hseats : council.seats.val = council.senateMembers.length :=
    Nat.mod_eq_of_lt (h.votes.bounded.trans_lt hmax)
  have hayes : (Word.wrap votes.ayes.length : MemberCount).val = votes.ayes.length :=
    Nat.mod_eq_of_lt (by have := h.votes.bounded; omega)
  have hnays : (Word.wrap votes.nays.length : MemberCount).val = votes.nays.length :=
    Nat.mod_eq_of_lt (by have := h.votes.bounded; omega)
  have hmore : council.senateMembers.length < 2 * yes.val := by
    have hlt : (Word.sat (1 * council.seats.val) : MemberCount).val <
        (Word.sat (yes.val * 2) : MemberCount).val := of_decide_eq_true hmajority
    rw [Word.val_sat, Word.val_sat, hseats] at hlt
    omega
  refine ⟨votes, hvotes, h.wellFormed.proper k votes hvotes, ?_, ?_⟩
  · intro who hwho
    exact h.votes.voters k who ⟨votes, hvotes, hwho⟩
  rcases hyes with rfl | ⟨hend, hprime, rfl⟩
  · rw [hayes] at hmore
    exact .inl hmore
  · refine .inr ⟨hend, ?_, ?_⟩
    · rw [hdefault] at hprime
      cases hwho : council.prime with
      | none =>
          rw [hwho] at hprime
          cases hprime
      | some who =>
          rw [hwho] at hprime
          exact ⟨who, rfl, List.contains_iff_mem.mp hprime⟩
    · have hsum : (Word.wrap votes.ayes.length : MemberCount).val +
          (Word.wrap votes.nays.length : MemberCount).val < 2 ^ 32 := by
        have := h.votes.bounded
        omega
      have hyes := Word.val_sat_le (w := 32) ((Word.wrap votes.ayes.length : MemberCount).val +
        (council.seats.satSub ((Word.wrap votes.ayes.length).satAdd
          (.wrap votes.nays.length))).val)
      have hle := hmore.trans_le (Nat.mul_le_mul_left 2 hyes)
      rw [Word.val_satSub, Word.val_satAdd_of_lt hsum, hayes, hnays, hseats] at hle
      omega

end Council

/-- **A motion acts for the Senate only if the Senate backs it.** In every run in
which members of the Senate leave with their votes, whenever a motion is approved
and its call has the origin of a majority, more than half of the members have
agreed, or nobody more can vote, the prime member has agreed and fewer than half
of the members have disagreed. -/
theorem allStates_majorityBacked (hexact : cfg.senate.Exact)
    (hdefault : cfg.defaultVote = primeDefaultVote) (hmax : cfg.senate.maxMembers < 2 ^ 32)
    (h : council.SenateSound cfg) {moves : List (Move (Call A H P))}
    (hkeeps : AllInputs (step (machine cfg)) (KeepsVoters cfg) ⟨council, []⟩ moves) :
    AllStates (step (machine cfg))
      (fun config => ∀ k index weightBound lengthBound proposal yes no seats,
        config.state.verdict cfg k index weightBound lengthBound =
            .ok (.approved proposal yes no seats) →
          ensureProportionMoreThan (.sat 1) (.sat 2) (RawOrigin.members (A := A) yes seats) = true →
            config.state.MajorityBacked k) ⟨council, []⟩ moves := by
  refine (allStates_senateSound hexact h hkeeps).mono ?_
  intro config hconfig k index weightBound lengthBound proposal yes no seats hverdict hmajority
  exact hconfig.state.majorityBacked hdefault hmax hverdict hmajority

theorem mockSenate_exact : mockSenate.Exact where
  addMember members who members' h := by
    unfold mockSenate at h
    dsimp only at h
    split_ifs at h with hnew
    cases h
    exact ⟨hnew.1, hnew.2, List.perm_orderedInsert _ _ _⟩
  swapMember members rm add members' h := by
    unfold mockSenate at h
    dsimp only at h
    split_ifs at h with hsame hswap
    · cases h
      exact .inl ⟨hsame, rfl⟩
    · cases h
      exact .inr ⟨hswap.1, hswap.2, List.perm_orderedInsert _ _ _⟩

/-- The motion of the small council is dispatched with two votes of three. -/
theorem allStates_majorityBacked_mockMoves :
    AllStates (step (machine mockConfig))
      (fun config => ∀ k index weightBound lengthBound proposal yes no seats,
        config.state.verdict mockConfig k index weightBound lengthBound =
            .ok (.approved proposal yes no seats) →
          ensureProportionMoreThan (.sat 1) (.sat 2) (RawOrigin.members (A := ℕ) yes seats) = true →
            config.state.MajorityBacked k) ⟨mockCouncil, []⟩ mockMoves ∧
      ((mockMoves.take 3).foldl (step (machine mockConfig)) ⟨mockCouncil, []⟩).state.verdict
          mockConfig 7 (.sat 0) ⟨.sat 1, .sat 1⟩ (.sat 5) =
        .ok (.approved 7 (.sat 2) (.sat 0) (.sat 3)) :=
  ⟨allStates_majorityBacked mockSenate_exact rfl (by decide)
    ⟨mockCouncil_wellFormed, by decide, by decide, by
      rintro k who ⟨votes, hvotes, -⟩
      cases hvotes⟩ ⟨trivial, trivial, trivial, trivial, trivial, trivial, trivial⟩, rfl⟩

end Subtensor.Governance
