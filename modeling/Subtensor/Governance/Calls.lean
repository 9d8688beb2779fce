import Subtensor.Lib.CallStack
import Subtensor.Lib.FixedPoint

/-!
# Motions of the Triumvirate

The collective pallet (`pallets/collective/src/lib.rs`) as the runtime sets it up
(`runtime/src/lib.rs`). Members of the Triumvirate propose a call, the hotkeys of
the Senate vote on it (`do_vote_root` in `pallets/subtensor/src/coinbase/root.rs`),
and root closes the motion. A motion that is approved dispatches its call while it
is still stored, and it is removed after that.

Hash, size and weight of a call are parameters, and so is the pallet that keeps
the members of the Senate.
-/

namespace Subtensor.Governance

open Lib Lib.CallStack

abbrev BlockNumber := U32

abbrev ProposalIndex := U32

abbrev MemberCount := U32

structure Weight where
  refTime : U64
  proofSize : U64
deriving DecidableEq

def Weight.allLte (a b : Weight) : Bool :=
  decide (a.refTime.val ≤ b.refTime.val ∧ a.proofSize.val ≤ b.proofSize.val)

inductive Error where
  | notMember
  | duplicateProposal
  | proposalNotExists
  | indexMismatchProposalHash
  | duplicateVote
  | tooEarlyToCloseProposal
  | tooManyActiveProposals
  | proposalWeightLessThanDispatchCallWeight
  | proposalLengthBoundLessThanProposalLength
  | durationLowerThanConfiguredMotionDuration
  | nonAssociatedColdKey
  | notSenateMember
deriving DecidableEq

/-- The origin with which the collective dispatches a call. -/
inductive RawOrigin (A : Type) where
  | members (approvals eligible : MemberCount)
  | member (who : A)

/-- `EnsureProportionMoreThan<N, D>`. -/
def ensureProportionMoreThan {A : Type} (n d : MemberCount) : RawOrigin A → Bool
  | .members approvals eligible => decide ((.sat (n.val * eligible.val) : U32).val < (.sat (approvals.val * d.val) : U32).val)
  | .member _ => false

structure Votes (A : Type) where
  index : ProposalIndex
  threshold : MemberCount
  ayes : List A
  nays : List A
  endBlock : BlockNumber

/-- `retain` on both lists. -/
def Votes.retain {A : Type} (votes : Votes A) (keep : A → Bool) : Votes A :=
  { votes with ayes := votes.ayes.filter keep, nays := votes.nays.filter keep }

inductive Event (A H : Type) where
  | proposed (account : A) (proposalIndex : ProposalIndex) (proposalHash : H)
      (threshold : MemberCount)
  | voted (account : A) (proposalHash : H) (voted : Bool) (yes no : MemberCount)
  | approved (proposalHash : H)
  | disapproved (proposalHash : H)
  | executed (proposalHash : H) (result : Bool)
  | memberExecuted (proposalHash : H) (result : Bool)
  | closed (proposalHash : H) (yes no : MemberCount)

/-- The pallet that keeps the members of the Senate. -/
structure Membership (A : Type) where
  maxMembers : ℕ
  addMember : List A → A → Option (List A)
  swapMember : List A → A → A → Option (List A)

structure Config (A H P : Type) where
  motionDuration : BlockNumber
  maxProposals : U32
  hashOf : P → H
  encodedSize : P → U32
  callWeight : P → Weight
  /-- The vote of who abstains, from the vote of the prime member, the votes and
  the seats. -/
  defaultVote : Option Bool → MemberCount → MemberCount → MemberCount → Bool
  senate : Membership A

/-- `PrimeDefaultVote`, which the runtime uses. -/
def primeDefaultVote (primeVote : Option Bool) (_ _ _ : MemberCount) : Bool := primeVote.getD false

/-- The storage of the collective, the members of the Senate, and what the calls
read of the rest of the chain. -/
structure Council (A H P : Type) where
  proposals : List H
  proposalOf : H → Option P
  voting : H → Option (Votes A)
  proposalCount : U32
  members : List A
  prime : Option A
  /-- All events so far. -/
  events : List (Event A H)
  senateMembers : List A
  owner : A → Option A
  blockNumber : BlockNumber

namespace Council

variable {A H P : Type} [DecidableEq A] [DecidableEq H]

/-! ## Proposing -/

/-- `CanProposeToTriumvirate`. -/
def isMember (council : Council A H P) (who : A) : Bool := council.members.contains who

/-- `GetSenateMemberCount`. -/
def seats (council : Council A H P) : MemberCount := .wrap council.senateMembers.length

def doProposeProposed (cfg : Config A H P) (council : Council A H P) (who : A)
    (threshold : MemberCount) (proposal : P) (lengthBound : U32) (duration : BlockNumber) :
    Except Error (Council A H P) :=
  let proposalHash := cfg.hashOf proposal
  if ¬(cfg.encodedSize proposal).val ≤ lengthBound.val then
    .error .proposalLengthBoundLessThanProposalLength
  else if (council.proposalOf proposalHash).isSome then .error .duplicateProposal
  else if ¬council.proposals.length < cfg.maxProposals.val then .error .tooManyActiveProposals
  else match council.proposalCount.checkedAdd (.sat 1) with
  | none => .error .tooManyActiveProposals
  | some count =>
      .ok { council with
        proposals := council.proposals ++ [proposalHash]
        proposalCount := count
        proposalOf := Function.update council.proposalOf proposalHash (some proposal)
        voting := Function.update council.voting proposalHash (some {
          index := council.proposalCount
          threshold := threshold
          ayes := []
          nays := []
          endBlock := council.blockNumber.satAdd duration })
        events := council.events ++
          [.proposed who council.proposalCount proposalHash threshold] }

def propose (cfg : Config A H P) (council : Council A H P) (who : A) (proposal : P)
    (lengthBound : U32) (duration : BlockNumber) : Except Error (Council A H P) :=
  if ¬council.isMember who then .error .notMember
  else if ¬cfg.motionDuration.val ≤ duration.val then
    .error .durationLowerThanConfiguredMotionDuration
  else
    let threshold : MemberCount := (Word.sat (council.seats.val / 2)).satAdd (.sat 1)
    council.doProposeProposed cfg who threshold proposal lengthBound duration

/-! ## Voting -/

/-- `Vec::swap_remove`: the last element takes the place of the one that goes. -/
def swapRemove (list : List A) (pos : ℕ) : List A :=
  match list.getLast? with
  | none => list
  | some last => (list.set pos last).dropLast

/-- The vote of an account comes on one list, and goes from the other. -/
def castVote (who : A) (same other : List A) : Except Error (List A × List A) :=
  match same.idxOf? who with
  | some _ => .error .duplicateVote
  | none =>
      .ok (same ++ [who], match other.idxOf? who with
        | some pos => swapRemove other pos
        | none => other)

/-- The council after the vote, and whether it is the first one of the account on
the motion. -/
def doVote (council : Council A H P) (who : A) (proposal : H) (index : ProposalIndex)
    (approve : Bool) : Except Error (Council A H P × Bool) :=
  match council.voting proposal with
  | none => .error .proposalNotExists
  | some voting =>
      if voting.index ≠ index then .error .indexMismatchProposalHash
      else
        let firstTime := (voting.ayes.idxOf? who).isNone && (voting.nays.idxOf? who).isNone
        let cast := if approve then castVote who voting.ayes voting.nays
          else (castVote who voting.nays voting.ayes).map Prod.swap
        match cast with
        | .error e => .error e
        | .ok (ayes, nays) =>
            .ok ({ council with
              voting := Function.update council.voting proposal
                (some { voting with ayes := ayes, nays := nays })
              events := council.events ++
                [.voted who proposal approve (.wrap ayes.length) (.wrap nays.length)] }, firstTime)

/-- A hotkey of the Senate votes, signed for by its coldkey. -/
def doVoteRoot (council : Council A H P) (coldkey hotkey : A) (proposal : H)
    (index : ProposalIndex) (approve : Bool) : Except Error (Council A H P × Bool) :=
  if ¬council.owner hotkey = some coldkey then .error .nonAssociatedColdKey
  else if ¬hotkey ∈ council.senateMembers then .error .notSenateMember
  else council.doVote hotkey proposal index approve

/-- The votes of some accounts go, on all active proposals. -/
def retainVotes (council : Council A H P) (keep : A → Bool) : Council A H P :=
  { council with
    voting := council.proposals.foldl (fun voting h =>
      Function.update voting h ((voting h).map fun votes => votes.retain keep)) council.voting }

def removeVotes (council : Council A H P) (who : A) : Council A H P :=
  council.retainVotes fun a => decide (a ≠ who)

/-! ## Closing -/

def removeProposal (council : Council A H P) (proposalHash : H) : Council A H P :=
  { council with
    proposalOf := Function.update council.proposalOf proposalHash none
    voting := Function.update council.voting proposalHash none
    proposals := council.proposals.filter fun h => decide (h ≠ proposalHash) }

def deposit (council : Council A H P) (event : Event A H) : Council A H P :=
  { council with events := council.events ++ [event] }

def doDisapproveProposal (council : Council A H P) (proposalHash : H) : Council A H P :=
  (council.deposit (.disapproved proposalHash)).removeProposal proposalHash

def validateAndGetProposal (cfg : Config A H P) (council : Council A H P) (hash : H)
    (lengthBound : U32) (weightBound : Weight) : Except Error P :=
  match council.proposalOf hash with
  | none => .error .proposalNotExists
  | some proposal =>
      if ¬(cfg.encodedSize proposal).val ≤ lengthBound.val then
        .error .proposalLengthBoundLessThanProposalLength
      else if ¬(cfg.callWeight proposal).allLte weightBound then
        .error .proposalWeightLessThanDispatchCallWeight
      else .ok proposal

/-- How `do_close` ends: with the dispatch of the proposal, or without. -/
inductive Verdict (P : Type) where
  | approved (proposal : P) (yes no seats : MemberCount)
  | disapproved (yes no : MemberCount)

/-- The decisions of `do_close`. -/
def verdict (cfg : Config A H P) (council : Council A H P) (proposalHash : H)
    (index : ProposalIndex) (weightBound : Weight) (lengthBound : U32) :
    Except Error (Verdict P) :=
  match council.voting proposalHash with
  | none => .error .proposalNotExists
  | some voting =>
      if voting.index ≠ index then .error .indexMismatchProposalHash
      else
        let no : MemberCount := .wrap voting.nays.length
        let yes : MemberCount := .wrap voting.ayes.length
        let seats := council.seats
        -- a motion can be closed before its end once its fate is clear
        if voting.threshold.val ≤ yes.val then
          (council.validateAndGetProposal cfg proposalHash lengthBound weightBound).map
            fun proposal => .approved proposal yes no seats
        else if (seats.satSub no).val < voting.threshold.val then .ok (.disapproved yes no)
        else if ¬voting.endBlock.val ≤ council.blockNumber.val then
          .error .tooEarlyToCloseProposal
        else
          let primeVote := council.prime.map fun who => voting.ayes.contains who
          let abstentions := seats.satSub (yes.satAdd no)
          let (yes, no) := if cfg.defaultVote primeVote yes no seats
            then (yes.satAdd abstentions, no) else (yes, no.satAdd abstentions)
          if voting.threshold.val ≤ yes.val then
            (council.validateAndGetProposal cfg proposalHash lengthBound weightBound).map
              fun proposal => .approved proposal yes no seats
          else .ok (.disapproved yes no)

/-- An approved motion up to the dispatch of its call. -/
def beginApproval (council : Council A H P) (proposalHash : H) (yes no : MemberCount) :
    Council A H P :=
  (council.deposit (.closed proposalHash yes no)).deposit (.approved proposalHash)

/-- What comes after the dispatch. -/
def finishApproval (council : Council A H P) (proposalHash : H) (result : Bool) : Council A H P :=
  (council.deposit (.executed proposalHash result)).removeProposal proposalHash

/-- `do_close`, with a function that dispatches a call with an origin. -/
def doClose (cfg : Config A H P) (dispatch : RawOrigin A → P → Council A H P → Council A H P × Bool)
    (council : Council A H P) (proposalHash : H) (index : ProposalIndex) (weightBound : Weight)
    (lengthBound : U32) : Except Error (Council A H P) :=
  match council.verdict cfg proposalHash index weightBound lengthBound with
  | .error e => .error e
  | .ok (.disapproved yes no) =>
      .ok ((council.deposit (.closed proposalHash yes no)).doDisapproveProposal proposalHash)
  | .ok (.approved proposal yes no seats) =>
      let (council, result) :=
        dispatch (.members yes seats) proposal (council.beginApproval proposalHash yes no)
      .ok (council.finishApproval proposalHash result)

/-! ## Members -/

/-- `change_members_sorted`, for the Triumvirate. -/
def changeMembersSorted (council : Council A H P) (outgoing new : List A) : Council A H P :=
  { council.retainVotes fun a => decide (a ∉ outgoing) with members := new, prime := none }

/-- `ManageSenateMembers::add_member`. -/
def addSenator (cfg : Config A H P) (council : Council A H P) (account : A) :
    Option (Council A H P) :=
  (cfg.senate.addMember council.senateMembers account).map fun members =>
    { council with senateMembers := members }

/-- `ManageSenateMembers::swap_member`: the votes go with the member. -/
def swapSenator (cfg : Config A H P) (council : Council A H P) (rm add : A) :
    Option (Council A H P) :=
  (cfg.senate.swapMember council.senateMembers rm add).map fun members =>
    { council.removeVotes rm with senateMembers := members }

end Council

/-! ## The machine -/

/-- A call that changes the storage of the collective or the Senate. -/
inductive Call (A H P : Type) where
  | propose (who : A) (proposal : P) (lengthBound : U32) (duration : BlockNumber)
  | vote (coldkey hotkey : A) (proposal : H) (index : ProposalIndex) (approve : Bool)
  | execute (who : A) (proposal : P) (lengthBound : U32)
  | disapproveProposal (proposalHash : H)
  | close (proposalHash : H) (index : ProposalIndex) (weightBound : Weight) (lengthBound : U32)
  | changeMembers (outgoing new : List A)
  | setPrime (prime : Option A)
  | addSenator (account : A)
  | swapSenator (rm add : A)
  /-- A call of the pallet that keeps the members of the Senate. -/
  | membership (members : List A)
  /-- A call of another pallet that dispatches calls. -/
  | other
  /-- Keys change hands, blocks pass. -/
  | environment (owner : A → Option A) (blockNumber : BlockNumber)

variable {A H P : Type} [DecidableEq A] [DecidableEq H]

/-- A call that fails is rolled back. -/
def returnsOr (council : Council A H P) (result : Except Error (Council A H P)) :
    Start (Council A H P) :=
  .returns (result.toOption.getD council)

def start (cfg : Config A H P) (council : Council A H P) :
    Call A H P → Start (Council A H P)
  | .propose who proposal lengthBound duration =>
      returnsOr council (council.propose cfg who proposal lengthBound duration)
  | .vote coldkey hotkey proposal index approve =>
      returnsOr council ((council.doVoteRoot coldkey hotkey proposal index approve).map Prod.fst)
  | .execute who proposal lengthBound =>
      if council.isMember who ∧ (cfg.encodedSize proposal).val ≤ lengthBound.val
      then .dispatches council else .returns council
  | .disapproveProposal proposalHash => .returns (council.doDisapproveProposal proposalHash)
  | .close proposalHash index weightBound lengthBound =>
      match council.verdict cfg proposalHash index weightBound lengthBound with
      | .error _ => .returns council
      | .ok (.disapproved yes no) =>
          .returns
            ((council.deposit (.closed proposalHash yes no)).doDisapproveProposal proposalHash)
      | .ok (.approved _ yes no _) => .dispatches (council.beginApproval proposalHash yes no)
  | .changeMembers outgoing new => .returns (council.changeMembersSorted outgoing new)
  | .setPrime prime => .returns { council with prime := prime }
  | .addSenator account => .returns ((council.addSenator cfg account).getD council)
  | .swapSenator rm add => .returns ((council.swapSenator cfg rm add).getD council)
  | .membership members => .returns { council with senateMembers := members }
  | .other => .dispatches council
  | .environment owner blockNumber =>
      .returns { council with owner := owner, blockNumber := blockNumber }

def finish (cfg : Config A H P) (council : Council A H P) (call : Call A H P) (result : Bool) :
    Council A H P :=
  match call with
  | .execute _ proposal _ => council.deposit (.memberExecuted (cfg.hashOf proposal) result)
  | .close proposalHash _ _ _ => council.finishApproval proposalHash result
  | _ => council

def machine (cfg : Config A H P) : Machine (Council A H P) (Call A H P) :=
  ⟨start cfg, finish cfg⟩

/-- `do_close` does what the machine does with a dispatch in between: where the
dispatched call fails, it goes on from where it was. -/
theorem doClose_runs {cfg : Config A H P} {council council₂ : Council A H P} {proposalHash : H}
    {index : ProposalIndex} {weightBound : Weight} {lengthBound : U32} {proposal : P}
    {yes no seats : MemberCount} {inner : List (Move (Call A H P))} (ok : Bool)
    (hverdict : council.verdict cfg proposalHash index weightBound lengthBound =
      .ok (.approved proposal yes no seats))
    (hinner : Runs (machine cfg) (council.beginApproval proposalHash yes no) inner council₂) :
    ∃ council', council.doClose cfg (fun _ _ start => if ok then (council₂, true) else (start, false))
        proposalHash index weightBound lengthBound = .ok council' ∧
      Runs (machine cfg) council
        (.call (.close proposalHash index weightBound lengthBound) :: (inner ++ [.result ok]))
        council' := by
  have hstart : (machine cfg).start council (.close proposalHash index weightBound lengthBound) =
      .dispatches (council.beginApproval proposalHash yes no) := by
    unfold machine start
    dsimp only
    rw [hverdict]
  refine ⟨_, ?_, .dispatches hstart hinner (.nil _)⟩
  unfold Council.doClose
  rw [hverdict]
  cases ok <;> rfl

end Subtensor.Governance
