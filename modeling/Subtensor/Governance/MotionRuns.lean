import Subtensor.Governance.Motions

/-!
# Runs of the collective

What the calls on the collective keep in any order, nested in each other by the
motions that dispatch them and rolled back wherever a dispatch fails.
-/

namespace Subtensor.Governance

open Lib Lib.CallStack Lib.PartialMap Lib.Run

variable {A H P : Type} [DecidableEq A] [DecidableEq H] {cfg : Config A H P}
  {council council' : Council A H P}

/-! ## The parts of a call -/

/-- The motion that the start of a call closes. -/
def Call.closed (cfg : Config A H P) (council : Council A H P) : Call A H P → Option H
  | .disapproveProposal proposalHash => some proposalHash
  | .close proposalHash index weightBound lengthBound =>
      match council.verdict cfg proposalHash index weightBound lengthBound with
      | .ok (.disapproved _ _) => some proposalHash
      | _ => none
  | _ => none

/-- The motion that the end of a call closes. -/
def Call.closedAfter : Call A H P → Option H
  | .close proposalHash _ _ _ => some proposalHash
  | _ => none

omit [DecidableEq A] in
theorem returnsOr_motionStep {result : Except Error (Council A H P)}
    (h : ∀ council', result = .ok council' → MotionStep cfg council council' none) :
    MotionStep cfg council (returnsOr council result).state none := by
  cases result with
  | error e => exact Council.motionStep_refl
  | ok council' => exact h council' rfl

/-- **What the start of a call does to the motions.** -/
theorem start_motionStep (h : council.WellFormed cfg) (call : Call A H P) :
    MotionStep cfg council (start cfg council call).state (call.closed cfg council) := by
  cases call with
  | propose who proposal lengthBound duration =>
      exact returnsOr_motionStep fun council' hok => Council.propose_motionStep hok
  | vote coldkey hotkey proposal index approve =>
      refine returnsOr_motionStep ?_
      intro council' hok
      cases hvote : council.doVoteRoot coldkey hotkey proposal index approve with
      | error e =>
          rw [hvote] at hok
          cases hok
      | ok result =>
          rw [hvote] at hok
          cases hok
          exact Council.doVote_motionStep (Council.doVoteRoot_ok hvote).2.2
  | execute who proposal lengthBound =>
      simp only [start]
      split_ifs
      · exact Council.motionStep_refl
      · exact Council.motionStep_refl
  | disapproveProposal proposalHash => exact Council.doDisapproveProposal_motionStep proposalHash
  | close proposalHash index weightBound lengthBound =>
      simp only [start, Call.closed]
      cases council.verdict cfg proposalHash index weightBound lengthBound with
      | error e => exact Council.motionStep_refl
      | ok verdict =>
          cases verdict with
          | approved proposal yes no seats => exact Council.beginApproval_motionStep proposalHash yes no
          | disapproved yes no => exact Council.closeDisapproved_motionStep proposalHash yes no
  | changeMembers outgoing new =>
      exact Council.retainVotes_motionStep h.nodup _ rfl rfl rfl rfl rfl
  | setPrime prime => exact Council.motionStep_of_eq rfl rfl rfl rfl fun _ => rfl
  | addSenator account =>
      simp only [start, Council.addSenator]
      cases cfg.senate.addMember council.senateMembers account with
      | none => exact Council.motionStep_refl
      | some members => exact Council.motionStep_of_eq rfl rfl rfl rfl fun _ => rfl
  | swapSenator rm add =>
      simp only [start, Council.swapSenator]
      cases cfg.senate.swapMember council.senateMembers rm add with
      | none => exact Council.motionStep_refl
      | some members => exact Council.retainVotes_motionStep h.nodup _ rfl rfl rfl rfl rfl
  | membership members => exact Council.motionStep_of_eq rfl rfl rfl rfl fun _ => rfl
  | other => exact Council.motionStep_refl
  | environment owner blockNumber => exact Council.motionStep_of_eq rfl rfl rfl rfl fun _ => rfl

omit [DecidableEq A] in
theorem finish_motionStep (call : Call A H P) (result : Bool) :
    MotionStep cfg council (finish cfg council call result) call.closedAfter := by
  cases call with
  | execute who proposal lengthBound =>
      refine Council.motionStep_of_eq rfl rfl rfl rfl ?_
      intro k
      rw [finish, Council.deposit, Council.opened_append _ rfl]
      exact add_zero _
  | close proposalHash index weightBound lengthBound =>
      exact Council.finishApproval_motionStep proposalHash result
  | _ => exact Council.motionStep_refl

/-- **The motions stay well formed** in every run, also in the states that a
failing dispatch restores. -/
theorem allStates_wellFormed (h : council.WellFormed cfg) (moves : List (Move (Call A H P))) :
    AllStates (step (machine cfg)) (Holds fun _ => Council.WellFormed cfg) ⟨council, []⟩ moves :=
  allStates_holds_of_parts (I := Council.WellFormed cfg)
    (fun _ call hs => (start_motionStep hs call).wellFormed hs)
    (fun _ call ok hs => (finish_motionStep call ok).wellFormed hs) h moves

/-! ## A small council -/

/-- A Senate that is kept in order, as its pallet does. -/
def mockSenate : Membership ℕ where
  maxMembers := 12
  addMember members who :=
    if who ∉ members ∧ members.length < 12 then some (members.orderedInsert (· ≤ ·) who) else none
  swapMember members rm add :=
    if rm = add then some members
    else if rm ∈ members ∧ add ∉ members then
      some ((members.erase rm).orderedInsert (· ≤ ·) add)
    else none

def mockConfig : Config ℕ ℕ ℕ where
  motionDuration := .sat 10
  maxProposals := .sat 10
  hashOf := id
  encodedSize _ := .sat 5
  callWeight _ := ⟨.sat 1, .sat 1⟩
  defaultVote := primeDefaultVote
  senate := mockSenate

def mockCouncil : Council ℕ ℕ ℕ where
  proposals := []
  proposalOf _ := none
  voting _ := none
  proposalCount := .sat 0
  members := [1, 2, 3]
  prime := none
  events := []
  senateMembers := [11, 12, 13]
  owner hotkey := some (hotkey + 100)
  blockNumber := .sat 0

theorem mockCouncil_wellFormed : mockCouncil.WellFormed mockConfig where
  nodup := List.nodup_nil
  bounded := Nat.zero_le _
  stored := by simp [ListsKeys, mockCouncil]
  voted := by simp [ListsKeys, mockCouncil]
  hashes := by simp [mockCouncil]
  issued := by simp [mockCouncil]
  indices := by simp [mockCouncil]
  proper := by simp [mockCouncil]

/-- Two of three members agree to a motion, and while its call runs the seat of
one of them goes to somebody else. -/
def mockMoves : List (Move (Call ℕ ℕ ℕ)) :=
  [.call (.propose 1 7 (.sat 5) (.sat 10)), .call (.vote 111 11 7 (.sat 0) true),
    .call (.vote 112 12 7 (.sat 0) true), .call (.close 7 (.sat 0) ⟨.sat 1, .sat 1⟩ (.sat 5)),
    .call (.swapSenator 11 14), .result true]

/-- The motions stay well formed while this happens. -/
theorem allStates_wellFormed_mockMoves :
    AllStates (step (machine mockConfig)) (Holds fun _ => Council.WellFormed mockConfig)
      ⟨mockCouncil, []⟩ mockMoves :=
  allStates_wellFormed mockCouncil_wellFormed mockMoves

/-! ## Every motion ends once -/

/-- Every motion that was proposed is open, or it was executed or disapproved,
once, counted by the hash. -/
def Council.Accounted (council : Council A H P) : Prop :=
  ∀ h, council.opened h = if h ∈ council.proposals then 1 else 0

omit [DecidableEq A] in
/-- The accounts stay right exactly if the motion that is closed was open. -/
theorem MotionStep.accounted_iff {closed : Option H} (hstep : MotionStep cfg council council' closed)
    (h : council.WellFormed cfg) (haccounted : council.Accounted) :
    council'.Accounted ↔ ∀ proposalHash ∈ closed, proposalHash ∈ council.proposals := by
  cases hstep with
  | votes hproposals hproposalOf hcount hvoting hopened =>
      refine iff_of_true ?_ (by simp)
      intro k
      rw [hopened, hproposals]
      exact haccounted k
  | opens proposal votes hnew hroom hproposals hproposalOf hvoting hindex hproper hcount hopened =>
      refine iff_of_true ?_ (by simp)
      have hnotMem : cfg.hashOf proposal ∉ council.proposals := by
        rw [← h.stored, hnew]
        exact Bool.false_ne_true
      intro k
      rw [hopened, hproposals, haccounted k]
      rcases eq_or_ne (cfg.hashOf proposal) k with rfl | hne
      · simp [hnotMem]
      · simp [hne, hne.symm]
  | closes proposalHash hproposals hproposalOf hvoting hcount hopened =>
      simp only [Option.mem_some_iff, forall_eq']
      have hself := haccounted proposalHash
      constructor
      · intro hafter
        by_contra hclosed
        have hzero := hafter proposalHash
        rw [hopened, hself, hproposals, if_neg hclosed, if_pos rfl, if_neg (by simp)] at hzero
        exact absurd hzero (by decide)
      · intro hopen k
        rw [hopened, hproposals, haccounted k]
        rcases eq_or_ne proposalHash k with rfl | hne
        · simp [hopen]
        · simp [hne, hne.symm]

/-- The motion of a call that waits was open when its call was dispatched. -/
def OpenAtDispatch (frame : Frame (Council A H P) (Call A H P)) : Prop :=
  ∀ proposalHash ∈ frame.call.closedAfter, proposalHash ∈ frame.saved.proposals

/-- A motion is disapproved only while it is open, and one whose call was
dispatched and succeeded is still open after it. -/
def Orderly (config : CallStack.Config (Council A H P) (Call A H P)) :
    Move (Call A H P) → Prop
  | .call (.disapproveProposal proposalHash) => proposalHash ∈ config.state.proposals
  | .result true =>
      ∀ frame ∈ config.frames.head?, ∀ proposalHash ∈ frame.call.closedAfter,
        proposalHash ∈ config.state.proposals
  | _ => True

omit [DecidableEq H] in
/-- A verdict is about an open motion. -/
theorem Council.WellFormed.mem_of_verdict (h : council.WellFormed cfg) {proposalHash : H}
    {index : ProposalIndex} {weightBound : Weight} {lengthBound : U32} {verdict : Verdict P}
    (hverdict : council.verdict cfg proposalHash index weightBound lengthBound = .ok verdict) :
    proposalHash ∈ council.proposals := by
  cases hvoting : council.voting proposalHash with
  | none =>
      unfold Council.verdict at hverdict
      rw [hvoting] at hverdict
      cases hverdict
  | some votes => exact h.voted.mem hvoting

omit [DecidableEq H] in
/-- What the start of a call closes was open, unless root disapproved of it. -/
theorem closed_mem (h : council.WellFormed cfg) {call : Call A H P}
    (hcall : ∀ proposalHash, call ≠ .disapproveProposal proposalHash) :
    ∀ proposalHash ∈ call.closed cfg council, proposalHash ∈ council.proposals := by
  intro proposalHash hclosed
  cases call with
  | disapproveProposal proposalHash => exact absurd rfl (hcall proposalHash)
  | close proposalHash' index weightBound lengthBound =>
      simp only [Call.closed] at hclosed
      cases hverdict : council.verdict cfg proposalHash' index weightBound lengthBound with
      | error e => simp [hverdict] at hclosed
      | ok verdict =>
          have hmem := h.mem_of_verdict hverdict
          rw [hverdict] at hclosed
          cases verdict with
          | approved proposal yes no seats => cases hclosed
          | disapproved yes no =>
              rw [Option.mem_some_iff] at hclosed
              exact hclosed ▸ hmem
  | _ => cases hclosed

/-- A call that is dispatched from a motion leaves it open until its end. -/
theorem openAtDispatch_of_start (h : council.WellFormed cfg) {call : Call A H P}
    (hstart : start cfg council call = .dispatches council') : OpenAtDispatch ⟨call, council'⟩ := by
  intro proposalHash hclosed
  cases call with
  | close proposalHash' index weightBound lengthBound =>
      simp only [Call.closedAfter, Option.mem_some_iff] at hclosed
      simp only [start] at hstart
      cases hverdict : council.verdict cfg proposalHash' index weightBound lengthBound with
      | error e => simp [hverdict] at hstart
      | ok verdict =>
          have hmem := h.mem_of_verdict hverdict
          rw [hverdict] at hstart
          cases verdict with
          | approved proposal yes no seats =>
              cases hstart
              exact hclosed ▸ hmem
          | disapproved yes no => cases hstart
  | _ => cases hclosed

/-- What every run keeps, whether the accounts stay right or not. -/
structure Sound (cfg : Config A H P) (config : CallStack.Config (Council A H P) (Call A H P)) :
    Prop where
  wellFormed : Holds (fun _ => Council.WellFormed cfg) config
  dispatched : ∀ frame ∈ config.frames, OpenAtDispatch frame

theorem Sound.step {config : CallStack.Config (Council A H P) (Call A H P)}
    (h : Sound cfg config) (move : Move (Call A H P)) :
    Sound cfg (CallStack.step (machine cfg) config move) := by
  have hwellFormed : Holds (fun _ => Council.WellFormed cfg)
      (CallStack.step (machine cfg) config move) := by
    cases move with
    | call k =>
        exact holds_call_iff.mpr ⟨(start_motionStep h.wellFormed.state k).wellFormed h.wellFormed.state,
          h.wellFormed.saved⟩
    | result ok =>
        refine h.wellFormed.result ?_
        intro f rest _ s hs _
        exact (finish_motionStep f.call ok).wellFormed hs
  refine ⟨hwellFormed, ?_⟩
  cases move with
  | call k =>
      cases hstart : start cfg config.state k with
      | returns s =>
          rw [step_returns hstart]
          exact h.dispatched
      | dispatches s =>
          rw [step_dispatches hstart]
          rintro frame (_ | ⟨_, hmem⟩)
          · exact openAtDispatch_of_start h.wellFormed.state hstart
          · exact h.dispatched frame hmem
  | result ok =>
      rcases config with ⟨s, _ | ⟨f, rest⟩⟩
      · exact h.dispatched
      · rw [step_result]
        intro frame hmem
        exact h.dispatched frame (List.mem_cons_of_mem _ hmem)

/-- The accounts stay right in one step exactly if it is orderly. -/
theorem accounted_step_iff {config : CallStack.Config (Council A H P) (Call A H P)}
    (h : Sound cfg config) (haccounted : Holds (fun _ => Council.Accounted) config)
    (move : Move (Call A H P)) :
    Holds (fun _ => Council.Accounted) (step (machine cfg) config move) ↔ Orderly config move := by
  cases move with
  | call k =>
      have hwf := h.wellFormed.state
      rw [holds_call_iff, and_iff_left haccounted.saved]
      refine ((start_motionStep hwf k).accounted_iff hwf haccounted.state).trans ?_
      cases k with
      | disapproveProposal proposalHash => simp [Call.closed, Orderly]
      | _ => exact iff_of_true (closed_mem hwf (by simp)) trivial
  | result ok =>
      rcases config with ⟨s, _ | ⟨f, rest⟩⟩
      · cases ok with
        | false => exact iff_of_true haccounted trivial
        | true => exact iff_of_true haccounted (by simp [Orderly])
      · rw [step_result]
        have hiff : ∀ s', s'.WellFormed cfg → s'.Accounted →
            (Holds (fun _ => Council.Accounted)
                (⟨finish cfg s' f.call ok, rest⟩ : CallStack.Config _ (Call A H P)) ↔
              ∀ proposalHash ∈ f.call.closedAfter, proposalHash ∈ s'.proposals) := by
          intro s' hwf hs'
          rw [← (finish_motionStep f.call ok).accounted_iff hwf hs']
          exact ⟨fun h => h.state, fun h => ⟨h, haccounted.saved.2⟩⟩
        cases ok with
        | false =>
            exact iff_of_true ((hiff _ h.wellFormed.saved.1 haccounted.saved.1).mpr
              (h.dispatched f List.mem_cons_self)) trivial
        | true =>
            refine (hiff _ h.wellFormed.state haccounted.state).trans ?_
            simp [Orderly]

/-- **Every motion ends once.** In every run, and in every state that a failing
dispatch restores, a motion that was proposed is open, or it was executed or
disapproved once, exactly if no call disapproves of a motion that is not open and
every motion is still open when the call that it dispatched has succeeded. -/
theorem allStates_accounted_iff (h : council.WellFormed cfg) (haccounted : council.Accounted)
    (moves : List (Move (Call A H P))) :
    AllStates (step (machine cfg)) (Holds fun _ => Council.Accounted) ⟨council, []⟩ moves ↔
      AllInputs (step (machine cfg)) Orderly ⟨council, []⟩ moves := by
  refine allStates_iff (q := Sound cfg) ?_ ?_ ⟨.init h, by simp⟩ (.init haccounted) moves
  · intro config move hconfig
    exact hconfig.step move
  · intro config move hconfig hp
    exact accounted_step_iff hconfig hp move

/-- The motion is open while its call runs, and it is executed once. -/
theorem allStates_accounted_mockMoves :
    AllStates (step (machine mockConfig)) (Holds fun _ => Council.Accounted) ⟨mockCouncil, []⟩
      mockMoves :=
  (allStates_accounted_iff mockCouncil_wellFormed (fun _ => rfl) mockMoves).mpr
    ⟨trivial, trivial, trivial, trivial, trivial, by
      rintro frame hframe proposalHash hclosed
      cases hframe
      cases hclosed
      decide, trivial⟩

end Subtensor.Governance
