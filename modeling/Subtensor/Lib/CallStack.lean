import Subtensor.Lib.Run

/-!
# Calls that dispatch calls

A call either returns, or it dispatches another call and goes on after that has
its result. Any calls can come in between, and these can dispatch calls again. A
dispatched call that fails is rolled back: its caller goes on in the state in
which it was dispatched.
-/

namespace Subtensor.Lib.CallStack

open Run

variable {S K : Type}

/-- How a call starts. -/
inductive Start (S : Type) where
  | returns (state : S)
  | dispatches (state : S)

/-- The state that the start of a call leaves. -/
def Start.state : Start S → S
  | .returns state => state
  | .dispatches state => state

/-- The two parts of every call: up to the dispatch, and after it. -/
structure Machine (S K : Type) where
  start : S → K → Start S
  finish : S → K → Bool → S

/-- A call that waits for what it dispatched, and the state of the dispatch. -/
structure Frame (S K : Type) where
  call : K
  saved : S

structure Config (S K : Type) where
  state : S
  frames : List (Frame S K)

/-- A call is made, or the call that was dispatched last has its result. -/
inductive Move (K : Type) where
  | call (k : K)
  | result (ok : Bool)

def step (m : Machine S K) (c : Config S K) : Move K → Config S K
  | .call k =>
      match m.start c.state k with
      | .returns s => { c with state := s }
      | .dispatches s => ⟨s, ⟨k, s⟩ :: c.frames⟩
  | .result ok =>
      match c.frames with
      | [] => c
      | f :: rest => ⟨m.finish (if ok then c.state else f.saved) f.call ok, rest⟩

variable {m : Machine S K} {c : Config S K}

theorem step_returns {k : K} {s : S} (h : m.start c.state k = .returns s) :
    step m c (.call k) = ⟨s, c.frames⟩ := by
  simp only [step, h]

theorem step_dispatches {k : K} {s : S} (h : m.start c.state k = .dispatches s) :
    step m c (.call k) = ⟨s, ⟨k, s⟩ :: c.frames⟩ := by
  simp only [step, h]

theorem step_result (f : Frame S K) (rest : List (Frame S K)) (s : S) (ok : Bool) :
    step m ⟨s, f :: rest⟩ (.result ok) =
      ⟨m.finish (if ok then s else f.saved) f.call ok, rest⟩ := rfl

/-! ## Nested runs -/

/-- A run in which every dispatched call has its result. -/
inductive Runs (m : Machine S K) : S → List (Move K) → S → Prop where
  | nil (s : S) : Runs m s [] s
  | returns {s s₁ s' : S} {k : K} {rest : List (Move K)} :
      m.start s k = .returns s₁ → Runs m s₁ rest s' → Runs m s (.call k :: rest) s'
  | dispatches {s s₁ s₂ s' : S} {k : K} {ok : Bool} {inner rest : List (Move K)} :
      m.start s k = .dispatches s₁ → Runs m s₁ inner s₂ →
        Runs m (m.finish (if ok then s₂ else s₁) k ok) rest s' →
          Runs m s (.call k :: (inner ++ .result ok :: rest)) s'

/-! ## Invariants -/

/-- The calls of the frames, the one that was dispatched from last first. -/
def waiting (frames : List (Frame S K)) : List K := frames.map Frame.call

/-- `I` holds of every state that a failure can restore. -/
def SavedHold (I : List K → S → Prop) : List (Frame S K) → Prop
  | [] => True
  | f :: rest => I (waiting (f :: rest)) f.saved ∧ SavedHold I rest

/-- `I` holds of the state, with the calls that wait in it, and of every state
that a failure can restore. -/
structure Holds (I : List K → S → Prop) (c : Config S K) : Prop where
  state : I (waiting c.frames) c.state
  saved : SavedHold I c.frames

variable {I : List K → S → Prop}

theorem Holds.init {s : S} (h : I [] s) : Holds I (⟨s, []⟩ : Config S K) := ⟨h, trivial⟩

/-- A call keeps what its start keeps. -/
theorem Holds.call (h : Holds I c) {k : K}
    (hreturns : ∀ s, m.start c.state k = .returns s → I (waiting c.frames) s)
    (hdispatches : ∀ s, m.start c.state k = .dispatches s → I (k :: waiting c.frames) s) :
    Holds I (step m c (.call k)) := by
  cases hstart : m.start c.state k with
  | returns s =>
      rw [step_returns hstart]
      exact ⟨hreturns s hstart, h.saved⟩
  | dispatches s =>
      rw [step_dispatches hstart]
      exact ⟨hdispatches s hstart, hdispatches s hstart, h.saved⟩

/-- A result keeps what the end of the waiting call keeps, from the state it
finds or from the one that is restored. -/
theorem Holds.result (h : Holds I c) {ok : Bool}
    (hfinish : ∀ f rest, c.frames = f :: rest →
      ∀ s, I (f.call :: waiting rest) s → (ok = true → s = c.state) →
        I (waiting rest) (m.finish s f.call ok)) :
    Holds I (step m c (.result ok)) := by
  rcases c with ⟨state, frames⟩
  cases frames with
  | nil => exact h
  | cons f rest =>
      rw [step_result]
      refine ⟨hfinish f rest rfl _ ?_ ?_, h.saved.2⟩
      · split
        · exact h.state
        · exact h.saved.1
      · intro hok
        rw [if_pos hok]

/-- What has to hold for a property of the state alone to hold after a call. -/
theorem holds_call_iff {I : S → Prop} {k : K} :
    Holds (fun _ => I) (step m c (.call k)) ↔
      I (m.start c.state k).state ∧ SavedHold (fun _ => I) c.frames := by
  cases hstart : m.start c.state k with
  | returns s =>
      rw [step_returns hstart]
      exact ⟨fun h => ⟨h.state, h.saved⟩, fun h => ⟨h.1, h.2⟩⟩
  | dispatches s =>
      rw [step_dispatches hstart]
      exact ⟨fun h => ⟨h.state, h.saved.2⟩, fun h => ⟨h.1, h.1, h.2⟩⟩

/-- **Nested calls keep an invariant** that the starts and the ends of calls keep. -/
theorem allStates_holds
    (hreturns : ∀ calls s k s', I calls s → m.start s k = .returns s' → I calls s')
    (hdispatches : ∀ calls s k s', I calls s → m.start s k = .dispatches s' → I (k :: calls) s')
    (hfinish : ∀ calls s k ok, I (k :: calls) s → I calls (m.finish s k ok))
    {s : S} (h : I [] s) (moves : List (Move K)) :
    AllStates (step m) (Holds I) ⟨s, []⟩ moves := by
  refine allStates_of_step ?_ (Holds.init h) moves
  intro c move hc
  cases move with
  | call k =>
      exact hc.call (fun s' hs => hreturns _ _ k s' hc.state hs)
        fun s' hs => hdispatches _ _ k s' hc.state hs
  | result ok =>
      refine hc.result ?_
      intro f rest _ s' hs _
      exact hfinish _ _ _ ok hs

/-- **Nested calls keep an invariant** of the state that the starts and the ends
of calls keep. -/
theorem allStates_holds_of_parts {I : S → Prop} (hstart : ∀ s k, I s → I (m.start s k).state)
    (hfinish : ∀ s k ok, I s → I (m.finish s k ok)) {s : S} (h : I s) (moves : List (Move K)) :
    AllStates (step m) (Holds fun _ => I) ⟨s, []⟩ moves := by
  refine allStates_holds ?_ ?_ (fun _ s k ok hs => hfinish s k ok hs) h moves
  · intro _ s k s' hs heq
    have := hstart s k hs
    rwa [heq] at this
  · intro _ s k s' hs heq
    have := hstart s k hs
    rwa [heq] at this

end Subtensor.Lib.CallStack
