import Subtensor.Proxies.Storage

/-!
# Calls that other pallets dispatch

A call of another pallet has any call dispatched that it likes, with an origin that
has no filters: `finalize` of the crowdloan pallet dispatches the call that the
creator has stored, as the creator. What a run proves of the calls that it is given
can end with such a call; that it has been dispatched stays on record.
-/

namespace Subtensor.Proxies

open Lib

variable {A H D W : Type} {P Q : RawOrigin A → RuntimeCall A H D → Prop}
  {s₀ s s' : State A H D W}

/-- Since `s₀` a call of another pallet has dispatched a call without `P`. -/
def Tainted (P : RawOrigin A → RuntimeCall A H D → Prop) (s₀ s : State A H D W) : Prop :=
  ∃ new, s.dispatched = s₀.dispatched ++ new ∧ ∃ origin call, (origin, call) ∈ new ∧ ¬P origin call

theorem Tainted.mono (h : Tainted P s₀ s) (hsub : ∀ origin call, Q origin call → P origin call) :
    Tainted Q s₀ s := by
  rcases h with ⟨new, hnew, origin, call, hmem, hp⟩
  exact ⟨new, hnew, origin, call, hmem, fun hq => hp (hsub origin call hq)⟩

theorem Tainted.of_eq (h : Tainted P s₀ s) (heq : s'.dispatched = s.dispatched) :
    Tainted P s₀ s' := by
  unfold Tainted
  rw [heq]
  exact h

theorem Tainted.logDispatched (h : Tainted P s₀ s) (origin : RawOrigin A)
    (call : RuntimeCall A H D) : Tainted P s₀ (s.logDispatched origin call) := by
  rcases h with ⟨new, hnew, origin', call', hmem, hp⟩
  refine ⟨new ++ [(origin, call)], ?_, origin', call', List.mem_append_left _ hmem, hp⟩
  unfold State.logDispatched
  dsimp only
  rw [hnew, List.append_assoc]

theorem dispatched_prefix_logDispatched (h : s₀.dispatched <+: s.dispatched) (origin : RawOrigin A)
    (call : RuntimeCall A H D) : s₀.dispatched <+: (s.logDispatched origin call).dispatched :=
  h.trans (List.prefix_append _ _)

/-- A call that is dispatched has `P`, or it is on record. -/
theorem tainted_or (h : s₀.dispatched <+: s.dispatched) (origin : RawOrigin A)
    (call : RuntimeCall A H D) : Tainted P s₀ (s.logDispatched origin call) ∨ P origin call := by
  by_cases hp : P origin call
  · exact .inr hp
  · rcases h with ⟨new, hnew⟩
    refine .inl ⟨new ++ [(origin, call)], ?_, origin, call, by simp, hp⟩
    unfold State.logDispatched
    dsimp only
    rw [← hnew, List.append_assoc]

variable [LinearOrder A] [DecidableEq H] {cfg : Config A H D W}

theorem tainted_rule (P : RawOrigin A → RuntimeCall A H D → Prop) (s₀ : State A H D W) :
    Rule cfg (fun _ => False) (fun _ _ _ _ => True) (Tainted P s₀) fun _ _ => True where
  lasting := lasting_false cfg
  deposit s event h := h.of_eq rfl
  write s world balances h _ := h.of_eq rfl
  plain origin s call data h _ :=
    ⟨h.of_eq rfl, Script.writes_of_forall (fun _ _ _ _ => trivial) _ _ _⟩
  dispatched s origin call h := .inr ⟨h.logDispatched origin call, trivial⟩
  addProxy who filters s delegate proxyType delay s' h _ heq := by
    rcases State.addProxyDelegate_ok heq with ⟨-, i, -, -, hwrite⟩
    exact h.of_eq hwrite.dispatched
  removeProxy who filters s delegate proxyType delay s' h _ heq := by
    rcases State.removeProxyDelegate_ok heq with ⟨proxies, oldDeposit, i, -, -, hwrite⟩
    exact h.of_eq hwrite.dispatched
  removeProxies who filters s h _ := h.of_eq rfl
  createPure who filters s proxyType delay index s' h _ heq := by
    rcases State.createPure_ok heq with ⟨-, -, hwrite⟩
    exact h.of_eq hwrite.dispatched
  killPure who filters s spawner proxyType index height extIndex s' h _ heq := by
    rcases State.killPure_ok heq with ⟨-, hwrite⟩
    exact h.of_eq hwrite.dispatched
  announce who s real callHash s' h heq := by
    rcases State.announce_ok heq with ⟨-, hwrite⟩
    exact h.of_eq hwrite.dispatched
  editAnnouncements delegate s f s' h heq := by
    rcases State.editAnnouncements_ok heq with ⟨pending, oldDeposit, -, -, hwrite⟩
    exact h.of_eq hwrite.dispatched
  batch _ _ _ _ _ _ := trivial
  batchAll _ _ _ _ _ _ := trivial
  forceBatch _ _ _ _ _ _ := trivial
  asDerivative _ _ _ _ _ _ := trivial
  dispatchAs _ _ _ _ := trivial
  withWeight _ _ _ := trivial
  proxy _ _ _ _ _ _ _ _ _ _ _ := trivial
  proxyAnnounced _ _ _ _ _ _ _ _ _ _ _ _ := trivial

/-- **What has been dispatched stays on record.** -/
theorem tainted_lasting (P : RawOrigin A → RuntimeCall A H D → Prop) (s₀ : State A H D W) :
    Lasting cfg (Tainted P s₀) :=
  (tainted_rule P s₀).lasting_of fun _ _ _ h => h.of_eq rfl

end Subtensor.Proxies
