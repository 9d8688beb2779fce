import Subtensor.Proxies.Dispatch

/-!
# What a dispatch keeps

An induction over a call and the calls inside it, once for all invariants: if
every part of a call keeps a property of the state, as long as it is made with an
origin that it may have, then so does the whole dispatch, however deep the calls
nest. Calls of other pallets dispatch what they like; from such a call on, another
property may hold instead, one that nothing ends.
-/

namespace Subtensor.Proxies

open Lib

variable {A H D W : Type}

/-- The filters of an origin let a call through. -/
def Origin.Allows (origin : Origin A) (call : RuntimeCall A H D) : Prop :=
  origin.caller = .root ∨ ∀ restriction ∈ origin.filters, restriction.allows call = true

theorem Origin.allows_of_filterCall {cfg : Config A H D W} {world : W} {origin : Origin A}
    {call : RuntimeCall A H D} (h : origin.filterCall cfg world call = true) :
    origin.Allows call := by
  rcases origin with ⟨caller, filters⟩
  cases caller with
  | root => exact .inl rfl
  | signed who =>
      simp only [filterCall, Bool.and_eq_true] at h
      exact .inr (List.all_eq_true.mp h.2)
  | none =>
      simp only [filterCall, Bool.and_eq_true] at h
      exact .inr (List.all_eq_true.mp h.2)

theorem filtered_eq_ok {S : Type} {allowed : Bool} {result : Except Error S} {s : S} :
    filtered allowed result = .ok s ↔ allowed = true ∧ result = .ok s := by
  cases allowed with
  | false => simp [filtered]
  | true => simp [filtered]

/-- All that a script writes is related to what was there. -/
def Script.Writes (R : W → Balances A → W → Balances A → Prop) :
    Script A H D W → W → Balances A → Prop
  | .fail _, _, _ => True
  | .done world' balances', world, balances => R world balances world' balances'
  | .dispatch world' balances' _ _ _ next, world, balances =>
      R world balances world' balances' ∧
        ∀ error world balances, (next error world balances).Writes R world balances

theorem Script.writes_of_forall {R : W → Balances A → W → Balances A → Prop}
    (h : ∀ world balances world' balances', R world balances world' balances')
    (script : Script A H D W) (world : W) (balances : Balances A) :
    script.Writes R world balances := by
  induction script generalizing world balances with
  | fail error => exact trivial
  | done world' balances' => exact h _ _ _ _
  | dispatch world' balances' bypassFilter origin call next ih =>
      exact ⟨h _ _ _ _, fun error world balances => ih error world balances world balances⟩

variable [LinearOrder A] [DecidableEq H]

/-- Nothing ends `T`. -/
structure Lasting (cfg : Config A H D W) (T : State A H D W → Prop) : Prop where
  deposit : ∀ s event, T s → T (s.deposit event)
  write : ∀ s world balances, T s → T (s.write world balances)
  logDispatched : ∀ s origin call, T s → T (s.logDispatched origin call)
  dispatch : ∀ depth origin s call s', T s →
    dispatchBypassFilter cfg (nestedDispatch cfg depth) origin s call = .ok s' → T s'

theorem Lasting.nestedDispatch {cfg : Config A H D W} {T : State A H D W → Prop}
    (lasting : Lasting cfg T) {depth : ℕ} {bypassFilter : Bool} {origin : RawOrigin A}
    {s s' : State A H D W} {call : RuntimeCall A H D} (h : T s)
    (heq : nestedDispatch cfg depth bypassFilter origin s call = .ok s') : T s' := by
  cases depth with
  | zero => cases heq
  | succ depth => exact lasting.dispatch depth _ s call s' h (filtered_eq_ok.mp heq).2

theorem lasting_false (cfg : Config A H D W) : Lasting cfg fun _ => False where
  deposit _ _ h := h
  write _ _ _ h := h
  logDispatched _ _ _ h := h
  dispatch _ _ _ _ _ h _ := h

/-- The parts of a dispatch keep `I`, and the calls inside a call with `P` have
`P` with the origins that they get. What other pallets write is related by `R`, and
from a call without `P` on that they dispatch, `T` holds. -/
structure Rule (cfg : Config A H D W) (T : State A H D W → Prop)
    (R : W → Balances A → W → Balances A → Prop) (I : State A H D W → Prop)
    (P : Origin A → RuntimeCall A H D → Prop) : Prop where
  lasting : Lasting cfg T
  deposit : ∀ s event, I s → I (s.deposit event)
  write : ∀ s world balances, I s → R s.world s.balances world balances →
    I (s.write world balances)
  plain : ∀ origin s call data, I s → P origin (.plain call data) →
    I (s.logExecuted origin.caller call) ∧
      (cfg.plain origin.caller call data s.world s.balances).Writes R s.world s.balances
  dispatched : ∀ s origin call, I s →
    T (s.logDispatched origin call) ∨ I (s.logDispatched origin call) ∧ P (.of origin) call
  addProxy : ∀ who filters s delegate proxyType delay s', I s →
    P ⟨.signed who, filters⟩ (.addProxy delegate proxyType delay) →
      s.addProxyDelegate cfg who delegate proxyType delay = .ok s' → I s'
  removeProxy : ∀ who filters s delegate proxyType delay s', I s →
    P ⟨.signed who, filters⟩ (.removeProxy delegate proxyType delay) →
      s.removeProxyDelegate cfg who delegate proxyType delay = .ok s' → I s'
  removeProxies : ∀ who filters s, I s → P ⟨.signed who, filters⟩ .removeProxies →
    I (s.removeAllProxyDelegates who)
  createPure : ∀ who filters s proxyType delay index s', I s →
    P ⟨.signed who, filters⟩ (.createPure proxyType delay index) →
      s.createPure cfg who proxyType delay index = .ok s' → I s'
  killPure : ∀ who filters s spawner proxyType index height extIndex s', I s →
    P ⟨.signed who, filters⟩ (.killPure spawner proxyType index height extIndex) →
      s.killPure cfg who spawner proxyType index height extIndex = .ok s' → I s'
  announce : ∀ who s real callHash s', I s → s.announce cfg who real callHash = .ok s' → I s'
  editAnnouncements : ∀ delegate s f s', I s → s.editAnnouncements cfg delegate f = .ok s' → I s'
  batch : ∀ origin calls call, P origin (.batch calls) → call ∈ calls → origin.Allows call →
    P origin call
  batchAll : ∀ origin calls call, P origin (.batchAll calls) → call ∈ calls →
    origin.inBatchAll.Allows call → P origin.inBatchAll call
  forceBatch : ∀ origin calls call, P origin (.forceBatch calls) → call ∈ calls →
    origin.Allows call → P origin call
  asDerivative : ∀ who filters index call, P ⟨.signed who, filters⟩ (.asDerivative index call) →
    Origin.Allows ⟨.signed (cfg.derivativeAccountId who index), filters⟩ call →
      P ⟨.signed (cfg.derivativeAccountId who index), filters⟩ call
  dispatchAs : ∀ filters asOrigin call, P ⟨.root, filters⟩ (.dispatchAs asOrigin call) →
    P (.of asOrigin) call
  withWeight : ∀ filters call, P ⟨.root, filters⟩ (.withWeight call) → P (.of .root) call
  proxy : ∀ who filters s real forceProxyType call definition, I s →
    P ⟨.signed who, filters⟩ (.proxy real forceProxyType call) →
      s.findProxy real who forceProxyType = .ok definition →
        (Origin.proxied real definition).Allows call → P (.proxied real definition) call
  proxyAnnounced : ∀ who filters s delegate real forceProxyType call definition, I s →
    P ⟨.signed who, filters⟩ (.proxyAnnounced delegate real forceProxyType call) →
      s.findProxy real delegate forceProxyType = .ok definition →
        (Origin.proxied real definition).Allows call → P (.proxied real definition) call

/-- How the calls that other pallets dispatch keep `I`. -/
def Keeps (T I : State A H D W → Prop) (P : Origin A → RuntimeCall A H D → Prop)
    (nested : Dispatcher A H D W) : Prop :=
  ∀ bypassFilter origin s call s', I s → P (.of origin) call →
    nested bypassFilter origin s call = .ok s' → T s' ∨ I s'

namespace Rule

variable {cfg : Config A H D W} {T I : State A H D W → Prop}
  {R : W → Balances A → W → Balances A → Prop} {P : Origin A → RuntimeCall A H D → Prop}
  {depth : ℕ}

theorem deposit_or (rule : Rule cfg T R I P) {s : State A H D W} (event : Event A H)
    (h : T s ∨ I s) : T (s.deposit event) ∨ I (s.deposit event) :=
  h.imp (rule.lasting.deposit s event) (rule.deposit s event)

/-- A dispatch inside a call leaves an event behind, whether it fails or not. -/
theorem settle (rule : Rule cfg T R I P) {s : State A H D W}
    {result : Except Error (State A H D W)} {event : Option Error → Event A H} (h : I s)
    (hresult : ∀ s', result = .ok s' → T s' ∨ I s') :
    T (State.settle s result fun error s => s.deposit (event error)) ∨
      I (State.settle s result fun error s => s.deposit (event error)) := by
  cases result with
  | error e => exact .inr (rule.deposit s _ h)
  | ok s' => exact rule.deposit_or _ (hresult s' rfl)

/-- A script writes, and it dispatches. -/
theorem run (rule : Rule cfg T R I P) (hnested : Keeps T I P (nestedDispatch cfg depth))
    (script : Script A H D W) {s s' : State A H D W}
    (h : T s ∨ I s ∧ script.Writes R s.world s.balances)
    (heq : script.run (nestedDispatch cfg depth) s = .ok s') : T s' ∨ I s' := by
  induction script generalizing s with
  | fail error => cases heq
  | done world balances =>
      cases heq
      exact h.imp (rule.lasting.write s world balances) fun h => rule.write s world balances h.1 h.2
  | dispatch world balances bypassFilter origin call next ih =>
      have hwritten : T (s.write world balances) ∨ I (s.write world balances) ∧
          ∀ error world balances, (next error world balances).Writes R world balances :=
        h.imp (rule.lasting.write s world balances)
          fun h => ⟨rule.write s world balances h.1 h.2.1, h.2.2⟩
      unfold Script.run at heq
      dsimp only at heq
      split at heq
      · exact ih _ _ _ (hwritten.imp_right fun h => ⟨h.1, h.2 _ _ _⟩) heq
      · rename_i s'' hdispatch
        refine ih _ _ _ ?_ heq
        rcases hwritten with htainted | ⟨hkept, hnext⟩
        -- a state that is past the rule stays so, whatever is dispatched in it
        · exact .inl (rule.lasting.nestedDispatch
            (rule.lasting.logDispatched _ origin call htainted) hdispatch)
        · rcases rule.dispatched _ origin call hkept with htainted | ⟨hlogged, hp⟩
          · exact .inl (rule.lasting.nestedDispatch htainted hdispatch)
          · exact (hnested _ _ _ _ _ hlogged hp hdispatch).imp_right fun h => ⟨h, hnext _ _ _⟩

mutual

/-- **A dispatch keeps what its parts keep.** -/
theorem dispatchBypassFilter (rule : Rule cfg T R I P)
    (hnested : Keeps T I P (nestedDispatch cfg depth)) {origin : Origin A} {s s' : State A H D W} :
    (call : RuntimeCall A H D) → I s → P origin call →
      Proxies.dispatchBypassFilter cfg (nestedDispatch cfg depth) origin s call = .ok s' →
        T s' ∨ I s'
  | .plain call data, h, hp, heq => by
      unfold Proxies.dispatchBypassFilter State.plain at heq
      rcases rule.plain origin s call data h hp with ⟨hlogged, hwrites⟩
      exact rule.run hnested _ (.inr ⟨hlogged, hwrites⟩) heq
  | .batch calls, h, hp, heq => by
      unfold Proxies.dispatchBypassFilter at heq
      split_ifs at heq
      cases heq
      exact batchItems rule hnested calls (.inr h)
        fun call hmem hallows => rule.batch origin calls call hp hmem hallows
  | .asDerivative index call, h, hp, heq => by
      unfold Proxies.dispatchBypassFilter at heq
      rcases origin with ⟨_ | who | _, filters⟩
      · cases heq
      · rcases filtered_eq_ok.mp heq with ⟨hallowed, heq⟩
        exact dispatchBypassFilter rule hnested call h
          (rule.asDerivative who filters index call hp (Origin.allows_of_filterCall hallowed)) heq
      · cases heq
  | .batchAll calls, h, hp, heq => by
      unfold Proxies.dispatchBypassFilter at heq
      split_ifs at heq
      exact batchAllItems rule hnested calls (.inr h)
        (fun call hmem hallows => rule.batchAll origin calls call hp hmem hallows) heq
  | .dispatchAs asOrigin call, h, hp, heq => by
      unfold Proxies.dispatchBypassFilter at heq
      rcases origin with ⟨_ | who | _, filters⟩
      · cases heq
        refine rule.settle h ?_
        intro s'' heq
        exact dispatchBypassFilter rule hnested call h (rule.dispatchAs filters asOrigin call hp) heq
      · cases heq
      · cases heq
  | .forceBatch calls, h, hp, heq => by
      unfold Proxies.dispatchBypassFilter at heq
      split_ifs at heq
      cases heq
      exact forceBatchItems rule hnested calls (.inr h)
        fun call hmem hallows => rule.forceBatch origin calls call hp hmem hallows
  | .withWeight call, h, hp, heq => by
      unfold Proxies.dispatchBypassFilter at heq
      rcases origin with ⟨_ | who | _, filters⟩
      · exact dispatchBypassFilter rule hnested call h (rule.withWeight filters call hp) heq
      · cases heq
      · cases heq
  | .proxy real forceProxyType call, h, hp, heq => by
      unfold Proxies.dispatchBypassFilter at heq
      rcases origin with ⟨_ | who | _, filters⟩
      · cases heq
      · dsimp only at heq
        cases hfind : s.findProxy real who forceProxyType with
        | error e =>
            rw [hfind] at heq
            cases heq
        | ok definition =>
            rw [hfind] at heq
            dsimp only at heq
            split_ifs at heq
            cases heq
            refine rule.settle h ?_
            intro s'' heq
            rcases filtered_eq_ok.mp heq with ⟨hallowed, heq⟩
            exact dispatchBypassFilter rule hnested call h (rule.proxy who filters s real forceProxyType
              call definition h hp hfind (Origin.allows_of_filterCall hallowed)) heq
      · cases heq
  | .addProxy delegate proxyType delay, h, hp, heq => by
      unfold Proxies.dispatchBypassFilter at heq
      rcases origin with ⟨_ | who | _, filters⟩
      · cases heq
      · exact .inr (rule.addProxy who filters s delegate proxyType delay s' h hp heq)
      · cases heq
  | .removeProxy delegate proxyType delay, h, hp, heq => by
      unfold Proxies.dispatchBypassFilter at heq
      rcases origin with ⟨_ | who | _, filters⟩
      · cases heq
      · exact .inr (rule.removeProxy who filters s delegate proxyType delay s' h hp heq)
      · cases heq
  | .removeProxies, h, hp, heq => by
      unfold Proxies.dispatchBypassFilter at heq
      rcases origin with ⟨_ | who | _, filters⟩
      · cases heq
      · cases heq
        exact .inr (rule.removeProxies who filters s h hp)
      · cases heq
  | .createPure proxyType delay index, h, hp, heq => by
      unfold Proxies.dispatchBypassFilter at heq
      rcases origin with ⟨_ | who | _, filters⟩
      · cases heq
      · exact .inr (rule.createPure who filters s proxyType delay index s' h hp heq)
      · cases heq
  | .killPure spawner proxyType index height extIndex, h, hp, heq => by
      unfold Proxies.dispatchBypassFilter at heq
      rcases origin with ⟨_ | who | _, filters⟩
      · cases heq
      · exact .inr (rule.killPure who filters s spawner proxyType index height extIndex s' h hp heq)
      · cases heq
  | .announce real callHash, h, hp, heq => by
      unfold Proxies.dispatchBypassFilter at heq
      rcases origin with ⟨_ | who | _, filters⟩
      · cases heq
      · exact .inr (rule.announce who s real callHash s' h heq)
      · cases heq
  | .removeAnnouncement real callHash, h, hp, heq => by
      unfold Proxies.dispatchBypassFilter at heq
      rcases origin with ⟨_ | who | _, filters⟩
      · cases heq
      · exact .inr (rule.editAnnouncements who s _ s' h heq)
      · cases heq
  | .rejectAnnouncement delegate callHash, h, hp, heq => by
      unfold Proxies.dispatchBypassFilter at heq
      rcases origin with ⟨_ | who | _, filters⟩
      · cases heq
      · exact .inr (rule.editAnnouncements delegate s _ s' h heq)
      · cases heq
  | .proxyAnnounced delegate real forceProxyType call, h, hp, heq => by
      unfold Proxies.dispatchBypassFilter at heq
      rcases origin with ⟨_ | who | _, filters⟩
      · cases heq
      · dsimp only at heq
        cases hfind : s.findProxy real delegate forceProxyType with
        | error e =>
            rw [hfind] at heq
            cases heq
        | ok definition =>
            rw [hfind] at heq
            dsimp only at heq
            split at heq
            · cases heq
            · rename_i edited hedit
              cases heq
              -- the announcement is removed whether the call succeeds or not
              have hedited := rule.editAnnouncements delegate s _ edited h hedit
              refine rule.settle hedited ?_
              intro s'' heq
              rcases filtered_eq_ok.mp heq with ⟨hallowed, heq⟩
              exact dispatchBypassFilter rule hnested call hedited
                (rule.proxyAnnounced who filters s delegate real forceProxyType call definition h hp
                  hfind (Origin.allows_of_filterCall hallowed)) heq
      · cases heq

theorem batchItems (rule : Rule cfg T R I P)
    (hnested : Keeps T I P (nestedDispatch cfg depth)) {origin : Origin A} {s : State A H D W}
    {index : ℕ} : (calls : List (RuntimeCall A H D)) → T s ∨ I s →
      (∀ call ∈ calls, origin.Allows call → P origin call) →
        T (Proxies.batchItems cfg (nestedDispatch cfg depth) origin s index calls) ∨
          I (Proxies.batchItems cfg (nestedDispatch cfg depth) origin s index calls)
  | [], h, _ => rule.deposit_or _ h
  | call :: calls, h, hp => by
      unfold Proxies.batchItems
      split
      · exact rule.deposit_or _ h
      · rename_i s' heq
        rcases filtered_eq_ok.mp heq with ⟨hallowed, heq⟩
        have hcall := hp call List.mem_cons_self (Origin.allows_of_filterCall hallowed)
        have hs' : T s' ∨ I s' := h.elim
          (fun h => .inl (rule.lasting.dispatch depth origin s call s' h heq))
          (fun h => dispatchBypassFilter rule hnested call h hcall heq)
        exact batchItems rule hnested calls (rule.deposit_or _ hs')
          fun call hmem => hp call (List.mem_cons_of_mem _ hmem)

theorem batchAllItems (rule : Rule cfg T R I P)
    (hnested : Keeps T I P (nestedDispatch cfg depth)) {origin : Origin A} {s s' : State A H D W} :
    (calls : List (RuntimeCall A H D)) → T s ∨ I s →
      (∀ call ∈ calls, origin.Allows call → P origin call) →
        Proxies.batchAllItems cfg (nestedDispatch cfg depth) origin s calls = .ok s' → T s' ∨ I s'
  | [], h, _, heq => by
      cases heq
      exact rule.deposit_or _ h
  | call :: calls, h, hp, hitems => by
      unfold Proxies.batchAllItems at hitems
      split at hitems
      · cases hitems
      · rename_i s'' heq
        rcases filtered_eq_ok.mp heq with ⟨hallowed, heq⟩
        have hcall := hp call List.mem_cons_self (Origin.allows_of_filterCall hallowed)
        have hs'' : T s'' ∨ I s'' := h.elim
          (fun h => .inl (rule.lasting.dispatch depth origin s call s'' h heq))
          (fun h => dispatchBypassFilter rule hnested call h hcall heq)
        exact batchAllItems rule hnested calls (rule.deposit_or _ hs'')
          (fun call hmem => hp call (List.mem_cons_of_mem _ hmem)) hitems

theorem forceBatchItems (rule : Rule cfg T R I P)
    (hnested : Keeps T I P (nestedDispatch cfg depth)) {origin : Origin A} {s : State A H D W}
    {hasError : Bool} : (calls : List (RuntimeCall A H D)) → T s ∨ I s →
      (∀ call ∈ calls, origin.Allows call → P origin call) →
        T (Proxies.forceBatchItems cfg (nestedDispatch cfg depth) origin s hasError calls) ∨
          I (Proxies.forceBatchItems cfg (nestedDispatch cfg depth) origin s hasError calls)
  | [], h, _ => rule.deposit_or _ h
  | call :: calls, h, hp => by
      have hrest : ∀ call ∈ calls, origin.Allows call → P origin call :=
        fun call hmem => hp call (List.mem_cons_of_mem _ hmem)
      unfold Proxies.forceBatchItems
      split
      · exact forceBatchItems rule hnested calls (rule.deposit_or _ h) hrest
      · rename_i s' heq
        rcases filtered_eq_ok.mp heq with ⟨hallowed, heq⟩
        have hcall := hp call List.mem_cons_self (Origin.allows_of_filterCall hallowed)
        have hs' : T s' ∨ I s' := h.elim
          (fun h => .inl (rule.lasting.dispatch depth origin s call s' h heq))
          (fun h => dispatchBypassFilter rule hnested call h hcall heq)
        exact forceBatchItems rule hnested calls (rule.deposit_or _ hs') hrest

end

/-- So do the calls that other pallets dispatch, however deep they nest. -/
theorem keeps (rule : Rule cfg T R I P) : (depth : ℕ) → Keeps T I P (nestedDispatch cfg depth)
  | 0 => fun _ _ _ _ _ _ _ heq => by cases heq
  | depth + 1 => fun _ _ _ call _ h hp heq =>
      rule.dispatchBypassFilter (keeps rule depth) call h hp (filtered_eq_ok.mp heq).2

/-- What all dispatches keep with `P` or without it, nothing ends. -/
theorem lasting_of (rule : Rule cfg (fun _ => False) R I fun _ _ => True)
    (hwrite : ∀ s world balances, I s → I (s.write world balances)) : Lasting cfg I where
  deposit := rule.deposit
  write := hwrite
  logDispatched s origin call h := ((rule.dispatched s origin call h).resolve_left id).1
  dispatch depth _ _ call _ h heq :=
    (rule.dispatchBypassFilter (rule.keeps depth) call h trivial heq).resolve_left id

theorem dispatch (rule : Rule cfg T R I P) {origin : Origin A} {s s' : State A H D W}
    {call : RuntimeCall A H D} (h : T s ∨ I s) (hp : origin.Allows call → P origin call)
    (heq : Proxies.dispatch cfg origin s call = .ok s') : T s' ∨ I s' := by
  rcases filtered_eq_ok.mp heq with ⟨hallowed, heq⟩
  rcases h with h | h
  · exact .inl (rule.lasting.dispatch cfg.depth origin s call s' h heq)
  · exact rule.dispatchBypassFilter (rule.keeps cfg.depth) call h
      (hp (Origin.allows_of_filterCall hallowed)) heq

/-- So does a call from outside, also when it fails. -/
theorem getD_dispatch (rule : Rule cfg T R I P) {origin : Origin A} {s : State A H D W}
    {call : RuntimeCall A H D} (h : T s ∨ I s) (hp : origin.Allows call → P origin call) :
    T ((Proxies.dispatch cfg origin s call).toOption.getD s) ∨
      I ((Proxies.dispatch cfg origin s call).toOption.getD s) := by
  cases heq : Proxies.dispatch cfg origin s call with
  | error e => exact h
  | ok s' => exact rule.dispatch h hp heq

end Rule

end Subtensor.Proxies
