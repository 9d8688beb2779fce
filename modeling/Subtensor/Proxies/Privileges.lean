import Subtensor.Proxies.Entries

/-!
# What proxies can do

Proxies of an account make calls in its name, with batches, with proxies that they
add and through other accounts. As long as no call of another pallet dispatches one
as the account or as root, the types of the proxies that the account has given
itself admit all of them, with one exception: a proxy without transfers can add one
without critical calls, and that one makes transfers.
-/

namespace Subtensor.Proxies

open Lib Lib.Run

variable {A H D W : Type}

/-- A type that a proxy of one of the given definitions may hand on. -/
def Given (given : List (ProxyDefinition A)) (t : ProxyType) : Prop :=
  ∃ definition ∈ given, definition.proxyType.isSuperset t = true

theorem Given.trans {given : List (ProxyDefinition A)} {t t' : ProxyType} (h : Given given t)
    (hsuperset : t.isSuperset t' = true) : Given given t' := by
  rcases h with ⟨definition, hmem, ht⟩
  exact ⟨definition, hmem, ProxyType.isSuperset_trans ht hsuperset⟩

/-- The account is none of those that the pallets derive from others. -/
structure Config.Underived (cfg : Config A H D W) (real : A) : Prop where
  pureAccount : ∀ who proxyType index maybeWhen,
    cfg.pureAccount who proxyType index maybeWhen ≠ real
  derivativeAccountId : ∀ who index, cfg.derivativeAccountId who index ≠ real

/-- What a given type admits, the type of a given definition admits, or the exception. -/
theorem Given.admits {given : List (ProxyDefinition A)} {t : ProxyType} (h : Given given t)
    {call : PlainCall} (hcall : t.filterPlain call = true) :
    ∃ definition ∈ given, definition.proxyType.filterPlain call = true ∨
      (definition.proxyType = .nonTransfer ∧ ProxyType.nonCritical.filterPlain call = true) := by
  rcases h with ⟨definition, hmem, hsuperset⟩
  refine ⟨definition, hmem, ?_⟩
  by_cases hexception : definition.proxyType = .nonTransfer ∧ t = .nonCritical
  · rcases hexception with ⟨htype, rfl⟩
    exact .inr ⟨htype, hcall⟩
  · exact .inl (ProxyType.filterPlain_of_isSuperset hsuperset hexception hcall)

variable [LinearOrder A] [DecidableEq H] {cfg : Config A H D W} {real : A}

/-- What the proxies of an account keep, from a state with given proxies on. -/
structure Confined (real : A) (s₀ s : State A H D W) : Prop where
  proxies : ∀ definition ∈ s.proxiesOf real, Given (s₀.proxiesOf real) definition.proxyType
  executed : ∃ new, s.executed = s₀.executed ++ new ∧
    ∀ call, (RawOrigin.signed real, call) ∈ new →
      ∃ t, Given (s₀.proxiesOf real) t ∧ t.filterPlain call = true
  dispatched : s₀.dispatched <+: s.dispatched

/-- An origin with the name of the account has the filter of a given type, and the
call passes it. -/
def Restricted (real : A) (given : List (ProxyDefinition A)) (origin : Origin A)
    (call : RuntimeCall A H D) : Prop :=
  origin.caller ≠ .root ∧ (origin.caller = .signed real →
    ∃ t, Restriction.proxied t ∈ origin.filters ∧ Given given t ∧
      (Restriction.proxied t).allows call = true)

namespace Confined

variable {s₀ s s' : State A H D W}

omit [DecidableEq H] in
/-- Where nothing is executed and the proxies of the account are among those it had. -/
theorem of_subset (h : Confined real s₀ s) (hexecuted : s'.executed = s.executed)
    (hdispatched : s'.dispatched = s.dispatched)
    (hproxies : ∀ definition ∈ s'.proxiesOf real, definition ∈ s.proxiesOf real ∨
      Given (s₀.proxiesOf real) definition.proxyType) : Confined real s₀ s' := by
  refine ⟨?_, hexecuted ▸ h.executed, hdispatched ▸ h.dispatched⟩
  intro definition hmem
  rcases hproxies definition hmem with hold | hgiven
  · exact h.proxies definition hold
  · exact hgiven

omit [DecidableEq H] in
theorem proxiesWrite (h : Confined real s₀ s) {who payer : A}
    {entry : Option (List (ProxyDefinition A) × Balance)}
    (hwrite : State.ProxiesWrite s s' who payer entry)
    (hentry : who = real → ∀ definition ∈ (entry.getD ([], 0)).1,
      definition ∈ s.proxiesOf real ∨ Given (s₀.proxiesOf real) definition.proxyType) :
    Confined real s₀ s' := by
  refine h.of_subset hwrite.executed hwrite.dispatched ?_
  intro definition hmem
  rw [hwrite.proxiesOf] at hmem
  split_ifs at hmem with heq
  · exact hentry heq.symm definition hmem
  · exact .inl hmem

omit [DecidableEq H] in
theorem announcementsWrite (h : Confined real s₀ s) {who : A}
    {entry : Option (List (Announcement A H) × Balance)}
    (hwrite : State.AnnouncementsWrite s s' who entry) : Confined real s₀ s' := by
  refine h.of_subset hwrite.executed hwrite.dispatched ?_
  intro definition hmem
  unfold State.proxiesOf at hmem ⊢
  rw [hwrite.proxies] at hmem
  exact .inl hmem

end Confined

omit [LinearOrder A] [DecidableEq H] in
/-- Calls inside a call have the same filters, or more of them. -/
theorem Restricted.inside {given : List (ProxyDefinition A)} {origin origin' : Origin A}
    {call call' : RuntimeCall A H D} (h : Restricted real given origin call)
    (hcaller : origin'.caller = origin.caller)
    (hfilters : ∀ restriction ∈ origin.filters, restriction ∈ origin'.filters)
    (hallows : origin'.Allows call') : Restricted real given origin' call' := by
  refine ⟨hcaller ▸ h.1, ?_⟩
  intro hreal
  rcases h.2 (hcaller ▸ hreal) with ⟨t, hmem, hgiven, -⟩
  refine ⟨t, hfilters _ hmem, hgiven, ?_⟩
  rcases hallows with hroot | hallows
  · exact absurd (hcaller ▸ hroot) h.1
  · exact hallows _ (hfilters _ hmem)

omit [DecidableEq H] in
/-- The new origin of a proxy of the account is restricted. -/
theorem Confined.proxied {s₀ s : State A H D W} (h : Confined real s₀ s) {real' delegate : A}
    {forceProxyType : Option ProxyType} {definition : ProxyDefinition A}
    {call : RuntimeCall A H D} (hfind : s.findProxy real' delegate forceProxyType = .ok definition)
    (hallows : (Origin.proxied real' definition).Allows call) :
    Restricted real (s₀.proxiesOf real) (.proxied real' definition) call := by
  refine ⟨by simp [Origin.proxied, Origin.of, Origin.addFilter], ?_⟩
  intro hreal
  have heq : real' = real := by
    simpa [Origin.proxied, Origin.of, Origin.addFilter] using hreal
  subst heq
  refine ⟨definition.proxyType, List.mem_cons_self,
    h.proxies definition (State.findProxy_ok hfind).1, ?_⟩
  rcases hallows with hroot | hallows
  · cases hroot
  · exact hallows _ List.mem_cons_self

omit [LinearOrder A] [DecidableEq H] in
/-- A call without filters is restricted if it has neither the name of the account nor
that of root. -/
theorem restricted_of {given : List (ProxyDefinition A)} {origin : RawOrigin A}
    {call : RuntimeCall A H D} (hroot : origin ≠ .root) (hreal : origin ≠ .signed real) :
    Restricted real given (.of origin) call :=
  ⟨hroot, fun heq => absurd heq hreal⟩

/-- **The rule for the proxies of an account.** -/
theorem confined_rule (hreal : cfg.Underived real) (s₀ : State A H D W) :
    Rule cfg (Tainted (fun origin call => Restricted real (s₀.proxiesOf real) (.of origin) call) s₀)
      (fun _ _ _ _ => True) (Confined real s₀) (Restricted real (s₀.proxiesOf real)) where
  lasting := tainted_lasting _ s₀
  deposit s event h := h.of_subset rfl rfl fun definition hmem => .inl hmem
  write s world balances h _ := h.of_subset rfl rfl fun definition hmem => .inl hmem
  plain origin s call data h hp := by
    refine ⟨⟨h.proxies, ?_, h.dispatched⟩, Script.writes_of_forall (fun _ _ _ _ => trivial) _ _ _⟩
    rcases h.executed with ⟨new, hnew, hcalls⟩
    refine ⟨new ++ [(origin.caller, call)], ?_, ?_⟩
    · unfold State.logExecuted
      dsimp only
      rw [hnew, List.append_assoc]
    · intro call' hmem
      rcases List.mem_append.mp hmem with hmem | hlast
      · exact hcalls call' hmem
      · rw [List.mem_singleton, Prod.mk.injEq] at hlast
        rcases hlast with ⟨hcaller, rfl⟩
        rcases hp.2 hcaller.symm with ⟨t, -, hgiven, hallows⟩
        exact ⟨t, hgiven, hallows⟩
  dispatched s origin call h := (tainted_or h.dispatched origin call).imp_right fun hp =>
    ⟨⟨h.proxies, h.executed, dispatched_prefix_logDispatched h.dispatched origin call⟩, hp⟩
  addProxy who filters s delegate proxyType delay s' h hp heq := by
    rcases State.addProxyDelegate_ok heq with ⟨-, i, -, -, hwrite⟩
    refine h.proxiesWrite hwrite ?_
    rintro rfl definition hmem
    -- a type that is added is one that the type of the caller may hand on
    rcases List.eq_or_mem_of_mem_insertIdx hmem with rfl | hmem
    · rcases hp.2 rfl with ⟨t, -, hgiven, hallows⟩
      have hsuperset : t.isSuperset proxyType = true := by
        simp only [Restriction.allows, Bool.and_eq_true] at hallows
        exact hallows.1
      exact .inr (hgiven.trans hsuperset)
    · exact .inl hmem
  removeProxy who filters s delegate proxyType delay s' h hp heq := by
    rcases State.removeProxyDelegate_ok heq with ⟨proxies, oldDeposit, i, hlookup, -, hwrite⟩
    refine h.proxiesWrite hwrite ?_
    rintro rfl definition hmem
    have hold : s.proxiesOf who = proxies := by
      unfold State.proxiesOf
      rw [hlookup]
      rfl
    rw [hold]
    split_ifs at hmem
    · cases hmem
    · exact .inl (List.mem_of_mem_eraseIdx hmem)
  removeProxies who filters s h _ := by
    refine h.proxiesWrite (State.takeProxies_write s who who) ?_
    intro _ definition hmem
    cases hmem
  createPure who filters s proxyType delay index s' h _ heq := by
    rcases State.createPure_ok heq with ⟨-, -, hwrite⟩
    exact h.proxiesWrite hwrite fun hpure => absurd hpure (hreal.pureAccount _ _ _ _)
  killPure who filters s spawner proxyType index height extIndex s' h _ heq := by
    rcases State.killPure_ok heq with ⟨-, hwrite⟩
    refine h.proxiesWrite hwrite ?_
    intro _ definition hmem
    cases hmem
  announce who s real' callHash s' h heq := h.announcementsWrite (State.announce_ok heq).2
  editAnnouncements delegate s f s' h heq := by
    rcases State.editAnnouncements_ok heq with ⟨pending, oldDeposit, -, -, hwrite⟩
    exact h.announcementsWrite hwrite
  batch origin calls call hp _ hallows := hp.inside rfl (fun _ hmem => hmem) hallows
  batchAll origin calls call hp _ hallows := by
    rcases origin with ⟨_ | who | _, filters⟩
    · exact absurd rfl hp.1
    · exact hp.inside rfl (fun _ hmem => List.mem_cons_of_mem _ hmem) hallows
    · exact hp.inside rfl (fun _ hmem => List.mem_cons_of_mem _ hmem) hallows
  forceBatch origin calls call hp _ hallows := hp.inside rfl (fun _ hmem => hmem) hallows
  asDerivative who filters index call hp _ := by
    refine ⟨by simp, ?_⟩
    intro hderived
    exact absurd (RawOrigin.signed.inj hderived) (hreal.derivativeAccountId who index)
  dispatchAs filters asOrigin call hp := absurd rfl hp.1
  withWeight filters call hp := absurd rfl hp.1
  proxy who filters s real' forceProxyType call definition h _ hfind hallows :=
    h.proxied hfind hallows
  proxyAnnounced who filters s delegate real' forceProxyType call definition h _ hfind hallows :=
    h.proxied hfind hallows

/-! ## Runs -/

/-- Calls are signed by others. -/
def Input.ByOthers (real : A) : Input A H D W → Prop
  | .extrinsic who _ => who ≠ real
  | .rootCall _ => False
  | .environment .. => True

/-- **What proxies can do in the name of an account.** As long as the account signs
no call itself and root makes none, every call of another pallet that is made in
its name is admitted by the type of one of the proxies it had, or it had a proxy
without transfers and the call is admitted by the type without critical calls; or
else a call of another pallet has dispatched one as the account or as root. -/
theorem allStates_admitted (hreal : cfg.Underived real) {s₀ : State A H D W}
    {inputs : List (Input A H D W)}
    (hinputs : AllInputs (apply cfg) (fun _ input => input.ByOthers real) s₀ inputs) :
    AllStates (apply cfg)
      (fun s => Tainted (fun origin _ => origin ≠ .root ∧ origin ≠ .signed real) s₀ s ∨
        ∃ new, s.executed = s₀.executed ++ new ∧
          ∀ call, (RawOrigin.signed real, call) ∈ new →
            ∃ definition ∈ s₀.proxiesOf real, definition.proxyType.filterPlain call = true ∨
              (definition.proxyType = .nonTransfer ∧
                ProxyType.nonCritical.filterPlain call = true)) s₀ inputs := by
  have hstart : Confined real s₀ s₀ := by
    refine ⟨?_, ⟨[], (List.append_nil _).symm, by simp⟩, List.prefix_refl _⟩
    intro definition hmem
    exact ⟨definition, hmem, ProxyType.isSuperset_self _⟩
  have hconfined : AllStates (apply cfg)
      (fun s => Tainted (fun origin call =>
        Restricted real (s₀.proxiesOf real) (.of origin) call) s₀ s ∨ Confined real s₀ s)
      s₀ inputs := by
    refine hinputs.allStates ?_ (.inr hstart)
    intro s input h hothers
    cases input with
    | extrinsic who call =>
        refine (confined_rule hreal s₀).getD_dispatch h fun _ => restricted_of (by simp) ?_
        intro hself
        exact hothers (RawOrigin.signed.inj hself)
    | rootCall call => exact hothers.elim
    | environment world balances blockNumber extrinsicIndex =>
        exact h.imp (fun h => h.of_eq rfl)
          fun h => h.of_subset rfl rfl fun definition hmem => .inl hmem
  refine hconfined.mono ?_
  rintro s (h | h)
  · exact .inl (h.mono fun origin call hp => restricted_of hp.1 hp.2)
  · rcases h.executed with ⟨new, hnew, hcalls⟩
    refine .inr ⟨new, hnew, ?_⟩
    intro call hmem
    rcases hcalls call hmem with ⟨t, hgiven, hcall⟩
    exact hgiven.admits hcall

/-! ## The exception -/

/-- A proxy whose definition is found and needs no announcement has a call dispatched
that the filters let through. -/
theorem apply_proxy {s : State A H D W} {delegate : A} {forceProxyType : Option ProxyType}
    {call : RuntimeCall A H D} {definition : ProxyDefinition A}
    (houter : cfg.safeMode s.world (.proxy real forceProxyType call) = true)
    (hinner : cfg.safeMode s.world call = true)
    (hfind : s.findProxy real delegate forceProxyType = .ok definition)
    (hdelay : definition.delay = 0) (hnesting : call.noNesting = true)
    (hallows : (Restriction.proxied definition.proxyType).allows call = true) :
    apply cfg s (.extrinsic delegate (.proxy real forceProxyType call)) =
      State.settle s
        (dispatchBypassFilter cfg (nestedDispatch cfg cfg.depth) (.proxied real definition) s call)
        fun error s => s.deposit (.proxyExecuted error) := by
  have hinner : (Origin.proxied real definition).filterCall cfg s.world call = true := by
    simp [Origin.filterCall, Origin.proxied, Origin.addFilter, Origin.of, hinner, hnesting, hallows]
  have houter : (Origin.of (.signed delegate)).filterCall cfg s.world
      (.proxy real forceProxyType call) = true := by
    simp [Origin.filterCall, Origin.of, houter, RuntimeCall.noNesting]
  generalize hresult : dispatchBypassFilter cfg (nestedDispatch cfg cfg.depth)
    (.proxied real definition) s call = result
  have hdispatch : dispatch cfg (.of (.signed delegate)) s (.proxy real forceProxyType call) =
      .ok (State.settle s result fun error s => s.deposit (.proxyExecuted error)) := by
    refine filtered_eq_ok.mpr ⟨houter, ?_⟩
    unfold dispatchBypassFilter
    simp only [Origin.of, hfind, hdelay, ne_eq, not_true_eq_false, if_false, filtered, hinner,
      if_true, hresult]
  show (dispatch cfg (.of (.signed delegate)) s (.proxy real forceProxyType call)).toOption.getD s = _
  rw [hdispatch]
  rfl

/-- A proxy without transfers has the account add it as one without critical calls. -/
def Input.addNonCritical (real delegate : A) : Input A H D W :=
  .extrinsic delegate (.proxy real (some .nonTransfer) (.addProxy delegate .nonCritical 0))

/-- Whether it is added, or was there before. -/
theorem apply_addNonCritical {s : State A H D W} (h : s.WellFormed cfg) {delegate : A}
    {definition : ProxyDefinition A}
    (hsafe : ∀ call ∈ [.proxy real (some .nonTransfer) (.addProxy delegate .nonCritical 0),
      .addProxy delegate .nonCritical 0], cfg.safeMode s.world call = true)
    (hfind : s.findProxy real delegate (some .nonTransfer) = .ok definition)
    (hdelay : definition.delay = 0)
    (hadd : ⟨delegate, .nonCritical, 0⟩ ∈ s.proxiesOf real ∨
      ∃ s₁, s.addProxyDelegate cfg real delegate .nonCritical 0 = .ok s₁) :
    (apply cfg s (.addNonCritical real delegate)).findProxy real delegate (some .nonCritical) =
        .ok ⟨delegate, .nonCritical, 0⟩ ∧
      (apply cfg s (.addNonCritical real delegate)).world = s.world := by
  have htype := (State.findProxy_ok hfind).2.2 _ rfl
  have happly : apply cfg s (.addNonCritical real delegate) =
      State.settle s (s.addProxyDelegate cfg real delegate .nonCritical 0)
        fun error s => s.deposit (.proxyExecuted error) := by
    refine apply_proxy (hsafe _ (by simp)) (hsafe _ (by simp)) hfind hdelay rfl ?_
    rw [htype]
    rfl
  rw [happly]
  cases hresult : s.addProxyDelegate cfg real delegate .nonCritical 0 with
  -- it fails as a duplicate, so the proxy is there
  | error e =>
      rcases hadd with hmem | ⟨s₁, hadd⟩
      · exact ⟨State.findProxy_of_sorted (s := s.deposit _) (h.proxiesOf real).2 hmem, rfl⟩
      · rw [hresult] at hadd
        cases hadd
  | ok s₁ =>
      rcases State.addProxyDelegate_ok hresult with ⟨-, i, hsearch, -, hwrite⟩
      rcases binarySearch_error hsearch with ⟨hnew, rfl⟩
      have hproxies := hwrite.proxiesOf real
      rw [if_pos rfl] at hproxies
      refine ⟨State.findProxy_of_sorted (s := s₁.deposit _) ?_ ?_, hwrite.world⟩
      · show Sorted (s₁.proxiesOf real)
        rw [hproxies]
        exact (h.proxiesOf real).2.insertIdx hnew
      · show _ ∈ s₁.proxiesOf real
        rw [hproxies]
        exact (List.mem_insertIdx (List.takeWhile_prefix _).length_le).mpr (.inl rfl)

/-- **A proxy without transfers acts as one without critical calls.** Any proxy without
transfers, and without delay, can have any call dispatched in the name of its account
that the type without critical calls admits, with two calls of its own: it adds itself
as a proxy of that type, for which the account pays the deposit, and acts as that. -/
theorem apply_of_nonTransfer {s : State A H D W} (h : s.WellFormed cfg) {delegate : A}
    {definition : ProxyDefinition A} {call : RuntimeCall A H D}
    (hsafe : ∀ call' ∈ [.proxy real (some .nonTransfer) (.addProxy delegate .nonCritical 0),
      .addProxy delegate .nonCritical 0, .proxy real (some .nonCritical) call, call],
        cfg.safeMode s.world call' = true)
    (hfind : s.findProxy real delegate (some .nonTransfer) = .ok definition)
    (hdelay : definition.delay = 0)
    (hadd : ⟨delegate, .nonCritical, 0⟩ ∈ s.proxiesOf real ∨
      ∃ s₁, s.addProxyDelegate cfg real delegate .nonCritical 0 = .ok s₁)
    (hnesting : call.noNesting = true)
    (hallows : (Restriction.proxied .nonCritical).allows call = true) :
    apply cfg (apply cfg s (.addNonCritical real delegate))
        (.extrinsic delegate (.proxy real (some .nonCritical) call)) =
      State.settle (apply cfg s (.addNonCritical real delegate))
        (dispatchBypassFilter cfg (nestedDispatch cfg cfg.depth)
          (.proxied real ⟨delegate, .nonCritical, 0⟩)
          (apply cfg s (.addNonCritical real delegate)) call)
        fun error s => s.deposit (.proxyExecuted error) := by
  rcases apply_addNonCritical h (fun call' hmem => hsafe call' (by
    rcases List.mem_pair.mp hmem with rfl | rfl <;> simp)) hfind hdelay hadd with ⟨hfound, hworld⟩
  refine apply_proxy ?_ ?_ hfound rfl hnesting hallows
  · rw [hworld]
    exact hsafe _ (by simp)
  · rw [hworld]
    exact hsafe _ (by simp)

/-! ## A small run -/

theorem mockConfig_underived : mockConfig.Underived 1 where
  pureAccount who _ _ _ := by
    show who + 1000 ≠ 1
    omega
  derivativeAccountId who _ := by
    show who + 2000 ≠ 1
    omega

/-- Account 2 stakes in the name of 1, 4 has a call dispatched by another pallet, and
then 2 makes itself a proxy for transfers. -/
def mockInputs : List (Input ℕ ℕ Unit (ℕ → ℕ)) :=
  [.extrinsic 2 (.batch [.proxy 1 none (.plain (.subtensorModule .addStake) ())]),
    .extrinsic 4 (.plain .other ()),
    .addNonCritical 1 2,
    .extrinsic 2 (.proxy 1 (some .nonCritical) (.plain (.balances .transferAll) ()))]

theorem allStates_admitted_mockInputs :
    AllStates (apply mockConfig)
      (fun s => Tainted (fun origin _ => origin ≠ .root ∧ origin ≠ .signed 1) mockState s ∨
        ∃ new, s.executed = mockState.executed ++ new ∧
          ∀ call, (RawOrigin.signed 1, call) ∈ new →
            ∃ definition ∈ mockState.proxiesOf 1, definition.proxyType.filterPlain call = true ∨
              (definition.proxyType = .nonTransfer ∧
                ProxyType.nonCritical.filterPlain call = true)) mockState mockInputs ∧
      (mockInputs.foldl (apply mockConfig) mockState).executed =
        [(.signed 1, .subtensorModule .addStake), (.signed 4, .other),
          (.signed 4, .balances .transferAll), (.signed 1, .balances .transferAll)] :=
  ⟨allStates_admitted mockConfig_underived ⟨(by decide : (2 : ℕ) ≠ 1), (by decide : (4 : ℕ) ≠ 1),
    (by decide : (2 : ℕ) ≠ 1), (by decide : (2 : ℕ) ≠ 1), trivial⟩, by decide⟩

/-- What another pallet dispatches as the account is bound to no type. -/
example : (apply mockConfig mockState (.extrinsic 2 (.proxy 1 none (.plain .other ())))).executed =
    [(.signed 1, .other), (.signed 1, .balances .transferAll)] := by decide

/-- Account 2 transfers what 1 has. -/
theorem apply_of_nonTransfer_mockState :
    ((apply mockConfig (apply mockConfig mockState (.addNonCritical 1 2))
      (.extrinsic 2 (.proxy 1 (some .nonCritical)
        (.plain (.balances .transferAll) ())))).executed =
          [(.signed 1, .balances .transferAll)]) := by
  rw [apply_of_nonTransfer mockState_wellFormed (fun _ _ => rfl) rfl rfl (.inr ⟨_, rfl⟩) rfl rfl]
  decide

end Subtensor.Proxies
