import Subtensor.Proxies.Nested

/-!
# Entries

What is stored for an account is sorted, so that a search finds it, it is never
empty, and its deposit is the one for its length.
-/

namespace Subtensor.Proxies

open Lib Lib.Run

variable {A H D W : Type} [LinearOrder A] [DecidableEq H] {cfg : Config A H D W}

/-! ## The order of the definitions -/

theorem ProxyType.index_injective : Function.Injective ProxyType.index := by
  intro a b h
  cases a <;> cases b <;> first | rfl | cases h

omit [LinearOrder A] in
theorem ProxyDefinition.key_injective : Function.Injective (ProxyDefinition.key (A := A)) := by
  rintro ⟨delegate, proxyType, delay⟩ ⟨delegate', proxyType', delay'⟩ h
  have hpair := toLex.injective h
  rw [Prod.mk.injEq] at hpair
  have hrest := toLex.injective hpair.2
  rw [Prod.mk.injEq] at hrest
  rw [ProxyDefinition.mk.injEq]
  exact ⟨hpair.1, ProxyType.index_injective hrest.1, Word.ext hrest.2⟩

/-- In the order of the keys, without duplicates. -/
def Sorted (proxies : List (ProxyDefinition A)) : Prop :=
  proxies.Pairwise fun a b => a.key < b.key

theorem binarySearch_error {proxies : List (ProxyDefinition A)} {definition : ProxyDefinition A}
    {i : ℕ} (h : binarySearch proxies definition = .error i) :
    definition ∉ proxies ∧
      i = (proxies.takeWhile fun d => decide (d.key < definition.key)).length := by
  unfold binarySearch at h
  cases hidx : proxies.idxOf? definition with
  | some j =>
      rw [hidx] at h
      cases h
  | none =>
      rw [hidx] at h
      cases h
      exact ⟨List.idxOf?_eq_none_iff.mp hidx, rfl⟩

/-- What is inserted where the search says keeps the order. -/
theorem Sorted.insertIdx {proxies : List (ProxyDefinition A)} {definition : ProxyDefinition A}
    (h : Sorted proxies) (hnew : definition ∉ proxies) :
    Sorted (proxies.insertIdx
      (proxies.takeWhile fun d => decide (d.key < definition.key)).length definition) := by
  induction proxies with
  | nil => exact List.pairwise_singleton _ _
  | cons first rest ih =>
      rcases List.pairwise_cons.mp h with ⟨hfirst, hrest⟩
      rcases not_or.mp (mt List.mem_cons.mpr hnew) with ⟨hne, hnotMem⟩
      by_cases hlt : first.key < definition.key
      -- the search passes over `first`
      · have htake : (first :: rest).takeWhile (fun d => decide (d.key < definition.key)) =
            first :: rest.takeWhile fun d => decide (d.key < definition.key) :=
          List.takeWhile_cons_of_pos (decide_eq_true hlt)
        rw [htake, List.length_cons, List.insertIdx_succ_cons]
        refine List.pairwise_cons.mpr ⟨?_, ih hrest hnotMem⟩
        intro d hd
        rcases List.eq_or_mem_of_mem_insertIdx hd with rfl | hd
        · exact hlt
        · exact hfirst d hd
      -- it stops in front of it, and different definitions have different keys
      · have htake : (first :: rest).takeWhile (fun d => decide (d.key < definition.key)) = [] :=
          List.takeWhile_cons_of_neg (by simpa using hlt)
        rw [htake, List.length_nil, List.insertIdx_zero]
        have habove : definition.key < first.key := by
          refine lt_of_le_of_ne (not_lt.mp hlt) ?_
          intro heq
          exact hne (ProxyDefinition.key_injective heq)
        refine List.pairwise_cons.mpr ⟨?_, h⟩
        intro d hd
        rcases List.mem_cons.mp hd with rfl | hd
        · exact habove
        · exact habove.trans (hfirst d hd)

/-! ## Entries -/

namespace State

/-- Every entry is sorted, in its bounds, not empty, and has the deposit for its
length. -/
structure WellFormed (cfg : Config A H D W) (s : State A H D W) : Prop where
  proxies : ∀ who proxies deposit, s.proxies.lookup who = some (proxies, deposit) →
    proxies ≠ [] ∧ proxies.length ≤ cfg.maxProxies.val ∧ Sorted proxies ∧
      deposit = cfg.deposit (.wrap proxies.length)
  announcements : ∀ who pending deposit, s.announcements.lookup who = some (pending, deposit) →
    pending ≠ [] ∧ pending.length ≤ cfg.maxPending.val ∧
      deposit = cfg.announcementDeposit pending.length

variable {s s' : State A H D W}

omit [DecidableEq H] in
theorem WellFormed.proxiesWrite (h : s.WellFormed cfg) {who payer : A}
    {entry : Option (List (ProxyDefinition A) × Balance)}
    (hwrite : ProxiesWrite s s' who payer entry)
    (hentry : ∀ proxies deposit, entry = some (proxies, deposit) →
      proxies ≠ [] ∧ proxies.length ≤ cfg.maxProxies.val ∧ Sorted proxies ∧
        deposit = cfg.deposit (.wrap proxies.length)) : s'.WellFormed cfg := by
  refine ⟨?_, hwrite.announcements ▸ h.announcements⟩
  intro k proxies deposit hlookup
  rw [hwrite.proxies, lookup_writeEntry] at hlookup
  split_ifs at hlookup
  · exact hentry proxies deposit hlookup
  · exact h.proxies k proxies deposit hlookup

omit [DecidableEq H] in
theorem WellFormed.announcementsWrite (h : s.WellFormed cfg) {who : A}
    {entry : Option (List (Announcement A H) × Balance)}
    (hwrite : AnnouncementsWrite s s' who entry)
    (hentry : ∀ pending deposit, entry = some (pending, deposit) →
      pending ≠ [] ∧ pending.length ≤ cfg.maxPending.val ∧
        deposit = cfg.announcementDeposit pending.length) : s'.WellFormed cfg := by
  refine ⟨hwrite.proxies ▸ h.proxies, ?_⟩
  intro k pending deposit hlookup
  rw [hwrite.announcements, lookup_writeEntry] at hlookup
  split_ifs at hlookup
  · exact hentry pending deposit hlookup
  · exact h.announcements k pending deposit hlookup

omit [DecidableEq H] in
/-- What an account without an entry reads is sorted and in its bounds too. -/
theorem WellFormed.proxiesOf (h : s.WellFormed cfg) (who : A) :
    (s.proxiesOf who).length ≤ cfg.maxProxies.val ∧ Sorted (s.proxiesOf who) := by
  unfold State.proxiesOf
  cases hlookup : s.proxies.lookup who with
  | none => exact ⟨Nat.zero_le _, List.Pairwise.nil⟩
  | some entry =>
      rcases h.proxies who entry.1 entry.2 hlookup with ⟨-, hlength, hsorted, -⟩
      exact ⟨hlength, hsorted⟩

omit [DecidableEq H] in
/-- A definition without delay is the first of those with its delegate and its type. -/
theorem findProxy_of_sorted {real delegate : A} {proxyType : ProxyType}
    (h : Sorted (s.proxiesOf real)) (hmem : ⟨delegate, proxyType, 0⟩ ∈ s.proxiesOf real) :
    s.findProxy real delegate (some proxyType) = .ok ⟨delegate, proxyType, 0⟩ := by
  unfold findProxy
  cases hfind : (s.proxiesOf real).find? fun x => decide (x.delegate = delegate) &&
      ((some proxyType).elim true fun y => decide (x.proxyType = y)) with
  | none => exact absurd (by simp) (List.find?_eq_none.mp hfind _ hmem)
  | some found =>
      rcases List.find?_eq_some_iff_append.mp hfind with ⟨hfits, before, after, hsplit, hbefore⟩
      rcases found with ⟨delegate', proxyType', delay⟩
      obtain ⟨rfl, rfl⟩ : delegate' = delegate ∧ proxyType' = proxyType := by simpa using hfits
      rw [hsplit] at hmem h
      rcases List.mem_append.mp hmem with hmem | hmem
      · exact absurd (hbefore _ hmem) (by simp)
      · rcases List.mem_cons.mp hmem with heq | hmem
        · rw [heq]
        · -- what comes after has the larger key, and no delay is shorter than none
          have hlt := (List.pairwise_cons.mp (List.pairwise_append.mp h).2.1).1 _ hmem
          simp [ProxyDefinition.key, Prod.Lex.lt_iff] at hlt

end State

omit [LinearOrder A] [DecidableEq H] in
/-- The deposit of a pure account is the one for one proxy. -/
theorem deposit_one (cfg : Config A H D W) :
    cfg.deposit (.wrap 1) = cfg.proxyDepositBase.satAdd cfg.proxyDepositFactor := by
  have hone : (Word.wrap 1 : U32).val = 1 := rfl
  have hfactor : (Word.sat cfg.proxyDepositFactor.val : Balance) = cfg.proxyDepositFactor :=
    Word.ext (Word.val_sat_of_lt cfg.proxyDepositFactor.isLt)
  unfold Config.deposit
  rw [if_neg (by decide), hone, mul_one, hfactor]

/-- **The rule for the entries.** -/
theorem wellFormed_rule :
    Rule cfg (fun _ => False) (fun _ _ _ _ => True) (State.WellFormed (H := H) (D := D) cfg)
      fun _ _ => True where
  lasting := lasting_false cfg
  deposit s event h := ⟨h.proxies, h.announcements⟩
  write s world balances h _ := ⟨h.proxies, h.announcements⟩
  plain origin s call data h _ := ⟨⟨h.proxies, h.announcements⟩,
    Script.writes_of_forall (fun _ _ _ _ => trivial) _ _ _⟩
  dispatched s origin call h := .inr ⟨⟨h.proxies, h.announcements⟩, trivial⟩
  addProxy who filters s delegate proxyType delay s' h _ heq := by
    rcases State.addProxyDelegate_ok heq with ⟨-, i, hsearch, hroom, hwrite⟩
    -- the search has failed, so what it returns is the place in the order
    rcases binarySearch_error hsearch with ⟨hnew, rfl⟩
    refine h.proxiesWrite hwrite ?_
    rintro _ _ ⟨⟩
    have hlength : (((s.proxiesOf who).takeWhile fun d =>
        decide (d.key < (⟨delegate, proxyType, delay⟩ : ProxyDefinition A).key)).length) ≤
          (s.proxiesOf who).length := (List.takeWhile_prefix _).length_le
    refine ⟨?_, ?_, (h.proxiesOf who).2.insertIdx hnew, rfl⟩
    · refine List.ne_nil_of_mem (a := ⟨delegate, proxyType, delay⟩) ?_
      exact (List.mem_insertIdx hlength).mpr (.inl rfl)
    · rw [List.length_insertIdx_of_le_length hlength]
      exact hroom
  removeProxy who filters s delegate proxyType delay s' h _ heq := by
    rcases State.removeProxyDelegate_ok heq with ⟨proxies, oldDeposit, i, hlookup, -, hwrite⟩
    rcases h.proxies who proxies oldDeposit hlookup with ⟨-, hlength, hsorted, -⟩
    refine h.proxiesWrite hwrite ?_
    intro proxies' deposit hentry
    split_ifs at hentry with hempty
    cases hentry
    refine ⟨?_, ?_, ?_, rfl⟩
    · intro hnil
      rw [hnil] at hempty
      exact hempty rfl
    · exact (List.eraseIdx_sublist _ _).length_le.trans hlength
    · exact List.Pairwise.sublist (List.eraseIdx_sublist _ _) hsorted
  removeProxies who filters s h _ :=
    h.proxiesWrite (State.takeProxies_write s who who) (by rintro _ _ ⟨⟩)
  createPure who filters s proxyType delay index s' h _ heq := by
    rcases State.createPure_ok heq with ⟨-, hmax, hwrite⟩
    refine h.proxiesWrite hwrite ?_
    rintro _ _ ⟨⟩
    exact ⟨List.cons_ne_nil _ _, hmax, List.pairwise_singleton _ _, (deposit_one cfg).symm⟩
  killPure who filters s spawner proxyType index height extIndex s' h _ heq := by
    rcases State.killPure_ok heq with ⟨-, hwrite⟩
    exact h.proxiesWrite hwrite (by rintro _ _ ⟨⟩)
  announce who s real callHash s' h heq := by
    rcases State.announce_ok heq with ⟨hroom, hwrite⟩
    refine h.announcementsWrite hwrite ?_
    rintro _ _ ⟨⟩
    refine ⟨by simp, ?_, ?_⟩
    · rw [List.length_append, List.length_singleton]
      exact hroom
    · rw [List.length_append, List.length_singleton]
  editAnnouncements delegate s f s' h heq := by
    rcases State.editAnnouncements_ok heq with ⟨pending, oldDeposit, hlookup, hless, hwrite⟩
    rcases h.announcements delegate pending oldDeposit hlookup with ⟨-, hlength, -⟩
    refine h.announcementsWrite hwrite ?_
    intro kept deposit hentry
    split_ifs at hentry with hempty
    cases hentry
    exact ⟨fun hnil => hempty (by rw [hnil]; rfl), hless.le.trans hlength, rfl⟩
  batch _ _ _ _ _ _ := trivial
  batchAll _ _ _ _ _ _ := trivial
  forceBatch _ _ _ _ _ _ := trivial
  asDerivative _ _ _ _ _ _ := trivial
  dispatchAs _ _ _ _ := trivial
  withWeight _ _ _ := trivial
  proxy _ _ _ _ _ _ _ _ _ _ _ := trivial
  proxyAnnounced _ _ _ _ _ _ _ _ _ _ _ _ := trivial

/-- **The entries stay well formed** in every run. -/
theorem allStates_entries {s : State A H D W} (h : s.WellFormed cfg)
    (inputs : List (Input A H D W)) :
    AllStates (apply cfg) (State.WellFormed cfg) s inputs := by
  refine allStates_of_step ?_ h inputs
  intro s input h
  cases input with
  | extrinsic who call =>
      exact (wellFormed_rule.getD_dispatch (.inr h) fun _ => trivial).resolve_left id
  | rootCall call =>
      exact (wellFormed_rule.getD_dispatch (.inr h) fun _ => trivial).resolve_left id
  | environment world balances blockNumber extrinsicIndex => exact ⟨h.proxies, h.announcements⟩

theorem mockState_lookup (who : ℕ) : mockState.proxies.lookup who =
    if who = 1 then some ([⟨2, .nonTransfer, 0⟩], .sat 93) else none := by
  unfold mockState
  dsimp only
  by_cases heq : who = 1
  · subst heq
    rw [AList.lookup_insert, if_pos rfl]
  · rw [AList.lookup_insert_ne heq, if_neg heq]
    exact AList.lookup_empty _

theorem mockState_wellFormed : mockState.WellFormed mockConfig where
  proxies who proxies deposit h := by
    rw [mockState_lookup] at h
    split_ifs at h
    cases h
    exact ⟨List.cons_ne_nil _ _, by decide, List.pairwise_singleton _ _, by decide⟩
  announcements who pending deposit h := by
    have hnone : mockState.announcements.lookup who = none := AList.lookup_empty _
    rw [hnone] at h
    cases h

/-- Account 1 makes a pure account and adds a proxy, 2 announces a call and has another
pallet reserve from it, and then 1 gives the pure account up. -/
def mockDeposits : List (Input ℕ ℕ Unit (ℕ → ℕ)) :=
  [.extrinsic 1 (.batchAll [.createPure .any 0 (.sat 0), .addProxy 3 .staking 0]),
    .extrinsic 2 (.batch [.announce 1 0, .plain (.subtensorModule .other) ()]),
    .extrinsic 1 (.proxy 1001 none (.killPure 1 .any (.sat 0) (.sat 5) (.sat 1)))]

theorem allStates_entries_mockDeposits :
    AllStates (apply mockConfig) (State.WellFormed mockConfig) mockState mockDeposits :=
  allStates_entries mockState_wellFormed mockDeposits

end Subtensor.Proxies
