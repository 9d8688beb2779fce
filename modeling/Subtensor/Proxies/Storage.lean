import Subtensor.Proxies.Rule

/-!
# What the calls of the proxy pallet write

Every call writes one entry of the proxies or of the announcements, and moves the
reserve of one account by the difference of the deposits.
-/

namespace Subtensor.Proxies

open Lib

variable {A H D W V : Type}

/-! ## Entries -/

/-- The deposit of an entry, if there is one. -/
def entryDeposit (entry : Option (V × Balance)) : ℕ := entry.elim 0 fun e => e.2.val

/-- An entry is written, or it is removed. -/
def writeEntry {K : Type} [DecidableEq K] (m : StorageMap K V) (k : K) :
    Option V → StorageMap K V
  | none => m.erase k
  | some v => m.insert k v

theorem lookup_writeEntry {K : Type} [DecidableEq K] (m : StorageMap K V) (k : K)
    (entry : Option V) (k' : K) :
    (writeEntry m k entry).lookup k' = if k' = k then entry else m.lookup k' := by
  by_cases heq : k' = k
  · subst heq
    rw [if_pos rfl]
    cases entry with
    | none => exact AList.lookup_erase _ _
    | some v => exact AList.lookup_insert _
  · rw [if_neg heq]
    cases entry with
    | none => exact AList.lookup_erase_ne heq
    | some v => exact AList.lookup_insert_ne heq

theorem sumBy_writeEntry {K : Type} [DecidableEq K] (f : K → V → ℕ) (m : StorageMap K V) (k : K)
    (entry : Option V) :
    StorageMap.sumBy f (writeEntry m k entry) + (m.lookup k).elim 0 (f k) =
      entry.elim 0 (f k) + StorageMap.sumBy f m := by
  cases entry with
  | none =>
      rw [Option.elim_none, zero_add]
      exact StorageMap.sumBy_erase_elim f m k
  | some v => exact StorageMap.sumBy_insert_elim f m k v

variable [LinearOrder A] [DecidableEq H]

omit [DecidableEq H] in
/-- The reserve moves by the difference of the deposits, as long as the old one is
reserved. -/
theorem adjustReserve_ok {balances balances' : Balances A} {who : A}
    {oldDeposit newDeposit : Balance}
    (h : adjustReserve balances who oldDeposit newDeposit = .ok balances')
    (hle : oldDeposit.val ≤ balances.reservedOf who) :
    balances'.reservedOf = Function.update balances.reservedOf who
      (balances.reservedOf who - oldDeposit.val + newDeposit.val) := by
  unfold adjustReserve at h
  split at h
  · rename_i hlt
    split at h
    · cases h
    · rename_i hreserve
      cases h
      rw [Balances.reservedOf_of_reserve hreserve, Word.val_satSub]
      congr 1
      omega
  · split at h
    · rename_i hlt
      cases h
      have hreleased : balances.released who (oldDeposit.satSub newDeposit).val =
          (oldDeposit.satSub newDeposit).val := by
        refine Balances.released_eq_iff.mpr ?_
        rw [Word.val_satSub]
        omega
      rw [Balances.reservedOf_release, hreleased, Word.val_satSub]
      congr 1
      omega
    · cases h
      have heq : balances.reservedOf who - oldDeposit.val + newDeposit.val =
          balances.reservedOf who := by
        omega
      rw [heq, Function.update_eq_self]

/-! ## Proxies -/

namespace State

/-- The entry of an account among the proxies is written, and another account pays
for it. -/
structure ProxiesWrite (s s' : State A H D W) (who payer : A)
    (entry : Option (List (ProxyDefinition A) × Balance)) : Prop where
  proxies : s'.proxies = writeEntry s.proxies who entry
  reserved : entryDeposit (s.proxies.lookup who) ≤ s.balances.reservedOf payer →
    s'.balances.reservedOf = Function.update s.balances.reservedOf payer
      (s.balances.reservedOf payer - entryDeposit (s.proxies.lookup who) + entryDeposit entry)
  announcements : s'.announcements = s.announcements
  executed : s'.executed = s.executed
  dispatched : s'.dispatched = s.dispatched
  world : s'.world = s.world

variable {cfg : Config A H D W} {s s' : State A H D W} {who payer : A}
  {entry : Option (List (ProxyDefinition A) × Balance)}

omit [DecidableEq H] in
theorem ProxiesWrite.proxiesOf (h : ProxiesWrite s s' who payer entry) (real : A) :
    s'.proxiesOf real = if real = who then (entry.getD ([], 0)).1 else s.proxiesOf real := by
  unfold State.proxiesOf
  rw [h.proxies, lookup_writeEntry]
  split <;> rfl

omit [DecidableEq H] in
theorem entryDeposit_eq_getD (entry : Option (V × Balance)) (v : V) :
    entryDeposit entry = (entry.getD (v, 0)).2.val := by
  cases entry with
  | none => rfl
  | some e => rfl

omit [DecidableEq H] in
theorem addProxyDelegate_ok {delegator delegatee : A} {proxyType : ProxyType}
    {delay : BlockNumber}
    (h : s.addProxyDelegate cfg delegator delegatee proxyType delay = .ok s') :
    delegator ≠ delegatee ∧ ∃ i,
      binarySearch (s.proxiesOf delegator) ⟨delegatee, proxyType, delay⟩ = .error i ∧
      (s.proxiesOf delegator).length < cfg.maxProxies.val ∧
      ProxiesWrite s s' delegator delegator
        (some ((s.proxiesOf delegator).insertIdx i ⟨delegatee, proxyType, delay⟩,
          cfg.deposit (.wrap
            ((s.proxiesOf delegator).insertIdx i ⟨delegatee, proxyType, delay⟩).length))) := by
  unfold addProxyDelegate at h
  split_ifs at h with hself
  refine ⟨hself, ?_⟩
  dsimp only at h
  unfold State.proxiesOf
  cases hsearch : binarySearch ((s.proxies.lookup delegator).getD ([], 0)).1
      ⟨delegatee, proxyType, delay⟩ with
  | ok i =>
      rw [hsearch] at h
      cases h
  | error i =>
      rw [hsearch] at h
      dsimp only at h
      split_ifs at h with hroom
      refine ⟨i, rfl, hroom, ?_⟩
      split at h
      · cases h
      · rename_i balances hadjust
        cases h
        refine ⟨rfl, ?_, rfl, rfl, rfl, rfl⟩
        rw [entryDeposit_eq_getD _ []]
        exact adjustReserve_ok hadjust

omit [DecidableEq H] in
theorem removeProxyDelegate_ok {delegator delegatee : A} {proxyType : ProxyType}
    {delay : BlockNumber}
    (h : s.removeProxyDelegate cfg delegator delegatee proxyType delay = .ok s') :
    ∃ proxies oldDeposit i, s.proxies.lookup delegator = some (proxies, oldDeposit) ∧
      binarySearch proxies ⟨delegatee, proxyType, delay⟩ = .ok i ∧
      ProxiesWrite s s' delegator delegator
        (if (proxies.eraseIdx i).isEmpty then none
          else some (proxies.eraseIdx i, cfg.deposit (.wrap (proxies.eraseIdx i).length))) := by
  unfold removeProxyDelegate at h
  cases hlookup : s.proxies.lookup delegator with
  | none =>
      rw [hlookup] at h
      cases h
  | some stored =>
      rcases stored with ⟨proxies, oldDeposit⟩
      rw [hlookup] at h
      dsimp only at h
      cases hsearch : binarySearch proxies ⟨delegatee, proxyType, delay⟩ with
      | error i =>
          rw [hsearch] at h
          cases h
      | ok i =>
          rw [hsearch] at h
          dsimp only at h
          refine ⟨proxies, oldDeposit, i, rfl, hsearch, ?_⟩
          split at h
          · cases h
          · rename_i balances hadjust
            cases h
            by_cases hempty : (proxies.eraseIdx i).isEmpty = true
            · have hzero : cfg.deposit (.wrap (proxies.eraseIdx i).length) = 0 := by
                rw [List.isEmpty_iff.mp hempty]
                rfl
              rw [hzero] at hadjust
              simp only [hempty, if_true]
              refine ⟨rfl, ?_, rfl, rfl, rfl, rfl⟩
              rw [hlookup]
              exact adjustReserve_ok hadjust
            · simp only [hempty, Bool.false_eq_true, if_false]
              refine ⟨rfl, ?_, rfl, rfl, rfl, rfl⟩
              rw [hlookup]
              exact adjustReserve_ok hadjust

omit [DecidableEq H] in
theorem takeProxies_write (s : State A H D W) (who payer : A) :
    ProxiesWrite s (s.takeProxies who payer) who payer none := by
  refine ⟨rfl, ?_, rfl, rfl, rfl, rfl⟩
  intro hle
  unfold takeProxies
  rw [entryDeposit_eq_getD _ []] at hle ⊢
  dsimp only
  rw [Balances.reservedOf_release, Balances.released_eq_iff.mpr hle]
  rfl

omit [DecidableEq H] in
theorem createPure_ok {proxyType : ProxyType} {delay : BlockNumber} {index : U16}
    (h : s.createPure cfg who proxyType delay index = .ok s') :
    s.proxies.lookup (cfg.pureAccount who proxyType index (s.blockNumber, s.extrinsicIndex)) = none ∧
      1 ≤ cfg.maxProxies.val ∧
      ProxiesWrite s s' (cfg.pureAccount who proxyType index (s.blockNumber, s.extrinsicIndex)) who
        (some ([⟨who, proxyType, delay⟩], cfg.proxyDepositBase.satAdd cfg.proxyDepositFactor)) := by
  unfold createPure at h
  dsimp only at h
  split_ifs at h with hnew hmax
  have hnone := Option.not_isSome_iff_eq_none.mp hnew
  refine ⟨hnone, hmax, ?_⟩
  cases hreserve : s.balances.reserve who
      (cfg.proxyDepositBase.satAdd cfg.proxyDepositFactor).val with
  | none =>
      rw [hreserve] at h
      cases h
  | some balances =>
      rw [hreserve] at h
      cases h
      refine ⟨rfl, ?_, rfl, rfl, rfl, rfl⟩
      intro _
      rw [hnone]
      exact Balances.reservedOf_of_reserve hreserve

omit [DecidableEq H] in
theorem killPure_ok {spawner : A} {proxyType : ProxyType} {index : U16} {height : BlockNumber}
    {extIndex : U32}
    (h : s.killPure cfg who spawner proxyType index height extIndex = .ok s') :
    cfg.pureAccount spawner proxyType index (height, extIndex) = who ∧
      ProxiesWrite s s' who spawner none := by
  unfold killPure at h
  split_ifs at h with hwho
  cases h
  exact ⟨not_not.mp hwho, takeProxies_write s who spawner⟩

omit [DecidableEq H] in
theorem findProxy_ok {real delegate : A} {forceProxyType : Option ProxyType}
    {definition : ProxyDefinition A}
    (h : s.findProxy real delegate forceProxyType = .ok definition) :
    definition ∈ s.proxiesOf real ∧ definition.delegate = delegate ∧
      ∀ proxyType ∈ forceProxyType, definition.proxyType = proxyType := by
  unfold findProxy at h
  split at h
  · cases h
  · rename_i found hfound
    cases h
    have hp := List.find?_some hfound
    rw [Bool.and_eq_true] at hp
    refine ⟨List.mem_of_find?_eq_some hfound, of_decide_eq_true hp.1, ?_⟩
    intro proxyType hforce
    cases hforce
    exact of_decide_eq_true hp.2

/-! ## Announcements -/

/-- The entry of an account among the announcements is written. -/
structure AnnouncementsWrite (s s' : State A H D W) (who : A)
    (entry : Option (List (Announcement A H) × Balance)) : Prop where
  announcements : s'.announcements = writeEntry s.announcements who entry
  reserved : entryDeposit (s.announcements.lookup who) ≤ s.balances.reservedOf who →
    s'.balances.reservedOf = Function.update s.balances.reservedOf who
      (s.balances.reservedOf who - entryDeposit (s.announcements.lookup who) + entryDeposit entry)
  proxies : s'.proxies = s.proxies
  executed : s'.executed = s.executed
  dispatched : s'.dispatched = s.dispatched
  world : s'.world = s.world

end State

def Config.announcementDeposit (cfg : Config A H D W) (len : ℕ) : Balance :=
  if len = 0 then 0
  else cfg.announcementDepositBase.satAdd
    (.sat (cfg.announcementDepositFactor.val * (Word.wrap len : U32).val))

variable {cfg : Config A H D W} {s s' : State A H D W}

omit [DecidableEq H] in
theorem rejigDeposit_ok {balances balances' : Balances A} {who : A} {oldDeposit : Balance} {len : ℕ}
    {newDeposit : Option Balance}
    (h : rejigDeposit balances who oldDeposit cfg.announcementDepositBase
      cfg.announcementDepositFactor len = .ok (balances', newDeposit)) :
    newDeposit = (if len = 0 then none else some (cfg.announcementDeposit len)) ∧
      adjustReserve balances who oldDeposit (cfg.announcementDeposit len) = .ok balances' := by
  unfold rejigDeposit at h
  dsimp only at h
  cases hadjust : adjustReserve balances who oldDeposit (cfg.announcementDeposit len) with
  | error e =>
      unfold Config.announcementDeposit at hadjust
      rw [hadjust] at h
      cases h
  | ok balances'' =>
      have hadjust' := hadjust
      unfold Config.announcementDeposit at hadjust'
      rw [hadjust'] at h
      cases h
      refine ⟨?_, rfl⟩
      unfold Config.announcementDeposit
      by_cases hlen : len = 0
      · simp only [if_pos hlen]
      · simp only [if_neg hlen]

namespace State

omit [DecidableEq H] in
theorem announce_ok {who real : A} {callHash : H}
    (h : s.announce cfg who real callHash = .ok s') :
    ((s.announcements.lookup who).getD ([], 0)).1.length < cfg.maxPending.val ∧
      AnnouncementsWrite s s' who
        (some (((s.announcements.lookup who).getD ([], 0)).1 ++ [⟨real, callHash, s.blockNumber⟩],
          cfg.announcementDeposit
            (((s.announcements.lookup who).getD ([], 0)).1.length + 1))) := by
  unfold announce at h
  split at h
  · cases h
  · dsimp only at h
    split_ifs at h with hroom
    refine ⟨hroom, ?_⟩
    split at h
    · cases h
    · rename_i balances newDeposit hrejig
      rw [List.length_append, List.length_singleton] at hrejig
      rcases rejigDeposit_ok hrejig with ⟨hnew, hadjust⟩
      rw [if_neg (Nat.succ_ne_zero _)] at hnew
      cases h
      refine ⟨?_, ?_, rfl, rfl, rfl, rfl⟩
      · rw [hnew]
        rfl
      · rw [entryDeposit_eq_getD _ []]
        exact adjustReserve_ok hadjust

omit [DecidableEq H] in
theorem editAnnouncements_ok {delegate : A} {f : Announcement A H → Bool}
    (h : s.editAnnouncements cfg delegate f = .ok s') :
    ∃ pending oldDeposit, s.announcements.lookup delegate = some (pending, oldDeposit) ∧
      (pending.filter f).length < pending.length ∧
      AnnouncementsWrite s s' delegate
        (if (pending.filter f).length = 0 then none
          else some (pending.filter f, cfg.announcementDeposit (pending.filter f).length)) := by
  unfold editAnnouncements at h
  cases hlookup : s.announcements.lookup delegate with
  | none =>
      rw [hlookup] at h
      cases h
  | some stored =>
      rcases stored with ⟨pending, oldDeposit⟩
      rw [hlookup] at h
      dsimp only at h
      split_ifs at h with hless
      refine ⟨pending, oldDeposit, rfl, hless, ?_⟩
      split at h
      · cases h
      · rename_i balances hrejig
        rcases rejigDeposit_ok hrejig with ⟨hnew, hadjust⟩
        have hlen : (pending.filter f).length = 0 := by
          by_contra hne
          rw [if_neg hne] at hnew
          cases hnew
        cases h
        rw [if_pos hlen]
        refine ⟨rfl, ?_, rfl, rfl, rfl, rfl⟩
        rw [hlookup]
        unfold Config.announcementDeposit at hadjust
        rw [if_pos hlen] at hadjust
        exact adjustReserve_ok hadjust
      · rename_i balances deposit hrejig
        rcases rejigDeposit_ok hrejig with ⟨hnew, hadjust⟩
        have hlen : (pending.filter f).length ≠ 0 := by
          intro heq
          rw [if_pos heq] at hnew
          cases hnew
        rw [if_neg hlen] at hnew ⊢
        cases hnew
        cases h
        refine ⟨rfl, ?_, rfl, rfl, rfl, rfl⟩
        rw [hlookup]
        exact adjustReserve_ok hadjust

end State

/-! ## A small chain -/

/-- The world is what other pallets have reserved. Their calls change nothing, but for
one that has its caller transfer all that it has, and one that reserves 10 from it. -/
def mockConfig : Config ℕ ℕ Unit (ℕ → ℕ) where
  proxyDepositBase := .sat 60
  proxyDepositFactor := .sat 33
  maxProxies := .sat 20
  maxPending := .sat 75
  announcementDepositBase := .sat 36
  announcementDepositFactor := .sat 68
  batchedCallsLimit := 100
  hashOf _ := 0
  pureAccount who _ _ _ := who + 1000
  derivativeAccountId who _ := who + 2000
  safeMode _ _ := true
  plain caller call _ world balances :=
    match call, caller with
    | .other, _ => .dispatch world balances false caller (.plain (.balances .transferAll) ())
        fun _ world balances => .done world balances
    | .subtensorModule .other, .signed who =>
        match balances.reserve who 10 with
        | none => .fail .insufficientBalance
        | some balances => .done (Function.update world who (world who + 10)) balances
    | _, _ => .done world balances
  depth := 3

/-- Account 1 has 2 as its proxy without transfers. -/
def mockState : State ℕ ℕ Unit (ℕ → ℕ) where
  proxies := (∅ : StorageMap ℕ _).insert 1 ([⟨2, .nonTransfer, 0⟩], .sat 93)
  announcements := ∅
  balances := ⟨fun _ => 1000, (∅ : StorageMap ℕ ℕ).insert 1 93⟩
  blockNumber := .sat 5
  extrinsicIndex := .sat 1
  world _ := 0
  events := []
  executed := []
  dispatched := []

end Subtensor.Proxies
