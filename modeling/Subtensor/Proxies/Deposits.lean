import Subtensor.Proxies.Entries

/-!
# Deposits

What is reserved from an account is what other pallets have reserved, what its own
entries hold, and what the entries of the pure accounts hold that it has made, as
long as no pure account edits its proxies.
-/

namespace Subtensor.Proxies

open Lib Lib.Run

variable {A H D W : Type} [LinearOrder A] [DecidableEq H] {cfg : Config A H D W}

/-! ## Reserves -/

/-- Who pays for the proxies of an account: for a pure account, the account that
has made it. -/
def payerOf (spawner : A → Option A) (who : A) : A := (spawner who).getD who

/-- A function that tells who has made a pure account. -/
def Config.Spawned (cfg : Config A H D W) (spawner : A → Option A) : Prop :=
  ∀ who proxyType index maybeWhen,
    spawner (cfg.pureAccount who proxyType index maybeWhen) = some who

/-- The part of an entry that an account pays. -/
def paidBy {V : Type} (spawner : A → Option A) (payer who : A) (entry : V × Balance) : ℕ :=
  if payerOf spawner who = payer then entry.2.val else 0

/-- What is reserved from an account is what other pallets have reserved, its part
of the deposits of proxies, and the deposit of its announcements. -/
def State.Reserved (spawner : A → Option A) (held : W → A → ℕ) (s : State A H D W) : Prop :=
  ∀ who, s.balances.reservedOf who =
    held s.world who + StorageMap.sumBy (paidBy spawner who) s.proxies +
      entryDeposit (s.announcements.lookup who)

namespace State

variable {spawner : A → Option A} {held : W → A → ℕ} {s s' : State A H D W}

omit [DecidableEq H] in
theorem paidBy_elim {V : Type} (spawner : A → Option A) (payer who : A)
    (entry : Option (V × Balance)) :
    entry.elim 0 (paidBy spawner payer who) =
      if payerOf spawner who = payer then entryDeposit entry else 0 := by
  cases entry with
  | none => exact (ite_self _).symm
  | some e => rfl

omit [DecidableEq H] in
/-- A deposit moves the reserve of who pays it, and no other. -/
theorem Reserved.proxiesWrite (h : s.Reserved spawner held) {who payer : A}
    {entry : Option (List (ProxyDefinition A) × Balance)}
    (hwrite : ProxiesWrite s s' who payer entry) (hpayer : payerOf spawner who = payer) :
    s'.Reserved spawner held := by
  have hpaid := h payer
  -- the old deposit is part of the reserve, so releasing it does not stop at zero
  have hold : entryDeposit (s.proxies.lookup who) ≤
      StorageMap.sumBy (paidBy spawner payer) s.proxies := by
    have hsum := sumBy_writeEntry (paidBy spawner payer) s.proxies who none
    rw [Option.elim_none, paidBy_elim, if_pos hpayer] at hsum
    omega
  have hreserved := hwrite.reserved (by omega)
  intro other
  have hsum := sumBy_writeEntry (paidBy spawner other) s.proxies who entry
  rw [paidBy_elim, paidBy_elim, hpayer] at hsum
  rw [hreserved, hwrite.proxies, hwrite.announcements, hwrite.world]
  rcases eq_or_ne other payer with rfl | hne
  · rw [if_pos rfl, if_pos rfl] at hsum
    rw [Function.update_self]
    omega
  · rw [if_neg hne.symm, if_neg hne.symm] at hsum
    rw [Function.update_of_ne hne, h other]
    omega

omit [DecidableEq H] in
theorem Reserved.announcementsWrite (h : s.Reserved spawner held) {who : A}
    {entry : Option (List (Announcement A H) × Balance)}
    (hwrite : AnnouncementsWrite s s' who entry) : s'.Reserved spawner held := by
  have hwho := h who
  have hreserved := hwrite.reserved (by omega)
  intro other
  rw [hreserved, hwrite.proxies, hwrite.announcements, hwrite.world, lookup_writeEntry]
  rcases eq_or_ne other who with rfl | hne
  · rw [Function.update_self, if_pos rfl]
    omega
  · rw [Function.update_of_ne hne, if_neg hne]
    exact h other

end State

variable {spawner : A → Option A} {held : W → A → ℕ}

/-- Where the reserves cover the shares of other pallets in them, each moves by as much as
its share does. -/
def MovesShare (held : W → A → ℕ) (world : W) (balances : Balances A) (world' : W)
    (balances' : Balances A) : Prop :=
  (∀ who, held world who ≤ balances.reservedOf who) →
    ∀ who, balances'.reservedOf who + held world who = balances.reservedOf who + held world' who

omit [DecidableEq H] in
theorem State.Reserved.held_le {s : State A H D W} (h : s.Reserved spawner held) (who : A) :
    held s.world who ≤ s.balances.reservedOf who := by
  rw [h who, Nat.add_assoc]
  exact Nat.le_add_right _ _

omit [DecidableEq H] in
theorem State.Reserved.write {s : State A H D W} (h : s.Reserved spawner held) {world : W}
    {balances : Balances A} (hmoves : MovesShare held s.world s.balances world balances) :
    (s.write world balances).Reserved spawner held := by
  intro who
  have hwho := h who
  have hmove := hmoves h.held_le who
  show balances.reservedOf who = held world who +
    StorageMap.sumBy (paidBy spawner who) s.proxies + entryDeposit (s.announcements.lookup who)
  omega

/-! ## Who edits proxies -/

/-- A caller that edits its proxies is not pure. -/
def NotPure (spawner : A → Option A) (caller : RawOrigin A) : Prop :=
  ∀ who, caller = .signed who → spawner who = none

mutual

/-- In a call and the calls inside it no pure account edits its proxies, and what other
pallets do to a reserve, they do to their share. -/
def Orderly (cfg : Config A H D W) (spawner : A → Option A) (held : W → A → ℕ)
    (caller : RawOrigin A) : RuntimeCall A H D → Prop
  | .plain call data => ∀ world balances,
      (cfg.plain caller call data world balances).Writes (MovesShare held) world balances
  | .batch calls => OrderlyAll cfg spawner held caller calls
  | .asDerivative index call => ∀ who, caller = .signed who →
      Orderly cfg spawner held (.signed (cfg.derivativeAccountId who index)) call
  | .batchAll calls => OrderlyAll cfg spawner held caller calls
  | .dispatchAs asOrigin call => Orderly cfg spawner held asOrigin call
  | .forceBatch calls => OrderlyAll cfg spawner held caller calls
  | .withWeight call => Orderly cfg spawner held .root call
  | .proxy real _ call => Orderly cfg spawner held (.signed real) call
  | .addProxy _ _ _ => NotPure spawner caller
  | .removeProxy _ _ _ => NotPure spawner caller
  | .removeProxies => NotPure spawner caller
  | .createPure _ _ _ => True
  | .killPure _ _ _ _ _ => True
  | .announce _ _ => True
  | .removeAnnouncement _ _ => True
  | .rejectAnnouncement _ _ => True
  | .proxyAnnounced _ real _ call => Orderly cfg spawner held (.signed real) call

def OrderlyAll (cfg : Config A H D W) (spawner : A → Option A) (held : W → A → ℕ)
    (caller : RawOrigin A) : List (RuntimeCall A H D) → Prop
  | [] => True
  | call :: calls => Orderly cfg spawner held caller call ∧ OrderlyAll cfg spawner held caller calls

end

omit [DecidableEq H] in
theorem OrderlyAll.of_mem {caller : RawOrigin A} {calls : List (RuntimeCall A H D)}
    (h : OrderlyAll cfg spawner held caller calls) {call : RuntimeCall A H D}
    (hmem : call ∈ calls) : Orderly cfg spawner held caller call := by
  induction calls with
  | nil => cases hmem
  | cons first rest ih =>
      unfold OrderlyAll at h
      rcases List.mem_cons.mp hmem with rfl | hmem
      · exact h.1
      · exact ih h.2 hmem

/-- **The rule for the reserves.** -/
theorem reserved_rule (hspawned : cfg.Spawned spawner) (s₀ : State A H D W) :
    Rule cfg (Tainted (Orderly cfg spawner held) s₀) (MovesShare held)
      (fun s => s₀.dispatched <+: s.dispatched ∧ s.Reserved spawner held)
      fun origin call => Orderly cfg spawner held origin.caller call where
  lasting := tainted_lasting _ s₀
  deposit s event h := h
  write s world balances h hmoves := ⟨h.1, h.2.write hmoves⟩
  plain origin s call data h hp := by
    unfold Orderly at hp
    exact ⟨h, hp s.world s.balances⟩
  dispatched s origin call h := (tainted_or h.1 origin call).imp_right fun hp =>
    ⟨⟨dispatched_prefix_logDispatched h.1 origin call, h.2⟩, hp⟩
  addProxy who filters s delegate proxyType delay s' h hp heq := by
    rcases State.addProxyDelegate_ok heq with ⟨-, i, -, -, hwrite⟩
    unfold Orderly at hp
    refine ⟨hwrite.dispatched ▸ h.1, h.2.proxiesWrite hwrite ?_⟩
    unfold payerOf
    rw [hp who rfl]
    rfl
  removeProxy who filters s delegate proxyType delay s' h hp heq := by
    rcases State.removeProxyDelegate_ok heq with ⟨proxies, oldDeposit, i, -, -, hwrite⟩
    unfold Orderly at hp
    refine ⟨hwrite.dispatched ▸ h.1, h.2.proxiesWrite hwrite ?_⟩
    unfold payerOf
    rw [hp who rfl]
    rfl
  removeProxies who filters s h hp := by
    unfold Orderly at hp
    refine ⟨h.1, h.2.proxiesWrite (State.takeProxies_write s who who) ?_⟩
    unfold payerOf
    rw [hp who rfl]
    rfl
  createPure who filters s proxyType delay index s' h _ heq := by
    rcases State.createPure_ok heq with ⟨-, -, hwrite⟩
    refine ⟨hwrite.dispatched ▸ h.1, h.2.proxiesWrite hwrite ?_⟩
    unfold payerOf
    rw [hspawned]
    rfl
  killPure who filters s spawner' proxyType index height extIndex s' h _ heq := by
    rcases State.killPure_ok heq with ⟨rfl, hwrite⟩
    refine ⟨hwrite.dispatched ▸ h.1, h.2.proxiesWrite hwrite ?_⟩
    unfold payerOf
    rw [hspawned]
    rfl
  announce who s real callHash s' h heq := by
    rcases State.announce_ok heq with ⟨-, hwrite⟩
    exact ⟨hwrite.dispatched ▸ h.1, h.2.announcementsWrite hwrite⟩
  editAnnouncements delegate s f s' h heq := by
    rcases State.editAnnouncements_ok heq with ⟨pending, oldDeposit, -, -, hwrite⟩
    exact ⟨hwrite.dispatched ▸ h.1, h.2.announcementsWrite hwrite⟩
  batch origin calls call hp hmem _ := by
    unfold Orderly at hp
    exact hp.of_mem hmem
  batchAll origin calls call hp hmem _ := by
    have hcaller : origin.inBatchAll.caller = origin.caller := by
      rcases origin with ⟨_ | _ | _, filters⟩ <;> rfl
    unfold Orderly at hp
    rw [hcaller]
    exact hp.of_mem hmem
  forceBatch origin calls call hp hmem _ := by
    unfold Orderly at hp
    exact hp.of_mem hmem
  asDerivative who filters index call hp _ := by
    unfold Orderly at hp
    exact hp who rfl
  dispatchAs filters asOrigin call hp := by
    unfold Orderly at hp
    exact hp
  withWeight filters call hp := by
    unfold Orderly at hp
    exact hp
  proxy who filters s real forceProxyType call definition _ hp _ _ := by
    unfold Orderly at hp
    exact hp
  proxyAnnounced who filters s delegate real forceProxyType call definition _ hp _ _ := by
    unfold Orderly at hp
    exact hp

/-- The calls are orderly, and so is what other pallets do between them. -/
def Input.Orderly (cfg : Config A H D W) (spawner : A → Option A) (held : W → A → ℕ)
    (s : State A H D W) : Input A H D W → Prop
  | .extrinsic who call => Proxies.Orderly cfg spawner held (.signed who) call
  | .rootCall call => Proxies.Orderly cfg spawner held .root call
  | .environment world balances _ _ => MovesShare held s.world s.balances world balances

/-- **Deposits are what is reserved.** In every run of orderly calls, what is reserved
from an account is in every state the share of other pallets, what its announcements
hold, what its proxies hold unless it is pure, and what the proxies of the pure
accounts hold that it has made, or another pallet has dispatched a call that is not
orderly. -/
theorem allStates_reserved (hspawned : cfg.Spawned spawner) {s₀ : State A H D W}
    (h : s₀.Reserved spawner held) {inputs : List (Input A H D W)}
    (hinputs : AllInputs (apply cfg) (Input.Orderly cfg spawner held) s₀ inputs) :
    AllStates (apply cfg)
      (fun s => Tainted (Orderly cfg spawner held) s₀ s ∨ s.Reserved spawner held) s₀ inputs := by
  have hkept : AllStates (apply cfg)
      (fun s => Tainted (Orderly cfg spawner held) s₀ s ∨
        s₀.dispatched <+: s.dispatched ∧ s.Reserved spawner held) s₀ inputs := by
    refine hinputs.allStates ?_ (.inr ⟨List.prefix_refl _, h⟩)
    intro s input h horderly
    cases input with
    | extrinsic who call => exact (reserved_rule hspawned s₀).getD_dispatch h fun _ => horderly
    | rootCall call => exact (reserved_rule hspawned s₀).getD_dispatch h fun _ => horderly
    | environment world balances blockNumber extrinsicIndex =>
        exact h.imp (fun h => h.of_eq rfl) fun h => ⟨h.1, h.2.write horderly⟩
  exact hkept.mono fun s h => h.imp_right And.right

/-! ## A small run -/

def mockSpawner (who : ℕ) : Option ℕ := if 1000 ≤ who then some (who - 1000) else none

theorem mockConfig_spawned : mockConfig.Spawned mockSpawner := by
  intro who proxyType index maybeWhen
  show (if 1000 ≤ who + 1000 then some (who + 1000 - 1000) else none) = some who
  rw [if_pos (Nat.le_add_left 1000 who), Nat.add_sub_cancel]

theorem mockConfig_movesShare (who : ℕ) (world : ℕ → ℕ) (balances : Balances ℕ) :
    (mockConfig.plain (.signed who) (.subtensorModule .other) () world balances).Writes
      (MovesShare id) world balances := by
  unfold mockConfig
  dsimp only
  cases hreserve : balances.reserve who 10 with
  | none => exact trivial
  | some balances' =>
      intro _ other
      rw [Balances.reservedOf_of_reserve hreserve]
      rcases eq_or_ne other who with rfl | hne
      · simp only [id_eq, Function.update_self]
        omega
      · simp only [id_eq, Function.update_of_ne hne]

theorem mockState_reserved : mockState.Reserved mockSpawner id := by
  intro who
  have hnone : mockState.announcements.lookup who = none := AList.lookup_empty _
  have hsum : StorageMap.sumBy (paidBy mockSpawner who) mockState.proxies =
      if 1 = who then 93 else 0 := by
    unfold mockState
    dsimp only
    rw [StorageMap.sumBy_insert_new _ _ (AList.lookup_empty _), StorageMap.sumBy_empty, add_zero]
    rfl
  have hreserved : mockState.balances.reservedOf who = if 1 = who then 93 else 0 := by
    unfold mockState Balances.reservedOf
    dsimp only
    by_cases heq : who = 1
    · subst heq
      rw [AList.lookup_insert]
      rfl
    · rw [AList.lookup_insert_ne heq, AList.lookup_empty, if_neg (Ne.symm heq)]
      rfl
  rw [hnone, hsum, hreserved]
  exact (zero_add _).symm

/-- At the end 126 are reserved from account 1, for its two proxies, and 114 from 2, for
its announcement and by another pallet. -/
theorem allStates_reserved_mockDeposits :
    AllStates (apply mockConfig)
      (fun s => Tainted (Orderly mockConfig mockSpawner id) mockState s ∨
        s.Reserved mockSpawner id) mockState mockDeposits ∧
      (mockDeposits.foldl (apply mockConfig) mockState).dispatched = [] ∧
      (mockDeposits.foldl (apply mockConfig) mockState).balances.reservedOf 1 = 126 ∧
      (mockDeposits.foldl (apply mockConfig) mockState).balances.reservedOf 2 = 114 :=
  ⟨allStates_reserved mockConfig_spawned mockState_reserved
    ⟨by simp [Input.Orderly, Orderly, OrderlyAll, NotPure, mockSpawner],
      by simp [Input.Orderly, Orderly, OrderlyAll, mockConfig_movesShare],
      by simp [Input.Orderly, Orderly], trivial⟩,
    by decide, by decide, by decide⟩

end Subtensor.Proxies
