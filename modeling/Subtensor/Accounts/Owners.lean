import Subtensor.Accounts.KeySwaps
import Subtensor.Lib.Inverse
import Subtensor.Registration.Calls

/-!
# Owners and owned hotkeys

`Owner` and `OwnedHotkeys` store one relation twice. A registration and the
swaps of keys update both copies; a hotkey swap onto a hotkey that has an owner
updates only the list of the caller, and takes the hotkey over.
-/

namespace Subtensor.Chain

open Lib

variable {A B P : Type} [DecidableEq A] {rt : Runtime A B P} {chain chain' : Chain A B P}

/-! ## Lists without duplicates -/

theorem mem_pushNew {keys : List A} {key k : A} : k ∈ pushNew keys key ↔ k ∈ keys ∨ k = key := by
  unfold pushNew
  by_cases hmem : keys.contains key = true
  · rw [if_pos hmem]
    constructor
    · exact Or.inl
    · rintro (h | rfl)
      · exact h
      · simpa using hmem
  · rw [if_neg hmem]
    simp

theorem pushNew_nodup {keys : List A} (h : keys.Nodup) (key : A) : (pushNew keys key).Nodup := by
  unfold pushNew
  by_cases hmem : keys.contains key = true
  · rw [if_pos hmem]
    exact h
  · rw [if_neg hmem, List.nodup_append]
    refine ⟨h, List.nodup_singleton key, ?_⟩
    rintro a ha b hb rfl
    rw [List.mem_singleton] at hb
    subst hb
    simp [ha] at hmem

theorem mem_foldl_pushNew {keys init : List A} {k : A} :
    k ∈ keys.foldl pushNew init ↔ k ∈ keys ∨ k ∈ init := by
  induction keys generalizing init with
  | nil => simp
  | cons key keys ih =>
      rw [List.foldl_cons, ih, mem_pushNew, List.mem_cons]
      tauto

theorem foldl_pushNew_nodup {keys init : List A} (h : init.Nodup) :
    (keys.foldl pushNew init).Nodup := by
  induction keys generalizing init with
  | nil => exact h
  | cons key keys ih => exact ih (pushNew_nodup h key)

/-! ## What the calls do to the owners -/

/-- `Owner` and `OwnedHotkeys` agree, and no hotkey is listed twice. -/
def OwnersDual (accounts : Accounts A) : Prop := IsInverse accounts.owner accounts.ownedHotkeys

structure KeepsOwners (accounts accounts' : Accounts A) : Prop where
  owner : accounts'.owner = accounts.owner
  ownedHotkeys : accounts'.ownedHotkeys = accounts.ownedHotkeys

namespace KeepsOwners

variable {accounts accounts₁ accounts' : Accounts A}

omit [DecidableEq A] in
theorem refl (accounts : Accounts A) : KeepsOwners accounts accounts := ⟨rfl, rfl⟩

omit [DecidableEq A] in
theorem trans (h₁ : KeepsOwners accounts accounts₁) (h₂ : KeepsOwners accounts₁ accounts') :
    KeepsOwners accounts accounts' :=
  ⟨h₂.owner.trans h₁.owner, h₂.ownedHotkeys.trans h₁.ownedHotkeys⟩

omit [DecidableEq A] in
theorem dual (h : KeepsOwners accounts accounts') (hdual : OwnersDual accounts) :
    OwnersDual accounts' := by
  unfold OwnersDual
  rw [h.owner, h.ownedHotkeys]
  exact hdual

omit [DecidableEq A] in
theorem foldl {α : Type} {f : Accounts A → α → Accounts A}
    (h : ∀ accounts a, KeepsOwners accounts (f accounts a)) (l : List α) (accounts : Accounts A) :
    KeepsOwners accounts (l.foldl f accounts) := by
  induction l generalizing accounts with
  | nil => exact refl accounts
  | cons a l ih => exact (h accounts a).trans (ih (f accounts a))

end KeepsOwners

variable {coldkey oldHotkey newHotkey oldColdkey newColdkey hotkey : A}

theorem swapStakingHotkey_keepsOwners (accounts : Accounts A)
    (entry : (A × NetUid) × U64F64) :
    KeepsOwners accounts (swapStakingHotkey oldHotkey newHotkey accounts entry) := by
  unfold swapStakingHotkey
  extract_lets coldkey stakingHotkeys
  split
  · exact ⟨rfl, rfl⟩
  · exact .refl accounts

theorem swapDelegate_keepsOwners (accounts : Accounts A) :
    KeepsOwners accounts (swapDelegate rt accounts oldHotkey newHotkey) := by
  unfold swapDelegate
  split
  · exact ⟨rfl, rfl⟩
  · exact .refl accounts

theorem swapAlphaEntry_keepsOwners {netuid : NetUid} (state : Stakes A × Accounts A)
    (entry : (A × NetUid) × U64F64) :
    KeepsOwners state.2 (swapAlphaEntry oldHotkey newHotkey netuid state entry).2 := by
  unfold swapAlphaEntry
  extract_lets coldkey newAlpha alpha stakingHotkeys
  split
  · simp only
    split
    · exact ⟨rfl, rfl⟩
    · exact .refl state.2
  · exact .refl state.2

theorem performHotkeySwapOnOneSubnet_keepsOwners (netuid : NetUid) :
    KeepsOwners chain.accounts
      (chain.performHotkeySwapOnOneSubnet oldHotkey newHotkey netuid).accounts := by
  have hloop : ∀ (entries : List ((A × NetUid) × U64F64)) (state : Stakes A × Accounts A),
      KeepsOwners state.2
        (entries.foldl (swapAlphaEntry oldHotkey newHotkey netuid) state).2 := by
    intro entries
    induction entries with
    | nil => exact fun state => .refl state.2
    | cons entry entries ih =>
        intro state
        exact (swapAlphaEntry_keepsOwners state entry).trans (ih _)
  exact hloop _ (swapHotkeyTotals chain.stakes oldHotkey newHotkey netuid, chain.accounts)

theorem performHotkeySwapOnSubnets_keepsOwners (netuids : List NetUid) :
    KeepsOwners chain.accounts
      (chain.performHotkeySwapOnSubnets oldHotkey newHotkey netuids).accounts := by
  induction netuids generalizing chain with
  | nil => exact .refl chain.accounts
  | cons netuid netuids ih =>
      exact (performHotkeySwapOnOneSubnet_keepsOwners netuid).trans ih

/-- Of a hotkey swap only its first step changes the owners. -/
theorem swapHotkeyStorage_keepsOwners {netuid : Option NetUid} :
    KeepsOwners (swapOwner chain.accounts coldkey oldHotkey newHotkey netuid.isNone)
      (chain.swapHotkeyStorage rt coldkey oldHotkey newHotkey netuid).accounts := by
  unfold swapHotkeyStorage
  extract_lets owned swapped
  have hswapped : KeepsOwners owned.accounts swapped.accounts :=
    performHotkeySwapOnSubnets_keepsOwners _
  split
  · exact hswapped.trans ((swapDelegate_keepsOwners _).trans
      (KeepsOwners.foldl swapStakingHotkey_keepsOwners _ _))
  · exact hswapped

/-! ## Duality -/

/-- A hotkey that another coldkey owned before the call is still owned by it. -/
def NoTakeover (signer : A) (accounts accounts' : Accounts A) : Prop :=
  ∀ hotkey coldkey, accounts.owner hotkey = some coldkey → coldkey ≠ signer →
    accounts'.owner hotkey = some coldkey

omit [DecidableEq A] in
theorem KeepsOwners.owners_iff {accounts' accounts'' : Accounts A}
    (h : KeepsOwners accounts' accounts'') (signer : A) (accounts : Accounts A) :
    (OwnersDual accounts'' ∧ NoTakeover signer accounts accounts'') ↔
      (OwnersDual accounts' ∧ NoTakeover signer accounts accounts') := by
  unfold OwnersDual NoTakeover
  rw [h.owner, h.ownedHotkeys]

section

variable {accounts : Accounts A}

theorem createAccountIfNonExistent_owners (hdual : OwnersDual chain.accounts) :
    OwnersDual (chain.createAccountIfNonExistent coldkey hotkey).accounts ∧
      NoTakeover coldkey chain.accounts
        (chain.createAccountIfNonExistent coldkey hotkey).accounts := by
  unfold createAccountIfNonExistent hotkeyAccountExists
  by_cases hexists : (chain.accounts.owner hotkey).isSome = true
  · rw [if_pos hexists]
    exact ⟨hdual, fun _ _ h _ => h⟩
  · rw [if_neg hexists]
    have hnone : chain.accounts.owner hotkey = none := Option.not_isSome_iff_eq_none.mp hexists
    constructor
    · exact hdual.assign (Or.inl hnone) (fun _ => mem_pushNew)
        (pushNew_nodup (hdual.nodup coldkey) hotkey)
    · intro h c hc _
      show Function.update chain.accounts.owner hotkey (some coldkey) h = some c
      rw [Function.update_of_ne, hc]
      rintro rfl
      rw [hnone] at hc
      cases hc

/-- The new hotkey may be swapped to: it has no owner, or the caller owns it. -/
def MayOwn (accounts : Accounts A) (coldkey newHotkey : A) : Prop :=
  accounts.owner newHotkey = none ∨ accounts.owner newHotkey = some coldkey

theorem swapOwner_dual {drop : Bool} (hdual : OwnersDual accounts)
    (howns : accounts.owner oldHotkey = some coldkey) (hne : oldHotkey ≠ newHotkey)
    (hmay : MayOwn accounts coldkey newHotkey) :
    OwnersDual (swapOwner accounts coldkey oldHotkey newHotkey drop) := by
  have hassigned := hdual.assign hmay (fun _ => mem_pushNew)
    (pushNew_nodup (hdual.nodup coldkey) newHotkey)
  unfold swapOwner
  cases drop with
  | false => exact hassigned
  | true =>
      have hold : Function.update accounts.owner newHotkey (some coldkey) oldHotkey =
          some coldkey := by
        rw [Function.update_of_ne hne, howns]
      have hfilter : ∀ k, k ∈ (pushNew (accounts.ownedHotkeys coldkey) newHotkey).filter
          (· ≠ oldHotkey) ↔ k ∈ Function.update accounts.ownedHotkeys coldkey
            (pushNew (accounts.ownedHotkeys coldkey) newHotkey) coldkey ∧ k ≠ oldHotkey := by
        intro k
        rw [Function.update_self, List.mem_filter, decide_eq_true_eq]
      have hdropped := hassigned.unassign hold hfilter
        ((pushNew_nodup (hdual.nodup coldkey) newHotkey).filter _)
      rw [Function.update_comm hne.symm, Function.update_idem] at hdropped
      exact hdropped

theorem swapOwner_owner_of_ne {drop : Bool} {h : A} (hold : h ≠ oldHotkey) (hnew : h ≠ newHotkey) :
    (swapOwner accounts coldkey oldHotkey newHotkey drop).owner h = accounts.owner h := by
  unfold swapOwner
  cases drop <;> simp [hold, hnew]

theorem swapOwner_owner_new {drop : Bool} :
    (swapOwner accounts coldkey oldHotkey newHotkey drop).owner newHotkey = some coldkey := by
  unfold swapOwner
  cases drop <;> simp

theorem swapOwner_ownedHotkeys_of_ne {drop : Bool} {c : A} (hc : c ≠ coldkey) :
    (swapOwner accounts coldkey oldHotkey newHotkey drop).ownedHotkeys c =
      accounts.ownedHotkeys c := by
  unfold swapOwner
  cases drop <;> simp [hc]

/-- **A hotkey swap keeps the owners** exactly when nobody else owns the new
hotkey. -/
theorem swapOwner_owners_iff {drop : Bool} (hdual : OwnersDual accounts)
    (howns : accounts.owner oldHotkey = some coldkey) (hne : oldHotkey ≠ newHotkey) :
    (OwnersDual (swapOwner accounts coldkey oldHotkey newHotkey drop) ∧
        NoTakeover coldkey accounts (swapOwner accounts coldkey oldHotkey newHotkey drop)) ↔
      MayOwn accounts coldkey newHotkey := by
  constructor
  · rintro ⟨-, htakeover⟩
    cases hnew : accounts.owner newHotkey with
    | none => exact Or.inl hnew
    | some c =>
        by_cases hc : c = coldkey
        · subst hc
          exact Or.inr hnew
        · have hkept := htakeover newHotkey c hnew hc
          rw [swapOwner_owner_new] at hkept
          exact absurd (Option.some.inj hkept).symm hc
  · intro hmay
    refine ⟨swapOwner_dual hdual howns hne hmay, ?_⟩
    intro h c hc hsigner
    rw [swapOwner_owner_of_ne, hc]
    · rintro rfl
      rw [howns] at hc
      exact hsigner (Option.some.inj hc).symm
    · rintro rfl
      rcases hmay with hnone | hsome
      · rw [hnone] at hc
        cases hc
      · rw [hsome] at hc
        exact hsigner (Option.some.inj hc).symm

theorem foldl_owner (owner : A → Option A) (keys : List A) (h : A) :
    keys.foldl (fun owner hotkey => Function.update owner hotkey (some newColdkey)) owner h =
      if h ∈ keys then some newColdkey else owner h := by
  induction keys generalizing owner with
  | nil => simp
  | cons key keys ih =>
      rw [List.foldl_cons, ih]
      by_cases hkey : h = key
      · subst hkey
        simp
      · simp [hkey]

theorem swapColdkeyAccounts_owners (hdual : OwnersDual accounts) :
    OwnersDual (swapColdkeyAccounts accounts oldColdkey newColdkey) ∧
      NoTakeover oldColdkey accounts (swapColdkeyAccounts accounts oldColdkey newColdkey) := by
  constructor
  · exact hdual.moveAll (fun h => foldl_owner accounts.owner _ h) (fun _ => mem_foldl_pushNew)
      (foldl_pushNew_nodup (hdual.nodup newColdkey))
  · intro h c hc hsigner
    show (accounts.ownedHotkeys oldColdkey).foldl _ accounts.owner h = some c
    rw [foldl_owner, if_neg, hc]
    rw [← hdual.mem, hc]
    intro heq
    exact hsigner (Option.some.inj heq)

end

/-! ## Runs of calls -/

/-- A call that changes owners. A coldkey swap was scheduled by the old
coldkey. -/
inductive OwnerCall (A : Type)
  | createAccountIfNonExistent (coldkey hotkey : A)
  | swapHotkey (coldkey oldHotkey newHotkey : A) (netuid : Option NetUid)
  | swapColdkey (oldColdkey newColdkey : A) (swapCost : U64)

namespace OwnerCall

omit [DecidableEq A] in
def signer : OwnerCall A → A
  | .createAccountIfNonExistent coldkey _ => coldkey
  | .swapHotkey coldkey _ _ _ => coldkey
  | .swapColdkey oldColdkey _ _ => oldColdkey

def run (rt : Runtime A B P) (chain : Chain A B P) : OwnerCall A → Except Error (Chain A B P)
  | .createAccountIfNonExistent coldkey hotkey =>
      .ok (chain.createAccountIfNonExistent coldkey hotkey)
  | .swapHotkey coldkey oldHotkey newHotkey netuid =>
      chain.doSwapHotkey rt coldkey oldHotkey newHotkey netuid
  | .swapColdkey oldColdkey newColdkey swapCost =>
      chain.doSwapColdkey rt oldColdkey newColdkey swapCost

/-- A hotkey is not swapped to one that another coldkey owns. -/
def Safe (accounts : Accounts A) : OwnerCall A → Prop
  | .swapHotkey coldkey _ newHotkey _ => MayOwn accounts coldkey newHotkey
  | _ => True

/-- **One call.** -/
theorem owners_iff {call : OwnerCall A} (hdual : OwnersDual chain.accounts)
    (h : call.run rt chain = .ok chain') :
    (OwnersDual chain'.accounts ∧ NoTakeover call.signer chain.accounts chain'.accounts) ↔
      call.Safe chain.accounts := by
  cases call with
  | createAccountIfNonExistent coldkey hotkey =>
      obtain rfl := Except.ok.inj h
      exact iff_of_true (createAccountIfNonExistent_owners hdual) trivial
  | swapHotkey coldkey oldHotkey newHotkey netuid =>
      obtain ⟨howns, hne, -, ledger, lastBlocks, senateMembers, rfl⟩ := doSwapHotkey_ok h
      have hkeeps : KeepsOwners
          (swapOwner chain.accounts coldkey oldHotkey newHotkey netuid.isNone)
          (chain.swapHotkeyStorage rt coldkey oldHotkey newHotkey netuid).accounts :=
        swapHotkeyStorage_keepsOwners
      exact (hkeeps.owners_iff coldkey chain.accounts).trans
        (swapOwner_owners_iff hdual howns hne)
  | swapColdkey oldColdkey newColdkey swapCost =>
      obtain ⟨-, -, ledger, lastBlocks, rfl⟩ := doSwapColdkey_ok h
      exact iff_of_true (swapColdkeyAccounts_owners hdual) trivial

end OwnerCall

/-- A step of a run: a call that succeeds, or anything that leaves the owners
alone. -/
inductive OwnerStep (rt : Runtime A B P) : Chain A B P → Chain A B P → Prop
  | call {chain chain' : Chain A B P} (call : OwnerCall A) (h : call.run rt chain = .ok chain')
      (hsafe : call.Safe chain.accounts) : OwnerStep rt chain chain'
  | other {chain chain' : Chain A B P} (h : KeepsOwners chain.accounts chain'.accounts) :
      OwnerStep rt chain chain'

/-- **Owners and owned hotkeys.** In every run in which no hotkey is swapped to
one that another coldkey owns, `Owner` and `OwnedHotkeys` agree in every state;
and a call made there keeps both the agreement and the hotkeys of others exactly
if it is not such a swap. -/
theorem owners_noTakeover_iff (hstart : OwnersDual chain.accounts)
    (hrun : Relation.ReflTransGen (OwnerStep rt) chain chain') :
    OwnersDual chain'.accounts ∧ ∀ (call : OwnerCall A) (chain'' : Chain A B P),
      call.run rt chain' = .ok chain'' →
        ((OwnersDual chain''.accounts ∧
            NoTakeover call.signer chain'.accounts chain''.accounts) ↔
          call.Safe chain'.accounts) := by
  have hdual : OwnersDual chain'.accounts := by
    induction hrun with
    | refl => exact hstart
    | tail _ hstep ih =>
        cases hstep with
        | call call h hsafe => exact ((OwnerCall.owners_iff ih h).mpr hsafe).1
        | other h => exact h.dual ih
  exact ⟨hdual, fun call chain'' h => OwnerCall.owners_iff hdual h⟩

theorem smallChain_ownersDual : OwnersDual smallChain.accounts := by
  constructor
  · intro hotkey coldkey
    show (if hotkey = 1 ∨ hotkey = 2 ∨ hotkey = 3 then some 10 else none) = some coldkey ↔
      hotkey ∈ (if coldkey = 10 then [1, 2, 3] else [])
    by_cases hcoldkey : coldkey = 10
    · subst hcoldkey
      simp only [ite_eq_left_iff, reduceCtorEq, if_true, List.mem_cons, List.not_mem_nil,
        or_false, imp_false, not_not]
    · simp [hcoldkey, Ne.symm hcoldkey]
  · intro coldkey
    show (if coldkey = 10 then [1, 2, 3] else [] : List ℕ).Nodup
    split <;> decide

/-- The coldkey `10` swaps its hotkey `1` for the new hotkey `4`. -/
theorem owners_noTakeover_iff_smallChain :
    ∃ chain', smallChain.doSwapHotkey runtime 10 1 4 none = .ok chain' ∧
      OwnersDual chain'.accounts ∧ NoTakeover 10 smallChain.accounts chain'.accounts := by
  have hswap : (smallChain.doSwapHotkey runtime 10 1 4 none).toOption.map (fun _ => ()) =
      some () := by decide +kernel
  obtain ⟨chain', hok, -⟩ := exists_ok_of_toOption_map hswap
  have hrun : Relation.ReflTransGen (OwnerStep runtime) smallChain smallChain := .refl
  obtain ⟨-, hcalls⟩ := owners_noTakeover_iff smallChain_ownersDual hrun
  exact ⟨chain', hok, (hcalls (.swapHotkey 10 1 4 none) chain' hok).mpr (Or.inl rfl)⟩

/-- The hotkey `4` belongs to the coldkey `20`, until the coldkey `10` swaps
its hotkey `1` for it; the list of the coldkey `20` stays. -/
theorem owners_takeover_smallChain :
    ∃ chain', (smallChain.createAccountIfNonExistent 20 4).doSwapHotkey runtime 10 1 4 none =
        .ok chain' ∧
      (smallChain.createAccountIfNonExistent 20 4).accounts.owner 4 = some 20 ∧
      chain'.accounts.owner 4 = some 10 ∧ 4 ∈ chain'.accounts.ownedHotkeys 20 := by
  have hswap : ((smallChain.createAccountIfNonExistent 20 4).doSwapHotkey runtime 10 1 4
      none).toOption.map (fun chain => (chain.accounts.owner 4,
        chain.accounts.ownedHotkeys 20)) = some (some 10, [4]) := by decide +kernel
  obtain ⟨chain', hok, haccounts⟩ := exists_ok_of_toOption_map hswap
  obtain ⟨howner, howned⟩ := Prod.ext_iff.mp haccounts
  refine ⟨chain', hok, rfl, howner, ?_⟩
  rw [show chain'.accounts.ownedHotkeys 20 = [4] from howned]
  exact List.mem_singleton_self 4

end Subtensor.Chain
