import Subtensor.Crowdloan.Reentrancy
import Subtensor.Crowdloan.Refunds

/-!
# A crowdloan that waits for its creator

A crowdloan that has ended and raised its cap waits for `finalize`. Meanwhile
anyone may call the pallet. All calls but one fail when a stranger makes them for
this crowdloan: it is too late to contribute, a stranger has nothing to withdraw,
and the rest is for the creator. `refund` is open to anyone and does not ask
whether the cap was raised.
-/

namespace Subtensor.Crowdloan

open Lib Run Storage

variable {A C : Type} [DecidableEq A]

/-- Who signs a call, if it matters: `refund` takes any signature. -/
def Call.signer : Call A C → Option A
  | .create creator .. => some creator
  | .contribute contributor .. => some contributor
  | .withdraw who _ => some who
  | .refund _ => none
  | .dissolve who _ => some who
  | .updateMinContribution who .. => some who
  | .updateEnd who .. => some who
  | .updateCap who .. => some who

def Call.refunded : Call A C → Option CrowdloanId
  | .refund id => some id
  | _ => none

/-- The signers of a script, those of the calls that it dispatches included. -/
def Script.signers : Script A C → List A
  | .done => []
  | .call called rest => called.signer.toList ++ rest.signers
  | .external _ rest => rest.signers
  | .finalize who _ dispatched rest => who :: (dispatched.signers ++ rest.signers)

def Script.refunds : Script A C → List CrowdloanId
  | .done => []
  | .call called rest => called.refunded.toList ++ rest.refunds
  | .external _ rest => rest.refunds
  | .finalize _ _ dispatched rest => dispatched.refunds ++ rest.refunds

/-- The calls of a block, with its number. -/
def runBlock (cfg : Config) (storage : Storage A C) (block : BlockNumber × Script A C) :
    Storage A C :=
  runScript cfg block.1 block.2 storage

def runBlocks (cfg : Config) (storage : Storage A C) (blocks : List (BlockNumber × Script A C)) :
    Storage A C :=
  blocks.foldl (runBlock cfg) storage

/-- An account that has nothing to do with a crowdloan. -/
def Stranger (crowdloan : CrowdloanInfo A C) (contributions : StorageMap A U64) (who : A) : Prop :=
  who ≠ crowdloan.creator ∧ contributions.lookup who = none

/-- The creator is the only contributor, or a refund pays nobody. -/
def NobodyToRefund (cfg : Config) (crowdloan : CrowdloanInfo A C)
    (contributions : StorageMap A U64) : Prop :=
  cfg.refundContributorsLimit.val = 0 ∨ otherContributions contributions crowdloan.creator = []

/-- The entry of a crowdloan and its contributions. -/
structure Entry (id : CrowdloanId) (crowdloan : CrowdloanInfo A C)
    (contributions : StorageMap A U64) (storage : Storage A C) : Prop where
  stored : storage.crowdloans id = some crowdloan
  contributions : storage.contributions id = contributions

/-- The crowdloan is as it was, and its creator can finalize it, provided that
the stored call does not fail. -/
structure Untouched (id : CrowdloanId) (crowdloan : CrowdloanInfo A C)
    (contributions : StorageMap A U64) (storage : Storage A C) : Prop where
  entry : Entry id crowdloan contributions storage
  finalizes : ∀ (now : BlockNumber) (dispatch : C → Storage A C → Except Error (Storage A C)),
    crowdloan.endBlock.val ≤ now.val →
    (∀ call ∈ crowdloan.call, ∀ s, ∃ s', dispatch call s = .ok s') →
      ∃ storage', finalize now dispatch storage crowdloan.creator id = .ok storage'

/-! ## The accounts along any run -/

section

variable {cfg : Config} {now : BlockNumber} {exempt : List CrowdloanId}
  {storage storage' : Storage A C} {id : CrowdloanId} {who : A}

theorem runCall_next (hbooks : Accounts False exempt storage) {call : Call A C}
    (h : runCall cfg now storage call = .ok storage') :
    storage.nextCrowdloanId.val ≤ storage'.nextCrowdloanId.val := by
  cases call with
  | create creator deposit minContribution cap endBlock call targetAddress =>
      obtain ⟨-, -, -, -, hwrites⟩ := create_ok h
      exact hwrites.next
  | contribute contributor written amount =>
      obtain ⟨_, _, _, _, _, -, -, -, -, -, -, hwrites⟩ := contribute_ok hbooks.own h
      exact hwrites.next
  | withdraw who written =>
      obtain ⟨_, _, _, _, -, -, -, -, -, -, -, hwrites⟩ := withdraw_ok hbooks h
      exact hwrites.next
  | refund written =>
      obtain ⟨_, _, _, _, -, -, -, -, -, -, -, -, hwrites⟩ := refund_ok hbooks.own h
      exact hwrites.next
  | dissolve who written =>
      obtain ⟨_, -, -, hwrites⟩ := dissolve_ok hbooks.own h
      exact hwrites.next
  | updateMinContribution who written newMinContribution =>
      obtain ⟨_, -, -, -, -, -, hwrites⟩ := updateCrowdloan_ok h
      exact hwrites.next
  | updateEnd who written newEnd =>
      obtain ⟨_, -, -, -, -, -, hwrites⟩ := updateCrowdloan_ok h
      exact hwrites.next
  | updateCap who written newCap =>
      obtain ⟨_, -, -, -, -, -, hwrites⟩ := updateCrowdloan_ok h
      exact hwrites.next

/-- A successful `finalize` of a script: what it starts the dispatch from, and
what it leaves. -/
theorem finalizeScript_accounts {script : Script A C} (hbooks : Accounts False exempt storage)
    (h : finalizeScript cfg now script storage who id = .ok storage') :
    ∃ crowdloan start after, storage.crowdloans id = some crowdloan ∧ who = crowdloan.creator ∧
      Accounts False (id :: exempt) start ∧
      start.crowdloans = storage.crowdloans ∧ start.contributions = storage.contributions ∧
      start.nextCrowdloanId = storage.nextCrowdloanId ∧
      (after = start ∨ after = runScript cfg now script start) ∧
      ∃ current, (∀ other, current = some other → other ∈ exempt) ∧
        storage' = ({ after with currentCrowdloanId := current } : Storage A C).insertCrowdloan id
          { crowdloan with finalized := true } := by
  obtain ⟨crowdloan, paid, after, hcrowdloan, hcreator, -, -, hpaid, hafter, rfl⟩ := finalize_ok h
  have hstart := payTarget_accounts hbooks hcrowdloan hpaid
  obtain ⟨-, balances, rfl⟩ := payTarget_ok (hbooks.own id crowdloan hcrowdloan) hpaid
  refine ⟨crowdloan, { storage with balances := balances, currentCrowdloanId := some id }, ?_⟩
  rcases dispatchCall_ok hafter with ⟨-, rfl⟩ | ⟨call, dispatched, -, hdispatch, rfl⟩
  · exact ⟨{ storage with balances := balances, currentCrowdloanId := some id }, hcrowdloan, hcreator, hstart, rfl, rfl, rfl, .inl rfl,
      storage.currentCrowdloanId, fun _ => hbooks.current, rfl⟩
  · cases hdispatch
    refine ⟨_, hcrowdloan, hcreator, hstart, rfl, rfl, rfl, .inr rfl, none, ?_, rfl⟩
    rintro other ⟨⟩

/-- Whatever is dispatched, the books of the crowdloans that are not finalized
stay right: what an outer `finalize` writes back is finalized. -/
theorem runScript_accounts {script : Script A C} (hbooks : Accounts False exempt storage) :
    Accounts False exempt (runScript cfg now script storage) ∧
      storage.nextCrowdloanId.val ≤ (runScript cfg now script storage).nextCrowdloanId.val := by
  induction script generalizing exempt storage with
  | done => exact ⟨hbooks, le_rfl⟩
  | call call rest ih =>
      cases h : runCall cfg now storage call with
      | error e =>
          rw [runScript, h]
          exact ih hbooks
      | ok storage' =>
          rw [runScript, h]
          obtain ⟨hrest, hnext⟩ := ih (runCall_accounts hbooks h)
          exact ⟨hrest, (runCall_next hbooks h).trans hnext⟩
  | external effect rest ih => exact ih (runExternal_accounts hbooks effect)
  | finalize who id dispatched rest ihDispatched ih =>
      cases h : finalizeScript cfg now dispatched storage who id with
      | error e =>
          unfold finalizeScript at h
          rw [runScript, h]
          exact ih hbooks
      | ok storage' =>
          obtain ⟨crowdloan, start, after, hcrowdloan, -, hstart, -, -, hstartNext, hafter,
            current, hcurrent, hstorage'⟩ := finalizeScript_accounts hbooks h
          have hdispatched : Accounts False (id :: exempt) after ∧
              storage.nextCrowdloanId.val ≤ after.nextCrowdloanId.val := by
            rw [← hstartNext]
            rcases hafter with rfl | rfl
            · exact ⟨hstart, le_rfl⟩
            · exact ihDispatched hstart
          have hwritten : Accounts False exempt storage' := by
            rw [hstorage']
            exact finalized_accounts hdispatched.1
              ((hbooks.lt_next hcrowdloan).trans_le hdispatched.2)
              (hbooks.own id crowdloan hcrowdloan) False.elim current hcurrent
          obtain ⟨hrest, hnext⟩ := ih hwritten
          unfold finalizeScript at h
          rw [runScript, h]
          refine ⟨hrest, hdispatched.2.trans (le_trans (le_of_eq ?_) hnext)⟩
          rw [hstorage']
          rfl

theorem runBlocks_accounts (hbooks : Accounts False exempt storage)
    (blocks : List (BlockNumber × Script A C)) :
    Accounts False exempt (runBlocks cfg storage blocks) := by
  induction blocks generalizing storage with
  | nil => exact hbooks
  | cons block rest ih => exact ih (runScript_accounts hbooks).1

theorem genesis_accounts (free : A → ℕ) :
    Accounts False [] (Storage.genesis free : Storage A C) := by
  refine ⟨?_, ?_, ?_, fun _ => ⟨rfl, rfl⟩, ?_⟩
  · rintro id crowdloan ⟨⟩
  · rintro id crowdloan ⟨⟩
  · rintro id crowdloan ⟨⟩
  · rintro id ⟨⟩

theorem Accounts.refundable (hbooks : Accounts False [] storage) {crowdloan : CrowdloanInfo A C}
    (h : storage.crowdloans id = some crowdloan) (hopen : crowdloan.finalized = false) :
    Refundable id crowdloan storage :=
  ⟨h, hopen, hbooks.balanced h (.inr hopen), hbooks.funded h hopen List.not_mem_nil⟩

/-! ## What strangers leave alone -/

variable {crowdloan : CrowdloanInfo A C} {contributions : StorageMap A U64}

omit [DecidableEq A] in
theorem Entry.of_writes (h : Entry id crowdloan contributions storage) {written : CrowdloanId}
    {info : Option (CrowdloanInfo A C)} {rest : StorageMap A U64}
    (hwrites : Writes storage storage' written info rest) (hne : id ≠ written) :
    Entry id crowdloan contributions storage' := by
  constructor
  · rw [hwrites.crowdloans, Function.update_of_ne hne, h.stored]
  · rw [hwrites.contributions, Function.update_of_ne hne, h.contributions]

theorem withdraw_contributor (h : withdraw storage who id = .ok storage') :
    ∃ amount, (storage.contributions id).lookup who = some amount := by
  unfold withdraw at h
  simp only [bind_eq_ok, ensure_eq_ok, ensureCrowdloanExists_eq_ok, exists_const] at h
  obtain ⟨-, -, -, hpositive, -⟩ := h
  exact ⟨_, lookup_of_positive hpositive⟩

theorem updateCrowdloan_entry {check : CrowdloanInfo A C → Except Error Unit}
    {change : CrowdloanInfo A C → CrowdloanInfo A C} {written : CrowdloanId}
    (hentry : Entry id crowdloan contributions storage)
    (hstranger : Stranger crowdloan contributions who)
    (h : updateCrowdloan storage who written check change = .ok storage') :
    Entry id crowdloan contributions storage' := by
  obtain ⟨info, hinfo, -, hcreator, -, -, hwrites⟩ := updateCrowdloan_ok h
  refine hentry.of_writes hwrites ?_
  rintro rfl
  cases hentry.stored.symm.trans hinfo
  exact hstranger.1 hcreator

/-- A refund that pays nobody writes what it reads. -/
theorem refund_entry (hbooks : Accounts False exempt storage)
    (hentry : Entry id crowdloan contributions storage)
    (hnobody : NobodyToRefund cfg crowdloan contributions)
    (h : refund cfg now storage id = .ok storage') :
    Entry id crowdloan contributions storage' := by
  obtain ⟨info, taken, raised, count, hinfo, -, -, htaken, hlimit, hraised, hcount, -, hwrites⟩ :=
    refund_ok hbooks.own h
  cases hentry.stored.symm.trans hinfo
  have hnone : taken = [] := by
    rcases hnobody with hzero | hothers
    · exact List.eq_nil_of_length_eq_zero (Nat.le_zero.mp (hzero ▸ hlimit))
    · rw [hentry.contributions, hothers] at htaken
      exact List.prefix_nil.mp htaken
  subst hnone
  have hraised : raised = crowdloan.raised := Word.ext hraised
  have hcount : count = crowdloan.contributorsCount := Word.ext hcount
  constructor
  · rw [hwrites.crowdloans, Function.update_self, hraised, hcount]
  · rw [hwrites.contributions, Function.update_self]
    exact hentry.contributions

/-- A stranger's call changes nothing, unless it refunds somebody. -/
theorem runCall_entry (hbooks : Accounts False exempt storage) {call : Call A C}
    (hentry : Entry id crowdloan contributions storage)
    (hended : crowdloan.endBlock.val ≤ now.val)
    (hstranger : ∀ who ∈ call.signer, Stranger crowdloan contributions who)
    (hrefund : call.refunded = some id → NobodyToRefund cfg crowdloan contributions)
    (h : runCall cfg now storage call = .ok storage') :
    Entry id crowdloan contributions storage' := by
  cases call with
  | create creator deposit minContribution cap endBlock call targetAddress =>
      obtain ⟨-, -, -, -, hwrites⟩ := create_ok h
      refine hentry.of_writes hwrites ?_
      rintro rfl
      exact lt_irrefl _ (hbooks.lt_next hentry.stored)
  | contribute contributor written amount =>
      obtain ⟨info, _, _, _, _, hinfo, hopen, -, -, -, -, hwrites⟩ := contribute_ok hbooks.own h
      refine hentry.of_writes hwrites ?_
      rintro rfl
      cases hentry.stored.symm.trans hinfo
      exact absurd hopen (not_lt.mpr hended)
  | withdraw who written =>
      obtain ⟨_, _, _, _, -, -, -, -, -, -, -, hwrites⟩ := withdraw_ok hbooks h
      refine hentry.of_writes hwrites ?_
      rintro rfl
      obtain ⟨amount, hamount⟩ := withdraw_contributor h
      rw [hentry.contributions, (hstranger who rfl).2] at hamount
      cases hamount
  | refund written =>
      by_cases heq : id = written
      · subst heq
        exact refund_entry hbooks hentry (hrefund rfl) h
      · obtain ⟨_, _, _, _, -, -, -, -, -, -, -, -, hwrites⟩ := refund_ok hbooks.own h
        exact hentry.of_writes hwrites heq
  | dissolve who written =>
      obtain ⟨info, hinfo, hcreator, hwrites⟩ := dissolve_ok hbooks.own h
      refine hentry.of_writes hwrites ?_
      rintro rfl
      cases hentry.stored.symm.trans hinfo
      exact (hstranger who rfl).1 hcreator
  | updateMinContribution who written newMinContribution =>
      exact updateCrowdloan_entry hentry (hstranger who rfl) h
  | updateEnd who written newEnd => exact updateCrowdloan_entry hentry (hstranger who rfl) h
  | updateCap who written newCap => exact updateCrowdloan_entry hentry (hstranger who rfl) h

theorem runScript_entry {script : Script A C} (hbooks : Accounts False exempt storage)
    (hentry : Entry id crowdloan contributions storage)
    (hended : crowdloan.endBlock.val ≤ now.val)
    (hstranger : ∀ who ∈ script.signers, Stranger crowdloan contributions who)
    (hrefund : id ∈ script.refunds → NobodyToRefund cfg crowdloan contributions) :
    Entry id crowdloan contributions (runScript cfg now script storage) := by
  induction script generalizing exempt storage with
  | done => exact hentry
  | call call rest ih =>
      simp only [Script.signers, List.mem_append, Option.mem_toList] at hstranger
      simp only [Script.refunds, List.mem_append, Option.mem_toList] at hrefund
      have hrest : ∀ who ∈ rest.signers, Stranger crowdloan contributions who :=
        fun who hwho => hstranger who (.inr hwho)
      cases h : runCall cfg now storage call with
      | error e =>
          rw [runScript, h]
          exact ih hbooks hentry hrest fun hid => hrefund (.inr hid)
      | ok storage' =>
          rw [runScript, h]
          exact ih (runCall_accounts hbooks h) (runCall_entry hbooks hentry hended
            (fun who hwho => hstranger who (.inl hwho)) (fun hid => hrefund (.inl hid)) h) hrest
              fun hid => hrefund (.inr hid)
  | external effect rest ih =>
      exact ih (runExternal_accounts hbooks effect) ⟨hentry.stored, hentry.contributions⟩ hstranger
        hrefund
  | finalize who other dispatched rest ihDispatched ih =>
      simp only [Script.signers, List.mem_cons, List.mem_append] at hstranger
      simp only [Script.refunds, List.mem_append] at hrefund
      have hrest : ∀ who ∈ rest.signers, Stranger crowdloan contributions who :=
        fun who hwho => hstranger who (.inr (.inr hwho))
      cases h : finalizeScript cfg now dispatched storage who other with
      | error e =>
          unfold finalizeScript at h
          rw [runScript, h]
          exact ih hbooks hentry hrest fun hid => hrefund (.inr hid)
      | ok storage' =>
          obtain ⟨info, start, after, hinfo, hcreator, hstart, hcrowdloans, hcontributions, -,
            hafter, current, -, hstorage'⟩ := finalizeScript_accounts hbooks h
          have hne : id ≠ other := by
            rintro rfl
            cases hentry.stored.symm.trans hinfo
            exact (hstranger who (.inl rfl)).1 hcreator
          have hstartEntry : Entry id crowdloan contributions start :=
            ⟨hcrowdloans ▸ hentry.stored, hcontributions ▸ hentry.contributions⟩
          have hafterEntry : Entry id crowdloan contributions after := by
            rcases hafter with rfl | rfl
            · exact hstartEntry
            · exact ihDispatched hstart hstartEntry
                (fun who hwho => hstranger who (.inr (.inl hwho))) fun hid => hrefund (.inl hid)
          have hwritten : Entry id crowdloan contributions storage' := by
            rw [hstorage']
            exact ⟨(Function.update_of_ne hne _ _).trans hafterEntry.stored,
              hafterEntry.contributions⟩
          have hkept : Accounts False exempt
              (runScript cfg now (.finalize who other dispatched .done) storage) :=
            (runScript_accounts hbooks).1
          unfold finalizeScript at h
          rw [runScript, h] at hkept ⊢
          exact ih hkept hwritten hrest fun hid => hrefund (.inr hid)

/-- With the funds on its account, the creator can finalize. -/
theorem Entry.untouched (hbooks : Accounts False [] storage)
    (hentry : Entry id crowdloan contributions storage) (hopen : crowdloan.finalized = false)
    (hfull : crowdloan.raised = crowdloan.cap) :
    Untouched id crowdloan contributions storage := by
  refine ⟨hentry, ?_⟩
  intro now dispatch hended hdispatch
  have hfunded := hbooks.funded hentry.stored hopen List.not_mem_nil
  have hpaid : ∃ paid, payTarget storage crowdloan = .ok paid := by
    unfold payTarget
    cases crowdloan.targetAddress with
    | none => exact ⟨storage, rfl⟩
    | some target =>
        obtain ⟨balances, -, htransfer⟩ := transfer_of_le target hfunded
        rw [hbooks.own id crowdloan hentry.stored]
        exact ⟨_, htransfer⟩
  obtain ⟨paid, hpaid⟩ := hpaid
  have hafter : ∃ after, dispatchCall dispatch paid id crowdloan.call = .ok after := by
    unfold dispatchCall
    cases hcall : crowdloan.call with
    | none => exact ⟨paid, rfl⟩
    | some call =>
        obtain ⟨after, hafter⟩ := hdispatch call hcall
          { paid with currentCrowdloanId := some id }
        dsimp only
        rw [hafter]
        exact ⟨_, rfl⟩
  obtain ⟨after, hafter⟩ := hafter
  refine ⟨after.insertCrowdloan id { crowdloan with finalized := true }, ?_⟩
  unfold finalize
  rw [ensureCrowdloanExists_eq_ok.mpr hentry.stored, ok_bind, ensure, if_pos rfl, ok_bind, ensure,
    if_pos hended, ok_bind, ensure, if_pos hfull, ok_bind, ensure, if_pos hopen, ok_bind, hpaid,
    ok_bind, hafter]
  rfl

/-- A refund of somebody succeeds, and erases what was contributed. -/
theorem refund_touches (hbooks : Accounts False [] storage)
    (hentry : Entry id crowdloan contributions storage) (hopen : crowdloan.finalized = false)
    (hended : crowdloan.endBlock.val ≤ now.val)
    (hsomebody : ¬NobodyToRefund cfg crowdloan contributions) :
    ∃ storage', refund cfg now storage id = .ok storage' ∧
      storage'.contributions id ≠ contributions := by
  obtain ⟨hlimit, hothers⟩ := not_or.mp hsomebody
  obtain ⟨storage', hrefund, hpays⟩ :=
    refund_pays (hbooks.refundable hentry.stored hopen) hended rfl
  refine ⟨storage', hrefund, ?_⟩
  rw [hpays.contributions, hentry.contributions]
  obtain ⟨limit, hlimit⟩ := Nat.exists_eq_succ_of_ne_zero hlimit
  obtain ⟨e, rest, hcons⟩ := List.exists_cons_of_ne_nil hothers
  have hstored : contributions.lookup e.1 = some e.2 :=
    (mem_otherContributions (hcons ▸ List.mem_cons_self)).1
  rw [hcons, hlimit, List.take_succ_cons]
  intro hsame
  rw [← hsame, StorageMap.lookup_foldl_erase, List.map_cons, if_pos List.mem_cons_self] at hstored
  cases hstored

end

/-- **A crowdloan that has succeeded is safe from strangers, but for refunds.**
After any history, in any blocks from its end on, and whatever is called by
accounts that are neither its creator nor its contributors, and dispatched for
them: if it is not refunded, or nobody is there to be refunded, then its entry
and its contributions stay, and the creator can finalize it at any time. A
refund of somebody goes through and takes contributions away. -/
theorem strangers_untouched (cfg : Config) (free : A → ℕ)
    (history : List (BlockNumber × Script A C)) {id : CrowdloanId} {crowdloan : CrowdloanInfo A C}
    {now : BlockNumber}
    (hstored : (runBlocks cfg (.genesis free) history).crowdloans id = some crowdloan)
    (hended : crowdloan.endBlock.val ≤ now.val) (hfull : crowdloan.raised = crowdloan.cap)
    (hopen : crowdloan.finalized = false) {contributions : StorageMap A U64}
    (hcontributions : contributions = (runBlocks cfg (.genesis free) history).contributions id) :
    (∀ blocks : List (BlockNumber × Script A C),
      (∀ block ∈ blocks, now.val ≤ block.1.val ∧
        ∀ who ∈ block.2.signers, Stranger crowdloan contributions who) →
      (∀ block ∈ blocks, id ∈ block.2.refunds → NobodyToRefund cfg crowdloan contributions) →
        AllStates (runBlock cfg) (Untouched id crowdloan contributions)
          (runBlocks cfg (.genesis free) history) blocks) ∧
    (¬NobodyToRefund cfg crowdloan contributions → ∀ later : BlockNumber, now.val ≤ later.val →
      ∃ storage', refund cfg later (runBlocks cfg (.genesis free) history) id = .ok storage' ∧
        storage'.contributions id ≠ contributions) := by
  have hbooks : Accounts False [] (runBlocks cfg (.genesis free) history) :=
    runBlocks_accounts (genesis_accounts free) history
  have hentry : Entry id crowdloan contributions (runBlocks cfg (.genesis free) history) :=
    ⟨hstored, hcontributions.symm⟩
  generalize runBlocks cfg (.genesis free) history = storage at hbooks hentry
  constructor
  · intro blocks hstranger hrefund
    induction blocks generalizing storage with
    | nil => exact hentry.untouched hbooks hopen hfull
    | cons block rest ih =>
        obtain ⟨hlater, hsigners⟩ := hstranger block List.mem_cons_self
        refine ⟨hentry.untouched hbooks hopen hfull, ih _ (runScript_accounts hbooks).1
          (runScript_entry hbooks hentry (hended.trans hlater) hsigners
            (hrefund block List.mem_cons_self)) ?_ ?_⟩
        · exact fun other hother => hstranger other (List.mem_cons_of_mem _ hother)
        · exact fun other hother => hrefund other (List.mem_cons_of_mem _ hother)
  · intro hsomebody later hlater
    exact refund_touches hbooks hentry hopen (hended.trans hlater) hsomebody

/-! ## A crowdloan that has succeeded -/

def successConfig : Config := ⟨.sat 1, .sat 1, .sat 1, .sat 100, .sat 10, .sat 10⟩

/-- The creator `0` gives 100, and `1` the rest of 200. -/
def successHistory : List (BlockNumber × Script (Fin 3) Unit) :=
  [(.sat 0, .call (.create 0 (.sat 100) (.sat 1) (.sat 200) (.sat 10) none none) .done),
    (.sat 1, .call (.contribute 1 (.sat 0) (.sat 100)) .done)]

def successStorage : Storage (Fin 3) Unit :=
  runBlocks successConfig (Storage.genesis fun _ => 1000) successHistory

def successCrowdloan : CrowdloanInfo (Fin 3) Unit :=
  ⟨0, .sat 100, .sat 1, .sat 10, .sat 200, .funds (.sat 0), .sat 200, none, none, false, .sat 2⟩

theorem successStorage_crowdloans :
    successStorage.crowdloans (.sat 0) = some successCrowdloan := by rfl

/-- Account `2` refunds it at its end: 100 are raised from one contributor, and
the creator cannot finalize it any more. -/
theorem refund_undoes_success :
    successStorage.crowdloans (.sat 0) = some successCrowdloan ∧
      successCrowdloan.raised = successCrowdloan.cap ∧ successCrowdloan.finalized = false ∧
      successCrowdloan.endBlock.val ≤ (Word.sat 10 : BlockNumber).val ∧
      Stranger successCrowdloan (successStorage.contributions (.sat 0)) 2 ∧
      ∃ storage', runCall successConfig (.sat 10) successStorage (.refund (.sat 0)) =
          .ok storage' ∧
        (storage'.crowdloans (.sat 0)).map (fun crowdloan =>
          (crowdloan.raised, crowdloan.contributorsCount)) = some (.sat 100, .sat 1) ∧
        (successStorage.contributions (.sat 0)).lookup 1 = some (.sat 100) ∧
        (storage'.contributions (.sat 0)).lookup 1 = none ∧
        (finalize (.sat 10) (fun _ storage => .ok storage) storage' 0
          (.sat 0)).toOption.isNone = true ∧
        ¬Untouched (.sat 0) successCrowdloan (successStorage.contributions (.sat 0)) storage' := by
  refine ⟨successStorage_crowdloans, by decide, by decide, by decide,
    ⟨by decide, by decide +kernel⟩, ?_⟩
  have hrefund : ((runCall successConfig (.sat 10) successStorage (.refund (.sat 0))).toOption.map
      fun storage' => ((storage'.crowdloans (.sat 0)).map fun crowdloan =>
          (crowdloan.raised, crowdloan.contributorsCount),
        (storage'.contributions (.sat 0)).lookup 1,
        (finalize (.sat 10) (fun _ storage => .ok storage) storage' 0
          (.sat 0)).toOption.isNone)) = some (some (.sat 100, .sat 1), none, true) := by
    decide +kernel
  obtain ⟨storage', hcall, hresult⟩ := exists_ok_of_toOption_map hrefund
  simp only [Prod.mk.injEq] at hresult
  obtain ⟨hentry, hlookup, hfinalize⟩ := hresult
  have hbefore : (successStorage.contributions (.sat 0)).lookup 1 = some (.sat 100) := by
    decide +kernel
  refine ⟨storage', hcall, hentry, hbefore, hlookup, hfinalize, ?_⟩
  intro huntouched
  rw [huntouched.entry.contributions, hbefore] at hlookup
  cases hlookup

/-- What `2` tries otherwise has no effect. -/
theorem strangers_untouched_success :
    AllStates (runBlock successConfig)
      (Untouched (.sat 0) successCrowdloan (successStorage.contributions (.sat 0))) successStorage
      [(.sat 10, .call (.withdraw 2 (.sat 0)) .done),
        (.sat 11, .finalize 2 (.sat 0) .done (.call (.dissolve 2 (.sat 0)) .done))] := by
  have hsafe := (strangers_untouched successConfig (fun _ => 1000) successHistory
    successStorage_crowdloans (by decide : successCrowdloan.endBlock.val ≤
      (Word.sat 10 : BlockNumber).val) (by decide) rfl rfl).1
  have hstranger : Stranger successCrowdloan (successStorage.contributions (.sat 0)) 2 :=
    ⟨by decide, by decide +kernel⟩
  refine hsafe _ ?_ ?_
  · intro block hblock
    rcases List.mem_pair.mp hblock with rfl | rfl
    · refine ⟨by decide, ?_⟩
      rintro who hwho
      cases List.mem_singleton.mp hwho
      exact hstranger
    · refine ⟨by decide, ?_⟩
      intro who hwho
      rcases List.mem_pair.mp hwho with rfl | rfl
      · exact hstranger
      · exact hstranger
  · intro block hblock
    rcases List.mem_pair.mp hblock with rfl | rfl
    · rintro ⟨⟩
    · rintro ⟨⟩

end Subtensor.Crowdloan
