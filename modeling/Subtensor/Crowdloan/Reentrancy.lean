import Subtensor.Crowdloan.Accounting

/-!
# Calls that run in the middle of `finalize`

The stored call is dispatched with the origin of the creator, and may call the
pallet again, also `finalize`. The entry of the crowdloan is read before the
dispatch and written back after it. So a finalization is safe exactly if the
dispatched call leaves the entry as it was.
-/

namespace Subtensor.Crowdloan

open Lib Run Storage

variable {A C : Type} [DecidableEq A]

/-- What a dispatched call does, in its order: calls of this pallet, of which a
nested `finalize` dispatches a call again, and effects from outside. -/
inductive Script (A C : Type) where
  | done
  | call (call : Call A C) (rest : Script A C)
  | external (effect : External A) (rest : Script A C)
  | finalize (who : A) (id : CrowdloanId) (dispatched rest : Script A C)

/-- A call that fails is rolled back. -/
def runScript (cfg : Config) (now : BlockNumber) : Script A C → Storage A C → Storage A C
  | .done, storage => storage
  | .call call rest, storage =>
      runScript cfg now rest ((runCall cfg now storage call).toOption.getD storage)
  | .external effect rest, storage => runScript cfg now rest (runExternal storage effect)
  | .finalize who id dispatched rest, storage =>
      runScript cfg now rest ((finalize now (fun _ storage =>
        .ok (runScript cfg now dispatched storage)) storage who id).toOption.getD storage)

/-- `finalize` of a crowdloan whose stored call does what the script says. -/
def finalizeScript (cfg : Config) (now : BlockNumber) (script : Script A C)
    (storage : Storage A C) (who : A) (id : CrowdloanId) : Except Error (Storage A C) :=
  finalize now (fun _ storage => .ok (runScript cfg now script storage)) storage who id

/-- The storage in which `finalize` dispatches the call, if there is one. -/
def dispatchStart (storage : Storage A C) (id : CrowdloanId) : Option (Storage A C) := do
  let crowdloan ← storage.crowdloans id
  let _ ← crowdloan.call
  let paid ← (payTarget storage crowdloan).toOption
  return { paid with currentCrowdloanId := some id }

/-- The storage that the dispatched call leaves. -/
def afterDispatch (cfg : Config) (now : BlockNumber) (script : Script A C)
    (storage : Storage A C) (id : CrowdloanId) : Storage A C :=
  (dispatchStart storage id).elim storage (runScript cfg now script)

/-- `p` holds of every successful `finalize` of a script, also of the nested
ones. -/
def AllFinalizations (cfg : Config) (now : BlockNumber)
    (p : List CrowdloanId → Script A C → Storage A C → CrowdloanId → Storage A C → Prop) :
    List CrowdloanId → Script A C → Storage A C → Prop
  | _, .done, _ => True
  | exempt, .call call rest, storage =>
      AllFinalizations cfg now p exempt rest
        ((runCall cfg now storage call).toOption.getD storage)
  | exempt, .external effect rest, storage =>
      AllFinalizations cfg now p exempt rest (runExternal storage effect)
  | exempt, .finalize who id dispatched rest, storage =>
      match finalizeScript cfg now dispatched storage who id with
      | .error _ => AllFinalizations cfg now p exempt rest storage
      | .ok storage' =>
          p exempt dispatched storage id storage' ∧
            (∀ start, dispatchStart storage id = some start →
              AllFinalizations cfg now p (id :: exempt) dispatched start) ∧
            AllFinalizations cfg now p exempt rest storage'

/-- The accounts are right after a finalization, what the dispatched call did
to the crowdloan is not undone, and it paid out none of the contributions that
the finalization pays out. -/
structure Safe (cfg : Config) (now : BlockNumber) (exempt : List CrowdloanId)
    (script : Script A C) (storage : Storage A C) (id : CrowdloanId) (storage' : Storage A C) :
    Prop where
  books : Books exempt storage'
  kept : ∃ crowdloan, (afterDispatch cfg now script storage id).crowdloans id = some crowdloan ∧
    crowdloan.finalized = false ∧
    storage'.crowdloans id = some { crowdloan with finalized := true }
  contributions : (afterDispatch cfg now script storage id).contributions id =
    storage.contributions id

/-- The dispatched call leaves the entry of the crowdloan as it was. -/
def Quiet (cfg : Config) (now : BlockNumber) (_ : List CrowdloanId) (script : Script A C)
    (storage : Storage A C) (id : CrowdloanId) (_ : Storage A C) : Prop :=
  (afterDispatch cfg now script storage id).crowdloans id = storage.crowdloans id

/-! ## Crowdloans that have ended -/

/-- A crowdloan that is open after its end was so before, and has lost
contributions if it changed them at all. -/
def Ebbs (now : BlockNumber) (id : CrowdloanId) (storage storage' : Storage A C) : Prop :=
  ∀ info', storage'.crowdloans id = some info' → info'.finalized = false →
    info'.endBlock.val ≤ now.val →
      ∃ info, storage.crowdloans id = some info ∧ info.finalized = false ∧
        info.endBlock.val ≤ now.val ∧ info'.raised.val ≤ info.raised.val ∧
        info'.contributorsCount.val ≤ info.contributorsCount.val ∧
        (info'.raised.val = info.raised.val →
          info'.contributorsCount.val = info.contributorsCount.val →
            storage'.contributions id = storage.contributions id)

section

variable {cfg : Config} {now : BlockNumber} {exempt : List CrowdloanId}
  {storage storage' : Storage A C} {who : A} {id : CrowdloanId}

omit [DecidableEq A] in
theorem Ebbs.of_eq (hcrowdloans : storage'.crowdloans id = storage.crowdloans id)
    (hcontributions : storage'.contributions id = storage.contributions id) :
    Ebbs now id storage storage' := by
  intro info hinfo hopen hend
  rw [hcrowdloans] at hinfo
  exact ⟨info, hinfo, hopen, hend, le_rfl, le_rfl, fun _ _ => hcontributions⟩

omit [DecidableEq A] in
theorem Ebbs.trans {storage'' : Storage A C} (h : Ebbs now id storage storage')
    (h' : Ebbs now id storage' storage'') : Ebbs now id storage storage'' := by
  intro info'' hinfo'' hopen'' hend''
  obtain ⟨info', hinfo', hopen', hend', hraised', hcount', hsame'⟩ :=
    h' info'' hinfo'' hopen'' hend''
  obtain ⟨info, hinfo, hopen, hend, hraised, hcount, hsame⟩ := h info' hinfo' hopen' hend'
  refine ⟨info, hinfo, hopen, hend, hraised'.trans hraised, hcount'.trans hcount, ?_⟩
  intro hraisedEq hcountEq
  rw [hsame' (by omega) (by omega), hsame (by omega) (by omega)]

omit [DecidableEq A] in
/-- A write to one crowdloan has to be looked at for that one only. -/
theorem Ebbs.of_writes {written : CrowdloanId} {crowdloan : Option (CrowdloanInfo A C)}
    {contributions : StorageMap A U64}
    (hwrites : Writes storage storage' written crowdloan contributions)
    (h : ∀ info', crowdloan = some info' → info'.finalized = false →
      info'.endBlock.val ≤ now.val →
        ∃ info, storage.crowdloans written = some info ∧ info.finalized = false ∧
          info.endBlock.val ≤ now.val ∧ info'.raised.val ≤ info.raised.val ∧
          info'.contributorsCount.val ≤ info.contributorsCount.val ∧
          (info'.raised.val = info.raised.val →
            info'.contributorsCount.val = info.contributorsCount.val →
              contributions = storage.contributions written)) :
    Ebbs now id storage storage' := by
  by_cases heq : id = written
  · subst heq
    intro info' hinfo' hopen' hend'
    rw [hwrites.crowdloans, Function.update_self] at hinfo'
    rw [hwrites.contributions, Function.update_self]
    exact h info' hinfo' hopen' hend'
  · refine Ebbs.of_eq ?_ ?_
    · rw [hwrites.crowdloans, Function.update_of_ne heq]
    · rw [hwrites.contributions, Function.update_of_ne heq]

theorem updateCrowdloan_ebbs {written : CrowdloanId}
    {check : CrowdloanInfo A C → Except Error Unit}
    {change : CrowdloanInfo A C → CrowdloanInfo A C}
    (hchange : ∀ info, check info = .ok () → (change info).endBlock.val ≤ now.val →
      info.endBlock.val ≤ now.val)
    (hraised : ∀ info, (change info).raised = info.raised)
    (hcount : ∀ info, (change info).contributorsCount = info.contributorsCount)
    (h : updateCrowdloan storage who written check change = .ok storage') :
    Ebbs now id storage storage' := by
  obtain ⟨crowdloan, hcrowdloan, hopen, -, hcheck, -, hwrites⟩ := updateCrowdloan_ok h
  refine Ebbs.of_writes hwrites ?_
  rintro info ⟨⟩ - hend
  exact ⟨crowdloan, hcrowdloan, hopen, hchange crowdloan hcheck hend, (hraised crowdloan).symm ▸
    le_rfl, (hcount crowdloan).symm ▸ le_rfl, fun _ _ => rfl⟩

/-- After the end a call of the pallet can only take contributions back, move
the end, or remove the crowdloan. -/
theorem runCall_ebbs (hbooks : Books exempt storage) {call : Call A C}
    (h : runCall cfg now storage call = .ok storage') : Ebbs now id storage storage' := by
  cases call with
  | create creator deposit minContribution cap endBlock call targetAddress =>
      obtain ⟨hend, -, -, -, hwrites⟩ := create_ok h
      refine Ebbs.of_writes hwrites ?_
      rintro info ⟨⟩ - hended
      exact absurd hended (not_le.mpr hend)
  | contribute contributor written amount =>
      obtain ⟨crowdloan, paid, raised, contribution, count, -, hend, -, -, -, -, hwrites⟩ :=
        contribute_ok hbooks.own h
      refine Ebbs.of_writes hwrites ?_
      rintro info ⟨⟩ - hended
      exact absurd hended (not_le.mpr hend)
  | withdraw who written =>
      obtain ⟨crowdloan, taken, rest, count, hcrowdloan, hopen, hpositive, hraised, hcount, -, -,
        hwrites⟩ := withdraw_ok (books_iff.mp hbooks) h
      refine Ebbs.of_writes hwrites ?_
      rintro info ⟨⟩ - hended
      refine ⟨crowdloan, hcrowdloan, hopen, hended, Nat.sub_le _ _, hcount, ?_⟩
      intro hsame
      rw [Word.val_satSub] at hsame
      omega
  | refund written =>
      obtain ⟨crowdloan, taken, raised, count, hcrowdloan, hopen, hend, -, -, hraised, hcount, -,
        hwrites⟩ := refund_ok hbooks.own h
      refine Ebbs.of_writes hwrites ?_
      rintro info ⟨⟩ - -
      refine ⟨crowdloan, hcrowdloan, hopen, hend, hraised.le.trans (Nat.sub_le _ _), by
        dsimp only; omega, ?_⟩
      intro _ hsame
      have hnone : taken = [] := by
        apply List.eq_nil_of_length_eq_zero
        dsimp only at hsame
        omega
      rw [hnone]
      rfl
  | dissolve who written =>
      obtain ⟨crowdloan, -, -, hwrites⟩ := dissolve_ok hbooks.own h
      refine Ebbs.of_writes hwrites ?_
      rintro info ⟨⟩
  | updateMinContribution who written newMinContribution =>
      refine updateCrowdloan_ebbs ?_ ?_ ?_ h
      · exact fun _ _ hend => hend
      · exact fun _ => rfl
      · exact fun _ => rfl
  | updateEnd who written newEnd =>
      refine updateCrowdloan_ebbs ?_ ?_ ?_ h
      · intro _ hcheck hend
        exact absurd hend (not_le.mpr (ensureValidEnd_ok hcheck))
      · exact fun _ => rfl
      · exact fun _ => rfl
  | updateCap who written newCap =>
      refine updateCrowdloan_ebbs ?_ ?_ ?_ h
      · exact fun _ _ hend => hend
      · exact fun _ => rfl
      · exact fun _ => rfl

/-! ## Finalizations -/

/-- A successful `finalize`, by what the dispatched call leaves. -/
theorem finalizeScript_ok {script : Script A C} (hbooks : Books exempt storage)
    (h : finalizeScript cfg now script storage who id = .ok storage') :
    ∃ crowdloan balances, storage.crowdloans id = some crowdloan ∧
      crowdloan.finalized = false ∧ crowdloan.endBlock.val ≤ now.val ∧
      Books (id :: exempt)
        { storage with balances := balances, currentCrowdloanId := some id } ∧
      ((dispatchStart storage id = none ∧ storage' =
          { storage with balances := balances }.insertCrowdloan id
            { crowdloan with finalized := true }) ∨
        (dispatchStart storage id =
            some { storage with balances := balances, currentCrowdloanId := some id } ∧
          storage' = { afterDispatch cfg now script storage id with
            currentCrowdloanId := none }.insertCrowdloan id
              { crowdloan with finalized := true })) := by
  obtain ⟨crowdloan, paid, after, hcrowdloan, -, hend, hopen, hpaid, hafter, rfl⟩ := finalize_ok h
  have hstart := payTarget_books hbooks hcrowdloan hpaid
  obtain ⟨-, balances, rfl⟩ := payTarget_ok (hbooks.balanced hcrowdloan).fundsAccount hpaid
  refine ⟨crowdloan, balances, hcrowdloan, hopen, hend, hstart, ?_⟩
  rcases dispatchCall_ok hafter with ⟨hnone, rfl⟩ | ⟨call, dispatched, hcall, hdispatch, rfl⟩
  · refine .inl ⟨?_, rfl⟩
    simp [dispatchStart, hcrowdloan, hnone]
  · have hfrom : dispatchStart storage id =
        some { storage with balances := balances, currentCrowdloanId := some id } := by
      simp [dispatchStart, hcrowdloan, hcall, hpaid, Except.toOption]
    cases hdispatch
    refine .inr ⟨hfrom, ?_⟩
    unfold afterDispatch
    rw [hfrom]
    rfl

/-- The entry that is written back is the one that was read. -/
theorem finalizeScript_entry {script : Script A C}
    (h : finalizeScript cfg now script storage who id = .ok storage') :
    ∃ crowdloan, storage.crowdloans id = some crowdloan ∧ crowdloan.finalized = false ∧
      storage'.crowdloans id = some { crowdloan with finalized := true } := by
  obtain ⟨crowdloan, -, after, hcrowdloan, -, -, hopen, -, -, rfl⟩ := finalize_ok h
  exact ⟨crowdloan, hcrowdloan, hopen, Function.update_self _ _ _⟩

/-- What a finalization does not undo, it finds as it was. -/
theorem Safe.quiet {script : Script A C}
    (h : finalizeScript cfg now script storage who id = .ok storage')
    (hsafe : Safe cfg now exempt script storage id storage') :
    Quiet cfg now exempt script storage id storage' := by
  obtain ⟨crowdloan, hcrowdloan, hopen, hwritten⟩ := finalizeScript_entry h
  obtain ⟨after, hafter, hafterOpen, hkept⟩ := hsafe.kept
  obtain ⟨creator, deposit, minContribution, endBlock, cap, fundsAccount, raised, targetAddress,
    call, finalized, contributorsCount⟩ := crowdloan
  cases hopen
  cases after
  cases hafterOpen
  cases hwritten.symm.trans hkept
  unfold Quiet
  rw [hafter, hcrowdloan]

/-- A dispatched call that keeps the books of the others and leaves the entry
as it was is safe. -/
theorem Quiet.safe {script : Script A C} (hbooks : Books exempt storage)
    (h : finalizeScript cfg now script storage who id = .ok storage')
    (hnested : ∀ start, dispatchStart storage id = some start → Books (id :: exempt) start →
      Books (id :: exempt) (runScript cfg now script start) ∧
        ∀ other, Ebbs now other start (runScript cfg now script start))
    (hquiet : Quiet cfg now exempt script storage id storage') :
    Safe cfg now exempt script storage id storage' ∧ ∀ other, Ebbs now other storage storage' := by
  obtain ⟨crowdloan, balances, hcrowdloan, hopen, hend, hstart, hcase⟩ :=
    finalizeScript_ok hbooks h
  have hbalanced := hbooks.balanced hcrowdloan
  have hwritten : ∀ {after : Storage A C} {other info},
      (after.insertCrowdloan id { crowdloan with finalized := true }).crowdloans other =
        some info → info.finalized = false → other ≠ id := by
    rintro after other info hinfo hinfoOpen rfl
    cases (Function.update_self _ _ _).symm.trans hinfo
    cases hinfoOpen
  rcases hcase with ⟨hnone, rfl⟩ | ⟨hfrom, rfl⟩
  · -- nothing is dispatched
    have hafter : afterDispatch cfg now script storage id = storage := by
      unfold afterDispatch
      rw [hnone]
      rfl
    refine ⟨⟨?_, ⟨crowdloan, ?_, hopen, Function.update_self _ _ _⟩, by rw [hafter]⟩, ?_⟩
    · exact finalized_books hstart (hbooks.lt_next hcrowdloan) hbalanced
        storage.currentCrowdloanId fun _ => hbooks.current
    · rw [hafter]
      exact hcrowdloan
    · intro other info hinfo hinfoOpen hinfoEnd
      have hne := hwritten hinfo hinfoOpen
      exact ⟨info, (Function.update_of_ne hne _ _).symm.trans hinfo, hinfoOpen, hinfoEnd, le_rfl,
        le_rfl, fun _ _ => rfl⟩
  · -- the entry of the crowdloan is the same, so its contributions are
    obtain ⟨hafterBooks, hafterEbbs⟩ := hnested _ hfrom hstart
    have hafter : afterDispatch cfg now script storage id = runScript cfg now script
        { storage with balances := balances, currentCrowdloanId := some id } := by
      unfold afterDispatch
      rw [hfrom]
      rfl
    unfold Quiet at hquiet
    rw [hcrowdloan, hafter] at hquiet
    have hsame : (runScript cfg now script { storage with
        balances := balances, currentCrowdloanId := some id }).contributions id =
          storage.contributions id := by
      obtain ⟨info, hinfo, -, -, -, -, hsame⟩ := hafterEbbs id crowdloan hquiet hopen hend
      cases hcrowdloan.symm.trans hinfo
      exact hsame rfl rfl
    rw [hafter]
    refine ⟨⟨?_, ⟨crowdloan, ?_, hopen, Function.update_self _ _ _⟩, ?_⟩, ?_⟩
    · refine finalized_books hafterBooks (hafterBooks.lt_next hquiet) ?_ none ?_
      · rw [hsame]
        exact hbalanced
      · rintro other ⟨⟩
    · rw [hafter]
      exact hquiet
    · rw [hafter]
      exact hsame
    · intro other info hinfo hinfoOpen hinfoEnd
      have hne := hwritten hinfo hinfoOpen
      exact hafterEbbs other info ((Function.update_of_ne hne _ _).symm.trans hinfo) hinfoOpen
        hinfoEnd

end

/-! ## Scripts -/

section

variable {cfg : Config} {now : BlockNumber}

theorem rolledBack_books (cfg : Config) (now : BlockNumber) {exempt : List CrowdloanId}
    {storage : Storage A C}
    (hbooks : Books exempt storage) (call : Call A C) :
    Books exempt ((runCall cfg now storage call).toOption.getD storage) ∧
      ∀ id, Ebbs now id storage ((runCall cfg now storage call).toOption.getD storage) := by
  cases h : runCall cfg now storage call with
  | error e => exact ⟨hbooks, fun _ => Ebbs.of_eq rfl rfl⟩
  | ok storage' => exact ⟨runCall_books hbooks h, fun _ => runCall_ebbs hbooks h⟩

/-- Finalizations that leave no call undone are quiet, whatever the books. -/
theorem AllFinalizations.quiet {exempt : List CrowdloanId} {script : Script A C}
    {storage : Storage A C} (h : AllFinalizations cfg now (Safe cfg now) exempt script storage) :
    AllFinalizations cfg now (Quiet cfg now) exempt script storage := by
  induction script generalizing exempt storage with
  | done => trivial
  | call call rest ih => exact ih h
  | external effect rest ih => exact ih h
  | finalize who id dispatched rest ihDispatched ih =>
      unfold AllFinalizations at h ⊢
      cases hfinal : finalizeScript cfg now dispatched storage who id with
      | error e =>
          rw [hfinal] at h
          exact ih h
      | ok storage' =>
          rw [hfinal] at h
          obtain ⟨hsafe, hnested, hrest⟩ := h
          exact ⟨hsafe.quiet hfinal, fun start hstart => ihDispatched (hnested start hstart),
            ih hrest⟩

/-- Quiet finalizations keep the books and are safe. -/
theorem AllFinalizations.safe {exempt : List CrowdloanId} {script : Script A C}
    {storage : Storage A C} (hbooks : Books exempt storage)
    (h : AllFinalizations cfg now (Quiet cfg now) exempt script storage) :
    AllFinalizations cfg now (Safe cfg now) exempt script storage ∧
      Books exempt (runScript cfg now script storage) ∧
        ∀ id, Ebbs now id storage (runScript cfg now script storage) := by
  induction script generalizing exempt storage with
  | done => exact ⟨trivial, hbooks, fun _ => Ebbs.of_eq rfl rfl⟩
  | call call rest ih =>
      obtain ⟨hcalled, hebbs⟩ := rolledBack_books cfg now hbooks call
      obtain ⟨hsafe, hend, hrest⟩ := ih hcalled h
      exact ⟨hsafe, hend, fun id => (hebbs id).trans (hrest id)⟩
  | external effect rest ih =>
      obtain ⟨hsafe, hend, hrest⟩ := ih (runExternal_books hbooks effect) h
      exact ⟨hsafe, hend, fun id => (Ebbs.of_eq rfl rfl).trans (hrest id)⟩
  | finalize who id dispatched rest ihDispatched ih =>
      unfold AllFinalizations at h ⊢
      cases hfinal : finalizeScript cfg now dispatched storage who id with
      | error e =>
          have hsame : runScript cfg now (.finalize who id dispatched rest) storage =
              runScript cfg now rest storage := by
            unfold finalizeScript at hfinal
            simp only [runScript, hfinal]
            rfl
          rw [hfinal] at h
          rw [hsame]
          exact ih hbooks h
      | ok storage' =>
          have hstep : runScript cfg now (.finalize who id dispatched rest) storage =
              runScript cfg now rest storage' := by
            unfold finalizeScript at hfinal
            simp only [runScript, hfinal]
            rfl
          rw [hfinal] at h
          obtain ⟨hquiet, hnested, hrest⟩ := h
          obtain ⟨hsafe, hebbs⟩ := hquiet.safe hbooks hfinal fun start hstart hbooks =>
            (ihDispatched hbooks (hnested start hstart)).2
          obtain ⟨hsafeRest, hend, hebbsRest⟩ := ih hsafe.books hrest
          rw [hstep]
          refine ⟨⟨hsafe, ?_, hsafeRest⟩, hend, fun other => (hebbs other).trans (hebbsRest other)⟩
          intro start hstart
          obtain ⟨_, _, _, _, _, hbooksStart, hcase⟩ := finalizeScript_ok hbooks hfinal
          rcases hcase with ⟨hnone, -⟩ | ⟨hfrom, -⟩
          · rw [hnone] at hstart
            cases hstart
          · cases hfrom.symm.trans hstart
            exact (ihDispatched hbooksStart (hnested _ hstart)).1

/-- **A finalization is safe exactly if the dispatched call leaves the
crowdloan alone.** From books that are right, and for every call that the
finalization may dispatch: all of its finalizations, the nested ones included,
leave the books right, undo nothing and pay nothing out twice, if and only if
none of the dispatched calls changes the entry of the crowdloan that is being
finalized. -/
theorem finalize_safe_iff (cfg : Config) (now : BlockNumber) {storage : Storage A C}
    (hbooks : Books [] storage) (who : A) (id : CrowdloanId) (script : Script A C) :
    AllFinalizations cfg now (Safe cfg now) [] (.finalize who id script .done) storage ↔
      AllFinalizations cfg now (Quiet cfg now) [] (.finalize who id script .done) storage :=
  ⟨AllFinalizations.quiet, fun h => (AllFinalizations.safe hbooks h).1⟩

end

/-! ## A creator who withdraws in the middle -/

def reentrantConfig : Config :=
  ⟨.sat 1, .sat 1, .sat 1, .sat 100, .sat 10, .sat 10⟩

/-- The creator raises the cap of 200 alone, 100 of it over the deposit. -/
def reentrantStorage : Storage Unit Unit :=
  [Step.call (.sat 0) (.create () (.sat 100) (.sat 1) (.sat 200) (.sat 10) (some ()) none),
    Step.call (.sat 1) (.contribute () (.sat 0) (.sat 100))].foldl
      (apply reentrantConfig) (Storage.genesis fun _ => 1000)

/-- The stored call withdraws what is over the deposit. -/
def withdrawScript : Script Unit Unit := .call (.withdraw () (.sat 0)) .done

def reenteredStorage : Storage Unit Unit :=
  (finalizeScript reentrantConfig (.sat 10) withdrawScript reentrantStorage ()
    (.sat 0)).toOption.getD reentrantStorage

theorem reentrantStorage_books : Books [] reentrantStorage := by
  unfold reentrantStorage
  rw [List.foldl_cons, List.foldl_cons, List.foldl_nil]
  exact apply_books (apply_books (genesis_books _) _) _

/-- The withdrawal is undone: 200 are raised from contributions of 100. -/
theorem finalize_safe_reentered : Books [] reentrantStorage ∧
    ¬AllFinalizations reentrantConfig (.sat 10) (Safe reentrantConfig (.sat 10)) []
      (.finalize () (.sat 0) withdrawScript .done) reentrantStorage := by
  refine ⟨reentrantStorage_books, ?_⟩
  intro h
  unfold AllFinalizations at h
  have hsome : (finalizeScript reentrantConfig (.sat 10) withdrawScript reentrantStorage ()
      (.sat 0)).toOption.isSome = true := by decide +kernel
  have hraised : (reenteredStorage.crowdloans (.sat 0)).map (·.raised.val) = some 200 := by
    decide +kernel
  have htotal : totalContributed (reenteredStorage.contributions (.sat 0)) = 100 := by
    decide +kernel
  cases hfinal : finalizeScript reentrantConfig (.sat 10) withdrawScript reentrantStorage ()
      (.sat 0) with
  | error e =>
      rw [hfinal] at hsome
      cases hsome
  | ok storage' =>
      have hstorage : reenteredStorage = storage' := by
        unfold reenteredStorage
        rw [hfinal]
        rfl
      rw [hfinal] at h
      rw [hstorage] at hraised htotal
      obtain ⟨info, hinfo, hvalue⟩ := Option.map_eq_some_iff.mp hraised
      have hbalance := (h.1.books.balanced hinfo).raised
      omega

/-- The stored call creates another crowdloan. -/
def createScript : Script Unit Unit :=
  .call (.create () (.sat 100) (.sat 1) (.sat 200) (.sat 20) (some ()) none) .done

theorem createScript_quiet :
    AllFinalizations reentrantConfig (.sat 10) (Quiet reentrantConfig (.sat 10)) []
      (.finalize () (.sat 0) createScript .done) reentrantStorage := by
  unfold AllFinalizations
  split
  · exact trivial
  · refine ⟨?_, ?_, trivial⟩
    · show (afterDispatch reentrantConfig (.sat 10) createScript reentrantStorage
        (.sat 0)).crowdloans (.sat 0) = reentrantStorage.crowdloans (.sat 0)
      rfl
    · intro start _
      exact trivial

/-- The finalization is safe, and both crowdloans are there after it. -/
theorem finalize_safe_iff_created :
    AllFinalizations reentrantConfig (.sat 10) (Safe reentrantConfig (.sat 10)) []
        (.finalize () (.sat 0) createScript .done) reentrantStorage ∧
      ((finalizeScript reentrantConfig (.sat 10) createScript reentrantStorage ()
        (.sat 0)).toOption.map fun storage => ((storage.crowdloans (.sat 0)).map (·.finalized),
          (storage.crowdloans (.sat 1)).map (·.finalized))) = some (some true, some false) :=
  ⟨(finalize_safe_iff reentrantConfig (.sat 10) reentrantStorage_books () (.sat 0)
    createScript).mpr createScript_quiet, by decide +kernel⟩

end Subtensor.Crowdloan
