import Subtensor.Crowdloan.Calls
import Subtensor.Lib.Run

/-!
# The accounts of crowdloans

What a crowdloan has raised is what its contributors gave and are still owed,
and it lies on the funds account until the crowdloan is finalized.
-/

namespace Subtensor.Crowdloan

open Lib Run Storage

variable {A C : Type}

/-- The sum of all contributions. -/
def totalContributed (contributions : StorageMap A U64) : ℕ :=
  StorageMap.sumBy (fun _ => Word.val) contributions

/-- The entry of a crowdloan agrees with its contributions. -/
structure Balanced [DecidableEq A] (id : CrowdloanId) (crowdloan : CrowdloanInfo A C)
    (contributions : StorageMap A U64) : Prop where
  raised : crowdloan.raised.val = totalContributed contributions
  contributorsCount : crowdloan.contributorsCount.val = contributions.keys.length
  deposit : ∃ amount, contributions.lookup crowdloan.creator = some amount ∧
    crowdloan.deposit.val ≤ amount.val
  cap : crowdloan.raised.val ≤ crowdloan.cap.val
  fundsAccount : crowdloan.fundsAccount = .funds id

variable [DecidableEq A]

/-- The accounts of all crowdloans. The crowdloans of `exempt` are being
finalized: their funds may be gone already. -/
structure Books (exempt : List CrowdloanId) (storage : Storage A C) : Prop where
  balanced : ∀ {id crowdloan}, storage.crowdloans id = some crowdloan →
    Balanced id crowdloan (storage.contributions id)
  funded : ∀ {id crowdloan}, storage.crowdloans id = some crowdloan →
    crowdloan.finalized = false → id ∉ exempt →
      crowdloan.raised.val ≤ storage.free (.funds id)
  fresh : ∀ {id}, storage.nextCrowdloanId.val ≤ id.val →
    storage.crowdloans id = none ∧ storage.contributions id = ∅
  current : ∀ {id}, storage.currentCrowdloanId = some id → id ∈ exempt

/-- Every entry names the funds account of its own crowdloan. -/
def OwnFunds (storage : Storage A C) : Prop :=
  ∀ id crowdloan, storage.crowdloans id = some crowdloan → crowdloan.fundsAccount = .funds id

/-- The books, with the entries of the crowdloans that are finalized only if
`closed` holds: no later call looks at what those have raised. -/
structure Accounts (closed : Prop) (exempt : List CrowdloanId) (storage : Storage A C) : Prop where
  own : OwnFunds storage
  balanced : ∀ {id crowdloan}, storage.crowdloans id = some crowdloan →
    closed ∨ crowdloan.finalized = false → Balanced id crowdloan (storage.contributions id)
  funded : ∀ {id crowdloan}, storage.crowdloans id = some crowdloan →
    crowdloan.finalized = false → id ∉ exempt →
      crowdloan.raised.val ≤ storage.free (.funds id)
  fresh : ∀ {id}, storage.nextCrowdloanId.val ≤ id.val →
    storage.crowdloans id = none ∧ storage.contributions id = ∅
  current : ∀ {id}, storage.currentCrowdloanId = some id → id ∈ exempt

theorem Books.own {exempt : List CrowdloanId} {storage : Storage A C}
    (hbooks : Books exempt storage) : OwnFunds storage :=
  fun _ _ hcrowdloan => (hbooks.balanced hcrowdloan).fundsAccount

theorem books_iff {exempt : List CrowdloanId} {storage : Storage A C} :
    Books exempt storage ↔ Accounts True exempt storage := by
  constructor
  · intro hbooks
    exact ⟨hbooks.own, fun hcrowdloan _ => hbooks.balanced hcrowdloan, hbooks.funded,
      hbooks.fresh, hbooks.current⟩
  · rintro ⟨-, hbalanced, hfunded, hfresh, hcurrent⟩
    exact ⟨fun hcrowdloan => hbalanced hcrowdloan (.inl trivial), hfunded, hfresh, hcurrent⟩

/-! ## Sums -/

theorem totalContributed_insert (contributions : StorageMap A U64) (who : A) (amount : U64) :
    totalContributed (contributions.insert who amount) +
        (contributions.lookup who).elim 0 Word.val =
      amount.val + totalContributed contributions :=
  StorageMap.sumBy_insert_elim (fun _ => Word.val) contributions who amount

theorem totalContributed_erase (contributions : StorageMap A U64) (who : A) :
    totalContributed (contributions.erase who) + (contributions.lookup who).elim 0 Word.val =
      totalContributed contributions :=
  StorageMap.sumBy_erase_elim (fun _ => Word.val) contributions who

/-! ## Checks -/

theorem ensure_eq_ok {p : Prop} [Decidable p] {e : Error} {u : Unit} :
    ensure p e = .ok u ↔ p := by
  unfold ensure
  by_cases h : p
  · simp [h]
  · simp [h]

theorem orError_eq_ok {α : Type} {e : Error} {x : Option α} {a : α} :
    orError e x = .ok a ↔ x = some a := by
  cases x with
  | none => simp [orError]
  | some b => simp [orError]

omit [DecidableEq A] in
theorem ensureCrowdloanExists_eq_ok {storage : Storage A C} {id : CrowdloanId}
    {crowdloan : CrowdloanInfo A C} :
    storage.ensureCrowdloanExists id = .ok crowdloan ↔
      storage.crowdloans id = some crowdloan := by
  unfold ensureCrowdloanExists
  cases storage.crowdloans id with
  | none => simp
  | some info => simp

theorem ensureValidEnd_ok {cfg : Config} {now endBlock : BlockNumber}
    {u : Unit} (h : ensureValidEnd cfg now endBlock = .ok u) : now.val < endBlock.val := by
  obtain ⟨_, hahead, _⟩ := bind_eq_ok.mp h
  exact ensure_eq_ok.mp hahead

theorem transfer_ok {storage storage' : Storage A C} {source dest : Account A} {amount : U64}
    (h : storage.transfer source dest amount = .ok storage') :
    ∃ balances, storage.balances.transfer source dest amount.val = some balances ∧
      storage' = { storage with balances := balances } := by
  unfold Storage.transfer at h
  cases htransfer : storage.balances.transfer source dest amount.val with
  | none =>
      rw [htransfer] at h
      cases h
  | some balances =>
      rw [htransfer] at h
      cases h
      exact ⟨balances, rfl, rfl⟩

/-! ## Writes -/

/-- A call writes the entry and the contributions of one crowdloan, and takes
from no other funds account. -/
structure Writes (storage storage' : Storage A C) (id : CrowdloanId)
    (crowdloan : Option (CrowdloanInfo A C)) (contributions : StorageMap A U64) : Prop where
  crowdloans : storage'.crowdloans = Function.update storage.crowdloans id crowdloan
  contributions : storage'.contributions =
    Function.update storage.contributions id contributions
  others : ∀ other ≠ id, storage.free (.funds other) ≤ storage'.free (.funds other)
  next : storage.nextCrowdloanId.val ≤ storage'.nextCrowdloanId.val
  current : storage'.currentCrowdloanId = storage.currentCrowdloanId

section

variable {closed : Prop} {exempt : List CrowdloanId} {storage storage' : Storage A C}
  {id : CrowdloanId} {crowdloan : Option (CrowdloanInfo A C)} {contributions : StorageMap A U64}

theorem Accounts.lt_next (haccounts : Accounts closed exempt storage) {info : CrowdloanInfo A C}
    (h : storage.crowdloans id = some info) : id.val < storage.nextCrowdloanId.val := by
  by_contra hle
  rw [(haccounts.fresh (not_lt.mp hle)).1] at h
  cases h

omit [DecidableEq A] in
theorem OwnFunds.of_writes (hown : OwnFunds storage)
    (hwrites : Writes storage storage' id crowdloan contributions)
    (hwritten : ∀ info, crowdloan = some info → info.fundsAccount = .funds id) :
    OwnFunds storage' := by
  intro other info hinfo
  rw [hwrites.crowdloans] at hinfo
  by_cases heq : other = id
  · subst heq
    rw [Function.update_self] at hinfo
    exact hwritten info hinfo
  · rw [Function.update_of_ne heq] at hinfo
    exact hown other info hinfo

/-- A write keeps the books if what it writes agrees and is covered. -/
theorem Accounts.of_writes (hbooks : Accounts closed exempt storage)
    (hwrites : Writes storage storage' id crowdloan contributions)
    (hid : id.val < storage'.nextCrowdloanId.val)
    (hown : ∀ info, crowdloan = some info → info.fundsAccount = .funds id)
    (hbalanced : ∀ info, crowdloan = some info → closed ∨ info.finalized = false →
      Balanced id info contributions)
    (hfunded : ∀ info, crowdloan = some info → info.finalized = false → id ∉ exempt →
      info.raised.val ≤ storage'.free (.funds id)) : Accounts closed exempt storage' where
  own := hbooks.own.of_writes hwrites hown
  balanced := by
    intro other info hinfo
    rw [hwrites.crowdloans] at hinfo
    rw [hwrites.contributions]
    by_cases heq : other = id
    · subst heq
      rw [Function.update_self] at hinfo ⊢
      exact hbalanced info hinfo
    · rw [Function.update_of_ne heq] at hinfo ⊢
      exact hbooks.balanced hinfo
  funded := by
    intro other info hinfo hopen hexempt
    rw [hwrites.crowdloans] at hinfo
    by_cases heq : other = id
    · subst heq
      rw [Function.update_self] at hinfo
      exact hfunded info hinfo hopen hexempt
    · rw [Function.update_of_ne heq] at hinfo
      exact (hbooks.funded hinfo hopen hexempt).trans (hwrites.others other heq)
  fresh := by
    intro other hle
    have hne : other ≠ id := by
      rintro rfl
      exact absurd hle (not_le.mpr hid)
    rw [hwrites.crowdloans, hwrites.contributions, Function.update_of_ne hne,
      Function.update_of_ne hne]
    exact hbooks.fresh (hwrites.next.trans hle)
  current := by
    intro other hcurrent
    rw [hwrites.current] at hcurrent
    exact hbooks.current hcurrent

/-- The balances that a transfer from a funds account leaves. -/
theorem free_of_payout (storage : Storage A C) {balances' : Balances (Account A)}
    {who : Account A} {amount : ℕ}
    (h : storage.balances.transfer (.funds id) who amount = some balances')
    (hne : Account.funds id ≠ who) :
    amount ≤ storage.free (.funds id) ∧
      balances'.free (.funds id) = storage.free (.funds id) - amount ∧
      ∀ other ≠ id, storage.free (.funds other) ≤ balances'.free (.funds other) := by
  refine ⟨Balances.le_free_of_transfer h, ?_, ?_⟩
  · rw [Balances.free_of_transfer h hne, Function.update_of_ne hne, Function.update_self]
    rfl
  · intro other hother
    refine Balances.free_le_of_transfer h ?_
    rintro ⟨⟩
    exact hother rfl

/-- The balances that a payment of a user to a funds account leaves. -/
theorem free_of_payment (storage : Storage A C) {balances' : Balances (Account A)} {who : A}
    {amount : ℕ}
    (h : storage.balances.transfer (.user who) (.funds id) amount = some balances') :
    balances'.free (.funds id) = storage.free (.funds id) + amount ∧
      ∀ other ≠ id, storage.free (.funds other) ≤ balances'.free (.funds other) := by
  constructor
  · rw [Balances.free_of_transfer h (by rintro ⟨⟩), Function.update_self]
    rfl
  · intro other _
    exact Balances.free_le_of_transfer h (by rintro ⟨⟩)

end

/-! ## Calls -/

section

variable {closed : Prop} {cfg : Config} {now : BlockNumber} {exempt : List CrowdloanId}
  {storage storage' : Storage A C} {who : A} {id : CrowdloanId}

theorem create_ok {deposit minContribution cap : U64} {endBlock : BlockNumber} {call : Option C}
    {targetAddress : Option (Account A)}
    (h : create cfg now storage who deposit minContribution cap endBlock call targetAddress =
      .ok storage') :
    now.val < endBlock.val ∧ deposit.val < cap.val ∧
      storage'.nextCrowdloanId.val = storage.nextCrowdloanId.val + 1 ∧
      storage'.free (.funds storage.nextCrowdloanId) =
        storage.free (.funds storage.nextCrowdloanId) + deposit.val ∧
      Writes storage storage' storage.nextCrowdloanId
        (some ⟨who, deposit, minContribution, endBlock, cap, .funds storage.nextCrowdloanId,
          deposit, targetAddress, call, false, .sat 1⟩)
        ((storage.contributions storage.nextCrowdloanId).insert who deposit) := by
  unfold create at h
  simp only [bind_eq_ok, ensure_eq_ok, orError_eq_ok, exists_const] at h
  obtain ⟨-, hcap, -, _, hend, -, next, hnext, storage₁, htransfer, h⟩ := h
  obtain ⟨balances, hbalances, rfl⟩ := transfer_ok htransfer
  have hpaid := free_of_payment storage hbalances
  have hnext : next.val = storage.nextCrowdloanId.val + 1 := Word.val_checkedAdd hnext
  cases h
  exact ⟨ensureValidEnd_ok hend, hcap, hnext, hpaid.1,
    ⟨rfl, rfl, hpaid.2, hnext ▸ Nat.le_succ _, rfl⟩⟩

theorem create_accounts (hbooks : Accounts closed exempt storage) {deposit minContribution cap : U64}
    {endBlock : BlockNumber} {call : Option C} {targetAddress : Option (Account A)}
    (h : create cfg now storage who deposit minContribution cap endBlock call targetAddress =
      .ok storage') : Accounts closed exempt storage' := by
  obtain ⟨-, hcap, hnext, hfree, hwrites⟩ := create_ok h
  have hempty := (hbooks.fresh le_rfl).2
  refine hbooks.of_writes hwrites (by omega) ?_ ?_ ?_
  · rintro info ⟨⟩
    rfl
  · rintro info ⟨⟩ -
    rw [hempty]
    exact ⟨rfl, rfl, ⟨deposit, AList.lookup_insert _, le_rfl⟩, hcap.le, rfl⟩
  · rintro info ⟨⟩ - -
    rw [hfree]
    exact Nat.le_add_left _ _

theorem addContribution_ok {old : Option U64} {contributorsCount count : U32}
    {amount contribution : U64}
    (h : addContribution old contributorsCount amount = .ok (contribution, count)) :
    contribution.val = old.elim 0 Word.val + amount.val ∧
      count.val + old.elim 0 (fun _ => 1) = contributorsCount.val + 1 := by
  unfold addContribution at h
  cases old with
  | none =>
      simp only [bind_eq_ok, orError_eq_ok] at h
      obtain ⟨count', hcount, h⟩ := h
      have hcount : count'.val = contributorsCount.val + 1 := Word.val_checkedAdd hcount
      cases h
      exact ⟨(Nat.zero_add _).symm, hcount⟩
  | some old =>
      simp only [bind_eq_ok, orError_eq_ok] at h
      obtain ⟨contribution', hadd, h⟩ := h
      have hadd := Word.val_checkedAdd hadd
      cases h
      exact ⟨hadd, rfl⟩

theorem val_leastAmount_le (a b : U64) : (leastAmount a b).val ≤ b.val := by
  unfold leastAmount
  split
  · assumption
  · exact le_rfl

theorem contribute_ok (hown : OwnFunds storage) {amount : U64}
    (h : contribute cfg now storage who id amount = .ok storage') :
    ∃ crowdloan paid raised contribution count, storage.crowdloans id = some crowdloan ∧
      now.val < crowdloan.endBlock.val ∧
      Word.val raised = crowdloan.raised.val + Word.val (w := 64) paid ∧
      raised.val ≤ crowdloan.cap.val ∧
      addContribution ((storage.contributions id).lookup who) crowdloan.contributorsCount paid =
        .ok (contribution, count) ∧
      storage'.free (.funds id) = storage.free (.funds id) + paid.val ∧
      Writes storage storage' id
        (some { crowdloan with raised := raised, contributorsCount := count })
        ((storage.contributions id).insert who contribution) := by
  unfold contribute at h
  simp only [bind_eq_ok, ensure_eq_ok, orError_eq_ok, ensureCrowdloanExists_eq_ok,
    exists_const] at h
  obtain ⟨crowdloan, hcrowdloan, hend, -, -, -, left, hleft, raised, hraised,
    ⟨contribution, count⟩, hadd, -, storage₁, htransfer, h⟩ := h
  have hleft := Word.val_checkedSub hleft
  have hraised := Word.val_checkedAdd hraised
  have hleast := val_leastAmount_le amount left
  rw [hown id crowdloan hcrowdloan] at htransfer
  obtain ⟨balances, hbalances, rfl⟩ := transfer_ok htransfer
  have hpaid := free_of_payment storage hbalances
  cases h
  exact ⟨crowdloan, _, raised, contribution, count, hcrowdloan, hend, hraised, by omega, hadd,
    hpaid.1, ⟨rfl, rfl, hpaid.2, le_rfl, rfl⟩⟩

/-- An amount that is added for a contributor stays with the entry. -/
theorem Balanced.insert {crowdloan : CrowdloanInfo A C} {contributions : StorageMap A U64}
    (hbalanced : Balanced id crowdloan contributions) {raised contribution : U64} {count : U32}
    (hraised : raised.val + (contributions.lookup who).elim 0 Word.val =
      crowdloan.raised.val + contribution.val)
    (hcount : count.val + (contributions.lookup who).elim 0 (fun _ => 1) =
      crowdloan.contributorsCount.val + 1)
    (hdeposit : who = crowdloan.creator → crowdloan.deposit.val ≤ contribution.val)
    (hcap : raised.val ≤ crowdloan.cap.val) :
    Balanced id { crowdloan with raised := raised, contributorsCount := count }
      (contributions.insert who contribution) where
  raised := by
    have hsum := totalContributed_insert contributions who contribution
    have hold := hbalanced.raised
    dsimp only
    omega
  contributorsCount := by
    have hlength := StorageMap.length_keys_insert_elim contributions who contribution
    have hold := hbalanced.contributorsCount
    dsimp only
    omega
  deposit := by
    dsimp only
    by_cases heq : crowdloan.creator = who
    · rw [heq, AList.lookup_insert]
      exact ⟨contribution, rfl, hdeposit heq.symm⟩
    · rw [AList.lookup_insert_ne heq]
      exact hbalanced.deposit
  cap := hcap
  fundsAccount := hbalanced.fundsAccount

theorem contribute_accounts (hbooks : Accounts closed exempt storage) {amount : U64}
    (h : contribute cfg now storage who id amount = .ok storage') :
    Accounts closed exempt storage' := by
  obtain ⟨crowdloan, paid, raised, contribution, count, hcrowdloan, -, hraised, hcap, hadd,
    hfree, hwrites⟩ := contribute_ok hbooks.own h
  obtain ⟨hcontribution, hcount⟩ := addContribution_ok hadd
  have hid := hbooks.lt_next hcrowdloan
  refine hbooks.of_writes hwrites (hid.trans_le hwrites.next) ?_ ?_ ?_
  · rintro info ⟨⟩
    exact hbooks.own id crowdloan hcrowdloan
  · rintro info ⟨⟩ hkept
    have hbalanced := hbooks.balanced hcrowdloan hkept
    refine hbalanced.insert (by omega) hcount ?_ hcap
    rintro rfl
    obtain ⟨old, hold, hle⟩ := hbalanced.deposit
    rw [hold] at hcontribution
    rw [hcontribution]
    exact hle.trans (Nat.le_add_right _ _)
  · rintro info ⟨⟩ hopen hexempt
    have hfunded := hbooks.funded hcrowdloan hopen hexempt
    dsimp only
    omega

omit [DecidableEq A] in
theorem lookup_of_positive [DecidableEq A] {contributions : StorageMap A U64}
    (h : 0 < ((contributions.lookup who).getD 0).val) :
    contributions.lookup who = some ((contributions.lookup who).getD 0) := by
  cases hlookup : contributions.lookup who with
  | none =>
      rw [hlookup] at h
      exact absurd h (lt_irrefl 0)
  | some stored => rfl

/-- The creator takes what is over the deposit, and anyone else all. -/
theorem takeContribution_cases {crowdloan : CrowdloanInfo A C}
    {contributions rest : StorageMap A U64} {amount taken : U64} {count : U32}
    (h : takeContribution crowdloan contributions who amount = .ok (taken, rest, count)) :
    (who = crowdloan.creator ∧ 0 < taken.val ∧ taken = amount.satSub crowdloan.deposit ∧
        rest = contributions.insert who crowdloan.deposit ∧
        count = crowdloan.contributorsCount) ∨
      (who ≠ crowdloan.creator ∧ taken = amount ∧ rest = contributions.erase who ∧
        1 ≤ crowdloan.contributorsCount.val ∧
        count.val = crowdloan.contributorsCount.val - 1) := by
  unfold takeContribution at h
  split at h
  · rename_i hcreator
    simp only [bind_eq_ok, ensure_eq_ok, exists_const] at h
    obtain ⟨htaken, h⟩ := h
    cases h
    exact .inl ⟨hcreator, htaken, rfl, rfl, rfl⟩
  · rename_i hcreator
    simp only [bind_eq_ok, orError_eq_ok] at h
    obtain ⟨count', hsub, h⟩ := h
    obtain ⟨hpositive, hsub⟩ := Word.val_checkedSub hsub
    cases h
    exact .inr ⟨hcreator, rfl, rfl, hpositive, hsub⟩

/-- What an account takes out is positive, and what stays agrees with the
rest. -/
theorem takeContribution_ok {crowdloan : CrowdloanInfo A C} {contributions rest : StorageMap A U64}
    (hbalanced : Balanced id crowdloan contributions) {amount : U64} {count : U32} {taken : U64}
    (hlookup : contributions.lookup who = some amount) (hpositive : 0 < amount.val)
    (h : takeContribution crowdloan contributions who amount = .ok (taken, rest, count)) :
    0 < taken.val ∧ taken.val ≤ crowdloan.raised.val ∧
      count.val ≤ crowdloan.contributorsCount.val ∧
      Balanced id { crowdloan with
        raised := crowdloan.raised.satSub taken, contributorsCount := count } rest := by
  have hraised := hbalanced.raised
  have hcount := hbalanced.contributorsCount
  have hsum := totalContributed_erase contributions who
  have hlength := StorageMap.length_keys_erase_elim contributions who
  rw [hlookup, Option.elim_some] at hsum hlength
  rcases takeContribution_cases h with ⟨hcreator, htaken, rfl, rfl, rfl⟩ |
    ⟨hcreator, rfl, rfl, hsome, hsub⟩
  · rw [Word.val_satSub] at htaken
    refine ⟨htaken, by rw [Word.val_satSub]; omega, le_rfl, ?_⟩
    refine hbalanced.insert ?_ ?_ (fun _ => le_rfl) ?_
    · rw [hlookup, Option.elim_some, Word.val_satSub, Word.val_satSub]
      omega
    · rw [hlookup, Option.elim_some]
    · exact (Nat.sub_le _ _).trans hbalanced.cap
  · refine ⟨hpositive, by omega, by omega, ?_, ?_, ?_, ?_, hbalanced.fundsAccount⟩
    · rw [Word.val_satSub]
      omega
    · dsimp only
      omega
    · rw [AList.lookup_erase_ne (Ne.symm hcreator)]
      exact hbalanced.deposit
    · exact (Nat.sub_le _ _).trans hbalanced.cap

/-- What is withdrawn is taken from the contributor and from the total. -/
theorem withdraw_ok (hbooks : Accounts closed exempt storage)
    (h : withdraw storage who id = .ok storage') :
    ∃ crowdloan taken rest count, storage.crowdloans id = some crowdloan ∧
      crowdloan.finalized = false ∧ 0 < Word.val (w := 64) taken ∧
      taken.val ≤ crowdloan.raised.val ∧ count.val ≤ crowdloan.contributorsCount.val ∧
      Balanced id { crowdloan with
        raised := crowdloan.raised.satSub taken, contributorsCount := count } rest ∧
      storage'.free (.funds id) + taken.val = storage.free (.funds id) ∧
      Writes storage storage' id (some { crowdloan with
        raised := crowdloan.raised.satSub taken, contributorsCount := count }) rest := by
  unfold withdraw at h
  simp only [bind_eq_ok, ensure_eq_ok, ensureCrowdloanExists_eq_ok, exists_const] at h
  obtain ⟨crowdloan, hcrowdloan, hopen, hpositive, ⟨taken, rest, count⟩, htake, storage₁,
    htransfer, h⟩ := h
  have hbalanced := hbooks.balanced hcrowdloan (.inr hopen)
  obtain ⟨htaken, hraised, hcount, hrest⟩ := takeContribution_ok hbalanced
    (lookup_of_positive hpositive) hpositive htake
  rw [hbalanced.fundsAccount] at htransfer
  obtain ⟨balances, hbalances, rfl⟩ := transfer_ok htransfer
  obtain ⟨hle, hfree, hothers⟩ := free_of_payout storage hbalances (by rintro ⟨⟩)
  cases h
  refine ⟨crowdloan, taken, rest, count, hcrowdloan, hopen, htaken, hraised, hcount, hrest, ?_,
    ⟨rfl, rfl, hothers, le_rfl, rfl⟩⟩
  show balances.free (.funds id) + taken.val = storage.free (.funds id)
  dsimp only at hle hfree
  omega

theorem withdraw_accounts (hbooks : Accounts closed exempt storage)
    (h : withdraw storage who id = .ok storage') : Accounts closed exempt storage' := by
  obtain ⟨crowdloan, taken, rest, count, hcrowdloan, -, -, hraised, -, hrest, hfree, hwrites⟩ :=
    withdraw_ok hbooks h
  have hid := hbooks.lt_next hcrowdloan
  refine hbooks.of_writes hwrites (hid.trans_le hwrites.next) ?_ ?_ ?_
  · rintro info ⟨⟩
    exact hbooks.own id crowdloan hcrowdloan
  · rintro info ⟨⟩ -
    exact hrest
  · rintro info ⟨⟩ hopen hexempt
    have hfunded := hbooks.funded hcrowdloan hopen hexempt
    rw [Word.val_satSub]
    omega

/-! ### Refunds -/

theorem mem_otherContributions {contributions : StorageMap A U64} {creator : A} {e : A × U64}
    (h : e ∈ otherContributions contributions creator) :
    contributions.lookup e.1 = some e.2 ∧ e.1 ≠ creator := by
  obtain ⟨hmem, hne⟩ := List.mem_filter.mp h
  obtain ⟨entry, hentry, rfl⟩ := List.mem_map.mp hmem
  exact ⟨StorageMap.mem_entries_iff.mp hentry, of_decide_eq_true hne⟩

theorem nodup_otherContributions (contributions : StorageMap A U64) (creator : A) :
    ((otherContributions contributions creator).map Prod.fst).Nodup := by
  have hkeys : ((contributions.entries.map fun e => (e.1, e.2)).map Prod.fst).Nodup := by
    rw [List.map_map]
    exact contributions.keys_nodup
  exact hkeys.sublist (List.filter_sublist.map Prod.fst)

/-- What the loop has paid out when it stops. -/
structure Refunded (id : CrowdloanId) (before after : Refunds A C) (taken : List (A × U64)) :
    Prop where
  raised : after.raised.val = before.raised.val - (taken.map fun e => e.2.val).sum
  refundedContributors :
    after.refundedContributors = before.refundedContributors ++ taken.map Prod.fst
  refundCount : after.refundCount.val = before.refundCount.val + taken.length
  storage : ∃ balances, after.storage = { before.storage with balances := balances }
  free : after.storage.free (.funds id) + (taken.map fun e => e.2.val).sum =
    before.storage.free (.funds id)
  others : ∀ other ≠ id, before.storage.free (.funds other) ≤ after.storage.free (.funds other)

omit [DecidableEq A] in
theorem Refunded.nil (id : CrowdloanId) (refunds : Refunds A C) :
    Refunded id refunds refunds [] :=
  ⟨rfl, (List.append_nil _).symm, rfl, ⟨_, rfl⟩, rfl, fun _ _ => le_rfl⟩

/-- One round of the loop comes before what the rest of it pays out. -/
theorem Refunded.cons {e : A × U64} {taken : List (A × U64)} {before after : Refunds A C}
    {balances : Balances (Account A)} {count : U32}
    (htransfer : before.storage.balances.transfer (.funds id) (.user e.1) e.2.val =
      some balances)
    (hcount : count.val = before.refundCount.val + 1)
    (hrest : Refunded id ⟨{ before.storage with balances := balances },
      before.raised.satSub e.2, before.refundedContributors ++ [e.1], count⟩ after taken) :
    Refunded id before after (e :: taken) := by
  obtain ⟨hle, hfree, hothers⟩ := free_of_payout before.storage htransfer (by rintro ⟨⟩)
  obtain ⟨last, hlast⟩ := hrest.storage
  have hraised := hrest.raised
  have hpaid := hrest.free
  refine ⟨?_, ?_, ?_, ⟨last, hlast⟩, ?_,
    fun other hother => (hothers other hother).trans (hrest.others other hother)⟩
  · rw [hraised, Word.val_satSub, List.map_cons, List.sum_cons, Nat.sub_sub]
  · rw [hrest.refundedContributors, List.map_cons, List.append_assoc, List.singleton_append]
  · rw [hrest.refundCount, hcount, List.length_cons]
    omega
  · have hstart : Storage.free { before.storage with balances := balances } (.funds id) =
      balances.free (.funds id) := rfl
    rw [hstart] at hpaid
    rw [List.map_cons, List.sum_cons]
    omega

theorem refundLoop_ok {limit : U32} {entries : List (A × U64)} {before after : Refunds A C}
    (h : refundLoop limit (.funds id) entries before = .ok after) :
    ∃ taken, taken <+: entries ∧ taken.length ≤ limit.val - before.refundCount.val ∧
      Refunded id before after taken := by
  induction entries generalizing before with
  | nil =>
      cases h
      exact ⟨[], List.prefix_rfl, Nat.zero_le _, Refunded.nil id _⟩
  | cons e rest ih =>
      unfold refundLoop at h
      split at h
      · cases h
        exact ⟨[], List.nil_prefix, Nat.zero_le _, Refunded.nil id _⟩
      · simp only [bind_eq_ok, orError_eq_ok] at h
        obtain ⟨storage₁, htransfer, count, hcount, h⟩ := h
        obtain ⟨balances, hbalances, rfl⟩ := transfer_ok htransfer
        have hcount : count.val = before.refundCount.val + 1 := Word.val_checkedAdd hcount
        obtain ⟨taken, htaken, hlength, hrest⟩ := ih h
        refine ⟨e :: taken, List.cons_prefix_cons.mpr ⟨rfl, htaken⟩, ?_,
          Refunded.cons hbalances hcount hrest⟩
        rw [List.length_cons]
        dsimp only at hlength
        omega

theorem refund_ok (hown : OwnFunds storage) (h : refund cfg now storage id = .ok storage') :
    ∃ crowdloan taken raised count, storage.crowdloans id = some crowdloan ∧
      crowdloan.finalized = false ∧ crowdloan.endBlock.val ≤ now.val ∧
      taken <+: otherContributions (storage.contributions id) crowdloan.creator ∧
      taken.length ≤ cfg.refundContributorsLimit.val ∧
      Word.val raised = crowdloan.raised.val - (taken.map fun e => e.2.val).sum ∧
      count.val + taken.length = crowdloan.contributorsCount.val ∧
      storage'.free (.funds id) + (taken.map fun e => e.2.val).sum = storage.free (.funds id) ∧
      Writes storage storage' id
        (some { crowdloan with raised := raised, contributorsCount := count })
        ((taken.map Prod.fst).foldl (fun contributions who => contributions.erase who)
          (storage.contributions id)) := by
  unfold refund at h
  simp only [bind_eq_ok, ensure_eq_ok, orError_eq_ok, ensureCrowdloanExists_eq_ok,
    exists_const] at h
  obtain ⟨crowdloan, hcrowdloan, hend, hopen, refunds, hloop, count, hcount, h⟩ := h
  rw [hown id crowdloan hcrowdloan] at hloop
  obtain ⟨taken, htaken, hlimit, hrefunded⟩ := refundLoop_ok hloop
  obtain ⟨balances, hstorage⟩ := hrefunded.storage
  obtain ⟨hle, hcount⟩ := Word.val_checkedSub hcount
  have htotal : refunds.refundCount.val = 0 + taken.length := hrefunded.refundCount
  have hwho : refunds.refundedContributors = taken.map Prod.fst := hrefunded.refundedContributors
  cases h
  refine ⟨crowdloan, taken, refunds.raised, count, hcrowdloan, hopen, hend, htaken, hlimit,
    hrefunded.raised, by omega, hrefunded.free, ⟨?_, ?_, hrefunded.others, ?_, ?_⟩⟩
  · rw [hstorage]
    rfl
  · rw [hwho, hstorage]
    rfl
  · rw [hstorage]
    exact le_rfl
  · rw [hstorage]
    rfl

theorem totalContributed_refunded {contributions : StorageMap A U64} {creator : A}
    {taken : List (A × U64)} (htaken : taken <+: otherContributions contributions creator) :
    totalContributed ((taken.map Prod.fst).foldl (fun contributions who =>
        contributions.erase who) contributions) + (taken.map fun e => e.2.val).sum =
      totalContributed contributions ∧
    ((taken.map Prod.fst).foldl (fun contributions who => contributions.erase who)
        contributions).keys.length + taken.length = contributions.keys.length := by
  have hstored : ∀ e ∈ taken, contributions.lookup e.1 = some e.2 :=
    fun e he => (mem_otherContributions (htaken.subset he)).1
  have hnodup : (taken.map Prod.fst).Nodup :=
    (nodup_otherContributions _ _).sublist (htaken.sublist.map Prod.fst)
  refine ⟨StorageMap.sumBy_foldl_erase _ taken _ hnodup hstored, ?_⟩
  have hlength := StorageMap.sumBy_foldl_erase (fun _ _ => 1) taken _ hnodup hstored
  rw [StorageMap.sumBy_one, StorageMap.sumBy_one, List.map_const', List.sum_replicate,
    smul_eq_mul, mul_one] at hlength
  exact hlength

theorem Balanced.covers {crowdloan : CrowdloanInfo A C} {contributions : StorageMap A U64}
    (hbalanced : Balanced id crowdloan contributions) {taken : List (A × U64)}
    (htaken : taken <+: otherContributions contributions crowdloan.creator) :
    (taken.map fun e => e.2.val).sum ≤ crowdloan.raised.val := by
  rw [hbalanced.raised, ← (totalContributed_refunded htaken).1]
  exact Nat.le_add_left _ _

/-- The entry agrees with the contributions that a refund leaves. -/
theorem Balanced.refunded {crowdloan : CrowdloanInfo A C} {contributions : StorageMap A U64}
    (hbalanced : Balanced id crowdloan contributions) {taken : List (A × U64)}
    (htaken : taken <+: otherContributions contributions crowdloan.creator) {raised : U64}
    {count : U32}
    (hraised : raised.val = crowdloan.raised.val - (taken.map fun e => e.2.val).sum)
    (hcount : count.val + taken.length = crowdloan.contributorsCount.val) :
    Balanced id { crowdloan with raised := raised, contributorsCount := count }
      ((taken.map Prod.fst).foldl (fun contributions who => contributions.erase who)
        contributions) := by
  obtain ⟨hsum, hlength⟩ := totalContributed_refunded htaken
  have hold := hbalanced.raised
  have holdCount := hbalanced.contributorsCount
  refine ⟨?_, ?_, ?_, ?_, hbalanced.fundsAccount⟩
  · dsimp only
    omega
  · dsimp only
    omega
  · rw [StorageMap.lookup_foldl_erase, if_neg]
    · exact hbalanced.deposit
    · intro hmem
      obtain ⟨e, he, heq⟩ := List.mem_map.mp hmem
      exact (mem_otherContributions (htaken.subset he)).2 heq
  · have hcap := hbalanced.cap
    dsimp only
    omega

theorem refund_accounts (hbooks : Accounts closed exempt storage)
    (h : refund cfg now storage id = .ok storage') : Accounts closed exempt storage' := by
  obtain ⟨crowdloan, taken, raised, count, hcrowdloan, hopen, -, htaken, -, hraised, hcount,
    hfree, hwrites⟩ := refund_ok hbooks.own h
  have hbalanced := hbooks.balanced hcrowdloan (.inr hopen)
  have hcovers := hbalanced.covers htaken
  have hid := hbooks.lt_next hcrowdloan
  refine hbooks.of_writes hwrites (hid.trans_le hwrites.next) ?_ ?_ ?_
  · rintro info ⟨⟩
    exact hbalanced.fundsAccount
  · rintro info ⟨⟩ -
    exact hbalanced.refunded htaken hraised hcount
  · rintro info ⟨⟩ hopen hexempt
    have hfunded := hbooks.funded hcrowdloan hopen hexempt
    dsimp only
    omega

/-! ### Dissolution and updates -/

theorem dissolve_ok (hown : OwnFunds storage)
    (h : dissolve storage who id = .ok storage') :
    ∃ crowdloan, storage.crowdloans id = some crowdloan ∧ who = crowdloan.creator ∧
      Writes storage storage' id none ((storage.contributions id).erase crowdloan.creator) := by
  unfold dissolve at h
  simp only [bind_eq_ok, ensure_eq_ok, orError_eq_ok, ensureCrowdloanExists_eq_ok,
    exists_const] at h
  obtain ⟨crowdloan, hcrowdloan, -, hcreator, amount, -, -, storage₁, htransfer, h⟩ := h
  rw [hown id crowdloan hcrowdloan] at htransfer
  obtain ⟨balances, hbalances, rfl⟩ := transfer_ok htransfer
  have hpaid := free_of_payout storage hbalances (by rintro ⟨⟩)
  cases h
  exact ⟨crowdloan, hcrowdloan, hcreator, ⟨rfl, rfl, hpaid.2.2, le_rfl, rfl⟩⟩

theorem dissolve_accounts (hbooks : Accounts closed exempt storage)
    (h : dissolve storage who id = .ok storage') : Accounts closed exempt storage' := by
  obtain ⟨crowdloan, hcrowdloan, -, hwrites⟩ := dissolve_ok hbooks.own h
  have hid := hbooks.lt_next hcrowdloan
  refine hbooks.of_writes hwrites (hid.trans_le hwrites.next) ?_ ?_ ?_
  · rintro info ⟨⟩
  · rintro info ⟨⟩
  · rintro info ⟨⟩

theorem updateCrowdloan_ok {check : CrowdloanInfo A C → Except Error Unit}
    {change : CrowdloanInfo A C → CrowdloanInfo A C}
    (h : updateCrowdloan storage who id check change = .ok storage') :
    ∃ crowdloan, storage.crowdloans id = some crowdloan ∧ crowdloan.finalized = false ∧
      who = crowdloan.creator ∧ check crowdloan = .ok () ∧ storage'.balances = storage.balances ∧
      Writes storage storage' id (some (change crowdloan)) (storage.contributions id) := by
  unfold updateCrowdloan at h
  simp only [bind_eq_ok, ensure_eq_ok, ensureCrowdloanExists_eq_ok, exists_const] at h
  obtain ⟨crowdloan, hcrowdloan, hopen, hcreator, _, hcheck, h⟩ := h
  cases h
  exact ⟨crowdloan, hcrowdloan, hopen, hcreator, hcheck, rfl,
    ⟨rfl, (Function.update_eq_self _ _).symm, fun _ _ => le_rfl, le_rfl, rfl⟩⟩

/-- An update that leaves what was raised keeps the books. -/
theorem updateCrowdloan_accounts (hbooks : Accounts closed exempt storage)
    {check : CrowdloanInfo A C → Except Error Unit}
    {change : CrowdloanInfo A C → CrowdloanInfo A C}
    (hchange : ∀ crowdloan contributions, check crowdloan = .ok () →
      Balanced id crowdloan contributions → Balanced id (change crowdloan) contributions)
    (hraised : ∀ crowdloan, (change crowdloan).raised = crowdloan.raised)
    (h : updateCrowdloan storage who id check change = .ok storage') :
    Accounts closed exempt storage' := by
  obtain ⟨crowdloan, hcrowdloan, hopen, -, hcheck, hbalances, hwrites⟩ := updateCrowdloan_ok h
  have hid := hbooks.lt_next hcrowdloan
  have hbalanced := hchange crowdloan _ hcheck (hbooks.balanced hcrowdloan (.inr hopen))
  refine hbooks.of_writes hwrites (hid.trans_le hwrites.next) ?_ ?_ ?_
  · rintro info ⟨⟩
    exact hbalanced.fundsAccount
  · rintro info ⟨⟩ -
    exact hbalanced
  · rintro info ⟨⟩ - hexempt
    have hfunded := hbooks.funded hcrowdloan hopen hexempt
    unfold Storage.free at hfunded ⊢
    rw [hraised, hbalances]
    exact hfunded

/-- No call but `finalize` breaks the accounts. -/
theorem runCall_accounts (hbooks : Accounts closed exempt storage) {call : Call A C}
    (h : runCall cfg now storage call = .ok storage') : Accounts closed exempt storage' := by
  cases call with
  | create creator deposit minContribution cap endBlock call targetAddress =>
      exact create_accounts hbooks h
  | contribute contributor id amount => exact contribute_accounts hbooks h
  | withdraw who id => exact withdraw_accounts hbooks h
  | refund id => exact refund_accounts hbooks h
  | dissolve who id => exact dissolve_accounts hbooks h
  | updateMinContribution who id newMinContribution =>
      refine updateCrowdloan_accounts hbooks ?_ ?_ h
      · rintro crowdloan contributions - ⟨hraised, hcount, hdeposit, hcap, hfunds⟩
        exact ⟨hraised, hcount, hdeposit, hcap, hfunds⟩
      · exact fun _ => rfl
  | updateEnd who id newEnd =>
      refine updateCrowdloan_accounts hbooks ?_ ?_ h
      · rintro crowdloan contributions - ⟨hraised, hcount, hdeposit, hcap, hfunds⟩
        exact ⟨hraised, hcount, hdeposit, hcap, hfunds⟩
      · exact fun _ => rfl
  | updateCap who id newCap =>
      refine updateCrowdloan_accounts hbooks ?_ ?_ h
      · rintro crowdloan contributions hcheck ⟨hraised, hcount, hdeposit, -, hfunds⟩
        exact ⟨hraised, hcount, hdeposit, ensure_eq_ok.mp hcheck, hfunds⟩
      · exact fun _ => rfl

theorem runCall_books (hbooks : Books exempt storage) {call : Call A C}
    (h : runCall cfg now storage call = .ok storage') : Books exempt storage' :=
  books_iff.mpr (runCall_accounts (books_iff.mp hbooks) h)

/-! ## Finalization -/

/-- A successful `finalize` pays, dispatches, and writes back. -/
theorem finalize_ok {dispatch : C → Storage A C → Except Error (Storage A C)}
    (h : finalize now dispatch storage who id = .ok storage') :
    ∃ crowdloan paid after, storage.crowdloans id = some crowdloan ∧ who = crowdloan.creator ∧
      crowdloan.endBlock.val ≤ now.val ∧ crowdloan.finalized = false ∧
      payTarget storage crowdloan = .ok paid ∧
      dispatchCall dispatch paid id crowdloan.call = .ok after ∧
      storage' = after.insertCrowdloan id { crowdloan with finalized := true } := by
  unfold finalize at h
  simp only [bind_eq_ok, ensure_eq_ok, ensureCrowdloanExists_eq_ok, exists_const] at h
  obtain ⟨crowdloan, hcrowdloan, hcreator, hend, -, hopen, paid, hpaid, after, hafter, h⟩ := h
  cases h
  exact ⟨crowdloan, paid, after, hcrowdloan, hcreator, hend, hopen, hpaid, hafter, rfl⟩

omit [DecidableEq A] in
theorem dispatchCall_ok {dispatch : C → Storage A C → Except Error (Storage A C)}
    {call : Option C} (h : dispatchCall dispatch storage id call = .ok storage') :
    (call = none ∧ storage' = storage) ∨
      ∃ stored after, call = some stored ∧
        dispatch stored { storage with currentCrowdloanId := some id } = .ok after ∧
        storage' = { after with currentCrowdloanId := none } := by
  cases call with
  | none =>
      cases h
      exact .inl ⟨rfl, rfl⟩
  | some call =>
      unfold dispatchCall at h
      obtain ⟨after, hafter, h⟩ := bind_eq_ok.mp h
      cases h
      exact .inr ⟨call, after, rfl, hafter, rfl⟩

theorem payTarget_ok {crowdloan : CrowdloanInfo A C} {paid : Storage A C}
    (hfunds : crowdloan.fundsAccount = .funds id) (h : payTarget storage crowdloan = .ok paid) :
    (∀ other ≠ id, storage.free (.funds other) ≤ paid.free (.funds other)) ∧
      ∃ balances, paid = { storage with balances := balances } := by
  unfold payTarget at h
  split at h
  · cases h
    exact ⟨fun _ _ => le_rfl, _, rfl⟩
  · rw [hfunds] at h
    obtain ⟨balances, hbalances, rfl⟩ := transfer_ok h
    refine ⟨?_, balances, rfl⟩
    intro other hother
    refine Balances.free_le_of_transfer hbalances ?_
    rintro ⟨⟩
    exact hother rfl

/-- The books when the stored call is dispatched: the funds of the crowdloan
may be gone. -/
theorem payTarget_accounts (hbooks : Accounts closed exempt storage)
    {crowdloan : CrowdloanInfo A C} {paid : Storage A C}
    (hcrowdloan : storage.crowdloans id = some crowdloan)
    (h : payTarget storage crowdloan = .ok paid) :
    Accounts closed (id :: exempt) { paid with currentCrowdloanId := some id } := by
  obtain ⟨hothers, balances, rfl⟩ := payTarget_ok (hbooks.own id crowdloan hcrowdloan) h
  refine ⟨hbooks.own, hbooks.balanced, ?_, hbooks.fresh, ?_⟩
  · intro other info hinfo hopen hexempt
    obtain ⟨hne, hexempt⟩ := not_or.mp (mt List.mem_cons.mpr hexempt)
    exact (hbooks.funded hinfo hopen hexempt).trans (hothers other hne)
  · rintro other ⟨⟩
    exact List.mem_cons_self

/-- The books after the entry is written back, if it still agrees with the
contributions. -/
theorem finalized_accounts (hbooks : Accounts closed (id :: exempt) storage)
    {crowdloan : CrowdloanInfo A C} (hid : id.val < storage.nextCrowdloanId.val)
    (hown : crowdloan.fundsAccount = .funds id)
    (hbalanced : closed → Balanced id crowdloan (storage.contributions id))
    (current : Option CrowdloanId) (hcurrent : ∀ other, current = some other → other ∈ exempt) :
    Accounts closed exempt (Storage.insertCrowdloan
      { storage with currentCrowdloanId := current } id { crowdloan with finalized := true }) where
  own := by
    intro other info hinfo
    by_cases heq : other = id
    · subst heq
      cases (Function.update_self _ _ _).symm.trans hinfo
      exact hown
    · exact hbooks.own other info ((Function.update_of_ne heq _ _).symm.trans hinfo)
  balanced := by
    intro other info hinfo hkept
    by_cases heq : other = id
    · subst heq
      cases (Function.update_self _ _ _).symm.trans hinfo
      have hbalanced := hbalanced (hkept.resolve_right (by rintro ⟨⟩))
      exact ⟨hbalanced.raised, hbalanced.contributorsCount, hbalanced.deposit, hbalanced.cap,
        hbalanced.fundsAccount⟩
    · exact hbooks.balanced ((Function.update_of_ne heq _ _).symm.trans hinfo) hkept
  funded := by
    intro other info hinfo hopen hexempt
    by_cases heq : other = id
    · subst heq
      cases (Function.update_self _ _ _).symm.trans hinfo
      cases hopen
    · exact hbooks.funded ((Function.update_of_ne heq _ _).symm.trans hinfo) hopen
        fun hmem => (List.mem_cons.mp hmem).elim heq hexempt
  fresh := by
    intro other hle
    have hne : other ≠ id := by
      rintro rfl
      exact absurd hle (not_le.mpr hid)
    obtain ⟨hnone, hempty⟩ := hbooks.fresh hle
    exact ⟨(Function.update_of_ne hne _ _).trans hnone, hempty⟩
  current := hcurrent _

theorem payTarget_books (hbooks : Books exempt storage) {crowdloan : CrowdloanInfo A C}
    {paid : Storage A C} (hcrowdloan : storage.crowdloans id = some crowdloan)
    (h : payTarget storage crowdloan = .ok paid) :
    Books (id :: exempt) { paid with currentCrowdloanId := some id } :=
  books_iff.mpr (payTarget_accounts (books_iff.mp hbooks) hcrowdloan h)

theorem finalized_books (hbooks : Books (id :: exempt) storage)
    {crowdloan : CrowdloanInfo A C} (hid : id.val < storage.nextCrowdloanId.val)
    (hbalanced : Balanced id crowdloan (storage.contributions id)) (current : Option CrowdloanId)
    (hcurrent : ∀ other, current = some other → other ∈ exempt) :
    Books exempt (Storage.insertCrowdloan { storage with currentCrowdloanId := current } id
      { crowdloan with finalized := true }) :=
  books_iff.mpr (finalized_accounts (books_iff.mp hbooks) hid hbalanced.fundsAccount
    (fun _ => hbalanced) current hcurrent)

theorem Books.lt_next (hbooks : Books exempt storage) {info : CrowdloanInfo A C}
    (h : storage.crowdloans id = some info) : id.val < storage.nextCrowdloanId.val :=
  (books_iff.mp hbooks).lt_next h

/-! ## Runs -/

theorem runExternal_accounts (hbooks : Accounts closed exempt storage) (effect : External A) :
    Accounts closed exempt (runExternal storage effect) where
  own := hbooks.own
  balanced := hbooks.balanced
  funded := by
    intro other info hinfo hopen hexempt
    have hcurrent : storage.currentCrowdloanId ≠ some other :=
      fun hcurrent => hexempt (hbooks.current hcurrent)
    show info.raised.val ≤ storage.free (.funds other) + effect.received other -
      if storage.currentCrowdloanId = some other then effect.spent else 0
    rw [if_neg hcurrent]
    exact (hbooks.funded hinfo hopen hexempt).trans (Nat.le_add_right _ _)
  fresh := hbooks.fresh
  current := hbooks.current

theorem runExternal_books (hbooks : Books exempt storage) (effect : External A) :
    Books exempt (runExternal storage effect) :=
  books_iff.mpr (runExternal_accounts (books_iff.mp hbooks) effect)

theorem runExternals_books (hbooks : Books exempt storage) (effects : List (External A)) :
    Books exempt (effects.foldl runExternal storage) := by
  induction effects generalizing storage with
  | nil => exact hbooks
  | cons effect rest ih => exact ih (runExternal_books hbooks effect)

end

omit [DecidableEq A] in
theorem runExternals_frame (storage : Storage A C) (effects : List (External A)) :
    (effects.foldl runExternal storage).crowdloans = storage.crowdloans ∧
      (effects.foldl runExternal storage).contributions = storage.contributions := by
  induction effects generalizing storage with
  | nil => exact ⟨rfl, rfl⟩
  | cons effect rest ih => exact ih (runExternal storage effect)

/-- A dispatched call that has nothing to do with this pallet, or fails. -/
def dispatchExternal (effects : Option (List (External A))) (_ : C) (storage : Storage A C) :
    Except Error (Storage A C) :=
  match effects with
  | none => .error .dispatchFailed
  | some effects => .ok (effects.foldl runExternal storage)

/-- A step of the chain; `finalize` dispatches a call that leaves this pallet
alone. -/
inductive Step (A C : Type) where
  | call (now : BlockNumber) (call : Call A C)
  | finalize (now : BlockNumber) (who : A) (id : CrowdloanId)
      (dispatched : Option (List (External A)))
  | external (effect : External A)

/-- A call that fails is rolled back. -/
def apply (cfg : Config) (storage : Storage A C) : Step A C → Storage A C
  | .call now call => (runCall cfg now storage call).toOption.getD storage
  | .finalize now who id dispatched =>
      (finalize now (dispatchExternal dispatched) storage who id).toOption.getD storage
  | .external effect => runExternal storage effect

theorem finalizeExternal_books {now : BlockNumber} {exempt : List CrowdloanId}
    {storage storage' : Storage A C} {who : A} {id : CrowdloanId}
    {effects : Option (List (External A))} (hbooks : Books exempt storage)
    (h : finalize now (dispatchExternal effects) storage who id = .ok storage') :
    Books exempt storage' := by
  obtain ⟨crowdloan, paid, after, hcrowdloan, -, -, -, hpaid, hafter, rfl⟩ := finalize_ok h
  have hbalanced := hbooks.balanced hcrowdloan
  have hid := hbooks.lt_next hcrowdloan
  have hstart := payTarget_books hbooks hcrowdloan hpaid
  obtain ⟨-, balances, rfl⟩ := payTarget_ok hbalanced.fundsAccount hpaid
  rcases dispatchCall_ok hafter with ⟨-, rfl⟩ | ⟨call, dispatched, -, hdispatch, rfl⟩
  · exact finalized_books hstart hid hbalanced storage.currentCrowdloanId
      fun _ => hbooks.current
  · cases effects with
    | none => cases hdispatch
    | some effects =>
        cases hdispatch
        have hrun := runExternals_books hstart effects
        have hframe := runExternals_frame (A := A) (C := C)
          { storage with balances := balances, currentCrowdloanId := some id } effects
        refine finalized_books hrun ?_ ?_ none ?_
        · exact hrun.lt_next ((congrFun hframe.1 id).trans hcrowdloan)
        · rw [hframe.2]
          exact hbalanced
        · rintro other ⟨⟩

theorem apply_books {cfg : Config} {storage : Storage A C} (hbooks : Books [] storage)
    (step : Step A C) : Books [] (apply cfg storage step) := by
  cases step with
  | call now call =>
      cases h : runCall cfg now storage call with
      | error e => rwa [apply, h]
      | ok storage' =>
          rw [apply, h]
          exact runCall_books hbooks h
  | finalize now who id dispatched =>
      cases h : finalize now (dispatchExternal dispatched) storage who id with
      | error e => rwa [apply, h]
      | ok storage' =>
          rw [apply, h]
          exact finalizeExternal_books hbooks h
  | external effect => exact runExternal_books hbooks effect

theorem genesis_books (free : A → ℕ) :
    Books [] (Storage.genesis free : Storage A C) := by
  refine ⟨?_, ?_, fun _ => ⟨rfl, rfl⟩, ?_⟩
  · rintro id crowdloan ⟨⟩
  · rintro id crowdloan ⟨⟩
  · rintro id ⟨⟩

/-- **The accounts of crowdloans are exact in every run.** Whatever is called
by whomever in whatever block: what is raised is the sum of the
contributions, their number is counted, the creator's covers the deposit,
nothing exceeds the cap, and what is raised is there until the end. -/
theorem books_run (cfg : Config) (free : A → ℕ) (steps : List (Step A C)) :
    AllStates (apply cfg) (Books []) (Storage.genesis free) steps :=
  allStates_of_step (p := Books []) (fun _ step hbooks => apply_books hbooks step)
    (genesis_books free) steps

end Subtensor.Crowdloan
