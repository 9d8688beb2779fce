import Subtensor.Crowdloan.Accounting

/-!
# The refund of a crowdloan

After its end a crowdloan that is not finalized is settled: anyone may refund
the contributors in batches, and every contributor may withdraw. Whatever the
order of these calls and of the storage, a contribution is paid out in one of
them and exactly once. When the batches are through, the creator gets the rest
and the crowdloan is gone.
-/

namespace Subtensor.Crowdloan

open Lib Run Storage

variable {A C : Type} [DecidableEq A]

/-- An open crowdloan whose entry agrees with its contributions, and whose
funds are there. -/
structure Refundable (id : CrowdloanId) (crowdloan : CrowdloanInfo A C)
    (storage : Storage A C) : Prop where
  stored : storage.crowdloans id = some crowdloan
  opened : crowdloan.finalized = false
  balanced : Balanced id crowdloan (storage.contributions id)
  funded : crowdloan.raised.val ≤ storage.free (.funds id)

/-- A call that settles a crowdloan: a refund in some block, or a withdrawal. -/
inductive Settlement (A : Type) where
  | refund (now : BlockNumber)
  | withdraw (who : A)

/-- A call that fails is rolled back. -/
def settle (cfg : Config) (id : CrowdloanId) (storage : Storage A C) :
    Settlement A → Storage A C
  | .refund now => (refund cfg now storage id).toOption.getD storage
  | .withdraw who => (withdraw storage who id).toOption.getD storage

def refundCalls : List (Settlement A) → ℕ
  | [] => 0
  | .refund _ :: rest => refundCalls rest + 1
  | .withdraw _ :: rest => refundCalls rest

/-- What a crowdloan owes an account. -/
def owed (storage : Storage A C) (id : CrowdloanId) (who : A) : ℕ :=
  ((storage.contributions id).lookup who).elim 0 Word.val

/-- The amounts by which the balance of an account grows in the steps of a run,
without the steps in which it does not. -/
def receipts (cfg : Config) (id : CrowdloanId) (who : A) :
    Storage A C → List (Settlement A) → List ℕ
  | _, [] => []
  | storage, step :: rest =>
      let next := settle cfg id storage step
      let received := next.free (.user who) - storage.free (.user who)
      if received = 0 then receipts cfg id who next rest
      else received :: receipts cfg id who next rest

/-- The number of contributors other than the creator. -/
def otherContributors (storage : Storage A C) (id : CrowdloanId) (creator : A) : ℕ :=
  (otherContributions (storage.contributions id) creator).length

theorem Books.refundable {storage : Storage A C} (hbooks : Books [] storage) {id : CrowdloanId}
    {crowdloan : CrowdloanInfo A C} (h : storage.crowdloans id = some crowdloan)
    (hopen : crowdloan.finalized = false) : Refundable id crowdloan storage :=
  ⟨h, hopen, hbooks.balanced h, hbooks.funded h hopen List.not_mem_nil⟩

/-! ## Contributions of others -/

theorem mem_otherContributions_iff {contributions : StorageMap A U64} {creator who : A}
    {amount : U64} : (who, amount) ∈ otherContributions contributions creator ↔
      contributions.lookup who = some amount ∧ who ≠ creator := by
  constructor
  · intro h
    exact mem_otherContributions h
  · rintro ⟨hlookup, hne⟩
    refine List.mem_filter.mpr ⟨List.mem_map.mpr ⟨⟨who, amount⟩, ?_, rfl⟩, decide_eq_true hne⟩
    exact StorageMap.mem_entries_iff.mpr hlookup

/-- The creator is one of the contributors, and counted once. -/
theorem Balanced.length_otherContributions {id : CrowdloanId} {crowdloan : CrowdloanInfo A C}
    {contributions : StorageMap A U64} (h : Balanced id crowdloan contributions) :
    (otherContributions contributions crowdloan.creator).length + 1 =
      contributions.keys.length := by
  obtain ⟨amount, hamount, -⟩ := h.deposit
  have hmem : crowdloan.creator ∈ contributions.keys := by
    rw [← AList.mem_keys]
    exact AList.lookup_isSome.mp (by rw [hamount]; rfl)
  have hkeys : (otherContributions contributions crowdloan.creator).map Prod.fst =
      contributions.keys.erase crowdloan.creator := by
    rw [contributions.keys_nodup.erase_eq_filter]
    unfold otherContributions AList.keys List.keys
    rw [List.filter_map, List.filter_map, List.map_map]
    congr 1
    apply List.filter_congr
    intro e _
    by_cases hcreator : e.1 = crowdloan.creator
    · simp [hcreator]
    · simp [hcreator]
  rw [← List.length_map Prod.fst, hkeys, List.length_erase_of_mem hmem]
  exact Nat.sub_add_cancel (List.length_pos_of_mem hmem)

/-! ## Payments -/

/-- What a list of payments has for an account. -/
def received (entries : List (A × U64)) (who : A) : ℕ :=
  ((entries.filter fun e => e.1 = who).map fun e => e.2.val).sum

theorem received_cons (e : A × U64) (rest : List (A × U64)) (who : A) :
    received (e :: rest) who = (if who = e.1 then e.2.val else 0) + received rest who := by
  unfold received
  by_cases heq : who = e.1
  · simp [heq]
  · simp [heq, Ne.symm heq]

theorem received_eq_zero {entries : List (A × U64)} {who : A} (h : who ∉ entries.map Prod.fst) :
    received entries who = 0 := by
  induction entries with
  | nil => rfl
  | cons e rest ih =>
      obtain ⟨hne, hrest⟩ := not_or.mp (mt List.mem_cons.mpr h)
      rw [received_cons, if_neg hne, ih hrest]

/-- An account that is listed once receives what stands beside it. -/
theorem received_eq {entries : List (A × U64)} {who : A} {amount : U64}
    (hnodup : (entries.map Prod.fst).Nodup) (hmem : (who, amount) ∈ entries) :
    received entries who = amount.val := by
  induction entries with
  | nil => cases hmem
  | cons e rest ih =>
      obtain ⟨hfirst, hrest⟩ := List.nodup_cons.mp hnodup
      rw [received_cons]
      rcases List.mem_cons.mp hmem with rfl | hmem
      · rw [if_pos rfl, received_eq_zero hfirst, Nat.add_zero]
      · have hne : who ≠ e.1 := by
          rintro rfl
          exact hfirst (List.mem_map.mpr ⟨_, hmem, rfl⟩)
        rw [if_neg hne, Nat.zero_add, ih hrest hmem]

section

variable {cfg : Config} {now : BlockNumber} {storage storage' : Storage A C} {id : CrowdloanId}
  {crowdloan : CrowdloanInfo A C} {who : A}

theorem transfer_of_le {source : Account A} (dest : Account A) {amount : U64}
    (h : amount.val ≤ storage.free source) :
    ∃ balances, storage.balances.transfer source dest amount.val = some balances ∧
      storage.transfer source dest amount = .ok { storage with balances := balances } := by
  obtain ⟨balances, hbalances⟩ := Balances.exists_transfer dest h
  refine ⟨balances, hbalances, ?_⟩
  unfold Storage.transfer
  rw [hbalances]

theorem users_of_payout (storage : Storage A C) {balances : Balances (Account A)} {amount : ℕ}
    (h : storage.balances.transfer (.funds id) (.user who) amount = some balances) (other : A) :
    balances.free (.user other) =
      storage.free (.user other) + if other = who then amount else 0 := by
  rw [Balances.free_of_transfer h (by rintro ⟨⟩)]
  by_cases heq : other = who
  · subst heq
    rw [Function.update_self, if_pos rfl]
    rfl
  · rw [Function.update_of_ne (by rintro ⟨⟩; exact heq rfl),
      Function.update_of_ne (by rintro ⟨⟩), if_neg heq]
    rfl

/-! ## Batches -/

theorem checkedAdd_one_of_lt {count limit : U32} (h : count.val < limit.val) :
    ∃ next, count.checkedAdd (.sat 1) = some next ∧ next.val = count.val + 1 := by
  have hlt : count.val + (Word.sat 1 : U32).val < 2 ^ 32 :=
    (Nat.succ_le_of_lt h).trans_lt limit.isLt
  exact ⟨⟨_, hlt⟩, dif_pos hlt, rfl⟩

/-- The loop of a refund that is covered runs through, and takes the first
contributions up to the limit. -/
theorem refundLoop_take (limit : U32) {entries : List (A × U64)} (before : Refunds A C)
    (hcovered : (entries.map fun e => e.2.val).sum ≤ before.storage.free (.funds id)) :
    ∃ after, refundLoop limit (.funds id) entries before = .ok after ∧
      Refunded id before after (entries.take (limit.val - before.refundCount.val)) ∧
      ∀ who, after.storage.free (.user who) = before.storage.free (.user who) +
        received (entries.take (limit.val - before.refundCount.val)) who := by
  induction entries generalizing before with
  | nil =>
      rw [List.take_nil]
      exact ⟨before, rfl, Refunded.nil id before, fun _ => rfl⟩
  | cons e rest ih =>
      rw [List.map_cons, List.sum_cons] at hcovered
      unfold refundLoop
      by_cases hlimit : limit.val ≤ before.refundCount.val
      · rw [if_pos hlimit, Nat.sub_eq_zero_of_le hlimit, List.take_zero]
        exact ⟨before, rfl, Refunded.nil id before, fun _ => rfl⟩
      · obtain ⟨balances, hbalances, htransfer⟩ :=
          transfer_of_le (.user e.1) ((Nat.le_add_right _ _).trans hcovered)
        obtain ⟨count, hadd, hcount⟩ := checkedAdd_one_of_lt (not_le.mp hlimit)
        obtain ⟨-, hfree, -⟩ := free_of_payout before.storage hbalances (by rintro ⟨⟩)
        obtain ⟨after, hafter, hrest, husers⟩ := ih ⟨{ before.storage with
          balances := balances }, before.raised.satSub e.2,
            before.refundedContributors ++ [e.1], count⟩ (by
              show _ ≤ balances.free (.funds id)
              omega)
        have htake : limit.val - before.refundCount.val = (limit.val - count.val) + 1 := by
          omega
        rw [if_neg hlimit, htransfer, ok_bind, hadd]
        rw [htake, List.take_succ_cons]
        refine ⟨after, hafter, Refunded.cons hbalances hcount hrest, ?_⟩
        intro other
        rw [husers other, received_cons, ← Nat.add_assoc]
        exact congrArg (· + _) (users_of_payout before.storage hbalances other)

/-- What a call leaves that pays users out of the funds: the contributions that
remain, and what every user has received. -/
structure Pays (id : CrowdloanId) (crowdloan : CrowdloanInfo A C) (storage : Storage A C)
    (rest : StorageMap A U64) (paid : A → ℕ) (storage' : Storage A C) : Prop where
  refundable : ∃ raised count,
    Refundable id { crowdloan with raised := raised, contributorsCount := count } storage'
  contributions : storage'.contributions id = rest
  users : ∀ who, storage'.free (.user who) = storage.free (.user who) + paid who

/-- A refund succeeds, and pays the first contributors that the limit allows. -/
theorem refund_pays (h : Refundable id crowdloan storage)
    (hended : crowdloan.endBlock.val ≤ now.val) {taken : List (A × U64)}
    (htaken : taken = (otherContributions (storage.contributions id) crowdloan.creator).take
      cfg.refundContributorsLimit.val) :
    ∃ storage', refund cfg now storage id = .ok storage' ∧
      Pays id crowdloan storage ((taken.map Prod.fst).foldl (fun contributions who =>
        contributions.erase who) (storage.contributions id)) (received taken) storage' := by
  have hlengths := h.balanced.length_otherContributions
  have hcount := h.balanced.contributorsCount
  obtain ⟨refunds, hloop, hrefunded, husers⟩ := refundLoop_take cfg.refundContributorsLimit
    (⟨storage, crowdloan.raised, [], 0⟩ : Refunds A C)
    ((h.balanced.covers List.prefix_rfl).trans h.funded)
  have hlimit : cfg.refundContributorsLimit.val - (0 : U32).val =
    cfg.refundContributorsLimit.val := rfl
  rw [hlimit, ← htaken] at hrefunded husers
  have hprefix : taken <+: otherContributions (storage.contributions id) crowdloan.creator :=
    htaken ▸ List.take_prefix _ _
  have hlength := hprefix.length_le
  have hrefundCount : refunds.refundCount.val = taken.length :=
    hrefunded.refundCount.trans (Nat.zero_add _)
  have hwho : refunds.refundedContributors = taken.map Prod.fst :=
    hrefunded.refundedContributors.trans (List.nil_append _)
  have hsub : crowdloan.contributorsCount.checkedSub refunds.refundCount =
      some (crowdloan.contributorsCount.satSub refunds.refundCount) :=
    if_pos (by omega)
  have hrest : (crowdloan.contributorsCount.satSub refunds.refundCount).val + taken.length =
      crowdloan.contributorsCount.val := by
    rw [Word.val_satSub]
    omega
  have hbalanced := h.balanced.refunded hprefix hrefunded.raised hrest
  refine ⟨(refunds.storage.insertCrowdloan id { crowdloan with
    raised := refunds.raised
    contributorsCount := crowdloan.contributorsCount.satSub refunds.refundCount
    }).setContributions id _, ?_,
    ⟨refunds.raised, crowdloan.contributorsCount.satSub refunds.refundCount,
      Function.update_self _ _ _, h.opened, ?_, ?_⟩, Function.update_self _ _ _, husers⟩
  · unfold refund
    rw [ensureCrowdloanExists_eq_ok.mpr h.stored, ok_bind, ensure, if_pos hended, ok_bind, ensure,
      if_pos h.opened, ok_bind, h.balanced.fundsAccount, hloop, ok_bind, hsub, hwho]
    rfl
  · show Balanced id _ (Function.update refunds.storage.contributions id _ id)
    rw [Function.update_self]
    exact hbalanced
  · have hfree := hrefunded.free
    have hraised := hrefunded.raised
    have hfunded := h.funded
    show refunds.raised.val ≤ refunds.storage.free (.funds id)
    dsimp only at hfree hraised
    omega

theorem withdraw_pays (h : Refundable id crowdloan storage)
    (hwithdraw : withdraw storage who id = .ok storage') :
    ∃ amount taken rest count, (storage.contributions id).lookup who = some amount ∧
      takeContribution crowdloan (storage.contributions id) who amount =
        .ok (taken, rest, count) ∧
      Pays id crowdloan storage rest (fun other => if other = who then taken.val else 0)
        storage' := by
  unfold withdraw at hwithdraw
  simp only [bind_eq_ok, ensure_eq_ok, ensureCrowdloanExists_eq_ok, exists_const] at hwithdraw
  obtain ⟨info, hinfo, -, hpositive, ⟨taken, rest, count⟩, htake, storage₁, htransfer,
    hwithdraw⟩ := hwithdraw
  cases h.stored.symm.trans hinfo
  have hlookup := lookup_of_positive hpositive
  obtain ⟨-, -, -, hbalanced⟩ := takeContribution_ok h.balanced hlookup hpositive htake
  rw [h.balanced.fundsAccount] at htransfer
  obtain ⟨balances, hbalances, rfl⟩ := transfer_ok htransfer
  obtain ⟨-, hfunds, -⟩ := free_of_payout (storage.setContributions id rest) hbalances
    (by rintro ⟨⟩)
  cases hwithdraw
  refine ⟨_, taken, rest, count, hlookup, htake,
    ⟨_, count, Function.update_self _ _ _, h.opened, ?_, ?_⟩, Function.update_self _ _ _, ?_⟩
  · show Balanced id _ (Function.update storage.contributions id rest id)
    rw [Function.update_self]
    exact hbalanced
  · show (crowdloan.raised.satSub taken).val ≤ balances.free (.funds id)
    rw [Word.val_satSub, hfunds]
    exact Nat.sub_le_sub_right h.funded _
  · exact users_of_payout (storage.setContributions id rest) hbalances

/-! ## Steps -/

/-- What has become of the contributions: those of others stand or are paid
out, and the creator has or is owed as much as before. -/
structure Settled (id : CrowdloanId) (creator : A) (start state : Storage A C) : Prop where
  others : ∀ who ≠ creator,
    ((state.contributions id).lookup who = (start.contributions id).lookup who ∧
      state.free (.user who) = start.free (.user who)) ∨
    ((state.contributions id).lookup who = none ∧
      state.free (.user who) = start.free (.user who) + owed start id who)
  creator : state.free (.user creator) + owed state id creator =
    start.free (.user creator) + owed start id creator

theorem Settled.refl (id : CrowdloanId) (creator : A) (state : Storage A C) :
    Settled id creator state state :=
  ⟨fun _ _ => .inl ⟨rfl, rfl⟩, rfl⟩

/-- The first contributors are paid, and nobody else is. -/
theorem refund_settled {taken : List (A × U64)}
    (htaken : taken <+: otherContributions (storage.contributions id) crowdloan.creator)
    (hpays : Pays id crowdloan storage ((taken.map Prod.fst).foldl (fun contributions who =>
      contributions.erase who) (storage.contributions id)) (received taken) storage') :
    Settled id crowdloan.creator storage storage' := by
  have hnodup := (nodup_otherContributions (storage.contributions id)
    crowdloan.creator).sublist (htaken.sublist.map Prod.fst)
  have hnot : ∀ who ∉ taken.map Prod.fst,
      (storage'.contributions id).lookup who = (storage.contributions id).lookup who ∧
        storage'.free (.user who) = storage.free (.user who) := by
    intro who hmem
    rw [hpays.contributions, StorageMap.lookup_foldl_erase, if_neg hmem, hpays.users,
      received_eq_zero hmem]
    exact ⟨rfl, rfl⟩
  constructor
  · intro who _
    by_cases hmem : who ∈ taken.map Prod.fst
    · right
      obtain ⟨⟨_, amount⟩, he, rfl⟩ := List.mem_map.mp hmem
      have hlookup := (mem_otherContributions (htaken.subset he)).1
      constructor
      · rw [hpays.contributions, StorageMap.lookup_foldl_erase, if_pos hmem]
      · rw [hpays.users, received_eq hnodup he, owed, hlookup, Option.elim_some]
    · exact .inl (hnot who hmem)
  · have hcreator : crowdloan.creator ∉ taken.map Prod.fst := by
      intro hmem
      obtain ⟨e, he, heq⟩ := List.mem_map.mp hmem
      exact (mem_otherContributions (htaken.subset he)).2 heq
    unfold owed
    rw [(hnot _ hcreator).1, (hnot _ hcreator).2]

/-- A withdrawal pays its signer all, or the creator what is over the deposit. -/
theorem withdraw_settled {amount taken : U64} {rest : StorageMap A U64} {count : U32}
    (hlookup : (storage.contributions id).lookup who = some amount)
    (htake : takeContribution crowdloan (storage.contributions id) who amount =
      .ok (taken, rest, count))
    (hpays : Pays id crowdloan storage rest (fun other => if other = who then taken.val else 0)
      storage') : Settled id crowdloan.creator storage storage' := by
  have hcontributions := hpays.contributions
  have husers := hpays.users
  rcases takeContribution_cases htake with ⟨rfl, hpositive, rfl, rfl, -⟩ | ⟨hne, rfl, rfl, -⟩
  · constructor
    · intro other hne
      rw [hcontributions, AList.lookup_insert_ne hne, husers, if_neg hne]
      exact .inl ⟨rfl, rfl⟩
    · rw [Word.val_satSub] at hpositive
      unfold owed
      rw [hcontributions, AList.lookup_insert, hlookup, husers, if_pos rfl, Option.elim_some,
        Option.elim_some, Word.val_satSub]
      omega
  · constructor
    · intro other _
      by_cases heq : other = who
      · subst heq
        unfold owed
        rw [hcontributions, AList.lookup_erase, husers, if_pos rfl, hlookup, Option.elim_some]
        exact .inr ⟨rfl, rfl⟩
      · rw [hcontributions, AList.lookup_erase_ne heq, husers, if_neg heq]
        exact .inl ⟨rfl, rfl⟩
    · unfold owed
      rw [hcontributions, AList.lookup_erase_ne hne.symm, husers, if_neg hne.symm, Nat.add_zero]

/-- An account whose contribution is gone is owed nothing. -/
theorem owed_eq_zero (h : (storage.contributions id).lookup who = none) :
    owed storage id who = 0 := by
  unfold owed
  rw [h]
  rfl

theorem Settled.trans {creator : A} {start middle state : Storage A C}
    (h : Settled id creator start middle) (h' : Settled id creator middle state) :
    Settled id creator start state where
  others := by
    intro who hne
    rcases h'.others who hne with ⟨hlookup', hfree'⟩ | ⟨hlookup', hfree'⟩
    · rw [hlookup', hfree']
      exact h.others who hne
    · right
      refine ⟨hlookup', ?_⟩
      rcases h.others who hne with ⟨hlookup, hfree⟩ | ⟨hlookup, hfree⟩
      · rw [hfree', hfree]
        unfold owed
        rw [hlookup]
      · rw [hfree', owed_eq_zero hlookup, hfree]
        rfl
  creator := h'.creator.trans h.creator

theorem Pays.otherContributors {rest : StorageMap A U64} {paid : A → ℕ}
    (hpays : Pays id crowdloan storage rest paid storage') :
    otherContributors storage' id crowdloan.creator + 1 = rest.keys.length := by
  obtain ⟨raised, count, hrefundable⟩ := hpays.refundable
  rw [← hpays.contributions, ← hrefundable.balanced.length_otherContributions]
  rfl

/-- Every call settles the crowdloan, and a refund takes as many others out as
the limit allows. -/
theorem settle_settled (cfg : Config) (h : Refundable id crowdloan storage) (step : Settlement A)
    (hended : ∀ now, step = .refund now → crowdloan.endBlock.val ≤ now.val) :
    (∃ raised count, Refundable id
      { crowdloan with raised := raised, contributorsCount := count }
      (settle cfg id storage step)) ∧
    Settled id crowdloan.creator storage (settle cfg id storage step) ∧
    otherContributors (settle cfg id storage step) id crowdloan.creator ≤
      otherContributors storage id crowdloan.creator -
        cfg.refundContributorsLimit.val * refundCalls [step] := by
  have hlength := h.balanced.length_otherContributions
  unfold otherContributors at *
  cases step with
  | refund now =>
      obtain ⟨storage', hrefund, hpays⟩ := refund_pays h (hended now rfl) rfl
      have hnext : settle cfg id storage (.refund now) = storage' := by
        rw [settle, hrefund]
        rfl
      have hprefix := List.take_prefix cfg.refundContributorsLimit.val
        (otherContributions (storage.contributions id) crowdloan.creator)
      have hothers := hpays.otherContributors
      have hkeys := (totalContributed_refunded hprefix).2
      rw [List.length_take] at hkeys
      rw [hnext]
      refine ⟨hpays.refundable, refund_settled hprefix hpays, ?_⟩
      unfold Crowdloan.otherContributors at hothers
      simp only [refundCalls]
      omega
  | withdraw who =>
      cases hwithdraw : withdraw storage who id with
      | error e =>
          have hnext : settle cfg id storage (.withdraw who) = storage := by
            rw [settle, hwithdraw]
            rfl
          rw [hnext]
          exact ⟨⟨crowdloan.raised, crowdloan.contributorsCount, h⟩, Settled.refl _ _ _, le_rfl⟩
      | ok storage' =>
          have hnext : settle cfg id storage (.withdraw who) = storage' := by
            rw [settle, hwithdraw]
            rfl
          obtain ⟨amount, taken, rest, count, hlookup, htake, hpays⟩ :=
            withdraw_pays h hwithdraw
          have hothers := hpays.otherContributors
          have hkeys : rest.keys.length ≤ (storage.contributions id).keys.length := by
            rcases takeContribution_cases htake with ⟨-, -, -, rfl, -⟩ | ⟨-, -, rfl, -⟩
            · have := StorageMap.length_keys_insert_elim (storage.contributions id) who
                crowdloan.deposit
              rw [hlookup, Option.elim_some] at this
              omega
            · have := StorageMap.length_keys_erase_elim (storage.contributions id) who
              omega
          rw [hnext]
          refine ⟨hpays.refundable, withdraw_settled hlookup htake hpays, ?_⟩
          unfold Crowdloan.otherContributors at hothers
          simp only [refundCalls]
          omega

/-! ## Runs -/

omit [DecidableEq A] in
theorem refundCalls_cons (step : Settlement A) (rest : List (Settlement A)) :
    refundCalls (step :: rest) = refundCalls [step] + refundCalls rest := by
  cases step with
  | refund now => exact Nat.add_comm _ _
  | withdraw who => exact (Nat.zero_add _).symm

theorem settlements_settled (cfg : Config) (h : Refundable id crowdloan storage)
    (steps : List (Settlement A))
    (hended : ∀ now, .refund now ∈ steps → crowdloan.endBlock.val ≤ now.val) :
    (∃ raised count, Refundable id
      { crowdloan with raised := raised, contributorsCount := count }
      (steps.foldl (settle cfg id) storage)) ∧
    Settled id crowdloan.creator storage (steps.foldl (settle cfg id) storage) ∧
    otherContributors (steps.foldl (settle cfg id) storage) id crowdloan.creator ≤
      otherContributors storage id crowdloan.creator -
        cfg.refundContributorsLimit.val * refundCalls steps := by
  induction steps generalizing storage crowdloan with
  | nil => exact ⟨⟨crowdloan.raised, crowdloan.contributorsCount, h⟩, Settled.refl _ _ _, le_rfl⟩
  | cons step rest ih =>
      obtain ⟨⟨raised, count, hnext⟩, hsettled, hothers⟩ := settle_settled cfg h step
        fun now heq => hended now (heq ▸ List.mem_cons_self)
      obtain ⟨hrefundable, hrest, hothersRest⟩ := ih hnext fun now hmem =>
        hended now (List.mem_cons_of_mem _ hmem)
      refine ⟨hrefundable, hsettled.trans hrest, ?_⟩
      rw [refundCalls_cons, Nat.mul_add, List.foldl_cons]
      dsimp only at hothersRest
      omega

/-- The contribution of an account stands, and it has received nothing. -/
structure Stands (cfg : Config) (id : CrowdloanId) (storage : Storage A C)
    (steps : List (Settlement A)) (who : A) : Prop where
  entry : ((steps.foldl (settle cfg id) storage).contributions id).lookup who =
    (storage.contributions id).lookup who
  balance : (steps.foldl (settle cfg id) storage).free (.user who) = storage.free (.user who)
  receipts : receipts cfg id who storage steps = []

/-- The contribution of an account is gone, and one step has paid it. -/
structure PaidOnce (cfg : Config) (id : CrowdloanId) (storage : Storage A C)
    (steps : List (Settlement A)) (who : A) : Prop where
  entry : ((steps.foldl (settle cfg id) storage).contributions id).lookup who = none
  balance : (steps.foldl (settle cfg id) storage).free (.user who) =
    storage.free (.user who) + owed storage id who
  receipts : receipts cfg id who storage steps =
    if owed storage id who = 0 then [] else [owed storage id who]

/-- A contribution is paid out in one of the steps, or stands. -/
theorem stands_or_paidOnce (h : Refundable id crowdloan storage) (steps : List (Settlement A))
    (hended : ∀ now, .refund now ∈ steps → crowdloan.endBlock.val ≤ now.val)
    (hne : who ≠ crowdloan.creator) :
    Stands cfg id storage steps who ∨ PaidOnce cfg id storage steps who := by
  induction steps generalizing storage crowdloan with
  | nil => exact .inl ⟨rfl, rfl, rfl⟩
  | cons step rest ih =>
      obtain ⟨⟨raised, count, hnext⟩, hsettled, -⟩ := settle_settled cfg h step
        fun now heq => hended now (heq ▸ List.mem_cons_self)
      have hrest := ih hnext (fun now hmem => hended now (List.mem_cons_of_mem _ hmem)) hne
      have hreceipts : receipts cfg id who storage (step :: rest) =
          if (settle cfg id storage step).free (.user who) - storage.free (.user who) = 0 then
            receipts cfg id who (settle cfg id storage step) rest
          else ((settle cfg id storage step).free (.user who) - storage.free (.user who)) ::
            receipts cfg id who (settle cfg id storage step) rest := rfl
      rcases hsettled.others who hne with ⟨hlookup, hfree⟩ | ⟨hlookup, hfree⟩
      · have howed : owed (settle cfg id storage step) id who = owed storage id who := by
          unfold owed
          rw [hlookup]
        rw [hfree, Nat.sub_self, if_pos rfl] at hreceipts
        rcases hrest with hrest | hrest
        · exact .inl ⟨hrest.entry.trans hlookup, hrest.balance.trans hfree,
            hreceipts.trans hrest.receipts⟩
        · refine .inr ⟨hrest.entry, ?_, ?_⟩
          · rw [← hfree, ← howed]
            exact hrest.balance
          · rw [hreceipts, ← howed]
            exact hrest.receipts
      · -- from here on nothing is owed, and nothing is received
        have howed := owed_eq_zero hlookup
        rw [hfree, Nat.add_sub_cancel_left] at hreceipts
        have hnothing : ((rest.foldl (settle cfg id) (settle cfg id storage step)).contributions
              id).lookup who = none ∧
            (rest.foldl (settle cfg id) (settle cfg id storage step)).free (.user who) =
              (settle cfg id storage step).free (.user who) ∧
            receipts cfg id who (settle cfg id storage step) rest = [] := by
          rcases hrest with hrest | hrest
          · exact ⟨hrest.entry.trans hlookup, hrest.balance, hrest.receipts⟩
          · have hbalance := hrest.balance
            have hrestReceipts := hrest.receipts
            rw [howed] at hbalance hrestReceipts
            exact ⟨hrest.entry, hbalance, hrestReceipts⟩
        refine .inr ⟨hnothing.1, hnothing.2.1.trans hfree, ?_⟩
        rw [hreceipts, hnothing.2.2]

theorem lookup_eq_none {creator : A} (h : otherContributors storage id creator = 0)
    (hne : who ≠ creator) : (storage.contributions id).lookup who = none := by
  rw [Option.eq_none_iff_forall_ne_some]
  intro amount hlookup
  have hmem := mem_otherContributions_iff.mpr ⟨hlookup, hne⟩
  rw [List.eq_nil_of_length_eq_zero h] at hmem
  cases hmem

/-- When the others are out, the creator can dissolve the crowdloan. -/
theorem dissolve_refundable (h : Refundable id crowdloan storage)
    (hothers : otherContributors storage id crowdloan.creator = 0) :
    ∃ dissolved, dissolve storage crowdloan.creator id = .ok dissolved ∧
      dissolved.crowdloans id = none ∧ dissolved.contributions id = ∅ ∧
      dissolved.free (.user crowdloan.creator) =
        storage.free (.user crowdloan.creator) + owed storage id crowdloan.creator := by
  obtain ⟨amount, hlookup, -⟩ := h.balanced.deposit
  have hlength := h.balanced.length_otherContributions
  have hkeys := StorageMap.length_keys_erase_elim (storage.contributions id) crowdloan.creator
  rw [hlookup, Option.elim_some] at hkeys
  have hempty : (storage.contributions id).erase crowdloan.creator = ∅ := by
    refine AList.ext (List.eq_nil_of_length_eq_zero ?_)
    unfold otherContributors at hothers
    rw [← List.length_map Sigma.fst]
    show ((storage.contributions id).erase crowdloan.creator).keys.length = 0
    omega
  have hraised : amount = crowdloan.raised := by
    have hsum := totalContributed_erase (storage.contributions id) crowdloan.creator
    rw [hempty, hlookup, Option.elim_some, ← h.balanced.raised] at hsum
    exact Word.ext ((Nat.zero_add _).symm.trans hsum)
  obtain ⟨balances, hbalances, htransfer⟩ :=
    transfer_of_le (.user crowdloan.creator) (hraised ▸ h.funded)
  refine ⟨{ storage with
    balances := balances
    crowdloans := Function.update storage.crowdloans id none
    contributions := Function.update storage.contributions id
      ((storage.contributions id).erase crowdloan.creator) }, ?_, ?_, ?_, ?_⟩
  · unfold dissolve
    rw [ensureCrowdloanExists_eq_ok.mpr h.stored, ok_bind, ensure, if_pos h.opened, ok_bind,
      ensure, if_pos rfl, ok_bind]
    dsimp only
    rw [hlookup, orError, ok_bind, ensure, if_pos hraised, ok_bind, h.balanced.fundsAccount,
      htransfer]
    rfl
  · exact Function.update_self _ _ _
  · exact (Function.update_self _ _ _).trans hempty
  · unfold owed
    rw [hlookup]
    exact (users_of_payout storage hbalances _).trans (by rw [if_pos rfl]; rfl)

end

/-- **Refunds of a crowdloan are complete and exact.** In every run of refund
calls after the end, by anyone, and of withdrawals, a contribution stands or
is paid out in one step. When there were as many refunds as batches are
needed, every contributor but the creator is paid, and the creator can dissolve
the crowdloan for the rest. -/
theorem refunds_complete (cfg : Config) (hlimit : 1 ≤ cfg.refundContributorsLimit.val)
    {id : CrowdloanId} {crowdloan : CrowdloanInfo A C} {storage : Storage A C}
    (h : Refundable id crowdloan storage) (steps : List (Settlement A))
    (hended : ∀ now, .refund now ∈ steps → crowdloan.endBlock.val ≤ now.val) :
    (∀ who ≠ crowdloan.creator,
      Stands cfg id storage steps who ∨ PaidOnce cfg id storage steps who) ∧
    ((otherContributors storage id crowdloan.creator + cfg.refundContributorsLimit.val - 1) /
        cfg.refundContributorsLimit.val ≤ refundCalls steps →
      (∀ who ≠ crowdloan.creator, PaidOnce cfg id storage steps who) ∧
      ∃ dissolved, dissolve (steps.foldl (settle cfg id) storage) crowdloan.creator id =
          .ok dissolved ∧
        dissolved.crowdloans id = none ∧ dissolved.contributions id = ∅ ∧
        dissolved.free (.user crowdloan.creator) =
          (steps.foldl (settle cfg id) storage).free (.user crowdloan.creator) +
            owed (steps.foldl (settle cfg id) storage) id crowdloan.creator ∧
        dissolved.free (.user crowdloan.creator) =
          storage.free (.user crowdloan.creator) + owed storage id crowdloan.creator) := by
  have hone : ∀ who ≠ crowdloan.creator,
      Stands cfg id storage steps who ∨ PaidOnce cfg id storage steps who :=
    fun who hne => stands_or_paidOnce h steps hended hne
  refine ⟨hone, ?_⟩
  intro hbatches
  obtain ⟨⟨raised, count, hrefundable⟩, hsettled, hothers⟩ :=
    settlements_settled cfg h steps hended
  have hnone : otherContributors (steps.foldl (settle cfg id) storage) id crowdloan.creator =
      0 := by
    rw [Nat.div_le_iff_le_mul_add_pred hlimit] at hbatches
    omega
  constructor
  · intro who hne
    rcases hone who hne with hstands | hpaid
    · -- its entry stands, but none does
      have hentry := lookup_eq_none hnone hne
      have howed := owed_eq_zero (hstands.entry.symm.trans hentry)
      refine ⟨hentry, ?_, ?_⟩
      · rw [howed]
        exact hstands.balance
      · rw [howed]
        exact hstands.receipts
    · exact hpaid
  · obtain ⟨dissolved, hdissolve, hremoved, hempty, hpaid⟩ := dissolve_refundable hrefundable hnone
    exact ⟨dissolved, hdissolve, hremoved, hempty, hpaid, hpaid.trans hsettled.creator⟩

/-! ## A crowdloan that has failed -/

def failedConfig : Config := ⟨.sat 1, .sat 1, .sat 1, .sat 100, .sat 2, .sat 10⟩

/-- The creator `0` and three others raise 160 of 500. -/
def failedStorage : Storage (Fin 4) Unit :=
  [Step.call (.sat 0) (.create 0 (.sat 100) (.sat 1) (.sat 500) (.sat 10) none none),
    .call (.sat 1) (.contribute 1 (.sat 0) (.sat 10)),
    .call (.sat 2) (.contribute 2 (.sat 0) (.sat 20)),
    .call (.sat 3) (.contribute 3 (.sat 0) (.sat 30))].foldl
      (apply failedConfig) (Storage.genesis fun _ => 1000)

def failedCrowdloan : CrowdloanInfo (Fin 4) Unit :=
  ⟨0, .sat 100, .sat 1, .sat 10, .sat 500, .funds (.sat 0), .sat 160, none, none, false, .sat 4⟩

theorem failedStorage_books : Books [] failedStorage := by
  unfold failedStorage
  exact (books_run failedConfig _ _).foldl

theorem failedStorage_crowdloans : failedStorage.crowdloans (.sat 0) = some failedCrowdloan := by
  rfl

/-- One withdraws, and the two others are refunded in one batch. -/
theorem refunds_complete_failed :
    PaidOnce failedConfig (.sat 0) failedStorage
        [.withdraw 2, .refund (.sat 10), .refund (.sat 11)] 2 ∧
      PaidOnce failedConfig (.sat 0) failedStorage
        [.withdraw 2, .refund (.sat 10), .refund (.sat 11)] 3 := by
  have hrefundable := failedStorage_books.refundable failedStorage_crowdloans rfl
  have hended : ∀ now, Settlement.refund now ∈
      [Settlement.withdraw (2 : Fin 4), .refund (.sat 10), .refund (.sat 11)] →
        failedCrowdloan.endBlock.val ≤ now.val := by
    intro now hmem
    simp only [List.mem_cons, List.not_mem_nil, Settlement.refund.injEq, reduceCtorEq,
      or_false, false_or] at hmem
    rcases hmem with rfl | rfl
    · decide
    · decide
  obtain ⟨-, hpaid⟩ := refunds_complete failedConfig (by decide) hrefundable
    [.withdraw 2, .refund (.sat 10), .refund (.sat 11)] hended
  obtain ⟨hpaid, -⟩ := hpaid (by decide +kernel)
  exact ⟨hpaid 2 (by decide), hpaid 3 (by decide)⟩

end Subtensor.Crowdloan
