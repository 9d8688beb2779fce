import Subtensor.Emission.BlockStep
import Subtensor.Staking.Frame

/-!
# What the phases of a block touch

Paying dividends and incentives changes stake and the reserve of root; the
counters of TAO move in the injection and in the root sale only.
-/

namespace Subtensor.Chain

open Lib SharePool

variable {A B P : Type} {rt : Runtime A B P} {chain chain₁ chain₂ chain' : Chain A B P}
  {netuid : NetUid}

/-! ## Payments -/

/-- Stake was given out: the counters of TAO, the subnets and what is pending
are as they were. -/
structure PaysStake (chain chain' : Chain A B P) : Prop where
  currency : chain'.ledger.currency = chain.ledger.currency
  totalIssuance : chain'.ledger.totalIssuance = chain.ledger.totalIssuance
  totalStake : chain'.ledger.totalStake = chain.ledger.totalStake
  overflowed : chain'.ledger.overflowed = false → chain.ledger.overflowed = false
  subnets : chain'.subnets = chain.subnets
  networksAdded : chain'.networksAdded = chain.networksAdded
  params : chain'.params = chain.params
  pending : chain'.pending = chain.pending
  block : chain'.block = chain.block
  blockEmission : chain'.blockEmission = chain.blockEmission

namespace PaysStake

theorem refl (chain : Chain A B P) : PaysStake chain chain :=
  ⟨rfl, rfl, rfl, id, rfl, rfl, rfl, rfl, rfl, rfl⟩

theorem trans (h₁ : PaysStake chain chain₁) (h₂ : PaysStake chain₁ chain₂) :
    PaysStake chain chain₂ where
  currency := h₂.currency.trans h₁.currency
  totalIssuance := h₂.totalIssuance.trans h₁.totalIssuance
  totalStake := h₂.totalStake.trans h₁.totalStake
  overflowed := fun hok => h₁.overflowed (h₂.overflowed hok)
  subnets := h₂.subnets.trans h₁.subnets
  networksAdded := h₂.networksAdded.trans h₁.networksAdded
  params := h₂.params.trans h₁.params
  pending := h₂.pending.trans h₁.pending
  block := h₂.block.trans h₁.block
  blockEmission := h₂.blockEmission.trans h₁.blockEmission

theorem moves (h : PaysStake chain chain') : Moves rt chain chain' 0 0 := by
  intro hok
  refine ⟨h.overflowed hok, ?_, ?_⟩
  · unfold accounted Ledger.accounted
    rw [h.currency, h.totalStake, add_zero]
  · rw [h.totalIssuance, add_zero]

end PaysStake

theorem withAccounts_pays {accounts : Accounts A} :
    PaysStake chain (chain.withAccounts accounts) :=
  ⟨rfl, rfl, rfl, id, rfl, rfl, rfl, rfl, rfl, rfl⟩

theorem addRootTao_pays {validatorStake nominatorStake : U64} :
    PaysStake chain (chain.addRootTao validatorStake nominatorStake) :=
  ⟨rfl, rfl, rfl, fun hok => (Bool.or_eq_false_iff.mp hok).1, rfl, rfl, rfl, rfl, rfl, rfl⟩

theorem recordBlockEmission_ledger (issuance : U64) :
    (chain.recordBlockEmission rt issuance).ledger = chain.ledger := by
  unfold recordBlockEmission
  split_ifs
  · rfl
  · cases blockEmissionForIssuance rt.log2 issuance with
    | none => rfl
    | some emission => rfl

theorem swapAlphaForTao_totalIssuance {alpha priceLimit : U64} :
    (chain.swapAlphaForTao rt netuid alpha priceLimit).1.ledger.totalIssuance =
      chain.ledger.totalIssuance := by
  rcases swapAlphaForTao_cases rt chain netuid alpha priceLimit with
    ⟨-, heq⟩ | ⟨-, swap, result, -, ⟨e, -, heq⟩ | ⟨r, -, heq⟩⟩
  · rw [heq]
  · rw [heq]
    rfl
  · rw [heq]
    rfl

variable [DecidableEq A] {epoch : Epoch A B P} {hotkey coldkey : A} {amount : U64}

theorem updateStakes_pays {stakes : Stakes A} {update : I64} :
    PaysStake chain (chain.updateStakes hotkey netuid amount stakes update) :=
  ⟨rfl, rfl, rfl, fun hok => (Bool.or_eq_false_iff.mp hok).1, rfl, rfl, rfl, rfl, rfl, rfl⟩

theorem increaseStakeForHotkey_pays :
    PaysStake chain (chain.increaseStakeForHotkeyOnSubnet hotkey netuid amount) :=
  updateStakes_pays

theorem increaseStake_pays :
    PaysStake chain
      (chain.increaseStakeForHotkeyAndColdkeyOnSubnet hotkey coldkey netuid amount).1 := by
  unfold increaseStakeForHotkeyAndColdkeyOnSubnet
  by_cases h : 0 < amount.val
  · simp only [if_pos h]
    have haccounts : PaysStake chain
        (chain.withAccounts (pushStakingHotkey chain.accounts coldkey hotkey)) := withAccounts_pays
    exact haccounts.trans updateStakes_pays
  · simp only [if_neg h]
    exact updateStakes_pays

theorem payOwnerCut_pays {cut : U64} : PaysStake chain (payOwnerCut netuid chain cut) := by
  unfold payOwnerCut
  cases (chain.subnets netuid).subnetOwner with
  | none => exact .refl chain
  | some ownerColdkey =>
      cases (chain.subnets netuid).subnetOwnerHotkey with
      | none => exact .refl chain
      | some ownerHotkey => exact increaseStake_pays

theorem payIncentive_pays {incentive : U64} :
    PaysStake chain (payIncentive rt netuid chain hotkey incentive) := by
  unfold payIncentive
  split_ifs
  · exact .refl chain
  · exact increaseStake_pays

theorem payAlphaDividend_pays {alphaDivs : U96F32} :
    PaysStake chain (payAlphaDividend rt netuid chain hotkey alphaDivs) :=
  increaseStake_pays.trans increaseStakeForHotkey_pays

theorem payRootDividend_pays {rootTao : U96F32} :
    PaysStake chain (payRootDividend rt chain hotkey rootTao) :=
  (increaseStake_pays.trans increaseStakeForHotkey_pays).trans addRootTao_pays

omit [DecidableEq A] in
theorem payAll_pays {V : Type} {pay : Chain A B P → A → V → Chain A B P} {m : StorageMap A V}
    (h : ∀ chain hotkey v, PaysStake chain (pay chain hotkey v)) :
    PaysStake chain (payAll pay chain m) := by
  unfold payAll
  induction m.entries generalizing chain with
  | nil => exact .refl chain
  | cons e rest ih => exact (h chain e.1 e.2).trans ih

theorem drainPendingEmission_pays {pendingAlpha pendingTao pendingSwapped cut : U64}
    {hotkeyEmission : HotkeyEmission A} :
    PaysStake chain (chain.drainPendingEmission rt netuid pendingAlpha pendingTao pendingSwapped
      cut hotkeyEmission) :=
  ((payOwnerCut_pays.trans (payAll_pays fun _ _ _ => payIncentive_pays)).trans
    (payAll_pays fun _ _ _ => payAlphaDividend_pays)).trans
    (payAll_pays fun _ _ _ => payRootDividend_pays)

/-! ## Total issuance -/

omit [DecidableEq A] in
/-- Root alpha is sold and the TAO becomes pending, or the sale fails. -/
theorem sellRootAlpha_cases (rt : Runtime A B P) (terms : NetUid → EmissionTerms)
    (chain : Chain A B P) (netuid : NetUid) :
    ∃ alphaOut alpha chain₁,
      alpha = (chain.rootAlpha netuid alphaOut).toWord 64 ∧
        ((∃ e, chain.swapAlphaForTao rt netuid alpha rt.swap.minPrice = (chain₁, .error e) ∧
            sellRootAlpha rt terms chain netuid = chain₁) ∨
          ∃ result pendingAlpha,
            chain.swapAlphaForTao rt netuid alpha rt.swap.minPrice = (chain₁, .ok result) ∧
              sellRootAlpha rt terms chain netuid =
                (chain₁.withPending (addPendingEmission netuid alpha pendingAlpha
                  result.amountPaidOut)).withLedger
                  (·.note (2 ^ 64 ≤ ((chain₁.pending.pendingRootDivs.lookup netuid).getD 0).val +
                    result.amountPaidOut.val))) := by
  unfold sellRootAlpha
  rcases hsold : chain.swapAlphaForTao rt netuid ((chain.rootAlpha netuid
    ((terms netuid).alphaOut.satSub (chain.ownerCut (terms netuid).alphaOut))).toWord 64)
    rt.swap.minPrice with ⟨chain₁, e | result⟩
  · exact ⟨_, _, chain₁, rfl, Or.inl ⟨e, hsold, by simp only [hsold]⟩⟩
  · exact ⟨_, _, chain₁, rfl, Or.inr ⟨result, _, hsold, by simp only [hsold]; rfl⟩⟩

omit [DecidableEq A] in
theorem sellRootAlpha_totalIssuance {terms : NetUid → EmissionTerms} :
    (sellRootAlpha rt terms chain netuid).ledger.totalIssuance = chain.ledger.totalIssuance := by
  obtain ⟨alphaOut, alpha, chain₁, -, ⟨e, hsold, heq⟩ | ⟨result, pendingAlpha, hsold, heq⟩⟩ :=
    sellRootAlpha_cases rt terms chain netuid
  · have hswap : (chain.swapAlphaForTao rt netuid alpha
        rt.swap.minPrice).1.ledger.totalIssuance = chain.ledger.totalIssuance :=
      swapAlphaForTao_totalIssuance
    rw [hsold] at hswap
    rw [heq]
    exact hswap
  · have hswap : (chain.swapAlphaForTao rt netuid alpha
        rt.swap.minPrice).1.ledger.totalIssuance = chain.ledger.totalIssuance :=
      swapAlphaForTao_totalIssuance
    rw [hsold] at hswap
    rw [heq]
    exact hswap

theorem drainIfDue_totalIssuance :
    (drainIfDue rt epoch chain netuid).ledger.totalIssuance = chain.ledger.totalIssuance := by
  unfold drainIfDue
  split_ifs
  · exact drainPendingEmission_pays.totalIssuance
  · rfl

theorem foldl_keeps {α β γ : Type} {f : β → α → β} (g : β → γ) (h : ∀ b a, g (f b a) = g b)
    (l : List α) (b : β) : g (l.foldl f b) = g b := by
  induction l generalizing b with
  | nil => rfl
  | cons a l ih => exact (ih (f b a)).trans (h b a)

theorem runCoinbase_totalIssuance {blockEmission : U96F32} :
    (chain.runCoinbase rt epoch blockEmission).ledger.totalIssuance =
      (chain.injection rt blockEmission).ledger.totalIssuance := by
  have hdrain := foldl_keeps (f := drainIfDue rt epoch) (fun c => c.ledger.totalIssuance)
    fun _ _ => drainIfDue_totalIssuance
  have hprice := foldl_keeps (f := updateMovingPrice rt) (fun c => c.ledger.totalIssuance)
    fun _ _ => rfl
  have hsell := foldl_keeps (f := sellRootAlpha rt (chain.emissionTerms rt blockEmission))
    (fun c => c.ledger.totalIssuance) fun _ _ => sellRootAlpha_totalIssuance
  have hcut := foldl_keeps (f := addPendingOwnerCut (chain.emissionTerms rt blockEmission))
    (fun c : Chain A B P => c.ledger.totalIssuance) fun _ _ => rfl
  exact (hdrain _ _).trans ((hprice _ _).trans ((hsell _ _).trans (hcut _ _)))

/-! ## Induction over a block -/

omit [DecidableEq A] in
theorem ne_root_of_mem_coinbaseSubnets (h : netuid ∈ chain.coinbaseSubnets) : netuid ≠ .ROOT :=
  of_decide_eq_true (List.mem_filter.mp h).2

omit [DecidableEq A] in
theorem ne_root_of_mem (h : netuid ∈ chain.subnetsToEmitTo) : netuid ≠ .ROOT :=
  ne_root_of_mem_coinbaseSubnets (List.mem_of_mem_filter h)

/-- What every step of every phase keeps, a block keeps. The steps are on
subnets other than root. -/
theorem runCoinbase_induction {motive : Chain A B P → Prop} (blockEmission : U96F32)
    (hstart : motive chain)
    (hrecord : ∀ c issuance, motive c → motive (c.recordBlockEmission rt issuance))
    (hinject : ∀ c terms n, n ≠ .ROOT → motive c → motive (inject rt terms c n))
    (hcut : ∀ c terms n, motive c → motive (addPendingOwnerCut terms c n))
    (hsell : ∀ c terms n, n ≠ .ROOT → motive c → motive (sellRootAlpha rt terms c n))
    (hprice : ∀ c n, motive c → motive (updateMovingPrice rt c n))
    (hdrain : ∀ c n, n ≠ .ROOT → motive c → motive (drainIfDue rt epoch c n)) :
    motive (chain.runCoinbase rt epoch blockEmission) := by
  unfold runCoinbase rootSale injection
  refine List.foldlRecOn _ _ (List.foldlRecOn _ _ (List.foldlRecOn _ _ (List.foldlRecOn _ _
    (List.foldlRecOn _ _ (List.foldlRecOn _ _ hstart ?_) ?_) ?_) ?_) ?_) ?_
  · intro c hc n _
    exact hrecord c _ hc
  · intro c hc n hn
    exact hinject c _ n (ne_root_of_mem hn) hc
  · intro c hc n _
    exact hcut c _ n hc
  · intro c hc n hn
    exact hsell c _ n (ne_root_of_mem hn) hc
  · intro c hc n _
    exact hprice c n hc
  · intro c hc n hn
    exact hdrain c n (ne_root_of_mem_coinbaseSubnets hn) hc

end Subtensor.Chain
