import Subtensor.Emission.Frame
import Subtensor.Staking.Issuance

/-!
# Block emission and the issuance equation

A block adds what it injects to `TotalIssuance` and to the total stake. The
root sale moves TAO from the total stake to the pending root dividends, on
dynamic subnets; the drain takes the pending dividends out, turns them into
stake on root, and does not add them to the total stake again. So the
equation, with the pending dividends, is kept along runs in which no subnet is
drained that has root dividends.
-/

namespace Subtensor.Chain

open Lib

variable {A B P : Type}

/-! ## The gap -/

/-- The TAO that waits as root dividends. -/
def pendingRootTao (chain : Chain A B P) : ℕ :=
  chain.pending.pendingRootDivs.sumBy fun _ tao => tao.val

/-- The root dividends that wait on a subnet. -/
def rootDivsOf (chain : Chain A B P) (netuid : NetUid) : U64 :=
  (chain.pending.pendingRootDivs.lookup netuid).getD 0

/-- What is in `TotalIssuance` and neither in a balance, nor in the total
stake, nor in a pending root dividend. -/
def issuanceGap (rt : Runtime A B P) (chain : Chain A B P) : ℤ :=
  chain.ledger.totalIssuance.val - chain.accounted rt - chain.pendingRootTao

/-- The gap grows by `δ`, unless something overflowed on the way. -/
def Shifts (rt : Runtime A B P) (chain chain' : Chain A B P) (δ : ℤ) : Prop :=
  chain'.ledger.overflowed = false →
    chain.ledger.overflowed = false ∧ chain'.issuanceGap rt = chain.issuanceGap rt + δ

variable {rt : Runtime A B P} {chain chain₁ chain₂ chain' : Chain A B P} {δ δ' v i : ℤ}
  {netuid : NetUid}

namespace Shifts

theorem refl (chain : Chain A B P) : Shifts rt chain chain 0 :=
  fun hok => ⟨hok, (add_zero _).symm⟩

theorem trans (h₁ : Shifts rt chain chain₁ δ) (h₂ : Shifts rt chain₁ chain₂ δ') :
    Shifts rt chain chain₂ (δ + δ') := by
  intro hok
  obtain ⟨hok₁, hgap₂⟩ := h₂ hok
  obtain ⟨hok₀, hgap₁⟩ := h₁ hok₁
  exact ⟨hok₀, by rw [hgap₂, hgap₁, add_assoc]⟩

theorem trans_zero (h₁ : Shifts rt chain chain₁ 0) (h₂ : Shifts rt chain₁ chain₂ 0) :
    Shifts rt chain chain₂ 0 := by
  have h := h₁.trans h₂
  rwa [add_zero] at h

end Shifts

theorem Moves.shifts (h : Moves rt chain chain' v i)
    (hpending : chain'.pending.pendingRootDivs = chain.pending.pendingRootDivs) :
    Shifts rt chain chain' (i - v) := by
  intro hok
  obtain ⟨hok', hvalue, hissuance⟩ := h hok
  refine ⟨hok', ?_⟩
  unfold issuanceGap pendingRootTao
  rw [hvalue, hissuance, hpending]
  ring

/-- An operation that leaves the ledger and the root dividends alone. -/
theorem shifts_of_eq (hledger : chain'.ledger = chain.ledger)
    (hpending : chain'.pending.pendingRootDivs = chain.pending.pendingRootDivs) :
    Shifts rt chain chain' 0 :=
  (moves_of_ledger_eq hledger).shifts hpending

theorem pendingRootTao_insert {tao : U64}
    (h : chain'.pending.pendingRootDivs = chain.pending.pendingRootDivs.insert netuid tao) :
    chain'.pendingRootTao + (chain.rootDivsOf netuid).val = tao.val + chain.pendingRootTao := by
  unfold pendingRootTao rootDivsOf
  rw [h]
  exact StorageMap.sumBy_insert_add (d := 0) (fun _ tao => tao.val) _ netuid tao rfl

/-! ## Injection -/

theorem inject_shifts {terms : NetUid → EmissionTerms} :
    Shifts rt chain (inject rt terms chain netuid) 0 := by
  have hreserves : Moves rt chain
      (chain.withReserves netuid (injectReserves (terms netuid))) 0 0 := moves_of_ledger_eq rfl
  have hstake := hreserves.none_then (moves_addStake ((terms netuid).taoIn.toWord 64))
  have hboth := hstake.trans (moves_addIssuance ((terms netuid).taoIn.toWord 64))
  have hmoves : Moves rt chain (inject rt terms chain netuid) _ _ :=
    hboth.then_none (moves_of_ledger_eq rfl)
  have hshift := hmoves.shifts rfl
  rwa [add_zero, zero_add, sub_self] at hshift

theorem recordBlockEmission_pending (issuance : U64) :
    (chain.recordBlockEmission rt issuance).pending = chain.pending := by
  unfold recordBlockEmission
  split_ifs
  · rfl
  · cases blockEmissionForIssuance rt.log2 issuance with
    | none => rfl
    | some emission => rfl

/-! ## What the phases keep -/

/-- The mechanisms of the subnets, and which of them are due. -/
structure KeepsTerms (chain chain' : Chain A B P) : Prop where
  isDynamic : ∀ n, chain'.isDynamic n = chain.isDynamic n
  shouldRunEpoch : ∀ n, chain'.shouldRunEpoch n = chain.shouldRunEpoch n

/-- The terms above, and the weight of root. -/
structure KeepsWeight (chain chain' : Chain A B P) : Prop extends KeepsTerms chain chain' where
  rootWeight : chain'.rootWeight = chain.rootWeight

theorem KeepsTerms.refl (chain : Chain A B P) : KeepsTerms chain chain :=
  ⟨fun _ => rfl, fun _ => rfl⟩

theorem KeepsTerms.trans (h₁ : KeepsTerms chain chain₁) (h₂ : KeepsTerms chain₁ chain₂) :
    KeepsTerms chain chain₂ :=
  ⟨fun n => (h₂.isDynamic n).trans (h₁.isDynamic n),
    fun n => (h₂.shouldRunEpoch n).trans (h₁.shouldRunEpoch n)⟩

theorem KeepsWeight.refl (chain : Chain A B P) : KeepsWeight chain chain := ⟨.refl chain, rfl⟩

theorem KeepsWeight.trans (h₁ : KeepsWeight chain chain₁) (h₂ : KeepsWeight chain₁ chain₂) :
    KeepsWeight chain chain₂ :=
  ⟨h₁.toKeepsTerms.trans h₂.toKeepsTerms, h₂.rootWeight.trans h₁.rootWeight⟩

theorem keepsTerms_of_eq (hsubnets : chain'.subnets = chain.subnets)
    (hblock : chain'.block = chain.block) : KeepsTerms chain chain' := by
  constructor
  · intro n
    unfold Chain.isDynamic mechanism
    rw [hsubnets]
  · intro n
    unfold Chain.shouldRunEpoch
    rw [hsubnets, hblock]

theorem keepsWeight_of_eq (hsubnets : chain'.subnets = chain.subnets)
    (hblock : chain'.block = chain.block) (hparams : chain'.params = chain.params)
    (hroot : chain'.reserves .ROOT = chain.reserves .ROOT) : KeepsWeight chain chain' := by
  refine ⟨keepsTerms_of_eq hsubnets hblock, ?_⟩
  unfold rootWeight getTaoWeight
  rw [hparams, hroot]

theorem inject_keepsWeight {terms : NetUid → EmissionTerms} (hnetuid : netuid ≠ .ROOT) :
    KeepsWeight chain (inject rt terms chain netuid) :=
  keepsWeight_of_eq rfl rfl rfl (Function.update_of_ne hnetuid.symm _ _)

theorem recordBlockEmission_keepsWeight (issuance : U64) :
    KeepsWeight chain (chain.recordBlockEmission rt issuance) := by
  unfold recordBlockEmission
  split_ifs
  · exact .refl chain
  · cases blockEmissionForIssuance rt.log2 issuance with
    | none => exact .refl chain
    | some emission => exact keepsWeight_of_eq rfl rfl rfl rfl

theorem swapAlphaForTao_keepsWeight {alpha priceLimit : U64} (hnetuid : netuid ≠ .ROOT) :
    KeepsWeight chain (chain.swapAlphaForTao rt netuid alpha priceLimit).1 := by
  rcases swapAlphaForTao_cases rt chain netuid alpha priceLimit with
    ⟨-, heq⟩ | ⟨-, swap, result, -, ⟨e, -, heq⟩ | ⟨r, -, heq⟩⟩
  · rw [heq]
    exact .refl chain
  · rw [heq]
    exact keepsWeight_of_eq rfl rfl rfl rfl
  · rw [heq]
    exact keepsWeight_of_eq rfl rfl rfl (Function.update_of_ne hnetuid.symm _ _)

theorem sellRootAlpha_keepsWeight {terms : NetUid → EmissionTerms} (hnetuid : netuid ≠ .ROOT) :
    KeepsWeight chain (sellRootAlpha rt terms chain netuid) := by
  obtain ⟨alphaOut, alpha, chain₁, -, ⟨e, hsold, heq⟩ | ⟨result, pendingAlpha, hsold, heq⟩⟩ :=
    sellRootAlpha_cases rt terms chain netuid
  all_goals
    have hswap : KeepsWeight chain (chain.swapAlphaForTao rt netuid alpha rt.swap.minPrice).1 :=
      swapAlphaForTao_keepsWeight hnetuid
    rw [hsold] at hswap
    rw [heq]
    exact hswap.trans (keepsWeight_of_eq rfl rfl rfl rfl)

theorem updateMovingPrice_keepsWeight : KeepsWeight chain (updateMovingPrice rt chain netuid) := by
  have hsubnet : ∀ n, ((updateMovingPrice rt chain netuid).subnets n).mechanism =
      (chain.subnets n).mechanism ∧
      ((updateMovingPrice rt chain netuid).subnets n).tempo = (chain.subnets n).tempo := by
    intro n
    unfold updateMovingPrice withSubnet
    by_cases hn : n = netuid
    · subst hn
      simp only [Function.update_self, and_self]
    · simp only [Function.update_of_ne hn, and_self]
  refine ⟨⟨?_, ?_⟩, rfl⟩
  · intro n
    unfold Chain.isDynamic mechanism
    rw [(hsubnet n).1]
  · intro n
    unfold Chain.shouldRunEpoch
    rw [(hsubnet n).2]
    rfl

/-! ## The root sale -/

/-- Nothing is earned by root when its TAO has no weight. -/
theorem rootAlpha_of_weightless (h : chain.rootWeight.bits = 0) (alphaOut : U96F32) :
    (chain.rootAlpha netuid alphaOut).toWord 64 = 0 := by
  have hproportion : ((chain.rootWeight.checkedDiv
      (chain.rootWeight.satAdd (.ofNat (chain.getAlphaIssuance netuid).val))).getD 0).bits = 0 := by
    have hle := UFixed.bits_safeDiv_le chain.rootWeight
      (chain.rootWeight.satAdd (.ofNat (chain.getAlphaIssuance netuid).val))
    rw [h, Nat.zero_mul, Nat.zero_div] at hle
    exact Nat.le_zero.mp hle
  apply Word.ext
  unfold rootAlpha UFixed.toWord
  simp only [UFixed.bits_satMul, hproportion]
  simp [Word.val_sat]

def SellsNothingForNothing (rt : Runtime A B P) : Prop :=
  ∀ info swap netuid priceLimit swap' result,
    rt.swap.swap info swap netuid .sell 0 priceLimit = (swap', .ok result) →
      result.amountPaidOut = 0

theorem swapAlphaForTao_zero (hnothing : SellsNothingForNothing rt) {priceLimit : U64}
    {result : Swap.SwapResult}
    (h : chain.swapAlphaForTao rt netuid 0 priceLimit = (chain', .ok result)) :
    result.amountPaidOut = 0 := by
  rcases swapAlphaForTao_cases rt chain netuid 0 priceLimit with
    ⟨-, heq⟩ | ⟨-, swap, result', hswap, ⟨e, -, heq⟩ | ⟨r, rfl, heq⟩⟩
  · rw [heq] at h
    cases h
    rfl
  · rw [heq] at h
    cases h
  · rw [heq] at h
    cases h
    exact hnothing _ _ _ _ _ _ hswap

theorem swapAlphaForTao_pending {alpha priceLimit : U64} {result : Except Error Swap.SwapResult}
    (h : chain.swapAlphaForTao rt netuid alpha priceLimit = (chain', result)) :
    chain'.pending = chain.pending := by
  rcases swapAlphaForTao_cases rt chain netuid alpha priceLimit with
    ⟨-, heq⟩ | ⟨-, swap, result', -, ⟨e, -, heq⟩ | ⟨r, -, heq⟩⟩
  all_goals
    rw [heq] at h
    cases h
    rfl

variable [DecidableEq A]

/-- A sale that fails moves nothing; one that succeeds takes TAO out of the
total stake, on a dynamic subnet, and adds it to the root dividends. -/
theorem sellRootAlpha_effect (hnothing : SellsNothingForNothing rt) (chain : Chain A B P)
    (terms : NetUid → EmissionTerms) (netuid : NetUid) :
    ((sellRootAlpha rt terms chain netuid).pending.pendingRootDivs =
          chain.pending.pendingRootDivs ∧
        Moves rt chain (sellRootAlpha rt terms chain netuid) 0 0) ∨
      ∃ tao, (sellRootAlpha rt terms chain netuid).pending.pendingRootDivs =
          chain.pending.pendingRootDivs.insert netuid ((chain.rootDivsOf netuid).satAdd tao) ∧
        ((sellRootAlpha rt terms chain netuid).ledger.overflowed = false →
          (chain.rootDivsOf netuid).val + tao.val < 2 ^ 64) ∧
        Moves rt chain (sellRootAlpha rt terms chain netuid) (-chain.countedStake netuid tao) 0 ∧
        (chain.rootWeight.bits = 0 → tao = 0) := by
  obtain ⟨alphaOut, alpha, chain₁, halpha,
    ⟨e, hsold, heq⟩ | ⟨result, pendingAlpha, hsold, heq⟩⟩ :=
      sellRootAlpha_cases rt terms chain netuid
  · rw [heq]
    exact Or.inl ⟨by rw [swapAlphaForTao_pending hsold], (swapAlphaForTao_error hsold).2⟩
  · have hdivs : (chain₁.pending.pendingRootDivs.lookup netuid).getD 0 =
        chain.rootDivsOf netuid := by
      rw [swapAlphaForTao_pending hsold]
      rfl
    rw [heq, hdivs]
    refine Or.inr ⟨result.amountPaidOut, ?_, ?_, ?_, ?_⟩
    · show chain₁.pending.pendingRootDivs.insert netuid
        (((chain₁.pending.pendingRootDivs.lookup netuid).getD 0).satAdd result.amountPaidOut) = _
      rw [hdivs, swapAlphaForTao_pending hsold]
    · intro hok
      exact not_le.mp (of_decide_eq_false (Bool.or_eq_false_iff.mp hok).2)
    · have hmoves := (swapAlphaForTao_ok hsold).2.then_none
        (moves_of_ledger_eq (rfl : (chain₁.withPending (addPendingEmission netuid alpha pendingAlpha
          result.amountPaidOut)).ledger = chain₁.ledger))
      exact hmoves.then_none (moves_note _)
    · intro hweightless
      rw [halpha, rootAlpha_of_weightless hweightless] at hsold
      exact swapAlphaForTao_zero hnothing hsold

theorem sellRootAlpha_shifts (hnothing : SellsNothingForNothing rt)
    {terms : NetUid → EmissionTerms}
    (h : chain.isDynamic netuid = true ∨ chain.rootWeight.bits = 0) :
    Shifts rt chain (sellRootAlpha rt terms chain netuid) 0 := by
  rcases sellRootAlpha_effect hnothing chain terms netuid with
    ⟨hpending, hmoves⟩ | ⟨tao, hpending, hfits, hmoves, hweightless⟩
  · exact hmoves.shifts hpending
  · intro hok
    obtain ⟨hok', hvalue, hissuance⟩ := hmoves hok
    have htotal := pendingRootTao_insert hpending
    rw [Word.val_satAdd_of_lt (hfits hok)] at htotal
    have hcounted : chain.countedStake netuid tao = tao.val := by
      unfold countedStake
      rcases h with hdyn | hroot
      · rw [if_pos hdyn]
      · rw [hweightless hroot]
        exact ite_self _
    refine ⟨hok', ?_⟩
    unfold issuanceGap
    rw [hvalue, hissuance, hcounted]
    omega

theorem sellRootAlpha_rootDivs_of_ne (hnothing : SellsNothingForNothing rt)
    {terms : NetUid → EmissionTerms} {n : NetUid} (hn : n ≠ netuid) :
    (sellRootAlpha rt terms chain netuid).rootDivsOf n = chain.rootDivsOf n := by
  unfold rootDivsOf
  rcases sellRootAlpha_effect hnothing chain terms netuid with
    ⟨hpending, -⟩ | ⟨tao, hpending, -⟩
  · rw [hpending]
  · rw [hpending, AList.lookup_insert_ne hn]

theorem sellRootAlpha_rootDivs_of_weightless (hnothing : SellsNothingForNothing rt)
    {terms : NetUid → EmissionTerms} (h : chain.rootWeight.bits = 0) :
    (sellRootAlpha rt terms chain netuid).rootDivsOf netuid = chain.rootDivsOf netuid := by
  unfold rootDivsOf
  rcases sellRootAlpha_effect hnothing chain terms netuid with
    ⟨hpending, -⟩ | ⟨tao, hpending, -, -, hweightless⟩
  · rw [hpending]
  · rw [hpending, AList.lookup_insert, Option.getD_some, hweightless h]
    apply Word.ext
    exact Word.val_satAdd_of_lt (Word.isLt _)

theorem sellRootAlpha_rootDivs_le (hnothing : SellsNothingForNothing rt)
    {terms : NetUid → EmissionTerms} (n : NetUid) :
    (chain.rootDivsOf n).val ≤ ((sellRootAlpha rt terms chain netuid).rootDivsOf n).val := by
  by_cases hn : n = netuid
  · subst hn
    rcases sellRootAlpha_effect hnothing chain terms n with
      ⟨hpending, -⟩ | ⟨tao, hpending, -⟩
    · unfold rootDivsOf
      rw [hpending]
    · have hlt := (chain.rootDivsOf n).isLt
      rw [rootDivsOf.eq_def (sellRootAlpha rt terms chain n), hpending, AList.lookup_insert,
        Option.getD_some, Word.val_satAdd]
      omega
  · rw [sellRootAlpha_rootDivs_of_ne hnothing hn]

/-! ## The drain -/

variable {epoch : Epoch A B P}

/-- The root dividends that the drain of a subnet takes out. -/
def drainedRootTao (chain : Chain A B P) (netuid : NetUid) : ℕ :=
  if chain.shouldRunEpoch netuid then (chain.rootDivsOf netuid).val else 0

/-- The drain takes the root dividends out, and adds them to no counter. -/
theorem drainIfDue_effect (rt : Runtime A B P) (epoch : Epoch A B P) (chain : Chain A B P)
    (netuid : NetUid) :
    (chain.shouldRunEpoch netuid = false ∧ drainIfDue rt epoch chain netuid = chain) ∨
      (chain.shouldRunEpoch netuid = true ∧
        (drainIfDue rt epoch chain netuid).pending.pendingRootDivs =
          chain.pending.pendingRootDivs.insert netuid 0 ∧
        Moves rt chain (drainIfDue rt epoch chain netuid) 0 0 ∧
        KeepsTerms chain (drainIfDue rt epoch chain netuid)) := by
  unfold drainIfDue
  cases hdue : chain.shouldRunEpoch netuid with
  | false => exact Or.inl ⟨rfl, rfl⟩
  | true =>
      have hpays : ∀ (c : Chain A B P) (alpha tao swapped cut : U64) (outcome : HotkeyEmission A),
          PaysStake c (c.drainPendingEmission rt netuid alpha tao swapped cut outcome) :=
        fun _ _ _ _ _ _ => drainPendingEmission_pays
      refine Or.inr ⟨rfl, ?_, ?_, ?_⟩
      · exact congrArg Pending.pendingRootDivs (hpays _ _ _ _ _ _).pending
      · exact Moves.none_then (moves_of_ledger_eq rfl) (hpays _ _ _ _ _ _).moves
      · exact keepsTerms_of_eq (hpays _ _ _ _ _ _).subnets (hpays _ _ _ _ _ _).block


theorem drainIfDue_keepsTerms : KeepsTerms chain (drainIfDue rt epoch chain netuid) := by
  rcases drainIfDue_effect rt epoch chain netuid with ⟨-, heq⟩ | ⟨-, -, -, hkeeps⟩
  · rw [heq]
    exact .refl chain
  · exact hkeeps

theorem drainIfDue_shifts :
    Shifts rt chain (drainIfDue rt epoch chain netuid) (chain.drainedRootTao netuid) := by
  unfold drainedRootTao
  rcases drainIfDue_effect rt epoch chain netuid with ⟨hdue, heq⟩ | ⟨hdue, hpending, hmoves, -⟩
  · rw [heq, hdue]
    exact .refl chain
  · intro hok
    obtain ⟨hok', hvalue, hissuance⟩ := hmoves hok
    have htotal := pendingRootTao_insert hpending
    rw [Word.val_zero] at htotal
    refine ⟨hok', ?_⟩
    unfold issuanceGap
    rw [hvalue, hissuance, if_pos hdue]
    omega

theorem drainIfDue_drainedRootTao {n : NetUid} (hn : n ≠ netuid) :
    (drainIfDue rt epoch chain netuid).drainedRootTao n = chain.drainedRootTao n := by
  unfold drainedRootTao rootDivsOf
  rw [drainIfDue_keepsTerms.shouldRunEpoch]
  rcases drainIfDue_effect rt epoch chain netuid with ⟨-, heq⟩ | ⟨-, hpending, -, -⟩
  · rw [heq]
  · rw [hpending, AList.lookup_insert_ne hn]

/-- All drains of a block widen the gap by what they take out. -/
theorem foldl_drainIfDue_shifts {l : List NetUid} (hnodup : l.Nodup) :
    Shifts rt chain (l.foldl (drainIfDue rt epoch) chain)
      ((l.map chain.drainedRootTao).sum : ℕ) := by
  induction l generalizing chain with
  | nil => exact .refl chain
  | cons n l ih =>
      obtain ⟨hnotin, hnodup⟩ := List.nodup_cons.mp hnodup
      have hsame : l.map (drainIfDue rt epoch chain n).drainedRootTao =
          l.map chain.drainedRootTao := by
        apply List.map_congr_left
        intro m hm
        exact drainIfDue_drainedRootTao (fun h => hnotin (h ▸ hm))
      have hfirst : Shifts rt chain (drainIfDue rt epoch chain n) (chain.drainedRootTao n) :=
        drainIfDue_shifts
      have hshift := hfirst.trans (ih hnodup)
      rw [hsame] at hshift
      rw [List.map_cons, List.sum_cons, Nat.cast_add]
      exact hshift

/-! ## A block -/

/-- What the phases before the drain do to the root dividends. -/
structure Accrues (emitting : List NetUid) (chain chain' : Chain A B P) : Prop where
  rootDivs_le : ∀ n, (chain.rootDivsOf n).val ≤ (chain'.rootDivsOf n).val
  rootDivs_eq : ∀ n, (n ∈ emitting → chain.rootWeight.bits = 0) →
    chain'.rootDivsOf n = chain.rootDivsOf n


omit [DecidableEq A] in
theorem accrues_of_eq {emitting : List NetUid}
    (h : chain'.pending.pendingRootDivs = chain.pending.pendingRootDivs) :
    Accrues emitting chain chain' := by
  have heq : ∀ n, chain'.rootDivsOf n = chain.rootDivsOf n := by
    intro n
    unfold rootDivsOf
    rw [h]
  exact ⟨fun n => (congrArg Word.val (heq n)).ge, fun n _ => heq n⟩

omit [DecidableEq A] in
theorem Accrues.trans {emitting : List NetUid} (hweight : KeepsWeight chain chain₁)
    (h₁ : Accrues emitting chain chain₁) (h₂ : Accrues emitting chain₁ chain₂) :
    Accrues emitting chain chain₂ := by
  refine ⟨fun n => (h₁.rootDivs_le n).trans (h₂.rootDivs_le n), ?_⟩
  intro n hn
  have hn₁ : n ∈ emitting → chain₁.rootWeight.bits = 0 := by
    rw [hweight.rootWeight]
    exact hn
  exact (h₂.rootDivs_eq n hn₁).trans (h₁.rootDivs_eq n hn)

theorem sellRootAlpha_accrues (hnothing : SellsNothingForNothing rt)
    {terms : NetUid → EmissionTerms} {emitting : List NetUid} (hmem : netuid ∈ emitting) :
    Accrues emitting chain (sellRootAlpha rt terms chain netuid) := by
  refine ⟨sellRootAlpha_rootDivs_le hnothing, ?_⟩
  intro n hn
  by_cases hne : n = netuid
  · subst hne
    exact sellRootAlpha_rootDivs_of_weightless hnothing (hn hmem)
  · exact sellRootAlpha_rootDivs_of_ne hnothing hne

/-- What holds of the state along the phases before the drain. -/
structure BeforeDrain (rt : Runtime A B P) (chain chain' : Chain A B P) : Prop where
  weight : KeepsWeight chain chain'
  accrues : Accrues chain.subnetsToEmitTo chain chain'
  shifts : Shifts rt chain chain' 0

omit [DecidableEq A] in
theorem BeforeDrain.step (h : BeforeDrain rt chain chain₁) (hweight : KeepsWeight chain₁ chain₂)
    (haccrues : Accrues chain.subnetsToEmitTo chain₁ chain₂) (hshifts : Shifts rt chain₁ chain₂ 0) :
    BeforeDrain rt chain chain₂ :=
  ⟨h.weight.trans hweight, h.accrues.trans h.weight haccrues, h.shifts.trans_zero hshifts⟩

omit [DecidableEq A] in
theorem injection_beforeDrain (blockEmission : U96F32) :
    BeforeDrain rt chain (chain.injection rt blockEmission) := by
  unfold injection
  refine List.foldlRecOn _ _ (List.foldlRecOn _ _ ?_ ?_) ?_
  · exact ⟨.refl chain, accrues_of_eq rfl, .refl chain⟩
  · intro c hc n _
    refine hc.step (recordBlockEmission_keepsWeight _) (accrues_of_eq ?_) (shifts_of_eq ?_ ?_)
    · rw [recordBlockEmission_pending]
    · exact recordBlockEmission_ledger _
    · rw [recordBlockEmission_pending]
  · intro c hc n hn
    exact hc.step (inject_keepsWeight (ne_root_of_mem hn)) (accrues_of_eq rfl) inject_shifts

/-- Up to the drain the gap stays, when the root sale takes TAO out of the
total stake, or sells nothing. -/
theorem rootSale_beforeDrain (hnothing : SellsNothingForNothing rt) (blockEmission : U96F32)
    (h : ∀ n ∈ chain.subnetsToEmitTo, chain.isDynamic n = true ∨ chain.rootWeight.bits = 0) :
    BeforeDrain rt chain ((chain.injection rt blockEmission).rootSale rt chain.subnetsToEmitTo
      (chain.emissionTerms rt blockEmission)) := by
  unfold rootSale
  refine List.foldlRecOn _ _ (List.foldlRecOn _ _ (injection_beforeDrain blockEmission) ?_) ?_
  · intro c hc n _
    exact hc.step (keepsWeight_of_eq rfl rfl rfl rfl) (accrues_of_eq rfl) (shifts_of_eq rfl rfl)
  · intro c hc n hn
    refine hc.step (sellRootAlpha_keepsWeight (ne_root_of_mem hn))
      (sellRootAlpha_accrues hnothing hn) (sellRootAlpha_shifts hnothing ?_)
    rw [hc.weight.isDynamic, hc.weight.rootWeight]
    exact h n hn

/-- The state of a block before its drains. -/
def coinbaseBeforeDrain (rt : Runtime A B P) (chain : Chain A B P) (blockEmission : U96F32) :
    Chain A B P :=
  chain.subnetsToEmitTo.foldl (updateMovingPrice rt)
    ((chain.injection rt blockEmission).rootSale rt chain.subnetsToEmitTo
      (chain.emissionTerms rt blockEmission))

theorem coinbaseBeforeDrain_beforeDrain (hnothing : SellsNothingForNothing rt)
    (blockEmission : U96F32)
    (h : ∀ n ∈ chain.subnetsToEmitTo, chain.isDynamic n = true ∨ chain.rootWeight.bits = 0) :
    BeforeDrain rt chain (chain.coinbaseBeforeDrain rt blockEmission) := by
  refine List.foldlRecOn _ _ (rootSale_beforeDrain hnothing blockEmission h) ?_
  intro c hc n _
  exact hc.step updateMovingPrice_keepsWeight (accrues_of_eq rfl) (shifts_of_eq rfl rfl)

/-- **The gap of a block.** It grows by the root dividends that are drained. -/
theorem runCoinbase_shifts (hnothing : SellsNothingForNothing rt) (epoch : Epoch A B P)
    (blockEmission : U96F32)
    (h : ∀ n ∈ chain.subnetsToEmitTo, chain.isDynamic n = true ∨ chain.rootWeight.bits = 0) :
    Shifts rt chain (chain.runCoinbase rt epoch blockEmission)
      ((chain.coinbaseSubnets.map
        (chain.coinbaseBeforeDrain rt blockEmission).drainedRootTao).sum : ℕ) := by
  have hnodup : chain.coinbaseSubnets.Nodup := chain.networksAdded.keys_nodup.filter _
  have hbefore := (coinbaseBeforeDrain_beforeDrain hnothing blockEmission h).shifts
  have hdrain : Shifts rt (chain.coinbaseBeforeDrain rt blockEmission)
      (chain.runCoinbase rt epoch blockEmission) _ := foldl_drainIfDue_shifts hnodup
  have hshift := hbefore.trans hdrain
  rw [zero_add] at hshift
  exact hshift

/-! ## Runs -/

/-- `TotalIssuance` is the issuance of the currency, the total stake and the
pending root dividends. -/
def BalancedWithPending (rt : Runtime A B P) (chain : Chain A B P) : Prop :=
  (chain.ledger.totalIssuance.val : ℤ) = chain.accounted rt + chain.pendingRootTao

omit [DecidableEq A] in
theorem balancedWithPending_iff : chain.BalancedWithPending rt ↔ chain.issuanceGap rt = 0 := by
  unfold BalancedWithPending issuanceGap
  omega

/-- No root dividends are drained in the block, and root earns nothing on
stable subnets. -/
def KeepsRootTao (chain : Chain A B P) : Prop :=
  (∀ n ∈ chain.subnetsToEmitTo, chain.isDynamic n = true ∨ chain.rootWeight.bits = 0) ∧
    ∀ n ∈ chain.coinbaseSubnets, chain.shouldRunEpoch n = true →
      chain.rootDivsOf n = 0 ∧ (n ∈ chain.subnetsToEmitTo → chain.rootWeight.bits = 0)

theorem runCoinbase_shifts_zero (hnothing : SellsNothingForNothing rt) (blockEmission : U96F32)
    (h : chain.KeepsRootTao) :
    Shifts rt chain (chain.runCoinbase rt epoch blockEmission) 0 := by
  have hbefore := coinbaseBeforeDrain_beforeDrain hnothing blockEmission h.1
  have hzero : (chain.coinbaseSubnets.map
      (chain.coinbaseBeforeDrain rt blockEmission).drainedRootTao).sum = 0 := by
    apply List.sum_eq_zero
    intro x hx
    obtain ⟨n, hn, rfl⟩ := List.mem_map.mp hx
    unfold drainedRootTao
    rw [hbefore.weight.shouldRunEpoch]
    split_ifs with hdue
    · obtain ⟨hdivs, hweight⟩ := h.2 n hn hdue
      rw [hbefore.accrues.rootDivs_eq n hweight, hdivs]
      rfl
    · rfl
  have hshift := runCoinbase_shifts hnothing epoch blockEmission h.1
  rw [hzero] at hshift
  exact hshift

/-- A block that drains root dividends widens the gap. -/
theorem runCoinbase_gap_le (hnothing : SellsNothingForNothing rt) (blockEmission : U96F32)
    (hdyn : ∀ n ∈ chain.subnetsToEmitTo, chain.isDynamic n = true)
    (hmem : netuid ∈ chain.coinbaseSubnets) (hdue : chain.shouldRunEpoch netuid = true)
    (hok : (chain.runCoinbase rt epoch blockEmission).ledger.overflowed = false) :
    chain.issuanceGap rt + (chain.rootDivsOf netuid).val ≤
      (chain.runCoinbase rt epoch blockEmission).issuanceGap rt := by
  have hsell : ∀ n ∈ chain.subnetsToEmitTo,
      chain.isDynamic n = true ∨ chain.rootWeight.bits = 0 := fun n hn => Or.inl (hdyn n hn)
  have hbefore := coinbaseBeforeDrain_beforeDrain hnothing blockEmission hsell
  obtain ⟨-, hgap⟩ := runCoinbase_shifts hnothing epoch blockEmission hsell hok
  have hdrained : (chain.rootDivsOf netuid).val ≤ (chain.coinbaseSubnets.map
      (chain.coinbaseBeforeDrain rt blockEmission).drainedRootTao).sum := by
    have hle : (chain.rootDivsOf netuid).val ≤
        (chain.coinbaseBeforeDrain rt blockEmission).drainedRootTao netuid := by
      rw [drainedRootTao, hbefore.weight.shouldRunEpoch, if_pos hdue]
      exact hbefore.accrues.rootDivs_le netuid
    exact hle.trans (List.single_le_sum (fun _ _ => Nat.zero_le _) _
      (List.mem_map.mpr ⟨netuid, hmem, rfl⟩))
  rw [hgap]
  omega

/-- A block of a run, or anything between two blocks that keeps the gap. -/
inductive CoinbaseStep (rt : Runtime A B P) : Chain A B P → Chain A B P → Prop where
  | block {chain : Chain A B P} (epoch : Epoch A B P) (blockEmission : U96F32) :
      chain.KeepsRootTao → CoinbaseStep rt chain (chain.runCoinbase rt epoch blockEmission)
  | other {chain chain' : Chain A B P} : Shifts rt chain chain' 0 → CoinbaseStep rt chain chain'

theorem shifts_of_run (hnothing : SellsNothingForNothing rt)
    (hrun : Relation.ReflTransGen (CoinbaseStep rt) chain chain') : Shifts rt chain chain' 0 := by
  induction hrun with
  | refl => exact .refl chain
  | tail _ hstep ih =>
      cases hstep with
      | block epoch blockEmission h =>
          exact ih.trans_zero (runCoinbase_shifts_zero hnothing blockEmission h)
      | other h => exact ih.trans_zero h


/-! ## With the swap pallet -/

omit [DecidableEq A] in
theorem Swap.Pool.swapLoop_zero {cfg : Swap.Config A} {order : Swap.OrderType}
    {limit : Swap.SqrtPrice} {n : ℕ} {pool : Swap.Pool A} :
    Swap.Pool.swapLoop cfg order limit n pool ⟨0, 0, 0, 0⟩ = .ok (pool, ⟨0, 0, 0, 0⟩) := by
  unfold Swap.Pool.swapLoop
  exact if_pos rfl

theorem Swap.Pool.swapInner_zero {cfg : Swap.Config A} {env : Swap.Env A} {order : Swap.OrderType}
    {limit : Swap.SqrtPrice} {pool pool' : Swap.Pool A} {result : Swap.SwapResult}
    (h : pool.swapInner cfg env order 0 limit = .ok (pool', result)) :
    result.amountPaidOut = 0 := by
  unfold Swap.Pool.swapInner at h
  split_ifs at h
  cases hinit : pool.maybeInitializeV3 cfg env with
  | error e =>
      simp only [hinit] at h
      cases h
  | ok pool₁ =>
      simp only [hinit, Swap.Pool.swapLoop_zero] at h
      cases h
      rfl

theorem sellsNothingForNothing_of_swapPallet {rt : Runtime A B (SwapStorage A)}
    {cfg : Swap.Config A} (h : rt.swap = swapPallet cfg) : SellsNothingForNothing rt := by
  intro info swap netuid priceLimit swap' result hsold
  rw [h] at hsold
  change swapPalletSwap cfg info swap netuid .sell 0 priceLimit false = _ at hsold
  unfold swapPalletSwap at hsold
  cases hlimit : limitSqrtPrice priceLimit with
  | none =>
      simp only [hlimit] at hsold
      cases hsold
  | some limit =>
      simp only [hlimit, Swap.Pool.doSwap] at hsold
      cases hinner : (swap.pool netuid).swapInner cfg (swapEnv info) .sell 0 limit with
      | error e =>
          simp only [hinner] at hsold
          cases hsold
      | ok swapped =>
          obtain ⟨pool, r⟩ := swapped
          simp only [hinner, Bool.false_eq_true, if_false] at hsold
          split_ifs at hsold
          · cases hsold
          · cases hsold
            exact Swap.Pool.swapInner_zero hinner

/-- **Block emission and the issuance equation.** In every run whose blocks
drain no root dividends and in which root earns on dynamic subnets only, the
equation with the pending root dividends is kept. A block that does drain
root dividends loses them: nothing adds them to the total stake again. -/
theorem coinbase_issuance {rt : Runtime A B (SwapStorage A)} {cfg : Swap.Config A}
    (hswap : rt.swap = swapPallet cfg) :
    (∀ chain chain' : Chain A B (SwapStorage A),
        Relation.ReflTransGen (CoinbaseStep rt) chain chain' →
        chain'.ledger.overflowed = false → chain.BalancedWithPending rt →
          chain'.BalancedWithPending rt) ∧
      (∀ (chain : Chain A B (SwapStorage A)) (epoch : Epoch A B (SwapStorage A))
        (blockEmission : U96F32) (netuid : NetUid),
        (∀ n ∈ chain.subnetsToEmitTo, chain.isDynamic n = true) →
        netuid ∈ chain.coinbaseSubnets → chain.shouldRunEpoch netuid = true →
        0 < (chain.rootDivsOf netuid).val → chain.BalancedWithPending rt →
        (chain.runCoinbase rt epoch blockEmission).ledger.overflowed = false →
          ¬(chain.runCoinbase rt epoch blockEmission).BalancedWithPending rt) := by
  have hnothing := sellsNothingForNothing_of_swapPallet hswap
  constructor
  · intro chain chain' hrun hok hbalanced
    obtain ⟨-, hgap⟩ := shifts_of_run hnothing hrun hok
    rw [balancedWithPending_iff] at hbalanced ⊢
    rw [hgap, hbalanced, add_zero]
  · intro chain epoch blockEmission netuid hdyn hmem hdue hpos hbalanced hok
    have hgap := runCoinbase_gap_le hnothing blockEmission hdyn hmem hdue hok
    rw [balancedWithPending_iff] at hbalanced ⊢
    omega

/-- A chain on which a TAO is staked to the hotkey `1` on root, in a block in
which subnet `1` reaches its tempo. -/
def rootStakedChain : Chain ℕ (Balances ℕ) (SwapStorage ℕ) :=
  { smallChain with
    block := .sat 1080
    ledger := { smallChain.ledger with
      totalIssuance := .sat 12000000000, totalStake := .sat 2000000000 }
    reserves := fun netuid =>
      if netuid.val = 0 then
        { smallReserves with subnetAlphaIn := 0, subnetAlphaOut := .sat 1000000000 }
      else smallChain.reserves netuid
    stakes :=
      { totalHotkeyAlpha := (∅ : StorageMap (ℕ × NetUid) U64).insert (1, .ROOT) (.sat 1000000000)
        totalHotkeyShares := fun key => if key = (1, .ROOT) then .ofNat 1000000000 else 0
        alpha := (∅ : StorageMap (ℕ × ℕ × NetUid) U64F64).insert (1, 10, .ROOT)
          (.ofNat 1000000000) } }

/-- An epoch in which the hotkey `1` earns everything as a validator. -/
def validatorEpoch : Epoch ℕ B P := fun chain netuid rao => (chain.neurons netuid, [(1, 0, rao)])

/-- A chain on which a billion RAO of root dividends wait, in the same block. -/
def waitingChain : Chain ℕ (Balances ℕ) (SwapStorage ℕ) :=
  { smallChain with
    block := .sat 1080
    ledger := { smallChain.ledger with totalIssuance := .sat 12000000000 }
    pending := { smallChain.pending with
      pendingRootDivs := (∅ : StorageMap NetUid U64).insert (.sat 1) (.sat 1000000000) } }

theorem coinbase_issuance_smallChain :
    (smallChain.runCoinbase runtime validatorEpoch (.ofNat 1000000000)).BalancedWithPending
        runtime ∧
      ¬(waitingChain.runCoinbase runtime validatorEpoch (.ofNat 1000000000)).BalancedWithPending
        runtime := by
  obtain ⟨hkept, hlost⟩ := coinbase_issuance (rfl : runtime.swap = swapPallet swapConfig)
  constructor
  · refine hkept smallChain _ (.single (.block validatorEpoch _ ⟨?_, ?_⟩)) ?_ ?_
    · decide +kernel
    · decide +kernel
    · decide +kernel
    · show (_ : ℤ) = _
      decide +kernel
  · refine hlost waitingChain validatorEpoch _ (.sat 1) ?_ ?_ ?_ ?_ ?_ ?_
    · decide +kernel
    · decide +kernel
    · decide +kernel
    · decide +kernel
    · show (_ : ℤ) = _
      decide +kernel
    · decide +kernel

/-- The root dividends of a block become stake on root, and are missing from
the total stake. -/
theorem runCoinbase_not_balanced :
    rootStakedChain.IssuanceBalanced runtime ∧ rootStakedChain.BalancedWithPending runtime ∧
      ∃ chain, rootStakedChain.runCoinbase runtime validatorEpoch (.ofNat 1000000000) = chain ∧
        chain.ledger.overflowed = false ∧
        (chain.getStakeForHotkeyOnSubnet 1 .ROOT).val = 1022930046 ∧
        chain.pendingRootTao = 0 ∧ chain.ledger.totalIssuance.val = 13000000000 ∧
        chain.accounted runtime = 12977069953 := by
  refine ⟨?_, ?_, _, rfl, ?_⟩
  · show (_ : ℤ) = _
    decide +kernel
  · show (_ : ℤ) = _
    decide +kernel
  · decide +kernel

end Subtensor.Chain
