import Subtensor.Emission.Clock
import Subtensor.Emission.RegistrationTerms
import Subtensor.Emission.Supply

/-!
# The recorded emission

`BlockEmission` is the emission of a block (`coinbase/block_emission.rs`). The function that
computes an emission from an issuance records it, and `run_coinbase` calls it again for the
alpha of every subnet that emits: what is recorded at the end is the emission of the last
subnet for which one was computed.
-/

namespace Subtensor.Chain

open Lib

variable {A B P : Type} {rt : Runtime A B P} {chain chain₁ chain' : Chain A B P} {netuid : NetUid}

/-! ## What is recorded -/

/-- The emission that is recorded for an issuance, if any. -/
def emissionRecorded (rt : Runtime A B P) (issuance : U64) : Option U64 :=
  if totalSupply.val ≤ issuance.val then none else blockEmissionForIssuance rt.log2 issuance

/-- The emissions of alpha that a block records, in order. -/
def alphaEmissionsRecorded (rt : Runtime A B P) (chain : Chain A B P) : List U64 :=
  chain.subnetsToEmitTo.filterMap fun netuid => emissionRecorded rt (chain.getAlphaIssuance netuid)

theorem recordBlockEmission_blockEmission (issuance : U64) :
    (chain.recordBlockEmission rt issuance).blockEmission =
      (emissionRecorded rt issuance).getD chain.blockEmission := by
  unfold recordBlockEmission emissionRecorded
  split_ifs
  · rfl
  · cases blockEmissionForIssuance rt.log2 issuance with
    | none => rfl
    | some emission => rfl

/-- A loop that records keeps the last emission that it computed. -/
theorem foldl_recordBlockEmission (issuance : NetUid → U64) (netuids : List NetUid)
    (chain : Chain A B P) :
    (netuids.foldl (fun c netuid => c.recordBlockEmission rt (issuance netuid))
        chain).blockEmission =
      ((netuids.filterMap fun netuid => emissionRecorded rt (issuance netuid)).getLast?).getD
        chain.blockEmission := by
  induction netuids using List.reverseRecOn with
  | nil => rfl
  | append_singleton netuids netuid ih =>
      rw [List.foldl_append, List.foldl_cons, List.foldl_nil, recordBlockEmission_blockEmission,
        ih, List.filterMap_append]
      cases h : emissionRecorded rt (issuance netuid) with
      | none => simp [h]
      | some emission => simp [h]

/-! ## What a block leaves as it is before the terms are computed -/

/-- The subnets that emit and their alpha are as before. -/
structure KeepsEmitters (chain chain' : Chain A B P) : Prop where
  subnetsToEmitTo : chain'.subnetsToEmitTo = chain.subnetsToEmitTo
  getAlphaIssuance : ∀ n, chain'.getAlphaIssuance n = chain.getAlphaIssuance n

theorem KeepsEmitters.trans (h₁ : KeepsEmitters chain chain₁) (h₂ : KeepsEmitters chain₁ chain') :
    KeepsEmitters chain chain' :=
  ⟨h₂.subnetsToEmitTo.trans h₁.subnetsToEmitTo,
    fun n => (h₂.getAlphaIssuance n).trans (h₁.getAlphaIssuance n)⟩

theorem keepsEmitters_of (hreserves : chain'.reserves = chain.reserves)
    (hnetworks : chain'.networksAdded = chain.networksAdded)
    (hfirst : ∀ n, (chain'.subnets n).firstEmissionBlockNumber =
      (chain.subnets n).firstEmissionBlockNumber) : KeepsEmitters chain chain' := by
  constructor
  · unfold subnetsToEmitTo coinbaseSubnets getAllSubnetNetuids
    rw [hnetworks]
    simp only [hfirst]
  · intro n
    rw [getAlphaIssuance, getAlphaIssuance, hreserves]

theorem adjustRegistrationTerms_keepsEmitters (chain : Chain A B P) (netuid : NetUid) :
    KeepsEmitters chain (chain.adjustRegistrationTerms netuid) := by
  unfold adjustRegistrationTerms
  extract_lets subnet
  split_ifs
  · refine keepsEmitters_of rfl rfl fun n => ?_
    by_cases hn : n = netuid
    · subst hn
      rcases adjustTerms_cases (chain.subnets n) (chain.registrations n) with
        ⟨burn, difficulty, heq, -, -⟩
      rw [show (Chain.subnets _ n) = _ from Function.update_self .., heq]
    · rw [show (Chain.subnets _ n) = _ from Function.update_of_ne hn ..]
  · exact keepsEmitters_of rfl rfl fun _ => rfl

theorem adjustRegistrationTerms_blockEmission (chain : Chain A B P) (netuid : NetUid) :
    (chain.adjustRegistrationTerms netuid).blockEmission = chain.blockEmission := by
  unfold adjustRegistrationTerms
  extract_lets subnet
  split_ifs <;> rfl

theorem foldl_keepsEmitters {f : Chain A B P → NetUid → Chain A B P}
    (h : ∀ c n, KeepsEmitters c (f c n)) (netuids : List NetUid) (chain : Chain A B P) :
    KeepsEmitters chain (netuids.foldl f chain) := by
  induction netuids generalizing chain with
  | nil => exact ⟨rfl, fun _ => rfl⟩
  | cons n netuids ih => exact (h chain n).trans (ih (f chain n))

theorem recordBlockEmission_keepsEmitters (issuance : U64) :
    KeepsEmitters chain (chain.recordBlockEmission rt issuance) := by
  unfold recordBlockEmission
  split_ifs
  · exact ⟨rfl, fun _ => rfl⟩
  · cases blockEmissionForIssuance rt.log2 issuance with
    | none => exact ⟨rfl, fun _ => rfl⟩
    | some emission => exact keepsEmitters_of rfl rfl fun _ => rfl

theorem beforeCoinbase_keepsEmitters : KeepsEmitters chain (chain.beforeCoinbase rt) :=
  (foldl_keepsEmitters adjustRegistrationTerms_keepsEmitters _ chain).trans
    (recordBlockEmission_keepsEmitters _)

theorem beforeCoinbase_blockEmission :
    (chain.beforeCoinbase rt).blockEmission =
      (emissionRecorded rt chain.ledger.totalIssuance).getD chain.blockEmission := by
  unfold beforeCoinbase
  rw [recordBlockEmission_blockEmission,
    foldl_keeps (fun c : Chain A B P => c.blockEmission) adjustRegistrationTerms_blockEmission]

/-! ## What a block leaves as it is afterwards -/

theorem swapAlphaForTao_blockEmission {alpha priceLimit : U64} :
    (chain.swapAlphaForTao rt netuid alpha priceLimit).1.blockEmission = chain.blockEmission := by
  rcases swapAlphaForTao_cases rt chain netuid alpha priceLimit with
    ⟨-, heq⟩ | ⟨-, swap, result, -, ⟨e, -, heq⟩ | ⟨r, -, heq⟩⟩
  · rw [heq]
  · rw [heq]
    rfl
  · rw [heq]
    rfl

theorem sellRootAlpha_blockEmission {terms : NetUid → EmissionTerms} :
    (sellRootAlpha rt terms chain netuid).blockEmission = chain.blockEmission := by
  obtain ⟨alphaOut, alpha, chain₁, -, ⟨e, hsold, heq⟩ | ⟨result, pendingAlpha, hsold, heq⟩⟩ :=
    sellRootAlpha_cases rt terms chain netuid
  all_goals
    have hswap : (chain.swapAlphaForTao rt netuid alpha rt.swap.minPrice).1.blockEmission =
        chain.blockEmission := swapAlphaForTao_blockEmission
    rw [hsold] at hswap
    rw [heq]
    exact hswap

section

variable [DecidableEq A] {epoch : Epoch A B P}

theorem drainIfDue_blockEmission :
    (drainIfDue rt epoch chain netuid).blockEmission = chain.blockEmission := by
  unfold drainIfDue
  split_ifs
  · have hpays : ∀ (c : Chain A B P) (alpha tao swapped cut : U64) (outcome : HotkeyEmission A),
        PaysStake c (c.drainPendingEmission rt netuid alpha tao swapped cut outcome) :=
      fun _ _ _ _ _ _ => drainPendingEmission_pays
    exact (hpays _ _ _ _ _ _).blockEmission
  · rfl

/-- The coinbase records what it computes for the alpha of the subnets that emit. -/
theorem runCoinbase_blockEmission {blockEmission : U96F32} :
    (chain.runCoinbase rt epoch blockEmission).blockEmission =
      (chain.alphaEmissionsRecorded rt).getLast?.getD chain.blockEmission := by
  have hdrain := foldl_keeps (f := drainIfDue rt epoch) (fun c => c.blockEmission)
    fun _ _ => drainIfDue_blockEmission
  have hprice := foldl_keeps (f := updateMovingPrice rt) (fun c => c.blockEmission)
    fun _ _ => rfl
  have hsell := foldl_keeps (f := sellRootAlpha rt (chain.emissionTerms rt blockEmission))
    (fun c => c.blockEmission) fun _ _ => sellRootAlpha_blockEmission
  have hcut := foldl_keeps (f := addPendingOwnerCut (chain.emissionTerms rt blockEmission))
    (fun c : Chain A B P => c.blockEmission) fun _ _ => rfl
  have hinject := foldl_keeps (f := inject rt (chain.emissionTerms rt blockEmission))
    (fun c : Chain A B P => c.blockEmission) fun _ _ => rfl
  refine (hdrain _ _).trans ((hprice _ _).trans ((hsell _ _).trans ((hcut _ _).trans
    ((hinject _ _).trans ?_))))
  exact foldl_recordBlockEmission chain.getAlphaIssuance _ chain

theorem trySetPendingChildren_blockEmission :
    chain.trySetPendingChildren.blockEmission = chain.blockEmission := by
  refine foldl_keeps (fun c : Chain A B P => c.blockEmission) (fun c n => ?_) _ chain
  split_ifs <;> rfl

/-- What is recorded after a block: the last emission of alpha, or that of TAO. -/
theorem blockStep_blockEmission (rt : Runtime A B P) (epoch : Epoch A B P)
    (chain : Chain A B P) :
    (chain.blockStep rt epoch).blockEmission =
      (chain.alphaEmissionsRecorded rt).getLast?.getD
        ((emissionRecorded rt chain.ledger.totalIssuance).getD chain.blockEmission) := by
  have hkeeps : KeepsEmitters chain (chain.beforeCoinbase rt) := beforeCoinbase_keepsEmitters
  have halpha : (chain.beforeCoinbase rt).alphaEmissionsRecorded rt =
      chain.alphaEmissionsRecorded rt := by
    unfold alphaEmissionsRecorded
    rw [hkeeps.subnetsToEmitTo]
    simp only [hkeeps.getAlphaIssuance]
  unfold blockStep
  extract_lets blockEmission
  rw [trySetPendingChildren_blockEmission, runCoinbase_blockEmission, halpha,
    beforeCoinbase_blockEmission]

/-- **The recorded emission.** Below the total supply, a block leaves the emission of TAO in
`BlockEmission` exactly if the last emission that was computed for the alpha of a subnet is
the same. -/
theorem blockStep_records_iff (rt : Runtime A B P) (epoch : Epoch A B P) (chain : Chain A B P)
    (hsupply : chain.ledger.totalIssuance.val < totalSupply.val) (emission : U64)
    (hemission : chain.getBlockEmission rt = some emission) :
    (chain.blockStep rt epoch).blockEmission = emission ↔
      ∀ alphaEmission ∈ (chain.alphaEmissionsRecorded rt).getLast?, alphaEmission = emission := by
  have htao : emissionRecorded rt chain.ledger.totalIssuance = some emission := by
    rw [emissionRecorded, if_neg (not_le.mpr hsupply)]
    exact hemission
  rw [blockStep_blockEmission, htao, Option.getD_some]
  cases (chain.alphaEmissionsRecorded rt).getLast? with
  | none => simp
  | some alphaEmission => simp

end

/-- The alpha of subnet `1` is worth the same emission as TAO. -/
theorem blockStep_records_iff_smallChain :
    (smallChain.blockStep runtime idleEpoch).blockEmission = .sat 1000000000 ↔
      ∀ alphaEmission ∈ (smallChain.alphaEmissionsRecorded runtime).getLast?,
        alphaEmission = .sat 1000000000 :=
  blockStep_records_iff runtime idleEpoch smallChain (by decide) (.sat 1000000000)
    (by decide +kernel)

/-- A chain on which half of the alpha of subnet `1` has been issued. -/
def halvedChain : Chain ℕ (Balances ℕ) (SwapStorage ℕ) :=
  { smallChain with
    reserves := fun netuid =>
      if netuid.val = 1 then { smallReserves with subnetAlphaOut := .sat 10500000000000000 }
      else smallChain.reserves netuid }

/-- The emission of its alpha is recorded in place of the emission of TAO. -/
theorem blockStep_records_alpha :
    halvedChain.ledger.totalIssuance.val < totalSupply.val ∧
      halvedChain.getBlockEmission runtime = some (.sat 1000000000) ∧
      (halvedChain.blockStep runtime idleEpoch).blockEmission = .sat 500000000 := by
  refine ⟨?_, ?_, ?_⟩
  · decide
  · decide +kernel
  · rw [blockStep_blockEmission]
    decide +kernel

end Subtensor.Chain
