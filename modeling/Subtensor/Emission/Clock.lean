import Subtensor.Emission.BlockStep
import Subtensor.Emission.Frame

/-!
# The clock of the subnets

The step of a block reads the number of the block and the tempo of every
subnet, and changes neither: whether a subnet is due does not depend on what
was done for other subnets before.
-/

namespace Subtensor.Chain

open Lib

variable {A B P : Type} {rt : Runtime A B P} {chain chain₁ chain' : Chain A B P} {netuid : NetUid}

/-- The number of the block, the subnets that exist and their tempos are as
before. -/
structure KeepsClock (chain chain' : Chain A B P) : Prop where
  block : chain'.block = chain.block
  tempo : ∀ n, (chain'.subnets n).tempo = (chain.subnets n).tempo
  networksAdded : chain'.networksAdded = chain.networksAdded

namespace KeepsClock

theorem refl (chain : Chain A B P) : KeepsClock chain chain := ⟨rfl, fun _ => rfl, rfl⟩

theorem trans (h₁ : KeepsClock chain chain₁) (h₂ : KeepsClock chain₁ chain') :
    KeepsClock chain chain' :=
  ⟨h₂.block.trans h₁.block, fun n => (h₂.tempo n).trans (h₁.tempo n),
    h₂.networksAdded.trans h₁.networksAdded⟩

theorem of_subnets (hblock : chain'.block = chain.block)
    (hsubnets : chain'.subnets = chain.subnets)
    (hnetworks : chain'.networksAdded = chain.networksAdded) : KeepsClock chain chain' :=
  ⟨hblock, fun _ => by rw [hsubnets], hnetworks⟩

theorem coinbaseSubnets (h : KeepsClock chain chain') :
    chain'.coinbaseSubnets = chain.coinbaseSubnets := by
  unfold Chain.coinbaseSubnets getAllSubnetNetuids
  rw [h.networksAdded]

theorem foldl {f : Chain A B P → NetUid → Chain A B P} (h : ∀ c n, KeepsClock c (f c n))
    (netuids : List NetUid) (chain : Chain A B P) : KeepsClock chain (netuids.foldl f chain) := by
  induction netuids generalizing chain with
  | nil => exact refl chain
  | cons n netuids ih => exact (h chain n).trans (ih (f chain n))

end KeepsClock

theorem withSubnet_keepsClock {f : Subnet A → Subnet A}
    (hf : ∀ subnet, (f subnet).tempo = subnet.tempo) :
    KeepsClock chain (chain.withSubnet netuid f) := by
  refine ⟨rfl, ?_, rfl⟩
  intro n
  by_cases hn : n = netuid
  · subst hn
    simp [withSubnet, hf]
  · simp [withSubnet, hn]

/-! ## The phases -/

theorem adjustTerms_tempo (subnet : Subnet A) (registrations : Registrations) :
    (adjustTerms subnet registrations).tempo = subnet.tempo := by
  simp only [adjustTerms]
  split_ifs <;> rfl

theorem adjustRegistrationTerms_keepsClock :
    KeepsClock chain (chain.adjustRegistrationTerms netuid) := by
  unfold adjustRegistrationTerms
  extract_lets subnet
  split_ifs
  · have hadjusted : KeepsClock chain (chain.withSubnet netuid fun subnet =>
        { adjustTerms subnet (chain.registrations netuid) with
          lastAdjustmentBlock := chain.block }) :=
      withSubnet_keepsClock fun subnet => adjustTerms_tempo subnet _
    exact ⟨hadjusted.block, hadjusted.tempo, rfl⟩
  · exact .of_subnets rfl rfl rfl

theorem recordBlockEmission_keepsClock (issuance : U64) :
    KeepsClock chain (chain.recordBlockEmission rt issuance) := by
  unfold recordBlockEmission
  split_ifs
  · exact .refl chain
  · cases blockEmissionForIssuance rt.log2 issuance with
    | none => exact .refl chain
    | some emission => exact .of_subnets rfl rfl rfl

theorem swapAlphaForTao_keepsClock {alpha priceLimit : U64} :
    KeepsClock chain (chain.swapAlphaForTao rt netuid alpha priceLimit).1 := by
  rcases swapAlphaForTao_cases rt chain netuid alpha priceLimit with
    ⟨-, heq⟩ | ⟨-, swap, result, -, ⟨e, -, heq⟩ | ⟨r, -, heq⟩⟩
  · rw [heq]
    exact .refl chain
  · rw [heq]
    exact .of_subnets rfl rfl rfl
  · rw [heq]
    exact .of_subnets rfl rfl rfl

theorem sellRootAlpha_keepsClock {terms : NetUid → EmissionTerms} :
    KeepsClock chain (sellRootAlpha rt terms chain netuid) := by
  obtain ⟨alphaOut, alpha, chain₁, -, ⟨e, hsold, heq⟩ | ⟨result, pendingAlpha, hsold, heq⟩⟩ :=
    sellRootAlpha_cases rt terms chain netuid
  all_goals
    have hswap : KeepsClock chain (chain.swapAlphaForTao rt netuid alpha rt.swap.minPrice).1 :=
      swapAlphaForTao_keepsClock
    rw [hsold] at hswap
    rw [heq]
    exact hswap.trans (.of_subnets rfl rfl rfl)

theorem injection_keepsClock {blockEmission : U96F32} :
    KeepsClock chain (chain.injection rt blockEmission) := by
  have hrecord : ∀ c n, KeepsClock c (c.recordBlockEmission rt (chain.getAlphaIssuance n)) :=
    fun _ _ => recordBlockEmission_keepsClock _
  have hinject : ∀ c n, KeepsClock c (inject rt (chain.emissionTerms rt blockEmission) c n) :=
    fun _ _ => .of_subnets rfl rfl rfl
  exact (KeepsClock.foldl hrecord _ chain).trans (KeepsClock.foldl hinject _ _)

theorem rootSale_keepsClock {emitting : List NetUid} {terms : NetUid → EmissionTerms} :
    KeepsClock chain (chain.rootSale rt emitting terms) := by
  have hcut : ∀ (c : Chain A B P) n, KeepsClock c (addPendingOwnerCut terms c n) :=
    fun _ _ => .of_subnets rfl rfl rfl
  have hsell : ∀ c n, KeepsClock c (sellRootAlpha rt terms c n) :=
    fun _ _ => sellRootAlpha_keepsClock
  exact (KeepsClock.foldl hcut _ chain).trans (KeepsClock.foldl hsell _ _)

theorem updateMovingPrice_keepsClock : KeepsClock chain (updateMovingPrice rt chain netuid) :=
  withSubnet_keepsClock fun _ => rfl

theorem beforeCoinbase_keepsClock : KeepsClock chain (chain.beforeCoinbase rt) :=
  (KeepsClock.foldl (fun _ _ => adjustRegistrationTerms_keepsClock) _ chain).trans
    (recordBlockEmission_keepsClock _)

section

variable [DecidableEq A]

theorem drainIfDue_keepsClock {epoch : Epoch A B P} :
    KeepsClock chain (drainIfDue rt epoch chain netuid) := by
  unfold drainIfDue
  split_ifs
  · have hpays : ∀ (c : Chain A B P) (alpha tao swapped cut : U64) (outcome : HotkeyEmission A),
        PaysStake c (c.drainPendingEmission rt netuid alpha tao swapped cut outcome) :=
      fun _ _ _ _ _ _ => drainPendingEmission_pays
    exact .of_subnets (hpays _ _ _ _ _ _).block (hpays _ _ _ _ _ _).subnets
      (hpays _ _ _ _ _ _).networksAdded
  · exact .refl chain

theorem trySetPendingChildren_keepsClock : KeepsClock chain chain.trySetPendingChildren := by
  refine KeepsClock.foldl ?_ _ chain
  intro c n
  split_ifs
  · exact .of_subnets rfl rfl rfl
  · exact .refl c

end

end Subtensor.Chain
