import Subtensor.Emission.BlockStep
import Subtensor.Pallet.Instances

/-!
# Terms of registrations

The burn and the difficulty of a subnet move with the number of registrations
(`upgraded_burn` and `upgraded_difficulty` in `coinbase/block_step.rs`). The average is taken
with eighteen fractional bits and truncated at three places. No truncation lets a term drift:
each of them rounds a multiple of the current term to itself.
-/

namespace Subtensor.Chain

open Lib

variable {A B P : Type}

def upgradedBurn (chain : Chain A B P) (netuid : NetUid) (currentBurn : U64)
    (registrationsThisInterval targetRegistrationsPerInterval : U16) : U64 :=
  upgradedTerm currentBurn registrationsThisInterval targetRegistrationsPerInterval
    (chain.subnets netuid).adjustmentAlpha (chain.subnets netuid).minBurn
    (chain.subnets netuid).maxBurn

def upgradedDifficulty (chain : Chain A B P) (netuid : NetUid) (currentDifficulty : U64)
    (registrationsThisInterval targetRegistrationsPerInterval : U16) : U64 :=
  upgradedTerm currentDifficulty registrationsThisInterval targetRegistrationsPerInterval
    (chain.subnets netuid).adjustmentAlpha (chain.subnets netuid).minDifficulty
    (chain.subnets netuid).maxDifficulty

/-! ## The average -/

/-- The bits of the average of `current` and `current * actual / wanted`, where the weight of
the first is `alpha` in units of `2 ^ -18`. -/
def nextBits (current alpha actual wanted : ℕ) : ℕ :=
  alpha * current + (2 ^ 18 - alpha) * (current * actual * 2 ^ 18 / wanted) / 2 ^ 18

section

variable {current alpha actual actual' wanted : ℕ}

theorem nextBits_mono (h : actual ≤ actual') :
    nextBits current alpha actual wanted ≤ nextBits current alpha actual' wanted := by
  unfold nextBits
  gcongr

theorem nextBits_self (halpha : alpha ≤ 2 ^ 18) (hwanted : 0 < wanted) :
    nextBits current alpha wanted wanted = current * 2 ^ 18 := by
  have hratio : current * wanted * 2 ^ 18 / wanted = current * 2 ^ 18 := by
    rw [mul_right_comm, Nat.mul_div_cancel _ hwanted]
  unfold nextBits
  rw [hratio, ← mul_assoc, Nat.mul_div_cancel _ (by norm_num), ← add_mul,
    Nat.add_sub_cancel' halpha, mul_comm]

theorem le_nextBits (halpha : alpha ≤ 2 ^ 18) (hwanted : 0 < wanted) (h : wanted ≤ actual) :
    current * 2 ^ 18 ≤ nextBits current alpha actual wanted :=
  (nextBits_self halpha hwanted).symm.trans_le (nextBits_mono h)

theorem nextBits_le (halpha : alpha ≤ 2 ^ 18) (hwanted : 0 < wanted) (h : actual ≤ wanted) :
    nextBits current alpha actual wanted ≤ current * 2 ^ 18 :=
  (nextBits_mono h).trans_eq (nextBits_self halpha hwanted)

end

/-! ## The bounds -/

/-- A value with eighteen fractional bits is truncated and kept within bounds. -/
def clampBits (least most bits : ℕ) : ℕ :=
  if most * 2 ^ 18 ≤ bits then most else if bits ≤ least * 2 ^ 18 then least else bits / 2 ^ 18

section

variable {least most bits bits' term : ℕ}

/-- Between the bounds, clamping is truncation. -/
theorem clampBits_eq (hle : least ≤ most) :
    clampBits least most bits = max least (min most (bits / 2 ^ 18)) := by
  unfold clampBits
  split_ifs <;> omega

theorem clampBits_mem (hle : least ≤ most) :
    least ≤ clampBits least most bits ∧ clampBits least most bits ≤ most := by
  rw [clampBits_eq hle]
  exact ⟨le_max_left _ _, max_le hle (min_le_left _ _)⟩

theorem clampBits_mono (hle : least ≤ most) (h : bits ≤ bits') :
    clampBits least most bits ≤ clampBits least most bits' := by
  rw [clampBits_eq hle, clampBits_eq hle]
  gcongr

theorem clampBits_mul (hleast : least ≤ term) (hmost : term ≤ most) :
    clampBits least most (term * 2 ^ 18) = term := by
  rw [clampBits_eq (hleast.trans hmost), Nat.mul_div_cancel _ (by norm_num),
    min_eq_right hmost, max_eq_right hleast]

end

/-! ## The code computes the clamped average -/

/-- The weight of the current term, in units of `2 ^ -18`. -/
def alphaBits (adjustmentAlpha : U64) : ℕ := adjustmentAlpha.val * 2 ^ 18 / (2 ^ 64 - 1)

theorem alphaBits_le (adjustmentAlpha : U64) : alphaBits adjustmentAlpha ≤ 2 ^ 18 := by
  have hlt := adjustmentAlpha.isLt
  unfold alphaBits
  omega

variable {current adjustmentAlpha least most : U64} {registrations registrations' target : U16}

theorem val_satAdd_self_pos (h : 1 ≤ target.val) : 0 < (target.satAdd target).val := by
  rw [Word.val_satAdd]
  omega

/-- The current term, scaled by what came over what was wanted. -/
theorem bits_updated {actual wanted : U16} {updated : U110F18} (hwanted : 0 < wanted.val)
    (heq : updated = ((UFixed.ofNat current.val).satMul (.ofNat actual.val)).safeDiv
      (.ofNat wanted.val)) :
    updated.bits = current.val * actual.val * 2 ^ 18 / wanted.val := by
  have hcurrent : (UFixed.ofNat current.val : U110F18).bits = current.val * 2 ^ 18 :=
    UFixed.bits_ofNat_of_lt (current.isLt.trans (by norm_num))
  have hactual : (UFixed.ofNat actual.val : U110F18).bits = actual.val * 2 ^ 18 :=
    UFixed.bits_ofNat_of_lt (actual.isLt.trans (by norm_num))
  have hproduct : current.val * 2 ^ 18 * (actual.val * 2 ^ 18) / 2 ^ 18 =
      current.val * actual.val * 2 ^ 18 := by
    rw [← mul_assoc, Nat.mul_div_cancel _ (by norm_num), mul_right_comm]
  have hfits : current.val * actual.val ≤ 2 ^ 64 * 2 ^ 16 :=
    Nat.mul_le_mul current.isLt.le actual.isLt.le
  rw [heq, UFixed.bits_safeDiv_ofNat _ hwanted (wanted.isLt.trans (by norm_num)), UFixed.bits_satMul,
    hcurrent, hactual, hproduct, min_eq_left (by omega)]

theorem bits_alpha {alpha : U110F18}
    (heq : alpha = (UFixed.ofNat adjustmentAlpha.val).safeDiv (.ofNat (2 ^ 64 - 1))) :
    alpha.bits = alphaBits adjustmentAlpha := by
  rw [heq, UFixed.bits_safeDiv_ofNat _ (by norm_num) (by norm_num),
    UFixed.bits_ofNat_of_lt (adjustmentAlpha.isLt.trans (by norm_num))]
  rfl

theorem bits_next {alpha updated next : U110F18} (halpha : alpha.bits ≤ 2 ^ 18)
    (hupdated : updated.bits ≤ 2 ^ 98)
    (heq : next = (alpha.satMul (.ofNat current.val)).satAdd
      (((UFixed.ofNat 1).satSub alpha).satMul updated)) :
    next.bits = alpha.bits * current.val + (2 ^ 18 - alpha.bits) * updated.bits / 2 ^ 18 := by
  have hcurrent : (UFixed.ofNat current.val : U110F18).bits = current.val * 2 ^ 18 :=
    UFixed.bits_ofNat_of_lt (current.isLt.trans (by norm_num))
  have hone : (UFixed.ofNat 1 : U110F18).bits = 2 ^ 18 := by decide +kernel
  have hfirst : alpha.bits * current.val ≤ 2 ^ 18 * 2 ^ 64 :=
    Nat.mul_le_mul halpha current.isLt.le
  have hsecond : (2 ^ 18 - alpha.bits) * updated.bits / 2 ^ 18 ≤ 2 ^ 98 := by
    calc (2 ^ 18 - alpha.bits) * updated.bits / 2 ^ 18
        ≤ 2 ^ 18 * updated.bits / 2 ^ 18 := by gcongr; exact Nat.sub_le _ _
      _ = updated.bits := Nat.mul_div_cancel_left _ (by norm_num)
      _ ≤ 2 ^ 98 := hupdated
  rw [heq, UFixed.bits_satAdd, UFixed.bits_satMul, UFixed.bits_satMul, UFixed.bits_satSub, hcurrent,
    hone, ← mul_assoc, Nat.mul_div_cancel _ (by norm_num), min_eq_left (by omega),
    min_eq_left (by omega), min_eq_left (by omega)]

theorem val_satAdd_mono (h : registrations.val ≤ registrations'.val) :
    (registrations.satAdd target).val ≤ (registrations'.satAdd target).val := by
  rw [Word.val_satAdd, Word.val_satAdd]
  gcongr

theorem val_toWord_of_lt {next : U110F18} (h : next.bits / 2 ^ 18 < 2 ^ 64) :
    (next.toWord 64).val = next.bits / 2 ^ 18 :=
  Word.val_sat_of_lt h

/-- No saturation but that of the two sums is ever reached. -/
theorem upgradedTerm_val (htarget : 1 ≤ target.val) :
    (upgradedTerm current registrations target adjustmentAlpha least most).val =
      clampBits least.val most.val (nextBits current.val (alphaBits adjustmentAlpha)
        (registrations.satAdd target).val (target.satAdd target).val) := by
  have hfits : current.val * (registrations.satAdd target).val ≤ 2 ^ 64 * 2 ^ 16 :=
    Nat.mul_le_mul current.isLt.le (registrations.satAdd target).isLt.le
  have hmost : (UFixed.ofNat most.val : U110F18).bits = most.val * 2 ^ 18 :=
    UFixed.bits_ofNat_of_lt (most.isLt.trans (by norm_num))
  have hleast : (UFixed.ofNat least.val : U110F18).bits = least.val * 2 ^ 18 :=
    UFixed.bits_ofNat_of_lt (least.isLt.trans (by norm_num))
  unfold upgradedTerm
  extract_lets updated alpha next
  have hupdated : updated.bits = current.val * (registrations.satAdd target).val * 2 ^ 18 /
      (target.satAdd target).val := bits_updated (val_satAdd_self_pos htarget) rfl
  have halpha : alpha.bits = alphaBits adjustmentAlpha := bits_alpha rfl
  have hle : updated.bits ≤ 2 ^ 98 := by
    rw [hupdated]
    exact (Nat.div_le_self _ _).trans (by omega)
  have hnext : next.bits = nextBits current.val (alphaBits adjustmentAlpha)
      (registrations.satAdd target).val (target.satAdd target).val := by
    rw [bits_next (halpha.trans_le (alphaBits_le _)) hle rfl, halpha, hupdated, nextBits]
  rw [hmost, hleast, ← hnext, clampBits]
  split_ifs with hover hunder
  · rfl
  · rfl
  · have hlt := most.isLt
    exact val_toWord_of_lt (by omega)

/-- What an adjustment does to a term, as a function of the registrations. -/
structure Adjusts (upgraded : U16 → U64) (target : U16) (least most current : U64) : Prop where
  within : ∀ registrations, least.val ≤ (upgraded registrations).val ∧
    (upgraded registrations).val ≤ most.val
  mono : ∀ registrations registrations', registrations.val ≤ registrations'.val →
    (upgraded registrations).val ≤ (upgraded registrations').val
  raises : ∀ registrations, target.val ≤ registrations.val →
    current.val ≤ (upgraded registrations).val
  lowers : ∀ registrations, registrations.val ≤ target.val →
    (upgraded registrations).val ≤ current.val

theorem adjusts_of_clamp {upgraded : U16 → U64} (htarget : 1 ≤ target.val)
    (hleast : least.val ≤ current.val) (hmost : current.val ≤ most.val)
    (hval : ∀ registrations, (upgraded registrations).val =
      clampBits least.val most.val (nextBits current.val (alphaBits adjustmentAlpha)
        (registrations.satAdd target).val (target.satAdd target).val)) :
    Adjusts upgraded target least most current := by
  have hle := hleast.trans hmost
  have halpha := alphaBits_le adjustmentAlpha
  have hwanted := val_satAdd_self_pos htarget
  refine ⟨fun registrations => ?_, fun registrations registrations' h => ?_,
    fun registrations h => ?_, fun registrations h => ?_⟩
  · rw [hval]
    exact clampBits_mem hle
  · rw [hval, hval]
    exact clampBits_mono hle (nextBits_mono (val_satAdd_mono h))
  · rw [hval]
    calc current.val = clampBits least.val most.val (current.val * 2 ^ 18) :=
          (clampBits_mul hleast hmost).symm
      _ ≤ _ := clampBits_mono hle (le_nextBits halpha hwanted (val_satAdd_mono h))
  · rw [hval]
    calc _ ≤ clampBits least.val most.val (current.val * 2 ^ 18) :=
          clampBits_mono hle (nextBits_le halpha hwanted (val_satAdd_mono h))
      _ = current.val := clampBits_mul hleast hmost

theorem upgradedTerm_adjusts (htarget : 1 ≤ target.val) (hleast : least.val ≤ current.val)
    (hmost : current.val ≤ most.val) :
    Adjusts (fun registrations =>
      upgradedTerm current registrations target adjustmentAlpha least most) target least most
        current := by
  have hval : ∀ f : U16 → U64, f = (fun registrations =>
      upgradedTerm current registrations target adjustmentAlpha least most) →
        ∀ registrations, (f registrations).val =
          clampBits least.val most.val (nextBits current.val (alphaBits adjustmentAlpha)
            (registrations.satAdd target).val (target.satAdd target).val) := by
    intro f hf registrations
    have heq : f registrations =
        upgradedTerm current registrations target adjustmentAlpha least most :=
      congrFun hf registrations
    rw [heq, upgradedTerm_val htarget]
  exact adjusts_of_clamp htarget hleast hmost (hval _ rfl)

/-- Whatever the registrations, the result is within the bounds, also without a target. -/
theorem upgradedTerm_mem (hle : least.val ≤ most.val) :
    least.val ≤ (upgradedTerm current registrations target adjustmentAlpha least most).val ∧
      (upgradedTerm current registrations target adjustmentAlpha least most).val ≤ most.val := by
  have hmost : (UFixed.ofNat most.val : U110F18).bits = most.val * 2 ^ 18 :=
    UFixed.bits_ofNat_of_lt (most.isLt.trans (by norm_num))
  have hleast : (UFixed.ofNat least.val : U110F18).bits = least.val * 2 ^ 18 :=
    UFixed.bits_ofNat_of_lt (least.isLt.trans (by norm_num))
  unfold upgradedTerm
  extract_lets updated alpha next
  clear_value next
  rw [hmost, hleast]
  by_cases hover : most.val * 2 ^ 18 ≤ next.bits
  · rw [if_pos hover]
    exact ⟨hle, le_rfl⟩
  · rw [if_neg hover]
    by_cases hunder : next.bits ≤ least.val * 2 ^ 18
    · rw [if_pos hunder]
      exact ⟨le_rfl, hle⟩
    · have hlt := most.isLt
      rw [if_neg hunder, val_toWord_of_lt (by omega)]
      omega

/-- **Registration terms.** The burn and the difficulty stay within their bounds, grow with the
registrations, rise when there were at least as many as wanted and fall when there were at
most as many. -/
theorem upgradedTerms_adjust (chain : Chain A B P) (netuid : NetUid) (target : U16)
    (htarget : 1 ≤ target.val) :
    (∀ currentBurn : U64, (chain.subnets netuid).minBurn.val ≤ currentBurn.val →
      currentBurn.val ≤ (chain.subnets netuid).maxBurn.val →
      Adjusts (fun registrations => chain.upgradedBurn netuid currentBurn registrations target)
        target (chain.subnets netuid).minBurn (chain.subnets netuid).maxBurn currentBurn) ∧
    ∀ currentDifficulty : U64,
      (chain.subnets netuid).minDifficulty.val ≤ currentDifficulty.val →
      currentDifficulty.val ≤ (chain.subnets netuid).maxDifficulty.val →
      Adjusts (fun registrations =>
          chain.upgradedDifficulty netuid currentDifficulty registrations target) target
        (chain.subnets netuid).minDifficulty (chain.subnets netuid).maxDifficulty
        currentDifficulty :=
  ⟨fun _ => upgradedTerm_adjusts htarget, fun _ => upgradedTerm_adjusts htarget⟩

theorem upgradedTerms_adjust_smallChain :
    Adjusts (fun registrations => smallChain.upgradedBurn (.sat 1)
        (.sat 100000000000) registrations (.sat 65535)) (.sat 65535) (.sat 500000)
        (.sat 100000000000) (.sat 100000000000) ∧
      Adjusts (fun registrations => smallChain.upgradedDifficulty (.sat 1)
        (.sat 10000000) registrations (.sat 65535)) (.sat 65535) (.sat 10000000)
        (.sat 4611686018427387903) (.sat 10000000) := by
  obtain ⟨hburn, hdifficulty⟩ := upgradedTerms_adjust smallChain (.sat 1) (.sat 65535) (by decide)
  exact ⟨hburn (.sat 100000000000) (by decide) (by decide),
    hdifficulty (.sat 10000000) (by decide) (by decide)⟩

/-! ## All networks -/

/-- The terms of a subnet are within their bounds. -/
structure TermsWithin (subnet : Subnet A) : Prop where
  minBurn : subnet.minBurn.val ≤ subnet.burn.val
  maxBurn : subnet.burn.val ≤ subnet.maxBurn.val
  minDifficulty : subnet.minDifficulty.val ≤ subnet.difficulty.val
  maxDifficulty : subnet.difficulty.val ≤ subnet.maxDifficulty.val

/-- An adjustment changes the burn and the difficulty only, each to its upgrade. -/
theorem adjustTerms_cases (subnet : Subnet A) (registrations : Registrations) :
    ∃ burn difficulty,
      adjustTerms subnet registrations = { subnet with burn := burn, difficulty := difficulty } ∧
      (burn = subnet.burn ∨ burn = upgradedTerm subnet.burn registrations.thisInterval
        subnet.targetRegistrationsPerInterval subnet.adjustmentAlpha subnet.minBurn
        subnet.maxBurn) ∧
      (difficulty = subnet.difficulty ∨ difficulty = upgradedTerm subnet.difficulty
        registrations.thisInterval subnet.targetRegistrationsPerInterval subnet.adjustmentAlpha
        subnet.minDifficulty subnet.maxDifficulty) := by
  unfold adjustTerms
  extract_lets most burn difficulty
  split_ifs
  · exact ⟨_, _, rfl, Or.inl rfl, Or.inr rfl⟩
  · exact ⟨_, _, rfl, Or.inr rfl, Or.inl rfl⟩
  · exact ⟨_, _, rfl, Or.inr rfl, Or.inl rfl⟩
  · exact ⟨_, _, rfl, Or.inl rfl, Or.inr rfl⟩
  · exact ⟨_, _, rfl, Or.inr rfl, Or.inr rfl⟩

theorem TermsWithin.adjust {subnet : Subnet A} (h : TermsWithin subnet)
    (registrations : Registrations) : TermsWithin (adjustTerms subnet registrations) := by
  have hburns := h.minBurn.trans h.maxBurn
  have hdifficulties := h.minDifficulty.trans h.maxDifficulty
  rcases adjustTerms_cases subnet registrations with ⟨burn, difficulty, heq, hburn, hdifficulty⟩
  rw [heq]
  refine ⟨?_, ?_, ?_, ?_⟩
  · rcases hburn with rfl | rfl
    · exact h.minBurn
    · exact (upgradedTerm_mem hburns).1
  · rcases hburn with rfl | rfl
    · exact h.maxBurn
    · exact (upgradedTerm_mem hburns).2
  · rcases hdifficulty with rfl | rfl
    · exact h.minDifficulty
    · exact (upgradedTerm_mem hdifficulties).1
  · rcases hdifficulty with rfl | rfl
    · exact h.maxDifficulty
    · exact (upgradedTerm_mem hdifficulties).2

/-- `adjust_registration_terms_for_networks` keeps all terms within their bounds. -/
theorem adjustRegistrationTerms_within {chain : Chain A B P}
    (h : ∀ netuid, TermsWithin (chain.subnets netuid)) (netuids : List NetUid) (netuid : NetUid) :
    TermsWithin ((netuids.foldl adjustRegistrationTerms chain).subnets netuid) := by
  induction netuids generalizing chain with
  | nil => exact h netuid
  | cons first rest ih =>
      refine ih fun other => ?_
      unfold adjustRegistrationTerms
      extract_lets subnet
      split_ifs
      · by_cases heq : other = first
        · subst heq
          have hadjust := (h other).adjust (chain.registrations other)
          rw [show (Chain.subnets _ other) = _ from Function.update_self ..]
          exact ⟨hadjust.minBurn, hadjust.maxBurn, hadjust.minDifficulty, hadjust.maxDifficulty⟩
        · rw [show (Chain.subnets _ other) = _ from Function.update_of_ne heq ..]
          exact h other
      · exact h other

end Subtensor.Chain
