import Subtensor.Lib.Run
import Subtensor.Lib.StorageMap
import Subtensor.SharePool.Pool

/-!
# Solvency of a share pool

Along every run of updates the shares of all keys add up to the denominator, so
that the values of all keys add up to at most the shared value.
-/

namespace Subtensor.SharePool

open Lib Lib.Run

variable {S K : Type} [DecidableEq K] {ops : SharePoolDataOperations S K}

/-! ## Storage -/

/-- What is written is read back, and nothing else changes. -/
structure SharePoolDataOperations.Lawful (ops : SharePoolDataOperations S K) : Prop where
  share_setShare : ∀ s key share,
    ops.getShare (ops.setShare s key share) = Function.update (ops.getShare s) key share
  share_setDenominator : ∀ s value, ops.getShare (ops.setDenominator s value) = ops.getShare s
  share_setSharedValue : ∀ s value, ops.getShare (ops.setSharedValue s value) = ops.getShare s
  denominator_setShare : ∀ s key share,
    ops.getDenominator (ops.setShare s key share) = ops.getDenominator s
  denominator_setDenominator : ∀ s value,
    ops.getDenominator (ops.setDenominator s value) = value
  denominator_setSharedValue : ∀ s value,
    ops.getDenominator (ops.setSharedValue s value) = ops.getDenominator s

/-! ## Runs -/

inductive Update (K : Type) where
  | one (key : K) (update : I64)
  | all (update : I64)

/-- The pool after an update. -/
def apply (ops : SharePoolDataOperations S K) (s : S) : Update K → S
  | .one key update => (updateValueForOne ops s key update).1
  | .all update => updateValueForAll ops s update

/-- New shares do not fit into the denominator. -/
def Saturates (ops : SharePoolDataOperations S K) (s : S) : Update K → Prop
  | .one _ update =>
      (ops.getDenominator s).bits ≠ 0 ∧ (2 ^ 128 : ℤ) ≤ (ops.getDenominator s).bits +
        (getSharesPerUpdate update (ops.getSharedValue s) (ops.getDenominator s)).bits
  | .all _ => False

/-- No shares, no denominator and no shared value. -/
structure Empty (ops : SharePoolDataOperations S K) (s : S) : Prop where
  share : ∀ key, ops.getShare s key = 0
  denominator : ops.getDenominator s = 0
  sharedValue : ops.getSharedValue s = 0

/-- The shares of all keys are the denominator, and their values, as numbers of
the format of the shared value, are at most that. -/
structure Solvent (ops : SharePoolDataOperations S K) (s : S) : Prop where
  finite : (Function.support fun key => (ops.getShare s key).bits).Finite
  shares : ∑ᶠ key, (ops.getShare s key).bits = (ops.getDenominator s).bits
  values : (∑ᶠ key, (getValue ops s key).val) * 2 ^ 64 ≤ (ops.getSharedValue s).bits

/-! ## Shares -/

/-- The shares of all keys are the denominator. -/
structure Shared (shares : K → U64F64) (denominator : U64F64) : Prop where
  finite : (Function.support fun key => (shares key).bits).Finite
  sum : ∑ᶠ key, (shares key).bits = denominator.bits

theorem finsum_update_add (f : K → ℕ) (hf : (Function.support f).Finite) (key : K) (v : ℕ) :
    ∑ᶠ k, Function.update f key v k + f key = ∑ᶠ k, f k + v := by
  classical
  let keys := insert key hf.toFinset
  have hsupport : Function.support f ⊆ keys := by
    intro k hk
    exact Finset.mem_insert_of_mem (hf.mem_toFinset.mpr hk)
  have hupdated : Function.support (Function.update f key v) ⊆ keys := by
    intro k hk
    by_cases heq : k = key
    · exact heq ▸ Finset.mem_insert_self key _
    · rw [Function.mem_support, Function.update_of_ne heq] at hk
      exact hsupport hk
  have hmem : key ∈ keys := Finset.mem_insert_self key _
  rw [finsum_eq_sum_of_support_subset _ hsupport, finsum_eq_sum_of_support_subset _ hupdated,
    Finset.sum_update_of_mem hmem, ← Finset.sum_sdiff (Finset.singleton_subset_iff.mpr hmem),
    Finset.sum_singleton]
  omega

section

variable {shares : K → U64F64} {denominator : U64F64}

omit [DecidableEq K] in
theorem Shared.share_le (h : Shared shares denominator) (key : K) :
    (shares key).bits ≤ denominator.bits := by
  rw [← h.sum]
  exact single_le_finsum key h.finite fun _ => Nat.zero_le _

/-- A share may change by as much as the denominator does. -/
theorem Shared.update (h : Shared shares denominator) {key : K} {share denominator' : U64F64}
    (hchange : share.bits + denominator.bits = denominator'.bits + (shares key).bits) :
    Shared (Function.update shares key share) denominator' := by
  have heq : (fun k => (Function.update shares key share k).bits) =
      Function.update (fun k => (shares k).bits) key share.bits := by
    ext k
    rcases eq_or_ne k key with rfl | hne
    · rw [Function.update_self, Function.update_self]
    · rw [Function.update_of_ne hne, Function.update_of_ne hne]
  refine ⟨?_, ?_⟩
  · rw [heq]
    refine (h.finite.insert key).subset fun k hk => ?_
    by_cases hkey : k = key
    · exact Or.inl hkey
    · rw [Function.mem_support, Function.update_of_ne hkey] at hk
      exact Or.inr hk
  · have hsum := finsum_update_add _ h.finite key share.bits
    rw [h.sum, Nat.add_comm denominator.bits, hchange, ← heq] at hsum
    exact Nat.add_right_cancel hsum

end

/-! ## One update -/

theorem bits_toUFixed {a : I64F64} (h : 0 ≤ a.bits) :
    (a.toUFixed : U64F64).bits = a.bits.toNat := by
  refine UFixed.bits_sat_of_lt ?_
  have := a.upper
  omega

/-- Where some of the share stays, less than the share is taken. -/
theorem lt_of_not_breaksPrecision {sharedValue currentShare newDenominator : U64F64}
    {removed : U64F64}
    (h : breaksPrecision sharedValue currentShare (currentShare.satSub removed)
      newDenominator = false) : removed.bits < currentShare.bits := by
  by_contra hle
  have hzero : currentShare.satSub removed = 0 := by
    apply UFixed.ext
    rw [UFixed.bits_satSub, UFixed.bits_zero]
    omega
  have hremainder : ((0 : U64F64).safeDiv currentShare).bits < minShareRemainder.bits := by
    refine (UFixed.bits_safeDiv_le _ _).trans_lt ?_
    rw [UFixed.bits_zero, Nat.zero_mul, Nat.zero_div]
    decide
  unfold breaksPrecision at h
  rw [hzero, decide_eq_true hremainder, Bool.true_or] at h
  exact Bool.noConfusion h

/-- The share of a key and the denominator change by the same amount. -/
theorem shareUpdate_change {sharedValue denominator currentShare : U64F64} {update : I64}
    (hle : currentShare.bits ≤ denominator.bits)
    (hfits : denominator.bits ≠ 0 →
      (denominator.bits + (getSharesPerUpdate update sharedValue denominator).bits : ℤ) < 2 ^ 128) :
    (shareUpdate sharedValue denominator currentShare update).share.bits + denominator.bits =
      (shareUpdate sharedValue denominator currentShare update).denominator.bits +
        currentShare.bits := by
  unfold shareUpdate
  simp only
  generalize getSharesPerUpdate update sharedValue denominator = shares at hfits
  split_ifs with hzero hsign hprecision
  · rw [hzero] at hle ⊢
    rw [Nat.le_zero.mp hle]
  · have hbits := bits_toUFixed hsign
    specialize hfits hzero
    rw [UFixed.bits_satAdd, UFixed.bits_satAdd, hbits]
    omega
  · rw [UFixed.bits_satSub, UFixed.bits_zero]
    omega
  · have hremoved := lt_of_not_breaksPrecision (eq_false_of_ne_true hprecision)
    rw [UFixed.bits_satSub, UFixed.bits_satSub]
    omega

/-! ## Values -/

theorem bits_mul_le_of_checkedDiv {a b q : U64F64} (h : a.checkedDiv b = some q) :
    q.bits * b.bits ≤ a.bits * 2 ^ 64 := by
  rw [(UFixed.checkedDiv_eq_some h).2]
  exact Nat.div_mul_le_self _ _

theorem toWord_mul_le (a : U64F64) : (a.toWord 64).val * 2 ^ 64 ≤ a.bits :=
  (Nat.mul_le_mul_right _ (Word.val_sat_le _)).trans (Nat.div_mul_le_self _ _)

theorem bits_satMul_mul_le (a b : U64F64) : (a.satMul b).bits * 2 ^ 64 ≤ a.bits * b.bits :=
  (Nat.mul_le_mul_right _ (UFixed.bits_sat_le _)).trans (Nat.div_mul_le_self _ _)

theorem valueFromShares_mul_le (sharedValue denominator share : U64F64) :
    (valueFromShares sharedValue denominator share).val * 2 ^ 64 * denominator.bits ≤
      sharedValue.bits * share.bits := by
  unfold valueFromShares
  cases hdiv : sharedValue.checkedDiv denominator with
  | some valuePerShare =>
      have hvalue := toWord_mul_le (valuePerShare.satMul share)
      have hproduct := bits_satMul_mul_le valuePerShare share
      have hquotient := bits_mul_le_of_checkedDiv hdiv
      refine Nat.le_of_mul_le_mul_right ?_ (Nat.two_pow_pos 64)
      calc ((valuePerShare.satMul share).toWord 64).val * 2 ^ 64 * denominator.bits * 2 ^ 64
          ≤ (valuePerShare.satMul share).bits * denominator.bits * 2 ^ 64 := by gcongr
        _ = (valuePerShare.satMul share).bits * 2 ^ 64 * denominator.bits := by ring
        _ ≤ valuePerShare.bits * share.bits * denominator.bits := by gcongr
        _ = valuePerShare.bits * denominator.bits * share.bits := by ring
        _ ≤ sharedValue.bits * 2 ^ 64 * share.bits := by gcongr
        _ = sharedValue.bits * share.bits * 2 ^ 64 := by ring
  | none =>
      simp only
      cases hquotient : (sharedValue.satMul share).checkedDiv denominator with
      | none =>
          rw [Option.getD_none]
          show 0 * 2 ^ 64 * denominator.bits ≤ _
          omega
      | some quotient =>
          rw [Option.getD_some]
          calc (quotient.toWord 64).val * 2 ^ 64 * denominator.bits
              ≤ quotient.bits * denominator.bits := by
                gcongr
                exact toWord_mul_le quotient
            _ ≤ (sharedValue.satMul share).bits * 2 ^ 64 := bits_mul_le_of_checkedDiv hquotient
            _ ≤ sharedValue.bits * share.bits := bits_satMul_mul_le _ _

theorem val_valueFromShares_of_empty {sharedValue denominator share : U64F64}
    (hzero : denominator.bits = 0) : (valueFromShares sharedValue denominator share).val = 0 := by
  unfold valueFromShares UFixed.checkedDiv
  rw [if_pos hzero]
  simp only
  rw [if_pos hzero]
  rfl

omit [DecidableEq K] in
/-- The values of all keys are at most the shared value. -/
theorem Shared.values_le {shares : K → U64F64} {denominator : U64F64}
    (h : Shared shares denominator) (sharedValue : U64F64) :
    (∑ᶠ key, (valueFromShares sharedValue denominator (shares key)).val) * 2 ^ 64 ≤
      sharedValue.bits := by
  rcases Nat.eq_zero_or_pos denominator.bits with hzero | hpos
  · have hvalues : ∀ key, (valueFromShares sharedValue denominator (shares key)).val = 0 :=
      fun key => val_valueFromShares_of_empty hzero
    rw [finsum_congr hvalues, finsum_zero, Nat.zero_mul]
    exact Nat.zero_le _
  have hle := fun key => valueFromShares_mul_le sharedValue denominator (shares key)
  have hsupport : (Function.support fun key =>
      (valueFromShares sharedValue denominator (shares key)).val) ⊆ h.finite.toFinset := by
    intro key hkey
    rw [Set.Finite.coe_toFinset, Function.mem_support]
    intro hshare
    have hvalue := hle key
    rw [hshare, Nat.mul_zero, Nat.le_zero, Nat.mul_eq_zero, Nat.mul_eq_zero] at hvalue
    rcases hvalue with (hvalue | htwo) | hden
    · exact hkey hvalue
    · exact absurd htwo (by norm_num)
    · exact hpos.ne' hden
  have hshares := h.sum
  rw [finsum_eq_sum_of_support_subset _ h.finite.coe_toFinset.ge] at hshares
  rw [finsum_eq_sum_of_support_subset _ hsupport]
  refine Nat.le_of_mul_le_mul_right ?_ hpos
  calc (∑ key ∈ h.finite.toFinset,
        (valueFromShares sharedValue denominator (shares key)).val) * 2 ^ 64 * denominator.bits
      = ∑ key ∈ h.finite.toFinset,
        (valueFromShares sharedValue denominator (shares key)).val * 2 ^ 64 *
          denominator.bits := by rw [Finset.sum_mul, Finset.sum_mul]
    _ ≤ ∑ key ∈ h.finite.toFinset, sharedValue.bits * (shares key).bits :=
        Finset.sum_le_sum fun key _ => hle key
    _ = sharedValue.bits * denominator.bits := by rw [← Finset.mul_sum, hshares]

/-! ## Every run -/

section

variable {s : S}

omit [DecidableEq K] in
theorem Solvent.shared (h : Solvent ops s) : Shared (ops.getShare s) (ops.getDenominator s) :=
  ⟨h.finite, h.shares⟩

omit [DecidableEq K] in
theorem Shared.solvent (h : Shared (ops.getShare s) (ops.getDenominator s)) : Solvent ops s :=
  ⟨h.finite, h.sum, h.values_le (ops.getSharedValue s)⟩

omit [DecidableEq K] in
theorem Empty.shared (h : Empty ops s) : Shared (ops.getShare s) (ops.getDenominator s) := by
  have hshares : (fun key => (ops.getShare s key).bits) = fun _ => 0 := by
    ext key
    rw [h.share key, UFixed.bits_zero]
  refine ⟨?_, ?_⟩
  · rw [hshares]
    exact Set.finite_empty.subset fun _ hkey => hkey rfl
  · rw [hshares, finsum_zero, h.denominator, UFixed.bits_zero]

theorem Shared.apply (hlawful : ops.Lawful) (update : Update K)
    (h : Shared (ops.getShare s) (ops.getDenominator s)) (hfits : ¬Saturates ops s update) :
    Shared (ops.getShare (apply ops s update)) (ops.getDenominator (apply ops s update)) := by
  cases update with
  | all update =>
      show Shared (ops.getShare (ops.setSharedValue s _)) (ops.getDenominator (ops.setSharedValue s _))
      rw [hlawful.share_setSharedValue, hlawful.denominator_setSharedValue]
      exact h
  | one key update =>
      have hchange : (shareUpdate (ops.getSharedValue s) (ops.getDenominator s)
          (ops.getShare s key) update).share.bits + _ = _ + _ :=
        shareUpdate_change (h.share_le key) fun hpos => not_le.mp fun hle => hfits ⟨hpos, hle⟩
      show Shared (ops.getShare (ops.setSharedValue (ops.setShare (ops.setDenominator s _) key _) _))
        (ops.getDenominator (ops.setSharedValue (ops.setShare (ops.setDenominator s _) key _) _))
      rw [hlawful.share_setSharedValue, hlawful.share_setShare, hlawful.share_setDenominator,
        hlawful.denominator_setSharedValue, hlawful.denominator_setShare,
        hlawful.denominator_setDenominator]
      exact h.update hchange

/-- **Solvency.** Along every run from the empty pool the shares of all keys are
the denominator, and their values at most the shared value. -/
theorem solvent_run (hlawful : ops.Lawful) (hempty : Empty ops s) (updates : List (Update K))
    (hfits : AllInputs (apply ops) (fun s update => ¬Saturates ops s update) s updates) :
    AllStates (apply ops) (Solvent ops) s updates := by
  refine hfits.allStates (fun s update h hfits => ?_) hempty.shared.solvent
  exact (h.shared.apply hlawful update hfits).solvent

end

/-! ## A pool in memory -/

structure MockSharePoolDataOperations where
  sharedValue : U64F64
  share : StorageMap (Word 16) U64F64
  denominator : U64F64

def MockSharePoolDataOperations.new : MockSharePoolDataOperations := ⟨0, ∅, 0⟩

def mock : SharePoolDataOperations MockSharePoolDataOperations (Word 16) where
  getSharedValue s := s.sharedValue
  getShare s key := (s.share.lookup key).getD 0
  tryGetShare s key := s.share.lookup key
  getDenominator s := s.denominator
  setSharedValue s value := { s with sharedValue := value }
  setShare s key share := { s with share := s.share.insert key share }
  setDenominator s update := { s with denominator := update }

theorem mock_lawful : mock.Lawful where
  share_setShare s key share := by
    ext k
    rcases eq_or_ne k key with rfl | hne
    · simp [mock]
    · simp [mock, hne]
  share_setDenominator _ _ := rfl
  share_setSharedValue _ _ := rfl
  denominator_setShare _ _ _ := rfl
  denominator_setDenominator _ _ := rfl
  denominator_setSharedValue _ _ := rfl

theorem solvent_run_mock : AllStates (apply mock) (Solvent mock) .new
    [.one (.wrap 1) (.sat 1000), .all (.sat 7), .one (.wrap 2) (.sat 5),
      .one (.wrap 1) (.sat (-300))] :=
  solvent_run mock_lawful ⟨fun _ => rfl, rfl, rfl⟩ _
    ⟨fun h => h.1 rfl, id, fun h => absurd h.2 (by decide +kernel),
      fun h => absurd h.2 (by decide +kernel), trivial⟩

end Subtensor.SharePool
