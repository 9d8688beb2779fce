import Subtensor.SharePool.Pool

/-!
# Updates of the shared value

By how much an update of one key moves the shared value. Nothing is lost when
value is added; when value is removed, all of the key's value may go.
-/

namespace Subtensor.SharePool

open Lib

variable {sharedValue denominator currentShare : U64F64} {update : I64}

/-! ## Shares of an update -/

theorem bits_ofInt_nonneg {z : ℤ} (h : 0 ≤ z) : 0 ≤ (IFixed.ofInt z : I64F64).bits := by
  unfold IFixed.ofInt
  rw [IFixed.bits_sat]
  have hz : 0 ≤ z * 2 ^ 64 := by positivity
  omega

theorem bits_ofUFixed_nonneg (a : U64F64) : 0 ≤ (IFixed.ofUFixed a : I64F64).bits := by
  unfold IFixed.ofUFixed
  rw [IFixed.bits_sat]
  omega

theorem bits_checkedDiv_nonneg {a b : I64F64} (ha : 0 ≤ a.bits) (hb : 0 ≤ b.bits) :
    0 ≤ ((a.checkedDiv b).getD 0).bits := by
  have hquotient : 0 ≤ (a.bits * 2 ^ 64).tdiv b.bits :=
    Int.tdiv_nonneg (mul_nonneg ha (by positivity)) hb
  unfold IFixed.checkedDiv
  split_ifs
  · exact le_refl 0
  · exact hquotient
  · exact le_refl 0

theorem bits_satMul_nonneg {a b : I64F64} (ha : 0 ≤ a.bits) (hb : 0 ≤ b.bits) :
    0 ≤ (a.satMul b).bits := by
  have hproduct : 0 ≤ a.bits * b.bits / 2 ^ 64 :=
    Int.ediv_nonneg (mul_nonneg ha hb) (by positivity)
  unfold IFixed.satMul
  rw [IFixed.bits_sat]
  omega

/-- An update that adds value is not worth a negative number of shares. -/
theorem getSharesPerUpdate_nonneg (h : 0 ≤ update.val) :
    0 ≤ (getSharesPerUpdate update sharedValue denominator).bits := by
  unfold getSharesPerUpdate
  cases sharedValue.checkedDiv denominator with
  | some valuePerShare =>
      exact bits_checkedDiv_nonneg (bits_ofInt_nonneg h) (bits_ofUFixed_nonneg _)
  | none =>
      exact bits_satMul_nonneg
        (bits_checkedDiv_nonneg (bits_ofInt_nonneg h) (bits_ofUFixed_nonneg _))
        (bits_ofUFixed_nonneg _)

theorem bits_checkedDiv_zero {a b : I64F64} (ha : a.bits = 0) :
    ((a.checkedDiv b).getD 0).bits = 0 := by
  unfold IFixed.checkedDiv
  split_ifs
  · rfl
  · show (a.bits * 2 ^ 64).tdiv b.bits = 0
    rw [ha, zero_mul, Int.zero_tdiv]
  · rfl

theorem getSharesPerUpdate_zero (h : update.val = 0) :
    (getSharesPerUpdate update sharedValue denominator).bits = 0 := by
  have hzero : (IFixed.ofInt update.val : I64F64).bits = 0 := by
    rw [h]
    rfl
  unfold getSharesPerUpdate
  cases sharedValue.checkedDiv denominator with
  | some valuePerShare => exact bits_checkedDiv_zero hzero
  | none =>
      simp only
      unfold IFixed.satMul
      rw [bits_checkedDiv_zero hzero, zero_mul]
      rfl

theorem share_shareUpdate_zero (h : update.val = 0) :
    (shareUpdate sharedValue denominator 0 update).share = 0 := by
  have hshares : (getSharesPerUpdate update sharedValue denominator).bits = 0 :=
    getSharesPerUpdate_zero h
  unfold shareUpdate
  simp only
  split
  · rw [h]
    rfl
  · rw [if_pos hshares.ge]
    apply UFixed.ext
    show min (0 + (IFixed.toUFixed _ : U64F64).bits) _ = 0
    unfold IFixed.toUFixed
    rw [hshares]
    rfl

/-! ## The actual update -/

/-- The update that takes place is the one that was asked for, or the removal
of the whole value of the key. -/
theorem actualUpdate_cases (sharedValue denominator currentShare : U64F64) (update : I64) :
    (shareUpdate sharedValue denominator currentShare update).actualUpdate = update ∨
      (update.val < 0 ∧
        (shareUpdate sharedValue denominator currentShare update).actualUpdate =
          (valueFromShares sharedValue denominator currentShare).asI64.neg) := by
  unfold shareUpdate
  simp only
  split_ifs with hzero hshares hprecision
  · exact Or.inl rfl
  · exact Or.inl rfl
  · refine Or.inr ⟨?_, rfl⟩
    by_contra hnonneg
    exact hshares (getSharesPerUpdate_nonneg (not_lt.mp hnonneg))
  · exact Or.inl rfl

theorem actualUpdate_of_nonneg (h : 0 ≤ update.val) :
    (shareUpdate sharedValue denominator currentShare update).actualUpdate = update := by
  rcases actualUpdate_cases sharedValue denominator currentShare update with heq | ⟨hlt, -⟩
  · exact heq
  · exact absurd h (not_le.mpr hlt)

/-! ## The new value -/

theorem bits_ofNat_word (n : U64) : (UFixed.ofNat n.val : U64F64).bits = n.val * 2 ^ 64 :=
  UFixed.bits_ofNat_of_lt n.isLt

/-- The stored value never rises by more than the update. -/
theorem val_addUpdate_le (value : U64) (update : I64) :
    ((addUpdate (.ofNat value.val) update).toWord 64).val ≤ value.val + update.val.toNat := by
  refine (Word.val_sat_le _).trans ?_
  unfold addUpdate
  split_ifs
  · have hbits : ((UFixed.ofNat value.val : U64F64).satAdd (.ofNat update.val.toNat)).bits ≤
        (value.val + update.val.toNat) * 2 ^ 64 := by
      refine (UFixed.bits_sat_le _).trans ?_
      rw [bits_ofNat_word, Nat.add_mul]
      exact Nat.add_le_add_left (UFixed.bits_sat_le _) _
    exact Nat.div_le_of_le_mul (by rw [mul_comm]; exact hbits)
  · have hbits : ((UFixed.ofNat value.val : U64F64).satSub (.ofNat update.neg.val.toNat)).bits ≤
        value.val * 2 ^ 64 := by
      rw [UFixed.bits_satSub, bits_ofNat_word]
      exact Nat.sub_le _ _
    exact (Nat.div_le_of_le_mul (by rw [mul_comm]; exact hbits)).trans (Nat.le_add_right _ _)

/-- The stored value moves by the update, when the result is in range. -/
theorem val_addUpdate_of_mem {value : U64} {update : I64} (hleast : update.val ≠ -2 ^ 63)
    (hnonneg : 0 ≤ (value.val : ℤ) + update.val) (hlt : (value.val : ℤ) + update.val < 2 ^ 64) :
    ((addUpdate (.ofNat value.val) update).toWord 64).val = (value.val : ℤ) + update.val := by
  unfold addUpdate UFixed.toWord
  split_ifs with hsign
  · have hsum : value.val + update.val.toNat < 2 ^ 64 := by omega
    have hupdate : (UFixed.ofNat update.val.toNat : U64F64).bits = update.val.toNat * 2 ^ 64 :=
      UFixed.bits_ofNat_of_lt (by omega)
    rw [UFixed.bits_satAdd, bits_ofNat_word, hupdate, ← Nat.add_mul, min_eq_left (by omega),
      Nat.mul_div_cancel _ (by norm_num), Word.val_sat_of_lt hsum]
    omega
  · have hneg : update.neg.val = -update.val := SWord.val_neg_of_ne hleast
    have hupdate : (UFixed.ofNat update.neg.val.toNat : U64F64).bits =
        update.neg.val.toNat * 2 ^ 64 := UFixed.bits_ofNat_of_lt (by have := value.isLt; omega)
    have hvalue := value.isLt
    rw [UFixed.bits_satSub, bits_ofNat_word, hupdate, ← Nat.sub_mul,
      Nat.mul_div_cancel _ (by norm_num), Word.val_sat_of_lt (by omega)]
    omega

end Subtensor.SharePool
