import Subtensor.SharePool.Pool

/-!
# Merging two pools

What a key's shares are worth, up to rounding, and what becomes of it when the
shares of two pools are put together. The value of a key is kept when both
pools have the same value per share, or when the key has the same part of both;
otherwise value moves between the keys.
-/

namespace Subtensor.SharePool

open Lib

/-! ## The value before it is rounded -/

/-- The part of the shared value that belongs to some shares; an empty pool
gives nothing. -/
def exactValue (sharedValue : U64) (denominator share : U64F64) : ℚ :=
  sharedValue.val * share.bits / denominator.bits

theorem checkedDiv_ofNat {sharedValue : U64} {denominator : U64F64} :
    (UFixed.ofNat sharedValue.val : U64F64).checkedDiv denominator =
      if denominator.bits = 0 then none
      else if h : sharedValue.val * 2 ^ 128 / denominator.bits < 2 ^ 128 then
        some ⟨sharedValue.val * 2 ^ 128 / denominator.bits, h⟩
      else none := by
  have hbits : (UFixed.ofNat sharedValue.val : U64F64).bits * 2 ^ 64 =
      sharedValue.val * 2 ^ 128 := by
    rw [UFixed.bits_ofNat_of_lt sharedValue.isLt, Nat.mul_assoc, ← pow_add]
  unfold UFixed.checkedDiv
  simp only [hbits]

/-- The value of one share is rounded down first, and then the product. -/
theorem val_valueFromShares_of_lt {sharedValue : U64} {denominator share : U64F64}
    (hpos : denominator.bits ≠ 0) (hle : share.bits ≤ denominator.bits)
    (hlt : sharedValue.val * 2 ^ 128 / denominator.bits < 2 ^ 128) :
    (valueFromShares (.ofNat sharedValue.val) denominator share).val =
      sharedValue.val * 2 ^ 128 / denominator.bits * share.bits / 2 ^ 128 := by
  have hproduct : sharedValue.val * 2 ^ 128 / denominator.bits * share.bits ≤
      sharedValue.val * 2 ^ 128 :=
    (Nat.mul_le_mul_left _ hle).trans (Nat.div_mul_le_self _ _)
  have hvalue := sharedValue.isLt
  have hmul : sharedValue.val * 2 ^ 128 / denominator.bits * share.bits / 2 ^ 64 < 2 ^ (64 + 64) := by
    rw [Nat.div_lt_iff_lt_mul (Nat.two_pow_pos 64)]
    omega
  have hword : sharedValue.val * 2 ^ 128 / denominator.bits * share.bits / 2 ^ 128 < 2 ^ 64 := by
    rw [Nat.div_lt_iff_lt_mul (Nat.two_pow_pos 128)]
    omega
  unfold valueFromShares
  rw [checkedDiv_ofNat, if_neg hpos, dif_pos hlt]
  simp only
  unfold UFixed.satMul UFixed.toWord
  rw [UFixed.bits_sat_of_lt hmul, Nat.div_div_eq_div_mul, ← pow_add, Word.val_sat_of_lt hword]

/-- Where the value of one share overflows, the product is divided. -/
theorem val_valueFromShares_of_le {sharedValue : U64} {denominator share : U64F64}
    (hpos : denominator.bits ≠ 0) (hle : share.bits ≤ denominator.bits)
    (hover : ¬sharedValue.val * 2 ^ 128 / denominator.bits < 2 ^ 128) :
    (valueFromShares (.ofNat sharedValue.val) denominator share).val =
      sharedValue.val * share.bits / denominator.bits := by
  have hvalue := sharedValue.isLt
  have hpos' := Nat.pos_of_ne_zero hpos
  have hdenominator : denominator.bits ≤ sharedValue.val := by
    rw [not_lt, Nat.le_div_iff_mul_le hpos', mul_comm] at hover
    exact Nat.le_of_mul_le_mul_right hover (Nat.two_pow_pos 128)
  have hproduct : sharedValue.val * share.bits ≤ sharedValue.val * denominator.bits :=
    Nat.mul_le_mul_left _ hle
  have hsquare : sharedValue.val * denominator.bits < 2 ^ 64 * 2 ^ 64 :=
    Nat.mul_lt_mul'' hvalue (hdenominator.trans_lt hvalue)
  have hmul : ((UFixed.ofNat sharedValue.val : U64F64).satMul share).bits =
      sharedValue.val * share.bits := by
    unfold UFixed.satMul
    rw [UFixed.bits_ofNat_of_lt hvalue, mul_right_comm, Nat.mul_div_cancel _ (Nat.two_pow_pos 64)]
    exact UFixed.bits_sat_of_lt (by omega)
  have hquotient : sharedValue.val * share.bits * 2 ^ 64 / denominator.bits ≤
      sharedValue.val * 2 ^ 64 := by
    rw [mul_right_comm]
    exact Nat.div_le_of_le_mul (by
      rw [mul_comm denominator.bits]
      exact Nat.mul_le_mul_left _ hle)
  have hlt : sharedValue.val * share.bits * 2 ^ 64 / denominator.bits < 2 ^ (64 + 64) := by
    omega
  have hword : sharedValue.val * share.bits / denominator.bits < 2 ^ 64 :=
    (Nat.div_le_of_le_mul (by rw [mul_comm denominator.bits]; exact hproduct)).trans_lt hvalue
  unfold valueFromShares
  rw [checkedDiv_ofNat, if_neg hpos, dif_neg hover]
  simp only
  unfold UFixed.checkedDiv
  simp only [hmul]
  rw [if_neg hpos, dif_pos hlt, Option.getD_some]
  unfold UFixed.toWord
  simp only
  rw [Nat.div_div_eq_div_mul, Nat.mul_div_mul_right _ _ (Nat.two_pow_pos 64),
    Word.val_sat_of_lt hword]

theorem val_valueFromShares_of_zero {sharedValue : U64} {denominator share : U64F64}
    (hzero : denominator.bits = 0) :
    (valueFromShares (.ofNat sharedValue.val) denominator share).val = 0 := by
  unfold valueFromShares
  rw [checkedDiv_ofNat, if_pos hzero]
  simp only
  unfold UFixed.checkedDiv
  rw [if_pos hzero]
  rfl

theorem sub_one_lt_cast_div (n : ℕ) {d : ℕ} (hd : 0 < d) : (n : ℚ) / d - 1 < (n / d : ℕ) := by
  rw [sub_lt_iff_lt_add, div_lt_iff₀ (by exact_mod_cast hd), mul_comm]
  exact_mod_cast Nat.lt_mul_div_succ n hd

/-- **Rounding.** A value is at most the exact one, and short of it by less
than one and what the rounding of the value of one share takes. -/
theorem valueFromShares_bounds (sharedValue : U64) {denominator share : U64F64}
    (hle : share.bits ≤ denominator.bits) :
    exactValue sharedValue denominator share - share.bits / 2 ^ 128 - 1 <
        (valueFromShares (.ofNat sharedValue.val) denominator share).val ∧
      ((valueFromShares (.ofNat sharedValue.val) denominator share).val : ℚ) ≤
        exactValue sharedValue denominator share := by
  have hshare : (0 : ℚ) ≤ share.bits / 2 ^ 128 := by positivity
  unfold exactValue
  by_cases hzero : denominator.bits = 0
  · rw [val_valueFromShares_of_zero hzero, hzero, Nat.cast_zero, div_zero]
    constructor
    · linarith
    · exact le_rfl
  have hpos : (0 : ℚ) < denominator.bits := by exact_mod_cast Nat.pos_of_ne_zero hzero
  by_cases hlt : sharedValue.val * 2 ^ 128 / denominator.bits < 2 ^ 128
  · rw [val_valueFromShares_of_lt hzero hle hlt]
    have hbelow := Nat.cast_div_le (m := sharedValue.val * 2 ^ 128) (n := denominator.bits) (α := ℚ)
    have habove := sub_one_lt_cast_div (sharedValue.val * 2 ^ 128) (Nat.pos_of_ne_zero hzero)
    set perShare := sharedValue.val * 2 ^ 128 / denominator.bits
    have hvalue := Nat.cast_div_le (m := perShare * share.bits) (n := 2 ^ 128) (α := ℚ)
    have hvalue' := sub_one_lt_cast_div (perShare * share.bits) (Nat.two_pow_pos 128)
    have hexact : (sharedValue.val * 2 ^ 128 : ℚ) / denominator.bits * (share.bits / 2 ^ 128) =
        sharedValue.val * share.bits / denominator.bits := by
      field_simp
    rw [Nat.cast_mul, Nat.cast_pow, Nat.cast_ofNat] at hbelow habove hvalue hvalue'
    have hupper := mul_le_mul_of_nonneg_right hbelow hshare
    have hlower := mul_le_mul_of_nonneg_right habove.le hshare
    rw [hexact] at hupper
    rw [sub_mul, hexact, one_mul] at hlower
    rw [mul_div_assoc] at hvalue hvalue'
    constructor
    · linarith
    · linarith
  · rw [val_valueFromShares_of_le hzero hle hlt]
    constructor
    · have h := sub_one_lt_cast_div (sharedValue.val * share.bits)
        (Nat.pos_of_ne_zero hzero)
      rw [Nat.cast_mul] at h
      linarith
    · have h := Nat.cast_div_le (m := sharedValue.val * share.bits) (n := denominator.bits) (α := ℚ)
      rwa [Nat.cast_mul] at h

theorem valueFromShares_zero (value : U64) (denominator : U64F64) :
    (valueFromShares (.ofNat value.val) denominator 0).val = 0 := by
  have hzero : (0 : U64F64).bits ≤ denominator.bits := Nat.zero_le _
  obtain ⟨-, hle⟩ := valueFromShares_bounds value hzero
  rw [exactValue, UFixed.bits_zero, Nat.cast_zero, mul_zero, zero_div] at hle
  exact_mod_cast le_antisymm hle (by positivity)

/-! ## The merged pool -/

section

variable {value₁ value₂ : U64} {denominator₁ denominator₂ share₁ share₂ : U64F64}

/-- What a key gains, before rounding, when its shares and the shared values of
two pools are added up. -/
def mergeGain (value₁ value₂ : U64) (denominator₁ denominator₂ share₁ share₂ : U64F64) : ℚ :=
  (value₁.val + value₂.val) * (share₁.bits + share₂.bits) /
      (denominator₁.bits + denominator₂.bits) -
    (exactValue value₁ denominator₁ share₁ + exactValue value₂ denominator₂ share₂)

/-- The gain is the difference between the values of one share, times the shares
by which the key has more than its part. -/
theorem mergeGain_eq (h₁ : denominator₁.bits ≠ 0) (h₂ : denominator₂.bits ≠ 0) :
    mergeGain value₁ value₂ denominator₁ denominator₂ share₁ share₂ =
      ((value₂.val : ℚ) / denominator₂.bits - value₁.val / denominator₁.bits) *
        (share₁.bits * denominator₂.bits - share₂.bits * denominator₁.bits) /
          (denominator₁.bits + denominator₂.bits) := by
  have hpos₁ : (0 : ℚ) < denominator₁.bits := by exact_mod_cast Nat.pos_of_ne_zero h₁
  have hpos₂ : (0 : ℚ) < denominator₂.bits := by exact_mod_cast Nat.pos_of_ne_zero h₂
  unfold mergeGain exactValue
  field_simp
  ring

/-- Nothing is gained exactly when the values of one share are equal, or the key
has the same part of both pools. -/
theorem mergeGain_eq_zero_iff (h₁ : denominator₁.bits ≠ 0) (h₂ : denominator₂.bits ≠ 0) :
    mergeGain value₁ value₂ denominator₁ denominator₂ share₁ share₂ = 0 ↔
      value₁.val * denominator₂.bits = value₂.val * denominator₁.bits ∨
        share₁.bits * denominator₂.bits = share₂.bits * denominator₁.bits := by
  have hpos₁ : (0 : ℚ) < denominator₁.bits := by exact_mod_cast Nat.pos_of_ne_zero h₁
  have hpos₂ : (0 : ℚ) < denominator₂.bits := by exact_mod_cast Nat.pos_of_ne_zero h₂
  rw [mergeGain_eq h₁ h₂, div_eq_zero_iff, mul_eq_zero, sub_eq_zero, sub_eq_zero,
    div_eq_div_iff hpos₂.ne' hpos₁.ne', or_iff_left (by positivity)]
  constructor
  · rintro (h | h)
    · exact Or.inl (by exact_mod_cast h.symm)
    · exact Or.inr (by exact_mod_cast h)
  · rintro (h | h)
    · exact Or.inl (by exact_mod_cast h.symm)
    · exact Or.inr (by exact_mod_cast h)

/-- An empty pool is merged without a gain. -/
theorem mergeGain_of_empty (hvalue : value₂.val = 0) (hshare : share₂.bits = 0)
    (hdenominator : denominator₂.bits = 0) :
    mergeGain value₁ value₂ denominator₁ denominator₂ share₁ share₂ = 0 := by
  unfold mergeGain exactValue
  rw [hvalue, hshare, hdenominator]
  simp

/-- **The value of a key in the merged pool** is the sum of its values before and
the gain, up to rounding. -/
theorem valueFromShares_merge {value : U64} {denominator share : U64F64}
    (hvalue : value.val = value₁.val + value₂.val)
    (hdenominator : denominator.bits = denominator₁.bits + denominator₂.bits)
    (hshare : share.bits = share₁.bits + share₂.bits)
    (hle₁ : share₁.bits ≤ denominator₁.bits) (hle₂ : share₂.bits ≤ denominator₂.bits) :
    let before : ℤ := (valueFromShares (.ofNat value₁.val) denominator₁ share₁).val +
      (valueFromShares (.ofNat value₂.val) denominator₂ share₂).val
    let after : ℤ := (valueFromShares (.ofNat value.val) denominator share).val
    let gain := mergeGain value₁ value₂ denominator₁ denominator₂ share₁ share₂
    gain - 2 < ((after - before : ℤ) : ℚ) ∧ ((after - before : ℤ) : ℚ) < gain + 3 := by
  intro before after gain
  have hle : share.bits ≤ denominator.bits := by omega
  obtain ⟨hlower, hupper⟩ := valueFromShares_bounds value hle
  obtain ⟨hlower₁, hupper₁⟩ := valueFromShares_bounds value₁ hle₁
  obtain ⟨hlower₂, hupper₂⟩ := valueFromShares_bounds value₂ hle₂
  have hexact : exactValue value denominator share =
      exactValue value₁ denominator₁ share₁ + exactValue value₂ denominator₂ share₂ + gain := by
    show _ = _ + mergeGain value₁ value₂ denominator₁ denominator₂ share₁ share₂
    unfold mergeGain
    rw [add_sub_cancel, exactValue, hvalue, hdenominator, hshare]
    push_cast
    rfl
  have hsum : (share.bits : ℚ) / 2 ^ 128 = share₁.bits / 2 ^ 128 + share₂.bits / 2 ^ 128 := by
    rw [hshare, Nat.cast_add, add_div]
  have hone : (share.bits : ℚ) / 2 ^ 128 < 1 := by
    rw [div_lt_one (by positivity)]
    exact_mod_cast share.isLt
  rw [hexact] at hlower hupper
  rw [Int.cast_sub, Int.cast_add, Int.cast_natCast, Int.cast_natCast, Int.cast_natCast]
  constructor
  · linarith
  · linarith

end

end Subtensor.SharePool
