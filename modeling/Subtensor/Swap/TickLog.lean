import Subtensor.Swap.TickRatio
import Mathlib.Analysis.Complex.ExponentialBounds

/-!
# The tick of a sqrt price

`getTickAtSqrtRatio` estimates the tick from a binary logarithm with fourteen
fractional bits. The estimate is at most one tick below the true tick and
never above it, and `tryFromSqrtPrice` corrects by one tick: the result is
exactly the tick whose price interval contains the price.
-/

namespace Subtensor.Swap

open Subtensor.Lib

/-! ## Signed 256-bit arithmetic -/

namespace I256

theorem toInt_ofInt_of_mem {z : ℤ} (h₁ : -2 ^ 255 ≤ z) (h₂ : z < 2 ^ 255) :
    (BitVec.ofInt 256 z).toInt = z :=
  BitVec.toInt_ofInt_eq_self (by norm_num) h₁ h₂

theorem clamp_of_mem {z : ℤ} (h₁ : -2 ^ 255 ≤ z) (h₂ : z < 2 ^ 255) :
    clamp z = BitVec.ofInt 256 z := by
  unfold clamp
  congr 1
  omega

theorem ofInt_shiftLeft (z : ℤ) (k : ℕ) :
    BitVec.ofInt 256 z <<< k = BitVec.ofInt 256 (z * 2 ^ k) := by
  rw [BitVec.shiftLeft_eq_mul_twoPow, BitVec.ofInt_mul]
  congr 1
  apply BitVec.eq_of_toNat_eq
  rw [BitVec.toNat_twoPow, BitVec.toNat_ofInt]
  norm_cast

theorem ofInt_or (z : ℤ) (k : ℕ) {f : ℕ} (hf : f ≤ 1) :
    BitVec.ofInt 256 (z * 2 ^ (k + 1)) ||| BitVec.ofNat 256 (f <<< k) =
      BitVec.ofInt 256 ((2 * z + f) * 2 ^ k) := by
  have hdisj : BitVec.ofInt 256 (z * 2 ^ (k + 1)) &&& BitVec.ofNat 256 (f <<< k) = 0 := by
    apply BitVec.eq_of_getLsbD_eq
    intro i hi
    rw [← ofInt_shiftLeft, BitVec.getLsbD_and, BitVec.getLsbD_shiftLeft, BitVec.getLsbD_ofNat]
    by_cases hik : i < k + 1
    · simp [hik]
    · have hlt : f <<< k < 2 ^ i := by
        rw [Nat.shiftLeft_eq]
        calc f * 2 ^ k ≤ 1 * 2 ^ k := Nat.mul_le_mul_right _ hf
          _ < 2 ^ i := by
            rw [one_mul]
            exact Nat.pow_lt_pow_right one_lt_two (by omega)
      simp [Nat.testBit_lt_two_pow hlt]
  rw [← BitVec.add_eq_or_of_and_eq_zero _ _ hdisj, ← BitVec.ofInt_natCast,
    ← BitVec.ofInt_add]
  congr 1
  rw [Nat.shiftLeft_eq]
  push_cast
  ring

/-- The 32 bits above bit 128 of a small number are its quotient. -/
theorem lowI32_shift {z : ℤ} (h₁ : -2 ^ 31 ≤ z / 2 ^ 128) (h₂ : z / 2 ^ 128 < 2 ^ 31) :
    lowI32 (BitVec.ofInt 256 z >>> 128) = z / 2 ^ 128 := by
  unfold lowI32
  rw [BitVec.toInt_setWidth, BitVec.toNat_ushiftRight, BitVec.toNat_ofInt,
    Nat.shiftRight_eq_div_pow]
  have hcast : (((z % ((2 ^ 256 : ℕ) : ℤ)).toNat / 2 ^ 128 : ℕ) : ℤ) =
      z % 2 ^ 256 / 2 ^ 128 := by
    push_cast
    omega
  rw [hcast, Int.bmod_def]
  push_cast
  omega

end I256

/-! ## The most significant bit -/

/-- One halving step: `r` is `R` without its low `m` bits. -/
theorem msbStep_spec {R r m f : ℕ} (hr : R / 2 ^ m = r) (hpos : 0 < r)
    (hlt : r < 2 ^ (2 * f)) (hm : ∃ c, m = 2 ^ (f.log2 + 1) * c) (hf : 2 ^ f.log2 = f) :
    R / 2 ^ (msbStep (r, m) (2 ^ f - 1, f)).2 = (msbStep (r, m) (2 ^ f - 1, f)).1 ∧
      0 < (msbStep (r, m) (2 ^ f - 1, f)).1 ∧
      (msbStep (r, m) (2 ^ f - 1, f)).1 < 2 ^ f ∧
      ∃ c, (msbStep (r, m) (2 ^ f - 1, f)).2 = f * c := by
  obtain ⟨c, rfl⟩ := hm
  have h2f : 2 ^ (f.log2 + 1) = 2 * f := by rw [pow_succ, hf, mul_comm]
  have hone : 0 < 2 ^ f := Nat.two_pow_pos f
  unfold msbStep
  by_cases h : 2 ^ f - 1 < r
  · have hor : 2 ^ (f.log2 + 1) * c ||| f = 2 ^ (f.log2 + 1) * c + f := by
      rw [Nat.two_pow_add_eq_or_of_lt]
      rw [h2f, ← hf]
      have := Nat.two_pow_pos f.log2
      omega
    simp only [h, if_true, hor]
    rw [Nat.shiftRight_eq_div_pow, pow_add, ← Nat.div_div_eq_div_mul, hr]
    refine ⟨rfl, Nat.div_pos (by omega) hone, ?_, ⟨2 * c + 1, ?_⟩⟩
    · rw [Nat.div_lt_iff_lt_mul hone, ← pow_add]
      rwa [two_mul] at hlt
    · rw [h2f]
      ring
  · simp only [h, if_false, Nat.shiftRight_zero, Nat.or_zero]
    refine ⟨hr, hpos, by omega, ⟨2 * c, ?_⟩⟩
    rw [h2f]
    ring

theorem mostSignificantBit_spec {R : ℕ} (hpos : 0 < R) (hlt : R < 2 ^ 256) :
    R / 2 ^ mostSignificantBit R = 1 ∧ mostSignificantBit R < 256 := by
  have hsteps : msbSteps = [(2 ^ 128 - 1, 128), (2 ^ 64 - 1, 64), (2 ^ 32 - 1, 32),
      (2 ^ 16 - 1, 16), (2 ^ 8 - 1, 8), (2 ^ 4 - 1, 4), (2 ^ 2 - 1, 2), (2 ^ 1 - 1, 1)] := by
    decide
  obtain ⟨e₁, p₁, l₁, c₁, m₁⟩ := msbStep_spec (R := R) (r := R) (m := 0) (f := 128)
    (by simp) hpos hlt ⟨0, rfl⟩ (by decide)
  obtain ⟨e₂, p₂, l₂, c₂, m₂⟩ := msbStep_spec (f := 64) e₁ p₁ l₁ ⟨c₁, m₁⟩ (by decide)
  obtain ⟨e₃, p₃, l₃, c₃, m₃⟩ := msbStep_spec (f := 32) e₂ p₂ l₂ ⟨c₂, m₂⟩ (by decide)
  obtain ⟨e₄, p₄, l₄, c₄, m₄⟩ := msbStep_spec (f := 16) e₃ p₃ l₃ ⟨c₃, m₃⟩ (by decide)
  obtain ⟨e₅, p₅, l₅, c₅, m₅⟩ := msbStep_spec (f := 8) e₄ p₄ l₄ ⟨c₄, m₄⟩ (by decide)
  obtain ⟨e₆, p₆, l₆, c₆, m₆⟩ := msbStep_spec (f := 4) e₅ p₅ l₅ ⟨c₅, m₅⟩ (by decide)
  obtain ⟨e₇, p₇, l₇, c₇, m₇⟩ := msbStep_spec (f := 2) e₆ p₆ l₆ ⟨c₆, m₆⟩ (by decide)
  obtain ⟨e₈, p₈, l₈, c₈, m₈⟩ := msbStep_spec (f := 1) e₇ p₇ l₇ ⟨c₇, m₇⟩ (by decide)
  have hfold : R / 2 ^ mostSignificantBit R = 1 := by
    unfold mostSignificantBit
    rw [hsteps]
    refine e₈.trans ?_
    omega
  refine ⟨hfold, ?_⟩
  by_contra hge
  have hle : 2 ^ 256 ≤ 2 ^ mostSignificantBit R :=
    Nat.pow_le_pow_right (by norm_num) (by omega)
  rw [Nat.div_eq_of_lt (by omega)] at hfold
  omega

/-! ## One squaring of the logarithm -/

/-- The logarithm of a mantissa in `Q1.127`. -/
noncomputable def mantissaLog (r : ℕ) : ℝ := Real.log (r / (2 ^ 127 : ℕ))

theorem mantissaLog_eq (r : ℕ) : mantissaLog r = Real.log (r / 2 ^ 127) := by
  rw [mantissaLog, Nat.cast_pow, Nat.cast_ofNat]

/-- A number between `r` and `r + 1` has, for a mantissa `r`, the same
logarithm up to `2 ^ -127`. -/
theorem mantissaLog_le {r : ℕ} {x : ℝ} (hr : 2 ^ 127 ≤ r) (h₁ : (r : ℝ) ≤ x)
    (h₂ : x ≤ r + 1) :
    mantissaLog r ≤ Real.log (x / 2 ^ 127) ∧
      Real.log (x / 2 ^ 127) ≤ mantissaLog r + 1 / 2 ^ 127 := by
  have hr' : (2 : ℝ) ^ 127 ≤ r := by exact_mod_cast hr
  have hrpos : (0 : ℝ) < r := lt_of_lt_of_le (by positivity) hr'
  have hxpos : 0 < x := hrpos.trans_le h₁
  rw [mantissaLog_eq]
  refine ⟨Real.log_le_log (by positivity) (by gcongr), ?_⟩
  have hsplit : x / 2 ^ 127 = r / 2 ^ 127 * (x / r) := by field_simp
  have hq : Real.log (x / r) ≤ 1 / 2 ^ 127 := by
    calc Real.log (x / r) ≤ x / r - 1 := Real.log_le_sub_one_of_pos (by positivity)
      _ = (x - r) / r := by field_simp
      _ ≤ 1 / r := by gcongr; linarith
      _ ≤ 1 / 2 ^ 127 := by gcongr
  rw [hsplit, Real.log_mul (by positivity) (by positivity)]
  linarith

/-- Squaring the mantissa yields the next bit of the logarithm. -/
theorem logStep_spec {r : ℕ} (z : ℤ) (i : ℕ) (h₁ : 2 ^ 127 ≤ r) (h₂ : r < 2 ^ 128) :
    ∃ r' f : ℕ, f ≤ 1 ∧ 2 ^ 127 ≤ r' ∧ r' < 2 ^ 128 ∧
      logStep (r, BitVec.ofInt 256 (z * 2 ^ (i + 1))) i =
        (r', BitVec.ofInt 256 ((2 * z + f) * 2 ^ i)) ∧
      f * Real.log 2 + mantissaLog r' ≤ 2 * mantissaLog r ∧
      2 * mantissaLog r ≤ f * Real.log 2 + mantissaLog r' + 1 / 2 ^ 127 := by
  set q := r * r / 2 ^ 127 with hq
  have hsq₁ : 2 ^ 127 * 2 ^ 127 ≤ r * r := Nat.mul_le_mul h₁ h₁
  have hsq₂ : r * r < 2 ^ 128 * 2 ^ 128 := Nat.mul_lt_mul'' h₂ h₂
  have hq₁ : 2 ^ 127 ≤ q := by omega
  have hq₂ : q < 2 ^ 129 := by omega
  have hshift : (r * r % 2 ^ 256) >>> 127 = q := by
    rw [Nat.shiftRight_eq_div_pow, Nat.mod_eq_of_lt (by omega)]
  have hf : q >>> 128 = q / 2 ^ 128 := Nat.shiftRight_eq_div_pow _ _
  have hf₁ : q / 2 ^ 128 ≤ 1 := by omega
  set f := q / 2 ^ 128 with hfdef
  set r' := q / 2 ^ f with hr'
  have hr'₁ : 2 ^ 127 ≤ r' ∧ r' < 2 ^ 128 := by
    rcases Nat.le_one_iff_eq_zero_or_eq_one.mp hf₁ with h | h
    · rw [hr', h]
      omega
    · rw [hr', h]
      omega
  refine ⟨r', f, hf₁, hr'₁.1, hr'₁.2, ?_, ?_⟩
  · unfold logStep
    simp only [hshift, hf]
    rw [I256.ofInt_or z i hf₁, Nat.shiftRight_eq_div_pow]
  · have hpow : (0 : ℝ) < 2 ^ f := by positivity
    have hrpos : (0 : ℝ) < r := by
      have : 0 < r := by omega
      exact_mod_cast this
    -- `r² / (2^127 * 2^f)` lies between `r'` and `r' + 1`
    have hlo : r' * (2 ^ 127 * 2 ^ f) ≤ r * r := by
      calc r' * (2 ^ 127 * 2 ^ f) = r' * 2 ^ f * 2 ^ 127 := by ring
        _ ≤ q * 2 ^ 127 := Nat.mul_le_mul_right _ (Nat.div_mul_le_self _ _)
        _ ≤ r * r := Nat.div_mul_le_self _ _
    have hhi : r * r ≤ (r' + 1) * (2 ^ 127 * 2 ^ f) := by
      have ha : q + 1 ≤ (r' + 1) * 2 ^ f := by
        have := Nat.lt_div_mul_add (a := q) (b := 2 ^ f) (by positivity)
        rw [add_mul, one_mul]
        exact this
      calc r * r ≤ (q + 1) * 2 ^ 127 := by
            rw [add_mul, one_mul]
            exact (Nat.lt_div_mul_add (by norm_num)).le
        _ ≤ (r' + 1) * 2 ^ f * 2 ^ 127 := Nat.mul_le_mul_right _ ha
        _ = (r' + 1) * (2 ^ 127 * 2 ^ f) := by ring
    set x : ℝ := r * r / (2 ^ 127 * 2 ^ f) with hx
    have hx₁ : (r' : ℝ) ≤ x := by
      rw [hx, le_div_iff₀ (by positivity)]
      exact_mod_cast hlo
    have hx₂ : x ≤ r' + 1 := by
      rw [hx, div_le_iff₀ (by positivity)]
      exact_mod_cast hhi
    have hlog : Real.log (x / 2 ^ 127) = 2 * mantissaLog r - f * Real.log 2 := by
      have hsplit : x / 2 ^ 127 = (r / 2 ^ 127) ^ 2 / 2 ^ f := by
        rw [hx]
        field_simp
      rw [hsplit, Real.log_div (by positivity) (by positivity), Real.log_pow, Real.log_pow]
      simp only [mantissaLog_eq]
      norm_num
    obtain ⟨hm₁, hm₂⟩ := mantissaLog_le hr'₁.1 hx₁ hx₂
    rw [hlog] at hm₁ hm₂
    constructor <;> linarith

theorem mantissaLog_mem {r : ℕ} (h₁ : 2 ^ 127 ≤ r) (h₂ : r < 2 ^ 128) :
    0 ≤ mantissaLog r ∧ mantissaLog r ≤ Real.log 2 := by
  have h₁' : (2 : ℝ) ^ 127 ≤ r := by exact_mod_cast h₁
  have h₂' : (r : ℝ) ≤ 2 ^ 128 := by exact_mod_cast h₂.le
  have hpos : (0 : ℝ) < r := lt_of_lt_of_le (by positivity) h₁'
  simp only [mantissaLog_eq]
  constructor
  · apply Real.log_nonneg
    rw [le_div_iff₀ (by positivity)]
    linarith
  · apply Real.log_le_log (by positivity)
    rw [div_le_iff₀ (by positivity)]
    linarith

/-- After `n` squarings the accumulator holds `n` fractional bits; each
squaring doubles the error and adds `2 ^ -127`. -/
theorem logFold_spec {r₀ : ℕ} {z : ℤ} (h₁ : 2 ^ 127 ≤ r₀) (h₂ : r₀ < 2 ^ 128)
    (hz₁ : -128 ≤ z) (hz₂ : z < 128) : ∀ n ≤ 63,
    ∃ (r : ℕ) (l : ℤ), 2 ^ 127 ≤ r ∧ r < 2 ^ 128 ∧
      ((List.range n).map (63 - ·)).foldl logStep (r₀, BitVec.ofInt 256 (z * 2 ^ 64)) =
        (r, BitVec.ofInt 256 (l * 2 ^ (64 - n))) ∧
      -128 * 2 ^ n ≤ l ∧ l < 128 * 2 ^ n ∧
      l * Real.log 2 + mantissaLog r ≤ 2 ^ n * (z * Real.log 2 + mantissaLog r₀) ∧
      2 ^ n * (z * Real.log 2 + mantissaLog r₀) ≤
        l * Real.log 2 + mantissaLog r + (2 ^ n - 1) / 2 ^ 127
  | 0, _ => ⟨r₀, z, h₁, h₂, by simp, by omega, by omega, by simp, by simp⟩
  | n + 1, hn => by
      obtain ⟨r, l, hr₁, hr₂, hfold, hl₁, hl₂, hlo, hhi⟩ :=
        logFold_spec h₁ h₂ hz₁ hz₂ n (by omega)
      obtain ⟨r', f, hf, hr'₁, hr'₂, hstep, hs₁, hs₂⟩ :=
        logStep_spec l (63 - n) hr₁ hr₂
      refine ⟨r', 2 * l + f, hr'₁, hr'₂, ?_, ?_, ?_, ?_, ?_⟩
      · rw [List.range_succ, List.map_append, List.foldl_append, hfold]
        have e₁ : 64 - n = 63 - n + 1 := by omega
        have e₂ : 64 - (n + 1) = 63 - n := by omega
        rw [e₁, e₂]
        exact hstep
      · rw [pow_succ]
        omega
      · rw [pow_succ]
        omega
      · rw [pow_succ]
        push_cast
        linarith
      · have herr : ((2 : ℝ) ^ (n + 1) - 1) / 2 ^ 127 =
            2 * ((2 ^ n - 1) / 2 ^ 127) + 1 / 2 ^ 127 := by
          rw [pow_succ]
          ring
        rw [herr, pow_succ]
        push_cast
        linarith

/-! ## The logarithm to the base of a tick -/

/-- The normalised mantissa of a ratio, and the logarithm it keeps. -/
theorem mantissa_spec {R m : ℕ} (hm : R / 2 ^ m = 1) (hlt : m < 192) :
    let r := if 128 ≤ m then R >>> (m - 127) else (R <<< (127 - m)) % 2 ^ 256
    2 ^ 127 ≤ r ∧ r < 2 ^ 128 ∧
      ((m : ℤ) - 128 : ℤ) * Real.log 2 + mantissaLog r ≤ Real.log (R / 2 ^ 128) ∧
      Real.log (R / 2 ^ 128) ≤
        ((m : ℤ) - 128 : ℤ) * Real.log 2 + mantissaLog r + 1 / 2 ^ 127 := by
  intro r
  have hpow : 0 < 2 ^ m := Nat.two_pow_pos m
  have hR₁ : 2 ^ m ≤ R := by
    by_contra h
    rw [Nat.div_eq_of_lt (by omega)] at hm
    omega
  have hR₂ : R < 2 ^ m * 2 := by
    have := Nat.lt_mul_div_succ R hpow
    rw [hm] at this
    exact this
  have hRpos : (0 : ℝ) < R := by
    have : 0 < R := by omega
    exact_mod_cast this
  -- `R * 2 ^ 127 / 2 ^ m` lies between `r` and `r + 1`
  have hr : r * 2 ^ m ≤ R * 2 ^ 127 ∧ R * 2 ^ 127 < (r + 1) * 2 ^ m := by
    by_cases h : 128 ≤ m
    · have hrdef : r = R / 2 ^ (m - 127) := by
        simp only [r, if_pos h, Nat.shiftRight_eq_div_pow]
      have hsplit : 2 ^ m = 2 ^ (m - 127) * 2 ^ 127 := by
        rw [← pow_add]
        congr 1
        omega
      rw [hsplit, ← mul_assoc, ← mul_assoc, hrdef]
      refine ⟨Nat.mul_le_mul_right _ (Nat.div_mul_le_self _ _),
        Nat.mul_lt_mul_of_pos_right ?_ (Nat.two_pow_pos 127)⟩
      rw [add_mul, one_mul]
      exact Nat.lt_div_mul_add (Nat.two_pow_pos _)
    · have hsmall : R * 2 ^ (127 - m) < 2 ^ 256 := by
        calc R * 2 ^ (127 - m) < 2 ^ m * 2 * 2 ^ (127 - m) :=
              Nat.mul_lt_mul_of_pos_right hR₂ (Nat.two_pow_pos _)
          _ = 2 ^ (m + (127 - m)) * 2 := by rw [pow_add]; ring
          _ = 2 ^ 127 * 2 := by congr 2; omega
          _ < 2 ^ 256 := by norm_num
      have hrdef : r = R * 2 ^ (127 - m) := by
        simp only [r, if_neg h, Nat.shiftLeft_eq]
        exact Nat.mod_eq_of_lt hsmall
      have heq : r * 2 ^ m = R * 2 ^ 127 := by
        rw [hrdef, mul_assoc, ← pow_add]
        congr 2
        omega
      rw [add_mul, heq]
      omega
  have hr₁ : 2 ^ 127 ≤ r := by
    by_contra h
    have h₁ : (r + 1) * 2 ^ m ≤ 2 ^ 127 * 2 ^ m := Nat.mul_le_mul_right _ (by omega)
    have h₂ : 2 ^ 127 * 2 ^ m ≤ 2 ^ 127 * R := Nat.mul_le_mul_left _ hR₁
    rw [mul_comm R] at hr
    omega
  have hr₂ : r < 2 ^ 128 := by
    have h₁ : r * 2 ^ m < 2 ^ 128 * 2 ^ m := by
      calc r * 2 ^ m ≤ R * 2 ^ 127 := hr.1
        _ < 2 ^ m * 2 * 2 ^ 127 := Nat.mul_lt_mul_of_pos_right hR₂ (Nat.two_pow_pos 127)
        _ = 2 ^ 128 * 2 ^ m := by ring
    exact Nat.lt_of_mul_lt_mul_right h₁
  set x : ℝ := R * 2 ^ 127 / 2 ^ m with hx
  have hx₁ : (r : ℝ) ≤ x := by
    rw [hx, le_div_iff₀ (by positivity)]
    exact_mod_cast hr.1
  have hx₂ : x ≤ r + 1 := by
    rw [hx, div_le_iff₀ (by positivity)]
    exact_mod_cast hr.2.le
  have hlog : Real.log (x / 2 ^ 127) =
      Real.log (R / 2 ^ 128) - ((m : ℤ) - 128 : ℤ) * Real.log 2 := by
    have hsplit : x / 2 ^ 127 = R / 2 ^ 128 * (2 ^ 128 / 2 ^ m) := by
      rw [hx]
      field_simp
    have hpow2 : Real.log (2 ^ 128 / 2 ^ m) = 128 * Real.log 2 - m * Real.log 2 := by
      rw [Real.log_div (by positivity) (by positivity), Real.log_pow, Real.log_pow]
      norm_num
    rw [hsplit, Real.log_mul (by positivity) (by positivity), hpow2]
    push_cast
    ring
  obtain ⟨hm₁, hm₂⟩ := mantissaLog_le hr₁ hx₁ hx₂
  rw [hlog] at hm₁ hm₂
  refine ⟨hr₁, hr₂, ?_, ?_⟩ <;> linarith

/-- **The approximate logarithm.** `logSqrt10001` is `l * 2 ^ 50` times the
scale, for the integer `l` with `2 ^ l ≤ y ^ (2 ^ 14) ≤ 2 ^ (l + 1)`, where
`y` is the sqrt price, up to `2 ^ -100`. -/
theorem logSqrt10001_spec {x : ℕ} (h₁ : minSqrtRatio ≤ x) (h₂ : x < maxSqrtRatio) :
    ∃ l : ℤ, -2 ^ 21 ≤ l ∧ l < 2 ^ 21 ∧
      logSqrt10001 x =
        BitVec.ofInt 256 (l * 2 ^ 50 * U256.fromLimbs 11745905768312294533 13863) ∧
      l * Real.log 2 ≤ 2 ^ 14 * Real.log (x / 2 ^ 96) ∧
      2 ^ 14 * Real.log (x / 2 ^ 96) ≤ (l + 1) * Real.log 2 + 1 / 2 ^ 100 := by
  have hx₁ : 0 < x := lt_of_lt_of_le (by norm_num [minSqrtRatio]) h₁
  have hx₂ : x < 2 ^ 160 := lt_of_lt_of_le h₂ (by norm_num [maxSqrtRatio])
  obtain ⟨R, hR⟩ : ∃ R, R = x * 2 ^ 32 := ⟨_, rfl⟩
  have hratio : (x <<< 32) % 2 ^ 256 = R := by
    rw [Nat.shiftLeft_eq, Nat.mod_eq_of_lt (by omega), hR]
  obtain ⟨hmsb, -⟩ := mostSignificantBit_spec (R := R) (by omega) (by omega)
  obtain ⟨m, hm⟩ : ∃ m, m = mostSignificantBit R := ⟨_, rfl⟩
  rw [← hm] at hmsb
  have hm192 : m < 192 := by
    by_contra h
    have : 2 ^ 192 ≤ 2 ^ m := Nat.pow_le_pow_right (by norm_num) (by omega)
    rw [Nat.div_eq_of_lt (by omega)] at hmsb
    omega
  obtain ⟨hr₁, hr₂, hlo, hhi⟩ := mantissa_spec hmsb hm192
  obtain ⟨r, l, hr'₁, hr'₂, hfold, hl₁, hl₂, hlo', hhi'⟩ :=
    logFold_spec hr₁ hr₂ (z := (m : ℤ) - 128) (by omega) (by omega) 14 (by norm_num)
  have hinit : I256.satSub (BitVec.ofNat 256 m) 128 <<< 64 =
      BitVec.ofInt 256 (((m : ℤ) - 128) * 2 ^ 64) := by
    have hmInt : (BitVec.ofNat 256 m).toInt = m := by
      rw [← BitVec.ofInt_natCast]
      exact I256.toInt_ofInt_of_mem (by omega) (by omega)
    have h128 : (128 : I256).toInt = 128 := by decide
    rw [I256.satSub, hmInt, h128, I256.clamp_of_mem (by omega) (by omega),
      I256.ofInt_shiftLeft]
  have hy : (R : ℝ) / 2 ^ 128 = x / 2 ^ 96 := by
    rw [hR]
    push_cast
    ring
  rw [hy] at hlo hhi
  obtain ⟨hmant₁, hmant₂⟩ := mantissaLog_mem hr'₁ hr'₂
  have hbelow := hlo'.trans (mul_le_mul_of_nonneg_left hlo (by positivity))
  have habove := mul_le_mul_of_nonneg_left hhi (by positivity : (0 : ℝ) ≤ 2 ^ 14)
  rw [mul_add] at habove
  refine ⟨l, by omega, by omega, ?_, ?_, ?_⟩
  · unfold logSqrt10001
    simp only [hratio, ← hm, hinit]
    rw [logBits, hfold, sqrt10001, ← BitVec.ofInt_natCast, ← BitVec.ofInt_mul]
  · linarith
  · have herr : (2 : ℝ) ^ 14 * (1 / 2 ^ 127) + (2 ^ 14 - 1) / 2 ^ 127 ≤ 1 / 2 ^ 100 := by
      norm_num
    linarith

end Subtensor.Swap
