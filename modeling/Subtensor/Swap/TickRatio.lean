import Subtensor.Swap.TickMath
import Mathlib.Analysis.SpecialFunctions.Log.Deriv
import Mathlib.Data.Nat.Bitwise

/-!
# The sqrt ratio of a tick is a rounded power

`ratioAtAbsTick a` multiplies, for every set bit of `a`, by one of twenty
constants and truncates. Each constant is (up to two units) the square of
the one before it, so with `ρ` the first constant over `2 ^ 128` the result
stays within `2 ^ 22` units of `2 ^ 128 * ρ ^ a`. A tick changes that power
by a factor of about `1 - 5e-5`, far more than the error: the ratio is
strictly monotone in the tick.
-/

namespace Subtensor.Swap

open Subtensor.Lib

/-! ## The base -/

/-- The multiplier of the lowest bit: `2 ^ 128 / √1.0001`. -/
def factorZero : ℕ := U256.fromLimbs 12262481743371124737 18445821805675392311

/-- One tick down multiplies the sqrt price by `ρ`. -/
noncomputable def tickBase : ℝ := factorZero / 2 ^ 128

theorem tickBase_pos : 0 < tickBase := by
  unfold tickBase factorZero U256.fromLimbs
  norm_num

theorem tickBase_mul : 2 ^ 128 * tickBase = factorZero := by
  unfold tickBase
  field_simp

theorem tickBase_lt : tickBase < 1 - 4999625 / 10 ^ 11 := by
  unfold tickBase factorZero U256.fromLimbs
  norm_num

theorem tickBase_le_one : tickBase ≤ 1 := by
  have := tickBase_lt
  norm_num at this
  linarith

theorem tickBase_pow_le_one (n : ℕ) : tickBase ^ n ≤ 1 :=
  pow_le_one₀ tickBase_pos.le tickBase_le_one

theorem tickBase_pow_pos (n : ℕ) : 0 < tickBase ^ n := pow_pos tickBase_pos n

/-! ## Two rounding lemmas -/

/-- The error of a product of two approximations, over a common scale `B`
that bounds both. -/
theorem mul_div_error {r g x y E D B : ℝ} (hB : 0 < B) (hr : |r - x| ≤ E)
    (hg : |g - y| ≤ D) (hg0 : 0 ≤ g) (hg1 : g ≤ B) (hx0 : 0 ≤ x) (hx1 : x ≤ B) :
    |r * g / B - x * y / B| ≤ E + D := by
  have hE : 0 ≤ E := (abs_nonneg _).trans hr
  have hD : 0 ≤ D := (abs_nonneg _).trans hg
  have hsplit : r * g / B - x * y / B = (r - x) * (g / B) + (x / B) * (g - y) := by
    field_simp
    ring
  have h₁ : |(r - x) * (g / B)| ≤ E := by
    rw [abs_mul, abs_of_nonneg (div_nonneg hg0 hB.le)]
    have : g / B ≤ 1 := (div_le_one hB).mpr hg1
    calc |r - x| * (g / B) ≤ E * 1 :=
          mul_le_mul hr this (div_nonneg hg0 hB.le) hE
      _ = E := mul_one E
  have h₂ : |(x / B) * (g - y)| ≤ D := by
    rw [abs_mul, abs_of_nonneg (div_nonneg hx0 hB.le)]
    have : x / B ≤ 1 := (div_le_one hB).mpr hx1
    calc x / B * |g - y| ≤ 1 * D := mul_le_mul this hg (abs_nonneg _) zero_le_one
      _ = D := one_mul D
  rw [hsplit]
  exact (abs_add_le _ _).trans (add_le_add h₁ h₂)

theorem nat_div_error (n : ℕ) {m : ℕ} (hm : 0 < m) :
    |((n / m : ℕ) : ℝ) - (n : ℝ) / m| ≤ 1 := by
  have hm' : (0 : ℝ) < m := by exact_mod_cast hm
  have h₁ : (n : ℝ) < (n / m : ℕ) * m + m := by
    exact_mod_cast Nat.lt_div_mul_add hm
  have h₂ : ((n / m : ℕ) : ℝ) * m ≤ n := by exact_mod_cast Nat.div_mul_le_self n m
  have h₃ : (n : ℝ) / m ≤ (n / m : ℕ) + 1 := by
    rw [div_le_iff₀ hm']
    linarith
  have h₄ : ((n / m : ℕ) : ℝ) ≤ n / m := by rwa [le_div_iff₀ hm']
  rw [abs_le]
  constructor <;> linarith

/-- The power that the first `n` ticks down have reached, in `Q128.128`. -/
noncomputable def powQ128 (n : ℕ) : ℝ := 2 ^ 128 * tickBase ^ n

theorem powQ128_nonneg (n : ℕ) : 0 ≤ powQ128 n :=
  mul_nonneg (by positivity) (tickBase_pow_pos n).le

theorem powQ128_le (n : ℕ) : powQ128 n ≤ 2 ^ 128 := by
  have := tickBase_pow_le_one n
  unfold powQ128
  nlinarith

theorem powQ128_add (m n : ℕ) : powQ128 (m + n) = powQ128 m * powQ128 n / 2 ^ 128 := by
  unfold powQ128
  rw [pow_add]
  field_simp

theorem powQ128_zero : powQ128 0 = 2 ^ 128 := by simp [powQ128]

theorem powQ128_one : powQ128 1 = factorZero := by
  rw [powQ128, pow_one, tickBase_mul]

/-! ## Every factor is a power of the base -/

/-- From the level-`k` factor `F` on, each entry of the table is the square
of the one before it, up to two units. -/
def FactorChain : ℕ → ℕ → List (ℕ × ℕ) → Prop
  | _, _, [] => True
  | k, F, (m, G) :: l =>
      m = 2 ^ (k + 1) ∧ G < 2 ^ 128 ∧ F * F ≤ (G + 2) * 2 ^ 128 ∧
        G * 2 ^ 128 ≤ F * F + 2 * 2 ^ 128 ∧ FactorChain (k + 1) G l

theorem ratioFactors_chain : FactorChain 0 factorZero ratioFactors := by
  norm_num [FactorChain, ratioFactors, factorZero, U256.fromLimbs]

/-- A table whose entries, from level `k` on, are powers of the base. -/
def FactorsOK : ℕ → List (ℕ × ℕ) → Prop
  | _, [] => True
  | k, (m, G) :: l =>
      m = 2 ^ k ∧ G < 2 ^ 128 ∧ |(G : ℝ) - powQ128 (2 ^ k)| ≤ 2 ^ (k + 1) - 2 ∧
        FactorsOK (k + 1) l

/-- Squaring at most doubles the error, rounding adds two units. -/
theorem factor_sq_error {F G k : ℕ} (hF : F < 2 ^ 128)
    (h₁ : F * F ≤ (G + 2) * 2 ^ 128) (h₂ : G * 2 ^ 128 ≤ F * F + 2 * 2 ^ 128)
    (hE : |(F : ℝ) - powQ128 (2 ^ k)| ≤ 2 ^ (k + 1) - 2) :
    |(G : ℝ) - powQ128 (2 ^ (k + 1))| ≤ 2 ^ (k + 1 + 1) - 2 := by
  have hF' : (F : ℝ) ≤ 2 ^ 128 := by exact_mod_cast hF.le
  have hsq : powQ128 (2 ^ (k + 1)) = powQ128 (2 ^ k) * powQ128 (2 ^ k) / 2 ^ 128 := by
    rw [← powQ128_add, pow_succ, mul_two]
  have herr := mul_div_error (by positivity) hE hE (Nat.cast_nonneg F) hF'
    (powQ128_nonneg _) (powQ128_le _)
  have h₁' : (F : ℝ) * F ≤ (G + 2) * 2 ^ 128 := by exact_mod_cast h₁
  have h₂' : (G : ℝ) * 2 ^ 128 ≤ F * F + 2 * 2 ^ 128 := by exact_mod_cast h₂
  have hround : |(G : ℝ) - F * F / 2 ^ 128| ≤ 2 := by
    rw [abs_le]
    constructor
    · have : (F : ℝ) * F / 2 ^ 128 ≤ G + 2 := by rwa [div_le_iff₀ (by positivity)]
      linarith
    · have : (G : ℝ) - 2 ≤ F * F / 2 ^ 128 := by
        rw [le_div_iff₀ (by positivity)]
        linarith
      linarith
  rw [hsq]
  calc |(G : ℝ) - powQ128 (2 ^ k) * powQ128 (2 ^ k) / 2 ^ 128|
      ≤ |(G : ℝ) - F * F / 2 ^ 128| +
          |(F : ℝ) * F / 2 ^ 128 - powQ128 (2 ^ k) * powQ128 (2 ^ k) / 2 ^ 128| :=
        abs_sub_le _ _ _
    _ ≤ 2 + ((2 ^ (k + 1) - 2) + (2 ^ (k + 1) - 2)) := add_le_add hround herr
    _ = 2 ^ (k + 1 + 1) - 2 := by ring

theorem factorsOK_of_chain : ∀ (l : List (ℕ × ℕ)) (k F : ℕ), F < 2 ^ 128 →
    |(F : ℝ) - powQ128 (2 ^ k)| ≤ 2 ^ (k + 1) - 2 →
    FactorChain k F l → FactorsOK (k + 1) l
  | [], _, _, _, _, _ => trivial
  | (m, G) :: l, k, F, hF, hE, h => by
      obtain ⟨hm, hG, h₁, h₂, hl⟩ := h
      have hG' := factor_sq_error hF h₁ h₂ hE
      exact ⟨hm, hG, hG', factorsOK_of_chain l (k + 1) G hG hG' hl⟩

theorem ratioFactors_ok : FactorsOK 1 ratioFactors := by
  refine factorsOK_of_chain _ 0 factorZero ?_ ?_ ratioFactors_chain
  · norm_num [factorZero, U256.fromLimbs]
  · rw [pow_zero, powQ128_one]
    norm_num

/-! ## The error of the product -/

/-- One conditional multiplication: the new factor's error and one unit of
truncation are added to the error so far. -/
theorem ratioStep_error {a k r G : ℕ} (hr : r ≤ 2 ^ 128) (hG : G < 2 ^ 128)
    (hGE : |(G : ℝ) - powQ128 (2 ^ k)| ≤ 2 ^ (k + 1) - 2)
    (hE : |(r : ℝ) - powQ128 (a % 2 ^ k)| ≤ 2 ^ (k + 1) + (k : ℝ)) :
    ratioStep a r (2 ^ k, G) ≤ 2 ^ 128 ∧
      |((ratioStep a r (2 ^ k, G) : ℕ) : ℝ) - powQ128 (a % 2 ^ (k + 1))| ≤
        2 ^ (k + 1 + 1) + ((k + 1 : ℕ) : ℝ) := by
  have hmod : a % 2 ^ (k + 1) = a % 2 ^ k + 2 ^ k * (a.testBit k).toNat := by
    rw [Nat.mod_pow_succ, Nat.toNat_testBit]
  unfold ratioStep
  rw [Nat.and_two_pow]
  cases hbit : a.testBit k with
  | false =>
      rw [hbit] at hmod
      have hmod' : a % 2 ^ (k + 1) = a % 2 ^ k := by simpa using hmod
      rw [hmod']
      simp only [Bool.toNat_false, zero_mul, ne_eq, not_true_eq_false, if_false]
      refine ⟨hr, hE.trans ?_⟩
      have hpow : (2 : ℝ) ^ (k + 1) ≤ 2 ^ (k + 1 + 1) :=
        pow_le_pow_right₀ one_le_two (Nat.le_succ _)
      push_cast
      linarith
  | true =>
      rw [hbit] at hmod
      have hmod' : a % 2 ^ (k + 1) = a % 2 ^ k + 2 ^ k := by simpa using hmod
      have hne : true.toNat * 2 ^ k ≠ 0 := by simp
      have hsat : U256.satMul r G = r * G := by
        unfold U256.satMul u256Max
        have : r * G ≤ 2 ^ 128 * (2 ^ 128 - 1) := Nat.mul_le_mul hr (by omega)
        omega
      rw [if_pos hne, hsat, Nat.shiftRight_eq_div_pow, hmod', powQ128_add]
      refine ⟨?_, ?_⟩
      · have : r * G ≤ 2 ^ 128 * 2 ^ 128 := Nat.mul_le_mul hr hG.le
        exact Nat.div_le_of_le_mul this
      · have herr := mul_div_error (by positivity) hE hGE (Nat.cast_nonneg G)
          (by exact_mod_cast hG.le) (powQ128_nonneg _) (powQ128_le (a % 2 ^ k))
        have hfloor : |((r * G / 2 ^ 128 : ℕ) : ℝ) - (r : ℝ) * G / 2 ^ 128| ≤ 1 := by
          have h := nat_div_error (r * G) (m := 2 ^ 128) (Nat.two_pow_pos 128)
          rwa [Nat.cast_mul, Nat.cast_pow, Nat.cast_two] at h
        calc |((r * G / 2 ^ 128 : ℕ) : ℝ) - powQ128 (a % 2 ^ k) * powQ128 (2 ^ k) / 2 ^ 128|
            ≤ |((r * G / 2 ^ 128 : ℕ) : ℝ) - (r : ℝ) * G / 2 ^ 128| +
                |(r : ℝ) * G / 2 ^ 128 -
                  powQ128 (a % 2 ^ k) * powQ128 (2 ^ k) / 2 ^ 128| := abs_sub_le _ _ _
          _ ≤ 1 + ((2 ^ (k + 1) + (k : ℝ)) + (2 ^ (k + 1) - 2)) := add_le_add hfloor herr
          _ ≤ 2 ^ (k + 1 + 1) + ((k + 1 : ℕ) : ℝ) := by
              rw [pow_succ 2 (k + 1)]
              push_cast
              linarith

theorem ratio_fold_error (a : ℕ) : ∀ (l : List (ℕ × ℕ)) (k r : ℕ), FactorsOK k l →
    r ≤ 2 ^ 128 → |(r : ℝ) - powQ128 (a % 2 ^ k)| ≤ 2 ^ (k + 1) + (k : ℝ) →
    l.foldl (ratioStep a) r ≤ 2 ^ 128 ∧
      |((l.foldl (ratioStep a) r : ℕ) : ℝ) - powQ128 (a % 2 ^ (k + l.length))| ≤
        2 ^ (k + l.length + 1) + ((k + l.length : ℕ) : ℝ)
  | [], k, r, _, hr, hE => by simpa using ⟨hr, hE⟩
  | (m, G) :: l, k, r, hl, hr, hE => by
      obtain ⟨rfl, hG, hGE, hl'⟩ := hl
      obtain ⟨hr', hE'⟩ := ratioStep_error (a := a) hr hG hGE hE
      have h := ratio_fold_error a l (k + 1) _ hl' hr' hE'
      have hlen : k + ((2 ^ k, G) :: l).length = k + 1 + l.length := by
        simp only [List.length_cons]
        omega
      rw [hlen, List.foldl_cons]
      exact h

/-- **The ratio is a rounded power of the base.** -/
theorem ratioAtAbsTick_spec {a : ℕ} (ha : a < 2 ^ 20) :
    ratioAtAbsTick a ≤ 2 ^ 128 ∧ |(ratioAtAbsTick a : ℝ) - powQ128 a| ≤ 2 ^ 22 := by
  have hlen : 1 + ratioFactors.length = 20 := rfl
  have hstart : (if a &&& 1 ≠ 0 then factorZero else 2 ^ 128) ≤ 2 ^ 128 ∧
      ((if a &&& 1 ≠ 0 then factorZero else 2 ^ 128 : ℕ) : ℝ) =
        powQ128 (a % 2 ^ 1) := by
    rw [Nat.and_one_is_mod, pow_one]
    rcases Nat.mod_two_eq_zero_or_one a with h | h
    · rw [h, powQ128_zero]
      norm_num
    · rw [h, powQ128_one]
      norm_num [factorZero, U256.fromLimbs]
  have h := ratio_fold_error a ratioFactors 1 _ ratioFactors_ok hstart.1
    (by rw [hstart.2, sub_self, abs_zero]; positivity)
  rw [hlen, Nat.mod_eq_of_lt ha] at h
  refine ⟨h.1, le_trans h.2 ?_⟩
  norm_num

/-! ## Strict monotonicity -/

theorem powQ128_antitone {m n : ℕ} (h : m ≤ n) : powQ128 n ≤ powQ128 m := by
  unfold powQ128
  have := pow_le_pow_of_le_one tickBase_pos.le tickBase_le_one h
  nlinarith

theorem powQ128_succ (n : ℕ) : powQ128 (n + 1) = powQ128 n * tickBase := by
  unfold powQ128
  rw [pow_succ]
  ring

theorem le_powQ128 {a : ℕ} (ha : a ≤ 887272) : 2 ^ 63 ≤ powQ128 a := by
  have hval : 2 ^ 64 ≤ ratioAtAbsTick 887272 := by decide +kernel
  have hval' : (2 : ℝ) ^ 64 ≤ ratioAtAbsTick 887272 := by exact_mod_cast hval
  have herr := (abs_le.mp (ratioAtAbsTick_spec (a := 887272) (by norm_num)).2).2
  have hmono := powQ128_antitone ha
  have : (2 : ℝ) ^ 63 ≤ 2 ^ 64 - 2 ^ 22 := by norm_num
  linarith

/-- One tick moves the ratio by far more than the rounding error. -/
theorem ratioAtAbsTick_gap {a : ℕ} (ha : a < 887272) :
    ratioAtAbsTick (a + 1) + 2 ^ 48 ≤ ratioAtAbsTick a := by
  have h₀ := (abs_le.mp (ratioAtAbsTick_spec (a := a) (by omega)).2).1
  have h₁ := (abs_le.mp (ratioAtAbsTick_spec (a := a + 1) (by omega)).2).2
  have hlow := le_powQ128 ha.le
  have hgap : (2 : ℝ) ^ 63 * (4999625 / 10 ^ 11) ≤ powQ128 a - powQ128 (a + 1) := by
    have hmul := mul_le_mul hlow (le_sub_comm.mp tickBase_lt.le) (by norm_num)
      (powQ128_nonneg a)
    rw [powQ128_succ]
    linarith
  have hsmall : (2 : ℝ) ^ 48 + 2 * 2 ^ 22 ≤ 2 ^ 63 * (4999625 / 10 ^ 11) := by norm_num
  have hreal : (ratioAtAbsTick (a + 1) : ℝ) + 2 ^ 48 ≤ ratioAtAbsTick a := by linarith
  exact_mod_cast hreal

/-- The ratio of a tick in `Q128.128`, before it is rounded up to `Q64.96`. -/
def ratioQ128 (t : ℤ) : ℕ :=
  if 0 < t then u256Max / ratioAtAbsTick t.natAbs else ratioAtAbsTick t.natAbs

/-- The sqrt price of a tick in `Q64.96`. -/
def sqrtRatio (t : ℤ) : ℕ := (ratioQ128 t + (2 ^ 32 - 1)) / 2 ^ 32

theorem ratioQ128_le {t : ℤ} (ht : t.natAbs ≤ 887272) : ratioQ128 t ≤ u256Max := by
  unfold ratioQ128
  split
  · exact Nat.div_le_self _ _
  · refine le_trans (ratioAtAbsTick_spec (by omega)).1 ?_
    norm_num [u256Max]

theorem getSqrtRatioAtTick_ok {t : ℤ} (ht : t.natAbs ≤ 887272) :
    getSqrtRatioAtTick t = .ok (sqrtRatio t) := by
  have hle := ratioQ128_le ht
  unfold getSqrtRatioAtTick
  rw [if_neg (by omega)]
  show Except.ok (if ratioQ128 t &&& (2 ^ 32 - 1) ≠ 0
    then U256.satAdd (ratioQ128 t >>> 32) 1 else ratioQ128 t >>> 32) = _
  rw [Nat.and_two_pow_sub_one_eq_mod, Nat.shiftRight_eq_div_pow]
  congr 1
  unfold sqrtRatio U256.satAdd
  unfold u256Max at *
  split <;> omega

theorem ratioAtAbsTick_pos {a : ℕ} (ha : a ≤ 887272) : 0 < ratioAtAbsTick a := by
  have h := (abs_le.mp (ratioAtAbsTick_spec (a := a) (by omega)).2).1
  have hlow := le_powQ128 ha
  have hpos : (0 : ℝ) < ratioAtAbsTick a := by
    have : (2 : ℝ) ^ 22 < 2 ^ 63 := by norm_num
    linarith
  exact_mod_cast hpos

/-- Dividing by a number that is smaller by `2 ^ 48` gains `2 ^ 33`. -/
theorem u256Max_div_gap {r r' : ℕ} (hr : r ≤ 2 ^ 128) (hr' : 0 < r')
    (h : r' + 2 ^ 48 ≤ r) : u256Max / r + 2 ^ 33 ≤ u256Max / r' := by
  set q := u256Max / r with hq
  have hq₀ : q * r ≤ u256Max := Nat.div_mul_le_self _ _
  have hq₁ : 2 ^ 128 - 1 ≤ q := by
    rw [hq, Nat.le_div_iff_mul_le (by omega)]
    calc (2 ^ 128 - 1) * r ≤ (2 ^ 128 - 1) * 2 ^ 128 := Nat.mul_le_mul_left _ hr
      _ ≤ u256Max := by norm_num [u256Max]
  rw [Nat.le_div_iff_mul_le hr']
  have hgain : 2 ^ 33 * r' ≤ q * 2 ^ 48 := by
    calc 2 ^ 33 * r' ≤ 2 ^ 33 * 2 ^ 128 := Nat.mul_le_mul_left _ (by omega)
      _ ≤ (2 ^ 128 - 1) * 2 ^ 48 := by norm_num
      _ ≤ q * 2 ^ 48 := Nat.mul_le_mul_right _ hq₁
  calc (q + 2 ^ 33) * r' = q * r' + 2 ^ 33 * r' := Nat.add_mul _ _ _
    _ ≤ q * r' + q * 2 ^ 48 := Nat.add_le_add_left hgain _
    _ = q * (r' + 2 ^ 48) := (Nat.mul_add _ _ _).symm
    _ ≤ q * r := Nat.mul_le_mul_left _ h
    _ ≤ u256Max := hq₀

theorem ratioQ128_gap {t : ℤ} (h₁ : -887272 ≤ t) (h₂ : t < 887272) :
    ratioQ128 t + 2 ^ 33 ≤ ratioQ128 (t + 1) := by
  unfold ratioQ128
  rcases lt_trichotomy t 0 with ht | rfl | ht
  · rw [if_neg (by omega), if_neg (by omega)]
    have habs : t.natAbs = (t + 1).natAbs + 1 := by omega
    have hgap := ratioAtAbsTick_gap (a := (t + 1).natAbs) (by omega)
    rw [habs]
    omega
  · decide +kernel
  · rw [if_pos ht, if_pos (by omega)]
    have habs : (t + 1).natAbs = t.natAbs + 1 := by omega
    rw [habs]
    exact u256Max_div_gap (ratioAtAbsTick_spec (by omega)).1
      (ratioAtAbsTick_pos (by omega)) (ratioAtAbsTick_gap (by omega))

theorem sqrtRatio_lt_succ {t : ℤ} (h₁ : -887272 ≤ t) (h₂ : t < 887272) :
    sqrtRatio t < sqrtRatio (t + 1) := by
  have := ratioQ128_gap h₁ h₂
  unfold sqrtRatio
  omega

/-- **The sqrt ratio is strictly increasing in the tick.** -/
theorem sqrtRatio_strictMonoOn : StrictMonoOn sqrtRatio (Set.Icc (-887272) 887272) := by
  rintro s ⟨hs₁, hs₂⟩ t ⟨ht₁, ht₂⟩ hst
  -- induction on the distance from `s`
  obtain ⟨n, rfl⟩ : ∃ n : ℕ, t = s + 1 + n := ⟨(t - s - 1).toNat, by omega⟩
  induction n with
  | zero => simpa using sqrtRatio_lt_succ hs₁ (by omega)
  | succ n ih =>
      have hstep := sqrtRatio_lt_succ (t := s + 1 + n) (by omega) (by omega)
      have heq : s + 1 + ((n + 1 : ℕ) : ℤ) = s + 1 + n + 1 := by
        push_cast
        ring
      rw [heq]
      exact (ih (by omega) (by omega) (by omega)).trans hstep

end Subtensor.Swap
