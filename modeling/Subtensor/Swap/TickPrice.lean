import Subtensor.Lib.Except
import Subtensor.Swap.TickLog

/-!
# Ticks and prices invert each other

The estimate of `getTickAtSqrtRatio` is compared with the true logarithm of
the price. The result is a Galois connection between tick indexes and sqrt
prices: a tick is at most the tick of a price exactly when its own price is
at most that price.
-/

namespace Subtensor.Swap

open Subtensor.Lib

/-! ## The logarithm of the base -/

/-- The natural logarithm of one tick of sqrt price. -/
noncomputable def tickLog : ℝ := -Real.log tickBase

theorem tickLog_mem : 0.0000499975001664 < tickLog ∧ tickLog < 0.0000499975001669 := by
  set x : ℝ := 1 - tickBase with hx
  have hx₁ : 0.0000499962503124726 < x := by
    rw [hx]
    unfold tickBase factorZero U256.fromLimbs
    norm_num
  have hx₂ : x < 0.0000499962503124727 := by
    rw [hx]
    unfold tickBase factorZero U256.fromLimbs
    norm_num
  have hx0 : 0 < x := lt_trans (by norm_num) hx₁
  have habs : |x| < 1 := by
    rw [abs_of_pos hx0]
    linarith
  have hsum := Real.abs_log_sub_add_sum_range_le habs 3
  have hlog : Real.log (1 - x) = -tickLog := by
    rw [hx, tickLog]
    ring_nf
  have herr : |x| ^ (3 + 1) / (1 - |x|) ≤ 1 / 10 ^ 16 := by
    rw [abs_of_pos hx0, div_le_iff₀ (by linarith)]
    have : x ^ (3 + 1) ≤ 0.00005 ^ (3 + 1) :=
      pow_le_pow_left₀ hx0.le (by linarith) _
    norm_num at this ⊢
    linarith
  rw [hlog] at hsum
  obtain ⟨h₁, h₂⟩ := abs_le.mp (hsum.trans herr)
  norm_num [Finset.sum_range_succ] at h₁ h₂
  have hsq₁ : 0.0000499962503124726 ^ 2 ≤ x ^ 2 := by gcongr
  have hsq₂ : x ^ 2 ≤ 0.0000499962503124727 ^ 2 := by gcongr
  have hcu₁ : 0.0000499962503124726 ^ 3 ≤ x ^ 3 := by gcongr
  have hcu₂ : x ^ 3 ≤ 0.0000499962503124727 ^ 3 := by gcongr
  norm_num at hsq₁ hsq₂ hcu₁ hcu₂ hx₁ hx₂ ⊢
  constructor <;> linarith

theorem tickLog_pos : 0 < tickLog := lt_trans (by norm_num) tickLog_mem.1

/-- The scale of `logSqrt10001`, in `Q64`, is `log 2` over the logarithm of a
tick. -/
theorem sqrt10001_scale :
    |(U256.fromLimbs 11745905768312294533 13863 : ℝ) / 2 ^ 64 * tickLog - Real.log 2| ≤
      1 / 10 ^ 9 := by
  obtain ⟨h₁, h₂⟩ := tickLog_mem
  have hlog₁ := Real.log_two_gt_d9
  have hlog₂ := Real.log_two_lt_d9
  unfold U256.fromLimbs
  rw [abs_le]
  norm_num at h₁ h₂ hlog₁ hlog₂ ⊢
  constructor <;> linarith

/-! ## The sqrt ratio of a tick, to the base -/

/-- Numbers within a relative error have logarithms within twice that error. -/
theorem log_error {a b ε : ℝ} (ha : 0 < a) (hε : 0 ≤ ε) (hε' : ε ≤ 1 / 2)
    (h₁ : a * (1 - ε) ≤ b) (h₂ : b ≤ a * (1 + ε)) :
    |Real.log b - Real.log a| ≤ 2 * ε := by
  have hb : 0 < b := lt_of_lt_of_le (mul_pos ha (by linarith)) h₁
  have hup : Real.log b - Real.log a ≤ ε := by
    rw [← Real.log_div hb.ne' ha.ne']
    have hle : b / a ≤ 1 + ε := by
      rw [div_le_iff₀ ha]
      linarith
    have := Real.log_le_sub_one_of_pos (div_pos hb ha)
    linarith
  have hdown : Real.log a - Real.log b ≤ 2 * ε := by
    rw [← Real.log_div ha.ne' hb.ne']
    have hle : a / b ≤ 1 + 2 * ε := by
      rw [div_le_iff₀ hb]
      nlinarith [mul_nonneg hε (sub_nonneg.mpr hε'), mul_pos ha (show (0 : ℝ) < 2 by norm_num)]
    have := Real.log_le_sub_one_of_pos (div_pos ha hb)
    linarith
  rw [abs_le]
  constructor <;> linarith

theorem log_powQ128 (n : ℕ) : Real.log (powQ128 n) = 128 * Real.log 2 - n * tickLog := by
  unfold powQ128 tickLog
  rw [Real.log_mul (by positivity) (tickBase_pow_pos n).ne', Real.log_pow, Real.log_pow]
  push_cast
  ring

/-- The exact power that a sqrt ratio rounds, in `Q128.128`. -/
noncomputable def exactRatio (t : ℤ) : ℝ :=
  if 0 < t then (2 ^ 256 : ℕ) / powQ128 t.natAbs else powQ128 t.natAbs

theorem exactRatio_eq (t : ℤ) :
    exactRatio t = if 0 < t then 2 ^ 256 / powQ128 t.natAbs else powQ128 t.natAbs := by
  rw [exactRatio, Nat.cast_pow, Nat.cast_ofNat]

theorem exactRatio_pos {t : ℤ} (ht : t.natAbs ≤ 887272) : 0 < exactRatio t := by
  have hpos : 0 < powQ128 t.natAbs := lt_of_lt_of_le (by positivity) (le_powQ128 ht)
  rw [exactRatio_eq]
  split <;> positivity

theorem log_exactRatio {t : ℤ} (ht : t.natAbs ≤ 887272) :
    Real.log (exactRatio t) = 128 * Real.log 2 + t * tickLog := by
  have hpos : 0 < powQ128 t.natAbs := lt_of_lt_of_le (by positivity) (le_powQ128 ht)
  rw [exactRatio_eq]
  split
  · rename_i h
    have hcast : (t.natAbs : ℝ) = t := by
      rw [Nat.cast_natAbs, abs_of_pos h]
    rw [Real.log_div (by positivity) hpos.ne', Real.log_pow, log_powQ128, hcast]
    push_cast
    ring
  · rename_i h
    have hcast : (t.natAbs : ℝ) = -t := by
      rw [Nat.cast_natAbs, abs_of_nonpos (not_lt.mp h), Int.cast_neg]
    rw [log_powQ128, hcast]
    ring

/-- The rounded ratio is within a relative error of `2 ^ -40`, one unit aside. -/
theorem ratioQ128_error {t : ℤ} (ht : t.natAbs ≤ 887272) :
    exactRatio t * (1 - 1 / 2 ^ 40) - 1 ≤ ratioQ128 t ∧
      (ratioQ128 t : ℝ) ≤ exactRatio t * (1 + 1 / 2 ^ 40) := by
  have hspec := (abs_le.mp (ratioAtAbsTick_spec (a := t.natAbs) (by omega)).2)
  have hlow := le_powQ128 ht
  set Q := powQ128 t.natAbs with hQ
  have hQpos : 0 < Q := lt_of_lt_of_le (by positivity) hlow
  obtain ⟨r, hr⟩ : ∃ r, r = ratioAtAbsTick t.natAbs := ⟨_, rfl⟩
  have hrpos : (0 : ℝ) < r := by
    rw [hr]
    exact_mod_cast ratioAtAbsTick_pos ht
  rw [← hr] at hspec
  have hsmall : (2 : ℝ) ^ 22 ≤ Q / 2 ^ 41 := by
    rw [le_div_iff₀ (by positivity)]
    linarith
  rw [exactRatio_eq]
  unfold ratioQ128
  rw [← hQ, ← hr]
  split
  · have hdiv₁ := (abs_le.mp (nat_div_error u256Max (m := r) (by exact_mod_cast hrpos))).1
    have hdiv₂ : ((u256Max / r : ℕ) : ℝ) ≤ (u256Max : ℕ) / r := Nat.cast_div_le
    have hmax : ((u256Max : ℕ) : ℝ) = 2 ^ 256 - 1 := by norm_num [u256Max]
    rw [hmax] at hdiv₁ hdiv₂
    have hup : (2 ^ 256 - 1 : ℝ) / r ≤ 2 ^ 256 / Q * (1 + 1 / 2 ^ 40) := by
      rw [div_mul_eq_mul_div, div_le_div_iff₀ hrpos hQpos]
      nlinarith
    have hdown : 2 ^ 256 / Q * (1 - 1 / 2 ^ 40) ≤ (2 ^ 256 - 1 : ℝ) / r := by
      rw [div_mul_eq_mul_div, div_le_div_iff₀ hQpos hrpos]
      nlinarith
    constructor <;> linarith
  · constructor <;> linarith

theorem le_exactRatio {t : ℤ} (ht : t.natAbs ≤ 887272) : 2 ^ 63 ≤ exactRatio t := by
  have hlow := le_powQ128 ht
  have hhigh := powQ128_le t.natAbs
  have hpos : 0 < powQ128 t.natAbs := lt_of_lt_of_le (by positivity) hlow
  rw [exactRatio_eq]
  split
  · rw [le_div_iff₀ hpos]
    nlinarith
  · exact hlow

theorem sqrtRatio_pos {t : ℤ} (ht : t.natAbs ≤ 887272) : 0 < sqrtRatio t := by
  have h₁ := (ratioQ128_error ht).1
  have hlow := le_exactRatio ht
  have hpos : (0 : ℝ) < ratioQ128 t := by linarith
  have hpos' : 0 < ratioQ128 t := by exact_mod_cast hpos
  unfold sqrtRatio
  omega

/-- **The logarithm of a tick's sqrt ratio** is the tick times the logarithm
of the base, up to `2 ^ -29`. -/
theorem log_sqrtRatio {t : ℤ} (ht : t.natAbs ≤ 887272) :
    |Real.log (sqrtRatio t / 2 ^ 96) - t * tickLog| ≤ 1 / 2 ^ 29 := by
  obtain ⟨h₁, h₂⟩ := ratioQ128_error ht
  have hlow := le_exactRatio ht
  have hpos := exactRatio_pos ht
  have hceil₁ : (ratioQ128 t : ℝ) ≤ sqrtRatio t * 2 ^ 32 := by
    have : ratioQ128 t ≤ sqrtRatio t * 2 ^ 32 := by
      unfold sqrtRatio
      omega
    exact_mod_cast this
  have hceil₂ : (sqrtRatio t : ℝ) * 2 ^ 32 ≤ ratioQ128 t + 2 ^ 32 := by
    have : sqrtRatio t * 2 ^ 32 ≤ ratioQ128 t + 2 ^ 32 := by
      unfold sqrtRatio
      omega
    exact_mod_cast this
  have herr := log_error (a := exactRatio t) (b := sqrtRatio t * 2 ^ 32)
    (ε := 1 / 2 ^ 30) hpos (by norm_num) (by norm_num) (by linarith) (by linarith)
  have hspos : (0 : ℝ) < sqrtRatio t := by linarith
  have hlog : Real.log (sqrtRatio t / 2 ^ 96) =
      Real.log (sqrtRatio t * 2 ^ 32) - 128 * Real.log 2 := by
    rw [Real.log_div hspos.ne' (by positivity), Real.log_mul hspos.ne' (by positivity),
      Real.log_pow, Real.log_pow]
    push_cast
    ring
  rw [log_exactRatio ht] at herr
  rw [hlog]
  obtain ⟨e₁, e₂⟩ := abs_le.mp herr
  rw [abs_le]
  constructor <;> linarith

/-! ## The tick at a sqrt ratio -/

/-- The scaled logarithm, in ticks of `2 ^ 128`, is less than `0.85` ticks
below and less than `0.003` ticks above the tick of the price. -/
theorem log_estimate {x : ℕ} {T l : ℤ} (hT₁ : -887272 ≤ T) (hT₂ : T < 887272)
    (hlo : sqrtRatio T ≤ x) (hhi : x < sqrtRatio (T + 1))
    (hl₁ : -2 ^ 21 ≤ l) (hl₂ : l < 2 ^ 21)
    (hlog₁ : l * Real.log 2 ≤ 2 ^ 14 * Real.log (x / 2 ^ 96))
    (hlog₂ : 2 ^ 14 * Real.log (x / 2 ^ 96) ≤ (l + 1) * Real.log 2 + 1 / 2 ^ 100) :
    (1000 * T - 850) * 2 ^ 128 ≤
        1000 * (l * 2 ^ 50 * U256.fromLimbs 11745905768312294533 13863) ∧
      1000 * (l * 2 ^ 50 * U256.fromLimbs 11745905768312294533 13863) ≤
        (1000 * (T + 1) + 3) * 2 ^ 128 := by
  obtain ⟨S, hS⟩ : ∃ S : ℕ, S = U256.fromLimbs 11745905768312294533 13863 := ⟨_, rfl⟩
  have hscale := sqrt10001_scale
  rw [← hS] at hscale ⊢
  obtain ⟨hlam₁, hlam₂⟩ := tickLog_mem
  have hlam := tickLog_pos
  have hlog2 := Real.log_two_lt_d9
  obtain ⟨hTlo, -⟩ := abs_le.mp (log_sqrtRatio (t := T) (by omega))
  obtain ⟨-, hThi⟩ := abs_le.mp (log_sqrtRatio (t := T + 1) (by omega))
  have hTpos := sqrtRatio_pos (t := T) (by omega)
  have hylo : Real.log (sqrtRatio T / 2 ^ 96) ≤ Real.log (x / 2 ^ 96) := by
    apply Real.log_le_log (by positivity)
    gcongr
  have hyhi : Real.log (x / 2 ^ 96) ≤ Real.log (sqrtRatio (T + 1) / 2 ^ 96) := by
    have : 0 < x := hTpos.trans_le hlo
    apply Real.log_le_log (by positivity)
    gcongr
  -- the error of the scale, over the range of `l`
  have hl : |(l : ℝ)| ≤ 2 ^ 21 := by
    rw [abs_le]
    constructor
    · exact_mod_cast hl₁
    · exact_mod_cast hl₂.le
  have herr : |l * (S / 2 ^ 64 * tickLog) - l * Real.log 2| ≤ 2 ^ 21 * (1 / 10 ^ 9) := by
    rw [← mul_sub, abs_mul]
    exact mul_le_mul hl hscale (abs_nonneg _) (by positivity)
  obtain ⟨he₁, he₂⟩ := abs_le.mp herr
  push_cast at hThi
  have hdown : 2 ^ 14 * (T - 850 / 1000) * tickLog ≤ l * (S / 2 ^ 64) * tickLog := by
    norm_num at *
    linarith
  have hup : l * (S / 2 ^ 64) * tickLog ≤ 2 ^ 14 * (T + 1 + 3 / 1000) * tickLog := by
    norm_num at *
    linarith
  have hdown' := le_of_mul_le_mul_right hdown hlam
  have hup' := le_of_mul_le_mul_right hup hlam
  have hreal₁ : (1000 * (T : ℝ) - 850) * 2 ^ 128 ≤ 1000 * (l * 2 ^ 50 * S) := by
    linarith
  have hreal₂ : 1000 * ((l : ℝ) * 2 ^ 50 * S) ≤ (1000 * (T + 1) + 3) * 2 ^ 128 := by
    linarith
  exact ⟨by exact_mod_cast hreal₁, by exact_mod_cast hreal₂⟩

theorem sqrtRatio_ends :
    minSqrtRatio = sqrtRatio (-887272) ∧ maxSqrtRatio = sqrtRatio 887272 := by
  decide +kernel

/-- Every ratio in bounds lies in the interval of exactly one tick. -/
theorem exists_tick {x : ℕ} (h₁ : minSqrtRatio ≤ x) (h₂ : x < maxSqrtRatio) :
    ∃ T : ℤ, -887272 ≤ T ∧ T < 887272 ∧ sqrtRatio T ≤ x ∧ x < sqrtRatio (T + 1) := by
  obtain ⟨T, ⟨hT₁, hT₂, hT₃⟩, hmax⟩ := Int.exists_greatest_of_bdd
    (P := fun t => -887272 ≤ t ∧ t < 887272 ∧ sqrtRatio t ≤ x)
    ⟨887272, fun t ht => ht.2.1.le⟩
    ⟨-887272, le_rfl, by norm_num, sqrtRatio_ends.1 ▸ h₁⟩
  refine ⟨T, hT₁, hT₂, hT₃, ?_⟩
  by_contra hge
  rcases lt_or_eq_of_le (Int.add_one_le_iff.mpr hT₂) with hlt | heq
  · have := hmax (T + 1) ⟨by omega, hlt, not_lt.mp hge⟩
    omega
  · rw [heq, ← sqrtRatio_ends.2] at hge
    exact hge h₂

theorem tickErrors_toInt :
    tickLowError.toInt = 3402992956809132418596140100660247210 ∧
      tickHighError.toInt = 291339464771989622907027621153398088495 := by
  decide +kernel

/-- The two estimates `tick_low` and `tick_high`, as quotients. -/
theorem tickEstimates {x : ℕ} {z : ℤ} (hz : logSqrt10001 x = BitVec.ofInt 256 z)
    (h₁ : -2 ^ 150 ≤ z) (h₂ : z ≤ 2 ^ 150) :
    I256.lowI32 (I256.satSub (logSqrt10001 x) tickLowError >>> 128) =
        (z - 3402992956809132418596140100660247210) / 2 ^ 128 ∧
      I256.lowI32 (I256.satAdd (logSqrt10001 x) tickHighError >>> 128) =
        (z + 291339464771989622907027621153398088495) / 2 ^ 128 := by
  have hzInt : (BitVec.ofInt 256 z).toInt = z :=
    I256.toInt_ofInt_of_mem (by omega) (by omega)
  constructor
  · rw [hz, I256.satSub, hzInt, tickErrors_toInt.1, I256.clamp_of_mem (by omega) (by omega),
      I256.lowI32_shift (by omega) (by omega)]
  · rw [hz, I256.satAdd, hzInt, tickErrors_toInt.2, I256.clamp_of_mem (by omega) (by omega),
      I256.lowI32_shift (by omega) (by omega)]

/-- **The tick at a sqrt ratio** is the tick whose interval contains it. -/
theorem getTickAtSqrtRatio_eq {x : ℕ} {T : ℤ} (h₁ : minSqrtRatio ≤ x) (h₂ : x < maxSqrtRatio)
    (hT₁ : -887272 ≤ T) (hT₂ : T < 887272) (hlo : sqrtRatio T ≤ x)
    (hhi : x < sqrtRatio (T + 1)) : getTickAtSqrtRatio x = .ok T := by
  obtain ⟨l, hl₁, hl₂, hlog, hlog₁, hlog₂⟩ := logSqrt10001_spec h₁ h₂
  obtain ⟨hest₁, hest₂⟩ := log_estimate hT₁ hT₂ hlo hhi hl₁ hl₂ hlog₁ hlog₂
  generalize l * 2 ^ 50 * (U256.fromLimbs 11745905768312294533 13863 : ℤ) = z
    at hest₁ hest₂ hlog
  obtain ⟨hlow, hhigh⟩ := tickEstimates hlog (by omega) (by omega)
  unfold getTickAtSqrtRatio
  rw [if_neg (not_not.mpr ⟨h₁, h₂⟩)]
  simp only [hlow, hhigh]
  have hcases : ∃ lo hi : ℤ, (z - 3402992956809132418596140100660247210) / 2 ^ 128 = lo ∧
      (z + 291339464771989622907027621153398088495) / 2 ^ 128 = hi ∧
      (lo = T ∧ (hi = T ∨ hi = T + 1) ∨ lo + 1 = T ∧ hi = T) :=
    ⟨_, _, rfl, rfl, by omega⟩
  obtain ⟨lo, hi, hlodef, hhidef, h⟩ := hcases
  rw [hlodef, hhidef]
  clear hest₁ hest₂ hlow hhigh hlodef hhidef hlog
  have hok : getSqrtRatioAtTick hi = .ok (sqrtRatio hi) :=
    getSqrtRatioAtTick_ok (by omega)
  simp only [hok, pure, Except.pure, bind, Except.bind]
  rcases h with ⟨rfl, rfl | rfl⟩ | ⟨hlo', rfl⟩
  · rw [if_pos rfl]
  · rw [if_neg (by omega), if_neg (not_le.mpr hhi)]
  · rw [if_neg (by omega), if_pos hlo]

/-! ## Sqrt prices of ticks -/

theorem U256.satShl_eq {a n : ℕ} (h : a * 2 ^ n ≤ u256Max) :
    U256.satShl a n = a * 2 ^ n := by
  rw [U256.satShl, Nat.shiftLeft_eq, min_eq_left h]

theorem mul_le_u256Max {a : ℕ} (h : a < 2 ^ 128) : a * 2 ^ 32 ≤ u256Max := by
  calc a * 2 ^ 32 ≤ 2 ^ 128 * 2 ^ 32 := Nat.mul_le_mul_right _ h.le
    _ ≤ u256Max := by norm_num [u256Max]

theorem u64f64ToU256Q6496_eq (p : SqrtPrice) : u64f64ToU256Q6496 p = p.bits * 2 ^ 32 := by
  have h : (64 : ℕ) < 96 := by norm_num
  rw [u64f64ToU256Q6496, u64f64ToU256, if_neg h.not_gt, if_pos h]
  exact U256.satShl_eq (mul_le_u256Max p.isLt)

theorem ceilDiv_eq {x m : ℕ} (hm : 0 < m) :
    (if x % m ≠ 0 then x / m + 1 else x / m) = (x + (m - 1)) / m := by
  have hx := Nat.div_add_mod x m
  have hlt := Nat.mod_lt x hm
  split
  · rename_i h
    symm
    rw [Nat.div_eq_iff hm]
    constructor
    · rw [Nat.add_mul, Nat.mul_comm (x / m)]
      omega
    · rw [Nat.add_mul, Nat.mul_comm (x / m)]
      omega
  · rename_i h
    rw [not_not] at h
    symm
    rw [Nat.div_eq_iff hm, Nat.mul_comm (x / m)]
    omega

theorem qToU64f64_ok {x f d : ℕ} (hf : f - 64 = d) (hd : 0 < d) (hd' : d < 256)
    (h : (x + (2 ^ d - 1)) / 2 ^ d < 2 ^ 128) :
    ∃ p : U64F64, qToU64f64 x f = .ok p ∧ p.bits = (x + (2 ^ d - 1)) / 2 ^ d := by
  have hpow : (0 : ℕ) < 2 ^ d := Nat.two_pow_pos d
  have hmask : U256.satShl 1 d = 2 ^ d := by
    rw [U256.satShl_eq, one_mul]
    rw [one_mul, u256Max]
    exact Nat.le_sub_one_of_lt (Nat.pow_lt_pow_right one_lt_two hd')
  have hround : (if d ≠ 0 ∧ x &&& (2 ^ d - 1) ≠ 0 then U256.satAdd (x >>> d) 1 else x >>> d) =
      (x + (2 ^ d - 1)) / 2 ^ d := by
    rw [← ceilDiv_eq hpow] at h ⊢
    rw [Nat.and_two_pow_sub_one_eq_mod, Nat.shiftRight_eq_div_pow]
    by_cases hx : x % 2 ^ d ≠ 0
    · rw [if_pos ⟨hd.ne', hx⟩, if_pos hx, U256.satAdd, min_eq_left]
      rw [if_pos hx] at h
      exact h.le.trans (by norm_num [u256Max])
    · rw [if_neg (fun hc => hx hc.2), if_neg hx]
  generalize (x + (2 ^ d - 1)) / 2 ^ d = r at h hround ⊢
  refine ⟨⟨r, h⟩, ?_, rfl⟩
  simp only [qToU64f64, hf, if_pos hd.ne', hmask, hround]
  rw [dif_neg]
  rw [not_not, Nat.shiftRight_eq_div_pow, Nat.div_eq_of_lt h]
namespace TickIndex

theorem MIN_eq : MIN = -443636 := by decide

theorem MAX_eq : MAX = 443636 := by decide

/-- The sqrt price of a tick, as bits. -/
def priceBits (t : ℤ) : ℕ := (sqrtRatio t + (2 ^ 32 - 1)) / 2 ^ 32

theorem sqrtRatio_tickEnds :
    2 ^ 60 ≤ sqrtRatio (-443636) ∧ sqrtRatio (-443636) ≤ sqrtRatio 443636 ∧
      sqrtRatio 443636 < 2 ^ 129 ∧ priceBits 443636 * 2 ^ 32 < sqrtRatio 443637 := by
  decide +kernel

theorem natAbs_le {t : ℤ} (h₁ : MIN ≤ t) (h₂ : t ≤ MAX) :
    t.natAbs ≤ 443636 := by
  have hmin := MIN_eq
  have hmax := MAX_eq
  omega

theorem priceBits_lt {t : ℤ} (h₁ : MIN ≤ t) (h₂ : t ≤ MAX) :
    priceBits t < 2 ^ 128 := by
  have habs := natAbs_le h₁ h₂
  have hle : sqrtRatio t ≤ sqrtRatio 443636 :=
    sqrtRatio_strictMonoOn.monotoneOn ⟨by omega, by omega⟩ ⟨by omega, by omega⟩ (by omega)
  have hmax := sqrtRatio_tickEnds.2.2.1
  unfold priceBits
  omega

theorem tryToSqrtPrice_ok {t : ℤ} (h₁ : MIN ≤ t) (h₂ : t ≤ MAX) :
    ∃ p : SqrtPrice, tryToSqrtPrice t = .ok p ∧ p.bits = priceBits t := by
  have habs := natAbs_le h₁ h₂
  have hlt := priceBits_lt h₁ h₂
  have hok := getSqrtRatioAtTick_ok (t := t) (by omega)
  unfold priceBits at hlt ⊢
  generalize sqrtRatio t = x at hok hlt ⊢
  obtain ⟨p, hp, hbits⟩ := qToU64f64_ok (f := 96) (d := 32) (by norm_num) (by norm_num)
    (by norm_num) hlt
  refine ⟨p, ?_, hbits⟩
  rw [tryToSqrtPrice, if_neg (not_not.mpr ⟨h₁, h₂⟩), hok, ok_bind, u256Q6496ToU64f64, hp]

theorem asSqrtPriceBounded_bits {t : ℤ} (h₁ : MIN ≤ t) (h₂ : t ≤ MAX) :
    (asSqrtPriceBounded t).bits = priceBits t := by
  obtain ⟨p, hp, hbits⟩ := tryToSqrtPrice_ok h₁ h₂
  rw [asSqrtPriceBounded, hp]
  exact hbits

/-- A tick's price is at most a price exactly when its ratio is. -/
theorem priceBits_le_iff (t : ℤ) (b : ℕ) :
    priceBits t ≤ b ↔ sqrtRatio t ≤ b * 2 ^ 32 := by
  unfold priceBits
  omega

theorem sqrtRatio_le_iff {s t : ℤ} (hs : s.natAbs ≤ 887272) (ht : t.natAbs ≤ 887272) :
    sqrtRatio s ≤ sqrtRatio t ↔ s ≤ t :=
  sqrtRatio_strictMonoOn.le_iff_le ⟨by omega, by omega⟩ ⟨by omega, by omega⟩

theorem new_eq {t : ℤ} : new t = if MIN ≤ t ∧ t ≤ MAX then .ok t else .error .tickOutOfBounds := by
  unfold new
  by_cases h : MIN ≤ t ∧ t ≤ MAX
  · rw [if_neg (not_not.mpr h), if_pos h]
  · rw [if_pos h, if_neg h]

/-- A price whose ratio is in bounds gets the tick of its interval, unless
that tick is out of bounds. -/
theorem tryFromSqrtPrice_eq {p : SqrtPrice} {T : ℤ} (h₁ : minSqrtRatio ≤ p.bits * 2 ^ 32)
    (h₂ : p.bits * 2 ^ 32 < maxSqrtRatio) (hT₁ : -887272 ≤ T) (hT₂ : T < 887272)
    (hlo : sqrtRatio T ≤ p.bits * 2 ^ 32) (hhi : p.bits * 2 ^ 32 < sqrtRatio (T + 1)) :
    tryFromSqrtPrice p = new T := by
  have htick := getTickAtSqrtRatio_eq h₁ h₂ hT₁ hT₂ hlo hhi
  have hok₁ := getSqrtRatioAtTick_ok (t := T) (by omega)
  have hok₂ := getSqrtRatioAtTick_ok (t := T + 1) (by omega)
  rw [tryFromSqrtPrice, u64f64ToU256Q6496_eq, htick, ok_bind, hok₁, ok_bind,
    if_neg (not_lt.mpr hlo), hok₂, ok_bind, if_neg (not_le.mpr hhi)]

theorem tryFromSqrtPrice_error {p : SqrtPrice}
    (h : ¬(minSqrtRatio ≤ p.bits * 2 ^ 32 ∧ p.bits * 2 ^ 32 < maxSqrtRatio)) :
    tryFromSqrtPrice p = .error .sqrtPriceOutOfBounds := by
  have htick : getTickAtSqrtRatio (p.bits * 2 ^ 32) = .error .sqrtPriceOutOfBounds := by
    rw [getTickAtSqrtRatio, if_pos h]
    rfl
  rw [tryFromSqrtPrice, u64f64ToU256Q6496_eq, htick, error_bind]

/-- Below the least and above the greatest tick the conversion fails. -/
theorem tryFromSqrtPrice_outside {p : SqrtPrice}
    (h : p.bits * 2 ^ 32 < sqrtRatio (-443636) ∨ sqrtRatio 443637 ≤ p.bits * 2 ^ 32) :
    ∃ e, tryFromSqrtPrice p = .error e := by
  by_cases hb : minSqrtRatio ≤ p.bits * 2 ^ 32 ∧ p.bits * 2 ^ 32 < maxSqrtRatio
  · obtain ⟨T, hT₁, hT₂, hlo, hhi⟩ := exists_tick hb.1 hb.2
    refine ⟨.tickOutOfBounds, ?_⟩
    rw [tryFromSqrtPrice_eq hb.1 hb.2 hT₁ hT₂ hlo hhi, new_eq, if_neg]
    rw [MIN_eq, MAX_eq]
    rintro ⟨h₁, h₂⟩
    rcases h with h | h
    · have := (sqrtRatio_le_iff (by norm_num) (by omega)).mpr h₁
      omega
    · have := (sqrtRatio_le_iff (s := T + 1) (t := 443637) (by omega) (by norm_num)).mpr
        (by omega)
      omega
  · exact ⟨_, tryFromSqrtPrice_error hb⟩

theorem fromSqrtPriceBounded_of_error {p : SqrtPrice} {e : TickMathError}
    (h : tryFromSqrtPrice p = .error e) :
    fromSqrtPriceBounded p = if priceBits MAX < p.bits then MAX else MIN := by
  rw [fromSqrtPriceBounded, h]
  simp only [asSqrtPriceBounded_bits (t := MAX) (by decide) le_rfl]

theorem fromSqrtPriceBounded_of_ok {p : SqrtPrice} {T : ℤ}
    (h : tryFromSqrtPrice p = .ok T) : fromSqrtPriceBounded p = T := by
  rw [fromSqrtPriceBounded, h]

/-- Between the least and the greatest tick the conversion is exact. -/
theorem fromSqrtPriceBounded_inside {p : SqrtPrice}
    (h₁ : sqrtRatio (-443636) ≤ p.bits * 2 ^ 32) (h₂ : p.bits * 2 ^ 32 < sqrtRatio 443637) :
    ∃ T : ℤ, fromSqrtPriceBounded p = T ∧ -443636 ≤ T ∧ T ≤ 443636 ∧
      sqrtRatio T ≤ p.bits * 2 ^ 32 ∧ p.bits * 2 ^ 32 < sqrtRatio (T + 1) := by
  have hmin : minSqrtRatio ≤ p.bits * 2 ^ 32 := by
    rw [sqrtRatio_ends.1]
    exact ((sqrtRatio_le_iff (by norm_num) (by norm_num)).mpr (by norm_num)).trans h₁
  have hmax : p.bits * 2 ^ 32 < maxSqrtRatio := by
    rw [sqrtRatio_ends.2]
    exact h₂.trans_le ((sqrtRatio_le_iff (by norm_num) (by norm_num)).mpr (by norm_num))
  obtain ⟨T, hT₁, hT₂, hlo, hhi⟩ := exists_tick hmin hmax
  have hTlo : -443636 ≤ T := by
    have := (sqrtRatio_le_iff (s := T + 1) (t := -443636) (by omega) (by norm_num)).not.mp
      (by omega)
    omega
  have hThi : T ≤ 443636 := by
    have := (sqrtRatio_le_iff (s := 443637) (t := T) (by norm_num) (by omega)).not.mp
      (by omega)
    omega
  refine ⟨T, fromSqrtPriceBounded_of_ok ?_, hTlo, hThi, hlo, hhi⟩
  rw [tryFromSqrtPrice_eq hmin hmax hT₁ hT₂ hlo hhi, new_eq, if_pos]
  rw [MIN_eq, MAX_eq]
  exact ⟨hTlo, hThi⟩

/-- **The tick of a price.** The result is always in bounds, and a tick above
the least one is at most the tick of a price exactly when its own price is
at most that price. -/
theorem le_fromSqrtPriceBounded (p : SqrtPrice) :
    (MIN ≤ fromSqrtPriceBounded p ∧ fromSqrtPriceBounded p ≤ MAX) ∧
      ∀ k : ℤ, MIN < k → k ≤ MAX →
        (k ≤ fromSqrtPriceBounded p ↔ priceBits k ≤ p.bits) := by
  rw [MIN_eq, MAX_eq]
  obtain ⟨-, hbot, -, htop⟩ := sqrtRatio_tickEnds
  have htop' : sqrtRatio 443636 ≤ priceBits 443636 * 2 ^ 32 :=
    (priceBits_le_iff _ _).mp le_rfl
  by_cases h₁ : p.bits * 2 ^ 32 < sqrtRatio (-443636)
  · obtain ⟨e, he⟩ := tryFromSqrtPrice_outside (Or.inl h₁)
    have hmin : fromSqrtPriceBounded p = -443636 := by
      rw [fromSqrtPriceBounded_of_error he, MAX_eq, MIN_eq, if_neg (by omega)]
    rw [hmin]
    refine ⟨by norm_num, fun k hk₁ hk₂ => ⟨fun hk => by omega, fun hk => ?_⟩⟩
    have := (sqrtRatio_le_iff (s := -443636) (t := k) (by norm_num) (by omega)).mpr hk₁.le
    rw [priceBits_le_iff] at hk
    omega
  · by_cases h₂ : sqrtRatio 443637 ≤ p.bits * 2 ^ 32
    · obtain ⟨e, he⟩ := tryFromSqrtPrice_outside (Or.inr h₂)
      have hmax : fromSqrtPriceBounded p = 443636 := by
        have hgt : priceBits 443636 < p.bits :=
          Nat.lt_of_mul_lt_mul_right (htop.trans_le h₂)
        rw [fromSqrtPriceBounded_of_error he, MAX_eq, if_pos hgt]
      rw [hmax]
      refine ⟨⟨by norm_num, le_rfl⟩, fun k hk₁ hk₂ => ⟨fun _ => ?_, fun _ => hk₂⟩⟩
      have := (sqrtRatio_le_iff (s := k) (t := 443636) (by omega) (by norm_num)).mpr hk₂
      rw [priceBits_le_iff]
      omega
    · obtain ⟨T, hT, hT₁, hT₂, hlo, hhi⟩ := fromSqrtPriceBounded_inside (p := p)
        (not_lt.mp h₁) (not_le.mp h₂)
      rw [hT]
      refine ⟨⟨hT₁, hT₂⟩, fun k hk₁ hk₂ => ?_⟩
      rw [priceBits_le_iff]
      constructor
      · intro hk
        exact ((sqrtRatio_le_iff (by omega) (by omega)).mpr hk).trans hlo
      · intro hk
        have := (sqrtRatio_le_iff (s := T + 1) (t := k) (by omega) (by omega)).not.mp (by omega)
        omega

/-- Inside the bounds one tick moves the ratio by more than one unit of
price. -/
theorem sqrtRatio_gap {t : ℤ} (h₁ : MIN ≤ t) (h₂ : t < MAX) :
    sqrtRatio t + 2 ^ 33 ≤ sqrtRatio (t + 1) := by
  rw [MIN_eq] at h₁
  rw [MAX_eq] at h₂
  obtain ⟨-, hup⟩ := abs_le.mp (log_sqrtRatio (t := t) (by omega))
  obtain ⟨hdown, -⟩ := abs_le.mp (log_sqrtRatio (t := t + 1) (by omega))
  have hlam := tickLog_mem.1
  have hmin := sqrtRatio_tickEnds.1
  have hmono := (sqrtRatio_le_iff (s := -443636) (t := t) (by norm_num) (by omega)).mpr h₁
  have hs : (2 : ℝ) ^ 60 ≤ sqrtRatio t := by exact_mod_cast hmin.trans hmono
  have hpos : (0 : ℝ) < sqrtRatio t := lt_of_lt_of_le (by positivity) hs
  have hpos' : (0 : ℝ) < sqrtRatio (t + 1) := by
    exact_mod_cast sqrtRatio_pos (t := t + 1) (by omega)
  have hlog : Real.log (sqrtRatio (t + 1) / 2 ^ 96) - Real.log (sqrtRatio t / 2 ^ 96) ≤
      sqrtRatio (t + 1) / sqrtRatio t - 1 := by
    rw [← Real.log_div (by positivity) (by positivity), div_div_div_cancel_right₀ (by positivity)]
    exact Real.log_le_sub_one_of_pos (by positivity)
  push_cast at hdown
  have hquot : 1 + 1 / 2 ^ 20 ≤ (sqrtRatio (t + 1) : ℝ) / sqrtRatio t := by
    norm_num at hlog hup hdown hlam ⊢
    linarith
  rw [le_div_iff₀ hpos] at hquot
  have hreal : (sqrtRatio t : ℝ) + 2 ^ 33 ≤ sqrtRatio (t + 1) := by linarith
  exact_mod_cast hreal

theorem priceBits_lt_succ {t : ℤ} (h₁ : MIN ≤ t) (h₂ : t < MAX) :
    priceBits t < priceBits (t + 1) := by
  have := sqrtRatio_gap h₁ h₂
  unfold priceBits
  omega

theorem priceBits_mono {s t : ℤ} (h₁ : MIN ≤ s) (hst : s ≤ t) (h₂ : t ≤ MAX) :
    priceBits s ≤ priceBits t := by
  have hs := natAbs_le h₁ (hst.trans h₂)
  have ht := natAbs_le (h₁.trans hst) h₂
  rw [priceBits_le_iff]
  exact ((sqrtRatio_le_iff (by omega) (by omega)).mpr hst).trans
    ((priceBits_le_iff _ _).mp le_rfl)

/-- **The price is strictly increasing in the tick.** -/
theorem priceBits_strictMono {s t : ℤ} (h₁ : MIN ≤ s) (hst : s < t) (h₂ : t ≤ MAX) :
    priceBits s < priceBits t :=
  (priceBits_lt_succ h₁ (hst.trans_le h₂)).trans_le (priceBits_mono (by omega) hst h₂)

/-- **Round trip.** The tick of a tick's price is that tick. -/
theorem fromSqrtPriceBounded_asSqrtPriceBounded {t : ℤ} (h₁ : MIN ≤ t) (h₂ : t ≤ MAX) :
    fromSqrtPriceBounded (asSqrtPriceBounded t) = t := by
  obtain ⟨⟨hmin, hmax⟩, hgalois⟩ := le_fromSqrtPriceBounded (asSqrtPriceBounded t)
  rw [asSqrtPriceBounded_bits h₁ h₂] at hgalois
  apply le_antisymm
  · by_contra hgt
    have hlt := priceBits_strictMono h₁ (not_le.mp hgt) hmax
    have := (hgalois _ (h₁.trans_lt (not_le.mp hgt)) hmax).mp le_rfl
    omega
  · rcases h₁.lt_or_eq with h | h
    · exact (hgalois t h h₂).mpr le_rfl
    · exact h.symm.le.trans hmin

/-! ## The inequality of the conversion -/

/-- The ratio `x` lies in the interval of the tick `t`: `sqrt_lower_price <=
sqrt_price < sqrt_higher_price`. -/
def IsTickOf (x : ℕ) (t : ℤ) : Prop :=
  ∃ lower higher, getSqrtRatioAtTick t = .ok lower ∧ getSqrtRatioAtTick (t + 1) = .ok higher ∧
    lower ≤ x ∧ x < higher

theorem natAbs_le_of_ok {t : ℤ} {r : ℕ} (h : getSqrtRatioAtTick t = .ok r) :
    t.natAbs ≤ 887272 := by
  by_contra hout
  unfold getSqrtRatioAtTick at h
  rw [if_pos (not_le.mp hout)] at h
  cases h

theorem isTickOf_iff {x : ℕ} {t : ℤ} : IsTickOf x t ↔
    -887272 ≤ t ∧ t < 887272 ∧ sqrtRatio t ≤ x ∧ x < sqrtRatio (t + 1) := by
  constructor
  · rintro ⟨lower, higher, hlower, hhigher, hle, hlt⟩
    have habs := natAbs_le_of_ok hlower
    have habs' := natAbs_le_of_ok hhigher
    rw [getSqrtRatioAtTick_ok habs] at hlower
    rw [getSqrtRatioAtTick_ok habs'] at hhigher
    cases hlower
    cases hhigher
    exact ⟨by omega, by omega, hle, hlt⟩
  · rintro ⟨h₁, h₂, hle, hlt⟩
    exact ⟨_, _, getSqrtRatioAtTick_ok (by omega), getSqrtRatioAtTick_ok (by omega), hle, hlt⟩

/-- The intervals of two ticks do not overlap. -/
theorem IsTickOf.unique {x : ℕ} {s t : ℤ} (hs : IsTickOf x s) (ht : IsTickOf x t) : s = t := by
  obtain ⟨hs₁, hs₂, hsle, hslt⟩ := isTickOf_iff.mp hs
  obtain ⟨ht₁, ht₂, htle, htlt⟩ := isTickOf_iff.mp ht
  have hst := (sqrtRatio_le_iff (s := s + 1) (t := t) (by omega) (by omega)).not.mp
    (not_le.mpr (htle.trans_lt hslt))
  have hts := (sqrtRatio_le_iff (s := t + 1) (t := s) (by omega) (by omega)).not.mp
    (not_le.mpr (hsle.trans_lt htlt))
  omega

theorem tryFromSqrtPrice_isTickOf {p : SqrtPrice}
    (h₁ : sqrtRatio MIN ≤ u64f64ToU256Q6496 p)
    (h₂ : u64f64ToU256Q6496 p < sqrtRatio (MAX + 1)) :
    ∃ t, tryFromSqrtPrice p = .ok t ∧ IsTickOf (u64f64ToU256Q6496 p) t := by
  rw [u64f64ToU256Q6496_eq] at h₁ h₂ ⊢
  rw [MIN_eq] at h₁
  rw [MAX_eq] at h₂
  obtain ⟨T, hT, hT₁, hT₂, hlo, hhi⟩ := fromSqrtPriceBounded_inside h₁ h₂
  have htick : IsTickOf (p.bits * 2 ^ 32) T := isTickOf_iff.mpr ⟨by omega, by omega, hlo, hhi⟩
  refine ⟨T, ?_, htick⟩
  have hmin : minSqrtRatio ≤ p.bits * 2 ^ 32 := by
    rw [sqrtRatio_ends.1]
    exact ((sqrtRatio_le_iff (by norm_num) (by omega)).mpr (by omega)).trans hlo
  have hmax : p.bits * 2 ^ 32 < maxSqrtRatio := by
    rw [sqrtRatio_ends.2]
    exact hhi.trans_le ((sqrtRatio_le_iff (by omega) (by norm_num)).mpr (by omega))
  rw [tryFromSqrtPrice_eq hmin hmax (by omega) (by omega) hlo hhi, new_eq, MIN_eq, MAX_eq,
    if_pos ⟨hT₁, hT₂⟩]

/-- A higher price has no lower tick, also where the conversion fails. -/
theorem fromSqrtPriceBounded_mono {p q : SqrtPrice} (h : p.bits ≤ q.bits) :
    fromSqrtPriceBounded p ≤ fromSqrtPriceBounded q := by
  obtain ⟨⟨hpmin, hpmax⟩, hp⟩ := le_fromSqrtPriceBounded p
  obtain ⟨⟨hqmin, hqmax⟩, hq⟩ := le_fromSqrtPriceBounded q
  rcases hpmin.lt_or_eq with hlt | heq
  · exact (hq _ hlt hpmax).mpr (((hp _ hlt hpmax).mp le_rfl).trans h)
  · exact heq ▸ hqmin

/-- **The conversion of a price meets its inequality.** Between the ratio of
the least tick and the one above the greatest, the tick that is found is the
only one whose interval holds the price; the ratio of a tick is strictly
increasing, and the bounded conversion is monotone on all prices. -/
theorem tryFromSqrtPrice_spec :
    (∀ (p : SqrtPrice) (least most : ℕ), getSqrtRatioAtTick MIN = .ok least →
      getSqrtRatioAtTick (MAX + 1) = .ok most → least ≤ u64f64ToU256Q6496 p →
      u64f64ToU256Q6496 p < most →
        ∃ t, tryFromSqrtPrice p = .ok t ∧ IsTickOf (u64f64ToU256Q6496 p) t ∧
          ∀ t', IsTickOf (u64f64ToU256Q6496 p) t' → t' = t) ∧
    (∀ s t : ℤ, -887272 ≤ s → s < t → t ≤ 887272 →
      ∃ r r', getSqrtRatioAtTick s = .ok r ∧ getSqrtRatioAtTick t = .ok r' ∧ r < r') ∧
    (∀ p q : SqrtPrice, p.bits ≤ q.bits → fromSqrtPriceBounded p ≤ fromSqrtPriceBounded q) := by
  refine ⟨?_, ?_, fun p q h => fromSqrtPriceBounded_mono h⟩
  · intro p least most hleast hmost h₁ h₂
    have hmin := natAbs_le_of_ok hleast
    have hmax := natAbs_le_of_ok hmost
    rw [getSqrtRatioAtTick_ok hmin] at hleast
    rw [getSqrtRatioAtTick_ok hmax] at hmost
    cases hleast
    cases hmost
    obtain ⟨t, ht, htick⟩ := tryFromSqrtPrice_isTickOf h₁ h₂
    exact ⟨t, ht, htick, fun t' ht' => ht'.unique htick⟩
  · intro s t hs hst ht
    exact ⟨_, _, getSqrtRatioAtTick_ok (by omega), getSqrtRatioAtTick_ok (by omega),
      sqrtRatio_strictMonoOn ⟨hs, by omega⟩ ⟨by omega, ht⟩ hst⟩

theorem one_price_lt : 2 ^ 64 < 2 ^ (64 + 64) := by norm_num

/-- A price of one lies in the interval of the tick zero. -/
theorem tryFromSqrtPrice_spec_one : ∃ t, tryFromSqrtPrice ⟨2 ^ 64, one_price_lt⟩ = .ok t ∧
    IsTickOf (u64f64ToU256Q6496 ⟨2 ^ 64, one_price_lt⟩) t ∧
      ∀ t', IsTickOf (u64f64ToU256Q6496 ⟨2 ^ 64, one_price_lt⟩) t' → t' = t :=
  tryFromSqrtPrice_spec.1 ⟨2 ^ 64, one_price_lt⟩ _ _ (getSqrtRatioAtTick_ok (by decide))
    (getSqrtRatioAtTick_ok (by decide)) (by decide +kernel) (by decide +kernel)

end TickIndex

end Subtensor.Swap
