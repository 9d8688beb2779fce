import Subtensor.Lib.Bisection
import Subtensor.Swap.Liquidity

/-!
# The initial price

The price of a new pool is a quotient of reserves, and its square root is found
by bisection (`checked_sqrt`). The interval starts as wide as the number, or as
one for numbers below it, so it is narrow enough for the stopping test long
before the iterations run out; and the stopping test bounds the error.
-/

namespace Subtensor.Swap

open Subtensor.Lib

/-- The bounds of the root that the loop keeps. -/
structure Bisection where
  high : U64F64
  low : U64F64

namespace Bisection

def middle (b : Bisection) : U64F64 := (b.high.satAdd b.low).safeDiv (.ofNat 2)

/-- What the stopping test compares with `epsilon`. -/
def gap (x : U64F64) (b : Bisection) : U64F64 := (x.safeDiv b.middle).absDiff b.middle

/-- The body of the loop. -/
def next (x : U64F64) (b : Bisection) : Bisection where
  high := if (x.safeDiv b.middle).bits < b.middle.bits then b.middle else b.high
  low := if (x.safeDiv b.middle).bits < b.middle.bits then b.low else b.middle

def start (x : U64F64) : Bisection where
  high := if (UFixed.ofNat 1 : U64F64).bits < x.bits then x else .ofNat 1
  low := if (UFixed.ofNat 1 : U64F64).bits < x.bits then 0 else x

/-- No sum saturates, no quotient overflows, and no divisor is zero. -/
structure Fits (x : U64F64) (b : Bisection) : Prop where
  sum : (b.high.satAdd b.low).bits = b.high.bits + b.low.bits
  half : ((b.high.satAdd b.low).checkedDiv (.ofNat 2)).isSome
  divisor : b.middle.bits ≠ 0
  quotient : (x.checkedDiv b.middle).isSome

end Bisection

/-! ## The loop -/

theorem sqrtLoop_succ (x epsilon : U64F64) (n : ℕ) (b : Bisection) :
    sqrtLoop x epsilon (n + 1) b.high b.low b.middle =
      if epsilon.bits < (b.gap x).bits then
        sqrtLoop x epsilon n (b.next x).high (b.next x).low (b.next x).middle
      else b.middle := rfl

theorem checkedSqrt_eq (x epsilon : U64F64) :
    checkedSqrt x epsilon = some (sqrtLoop x epsilon 129 (Bisection.start x).high
      (Bisection.start x).low (Bisection.start x).middle) := by
  unfold checkedSqrt
  rfl

/-- The loop returns the first middle that passes the stopping test. -/
theorem sqrtLoop_eq_middle {x epsilon : U64F64} {n fuel : ℕ} (hfuel : n < fuel) {b : Bisection}
    (hgap : ∀ m < n, epsilon.bits < (((Bisection.next x)^[m] b).gap x).bits)
    (hclose : (((Bisection.next x)^[n] b).gap x).bits ≤ epsilon.bits) :
    sqrtLoop x epsilon fuel b.high b.low b.middle = ((Bisection.next x)^[n] b).middle := by
  induction n generalizing fuel b with
  | zero =>
      obtain ⟨fuel, rfl⟩ := Nat.exists_eq_succ_of_ne_zero hfuel.ne'
      have hlast : ¬epsilon.bits < (b.gap x).bits := not_lt.mpr hclose
      rw [sqrtLoop_succ, if_neg hlast]
      rfl
  | succ n ih =>
      obtain ⟨fuel, rfl⟩ := Nat.exists_eq_succ_of_ne_zero (Nat.zero_lt_of_lt hfuel).ne'
      have hfirst : epsilon.bits < (b.gap x).bits := hgap 0 (Nat.succ_pos n)
      rw [sqrtLoop_succ, if_pos hfirst]
      rw [Function.iterate_succ_apply] at hclose ⊢
      refine ih (Nat.lt_of_succ_lt_succ hfuel) ?_ hclose
      intro m hm
      have hstep := hgap (m + 1) (Nat.succ_lt_succ hm)
      rwa [Function.iterate_succ_apply] at hstep

/-! ## The bounds as natural numbers -/

namespace Bisection

def interval (b : Bisection) : Interval := ⟨b.high.bits, b.low.bits⟩

/-- The number whose integer root has the bits of the root. -/
def radicand (x : U64F64) : ℕ := x.bits * 2 ^ 64

/-- The root is enclosed, and the sum of the bounds is in range. -/
structure Sound (x : U64F64) (b : Bisection) : Prop where
  encloses : b.interval.Encloses (radicand x)
  sum : b.interval.high + b.interval.low < 2 ^ 128

section

variable {x epsilon : U64F64} {b : Bisection}

theorem bits_sum (h : b.interval.high + b.interval.low < 2 ^ 128) :
    (b.high.satAdd b.low).bits = b.interval.high + b.interval.low :=
  UFixed.bits_sat_of_lt h

theorem bits_middle (h : b.interval.high + b.interval.low < 2 ^ 128) :
    b.middle.bits = b.interval.middle := by
  unfold middle Interval.middle
  rw [UFixed.bits_safeDiv_ofNat _ (by norm_num) (by norm_num), bits_sum h]

theorem radicand_lt (x : U64F64) : radicand x < 2 ^ 192 := by
  have hx : x.bits < 2 ^ 128 := x.isLt
  unfold radicand
  omega

/-- The quotient by a middle that is not zero is in range. -/
theorem Sound.quotient_lt (h : b.Sound x) (hpos : 0 < b.interval.middle) :
    radicand x / b.interval.middle < 2 ^ 128 := by
  have hx := radicand_lt x
  rcases le_or_gt (2 ^ 64) b.interval.middle with hlarge | hsmall
  · rw [Nat.div_lt_iff_lt_mul hpos]
    calc radicand x < 2 ^ 128 * 2 ^ 64 := by omega
      _ ≤ 2 ^ 128 * b.interval.middle := Nat.mul_le_mul_left _ hlarge
  · have hquotient := h.encloses.div_le_add
    have hmiddle : b.interval.middle = (b.interval.high + b.interval.low) / 2 := rfl
    omega

theorem Sound.bits_quotient (h : b.Sound x) (hpos : 0 < b.interval.middle) :
    (x.checkedDiv b.middle).isSome ∧
      (x.safeDiv b.middle).bits = radicand x / b.interval.middle := by
  have hmiddle := bits_middle h.sum
  have hlt := h.quotient_lt hpos
  have hne : b.middle.bits ≠ 0 := by
    rw [hmiddle]
    exact hpos.ne'
  have hquotient : x.bits * 2 ^ 64 / b.middle.bits < 2 ^ (64 + 64) := by
    rw [hmiddle]
    exact hlt
  constructor
  · unfold UFixed.checkedDiv
    rw [if_neg hne, dif_pos hquotient]
    rfl
  · rw [UFixed.bits_safeDiv_of_lt hne hquotient, hmiddle]
    rfl

theorem Sound.fits (h : b.Sound x) (hpos : 0 < b.interval.middle) : b.Fits x where
  sum := bits_sum h.sum
  half := by
    have htwo : (UFixed.ofNat 2 : U64F64).bits = 2 * 2 ^ 64 :=
      UFixed.bits_ofNat_of_lt (by norm_num)
    have hlt := (b.high.satAdd b.low).isLt
    unfold UFixed.checkedDiv
    rw [htwo, if_neg (by norm_num), dif_pos]
    · rfl
    · rw [Nat.mul_div_mul_right _ _ (Nat.two_pow_pos 64)]
      exact (Nat.div_le_self _ _).trans_lt hlt
  divisor := by
    rw [bits_middle h.sum]
    exact hpos.ne'
  quotient := (h.bits_quotient hpos).1

/-- The stopping test is the one on natural numbers. -/
theorem Sound.gap_le_iff (h : b.Sound x) (hpos : 0 < b.interval.middle) :
    (b.gap x).bits ≤ epsilon.bits ↔ b.interval.Close (radicand x) epsilon.bits := by
  have hquotient := (h.bits_quotient hpos).2
  have hmiddle := bits_middle h.sum
  unfold gap UFixed.absDiff Interval.Close
  split
  · rename_i hlt
    rw [UFixed.bits_satSub, hquotient, hmiddle] at *
    omega
  · rename_i hlt
    rw [UFixed.bits_satSub, hquotient, hmiddle] at *
    omega

theorem Sound.interval_next (h : b.Sound x) (hpos : 0 < b.interval.middle) :
    (b.next x).interval = b.interval.bisect (radicand x) := by
  have hquotient := (h.bits_quotient hpos).2
  have hmiddle := bits_middle h.sum
  by_cases hlt : radicand x / b.interval.middle < b.interval.middle
  · have hbits : (x.safeDiv b.middle).bits < b.middle.bits := by rwa [hquotient, hmiddle]
    rw [Interval.bisect_high hlt, ← hmiddle]
    unfold next
    rw [if_pos hbits, if_pos hbits]
    rfl
  · have hbits : ¬(x.safeDiv b.middle).bits < b.middle.bits := by rwa [hquotient, hmiddle]
    rw [Interval.bisect_low (not_lt.mp hlt), ← hmiddle]
    unfold next
    rw [if_neg hbits, if_neg hbits]
    rfl

theorem Sound.next (h : b.Sound x) (hpos : 0 < b.interval.middle) : (b.next x).Sound x := by
  have hinterval := h.interval_next hpos
  have hencloses : (b.next x).interval.Encloses (radicand x) := by
    rw [hinterval]
    exact h.encloses.bisect
  refine ⟨hencloses, ?_⟩
  have hsum := h.sum
  have hmiddle : b.interval.middle = (b.interval.high + b.interval.low) / 2 := rfl
  have hle := h.encloses.middle_le_high
  rw [hinterval]
  by_cases hlt : radicand x / b.interval.middle < b.interval.middle
  · rw [Interval.bisect_high hlt]
    dsimp only
    omega
  · rw [Interval.bisect_low (not_lt.mp hlt)]
    -- the middle is below the root, and the upper bound is about twice the middle
    have hsquare := Interval.square_le_of_le_div (not_lt.mp hlt)
    have hx := radicand_lt x
    have hsmall : b.interval.middle < 2 ^ 96 := by
      by_contra hlarge
      have hlarge := not_lt.mp hlarge
      have hbig := Nat.mul_le_mul hlarge hlarge
      omega
    dsimp only
    omega

theorem interval_start (x : U64F64) : (start x).interval =
    if 2 ^ 64 < x.bits then ⟨x.bits, 0⟩ else ⟨2 ^ 64, x.bits⟩ := by
  have hone : (UFixed.ofNat 1 : U64F64).bits = 2 ^ 64 :=
    (UFixed.bits_ofNat_of_lt (by norm_num)).trans (Nat.one_mul _)
  unfold start interval
  rw [hone]
  by_cases hlt : 2 ^ 64 < x.bits
  · rw [if_pos hlt, if_pos hlt, if_pos hlt]
    rfl
  · rw [if_neg hlt, if_neg hlt, if_neg hlt, hone]

/-- The root of a number over one is below it, and that of any other is above. -/
theorem start_sound (x : U64F64) :
    (start x).Sound x ∧ 0 < (start x).interval.middle ∧ (start x).interval.width < 2 ^ 128 := by
  have hx : x.bits < 2 ^ 128 := x.isLt
  have hradicand : radicand x = x.bits * 2 ^ 64 := rfl
  by_cases hlt : 2 ^ 64 < x.bits
  · have hinterval : (start x).interval = ⟨x.bits, 0⟩ := by rw [interval_start, if_pos hlt]
    have hhigh : radicand x ≤ x.bits * x.bits := Nat.mul_le_mul_left _ hlt.le
    refine ⟨⟨?_, ?_⟩, ?_, ?_⟩
    · rw [hinterval]
      exact ⟨Nat.zero_le _, hhigh, Nat.zero_le _⟩
    · rw [hinterval]
      exact hx
    · rw [hinterval, Interval.middle]
      dsimp only
      omega
    · rw [hinterval, Interval.width]
      dsimp only
      omega
  · have hinterval : (start x).interval = ⟨2 ^ 64, x.bits⟩ := by
      rw [interval_start, if_neg hlt]
    have hle := not_lt.mp hlt
    have hlow : x.bits * x.bits ≤ radicand x := Nat.mul_le_mul_left _ hle
    have hhigh : radicand x ≤ 2 ^ 64 * 2 ^ 64 := Nat.mul_le_mul_right _ hle
    refine ⟨⟨?_, ?_⟩, ?_, ?_⟩
    · rw [hinterval]
      exact ⟨hlow, hhigh, hle⟩
    · rw [hinterval]
      dsimp only
      omega
    · rw [hinterval, Interval.middle]
      dsimp only
      omega
    · rw [hinterval, Interval.width]
      dsimp only
      omega

/-! ## Iterations -/

/-- While the stopping test has not been passed, the interval is wide, so the
next middle is not zero. -/
theorem iterate_sound (hepsilon : sqrtEpsilon.bits ≤ epsilon.bits) {n : ℕ}
    (hgap : ∀ m < n, epsilon.bits < (((next x)^[m] (start x)).gap x).bits) :
    ((next x)^[n] (start x)).Sound x ∧ 0 < ((next x)^[n] (start x)).interval.middle ∧
      ((next x)^[n] (start x)).interval =
        (Interval.bisect (radicand x))^[n] (start x).interval := by
  induction n with
  | zero =>
      obtain ⟨hsound, hpos, -⟩ := start_sound x
      exact ⟨hsound, hpos, rfl⟩
  | succ n ih =>
      obtain ⟨hsound, hpos, hinterval⟩ := ih fun m hm => hgap m (hm.trans (Nat.lt_succ_self n))
      have hwide := hgap n (Nat.lt_succ_self n)
      rw [Function.iterate_succ_apply', Function.iterate_succ_apply']
      generalize (next x)^[n] (start x) = b at *
      have hnext := hsound.interval_next hpos
      refine ⟨hsound.next hpos, ?_, by rw [hnext, hinterval]⟩
      have hnarrow : ¬2 * b.interval.width + 4 ≤ epsilon.bits := by
        intro hnarrow
        exact absurd hwide (not_lt.mpr ((hsound.gap_le_iff hpos).mpr
          (hsound.encloses.close hnarrow)))
      have hhalf := hsound.encloses.width_bisect.1
      have hbits : sqrtEpsilon.bits = 18446744 := rfl
      rw [← hnext] at hhalf
      generalize (b.next x).interval = i at *
      unfold Interval.width at hhalf hnarrow
      unfold Interval.middle
      omega

/-- After 106 iterations the interval is narrow. -/
theorem exists_gap_le (x : U64F64) (hepsilon : sqrtEpsilon.bits ≤ epsilon.bits) :
    ∃ n ≤ 106, (((next x)^[n] (start x)).gap x).bits ≤ epsilon.bits := by
  by_contra hnone
  have hgap : ∀ m ≤ 106, epsilon.bits < (((next x)^[m] (start x)).gap x).bits := by
    intro m hm
    by_contra hle
    exact hnone ⟨m, hm, not_lt.mp hle⟩
  obtain ⟨hstart, -, hwidth⟩ := start_sound x
  obtain ⟨hsound, hpos, hinterval⟩ := iterate_sound hepsilon (n := 106) fun m hm => hgap m hm.le
  have hnarrow := hstart.encloses.width_iterate 106
  rw [← hinterval] at hnarrow
  have hbits : sqrtEpsilon.bits = 18446744 := rfl
  refine absurd (hgap 106 le_rfl) (not_lt.mpr ((hsound.gap_le_iff hpos).mpr
    (hsound.encloses.close ?_)))
  omega

end

end Bisection

theorem sqrt_eq_radicand (x : U64F64) :
    √((x.bits : ℝ) / 2 ^ 64) = √(Bisection.radicand x : ℝ) / 2 ^ 64 := by
  have hsquare : (x.bits : ℝ) / 2 ^ 64 = (Bisection.radicand x : ℝ) / (2 ^ 64) ^ 2 := by
    rw [Bisection.radicand, Nat.cast_mul, Nat.cast_pow, Nat.cast_ofNat, sq,
      mul_div_mul_right _ _ (pow_ne_zero 64 two_ne_zero)]
  rw [hsquare, Real.sqrt_div' _ (by positivity), Real.sqrt_sq (by positivity)]

/-- **`checked_sqrt` converges and is accurate.** For every number and every
`epsilon` from `sqrtEpsilon` on, the greatest fixed-point number up to `10⁻¹²`:
there is a first iteration before the 128th at which the stopping test is
passed; the middle of that iteration is returned, and differs from the root by
at most `epsilon`; and up to it every sum and quotient is in range, and no
divisor is zero. -/
theorem checkedSqrt_accurate (x epsilon : U64F64) (hepsilon : sqrtEpsilon.bits ≤ epsilon.bits) :
    ∃ n r, n < 128 ∧ checkedSqrt x epsilon = some r ∧
      r = ((Bisection.next x)^[n] (.start x)).middle ∧
      (((Bisection.next x)^[n] (.start x)).gap x).bits ≤ epsilon.bits ∧
      (∀ m < n, epsilon.bits < (((Bisection.next x)^[m] (.start x)).gap x).bits) ∧
      (∀ m ≤ n, ((Bisection.next x)^[m] (.start x)).Fits x) ∧
      |(r.bits : ℝ) / 2 ^ 64 - √((x.bits : ℝ) / 2 ^ 64)| ≤ (epsilon.bits : ℝ) / 2 ^ 64 := by
  obtain ⟨last, hlast, hclose⟩ := Bisection.exists_gap_le x hepsilon
  have hexists : ∃ n, (((Bisection.next x)^[n] (.start x)).gap x).bits ≤ epsilon.bits :=
    ⟨last, hclose⟩
  -- the first iteration that passes the test
  obtain ⟨n, hn, hfirst⟩ : ∃ n, (((Bisection.next x)^[n] (.start x)).gap x).bits ≤
      epsilon.bits ∧ ∀ m < n, epsilon.bits < (((Bisection.next x)^[m] (.start x)).gap x).bits :=
    ⟨Nat.find hexists, Nat.find_spec hexists, fun m hm => not_le.mp (Nat.find_min hexists hm)⟩
  have hle : n ≤ last := by
    by_contra hlt
    exact absurd hclose (not_le.mpr (hfirst last (not_le.mp hlt)))
  have hsound : ∀ m ≤ n, ((Bisection.next x)^[m] (.start x)).Sound x ∧
      0 < ((Bisection.next x)^[m] (.start x)).interval.middle := by
    intro m hm
    obtain ⟨hm, hpos, -⟩ :=
      Bisection.iterate_sound hepsilon fun k hk => hfirst k (hk.trans_le hm)
    exact ⟨hm, hpos⟩
  obtain ⟨hlastSound, hpos⟩ := hsound n le_rfl
  refine ⟨n, _, by omega, ?_, rfl, hn, hfirst, fun m hm => (hsound m hm).1.fits (hsound m hm).2,
    ?_⟩
  · rw [checkedSqrt_eq, sqrtLoop_eq_middle (by omega) hfirst hn]
  · have herror := ((hlastSound.gap_le_iff hpos).mp hn).abs_sub_sqrt_le hpos
      (lt_of_lt_of_le (by decide) hepsilon)
    rw [Bisection.bits_middle hlastSound.sum, sqrt_eq_radicand, ← sub_div, abs_div,
      abs_of_pos (by positivity : (0 : ℝ) < 2 ^ 64)]
    gcongr

/-- The root of four. -/
theorem checkedSqrt_accurate_four :
    ∃ r, checkedSqrt (.ofNat 4) sqrtEpsilon = some r ∧
      |(r.bits : ℝ) / 2 ^ 64 - √(((UFixed.ofNat 4 : U64F64).bits : ℝ) / 2 ^ 64)| ≤
        (sqrtEpsilon.bits : ℝ) / 2 ^ 64 := by
  obtain ⟨-, r, -, hr, -, -, -, -, herror⟩ := checkedSqrt_accurate (.ofNat 4) sqrtEpsilon le_rfl
  exact ⟨r, hr, herror⟩

end Subtensor.Swap
