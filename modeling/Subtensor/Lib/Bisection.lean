import Mathlib.Analysis.Real.Sqrt
import Mathlib.Tactic

/-!
# Square roots by bisection

The root of a natural number `N` is enclosed by two bounds. The middle of them
takes the place of one bound, the upper one if the truncated quotient `N / m` is
below the middle `m`. So the interval halves, up to a unit, and keeps the root;
and where the quotient is close to the middle, the middle is close to the root.
-/

namespace Subtensor.Lib

@[ext]
structure Interval where
  high : ℕ
  low : ℕ

namespace Interval

def middle (i : Interval) : ℕ := (i.high + i.low) / 2

def width (i : Interval) : ℕ := i.high - i.low

/-- The half of the interval in which the root of `N` is. -/
def bisect (N : ℕ) (i : Interval) : Interval :=
  if N / i.middle < i.middle then ⟨i.middle, i.low⟩ else ⟨i.high, i.middle⟩

/-- The root of `N` is in the interval. -/
structure Encloses (N : ℕ) (i : Interval) : Prop where
  low : i.low * i.low ≤ N
  high : N ≤ i.high * i.high
  le : i.low ≤ i.high

/-- The quotient is within `e` of the middle. -/
def Close (N e : ℕ) (i : Interval) : Prop :=
  N / i.middle ≤ i.middle + e ∧ i.middle ≤ N / i.middle + e

section

variable {N e : ℕ} {i : Interval}

theorem Encloses.low_le_middle (h : i.Encloses N) : i.low ≤ i.middle := by
  have := h.le
  unfold middle
  omega

theorem Encloses.middle_le_high (h : i.Encloses N) : i.middle ≤ i.high := by
  have := h.le
  unfold middle
  omega

theorem bisect_high (h : N / i.middle < i.middle) : bisect N i = ⟨i.middle, i.low⟩ := if_pos h

theorem bisect_low (h : i.middle ≤ N / i.middle) : bisect N i = ⟨i.high, i.middle⟩ :=
  if_neg (not_lt.mpr h)

/-- A quotient below the middle puts the root below it. -/
theorem le_square_of_div_lt (h : N / i.middle < i.middle) : N ≤ i.middle * i.middle :=
  ((Nat.div_lt_iff_lt_mul (Nat.zero_lt_of_lt h)).mp h).le

theorem square_le_of_le_div (h : i.middle ≤ N / i.middle) : i.middle * i.middle ≤ N :=
  (Nat.mul_le_mul_right _ h).trans (Nat.div_mul_le_self _ _)

/-- The root stays enclosed. -/
theorem Encloses.bisect (h : i.Encloses N) : (bisect N i).Encloses N := by
  by_cases hlt : N / i.middle < i.middle
  · rw [bisect_high hlt]
    exact ⟨h.low, le_square_of_div_lt hlt, h.low_le_middle⟩
  · rw [bisect_low (not_lt.mp hlt)]
    exact ⟨square_le_of_le_div (not_lt.mp hlt), h.high, h.middle_le_high⟩

/-- The interval halves, up to a unit. -/
theorem Encloses.width_bisect (h : i.Encloses N) :
    i.width / 2 ≤ (Interval.bisect N i).width ∧ (Interval.bisect N i).width ≤ (i.width + 1) / 2 := by
  have hle := h.le
  by_cases hlt : N / i.middle < i.middle
  · rw [bisect_high hlt]
    unfold width middle
    dsimp only
    omega
  · rw [bisect_low (not_lt.mp hlt)]
    unfold width middle
    dsimp only
    omega

theorem Encloses.iterate (h : i.Encloses N) (n : ℕ) : ((Interval.bisect N)^[n] i).Encloses N := by
  induction n with
  | zero => exact h
  | succ n ih =>
      rw [Function.iterate_succ_apply']
      exact ih.bisect

theorem Encloses.width_iterate (h : i.Encloses N) (n : ℕ) :
    (((Interval.bisect N)^[n] i).width - 1) * 2 ^ n ≤ i.width - 1 := by
  induction n with
  | zero => exact (Nat.mul_one _).le
  | succ n ih =>
      rw [Function.iterate_succ_apply']
      have hhalf := ((h.iterate n).width_bisect).2
      have hstep : ((Interval.bisect N ((Interval.bisect N)^[n] i)).width - 1) * 2 ≤
          ((Interval.bisect N)^[n] i).width - 1 := by omega
      calc ((Interval.bisect N ((Interval.bisect N)^[n] i)).width - 1) * 2 ^ (n + 1)
          = ((Interval.bisect N ((Interval.bisect N)^[n] i)).width - 1) * 2 * 2 ^ n := by ring
        _ ≤ (((Interval.bisect N)^[n] i).width - 1) * 2 ^ n := Nat.mul_le_mul_right _ hstep
        _ ≤ i.width - 1 := ih

/-- From below: the middle loses at most twice its distance from the lower
bound. -/
theorem Encloses.le_div_add (h : i.Encloses N) :
    i.middle ≤ N / i.middle + 2 * (i.middle - i.low) := by
  have hle := h.low_le_middle
  rcases Nat.eq_zero_or_pos i.middle with hzero | hpos
  · rw [hzero]
    exact Nat.zero_le _
  · have hsquare : (i.middle - 2 * (i.middle - i.low)) * i.middle ≤ N := by
      obtain ⟨d, hd⟩ := Nat.exists_eq_add_of_le hle
      rw [hd, Nat.add_sub_cancel_left]
      refine le_trans ?_ h.low
      rcases le_total (i.low + d) (2 * d) with hbig | hsmall
      · rw [Nat.sub_eq_zero_of_le hbig, Nat.zero_mul]
        exact Nat.zero_le _
      · obtain ⟨k, hk⟩ := Nat.exists_eq_add_of_le hsmall
        have hlow : i.low = d + k := by omega
        rw [hk, Nat.add_sub_cancel_left, hlow]
        nlinarith
    have hquotient := (Nat.le_div_iff_mul_le hpos).mpr hsquare
    omega

/-- From above: the upper bound is at most one more than twice the middle. -/
theorem Encloses.div_le_add (h : i.Encloses N) :
    N / i.middle ≤ i.middle + 3 * (i.high - i.middle) + 2 := by
  have hle := h.middle_le_high
  have htwice : i.high ≤ 2 * i.middle + 1 := by
    unfold middle
    omega
  rcases Nat.eq_zero_or_pos i.middle with hzero | hpos
  · rw [hzero, Nat.div_zero]
    exact Nat.zero_le _
  · obtain ⟨d, hd⟩ := Nat.exists_eq_add_of_le hle
    have hsquare : N ≤ i.middle * (i.middle + 3 * d + 2) := by
      have hhigh := h.high
      rw [hd] at hhigh htwice
      nlinarith
    rw [hd, Nat.add_sub_cancel_left]
    exact Nat.div_le_of_le_mul hsquare

/-- In a narrow interval the quotient is close to the middle. -/
theorem Encloses.close (h : i.Encloses N) (hnarrow : 2 * i.width + 4 ≤ e) : i.Close N e := by
  have hbelow := h.le_div_add
  have habove := h.div_le_add
  have hmiddle : i.middle = (i.high + i.low) / 2 := rfl
  have hwidth : i.width = i.high - i.low := rfl
  have hle := h.le
  constructor
  · omega
  · omega

/-- Where the quotient is close to the middle, so are the squares. -/
theorem Close.squares (h : i.Close N e) (hpos : 0 < i.middle) (he : 0 < e) :
    (i.middle - e) * (i.middle - e) ≤ N ∧ N ≤ (i.middle + e) * (i.middle + e) := by
  obtain ⟨habove, hbelow⟩ := h
  constructor
  · calc (i.middle - e) * (i.middle - e)
        ≤ N / i.middle * i.middle :=
          Nat.mul_le_mul (Nat.sub_le_iff_le_add.mpr hbelow) (Nat.sub_le _ _)
      _ ≤ N := Nat.div_mul_le_self _ _
  · have hlt : N < (N / i.middle + 1) * i.middle := by
      rw [Nat.add_mul, Nat.one_mul]
      exact Nat.lt_div_mul_add hpos
    have hle : (N / i.middle + 1) * i.middle ≤ (i.middle + e + 1) * i.middle :=
      Nat.mul_le_mul_right _ (Nat.succ_le_succ habove)
    nlinarith

/-- Where the quotient is close to the middle, the middle is close to the
root. -/
theorem Close.abs_sub_sqrt_le (h : i.Close N e) (hpos : 0 < i.middle) (he : 0 < e) :
    |(i.middle : ℝ) - √N| ≤ e := by
  obtain ⟨hbelow, habove⟩ := h.squares hpos he
  rw [abs_sub_le_iff]
  constructor
  · rw [sub_le_comm]
    rcases le_total i.middle e with hle | hle
    · have hneg : (i.middle : ℝ) - e ≤ 0 := sub_nonpos.mpr (Nat.cast_le.mpr hle)
      exact hneg.trans (Real.sqrt_nonneg _)
    · apply Real.le_sqrt_of_sq_le
      rw [← Nat.cast_sub hle, sq]
      exact_mod_cast hbelow
  · rw [sub_le_iff_le_add', Real.sqrt_le_left (by positivity), sq]
    exact_mod_cast habove

end

end Interval

end Subtensor.Lib
