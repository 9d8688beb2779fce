import Mathlib.Tactic

/-!
# Constant product pools

A pool that keeps the product of its two reserves pays out for an amount what
leaves the product as it was. Two such pools in a row trade like one pool with
reserves of its own, so the largest amount at which a rate is still reached has
a closed form for one pool and for two.
-/

namespace Subtensor.Lib.ConstantProduct

variable {K : Type} [Field K]

/-- What a pool pays out for an amount when the product of its reserves stays. -/
def amountOut (reserveIn reserveOut amountIn : K) : K :=
  reserveOut - reserveOut * reserveIn / (reserveIn + amountIn)

/-- A reserve of the pool that two pools in a row act as: the outer reserve of
one of them, weighed by the share that the other has in what they trade
through. -/
def joinedReserve (reserve shared other : K) : K := reserve * other / (shared + other)

theorem amountOut_eq {x d : K} (y : K) (h : x + d ≠ 0) : amountOut x y d = y * d / (x + d) := by
  unfold amountOut
  field_simp
  ring

variable [LinearOrder K] [IsStrictOrderedRing K]

variable {x y d e rate x₂ y₂ : K}

theorem amountOut_nonneg (hx : 0 < x) (hy : 0 ≤ y) (hd : 0 ≤ d) : 0 ≤ amountOut x y d := by
  rw [amountOut_eq y (by positivity)]
  positivity

/-- A larger amount is paid more. -/
theorem amountOut_mono (hx : 0 < x) (hy : 0 ≤ y) (hd : 0 ≤ d) (hde : d ≤ e) :
    amountOut x y d ≤ amountOut x y e := by
  unfold amountOut
  have hnum : 0 ≤ y * x := mul_nonneg hy hx.le
  gcongr

/-- A rate is reached by the amounts up to `y / rate - x`. -/
theorem le_amountOut_iff (hx : 0 < x) (hd : 0 < d) :
    rate * d ≤ amountOut x y d ↔ rate * (x + d) ≤ y := by
  have hsum : 0 < x + d := by positivity
  rw [amountOut_eq y hsum.ne', le_div_iff₀ hsum]
  constructor
  · intro h
    refine le_of_mul_le_mul_right ?_ hd
    linarith
  · intro h
    have := mul_le_mul_of_nonneg_right h hd.le
    linarith

/-- What the first pool pays is sold to the second: they act as one pool. -/
theorem amountOut_amountOut (hx : 0 < x) (hy : 0 < y) (hx₂ : 0 < x₂) (hd : 0 ≤ d) :
    amountOut x₂ y₂ (amountOut x y d) =
      amountOut (joinedReserve x y x₂) (joinedReserve y₂ x₂ y) d := by
  have hfirst : 0 < x + d := by positivity
  have hout : 0 ≤ amountOut x y d := amountOut_nonneg hx hy.le hd
  have hjoined : 0 < joinedReserve x y x₂ + d := by
    unfold joinedReserve
    positivity
  have hsum : y + x₂ ≠ 0 := by positivity
  have hsum' : x₂ + y ≠ 0 := by positivity
  rw [amountOut_eq y₂ (add_pos_of_pos_of_nonneg hx₂ hout).ne', amountOut_eq _ hjoined.ne',
    amountOut_eq y hfirst.ne']
  unfold joinedReserve at hjoined ⊢
  have hden : x₂ * (x + d) + y * d ≠ 0 := by positivity
  have hden' : x * x₂ + d * (y + x₂) ≠ 0 := by positivity
  field_simp
  ring

/-- A rate is reached by two pools in a row when the amount, weighed by the
shared reserves, leaves room below the other reserves. -/
theorem le_amountOut_amountOut_iff (hx : 0 < x) (hy : 0 < y) (hx₂ : 0 < x₂) (hd : 0 < d) :
    rate * d ≤ amountOut x₂ y₂ (amountOut x y d) ↔
      rate * ((y + x₂) * d + x * x₂) ≤ y₂ * y := by
  have hjoined : 0 < joinedReserve x y x₂ := by
    unfold joinedReserve
    positivity
  have hsum : 0 < y + x₂ := by positivity
  rw [amountOut_amountOut hx hy hx₂ hd.le, le_amountOut_iff hjoined hd]
  unfold joinedReserve
  rw [add_comm x₂ y, le_div_iff₀ hsum]
  have heq : rate * (x * x₂ / (y + x₂) + d) * (y + x₂) =
      rate * ((y + x₂) * d + x * x₂) := by
    field_simp
    ring
  rw [heq]

/-- With room for an amount, all smaller amounts reach the rate. -/
theorem le_amountOut_amountOut_of_le (hx : 0 < x) (hy : 0 < y) (hx₂ : 0 < x₂) (hy₂ : 0 ≤ y₂)
    (hrate : 0 ≤ rate) (h : rate * ((y + x₂) * d + x * x₂) ≤ y₂ * y) (he : 0 ≤ e) (hed : e ≤ d) :
    rate * e ≤ amountOut x₂ y₂ (amountOut x y e) := by
  rcases he.eq_or_lt with rfl | hpos
  · rw [mul_zero]
    exact amountOut_nonneg hx₂ hy₂ (amountOut_nonneg hx hy.le le_rfl)
  · rw [le_amountOut_amountOut_iff hx hy hx₂ hpos]
    have hsum : 0 ≤ y + x₂ := by positivity
    calc rate * ((y + x₂) * e + x * x₂)
        ≤ rate * ((y + x₂) * d + x * x₂) := by gcongr
      _ ≤ y₂ * y := h

/-- The closed form with the shares of the shared reserves rounded down to a
unit: as long as the other reserve is at most one over the unit, the rounding is
worth less than one of the amount. -/
theorem roundedShares_le {unit share share₂ total : K} (hunit : 0 < unit) (htotal : 0 < total)
    (hrate : 0 ≤ rate) (hx : 0 ≤ x) (hxunit : x ≤ unit) (hy₂ : 0 ≤ y₂)
    (hshare : share * total ≤ y * unit) (hshare₂ : x₂ * unit ≤ share₂ * total + total)
    (h : rate * (d * unit + x * share₂) ≤ y₂ * share * unit) :
    rate * (total * (d - 1) + x * x₂) ≤ y₂ * y * unit := by
  have hrounded : x * (x₂ * unit) ≤ x * share₂ * total + unit * total := by
    calc x * (x₂ * unit)
        ≤ x * (share₂ * total + total) := by gcongr
      _ = x * share₂ * total + x * total := by ring
      _ ≤ x * share₂ * total + unit * total := by gcongr
  have hscaled : rate * (total * (d - 1) + x * x₂) * unit ≤ y₂ * y * unit * unit := by
    calc rate * (total * (d - 1) + x * x₂) * unit
        = rate * (d * unit * total + (x * (x₂ * unit) - unit * total)) := by ring
      _ ≤ rate * (d * unit * total + x * share₂ * total) := by
          gcongr
          linarith only [hrounded]
      _ = rate * (d * unit + x * share₂) * total := by ring
      _ ≤ y₂ * share * unit * total := by gcongr
      _ = y₂ * (share * total) * unit := by ring
      _ ≤ y₂ * (y * unit) * unit := by gcongr
      _ = y₂ * y * unit * unit := by ring
  exact le_of_mul_le_mul_right hscaled hunit

end Subtensor.Lib.ConstantProduct
