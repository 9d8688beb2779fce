import Mathlib.Tactic

/-!
# Trading shares at a rounded price

A total is held in shares. The price of a share is rounded down, and a trade
moves an amount and as many shares as the amount is worth at that price, rounded
down again. The rounding moves value between the holders of shares, by less than
a number that bounds the shares and the price.
-/

namespace Subtensor.Lib.SharePrice

/-- The price of one share, rounded down. -/
def price (total shares : ℕ) : ℕ := total / shares

variable {total shares amount traded own rest other bound : ℕ}

theorem price_mul_le (total shares : ℕ) : price total shares * shares ≤ total :=
  Nat.div_mul_le_self _ _

theorem lt_price_mul (total : ℕ) (h : 0 < shares) :
    total < price total shares * shares + shares := by
  have := Nat.lt_div_mul_add (a := total) h
  unfold price
  omega

theorem le_price_iff (h : 0 < shares) {p : ℕ} :
    p ≤ price total shares ↔ p * shares ≤ total := Nat.le_div_iff_mul_le h

/-- A number whose whole units are at most `n`. -/
theorem lt_of_div_le {a n : ℕ} (hpos : 0 < bound) (h : a / bound ≤ n) :
    a < n * bound + bound := by
  rw [← Nat.succ_mul]
  exact (Nat.div_lt_iff_lt_mul hpos).mp (Nat.lt_succ_of_le h)

/-! ## Deposits -/

/-- A deposit never lowers the price. -/
theorem price_le_deposit (hpos : 0 < shares) (htraded : traded * price total shares ≤ amount) :
    price total shares ≤ price (total + amount) (shares + traded) := by
  rw [le_price_iff (by omega), Nat.mul_add, Nat.mul_comm _ traded]
  exact Nat.add_le_add (price_mul_le total shares) htraded

/-- The depositor holds less than the bound too much. -/
theorem deposit_own_lt (hpos : 0 < own + rest) (hbound : own + rest < bound)
    (htraded : traded * price total (own + rest) ≤ amount) :
    (total + amount) * (own + traded) <
      (price total (own + rest) * own + amount + bound) * (own + rest + traded) := by
  have hlow := lt_price_mul total hpos
  generalize price total (own + rest) = p at *
  have h₁ := Nat.mul_le_mul_right (own + traded) hlow.le
  have h₂ := Nat.mul_le_mul_left rest htraded
  have h₃ := Nat.mul_le_mul_right (own + traded) hbound.le
  nlinarith

/-- The depositor holds less than the bound too little. -/
theorem lt_deposit_own (hpos : 0 < own + rest) (hbound : own + rest + traded < bound)
    (hprice : price total (own + rest) ≤ bound)
    (htraded : amount < traded * price total (own + rest) + price total (own + rest)) :
    price total (own + rest) * own + amount <
      price (total + amount) (own + rest + traded) * (own + traded) + bound := by
  have hold := price_mul_le total (own + rest)
  have hnew := lt_price_mul (total + amount) (show 0 < own + rest + traded by omega)
  generalize price total (own + rest) = p at *
  generalize price (total + amount) (own + rest + traded) = p' at *
  have hscaled : (p * own + amount) * (own + rest + traded) <
      (p' * (own + traded) + bound) * (own + rest + traded) := by
    have h₁ := Nat.mul_le_mul_right (own + traded) hnew.le
    have h₂ := Nat.mul_le_mul_right (own + traded) hold
    have h₃ := Nat.mul_le_mul_left rest htraded.le
    have h₄ := Nat.mul_le_mul_left rest hprice
    have h₅ := Nat.mul_le_mul_left (own + traded) hbound.le
    nlinarith
  exact Nat.lt_of_mul_lt_mul_right hscaled

/-- Another holder gains less than twice the bound. -/
theorem deposit_other_lt (hpos : 0 < shares) (hbound : shares < bound)
    (hprice : price total shares ≤ bound) (hother : other ≤ shares)
    (htraded : amount < traded * price total shares + price total shares) :
    (total + amount) * other < (price total shares * other + 2 * bound) * (shares + traded) := by
  have hlow := lt_price_mul total hpos
  generalize price total shares = p at *
  have h₁ := Nat.mul_le_mul_right other hlow.le
  have h₂ := Nat.mul_le_mul_right other htraded.le
  have h₃ := Nat.mul_le_mul hother hprice
  have h₄ := Nat.mul_le_mul hother hbound.le
  nlinarith

/-! ## Withdrawals -/

/-- What is left of a withdrawn share is less than the bound too much. -/
theorem withdraw_own_lt (hpos : 0 < own + rest) (hbound : own + traded + rest < bound)
    (hprice : price (total + amount) (own + traded + rest) ≤ bound)
    (htraded : amount < traded * price (total + amount) (own + traded + rest) +
      price (total + amount) (own + traded + rest)) :
    (total * own + amount * (own + rest)) <
      (price (total + amount) (own + traded + rest) * (own + traded) + bound) * (own + rest) := by
  have hlow := lt_price_mul (total + amount) (show 0 < own + traded + rest by omega)
  generalize price (total + amount) (own + traded + rest) = p at *
  have h₁ := Nat.mul_le_mul_right own hlow.le
  have h₂ := Nat.mul_le_mul_left rest htraded.le
  have h₃ := Nat.mul_le_mul_left rest hprice
  have h₄ := Nat.mul_le_mul_left own hbound.le
  nlinarith

/-- What is left of a withdrawn share is less than the bound too little. -/
theorem lt_withdraw_own (hpos : 0 < own + rest) (hbound : own < bound)
    (htraded : traded * price (total + amount) (own + traded + rest) ≤ amount) :
    price (total + amount) (own + traded + rest) * (own + traded) <
      price total (own + rest) * own + amount + bound := by
  have hold := price_mul_le (total + amount) (own + traded + rest)
  have hnew := lt_price_mul total hpos
  generalize price (total + amount) (own + traded + rest) = p at *
  generalize price total (own + rest) = p' at *
  have hscaled : p * (own + traded) * (own + rest) <
      (p' * own + amount + bound) * (own + rest) := by
    have h₁ := Nat.mul_le_mul_right own hnew.le
    have h₂ := Nat.mul_le_mul_right own hold
    have h₃ := Nat.mul_le_mul_left rest htraded
    have h₄ := Nat.mul_lt_mul_of_pos_right hbound hpos
    nlinarith
  exact Nat.lt_of_mul_lt_mul_right hscaled

/-- Another holder gains less than the bound by a withdrawal. -/
theorem withdraw_other_lt (hpos : 0 < shares) (hbound : shares + traded < bound)
    (hother : other ≤ shares)
    (htraded : traded * price (total + amount) (shares + traded) ≤ amount) :
    total * other < (price (total + amount) (shares + traded) * other + bound) * shares := by
  have hlow := lt_price_mul (total + amount) (show 0 < shares + traded by omega)
  generalize price (total + amount) (shares + traded) = p at *
  have htotal : total < p * shares + (shares + traded) := by nlinarith
  have h₁ := Nat.mul_le_mul_right other htotal.le
  have h₂ := Nat.mul_le_mul_left (shares + traded) hother
  have h₃ := Nat.mul_lt_mul_of_pos_right hbound hpos
  nlinarith

/-- Another holder loses less than twice the bound by a withdrawal. -/
theorem lt_withdraw_other (hpos : 0 < shares) (hbound : shares < bound)
    (hprice : price (total + amount) (shares + traded) ≤ bound) (hother : other ≤ shares)
    (htraded : amount < traded * price (total + amount) (shares + traded) +
      price (total + amount) (shares + traded)) :
    price (total + amount) (shares + traded) * other < price total shares * other + 2 * bound := by
  have hold := price_mul_le (total + amount) (shares + traded)
  have hnew := lt_price_mul total hpos
  generalize price (total + amount) (shares + traded) = p at *
  generalize price total shares = p' at *
  have hscaled : p * other * shares < (p' * other + 2 * bound) * shares := by
    have h₁ : p * shares ≤ p' * shares + shares + p := by nlinarith
    have h₂ := Nat.mul_le_mul_right other h₁
    have h₃ := Nat.mul_le_mul hother hprice
    have h₄ := Nat.mul_le_mul_right shares (hother.trans hbound.le)
    have h₅ := Nat.mul_lt_mul_of_pos_right hbound hpos
    nlinarith
  exact Nat.lt_of_mul_lt_mul_right hscaled

/-! ## Full withdrawals -/

/-- A holder who leaves with at most what the shares are worth does not lower
the price. -/
theorem price_le_leave (hpos : 0 < rest)
    (hamount : amount ≤ price (total + amount) (own + rest) * own) :
    price (total + amount) (own + rest) ≤ price total rest := by
  have hold := price_mul_le (total + amount) (own + rest)
  rw [le_price_iff hpos]
  generalize price (total + amount) (own + rest) = p at *
  nlinarith

/-- Another holder gains less than twice the bound. -/
theorem leave_other_lt (hpos : 0 < rest) (hbound : own + rest < bound) (hother : other ≤ rest)
    (hamount : price (total + amount) (own + rest) * own < amount + bound) :
    total * other < (price (total + amount) (own + rest) * other + 2 * bound) * rest := by
  have hlow := lt_price_mul (total + amount) (show 0 < own + rest by omega)
  generalize price (total + amount) (own + rest) = p at *
  have htotal : total < p * rest + (own + rest) + bound := by nlinarith
  have h₁ := Nat.mul_le_mul_right other htotal.le
  have h₂ := Nat.mul_le_mul_left bound hother
  have h₃ := Nat.mul_le_mul_left (own + rest) hother
  have h₄ := Nat.mul_lt_mul_of_pos_right hbound hpos
  nlinarith

end Subtensor.Lib.SharePrice
