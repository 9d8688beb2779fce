import Subtensor.Lib.SharePrice
import Subtensor.SharePool.Merge
import Subtensor.SharePool.Solvency
import Subtensor.SharePool.Update

/-!
# The update of a single key

As long as nothing saturates or overflows, an update of one key moves the shared
value by exactly the update that is returned, moves the key's value by it up to
one unit, and moves the values of the other keys by at most two units. A
withdrawal takes at most what the key has.
-/

namespace Subtensor.SharePool

open Lib Lib.SharePrice

/-! ## When nothing saturates -/

/-- No saturating operation of the update of one key's value saturates: the first
key deposits, the value of one share is a number of the signed format, the
denominator and the shared value have room, and a key that may be removed has a
value of the signed word. -/
structure OneUnsaturated (sharedValue denominator currentShare : U64F64) (update : I64) :
    Prop where
  first : denominator.bits = 0 → 0 ≤ update.val
  perShare : ∀ valuePerShare ∈ sharedValue.checkedDiv denominator, valuePerShare.bits < 2 ^ 127
  fallback : denominator.bits ≠ 0 → sharedValue.checkedDiv denominator = none →
    sharedValue.bits < 2 ^ 127
  denominatorFits : (denominator.bits : ℤ) +
    (getSharesPerUpdate update sharedValue denominator).bits < 2 ^ 128
  sharedValueFits : 0 ≤ update.val → (sharedValue.bits : ℤ) + update.val * 2 ^ 64 < 2 ^ 128
  valueFits : update.val < 0 →
    (valueFromShares sharedValue denominator currentShare).val < 2 ^ 63

/-- Nothing overflows either: the division by the value of one share gives a
number of the signed format, and so does its negation. -/
structure OneFits (sharedValue denominator currentShare : U64F64) (update : I64) : Prop
    extends OneUnsaturated sharedValue denominator currentShare update where
  quotient : ∀ valuePerShare ∈ sharedValue.checkedDiv denominator,
    ∃ shares ∈ (IFixed.ofInt update.val : I64F64).checkedDiv (IFixed.ofUFixed valuePerShare),
      -2 ^ 127 < shares.bits

instance (sharedValue denominator currentShare : U64F64) (update : I64) :
    Decidable (OneUnsaturated sharedValue denominator currentShare update) :=
  decidable_of_iff (_ ∧ _ ∧ _ ∧ _ ∧ _ ∧ _)
    ⟨fun ⟨h₁, h₂, h₃, h₄, h₅, h₆⟩ => ⟨h₁, h₂, h₃, h₄, h₅, h₆⟩,
      fun ⟨h₁, h₂, h₃, h₄, h₅, h₆⟩ => ⟨h₁, h₂, h₃, h₄, h₅, h₆⟩⟩

instance (sharedValue denominator currentShare : U64F64) (update : I64) :
    Decidable (OneFits sharedValue denominator currentShare update) :=
  decidable_of_iff (_ ∧ _) ⟨fun ⟨h, h'⟩ => ⟨h, h'⟩, fun ⟨h, h'⟩ => ⟨h, h'⟩⟩

/-! ## Values and prices -/

section

variable {value : U64} {denominator share : U64F64} {update : I64}

/-- The value of all shares, in the unit in which their price is rounded. -/
abbrev total (value : U64) : ℕ := value.val * 2 ^ 128

theorem checkedDiv_some {valuePerShare : U64F64}
    (h : (UFixed.ofNat value.val : U64F64).checkedDiv denominator = some valuePerShare) :
    denominator.bits ≠ 0 ∧ valuePerShare.bits = price (total value) denominator.bits := by
  rcases UFixed.checkedDiv_eq_some h with ⟨hpos, hbits⟩
  refine ⟨hpos, ?_⟩
  rw [hbits, bits_ofNat_word, Nat.mul_assoc, ← pow_add]
  rfl

/-- A value times its unit is at most the part of the total. -/
theorem value_mul_le (value : U64) (denominator share : U64F64) :
    (valueFromShares (.ofNat value.val) denominator share).val * 2 ^ 128 * denominator.bits ≤
      total value * share.bits := by
  have hle := valueFromShares_mul_le (.ofNat value.val) denominator share
  rw [bits_ofNat_word] at hle
  have hscaled := Nat.mul_le_mul_right (2 ^ 64) hle
  unfold total
  calc (valueFromShares (.ofNat value.val) denominator share).val * 2 ^ 128 * denominator.bits
      = (valueFromShares (.ofNat value.val) denominator share).val * 2 ^ 64 *
          denominator.bits * 2 ^ 64 := by ring
    _ ≤ value.val * 2 ^ 64 * share.bits * 2 ^ 64 := hscaled
    _ = value.val * 2 ^ 128 * share.bits := by ring

/-- A value is at least the shares at their rounded price. -/
theorem price_mul_div_le (value : U64) (hpos : denominator.bits ≠ 0)
    (hle : share.bits ≤ denominator.bits) :
    price (total value) denominator.bits * share.bits / 2 ^ 128 ≤
      (valueFromShares (.ofNat value.val) denominator share).val := by
  by_cases hlt : value.val * 2 ^ 128 / denominator.bits < 2 ^ 128
  · exact (val_valueFromShares_of_lt hpos hle hlt).ge
  · rw [val_valueFromShares_of_le hpos hle hlt, Nat.le_div_iff_mul_le (Nat.pos_of_ne_zero hpos)]
    have hfloor := Nat.div_mul_le_self (price (total value) denominator.bits * share.bits)
      (2 ^ 128)
    have hprice := Nat.mul_le_mul_right share.bits (price_mul_le (total value) denominator.bits)
    refine Nat.le_of_mul_le_mul_right ?_ (Nat.two_pow_pos 128)
    calc price (total value) denominator.bits * share.bits / 2 ^ 128 * denominator.bits * 2 ^ 128
        = price (total value) denominator.bits * share.bits / 2 ^ 128 * 2 ^ 128 *
            denominator.bits := by ring
      _ ≤ price (total value) denominator.bits * share.bits * denominator.bits :=
          Nat.mul_le_mul_right _ hfloor
      _ = price (total value) denominator.bits * denominator.bits * share.bits := by ring
      _ ≤ total value * share.bits := hprice
      _ = value.val * share.bits * 2 ^ 128 := by ring

/-- While the value of one share is a number of the format, a value is exactly
the shares at their rounded price. -/
theorem value_eq {valuePerShare : U64F64}
    (h : (UFixed.ofNat value.val : U64F64).checkedDiv denominator = some valuePerShare)
    (hle : share.bits ≤ denominator.bits) :
    (valueFromShares (.ofNat value.val) denominator share).val =
      price (total value) denominator.bits * share.bits / 2 ^ 128 := by
  rcases checkedDiv_some h with ⟨hpos, hbits⟩
  refine val_valueFromShares_of_lt hpos hle ?_
  have hlt := valuePerShare.isLt
  rw [hbits] at hlt
  exact hlt

theorem addUpdate_ofNat (hleast : update.val ≠ -2 ^ 63)
    (hnonneg : 0 ≤ (value.val : ℤ) + update.val) (hlt : (value.val : ℤ) + update.val < 2 ^ 64) :
    ∃ value' : U64, addUpdate (.ofNat value.val) update = .ofNat value'.val ∧
      (value'.val : ℤ) = value.val + update.val := by
  let value' : U64 := ⟨((value.val : ℤ) + update.val).toNat, by omega⟩
  have hvalue' : (value'.val : ℤ) = value.val + update.val := Int.toNat_of_nonneg hnonneg
  refine ⟨value', UFixed.ext ?_, hvalue'⟩
  have hlt' := value'.isLt
  have hltv := value.isLt
  rw [bits_ofNat_word]
  unfold addUpdate
  split_ifs with hsign
  · have hupdate : (UFixed.ofNat update.val.toNat : U64F64).bits = update.val.toNat * 2 ^ 64 :=
      UFixed.bits_ofNat_of_lt (by omega)
    rw [UFixed.bits_satAdd, bits_ofNat_word, hupdate]
    omega
  · have hneg : update.neg.val = -update.val := SWord.val_neg_of_ne hleast
    have hupdate : (UFixed.ofNat update.neg.val.toNat : U64F64).bits =
        update.neg.val.toNat * 2 ^ 64 := UFixed.bits_ofNat_of_lt (by omega)
    rw [UFixed.bits_satSub, bits_ofNat_word, hupdate]
    omega

end

/-! ## The shares of an update -/

section

variable {value : U64} {denominator share valuePerShare : U64F64} {update : I64}

theorem bits_ofInt_update (update : I64) :
    (IFixed.ofInt update.val : I64F64).bits = update.val * 2 ^ 64 := by
  have := update.lower
  have := update.upper
  exact IFixed.bits_sat_of_mem (by omega) (by omega)

theorem bits_ofUFixed_of_lt {a : U64F64} (h : a.bits < 2 ^ 127) :
    (IFixed.ofUFixed a : I64F64).bits = a.bits :=
  IFixed.bits_sat_of_mem (by omega) (by omega)

/-- The shares that an amount is worth at the rounded price. -/
def tradedShares (value : U64) (denominator : U64F64) (amount : ℕ) : ℕ :=
  amount * 2 ^ 128 / price (total value) denominator.bits

/-- The shares of an update are those at the rounded price, with its sign. -/
theorem OneFits.shares (h : OneFits (.ofNat value.val) denominator share update)
    (hsome : (UFixed.ofNat value.val : U64F64).checkedDiv denominator = some valuePerShare) :
    price (total value) denominator.bits ≠ 0 ∧ price (total value) denominator.bits < 2 ^ 127 ∧
      (getSharesPerUpdate update (.ofNat value.val) denominator).bits =
        (update.val * 2 ^ 128).tdiv (price (total value) denominator.bits) ∧
      -2 ^ 127 < (getSharesPerUpdate update (.ofNat value.val) denominator).bits := by
  have hlt := h.perShare valuePerShare hsome
  rcases h.quotient valuePerShare hsome with ⟨shares, hdiv, hneg⟩
  rcases checkedDiv_some hsome with ⟨-, hbits⟩
  have hshares : getSharesPerUpdate update (.ofNat value.val) denominator = shares := by
    unfold getSharesPerUpdate
    rw [hsome]
    dsimp only
    rw [hdiv, Option.getD_some]
  rcases IFixed.checkedDiv_eq_some hdiv with ⟨hzero, hquotient⟩
  rw [bits_ofUFixed_of_lt hlt] at hzero hquotient
  rw [bits_ofInt_update, mul_assoc, ← pow_add] at hquotient
  rw [hshares, ← hbits]
  exact ⟨by omega, hlt, hquotient, hneg⟩

theorem OneFits.shares_deposit (h : OneFits (.ofNat value.val) denominator share update)
    (hsome : (UFixed.ofNat value.val : U64F64).checkedDiv denominator = some valuePerShare)
    (hsign : 0 ≤ update.val) :
    (getSharesPerUpdate update (.ofNat value.val) denominator).bits =
      tradedShares value denominator update.val.toNat := by
  rcases h.shares hsome with ⟨-, -, hshares, -⟩
  have hcast : update.val * 2 ^ 128 = ((update.val.toNat * 2 ^ 128 : ℕ) : ℤ) := by
    push_cast
    rw [Int.toNat_of_nonneg hsign]
  rw [hshares, hcast, ← Int.ofNat_tdiv]
  rfl

theorem OneFits.shares_withdraw (h : OneFits (.ofNat value.val) denominator share update)
    (hsome : (UFixed.ofNat value.val : U64F64).checkedDiv denominator = some valuePerShare)
    (hsign : update.val < 0) :
    (getSharesPerUpdate update (.ofNat value.val) denominator).bits =
        -(tradedShares value denominator update.val.natAbs : ℤ) ∧
      0 < tradedShares value denominator update.val.natAbs ∧
      tradedShares value denominator update.val.natAbs < 2 ^ 127 := by
  rcases h.shares hsome with ⟨hzero, hlt, hshares, hneg⟩
  have hcast : update.val * 2 ^ 128 = -((update.val.natAbs * 2 ^ 128 : ℕ) : ℤ) := by
    push_cast
    rw [abs_of_neg hsign]
    ring
  have hbits : (getSharesPerUpdate update (.ofNat value.val) denominator).bits =
      -(tradedShares value denominator update.val.natAbs : ℤ) := by
    rw [hshares, hcast, Int.neg_tdiv, ← Int.ofNat_tdiv]
    rfl
  refine ⟨hbits, ?_, by omega⟩
  refine Nat.div_pos ?_ (Nat.pos_of_ne_zero hzero)
  calc price (total value) denominator.bits ≤ 1 * 2 ^ 128 := by omega
    _ ≤ update.val.natAbs * 2 ^ 128 := Nat.mul_le_mul_right _ (by omega)

/-- Rounded down, the shares are worth at most the amount, and one share more is
worth more than it. -/
theorem tradedShares_bounds (hpos : price (total value) denominator.bits ≠ 0) (amount : ℕ) :
    tradedShares value denominator amount * price (total value) denominator.bits ≤
        amount * 2 ^ 128 ∧
      amount * 2 ^ 128 < tradedShares value denominator amount *
        price (total value) denominator.bits + price (total value) denominator.bits := by
  have hlt := Nat.lt_div_mul_add (a := amount * 2 ^ 128) (Nat.pos_of_ne_zero hpos)
  exact ⟨Nat.div_mul_le_self _ _, by unfold tradedShares; omega⟩

/-! ## What an update does to the shares -/

theorem shareUpdate_deposit (h : OneFits (.ofNat value.val) denominator share update)
    (hsome : (UFixed.ofNat value.val : U64F64).checkedDiv denominator = some valuePerShare)
    (hle : share.bits ≤ denominator.bits) (hsign : 0 ≤ update.val) :
    let r := shareUpdate (.ofNat value.val) denominator share update
    r.denominator.bits =
        denominator.bits + tradedShares value denominator update.val.toNat ∧
      r.share.bits = share.bits + tradedShares value denominator update.val.toNat ∧
      r.actualUpdate = update := by
  have hshares := h.shares_deposit hsome hsign
  have hfits := h.denominatorFits
  have hnonneg : 0 ≤ (getSharesPerUpdate update (.ofNat value.val) denominator).bits := by omega
  have htraded := bits_toUFixed hnonneg
  unfold shareUpdate
  dsimp only
  rw [if_neg (checkedDiv_some hsome).1, if_pos hnonneg]
  refine ⟨?_, ?_, rfl⟩
  · rw [UFixed.bits_satAdd, htraded]
    omega
  · rw [UFixed.bits_satAdd, htraded]
    omega

theorem shareUpdate_withdraw (h : OneFits (.ofNat value.val) denominator share update)
    (hsome : (UFixed.ofNat value.val : U64F64).checkedDiv denominator = some valuePerShare)
    (hsign : update.val < 0) :
    let r := shareUpdate (.ofNat value.val) denominator share update
    (r.denominator = denominator.satSub share ∧ r.share = 0 ∧
        r.actualUpdate = (valueFromShares (.ofNat value.val) denominator share).asI64.neg) ∨
      (tradedShares value denominator update.val.natAbs < share.bits ∧
        r.denominator.bits =
          denominator.bits - tradedShares value denominator update.val.natAbs ∧
        r.share.bits = share.bits - tradedShares value denominator update.val.natAbs ∧
        r.actualUpdate = update) := by
  rcases h.shares_withdraw hsome hsign with ⟨hshares, hpos, hlt⟩
  have hneg : ¬0 ≤ (getSharesPerUpdate update (.ofNat value.val) denominator).bits := by omega
  have htraded : ((getSharesPerUpdate update (.ofNat value.val) denominator).neg.toUFixed :
      U64F64).bits = tradedShares value denominator update.val.natAbs := by
    have hnegated : (getSharesPerUpdate update (.ofNat value.val) denominator).neg.bits =
        tradedShares value denominator update.val.natAbs := by
      unfold IFixed.neg
      rw [dif_neg (by omega)]
      dsimp only
      omega
    rw [bits_toUFixed (by omega), hnegated]
    omega
  unfold shareUpdate
  dsimp only
  rw [if_neg (checkedDiv_some hsome).1, if_neg hneg]
  split_ifs with hbreaks
  · exact Or.inl ⟨rfl, rfl, rfl⟩
  · have hless := lt_of_not_breaksPrecision (eq_false_of_ne_true hbreaks)
    rw [htraded] at hless
    refine Or.inr ⟨hless, ?_, ?_, rfl⟩
    · rw [UFixed.bits_satSub, htraded]
    · rw [UFixed.bits_satSub, htraded]

/-- A quotient that overflows does so for a larger dividend and a smaller divisor. -/
theorem checkedDiv_none_mono {a a' b b' : U64F64} (h : a.checkedDiv b = none) (hpos : b.bits ≠ 0)
    (ha : a.bits ≤ a'.bits) (hb : b'.bits ≤ b.bits) : a'.checkedDiv b' = none := by
  unfold UFixed.checkedDiv at h ⊢
  rw [if_neg hpos] at h
  split_ifs at h with hlt
  rcases Nat.eq_zero_or_pos b'.bits with hzero | hpos'
  · rw [if_pos hzero]
  · have hdivisor : a.bits * 2 ^ 64 / b.bits ≤ a.bits * 2 ^ 64 / b'.bits :=
      Nat.div_le_div_left hb hpos'
    have hdividend : a.bits * 2 ^ 64 / b'.bits ≤ a'.bits * 2 ^ 64 / b'.bits :=
      Nat.div_le_div_right (Nat.mul_le_mul_right (2 ^ 64) ha)
    have hover : ¬a'.bits * 2 ^ 64 / b'.bits < 2 ^ (64 + 64) :=
      fun hfits => hlt ((hdivisor.trans hdividend).trans_lt hfits)
    rw [if_neg hpos'.ne', dif_neg hover]

/-- Where the value of one share overflows, a withdrawal is worth a negative
number of shares, however little. -/
theorem getSharesPerUpdate_fallback_neg
    (hnone : (UFixed.ofNat value.val : U64F64).checkedDiv denominator = none)
    (hlt : (UFixed.ofNat value.val : U64F64).bits < 2 ^ 127) (hpos : denominator.bits ≠ 0)
    (hsign : update.val < 0) :
    (getSharesPerUpdate update (.ofNat value.val) denominator).bits < 0 := by
  have hover : ¬value.val * 2 ^ 128 / denominator.bits < 2 ^ 128 := by
    intro hfits
    rw [checkedDiv_ofNat, if_neg hpos, dif_pos hfits] at hnone
    cases hnone
  have hpos' := Nat.pos_of_ne_zero hpos
  have hdenominator : denominator.bits ≤ value.val := by
    rw [not_lt, Nat.le_div_iff_mul_le hpos', mul_comm] at hover
    exact Nat.le_of_mul_le_mul_right hover (Nat.two_pow_pos 128)
  have hword := bits_ofNat_word value
  have hlow := update.lower
  let quotient := update.val.natAbs * 2 ^ 64 / value.val
  have hquotient : quotient ≤ update.val.natAbs * 2 ^ 64 := Nat.div_le_self _ _
  have hquotient' : 0 < quotient := Nat.div_pos (by omega) (by omega)
  have hdividend : (IFixed.ofInt update.val : I64F64).bits * 2 ^ 64 =
      -((update.val.natAbs * 2 ^ 64 * 2 ^ 64 : ℕ) : ℤ) := by
    rw [bits_ofInt_update]
    omega
  have hdiv : ((IFixed.ofInt update.val : I64F64).bits * 2 ^ 64).tdiv
      (IFixed.ofUFixed (UFixed.ofNat value.val : U64F64) : I64F64).bits = -(quotient : ℤ) := by
    rw [bits_ofUFixed_of_lt hlt, hword, hdividend, Int.neg_tdiv, ← Int.ofNat_tdiv,
      Nat.mul_div_mul_right _ _ (Nat.two_pow_pos 64)]
  have hrange : -2 ^ (64 + 64 - 1) ≤ ((IFixed.ofInt update.val : I64F64).bits * 2 ^ 64).tdiv
        (IFixed.ofUFixed (UFixed.ofNat value.val : U64F64) : I64F64).bits ∧
      ((IFixed.ofInt update.val : I64F64).bits * 2 ^ 64).tdiv
        (IFixed.ofUFixed (UFixed.ofNat value.val : U64F64) : I64F64).bits <
          2 ^ (64 + 64 - 1) := by
    rw [hdiv]
    omega
  have hzero : (IFixed.ofUFixed (UFixed.ofNat value.val : U64F64) : I64F64).bits ≠ 0 := by
    rw [bits_ofUFixed_of_lt hlt]
    omega
  have hshares : (((IFixed.ofInt update.val : I64F64).checkedDiv
      (IFixed.ofUFixed (UFixed.ofNat value.val : U64F64))).getD 0).bits = -(quotient : ℤ) := by
    unfold IFixed.checkedDiv
    rw [if_neg hzero, dif_pos hrange]
    exact hdiv
  unfold getSharesPerUpdate
  rw [hnone]
  dsimp only
  unfold IFixed.satMul
  rw [hshares, bits_ofUFixed_of_lt (by omega), IFixed.bits_sat]
  have hproduct : -(quotient : ℤ) * denominator.bits < 0 := by
    have : (0 : ℤ) < quotient * denominator.bits := by positivity
    linarith
  have hfloor : -(quotient : ℤ) * denominator.bits / 2 ^ 64 < 0 :=
    Int.ediv_neg_of_neg_of_pos hproduct (by positivity)
  exact max_lt (by norm_num) (min_lt_of_left_lt hfloor)

/-- Where the value of one share overflows, no denominator is large enough for a
withdrawal that leaves something. -/
theorem shareUpdate_fallback (h : OneFits (.ofNat value.val) denominator share update)
    (hnone : (UFixed.ofNat value.val : U64F64).checkedDiv denominator = none)
    (hpos : denominator.bits ≠ 0) (hsign : update.val < 0) :
    shareUpdate (.ofNat value.val) denominator share update =
      ⟨denominator.satSub share, 0,
        (valueFromShares (.ofNat value.val) denominator share).asI64.neg⟩ := by
  have hneg := getSharesPerUpdate_fallback_neg hnone (h.fallback hpos hnone) hpos hsign
  have hbreaks : ∀ newShare removed, breaksPrecision (.ofNat value.val) share newShare
      (denominator.satSub removed) = true := by
    intro newShare removed
    have hnone' : ((UFixed.ofNat value.val : U64F64).satAdd yearOfEmissions).checkedDiv
        (denominator.satSub removed) = none := by
      refine checkedDiv_none_mono hnone hpos ?_ ?_
      · have := (UFixed.ofNat value.val : U64F64).isLt
        rw [UFixed.bits_satAdd]
        omega
      · rw [UFixed.bits_satSub]
        omega
    unfold breaksPrecision
    rw [hnone', Option.isNone_none, Bool.or_true]
  unfold shareUpdate
  dsimp only
  rw [if_neg hpos, if_neg (by omega), if_pos (hbreaks _ _)]

/-! ## The shared value -/

theorem val_asI64_neg {v : U64} (h : v.val < 2 ^ 63) : v.asI64.neg.val = -(v.val : ℤ) := by
  have hcast := Word.val_asI64_of_lt h
  rw [SWord.val_neg_of_ne (by omega), hcast]

theorem value_le (value : U64) (hle : share.bits ≤ denominator.bits) :
    (valueFromShares (.ofNat value.val) denominator share).val ≤ value.val := by
  rcases Nat.eq_zero_or_pos denominator.bits with hzero | hpos
  · rw [val_valueFromShares_of_zero hzero]
    exact Nat.zero_le _
  · have hscaled := (value_mul_le value denominator share).trans
      (Nat.mul_le_mul_left (total value) hle)
    have hunits := Nat.le_of_mul_le_mul_right hscaled hpos
    unfold total at hunits
    omega

/-- A withdrawal takes the whole value of the key or the update, and never more
than the value. -/
theorem actualUpdate_withdraw (h : OneFits (.ofNat value.val) denominator share update)
    (hle : share.bits ≤ denominator.bits) (hsign : update.val < 0) :
    let r := shareUpdate (.ofNat value.val) denominator share update
    let before := (valueFromShares (.ofNat value.val) denominator share).val
    (r.actualUpdate = update ∨ r.actualUpdate.val = -(before : ℤ) ∧ r.share = 0) ∧
      -(before : ℤ) ≤ r.actualUpdate.val := by
  have hremoved := val_asI64_neg (h.valueFits hsign)
  have hpos : denominator.bits ≠ 0 := by
    intro hzero
    have := h.first hzero
    omega
  intro r before
  cases hdiv : (UFixed.ofNat value.val : U64F64).checkedDiv denominator with
  | none =>
      have hr : r = _ := shareUpdate_fallback h hdiv hpos hsign
      rw [hr]
      exact ⟨Or.inr ⟨hremoved, rfl⟩, hremoved.ge⟩
  | some valuePerShare =>
      rcases shareUpdate_withdraw h hdiv hsign with
        ⟨-, hshare, hactual⟩ | ⟨hless, -, -, hactual⟩
      · rw [show r.actualUpdate = _ from hactual]
        exact ⟨Or.inr ⟨hremoved, hshare⟩, hremoved.ge⟩
      · rw [show r.actualUpdate = update from hactual]
        refine ⟨Or.inl rfl, ?_⟩
        have hbefore : before = _ := value_eq hdiv hle
        have hover := (tradedShares_bounds (h.shares hdiv).1 update.val.natAbs).2
        have hworth := Nat.mul_le_mul_right (price (total value) denominator.bits)
          (Nat.succ_le_of_lt hless)
        have hamount : update.val.natAbs ≤ before := by
          rw [hbefore, Nat.le_div_iff_mul_le (Nat.two_pow_pos 128)]
          rw [Nat.succ_mul] at hworth
          rw [Nat.mul_comm (price _ _)]
          omega
        omega

/-- The shared value moves by the actual update. -/
theorem addUpdate_actualUpdate (h : OneFits (.ofNat value.val) denominator share update)
    (hle : share.bits ≤ denominator.bits) :
    ∃ value' : U64,
      addUpdate (.ofNat value.val)
          (shareUpdate (.ofNat value.val) denominator share update).actualUpdate =
        .ofNat value'.val ∧
      (value'.val : ℤ) = value.val +
        (shareUpdate (.ofNat value.val) denominator share update).actualUpdate.val := by
  have hvalue := value.isLt
  rcases lt_or_ge update.val 0 with hsign | hsign
  · rcases actualUpdate_withdraw h hle hsign with ⟨-, hbefore⟩
    have hless := h.valueFits hsign
    have hall := value_le value hle
    have hneg : (shareUpdate (.ofNat value.val) denominator share update).actualUpdate.val ≤ 0 := by
      rcases actualUpdate_cases (.ofNat value.val) denominator share update with heq | ⟨-, heq⟩
      · rw [heq]
        exact hsign.le
      · rw [heq, val_asI64_neg hless]
        omega
    exact addUpdate_ofNat (by omega) (by omega) (by omega)
  · rw [actualUpdate_of_nonneg hsign]
    have hfits := h.sharedValueFits hsign
    rw [bits_ofNat_word] at hfits
    exact addUpdate_ofNat (by omega) (by omega) (by omega)

/-! ## Values after an update -/

/-- A value is brought down to the total and the shares it is computed from. -/
theorem value_lt_of_mul_lt {n : ℕ} (h : total value * share.bits < n * denominator.bits) :
    (valueFromShares (.ofNat value.val) denominator share).val * 2 ^ 128 < n :=
  Nat.lt_of_mul_lt_mul_right ((value_mul_le value denominator share).trans_lt h)

theorem lt_value_add (value : U64) (hpos : denominator.bits ≠ 0)
    (hle : share.bits ≤ denominator.bits) :
    price (total value) denominator.bits * share.bits <
      (valueFromShares (.ofNat value.val) denominator share).val * 2 ^ 128 + 2 ^ 128 :=
  lt_of_div_le (Nat.two_pow_pos 128) (price_mul_div_le value hpos hle)

theorem value_mul_le_price
    (h : (UFixed.ofNat value.val : U64F64).checkedDiv denominator = some valuePerShare)
    (hle : share.bits ≤ denominator.bits) :
    (valueFromShares (.ofNat value.val) denominator share).val * 2 ^ 128 ≤
      price (total value) denominator.bits * share.bits := by
  rw [value_eq h hle]
  exact Nat.div_mul_le_self (price (total value) denominator.bits * share.bits) (2 ^ 128)

variable {value' : U64} {other : U64F64}

/-- **A deposit** is worth the update to its key, up to one unit. -/
theorem deposit_value (h : OneFits (.ofNat value.val) denominator share update)
    (hsome : (UFixed.ofNat value.val : U64F64).checkedDiv denominator = some valuePerShare)
    (hle : share.bits ≤ denominator.bits) (hsign : 0 ≤ update.val)
    (hvalue' : (value'.val : ℤ) = value.val + update.val) :
    let r := shareUpdate (.ofNat value.val) denominator share update
    |((valueFromShares (.ofNat value'.val) r.denominator r.share).val : ℤ) -
      ((valueFromShares (.ofNat value.val) denominator share).val + update.val)| ≤ 1 := by
  intro r
  have hspec : r.denominator.bits =
        denominator.bits + tradedShares value denominator update.val.toNat ∧
      r.share.bits = share.bits + tradedShares value denominator update.val.toNat ∧
      r.actualUpdate = update := shareUpdate_deposit h hsome hle hsign
  rcases hspec with ⟨hdenominator, hshare, -⟩
  rcases checkedDiv_some hsome with ⟨hpos, -⟩
  rcases h.shares hsome with ⟨hzero, hlt, -, -⟩
  rcases tradedShares_bounds hzero update.val.toNat with ⟨hworth, hworth'⟩
  rcases Nat.exists_eq_add_of_le hle with ⟨rest, hrest⟩
  have hroom := denominator.isLt
  have hroom' := r.denominator.isLt
  have hpos' : r.denominator.bits ≠ 0 := by omega
  have hle' : r.share.bits ≤ r.denominator.bits := by omega
  have htotal : total value' = total value + update.val.toNat * 2 ^ 128 := by
    unfold total
    omega
  have hbefore := lt_value_add value hpos hle
  have hbefore' := value_mul_le_price hsome hle
  have hafter : (valueFromShares (.ofNat value'.val) r.denominator r.share).val * 2 ^ 128 <
      price (total value) denominator.bits * share.bits + update.val.toNat * 2 ^ 128 +
        2 ^ 128 := by
    refine value_lt_of_mul_lt ?_
    rw [htotal, hdenominator, hshare, hrest]
    rw [hrest] at hworth
    exact deposit_own_lt (by omega) (by omega) hworth
  have hafter' : price (total value) denominator.bits * share.bits + update.val.toNat * 2 ^ 128 <
      price (total value') r.denominator.bits * r.share.bits + 2 ^ 128 := by
    rw [htotal, hdenominator, hshare, hrest]
    rw [hrest] at hworth' hlt
    exact lt_deposit_own (by omega) (by omega) (by omega) hworth'
  have hfloor := lt_value_add value' hpos' hle'
  rw [abs_le]
  omega

/-- **A withdrawal** takes the actual update from its key, up to one unit. -/
theorem withdraw_value (h : OneFits (.ofNat value.val) denominator share update)
    (hle : share.bits ≤ denominator.bits) (hsign : update.val < 0)
    (hvalue' : (value'.val : ℤ) = value.val +
      (shareUpdate (.ofNat value.val) denominator share update).actualUpdate.val) :
    let r := shareUpdate (.ofNat value.val) denominator share update
    |((valueFromShares (.ofNat value'.val) r.denominator r.share).val : ℤ) -
      ((valueFromShares (.ofNat value.val) denominator share).val + r.actualUpdate.val)| ≤ 1 := by
  intro r
  have hremoved : r.actualUpdate.val =
        -((valueFromShares (.ofNat value.val) denominator share).val : ℤ) → r.share = 0 →
      |((valueFromShares (.ofNat value'.val) r.denominator r.share).val : ℤ) -
        ((valueFromShares (.ofNat value.val) denominator share).val + r.actualUpdate.val)| ≤ 1 := by
    intro hactual hshare
    rw [hactual, hshare, valueFromShares_zero, Nat.cast_zero, add_neg_cancel]
    decide
  cases hdiv : (UFixed.ofNat value.val : U64F64).checkedDiv denominator with
  | none =>
      have hpos : denominator.bits ≠ 0 := by
        intro hzero
        have := h.first hzero
        omega
      have hr : r = _ := shareUpdate_fallback h hdiv hpos hsign
      refine hremoved ?_ ?_
      · rw [hr]
        exact val_asI64_neg (h.valueFits hsign)
      · rw [hr]
  | some valuePerShare =>
      rcases checkedDiv_some hdiv with ⟨hpos, -⟩
      rcases shareUpdate_withdraw h hdiv hsign with
        ⟨-, hshare, hactual⟩ | ⟨hless, hdenominator, hshare, hactual⟩
      · refine hremoved ?_ hshare
        rw [show r.actualUpdate = _ from hactual]
        exact val_asI64_neg (h.valueFits hsign)
      · have hdenominator' : r.denominator.bits = _ := hdenominator
        have hshare' : r.share.bits = _ := hshare
        rw [hactual] at hvalue'
        rw [show r.actualUpdate = update from hactual]
        rcases h.shares hdiv with ⟨hzero, hlt, -, -⟩
        rcases tradedShares_bounds hzero update.val.natAbs with ⟨hworth, hworth'⟩
        generalize tradedShares value denominator update.val.natAbs = traded at *
        rcases Nat.exists_eq_add_of_le hle with ⟨rest, hrest⟩
        have hroom := denominator.isLt
        have hsplit : denominator.bits = r.share.bits + traded + rest := by omega
        have hleft : r.denominator.bits = r.share.bits + rest := by omega
        have hpos' : r.denominator.bits ≠ 0 := by omega
        have hle' : r.share.bits ≤ r.denominator.bits := by omega
        have hown : share.bits = r.share.bits + traded := by omega
        have htotal : total value = total value' + update.val.natAbs * 2 ^ 128 := by
          unfold total
          omega
        have hbefore := lt_value_add value hpos hle
        have hbefore' := value_mul_le_price hdiv hle
        have hafter : (valueFromShares (.ofNat value'.val) r.denominator r.share).val * 2 ^ 128 +
            update.val.natAbs * 2 ^ 128 <
              price (total value) denominator.bits * share.bits + 2 ^ 128 := by
          have hvalue := value_mul_le value' r.denominator r.share
          have hmoved : total value' * r.share.bits +
              update.val.natAbs * 2 ^ 128 * (r.share.bits + rest) <
              (price (total value) denominator.bits * share.bits + 2 ^ 128) *
                (r.share.bits + rest) := by
            rw [htotal, hsplit, hown]
            rw [htotal, hsplit] at hworth' hlt
            exact withdraw_own_lt (by omega) (by omega) (by omega) hworth'
          refine Nat.lt_of_mul_lt_mul_right (lt_of_le_of_lt ?_ hmoved)
          rw [Nat.add_mul, ← hleft]
          exact Nat.add_le_add_right hvalue _
        have hafter' : price (total value) denominator.bits * share.bits <
            price (total value') r.denominator.bits * r.share.bits +
              update.val.natAbs * 2 ^ 128 + 2 ^ 128 := by
          rw [htotal, hsplit, hown, hleft]
          rw [htotal, hsplit] at hworth
          exact lt_withdraw_own (by omega) r.share.isLt hworth
        have hfloor := lt_value_add value' hpos' hle'
        rw [abs_le]
        omega

/-- The value of another key after a deposit: it is not less. -/
theorem deposit_other (h : OneFits (.ofNat value.val) denominator share update)
    (hsome : (UFixed.ofNat value.val : U64F64).checkedDiv denominator = some valuePerShare)
    (hle : share.bits ≤ denominator.bits) (hother : other.bits ≤ denominator.bits)
    (hsign : 0 ≤ update.val) (hvalue' : (value'.val : ℤ) = value.val + update.val) :
    let r := shareUpdate (.ofNat value.val) denominator share update
    (valueFromShares (.ofNat value.val) denominator other).val ≤
        (valueFromShares (.ofNat value'.val) r.denominator other).val ∧
      (valueFromShares (.ofNat value'.val) r.denominator other).val ≤
        (valueFromShares (.ofNat value.val) denominator other).val + 2 := by
  intro r
  have hspec : r.denominator.bits =
        denominator.bits + tradedShares value denominator update.val.toNat ∧
      r.share.bits = share.bits + tradedShares value denominator update.val.toNat ∧
      r.actualUpdate = update := shareUpdate_deposit h hsome hle hsign
  rcases hspec with ⟨hdenominator, -, -⟩
  rcases checkedDiv_some hsome with ⟨hpos, -⟩
  rcases h.shares hsome with ⟨hzero, hlt, -, -⟩
  rcases tradedShares_bounds hzero update.val.toNat with ⟨hworth, hworth'⟩
  have hroom := denominator.isLt
  have htotal : total value' = total value + update.val.toNat * 2 ^ 128 := by
    unfold total
    omega
  have hbefore := lt_value_add value hpos hother
  have hbefore' := value_mul_le_price hsome hother
  have hleft₀ : r.denominator.bits ≠ 0 := by omega
  have hother₀ : other.bits ≤ r.denominator.bits := by omega
  have hfloor := lt_value_add value' hleft₀ hother₀
  have hprice : price (total value) denominator.bits * other.bits ≤
      price (total value') r.denominator.bits * other.bits := by
    rw [htotal, hdenominator]
    exact Nat.mul_le_mul_right _ (price_le_deposit (by omega) hworth)
  have hafter : (valueFromShares (.ofNat value'.val) r.denominator other).val * 2 ^ 128 <
      price (total value) denominator.bits * other.bits + 2 * 2 ^ 128 := by
    refine value_lt_of_mul_lt ?_
    rw [htotal, hdenominator]
    exact deposit_other_lt (by omega) hroom (by omega) hother hworth'
  omega

theorem withdraw_other (h : OneFits (.ofNat value.val) denominator share update)
    (hsome : (UFixed.ofNat value.val : U64F64).checkedDiv denominator = some valuePerShare)
    (hother : other.bits + share.bits ≤ denominator.bits) (hsign : update.val < 0)
    (hvalue' : (value'.val : ℤ) = value.val +
      (shareUpdate (.ofNat value.val) denominator share update).actualUpdate.val) :
    let r := shareUpdate (.ofNat value.val) denominator share update
    (valueFromShares (.ofNat value.val) denominator other).val ≤
        (valueFromShares (.ofNat value'.val) r.denominator other).val + 2 ∧
      (valueFromShares (.ofNat value'.val) r.denominator other).val ≤
        (valueFromShares (.ofNat value.val) denominator other).val + 2 := by
  intro r
  rcases checkedDiv_some hsome with ⟨hpos, -⟩
  have hle : share.bits ≤ denominator.bits := by omega
  have hle' : other.bits ≤ denominator.bits := by omega
  have hroom := denominator.isLt
  have hbefore := lt_value_add value hpos hle'
  have hbefore' := value_mul_le_price hsome hle'
  rcases shareUpdate_withdraw h hsome hsign with
    ⟨hdenominator, -, hactual⟩ | ⟨hless, hdenominator, -, hactual⟩
  · -- the whole share goes, for its value rounded down
    have hdenominator' : r.denominator.bits = denominator.bits - share.bits := by
      rw [show r.denominator = _ from hdenominator, UFixed.bits_satSub]
    rw [hactual, val_asI64_neg (h.valueFits hsign)] at hvalue'
    rcases Nat.exists_eq_add_of_le hle with ⟨rest, hrest⟩
    rcases Nat.eq_zero_or_pos rest with hzero | hpos'
    · have hnone : other = 0 := UFixed.ext (by rw [UFixed.bits_zero]; omega)
      rw [hnone, valueFromShares_zero, valueFromShares_zero]
      omega
    have hown := lt_value_add value hpos hle
    have hown' := value_mul_le_price hsome hle
    generalize (valueFromShares (.ofNat value.val) denominator share).val = amount at *
    have hleft : r.denominator.bits = rest := by omega
    have htotal : total value = total value' + amount * 2 ^ 128 := by
      unfold total
      omega
    have hleft₀ : r.denominator.bits ≠ 0 := by omega
    have hother₀ : other.bits ≤ r.denominator.bits := by omega
    have hfloor := lt_value_add value' hleft₀ hother₀
    have hprice : price (total value) denominator.bits * other.bits ≤
        price (total value') r.denominator.bits * other.bits := by
      rw [htotal, hrest] at hown' ⊢
      rw [hleft]
      exact Nat.mul_le_mul_right _ (price_le_leave hpos' hown')
    have hafter : (valueFromShares (.ofNat value'.val) r.denominator other).val * 2 ^ 128 <
        price (total value) denominator.bits * other.bits + 2 * 2 ^ 128 := by
      refine value_lt_of_mul_lt ?_
      rw [htotal, hrest] at hown ⊢
      rw [hleft]
      exact leave_other_lt hpos' (by omega) (by omega) hown
    omega
  · rcases h.shares hsome with ⟨hzero, hlt, -, -⟩
    rcases tradedShares_bounds hzero update.val.natAbs with ⟨hworth, hworth'⟩
    have hdenominator' : r.denominator.bits = _ := hdenominator
    rw [hactual] at hvalue'
    generalize tradedShares value denominator update.val.natAbs = traded at *
    have hsplit : denominator.bits = r.denominator.bits + traded := by omega
    have htotal : total value = total value' + update.val.natAbs * 2 ^ 128 := by
      unfold total
      omega
    have hleft₀ : r.denominator.bits ≠ 0 := by omega
    have hother₀ : other.bits ≤ r.denominator.bits := by omega
    have hfloor := lt_value_add value' hleft₀ hother₀
    have hafter : (valueFromShares (.ofNat value'.val) r.denominator other).val * 2 ^ 128 <
        price (total value) denominator.bits * other.bits + 2 ^ 128 := by
      refine value_lt_of_mul_lt ?_
      rw [htotal, hsplit] at hworth ⊢
      exact withdraw_other_lt (by omega) (by omega) (by omega) hworth
    have hafter' : price (total value) denominator.bits * other.bits <
        price (total value') r.denominator.bits * other.bits + 2 * 2 ^ 128 := by
      rw [htotal, hsplit] at hworth' hlt ⊢
      exact lt_withdraw_other (by omega) (by omega) (by omega) (by omega) hworth'
    omega

end

end Subtensor.SharePool
