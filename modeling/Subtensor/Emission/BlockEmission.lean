import Subtensor.Lib.FixedPoint

/-!
# Block emission

How much is issued in a block when some issuance has been reached
(`get_block_emission_for_issuance`). The logarithm of the fixed-point library
is a parameter: what is used of it is that it is monotone and exact on powers
of two. Near the total supply the argument of the logarithm is coarse; the
emission still never passes what is left.
-/

namespace Subtensor

open Lib

/-- `TotalSupply`. -/
def totalSupply : U64 := .sat 21000000000000000

/-- The argument of the logarithm: `1 / (1 - issuance / (2 * 10.5 M TAO))`. -/
def residualArgument (issuance : U64) : Option I96F32 :=
  ((IFixed.ofInt issuance.val : I96F32).checkedDiv
      ((IFixed.ofInt 2).satMul (IFixed.ofInt 10500000000000000))).bind fun part =>
    ((IFixed.ofInt 1 : I96F32).checkedSub part).bind fun left =>
      (IFixed.ofInt 1).checkedDiv left

/-- Two, multiplied by itself. -/
def emissionMultiplier (n : ℕ) : I96F32 :=
  (fun multiplier : I96F32 => multiplier.satMul (.ofInt 2))^[n] (.ofInt 1)

/-- One TAO, halved as often as the residual says. -/
def emissionForResidual (residual : I96F32) : U64 :=
  (((IFixed.ofInt 1 : I96F32).safeDiv (emissionMultiplier (residual.toWord 64).val)).satMul
    (.ofInt 1000000000)).toWord 64

/-- `get_block_emission_for_issuance`; nothing is issued beyond the total
supply. -/
def blockEmissionForIssuance (log2 : I96F32 → Option I96F32) (issuance : U64) : Option U64 :=
  if totalSupply.val ≤ issuance.val then some 0
  else ((residualArgument issuance).bind log2).map emissionForResidual

/-! ## The logarithm -/

/-- What the logarithm is known to do. -/
structure Log2Spec (log2 : I96F32 → Option I96F32) : Prop where
  defined : ∀ x : I96F32, 0 < x.bits → ∃ a, log2 x = some a
  mono : ∀ {x y a b : I96F32}, 0 < x.bits → x.bits ≤ y.bits → log2 x = some a →
    log2 y = some b → a.bits ≤ b.bits
  two_pow : ∀ (j : ℕ) (x : I96F32), x.bits = 2 ^ (32 + j) →
    ∃ a, log2 x = some a ∧ a.bits = j * 2 ^ 32

/-- How often the emission is halved, when the argument is between one and
`2 ^ 32`. -/
theorem Log2Spec.floor_bounds {log2 : I96F32 → Option I96F32} (hlog : Log2Spec log2) {x a : I96F32}
    {m : ℕ} (hx : x.bits = m) (hone : 2 ^ 32 ≤ m) (hle : m ≤ 2 ^ 64) (h : log2 x = some a) :
    0 ≤ a.bits ∧ a.bits ≤ 32 * 2 ^ 32 ∧
      ∀ j : ℕ, 2 ^ (32 + j) ≤ m → (j : ℤ) * 2 ^ 32 ≤ a.bits := by
  have hpos : 0 < x.bits := by
    rw [hx]
    exact_mod_cast lt_of_lt_of_le (by norm_num) hone
  have hlower : ∀ j : ℕ, 2 ^ (32 + j) ≤ m → (j : ℤ) * 2 ^ 32 ≤ a.bits := by
    intro j hj
    have hbound : (2 : ℤ) ^ (32 + j) ≤ x.bits := by
      rw [hx]
      exact_mod_cast hj
    have hpow : (0 : ℤ) < 2 ^ (32 + j) := by positivity
    have hupper := x.upper
    let y : I96F32 := ⟨2 ^ (32 + j), by linarith [x.lower], lt_of_le_of_lt hbound hupper⟩
    obtain ⟨b, hb, hbits⟩ := hlog.two_pow j y rfl
    rw [← hbits]
    exact hlog.mono hpow hbound hb h
  refine ⟨?_, ?_, hlower⟩
  · have hzero := hlower 0 hone
    simpa using hzero
  · let y : I96F32 := ⟨2 ^ (32 + 32), by norm_num, by norm_num⟩
    obtain ⟨b, hb, hbits⟩ := hlog.two_pow 32 y rfl
    have hxy : x.bits ≤ 2 ^ (32 + 32) := by
      rw [hx]
      exact_mod_cast hle
    have hab := hlog.mono hpos hxy h hb
    rw [hbits] at hab
    exact_mod_cast hab

/-! ## The argument -/

/-- What is left of the supply, in units of `2 ^ -32` of it, rounded up. -/
def leftUnits (issuance : ℕ) : ℕ := 2 ^ 32 - issuance * 2 ^ 32 / 21000000000000000

theorem leftUnits_bounds {issuance : ℕ} (h : issuance < 21000000000000000) :
    1 ≤ leftUnits issuance ∧ leftUnits issuance ≤ 2 ^ 32 ∧
      (leftUnits issuance - 1) * 21000000000000000 <
        (21000000000000000 - issuance) * 2 ^ 32 := by
  have hdiv : issuance * 2 ^ 32 / 21000000000000000 < 2 ^ 32 :=
    Nat.div_lt_of_lt_mul (by omega)
  have hlt : issuance * 2 ^ 32 <
      (issuance * 2 ^ 32 / 21000000000000000 + 1) * 21000000000000000 :=
    Nat.lt_mul_of_div_lt (Nat.lt_succ_self _) (by norm_num)
  unfold leftUnits
  generalize issuance * 2 ^ 32 / 21000000000000000 = q at *
  omega

theorem two_pow_le_div_leftUnits {issuance : ℕ} (h : issuance < 21000000000000000) :
    2 ^ 32 ≤ 2 ^ 64 / leftUnits issuance := by
  obtain ⟨hpos, hle, -⟩ := leftUnits_bounds h
  rw [Nat.le_div_iff_mul_le (by omega)]
  calc 2 ^ 32 * leftUnits issuance ≤ 2 ^ 32 * 2 ^ 32 := Nat.mul_le_mul_left _ hle
    _ = 2 ^ 64 := by norm_num

theorem bits_ofInt_nat {n : ℕ} (h : n < 2 ^ 95) :
    (IFixed.ofInt n : I96F32).bits = (n * 2 ^ 32 : ℕ) := by
  have hn : (n : ℤ) < 2 ^ 95 := by exact_mod_cast h
  have h0 : (0 : ℤ) ≤ n := Int.natCast_nonneg n
  rw [IFixed.ofInt, IFixed.bits_sat_of_mem (by norm_num; omega) (by norm_num; omega)]
  norm_num

theorem residualArgument_eq {issuance : U64} (h : issuance.val < 21000000000000000) :
    ∃ x, residualArgument issuance = some x ∧
      x.bits = (2 ^ 64 / leftUnits issuance.val : ℕ) := by
  obtain ⟨hpos, hle, -⟩ := leftUnits_bounds h
  have hsupply : ((IFixed.ofInt 2 : I96F32).satMul (IFixed.ofInt 10500000000000000)).bits =
      (21000000000000000 * 2 ^ 32 : ℕ) := by decide +kernel
  have hone : (IFixed.ofInt 1 : I96F32).bits = (2 ^ 32 : ℕ) := by decide +kernel
  have hcancel : issuance.val * 2 ^ 32 * 2 ^ 32 / (21000000000000000 * 2 ^ 32) =
      issuance.val * 2 ^ 32 / 21000000000000000 :=
    Nat.mul_div_mul_right _ _ (by norm_num)
  have hpart : issuance.val * 2 ^ 32 / 21000000000000000 < 2 ^ 32 :=
    Nat.div_lt_of_lt_mul (by omega)
  have hissuance := bits_ofInt_nat (lt_trans h (by norm_num))
  obtain ⟨part, hdiv, hbits⟩ := IFixed.checkedDiv_of_nat hissuance hsupply
    (by norm_num) (by rw [hcancel]; exact lt_trans hpart (by norm_num))
  rw [hcancel] at hbits
  have hleft : (IFixed.ofInt 1 : I96F32).bits - part.bits = leftUnits issuance.val := by
    rw [hone, hbits, leftUnits, Nat.cast_sub hpart.le]
  have hsub : ∃ left : I96F32, (IFixed.ofInt 1 : I96F32).checkedSub part = some left ∧
      left.bits = leftUnits issuance.val := by
    have hrange : -2 ^ (96 + 32 - 1) ≤ (IFixed.ofInt 1 : I96F32).bits - part.bits ∧
        (IFixed.ofInt 1 : I96F32).bits - part.bits < 2 ^ (96 + 32 - 1) := by
      rw [hleft]
      omega
    refine ⟨⟨_, hrange.1, hrange.2⟩, ?_, hleft⟩
    rw [IFixed.checkedSub, dif_pos hrange]
  obtain ⟨left, hsub, hleftBits⟩ := hsub
  obtain ⟨x, hx, hxbits⟩ := IFixed.checkedDiv_of_nat hone hleftBits (by omega)
    (lt_of_le_of_lt (Nat.div_le_self _ _) (by norm_num))
  refine ⟨x, ?_, ?_⟩
  · rw [residualArgument, hdiv, Option.bind_some, hsub, Option.bind_some, hx]
  · rw [hxbits]
    norm_num

/-! ## The emission -/

theorem emissionMultiplier_bits {n : ℕ} (h : n ≤ 64) :
    (emissionMultiplier n).bits = 2 ^ (32 + n) := by
  induction n with
  | zero => decide +kernel
  | succ n ih =>
      have ih := ih (by omega)
      have htwo : (IFixed.ofInt 2 : I96F32).bits = 2 ^ 33 := by decide +kernel
      have hstep : emissionMultiplier (n + 1) = (emissionMultiplier n).satMul (.ofInt 2) :=
        Function.iterate_succ_apply' _ _ _
      have hprod : (2 : ℤ) ^ (32 + n) * 2 ^ 33 / 2 ^ 32 = 2 ^ (32 + (n + 1)) := by
        rw [show (2 : ℤ) ^ (32 + n) * 2 ^ 33 = 2 ^ (32 + (n + 1)) * 2 ^ 32 by ring]
        exact Int.mul_ediv_cancel _ (by norm_num)
      have hbound : (2 : ℤ) ^ (32 + (n + 1)) ≤ 2 ^ 96 :=
        pow_le_pow_right₀ (by norm_num) (by omega)
      have hpos : (0 : ℤ) < 2 ^ (32 + (n + 1)) := by positivity
      rw [hstep, IFixed.satMul, ih, htwo, hprod, IFixed.bits_sat_of_mem]
      · norm_num
        omega
      · norm_num
        omega

theorem emissionForResidual_val {residual : I96F32} {n : ℕ}
    (hn : (residual.toWord 64).val = n) (h : n ≤ 32) :
    (emissionForResidual residual).val = 1000000000 / 2 ^ n := by
  have hone : (IFixed.ofInt 1 : I96F32).bits = (2 ^ 32 : ℕ) := by decide +kernel
  have htao : (IFixed.ofInt 1000000000 : I96F32).bits = 1000000000 * 2 ^ 32 := by decide +kernel
  have hmultiplier : (emissionMultiplier n).bits = (2 ^ (32 + n) : ℕ) := by
    exact_mod_cast emissionMultiplier_bits (h.trans (by norm_num))
  have hsplit : 2 ^ 32 = 2 ^ n * 2 ^ (32 - n) := by
    rw [← pow_add, Nat.add_sub_cancel' h]
  have hquot : 2 ^ 32 * 2 ^ 32 / 2 ^ (32 + n) = 2 ^ (32 - n) := by
    rw [pow_add, Nat.mul_div_mul_left _ _ (by positivity), hsplit]
    exact Nat.mul_div_cancel_left _ (by positivity)
  have hle : 2 ^ (32 - n) ≤ 2 ^ 32 := Nat.pow_le_pow_right (by norm_num) (Nat.sub_le _ _)
  obtain ⟨share, hshare, hbits⟩ := IFixed.checkedDiv_of_nat hone hmultiplier (by positivity)
    (by rw [hquot]; omega)
  -- the quotient and the product are exact
  have hprod : share.bits * (IFixed.ofInt 1000000000 : I96F32).bits / 2 ^ 32 =
      ((2 ^ (32 - n) * 1000000000 : ℕ) : ℤ) := by
    rw [hbits, hquot, htao, ← mul_assoc, Int.mul_ediv_cancel _ (by norm_num)]
    norm_cast
  have hword : 2 ^ (32 - n) * 1000000000 / 2 ^ 32 = 1000000000 / 2 ^ n := by
    rw [hsplit, mul_comm (2 ^ (32 - n)), Nat.mul_div_mul_right _ _ (by positivity)]
  have hrange : ((2 ^ (32 - n) * 1000000000 : ℕ) : ℤ) < 2 ^ (96 + 32 - 1) := by
    exact_mod_cast (Nat.mul_le_mul_right 1000000000 hle).trans_lt (by norm_num)
  have hproduct : (share.satMul (.ofInt 1000000000)).bits =
      ((2 ^ (32 - n) * 1000000000 : ℕ) : ℤ) := by
    rw [IFixed.satMul, hprod]
    exact IFixed.bits_sat_of_mem (le_trans (by norm_num) (Int.natCast_nonneg _)) hrange
  have hfits : 1000000000 / 2 ^ n < 2 ^ 64 := (Nat.div_le_self _ _).trans_lt (by norm_num)
  unfold emissionForResidual
  rw [hn, IFixed.safeDiv, hshare, Option.getD_some, IFixed.toWord, hproduct, ← hword]
  -- the integer part of a number that is not negative
  have hcast : ∀ m : ℕ, ((m : ℤ) / 2 ^ 32).toNat = m / 2 ^ 32 := by
    intro m
    omega
  rw [hcast, Word.val_sat_of_lt (by rw [hword]; exact hfits)]

theorem totalSupply_val : totalSupply.val = 21000000000000000 := by decide +kernel

/-- Below the total supply the emission is one TAO, halved at most `32` times;
the halvings follow the logarithm of what is left. -/
theorem blockEmission_eq {log2 : I96F32 → Option I96F32} (hlog : Log2Spec log2) {issuance : U64}
    (h : issuance.val < totalSupply.val) :
    ∃ x a, residualArgument issuance = some x ∧ log2 x = some a ∧
      blockEmissionForIssuance log2 issuance = some (emissionForResidual a) ∧
      0 < x.bits ∧ (emissionForResidual a).val = 1000000000 / 2 ^ (a.bits / 2 ^ 32).toNat ∧
      ∀ j : ℕ, 2 ^ (32 + j) ≤ 2 ^ 64 / leftUnits issuance.val → j ≤ (a.bits / 2 ^ 32).toNat := by
  have hlt := h
  rw [totalSupply_val] at h
  obtain ⟨x, hx, hbits⟩ := residualArgument_eq h
  have hone := two_pow_le_div_leftUnits h
  have hxpos : 0 < x.bits := by
    rw [hbits]
    exact_mod_cast lt_of_lt_of_le (by norm_num) hone
  obtain ⟨a, ha⟩ := hlog.defined x hxpos
  obtain ⟨hnonneg, hupper, hlower⟩ :=
    hlog.floor_bounds hbits hone (Nat.div_le_self _ _) ha
  have hfloor : (a.bits / 2 ^ 32).toNat ≤ 32 := by omega
  have hword : (a.toWord 64).val = (a.bits / 2 ^ 32).toNat :=
    Word.val_sat_of_lt (lt_of_le_of_lt hfloor (by norm_num))
  refine ⟨x, a, hx, ha, ?_, hxpos, emissionForResidual_val hword hfloor, ?_⟩
  · rw [blockEmissionForIssuance, if_neg (not_le.mpr hlt), hx, Option.bind_some, ha,
      Option.map_some]
  · intro j hj
    have hj := hlower j hj
    omega

/-- The emission is at most a millionth of what is left. -/
theorem blockEmission_add_le {log2 : I96F32 → Option I96F32} (hlog : Log2Spec log2)
    {issuance : U64} (h : issuance.val < totalSupply.val) :
    ∃ e, blockEmissionForIssuance log2 issuance = some e ∧
      issuance.val + 1000000 * e.val ≤ totalSupply.val := by
  obtain ⟨x, a, -, -, heq, -, hval, hlower⟩ := blockEmission_eq hlog h
  refine ⟨_, heq, ?_⟩
  rw [totalSupply_val] at h ⊢
  obtain ⟨hpos, hle, hleft⟩ := leftUnits_bounds h
  -- the halvings reach the binary logarithm of the argument
  obtain ⟨j, hj⟩ : ∃ j, 2 ^ (32 + j) ≤ 2 ^ 64 / leftUnits issuance.val ∧
      2 ^ 64 / leftUnits issuance.val < 2 ^ (33 + j) := by
    have hone := two_pow_le_div_leftUnits h
    have hne : 2 ^ 64 / leftUnits issuance.val ≠ 0 := by omega
    have h32 : 32 ≤ Nat.log 2 (2 ^ 64 / leftUnits issuance.val) :=
      Nat.le_log_of_pow_le (by norm_num) hone
    refine ⟨Nat.log 2 (2 ^ 64 / leftUnits issuance.val) - 32, ?_, ?_⟩
    · rw [Nat.add_sub_cancel' h32]
      exact Nat.pow_log_le_self 2 hne
    · rw [show 33 + (Nat.log 2 (2 ^ 64 / leftUnits issuance.val) - 32) =
        Nat.log 2 (2 ^ 64 / leftUnits issuance.val) + 1 by omega]
      exact Nat.lt_pow_succ_log_self (by norm_num) _
  have hhalvings := hlower j hj.1
  have he : (emissionForResidual a).val ≤ 1000000000 / 2 ^ j := by
    rw [hval]
    exact Nat.div_le_div_left (Nat.pow_le_pow_right (by norm_num) hhalvings) (by positivity)
  have hunits : 2 ^ 31 < 2 ^ j * leftUnits issuance.val := by
    have hmul : 2 ^ 64 < 2 ^ (33 + j) * leftUnits issuance.val :=
      (Nat.div_lt_iff_lt_mul (by omega)).mp hj.2
    rw [pow_add, mul_assoc, show (2 : ℕ) ^ 64 = 2 ^ 33 * 2 ^ 31 by norm_num] at hmul
    exact Nat.lt_of_mul_lt_mul_left hmul
  have hemission : (emissionForResidual a).val * 2 ^ 31 ≤ 1000000000 * leftUnits issuance.val := by
    calc (emissionForResidual a).val * 2 ^ 31
        ≤ (emissionForResidual a).val * (2 ^ j * leftUnits issuance.val) :=
          Nat.mul_le_mul_left _ hunits.le
      _ = (emissionForResidual a).val * 2 ^ j * leftUnits issuance.val := (mul_assoc _ _ _).symm
      _ ≤ 1000000000 * leftUnits issuance.val :=
          Nat.mul_le_mul_right _ ((Nat.le_div_iff_mul_le (by positivity)).mp he)
  omega

/-- The emission does not rise with the issuance. -/
theorem blockEmission_antitone {log2 : I96F32 → Option I96F32} (hlog : Log2Spec log2)
    {issuance issuance' : U64} (hle : issuance.val ≤ issuance'.val)
    (h : issuance'.val < totalSupply.val) {e e' : U64}
    (he : blockEmissionForIssuance log2 issuance = some e)
    (he' : blockEmissionForIssuance log2 issuance' = some e') : e'.val ≤ e.val := by
  obtain ⟨x, a, hx, ha, heq, hpos, hval, -⟩ := blockEmission_eq hlog (lt_of_le_of_lt hle h)
  obtain ⟨x', a', hx', ha', heq', -, hval', -⟩ := blockEmission_eq hlog h
  have harg : x.bits ≤ x'.bits := by
    rw [totalSupply_val] at h
    obtain ⟨y, hy, hybits⟩ := residualArgument_eq (lt_of_le_of_lt hle h)
    obtain ⟨y', hy', hybits'⟩ := residualArgument_eq h
    rw [hx] at hy
    rw [hx'] at hy'
    cases hy
    cases hy'
    rw [hybits, hybits']
    have hunits : leftUnits issuance'.val ≤ leftUnits issuance.val :=
      Nat.sub_le_sub_left (Nat.div_le_div_right (Nat.mul_le_mul_right _ hle)) _
    have hpos' := (leftUnits_bounds h).1
    exact_mod_cast Nat.div_le_div_left hunits (by omega)
  have hlogs := hlog.mono hpos harg ha ha'
  rw [he] at heq
  rw [he'] at heq'
  cases heq
  cases heq'
  rw [hval, hval']
  apply Nat.div_le_div_left
  · exact Nat.pow_le_pow_right (by norm_num)
      (Int.toNat_le_toNat (Int.ediv_le_ediv (by norm_num) hlogs))
  · positivity

end Subtensor
