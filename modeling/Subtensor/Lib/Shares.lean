import Subtensor.Lib.FixedPoint

/-!
# Sums of shares

When a whole is divided in proportion to some weights and every share is
rounded down, the shares sum to at most the whole, provided that the sum of
the weights by which they are divided was not clamped.
-/

namespace Subtensor.Lib

variable {α : Type}

/-- Shares that are rounded down sum to at most the whole. -/
theorem sum_div_le (m : α → ℕ) (e total : ℕ) (l : List α)
    (h : (l.map m).sum ≤ total) : (l.map fun a => e * m a / total).sum ≤ e := by
  rcases Nat.eq_zero_or_pos total with rfl | hpos
  · simp
  · have hmul : (l.map fun a => e * m a / total).sum * total ≤ e * (l.map m).sum := by
      clear h
      induction l with
      | nil => simp
      | cons a l ih =>
          simp only [List.map_cons, List.sum_cons, Nat.add_mul, Nat.mul_add]
          exact Nat.add_le_add (Nat.div_mul_le_self _ _) ih
    exact Nat.le_of_mul_le_mul_right (hmul.trans (Nat.mul_le_mul_left e h)) hpos

theorem sum_map_le_mul_length (f : α → ℕ) (bound : ℕ) (l : List α) (h : ∀ a ∈ l, f a ≤ bound) :
    (l.map f).sum ≤ bound * l.length := by
  have hsum : (l.map f).sum ≤ (l.map f).length • bound :=
    List.sum_le_card_nsmul _ _ fun x hx => by
      obtain ⟨a, ha, rfl⟩ := List.mem_map.mp hx
      exact h a ha
  rw [List.length_map, smul_eq_mul, mul_comm] at hsum
  exact hsum

/-- A sum of fixed-point numbers is clamped once, at the end. -/
theorem UFixed.bits_foldl_satAdd {i f : ℕ} (m : α → UFixed i f) (l : List α) (start : UFixed i f) :
    (l.foldl (fun total a => total.satAdd (m a)) start).bits =
      min (start.bits + (l.map fun a => (m a).bits).sum) (2 ^ (i + f) - 1) := by
  induction l generalizing start with
  | nil =>
      have := start.isLt
      simp only [List.foldl_nil, List.map_nil, List.sum_nil, Nat.add_zero]
      omega
  | cons a l ih =>
      simp only [List.foldl_cons, List.map_cons, List.sum_cons]
      rw [ih, UFixed.bits_satAdd]
      omega

/-- A share that is computed by a division and a multiplication is at most the
rounded share. -/
theorem UFixed.satMul_checkedDiv_le {i f : ℕ} (whole : ℕ) (share total : UFixed i f) :
    ((UFixed.ofNat whole : UFixed i f).satMul ((share.checkedDiv total).getD 0)).bits / 2 ^ f ≤
      whole * share.bits / total.bits := by
  have hpow : 0 < 2 ^ f := Nat.two_pow_pos f
  have hquotient : ((share.checkedDiv total).getD 0).bits ≤ share.bits * 2 ^ f / total.bits :=
    UFixed.bits_safeDiv_le share total
  have hbits : ((UFixed.ofNat whole : UFixed i f).satMul ((share.checkedDiv total).getD 0)).bits ≤
      whole * (share.bits * 2 ^ f / total.bits) := by
    refine (UFixed.bits_sat_le _).trans (Nat.div_le_of_le_mul ?_)
    calc (UFixed.ofNat whole : UFixed i f).bits * ((share.checkedDiv total).getD 0).bits
        ≤ whole * 2 ^ f * (share.bits * 2 ^ f / total.bits) :=
          Nat.mul_le_mul (UFixed.bits_sat_le _) hquotient
      _ = 2 ^ f * (whole * (share.bits * 2 ^ f / total.bits)) := by ring
  calc ((UFixed.ofNat whole : UFixed i f).satMul ((share.checkedDiv total).getD 0)).bits / 2 ^ f
      ≤ whole * (share.bits * 2 ^ f / total.bits) / 2 ^ f := Nat.div_le_div_right hbits
    _ ≤ whole * (share.bits * 2 ^ f) / total.bits / 2 ^ f :=
        Nat.div_le_div_right (Nat.mul_div_le_mul_div_assoc _ _ _)
    _ = whole * share.bits / total.bits := by
        rw [Nat.div_div_eq_div_mul, ← Nat.mul_assoc, Nat.mul_div_mul_right _ _ hpow]

end Subtensor.Lib
