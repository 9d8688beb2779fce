import Subtensor.Weights.SetWeights

/-!
# The upscaling of weights

Weights are stored so that the largest is the largest word of 16 bits. Every
weight is multiplied by 65535 and divided by the maximum, or, for maxima over
32768, multiplied by the quotient. In both orders nothing leaves the range of
the fixed-point numbers, and the words that come out keep their order and do not
change when they are upscaled again.
-/

namespace Subtensor

open Lib

/-! ## Operations that fit -/

/-- The product is in range. -/
def MulFits (a b : I32F32) : Prop := (a.satMul b).bits = a.bits * b.bits / 2 ^ 32

/-- The quotient is in range, and the divisor is not zero. -/
def DivFits (a b : I32F32) : Prop := ∃ q, a.checkedDiv b = some q

/-- Nothing is lost above the point when a number is rounded. -/
def RoundFits (a : I32F32) : Prop := a.round.bits = (a.bits + 2 ^ 31) / 2 ^ 32 * 2 ^ 32

/-- The integer part is a word of 16 bits. -/
def WordFits (a : I32F32) : Prop := ((a.toWord 16).val : ℤ) = a.bits / 2 ^ 32

/-- What becomes of one number when the maximum is `val`. -/
def upscaled (val e : I32F32) : U16 :=
  let u16Max : I32F32 := .ofInt 65535
  let threshold : I32F32 := .ofInt 32768
  if val.bits = 0 then (e.satMul u16Max).toWord 16
  else if threshold.bits < val.bits then (e.satMul (u16Max.safeDiv val)).round.toWord 16
  else ((e.satMul u16Max).safeDiv val).round.toWord 16

/-- No operation of the upscaling saturates, wraps or divides by zero. -/
def Unsaturated (val e : I32F32) : Prop :=
  let u16Max : I32F32 := .ofInt 65535
  let threshold : I32F32 := .ofInt 32768
  if val.bits = 0 then MulFits e u16Max ∧ WordFits (e.satMul u16Max)
  else if threshold.bits < val.bits then
    DivFits u16Max val ∧ MulFits e (u16Max.safeDiv val) ∧
      RoundFits (e.satMul (u16Max.safeDiv val)) ∧
      WordFits (e.satMul (u16Max.safeDiv val)).round
  else
    MulFits e u16Max ∧ DivFits (e.satMul u16Max) val ∧
      RoundFits ((e.satMul u16Max).safeDiv val) ∧
      WordFits ((e.satMul u16Max).safeDiv val).round

theorem vecMaxUpscaleToU16_eq {vec : List I32F32} {val : I32F32} (h : largest vec = some val) :
    vecMaxUpscaleToU16 vec = vec.map (upscaled val) := by
  unfold vecMaxUpscaleToU16
  simp only [h]
  split
  · rename_i hzero
    apply List.map_congr_left
    intro e _
    rw [upscaled, if_pos hzero]
  · rename_i hzero
    split
    · rename_i hlarge
      apply List.map_congr_left
      intro e _
      rw [upscaled, if_neg hzero, if_pos hlarge]
    · rename_i hlarge
      apply List.map_congr_left
      intro e _
      rw [upscaled, if_neg hzero, if_neg hlarge]

section

variable {a b : I32F32} {m n : ℕ}

theorem mulFits_of_nat (ha : a.bits = m) (hb : b.bits = n) (h : m * n / 2 ^ 32 < 2 ^ 63) :
    MulFits a b ∧ (a.satMul b).bits = (m * n / 2 ^ 32 : ℕ) := by
  have hproduct : a.bits * b.bits / 2 ^ 32 = (m * n / 2 ^ 32 : ℕ) := by
    rw [ha, hb]
    push_cast
    rfl
  have hmul : MulFits a b := by
    unfold MulFits IFixed.satMul
    rw [hproduct]
    exact IFixed.bits_sat_of_mem (by omega) (by omega)
  exact ⟨hmul, hmul.trans hproduct⟩

theorem divFits_of_nat (ha : a.bits = m) (hb : b.bits = n) (hn : n ≠ 0)
    (h : m * 2 ^ 32 / n < 2 ^ 63) :
    DivFits a b ∧ (a.safeDiv b).bits = (m * 2 ^ 32 / n : ℕ) := by
  obtain ⟨q, hq, hbits⟩ := IFixed.checkedDiv_of_nat ha hb hn h
  refine ⟨⟨q, hq⟩, ?_⟩
  rw [IFixed.safeDiv, hq, Option.getD_some, hbits]

theorem roundFits_of_nat (ha : a.bits = n) (h : n < 2 ^ 62) :
    RoundFits a ∧ a.round.bits = ((n + 2 ^ 31) / 2 ^ 32 * 2 ^ 32 : ℕ) := by
  have hrounded : (a.bits + 2 ^ 31) / 2 ^ 32 * 2 ^ 32 =
      ((n + 2 ^ 31) / 2 ^ 32 * 2 ^ 32 : ℕ) := by
    rw [ha]
    push_cast
    rfl
  have hround : RoundFits a := by
    unfold RoundFits IFixed.round
    rw [if_pos (ha ▸ Int.natCast_nonneg n)]
    show (IFixed.wrap ((a.bits + 2 ^ 31) / 2 ^ 32 * 2 ^ 32) : I32F32).bits = _
    rw [hrounded]
    generalize hk : (n + 2 ^ 31) / 2 ^ 32 * 2 ^ 32 = k
    have hle : k ≤ n + 2 ^ 31 := hk ▸ Nat.div_mul_le_self _ _
    show ((k : ℤ) + 2 ^ 63) % (2 * 2 ^ 63) - 2 ^ 63 = k
    omega
  exact ⟨hround, hround.trans hrounded⟩

theorem wordFits_of_nat (ha : a.bits = n) (h : n / 2 ^ 32 < 2 ^ 16) :
    WordFits a ∧ (a.toWord 16).val = n / 2 ^ 32 := by
  have hquotient : a.bits / 2 ^ 32 = (n / 2 ^ 32 : ℕ) := by
    rw [ha]
    push_cast
    rfl
  have hword : (a.toWord 16).val = n / 2 ^ 32 := by
    show (Word.sat (a.bits / 2 ^ 32).toNat : U16).val = _
    rw [hquotient, Int.toNat_natCast]
    exact Word.val_sat_of_lt h
  exact ⟨by rw [WordFits, hword, hquotient], hword⟩

end

/-! ## Words -/

/-- `saturating_from_num`. -/
def fixedOf (weight : U16) : I32F32 := .ofInt weight.val

theorem bits_fixedOf (weight : U16) : (fixedOf weight).bits = (weight.val * 2 ^ 32 : ℕ) := by
  have hlt : weight.val < 2 ^ 16 := weight.isLt
  unfold fixedOf IFixed.ofInt
  rw [IFixed.bits_sat_of_mem (by omega) (by omega)]
  push_cast
  rfl

/-- What becomes of the word `e` when the maximum is `m`. -/
def scaled (m e : ℕ) : ℕ :=
  if 32768 < m then (e * (65535 * 2 ^ 32 / m) + 2 ^ 31) / 2 ^ 32
  else (e * (65535 * 2 ^ 32) / m + 2 ^ 31) / 2 ^ 32

theorem scaled_zero (m : ℕ) : scaled m 0 = 0 := by
  unfold scaled
  simp

theorem scaled_mono (m : ℕ) : Monotone (scaled m) := by
  intro e e' hle
  unfold scaled
  split
  · gcongr
  · gcongr

/-- The maximum becomes the largest word: what the truncated quotient loses is
made up for by the rounding. -/
theorem scaled_self {m : ℕ} (hpos : 0 < m) (hle : m ≤ 65535) : scaled m m = 65535 := by
  unfold scaled
  split
  · have hdiv := Nat.div_add_mod (65535 * 2 ^ 32) m
    have hmod := Nat.mod_lt (65535 * 2 ^ 32) hpos
    omega
  · rw [Nat.mul_div_cancel_left _ hpos]
    norm_num

theorem scaled_le {m e : ℕ} (hm : m ≤ 65535) (he : e ≤ m) : scaled m e ≤ 65535 := by
  rcases Nat.eq_zero_or_pos m with rfl | hpos
  · rw [Nat.le_zero.mp he, scaled_zero]
    exact Nat.zero_le _
  · exact (scaled_mono m he).trans (scaled_self hpos hm).le

theorem scaled_largest (e : ℕ) : scaled 65535 e = e := by
  unfold scaled
  rw [if_pos (by norm_num), Nat.mul_div_cancel_left _ (by norm_num)]
  omega

theorem bits_u16Max : (IFixed.ofInt 65535 : I32F32).bits = (65535 * 2 ^ 32 : ℕ) := by
  decide +kernel

theorem bits_threshold : (IFixed.ofInt 32768 : I32F32).bits = (32768 * 2 ^ 32 : ℕ) := by
  decide +kernel

theorem mul_units (a b : ℕ) : a * 2 ^ 32 * (b * 2 ^ 32) / 2 ^ 32 = a * (b * 2 ^ 32) := by
  rw [Nat.mul_right_comm]
  exact Nat.mul_div_cancel _ (Nat.two_pow_pos 32)

section

variable {m e : U16}

/-- The product comes first, and does not leave the range while the maximum is
at most the threshold. -/
theorem mulFirst (he : e.val ≤ 32768) :
    MulFits (fixedOf e) (.ofInt 65535) ∧
      ((fixedOf e).satMul (.ofInt 65535)).bits = (e.val * (65535 * 2 ^ 32) : ℕ) := by
  have hfits := mulFits_of_nat (bits_fixedOf e) bits_u16Max (by rw [mul_units]; omega)
  rwa [mul_units] at hfits

/-- The quotient comes first, and is below two over the threshold. -/
theorem divFirst (hlarge : 32768 < m.val) :
    DivFits (.ofInt 65535) (fixedOf m) ∧
      ((IFixed.ofInt 65535 : I32F32).safeDiv (fixedOf m)).bits =
        (65535 * 2 ^ 32 / m.val : ℕ) ∧ 65535 * 2 ^ 32 / m.val < 2 ^ 33 := by
  have hquotient : 65535 * 2 ^ 32 * 2 ^ 32 / (m.val * 2 ^ 32) = 65535 * 2 ^ 32 / m.val :=
    Nat.mul_div_mul_right _ _ (Nat.two_pow_pos 32)
  have hlt : 65535 * 2 ^ 32 / m.val < 2 ^ 33 := by
    rw [Nat.div_lt_iff_lt_mul (by omega)]
    omega
  have hfits := divFits_of_nat bits_u16Max (bits_fixedOf m) (by omega)
    (by rw [hquotient]; omega)
  rw [hquotient] at hfits
  exact ⟨hfits.1, hfits.2, hlt⟩

theorem roundWord {a : I32F32} {n : ℕ} (ha : a.bits = n)
    (hscaled : (n + 2 ^ 31) / 2 ^ 32 ≤ 65535) :
    (a.round.toWord 16).val = (n + 2 ^ 31) / 2 ^ 32 ∧ RoundFits a ∧ WordFits a.round := by
  have hcancel : (n + 2 ^ 31) / 2 ^ 32 * 2 ^ 32 / 2 ^ 32 = (n + 2 ^ 31) / 2 ^ 32 :=
    Nat.mul_div_cancel _ (Nat.two_pow_pos 32)
  obtain ⟨hround, hroundBits⟩ := roundFits_of_nat ha (by omega)
  obtain ⟨hword, hwordVal⟩ := wordFits_of_nat hroundBits (by rw [hcancel]; omega)
  rw [hcancel] at hwordVal
  exact ⟨hwordVal, hround, hword⟩

/-- One word is upscaled without saturation, in both orders of the operations. -/
theorem upscaled_fixedOf (hle : e.val ≤ m.val) :
    (upscaled (fixedOf m) (fixedOf e)).val = scaled m.val e.val ∧
      Unsaturated (fixedOf m) (fixedOf e) := by
  have hscaled : scaled m.val e.val ≤ 65535 := by
    have hlt : m.val < 2 ^ 16 := m.isLt
    exact scaled_le (by omega) hle
  have hbits := bits_fixedOf m
  unfold upscaled Unsaturated
  by_cases hzero : m.val = 0
  · have hval : (fixedOf m).bits = 0 := by rw [hbits, hzero, Nat.zero_mul, Nat.cast_zero]
    have he : e.val = 0 := Nat.le_zero.mp (hle.trans hzero.le)
    obtain ⟨hmul, hmulBits⟩ := mulFirst (e := e) (by omega)
    obtain ⟨hword, hwordVal⟩ := wordFits_of_nat hmulBits (by omega)
    simp only [if_pos hval]
    refine ⟨?_, hmul, hword⟩
    rw [hwordVal, he, scaled_zero, Nat.zero_mul, Nat.zero_div]
  · have hval : (fixedOf m).bits ≠ 0 := by
      rw [hbits]
      omega
    by_cases hlarge : 32768 < m.val
    · have hcond : (IFixed.ofInt 32768 : I32F32).bits < (fixedOf m).bits := by
        rw [bits_threshold, hbits]
        omega
      rw [scaled, if_pos hlarge] at hscaled ⊢
      obtain ⟨hdiv, hdivBits, hlt⟩ := divFirst hlarge
      have hproduct : e.val * 2 ^ 32 * (65535 * 2 ^ 32 / m.val) / 2 ^ 32 =
          e.val * (65535 * 2 ^ 32 / m.val) := by
        rw [Nat.mul_right_comm]
        exact Nat.mul_div_cancel _ (Nat.two_pow_pos 32)
      obtain ⟨hmul, hmulBits⟩ := mulFits_of_nat (bits_fixedOf e) hdivBits (by
        rw [hproduct]
        omega)
      rw [hproduct] at hmulBits
      obtain ⟨hword, hround, hfits⟩ := roundWord hmulBits hscaled
      simp only [if_neg hval, if_pos hcond]
      exact ⟨hword, hdiv, hmul, hround, hfits⟩
    · have hcond : ¬(IFixed.ofInt 32768 : I32F32).bits < (fixedOf m).bits := by
        rw [bits_threshold, hbits]
        omega
      rw [scaled, if_neg hlarge] at hscaled ⊢
      obtain ⟨hmul, hmulBits⟩ := mulFirst (e := e) (by omega)
      have hquotient : e.val * (65535 * 2 ^ 32) * 2 ^ 32 / (m.val * 2 ^ 32) =
          e.val * (65535 * 2 ^ 32) / m.val :=
        Nat.mul_div_mul_right _ _ (Nat.two_pow_pos 32)
      obtain ⟨hdiv, hdivBits⟩ := divFits_of_nat hmulBits hbits (by omega) (by
        rw [hquotient]
        omega)
      rw [hquotient] at hdivBits
      obtain ⟨hword, hround, hfits⟩ := roundWord hdivBits hscaled
      simp only [if_neg hval, if_neg hcond]
      exact ⟨hword, hmul, hdiv, hround, hfits⟩

theorem upscaled_eq (hle : e.val ≤ m.val) :
    upscaled (fixedOf m) (fixedOf e) = .sat (scaled m.val e.val) := by
  have hscaled := (upscaled_fixedOf hle).1
  have hlt : scaled m.val e.val < 2 ^ 16 := hscaled ▸ (upscaled (fixedOf m) (fixedOf e)).isLt
  exact Word.ext (hscaled.trans (Word.val_sat_of_lt hlt).symm)

end

/-! ## Vectors -/

/-- The largest of the words, `0` if there are none. -/
def maxWeight (weights : List U16) : ℕ := (weights.map Word.val).foldr max 0

theorem le_maxWeight {weights : List U16} {e : U16} (h : e ∈ weights) :
    e.val ≤ maxWeight weights := by
  induction weights with
  | nil => cases h
  | cons a rest ih =>
      rcases List.mem_cons.mp h with rfl | hrest
      · exact le_max_left _ _
      · exact (ih hrest).trans (le_max_right _ _)

theorem maxWeight_mem {weights : List U16} (h : maxWeight weights ≠ 0) :
    ∃ e ∈ weights, e.val = maxWeight weights := by
  induction weights with
  | nil => exact absurd rfl h
  | cons a rest ih =>
      have hmax : maxWeight (a :: rest) = max a.val (maxWeight rest) := rfl
      rcases max_choice a.val (maxWeight rest) with heq | heq
      · exact ⟨a, List.mem_cons_self, (hmax.trans heq).symm⟩
      · rw [hmax, heq] at h ⊢
        obtain ⟨e, he, hval⟩ := ih h
        exact ⟨e, List.mem_cons_of_mem _ he, hval⟩

theorem foldl_largest (a : U16) (rest : List U16) :
    ∃ m : U16, (rest.map fixedOf).foldl (fun m e => if m.bits ≤ e.bits then e else m)
        (fixedOf a) = fixedOf m ∧ m.val = max a.val (maxWeight rest) := by
  induction rest generalizing a with
  | nil => exact ⟨a, rfl, (Nat.max_zero _).symm⟩
  | cons b rest ih =>
      have hmax : maxWeight (b :: rest) = max b.val (maxWeight rest) := rfl
      have hbits : (fixedOf a).bits ≤ (fixedOf b).bits ↔ a.val ≤ b.val := by
        rw [bits_fixedOf, bits_fixedOf]
        omega
      rw [List.map_cons, List.foldl_cons, hmax, ← max_assoc]
      by_cases hle : a.val ≤ b.val
      · rw [if_pos (hbits.mpr hle), max_eq_right hle]
        exact ih b
      · rw [if_neg (mt hbits.mp hle), max_eq_left (not_le.mp hle).le]
        exact ih a

/-- The maximum of the fixed-point numbers is that of the words. -/
theorem largest_fixedOf {weights : List U16} {val : I32F32}
    (h : largest (weights.map fixedOf) = some val) :
    ∃ m : U16, val = fixedOf m ∧ m.val = maxWeight weights := by
  cases weights with
  | nil => cases h
  | cons a rest =>
      obtain ⟨m, hm, hval⟩ := foldl_largest a rest
      cases h
      exact ⟨m, hm, hval⟩

theorem vecU16MaxUpscaleToU16_eq (weights : List U16) :
    vecU16MaxUpscaleToU16 weights =
      weights.map fun e => .sat (scaled (maxWeight weights) e.val) := by
  show vecMaxUpscaleToU16 (weights.map fixedOf) = _
  cases h : largest (weights.map fixedOf) with
  | none =>
      cases weights with
      | nil => rfl
      | cons a rest => cases h
  | some val =>
      obtain ⟨m, rfl, hm⟩ := largest_fixedOf h
      rw [vecMaxUpscaleToU16_eq h, List.map_map]
      apply List.map_congr_left
      intro e he
      rw [Function.comp_apply, ← hm]
      exact upscaled_eq (hm ▸ le_maxWeight he)

theorem maxWeight_le (weights : List U16) : maxWeight weights ≤ 65535 := by
  by_cases h : maxWeight weights = 0
  · rw [h]
    exact Nat.zero_le _
  · obtain ⟨e, -, he⟩ := maxWeight_mem h
    have hlt : e.val < 2 ^ 16 := e.isLt
    omega

/-- A vector whose maximum is zero or the largest word is upscaled already. -/
theorem vecU16MaxUpscaleToU16_fixed {weights : List U16}
    (h : maxWeight weights = 0 ∨ maxWeight weights = 65535) :
    vecU16MaxUpscaleToU16 weights = weights := by
  have hsame : ∀ e ∈ weights, (.sat (scaled (maxWeight weights) e.val) : U16) = e := by
    intro e he
    have hlt : e.val < 2 ^ 16 := e.isLt
    apply Word.ext
    rcases h with h | h
    · have hzero : e.val = 0 := Nat.le_zero.mp (h ▸ le_maxWeight he)
      rw [hzero, scaled_zero]
      rfl
    · rw [h, scaled_largest]
      exact Word.val_sat_of_lt hlt
  rw [vecU16MaxUpscaleToU16_eq, List.map_congr_left hsame, List.map_id']

theorem maxWeight_vecU16MaxUpscaleToU16 {weights : List U16} (h : maxWeight weights ≠ 0) :
    maxWeight (vecU16MaxUpscaleToU16 weights) = 65535 := by
  obtain ⟨e, he, hval⟩ := maxWeight_mem h
  have hself := scaled_self (Nat.pos_of_ne_zero h) (maxWeight_le weights)
  have hmem : (.sat (scaled (maxWeight weights) e.val) : U16) ∈
      vecU16MaxUpscaleToU16 weights := by
    rw [vecU16MaxUpscaleToU16_eq]
    exact List.mem_map_of_mem he
  rw [hval, hself] at hmem
  exact le_antisymm (maxWeight_le _) (le_maxWeight hmem)

/-- **Upscaling keeps the order and is idempotent.** For every vector of
weights: the length stays, the maximum becomes 65535 unless all weights are
zero, a weight is taken to a word by a monotone function that takes zero to
zero, upscaling again changes nothing, and none of the operations saturates,
whatever their order. -/
theorem vecU16MaxUpscaleToU16_upscales (weights : List U16) :
    (vecU16MaxUpscaleToU16 weights).length = weights.length ∧
      ((∃ e ∈ weights, e ≠ 0) →
        (∃ e ∈ vecU16MaxUpscaleToU16 weights, e.val = 65535) ∧
          ∀ e ∈ vecU16MaxUpscaleToU16 weights, e.val ≤ 65535) ∧
      (∃ image : U16 → U16, vecU16MaxUpscaleToU16 weights = weights.map image ∧ image 0 = 0 ∧
        ∀ a b, a.val ≤ b.val → (image a).val ≤ (image b).val) ∧
      vecU16MaxUpscaleToU16 (vecU16MaxUpscaleToU16 weights) = vecU16MaxUpscaleToU16 weights ∧
      ∀ val, largest (weights.map fixedOf) = some val →
        ∀ e ∈ weights, Unsaturated val (fixedOf e) := by
  have heq := vecU16MaxUpscaleToU16_eq weights
  refine ⟨by rw [heq, List.length_map], ?_, ⟨_, heq, ?_, ?_⟩, ?_, ?_⟩
  · rintro ⟨a, ha, hne⟩
    have hzero : maxWeight weights ≠ 0 := by
      intro hzero
      exact hne (Word.val_eq_zero_iff.mp (Nat.le_zero.mp (hzero ▸ le_maxWeight ha)))
    have hmax := maxWeight_vecU16MaxUpscaleToU16 hzero
    constructor
    · obtain ⟨e, he, hval⟩ := maxWeight_mem (hmax ▸ (by norm_num : (65535 : ℕ) ≠ 0))
      exact ⟨e, he, hval.trans hmax⟩
    · intro e he
      exact hmax ▸ le_maxWeight he
  · rw [Word.val_zero, scaled_zero]
    rfl
  · intro a b hle
    rw [Word.val_sat, Word.val_sat]
    exact min_le_min_right _ (scaled_mono _ hle)
  · by_cases hzero : maxWeight weights = 0
    · rw [vecU16MaxUpscaleToU16_fixed (.inl hzero), vecU16MaxUpscaleToU16_fixed (.inl hzero)]
    · exact vecU16MaxUpscaleToU16_fixed (.inr (maxWeight_vecU16MaxUpscaleToU16 hzero))
  · intro val hval e he
    obtain ⟨m, rfl, hm⟩ := largest_fixedOf hval
    exact (upscaled_fixedOf (hm ▸ le_maxWeight he)).2

end Subtensor
