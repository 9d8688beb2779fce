import Subtensor.Consensus.Epoch

/-!
# The mass of scores

The sum of a vector of scores as it would be in unbounded arithmetic. While the
scores are not negative and their mass fits, the unchecked sum of an epoch is the
mass, and a vector that is divided by its sum has at most one unit of mass.
-/

namespace Subtensor

open Lib

variable {i f : ℕ}

/-- The sum of the numbers, in units of the last bit. -/
def mass (xs : List (IFixed i f)) : ℤ := (xs.map (·.bits)).sum

def Nonneg (xs : List (IFixed i f)) : Prop := ∀ x ∈ xs, 0 ≤ x.bits

@[simp] theorem mass_nil : mass ([] : List (IFixed i f)) = 0 := rfl

@[simp] theorem mass_cons (x : IFixed i f) (xs : List (IFixed i f)) :
    mass (x :: xs) = x.bits + mass xs := List.sum_cons

variable {xs ys : List (IFixed i f)} {x : IFixed i f}

theorem nonneg_cons : Nonneg (x :: xs) ↔ 0 ≤ x.bits ∧ Nonneg xs := List.forall_mem_cons

theorem Nonneg.mass_nonneg (h : Nonneg xs) : 0 ≤ mass xs := by
  refine List.sum_nonneg fun z hz => ?_
  rcases List.mem_map.mp hz with ⟨x, hx, rfl⟩
  exact h x hx

theorem Nonneg.le_mass (h : Nonneg xs) (hx : x ∈ xs) : x.bits ≤ mass xs := by
  refine List.single_le_sum (fun z hz => ?_) _ (List.mem_map_of_mem hx)
  rcases List.mem_map.mp hz with ⟨x, hx, rfl⟩
  exact h x hx

theorem Nonneg.sublist (h : Nonneg ys) (hsub : xs.Sublist ys) : Nonneg xs :=
  fun x hx => h x (hsub.subset hx)

theorem Nonneg.mass_sublist (h : Nonneg ys) (hsub : xs.Sublist ys) : mass xs ≤ mass ys := by
  induction hsub with
  | slnil => exact le_refl _
  | cons y _ ih =>
      rcases nonneg_cons.mp h with ⟨hy, hrest⟩
      rw [mass_cons]
      exact (ih hrest).trans (by omega)
  | cons_cons y _ ih =>
      rcases nonneg_cons.mp h with ⟨-, hrest⟩
      rw [mass_cons, mass_cons]
      exact Int.add_le_add_left (ih hrest) _

theorem mass_le_length (n : ℤ) (h : ∀ x ∈ xs, x.bits ≤ n) : mass xs ≤ xs.length * n := by
  have hsum := List.sum_le_card_nsmul (xs.map (·.bits)) n (by simpa using h)
  rw [List.length_map, nsmul_eq_mul] at hsum
  exact hsum

/-- A map that scales every number down scales the mass down. -/
theorem mass_map_mul_le {j g : ℕ} {scale : IFixed i f → IFixed j g} {c d : ℤ}
    (h : ∀ x ∈ xs, (scale x).bits * c ≤ x.bits * d) : mass (xs.map scale) * c ≤ mass xs * d := by
  induction xs with
  | nil => simp
  | cons x xs ih =>
      rcases List.forall_mem_cons.mp h with ⟨hx, hrest⟩
      rw [List.map_cons, mass_cons, mass_cons, add_mul, add_mul]
      exact add_le_add hx (ih hrest)

theorem mass_eq_zero (h : ∀ x ∈ xs, x.bits = 0) : mass xs = 0 := by
  refine List.sum_eq_zero fun z hz => ?_
  rcases List.mem_map.mp hz with ⟨x, hx, rfl⟩
  exact h x hx

/-! ## Arithmetic on numbers that are not negative -/

section

variable {a b : IFixed i f}

theorem bits_satAdd_nonneg (ha : 0 ≤ a.bits) (hb : 0 ≤ b.bits) : 0 ≤ (a.satAdd b).bits := by
  have hpow : (0 : ℤ) < 2 ^ (i + f - 1) := by positivity
  unfold IFixed.satAdd
  rw [IFixed.bits_sat]
  omega

theorem bits_satAdd_le (ha : 0 ≤ a.bits) (hb : 0 ≤ b.bits) :
    (a.satAdd b).bits ≤ a.bits + b.bits := by
  have hpow : (0 : ℤ) < 2 ^ (i + f - 1) := by positivity
  unfold IFixed.satAdd
  rw [IFixed.bits_sat]
  omega

/-- A sum is at least each of its parts, even where it saturates. -/
theorem le_bits_satAdd (ha : 0 ≤ a.bits) (hb : 0 ≤ b.bits) :
    a.bits ≤ (a.satAdd b).bits ∧ b.bits ≤ (a.satAdd b).bits := by
  have hupper := a.upper
  have hupper' := b.upper
  unfold IFixed.satAdd
  rw [IFixed.bits_sat]
  omega

theorem bits_satAdd_of_lt (ha : 0 ≤ a.bits) (hb : 0 ≤ b.bits)
    (h : a.bits + b.bits < 2 ^ (i + f - 1)) : (a.satAdd b).bits = a.bits + b.bits := by
  have hpow : (0 : ℤ) < 2 ^ (i + f - 1) := by positivity
  exact IFixed.bits_sat_of_mem (by omega) h

theorem satMul_comm (a b : IFixed i f) : a.satMul b = b.satMul a := by
  unfold IFixed.satMul
  rw [mul_comm]

theorem bits_satProduct_nonneg (ha : 0 ≤ a.bits) (hb : 0 ≤ b.bits) : 0 ≤ (a.satMul b).bits := by
  have hpow : (0 : ℤ) < 2 ^ (i + f - 1) := by positivity
  have hproduct : 0 ≤ a.bits * b.bits / 2 ^ f :=
    Int.ediv_nonneg (mul_nonneg ha hb) (by positivity)
  unfold IFixed.satMul
  rw [IFixed.bits_sat]
  omega

theorem bits_satProduct_mul_le (ha : 0 ≤ a.bits) (hb : 0 ≤ b.bits) :
    (a.satMul b).bits * 2 ^ f ≤ a.bits * b.bits := by
  have hpow : (0 : ℤ) < 2 ^ (i + f - 1) := by positivity
  have hproduct : 0 ≤ a.bits * b.bits / 2 ^ f :=
    Int.ediv_nonneg (mul_nonneg ha hb) (by positivity)
  have hle : (a.satMul b).bits ≤ a.bits * b.bits / 2 ^ f := by
    unfold IFixed.satMul
    rw [IFixed.bits_sat]
    omega
  calc (a.satMul b).bits * 2 ^ f ≤ a.bits * b.bits / 2 ^ f * 2 ^ f :=
        mul_le_mul_of_nonneg_right hle (by positivity)
    _ ≤ a.bits * b.bits := Int.ediv_mul_le _ (by positivity)

/-- A product with a number of at most one is at most the other factor. -/
theorem bits_satProduct_le (ha : 0 ≤ a.bits) (hb : 0 ≤ b.bits) (hle : b.bits ≤ 2 ^ f) :
    (a.satMul b).bits ≤ a.bits := by
  have hpow : (0 : ℤ) < 2 ^ f := by positivity
  have hproduct := bits_satProduct_mul_le ha hb
  exact le_of_mul_le_mul_right (hproduct.trans (mul_le_mul_of_nonneg_left hle ha)) hpow

theorem bits_safeDiv_nonneg (ha : 0 ≤ a.bits) (hb : 0 ≤ b.bits) : 0 ≤ (a.safeDiv b).bits := by
  unfold IFixed.safeDiv IFixed.checkedDiv
  split_ifs
  · exact le_refl 0
  · exact Int.tdiv_nonneg (mul_nonneg ha (by positivity)) hb
  · exact le_refl 0

theorem bits_safeDiv_mul_le (ha : 0 ≤ a.bits) (b : IFixed i f) :
    (a.safeDiv b).bits * b.bits ≤ a.bits * 2 ^ f := by
  have hdividend : 0 ≤ a.bits * 2 ^ f := mul_nonneg ha (by positivity)
  have hnone : (0 : ℤ) * b.bits ≤ a.bits * 2 ^ f := by rwa [zero_mul]
  unfold IFixed.safeDiv IFixed.checkedDiv
  split_ifs with hzero
  · exact hnone
  · show (a.bits * 2 ^ f).tdiv b.bits * b.bits ≤ _
    rw [Int.tdiv_eq_ediv_of_nonneg hdividend]
    exact Int.ediv_mul_le _ hzero
  · exact hnone

theorem bits_safeDiv_le_one (ha : 0 ≤ a.bits) (hle : a.bits ≤ b.bits) :
    (a.safeDiv b).bits ≤ 2 ^ f := by
  have hpow : (0 : ℤ) < 2 ^ f := by positivity
  rcases lt_or_eq_of_le (ha.trans hle) with hpos | hzero
  · have hquotient := bits_safeDiv_mul_le ha b
    have hwhole := mul_le_mul_of_nonneg_right hle hpow.le
    rw [mul_comm b.bits] at hwhole
    exact le_of_mul_le_mul_right (hquotient.trans hwhole) hpos
  · unfold IFixed.safeDiv IFixed.checkedDiv
    rw [if_pos hzero.symm]
    exact hpow.le

end

/-! ## Unchecked sums -/

theorem bits_wrap_of_mem {z : ℤ} (h₁ : -2 ^ (i + f - 1) ≤ z) (h₂ : z < 2 ^ (i + f - 1)) :
    (IFixed.wrap z : IFixed i f).bits = z := by
  show (z + 2 ^ (i + f - 1)) % (2 * 2 ^ (i + f - 1)) - 2 ^ (i + f - 1) = z
  rw [Int.emod_eq_of_lt (by omega) (by omega)]
  omega

theorem Nonneg.bits_wrap_mass (h : Nonneg xs) (hfits : mass xs < 2 ^ (i + f - 1)) :
    (IFixed.wrap (xs.map (·.bits)).sum : IFixed i f).bits = mass xs := by
  have hnonneg := h.mass_nonneg
  have hpow : (0 : ℤ) < 2 ^ (i + f - 1) := by positivity
  have hlower : -2 ^ (i + f - 1) ≤ mass xs := by omega
  exact bits_wrap_of_mem hlower hfits

theorem Nonneg.bits_sumFixed {xs : List I32F32} (h : Nonneg xs) (hfits : mass xs < 2 ^ 63) :
    (sumFixed xs).bits = mass xs := h.bits_wrap_mass hfits

/-! ## Normalized vectors -/

/-- A vector of shares of at most one unit. -/
structure Shares (xs : List (IFixed i f)) : Prop where
  nonneg : Nonneg xs
  mass_le : mass xs ≤ 2 ^ f

theorem nonneg_map_safeDiv {b : IFixed i f} (h : Nonneg xs) (hb : 0 ≤ b.bits) :
    Nonneg (xs.map (·.safeDiv b)) := by
  intro y hy
  rcases List.mem_map.mp hy with ⟨x, hx, rfl⟩
  exact bits_safeDiv_nonneg (h x hx) hb

theorem Nonneg.shares_safeDiv {total : IFixed i f} (h : Nonneg xs)
    (htotal : total.bits = mass xs) (hzero : total.bits ≠ 0) :
    Shares (xs.map (·.safeDiv total)) := by
  have hpos : 0 < total.bits := lt_of_le_of_ne (htotal ▸ h.mass_nonneg) (Ne.symm hzero)
  refine ⟨nonneg_map_safeDiv h hpos.le, ?_⟩
  have hscaled : mass (xs.map (·.safeDiv total)) * total.bits ≤ mass xs * 2 ^ f :=
    mass_map_mul_le fun x hx => bits_safeDiv_mul_le (h x hx) total
  rw [← htotal, mul_comm total.bits] at hscaled
  exact le_of_mul_le_mul_right hscaled hpos

theorem Nonneg.shares_of_zero (h : Nonneg xs) (hmass : mass xs = 0) : Shares xs :=
  ⟨h, by rw [hmass]; positivity⟩

theorem Nonneg.shares_normalize {xs : List I32F32} (h : Nonneg xs) (hfits : mass xs < 2 ^ 63) :
    Shares (normalize xs) := by
  have hsum := h.bits_sumFixed hfits
  unfold normalize
  split_ifs with hzero
  · exact h.shares_of_zero (hsum ▸ hzero)
  · exact h.shares_safeDiv hsum hzero

theorem Shares.normalize {xs : List I32F32} (h : Shares xs) : Shares (normalize xs) :=
  h.nonneg.shares_normalize (h.mass_le.trans_lt (by norm_num))

theorem Nonneg.shares_normalize64 {xs : List I64F64} (h : Nonneg xs) (hfits : mass xs < 2 ^ 127) :
    Shares (normalize64 xs) := by
  have hsum := h.bits_wrap_mass hfits
  unfold normalize64
  simp only
  split_ifs with hzero
  · exact h.shares_of_zero (hsum ▸ hzero)
  · exact h.shares_safeDiv hsum hzero

/-- The bits that are dropped only make shares smaller. -/
theorem Shares.fixed64ToFixed32 {xs : List I64F64} (h : Shares xs) :
    Shares (xs.map fixed64ToFixed32) := by
  have hbits : ∀ x ∈ xs, (Subtensor.fixed64ToFixed32 x).bits = x.bits / 2 ^ 32 := by
    intro x hx
    have hnonneg := h.nonneg x hx
    have hle := (h.nonneg.le_mass hx).trans h.mass_le
    exact IFixed.bits_sat_of_mem (by omega) (by omega)
  refine ⟨fun y hy => ?_, ?_⟩
  · rcases List.mem_map.mp hy with ⟨x, hx, rfl⟩
    have hnonneg := h.nonneg x hx
    rw [hbits x hx]
    omega
  · have hscaled : mass (xs.map Subtensor.fixed64ToFixed32) * 2 ^ 32 ≤ mass xs * 1 := by
      refine mass_map_mul_le fun x hx => ?_
      rw [hbits x hx]
      omega
    have hmass := h.mass_le
    omega

theorem Shares.zipWith_mask {xs : List I32F32} (h : Shares xs) (mask : List Bool) :
    Shares (List.zipWith (fun m value => if m then 0 else value) mask xs) := by
  suffices hmask : Nonneg (List.zipWith (fun m (value : I32F32) => if m then 0 else value) mask xs) ∧
      mass (List.zipWith (fun m (value : I32F32) => if m then 0 else value) mask xs) ≤ mass xs from
    ⟨hmask.1, hmask.2.trans h.mass_le⟩
  have hnonneg := h.nonneg
  clear h
  induction xs generalizing mask with
  | nil => cases mask <;> exact ⟨fun _ hx => absurd hx List.not_mem_nil, le_refl _⟩
  | cons x xs ih =>
      rcases nonneg_cons.mp hnonneg with ⟨hx, hrest⟩
      cases mask with
      | nil => exact ⟨fun _ hx => absurd hx List.not_mem_nil, hnonneg.mass_nonneg⟩
      | cons m mask =>
          rcases ih mask hrest with ⟨ih, ihmass⟩
          rw [List.zipWith_cons_cons, nonneg_cons, mass_cons, mass_cons]
          cases m with
          | true => exact ⟨⟨le_refl _, ih⟩, by simpa using ihmass.trans (by omega)⟩
          | false => exact ⟨⟨hx, ih⟩, Int.add_le_add_left ihmass _⟩

theorem Shares.maskVector {mask : List Bool} {xs ys : List I32F32} (h : Shares xs)
    (hmask : maskVector mask xs = some ys) : Shares ys ∧ ys.length = xs.length := by
  unfold Subtensor.maskVector at hmask
  split_ifs at hmask with hempty hlen
  · cases hmask
    exact ⟨h, rfl⟩
  · cases hmask
    refine ⟨h.zipWith_mask mask, ?_⟩
    rw [List.length_zipWith, hlen, min_self]

theorem length_normalize (xs : List I32F32) : (normalize xs).length = xs.length := by
  unfold normalize
  split_ifs
  · rfl
  · exact List.length_map _

end Subtensor
