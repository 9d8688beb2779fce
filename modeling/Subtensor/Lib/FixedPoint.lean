import Mathlib.Tactic

/-!
# Machine words and binary fixed-point numbers

Unsigned machine words, signed machine words, and the unsigned and signed
binary fixed-point numbers built over them. Every type carries its range as
a field, so that a value outside the range cannot be built; an operation
that could leave the range is either saturating (`sat…`) or returns an
`Option` (`checked…`).

Rounding: products are shifted right (they round towards `-∞`), quotients
are truncated towards zero, conversions to an integer take the floor.
-/

namespace Subtensor.Lib

/-! ## Unsigned words -/

/-- An unsigned machine integer of `w` bits. -/
@[ext]
structure Word (w : ℕ) where
  val : ℕ
  isLt : val < 2 ^ w
deriving DecidableEq

namespace Word

variable {w : ℕ}

/-- The word nearest to `n`: values above the range become the maximum. -/
def sat (n : ℕ) : Word w :=
  ⟨min n (2 ^ w - 1), by have := Nat.two_pow_pos w; omega⟩

/-- The word congruent to `n` (an `as` cast). -/
def wrap (n : ℕ) : Word w := ⟨n % 2 ^ w, Nat.mod_lt _ (Nat.two_pow_pos w)⟩

def maxVal : Word w := sat (2 ^ w)

def satAdd (a b : Word w) : Word w := sat (a.val + b.val)

def satSub (a b : Word w) : Word w := ⟨a.val - b.val, by have := a.isLt; omega⟩

instance : Zero (Word w) := ⟨⟨0, Nat.two_pow_pos w⟩⟩

@[simp] theorem val_zero : (0 : Word w).val = 0 := rfl

@[simp] theorem val_satSub (a b : Word w) : (a.satSub b).val = a.val - b.val := rfl

theorem val_eq_zero_iff {a : Word w} : a.val = 0 ↔ a = 0 :=
  ⟨fun h => Word.ext h, fun h => congrArg Word.val h⟩

theorem val_sat (n : ℕ) : (sat n : Word w).val = min n (2 ^ w - 1) := rfl

theorem val_sat_of_lt {n : ℕ} (h : n < 2 ^ w) : (sat n : Word w).val = n := by
  rw [val_sat]
  omega

theorem val_sat_le (n : ℕ) : (sat n : Word w).val ≤ n := Nat.min_le_left _ _

theorem val_satAdd (a b : Word w) :
    (a.satAdd b).val = min (a.val + b.val) (2 ^ w - 1) := rfl

theorem val_satAdd_of_lt {a b : Word w} (h : a.val + b.val < 2 ^ w) :
    (a.satAdd b).val = a.val + b.val := val_sat_of_lt h

def checkedAdd (a b : Word w) : Option (Word w) :=
  if h : a.val + b.val < 2 ^ w then some ⟨a.val + b.val, h⟩ else none

def checkedSub (a b : Word w) : Option (Word w) :=
  if b.val ≤ a.val then some (a.satSub b) else none

theorem val_checkedAdd {a b c : Word w} (h : a.checkedAdd b = some c) :
    c.val = a.val + b.val := by
  unfold checkedAdd at h
  split at h
  · cases h
    rfl
  · cases h

theorem val_checkedSub {a b c : Word w} (h : a.checkedSub b = some c) :
    b.val ≤ a.val ∧ c.val = a.val - b.val := by
  unfold checkedSub at h
  split at h
  · rename_i hle
    cases h
    exact ⟨hle, rfl⟩
  · cases h

end Word

abbrev U16 := Word 16
abbrev U32 := Word 32
abbrev U64 := Word 64
abbrev U128 := Word 128

/-! ## Signed words -/

/-- A signed machine integer of `w + 1` bits. -/
@[ext]
structure SWord (w : ℕ) where
  val : ℤ
  lower : -2 ^ w ≤ val
  upper : val < 2 ^ w
deriving DecidableEq

namespace SWord

variable {w : ℕ}

def sat (z : ℤ) : SWord w :=
  ⟨max (-2 ^ w) (min z (2 ^ w - 1)), le_max_left _ _, by
    have : (0 : ℤ) < 2 ^ w := by positivity
    omega⟩

def satAdd (a b : SWord w) : SWord w := sat (a.val + b.val)

def satSub (a b : SWord w) : SWord w := sat (a.val - b.val)

/-- The word congruent to `z` (an `as` cast). -/
def wrap (z : ℤ) : SWord w :=
  ⟨(z + 2 ^ w) % (2 * 2 ^ w) - 2 ^ w, by
    have h : (0 : ℤ) < 2 * 2 ^ w := by positivity
    have := Int.emod_nonneg (z + 2 ^ w) h.ne'
    omega, by
    have h : (0 : ℤ) < 2 * 2 ^ w := by positivity
    have := Int.emod_lt_of_pos (z + 2 ^ w) h
    omega⟩

/-- Negation wraps: the least number is its own negation. -/
def neg (a : SWord w) : SWord w := wrap (-a.val)

instance : Zero (SWord w) := ⟨⟨0, by simp, by positivity⟩⟩

@[simp] theorem val_zero : (0 : SWord w).val = 0 := rfl

theorem val_wrap_of_mem {z : ℤ} (h₁ : -2 ^ w ≤ z) (h₂ : z < 2 ^ w) :
    (wrap z : SWord w).val = z := by
  show (z + 2 ^ w) % (2 * 2 ^ w) - 2 ^ w = z
  rw [Int.emod_eq_of_lt (by omega) (by omega)]
  omega

theorem val_neg_of_ne {a : SWord w} (h : a.val ≠ -2 ^ w) : a.neg.val = -a.val := by
  have := a.lower
  have := a.upper
  exact val_wrap_of_mem (by omega) (by omega)

theorem val_sat (z : ℤ) :
    (sat z : SWord w).val = max (-2 ^ w) (min z (2 ^ w - 1)) := rfl

theorem val_sat_of_mem {z : ℤ} (h₁ : -2 ^ w ≤ z) (h₂ : z < 2 ^ w) :
    (sat z : SWord w).val = z := by
  rw [val_sat]
  omega

end SWord

abbrev I64 := SWord 63
abbrev I128 := SWord 127

/-- `as i64`. -/
def Word.asI64 (a : U64) : I64 := .wrap a.val

theorem SWord.natAbs_lt (a : I64) : a.val.natAbs < 2 ^ 64 := by
  have := a.lower
  have := a.upper
  omega

def SWord.unsignedAbs (a : I64) : U64 := ⟨a.val.natAbs, a.natAbs_lt⟩

theorem Word.val_asI64_of_lt {a : U64} (h : a.val < 2 ^ 63) : a.asI64.val = a.val := by
  apply SWord.val_wrap_of_mem
  · have : (0 : ℤ) ≤ a.val := Int.natCast_nonneg _
    omega
  · exact_mod_cast h

/-! ## Unsigned fixed point -/

/-- An unsigned fixed-point number with `i` integer and `f` fractional bits;
the number denoted is `bits / 2 ^ f`. -/
@[ext]
structure UFixed (i f : ℕ) where
  bits : ℕ
  isLt : bits < 2 ^ (i + f)
deriving DecidableEq

namespace UFixed

variable {i f : ℕ}

def sat (n : ℕ) : UFixed i f :=
  ⟨min n (2 ^ (i + f) - 1), by have := Nat.two_pow_pos (i + f); omega⟩

/-- `saturating_from_num` of an unsigned integer. -/
def ofNat (n : ℕ) : UFixed i f := sat (n * 2 ^ f)

def satAdd (a b : UFixed i f) : UFixed i f := sat (a.bits + b.bits)

def satSub (a b : UFixed i f) : UFixed i f :=
  ⟨a.bits - b.bits, by have := a.isLt; omega⟩

def satMul (a b : UFixed i f) : UFixed i f := sat (a.bits * b.bits / 2 ^ f)

/-- `None` on a zero divisor and on overflow. -/
def checkedDiv (a b : UFixed i f) : Option (UFixed i f) :=
  if b.bits = 0 then none
  else if h : a.bits * 2 ^ f / b.bits < 2 ^ (i + f) then
    some ⟨a.bits * 2 ^ f / b.bits, h⟩
  else none

instance : Zero (UFixed i f) := ⟨⟨0, Nat.two_pow_pos _⟩⟩

/-- Division that answers `0` where `checkedDiv` fails. -/
def safeDiv (a b : UFixed i f) : UFixed i f := (checkedDiv a b).getD 0

/-- `saturating_to_num` to an unsigned integer of `w` bits. -/
def toWord (w : ℕ) (a : UFixed i f) : Word w := .sat (a.bits / 2 ^ f)

/-- `saturating_round`: to the nearest integer, halves away from zero. -/
def satRound (a : UFixed i f) : UFixed i f :=
  sat ((a.bits + 2 ^ (f - 1)) / 2 ^ f * 2 ^ f)

/-- The smaller of two numbers. -/
def least (a b : UFixed i f) : UFixed i f := if a.bits ≤ b.bits then a else b

def absDiff (a b : UFixed i f) : UFixed i f :=
  if a.bits < b.bits then b.satSub a else a.satSub b

@[simp] theorem bits_zero : (0 : UFixed i f).bits = 0 := rfl

@[simp] theorem bits_satSub (a b : UFixed i f) :
    (a.satSub b).bits = a.bits - b.bits := rfl

theorem bits_sat (n : ℕ) : (sat n : UFixed i f).bits = min n (2 ^ (i + f) - 1) := rfl

theorem bits_sat_of_lt {n : ℕ} (h : n < 2 ^ (i + f)) :
    (sat n : UFixed i f).bits = n := by
  rw [bits_sat]
  omega

theorem bits_sat_le (n : ℕ) : (sat n : UFixed i f).bits ≤ n := Nat.min_le_left _ _

theorem bits_satAdd (a b : UFixed i f) :
    (a.satAdd b).bits = min (a.bits + b.bits) (2 ^ (i + f) - 1) := rfl

theorem bits_satMul (a b : UFixed i f) :
    (a.satMul b).bits = min (a.bits * b.bits / 2 ^ f) (2 ^ (i + f) - 1) := rfl

/-- A word of at most `i` bits converts exactly. -/
theorem bits_ofNat_of_lt {n : ℕ} (h : n < 2 ^ i) :
    (ofNat n : UFixed i f).bits = n * 2 ^ f := by
  apply bits_sat_of_lt
  rw [pow_add]
  exact Nat.mul_lt_mul_of_pos_right h (Nat.two_pow_pos f)

theorem bits_safeDiv_of_lt {a b : UFixed i f} (hb : b.bits ≠ 0)
    (h : a.bits * 2 ^ f / b.bits < 2 ^ (i + f)) :
    (a.safeDiv b).bits = a.bits * 2 ^ f / b.bits := by
  simp [safeDiv, checkedDiv, hb, h]

theorem bits_safeDiv_le (a b : UFixed i f) :
    (a.safeDiv b).bits ≤ a.bits * 2 ^ f / b.bits := by
  unfold safeDiv checkedDiv
  split
  · simp
  · split <;> simp

theorem checkedDiv_eq_some {a b q : UFixed i f} (h : checkedDiv a b = some q) :
    b.bits ≠ 0 ∧ q.bits = a.bits * 2 ^ f / b.bits := by
  unfold checkedDiv at h
  split at h
  · simp at h
  · rename_i hb
    split at h
    · cases h
      exact ⟨hb, rfl⟩
    · simp at h

/-- Dividing by an integer never overflows. -/
theorem bits_safeDiv_ofNat (a : UFixed i f) {n : ℕ} (hn : 0 < n) (h : n < 2 ^ i) :
    (a.safeDiv (ofNat n)).bits = a.bits / n := by
  have hb := bits_ofNat_of_lt (f := f) h
  have hpos := Nat.two_pow_pos f
  have hq : a.bits * 2 ^ f / (n * 2 ^ f) = a.bits / n :=
    Nat.mul_div_mul_right _ _ hpos
  rw [bits_safeDiv_of_lt, hb, hq]
  · rw [hb]
    exact (Nat.mul_pos hn hpos).ne'
  · rw [hb, hq]
    exact lt_of_le_of_lt (Nat.div_le_self _ _) a.isLt

end UFixed

abbrev U64F64 := UFixed 64 64
abbrev U96F32 := UFixed 96 32

/-! ## Signed fixed point -/

/-- A signed fixed-point number; `i` counts the integer bits with the sign. -/
@[ext]
structure IFixed (i f : ℕ) where
  bits : ℤ
  lower : -2 ^ (i + f - 1) ≤ bits
  upper : bits < 2 ^ (i + f - 1)
deriving DecidableEq

namespace IFixed

variable {i f : ℕ}

def sat (z : ℤ) : IFixed i f :=
  ⟨max (-2 ^ (i + f - 1)) (min z (2 ^ (i + f - 1) - 1)), le_max_left _ _, by
    have : (0 : ℤ) < 2 ^ (i + f - 1) := by positivity
    omega⟩

/-- The number whose bits are congruent to `z`: what an operator without a
check gives. -/
def wrap (z : ℤ) : IFixed i f :=
  ⟨(z + 2 ^ (i + f - 1)) % (2 * 2 ^ (i + f - 1)) - 2 ^ (i + f - 1), by
    have h : (0 : ℤ) < 2 * 2 ^ (i + f - 1) := by positivity
    have := Int.emod_nonneg (z + 2 ^ (i + f - 1)) h.ne'
    omega, by
    have h : (0 : ℤ) < 2 * 2 ^ (i + f - 1) := by positivity
    have := Int.emod_lt_of_pos (z + 2 ^ (i + f - 1)) h
    omega⟩

/-- `saturating_from_num` of an integer. -/
def ofInt (z : ℤ) : IFixed i f := sat (z * 2 ^ f)

/-- `saturating_from_num` of an unsigned number with as many fractional bits. -/
def ofUFixed {j : ℕ} (a : UFixed j f) : IFixed i f := sat a.bits

/-- `saturating_from_num` in the other direction: negative numbers become `0`. -/
def toUFixed {j : ℕ} (a : IFixed i f) : UFixed j f := .sat a.bits.toNat

def satAdd (a b : IFixed i f) : IFixed i f := sat (a.bits + b.bits)

def satSub (a b : IFixed i f) : IFixed i f := sat (a.bits - b.bits)

def satMul (a b : IFixed i f) : IFixed i f := sat (a.bits * b.bits / 2 ^ f)

/-- `None` on a zero divisor and on overflow. -/
def checkedDiv (a b : IFixed i f) : Option (IFixed i f) :=
  if b.bits = 0 then none
  else if h : -2 ^ (i + f - 1) ≤ (a.bits * 2 ^ f).tdiv b.bits ∧
      (a.bits * 2 ^ f).tdiv b.bits < 2 ^ (i + f - 1) then
    some ⟨(a.bits * 2 ^ f).tdiv b.bits, h.1, h.2⟩
  else none

/-- Division that answers `0` where `checkedDiv` fails. -/
def safeDiv (a b : IFixed i f) : IFixed i f := (checkedDiv a b).getD ⟨0, by simp, by positivity⟩

/-- `None` on overflow. -/
def checkedSub (a b : IFixed i f) : Option (IFixed i f) :=
  if h : -2 ^ (i + f - 1) ≤ a.bits - b.bits ∧ a.bits - b.bits < 2 ^ (i + f - 1) then
    some ⟨a.bits - b.bits, h.1, h.2⟩
  else none

/-- Negation wraps: the least number is its own negation. -/
def neg (a : IFixed i f) : IFixed i f :=
  if h : a.bits = -2 ^ (i + f - 1) then a
  else ⟨-a.bits, by have := a.upper; omega, by have := a.lower; omega⟩

/-- `saturating_to_num` to an unsigned integer: the floor, negative numbers
become `0`. -/
def toWord (w : ℕ) (a : IFixed i f) : Word w := .sat (a.bits / 2 ^ f).toNat

instance : Zero (IFixed i f) := ⟨⟨0, by simp, by positivity⟩⟩

@[simp] theorem bits_zero : (0 : IFixed i f).bits = 0 := rfl

theorem bits_sat (z : ℤ) : (sat z : IFixed i f).bits =
    max (-2 ^ (i + f - 1)) (min z (2 ^ (i + f - 1) - 1)) := rfl

theorem bits_sat_of_mem {z : ℤ} (h₁ : -2 ^ (i + f - 1) ≤ z)
    (h₂ : z < 2 ^ (i + f - 1)) : (sat z : IFixed i f).bits = z := by
  rw [bits_sat]
  omega

theorem checkedDiv_eq_some {a b q : IFixed i f} (h : a.checkedDiv b = some q) :
    b.bits ≠ 0 ∧ q.bits = (a.bits * 2 ^ f).tdiv b.bits := by
  unfold checkedDiv at h
  split_ifs at h with hzero hrange
  cases h
  exact ⟨hzero, rfl⟩

/-- A quotient of natural numbers that fits is the natural quotient. -/
theorem checkedDiv_of_nat {a b : IFixed i f} {m n : ℕ} (ha : a.bits = m) (hb : b.bits = n)
    (hn : n ≠ 0) (h : m * 2 ^ f / n < 2 ^ (i + f - 1)) :
    ∃ q : IFixed i f, a.checkedDiv b = some q ∧ q.bits = (m * 2 ^ f / n : ℕ) := by
  have hdiv : (a.bits * 2 ^ f).tdiv b.bits = (m * 2 ^ f / n : ℕ) := by
    rw [ha, hb]
    exact_mod_cast Int.ofNat_tdiv (m * 2 ^ f) n
  have hlt : ((m * 2 ^ f / n : ℕ) : ℤ) < 2 ^ (i + f - 1) := by exact_mod_cast h
  have hnonneg : (0 : ℤ) ≤ ((m * 2 ^ f / n : ℕ) : ℤ) := Int.natCast_nonneg _
  have hpow : (0 : ℤ) < 2 ^ (i + f - 1) := by positivity
  have hrange : -2 ^ (i + f - 1) ≤ (a.bits * 2 ^ f).tdiv b.bits ∧
      (a.bits * 2 ^ f).tdiv b.bits < 2 ^ (i + f - 1) := by
    rw [hdiv]
    exact ⟨by omega, hlt⟩
  have hb0 : b.bits ≠ 0 := by
    rw [hb]
    exact_mod_cast hn
  refine ⟨⟨_, hrange.1, hrange.2⟩, ?_, hdiv⟩
  rw [checkedDiv, if_neg hb0, dif_pos hrange]

end IFixed

abbrev I32F32 := IFixed 32 32
abbrev I64F64 := IFixed 64 64
abbrev I96F32 := IFixed 96 32

end Subtensor.Lib
