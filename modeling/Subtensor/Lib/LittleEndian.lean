import Subtensor.Lib.Codec
import Subtensor.Lib.FixedPoint

/-!
# Little-endian bytes

A number below `256 ^ k` and its `k` bytes, least significant first, determine
each other.
-/

namespace Subtensor.Lib

theorem Word.wrap_val {w : ℕ} (a : Word w) : Word.wrap a.val = a :=
  Word.ext (Nat.mod_eq_of_lt a.isLt)

theorem Word.eq_wrap_iff {w k : ℕ} {a : Word w} (hk : k < 2 ^ w) : a = .wrap k ↔ a.val = k := by
  rw [Word.ext_iff]
  change a.val = k % 2 ^ w ↔ a.val = k
  rw [Nat.mod_eq_of_lt hk]

/-- The `k` low bytes of a number, least significant first. -/
def leBytes : ℕ → ℕ → List (Word 8)
  | 0, _ => []
  | k + 1, n => .wrap n :: leBytes k (n / 256)

/-- The number with these bytes. -/
def ofLeBytes : List (Word 8) → ℕ
  | [] => 0
  | byte :: bytes => byte.val + 256 * ofLeBytes bytes

@[simp] theorem length_leBytes (k n : ℕ) : (leBytes k n).length = k := by
  induction k generalizing n with
  | zero => rfl
  | succ k ih => simp [leBytes, ih]

theorem ofLeBytes_leBytes {k n : ℕ} (h : n < 256 ^ k) : ofLeBytes (leBytes k n) = n := by
  induction k generalizing n with
  | zero =>
      rw [pow_zero, Nat.lt_one_iff] at h
      rw [h]
      rfl
  | succ k ih =>
      have hrest : n / 256 < 256 ^ k := by
        rw [pow_succ] at h
        exact Nat.div_lt_of_lt_mul (by linarith)
      rw [leBytes, ofLeBytes, ih hrest]
      exact Nat.mod_add_div n 256

theorem ofLeBytes_lt (bytes : List (Word 8)) : ofLeBytes bytes < 256 ^ bytes.length := by
  induction bytes with
  | nil => exact Nat.one_pos
  | cons byte bytes ih =>
      have hbyte : byte.val < 256 := byte.isLt
      rw [ofLeBytes, List.length_cons, pow_succ]
      linarith

theorem leBytes_ofLeBytes (bytes : List (Word 8)) :
    leBytes bytes.length (ofLeBytes bytes) = bytes := by
  induction bytes with
  | nil => rfl
  | cons byte bytes ih =>
      have hbyte : byte.val < 256 := byte.isLt
      have hhead : (Word.wrap (byte.val + 256 * ofLeBytes bytes) : Word 8) = byte := by
        apply Word.ext
        change (byte.val + 256 * ofLeBytes bytes) % 256 = byte.val
        rw [Nat.add_mul_mod_self_left, Nat.mod_eq_of_lt hbyte]
      have htail : (byte.val + 256 * ofLeBytes bytes) / 256 = ofLeBytes bytes := by
        rw [Nat.add_mul_div_left _ _ (by norm_num), Nat.div_eq_of_lt hbyte, zero_add]
      rw [List.length_cons, ofLeBytes, leBytes, hhead, htail, ih]

/-- A number of `k` bytes, least significant first. -/
def leCodec {ε : Type} (short : ε) (k : ℕ) : Codec ε (Word 8) (Word (8 * k)) where
  encode n := leBytes k n.val
  decode input :=
    readAs (fun bytes => .wrap (ofLeBytes bytes.val)) (readExact short k input)

theorem leCodec_exact {ε : Type} {short : ε} {k : ℕ} : (leCodec short k).Exact := by
  intro input n rest
  constructor
  · intro h
    obtain ⟨bytes, hread, rfl⟩ := readAs_eq_ok.mp h
    have hvalue : (Word.wrap (ofLeBytes bytes.val) : Word (8 * k)).val = ofLeBytes bytes.val := by
      apply Nat.mod_eq_of_lt
      rw [pow_mul]
      simpa [bytes.property] using ofLeBytes_lt bytes.val
    have hbytes : leBytes k (ofLeBytes bytes.val) = bytes.val := by
      obtain ⟨bytes, rfl⟩ := bytes
      exact leBytes_ofLeBytes bytes
    rw [readExact_eq_ok.mp hread]
    simp only [leCodec, hvalue, hbytes]
  · rintro rfl
    have hlt : n.val < 256 ^ k := by
      have h := n.isLt
      rwa [pow_mul] at h
    refine readAs_eq_ok.mpr ⟨⟨leBytes k n.val, length_leBytes k n.val⟩, readExact_eq_ok.mpr rfl, ?_⟩
    dsimp only
    rw [ofLeBytes_leBytes hlt, Word.wrap_val]

end Subtensor.Lib
