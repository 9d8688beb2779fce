import Subtensor.Commitments.Calls
import Subtensor.Lib.LittleEndian

/-!
# The codecs of bytes, words and arrays

What the pallets take from the codec crate: how it writes an array of 32 bytes,
a `u64` and a bounded vector of bytes. The pallets are given these codecs and
rely on them being exact. The format they have in the runtime is one instance.
-/

namespace Subtensor.Commitments

open Lib

/-- The error of a reader whose input ends too early. -/
def notEnoughData : String := "Not enough data to fill buffer"

/-- The codecs of the crate. -/
structure Scale where
  hash : Codec String U8 Hash
  u64 : Codec String U8 U64
  boundedVec : (bound : ℕ) → Codec String U8 (BoundedVec U8 bound)

/-- The codecs are exact, and an array is written as its bytes. -/
structure Scale.Canonical (scale : Scale) : Prop where
  hash : scale.hash.Exact
  encode_hash : ∀ hash, scale.hash.encode hash = hash.val
  u64 : scale.u64.Exact
  timelock : (scale.boundedVec 1024).Exact
  bigRaw : (scale.boundedVec 512).Exact

theorem Scale.Canonical.readAs_hash {scale : Scale} (h : scale.Canonical) {α : Type} (f : Hash → α)
    (hash : Hash) (rest : List U8) :
    readAs f (scale.hash.decode (hash.val ++ rest)) = .ok (f hash, rest) := by
  rw [← h.encode_hash]
  exact h.hash.readAs_decode f hash rest

/-! ## The format of the runtime -/

/-- A length that is read, unless it is above the bound. -/
def boundedLength (bound n : ℕ) (input : List U8) :
    Except String ({n : ℕ // n ≤ bound} × List U8) :=
  if h : n ≤ bound then .ok (⟨n, h⟩, input) else .error "BoundedVec exceeds its limit"

theorem boundedLength_eq_ok {bound n : ℕ} {input rest : List U8} {length : {n : ℕ // n ≤ bound}} :
    boundedLength bound n input = .ok (length, rest) ↔ n = length.val ∧ input = rest := by
  unfold boundedLength
  constructor
  · intro h
    split at h
    · cases h
      exact ⟨rfl, rfl⟩
    · cases h
  · rintro ⟨rfl, rfl⟩
    exact dif_pos length.property

/-- `Compact`: the two low bits of the first byte tell how many bytes there are.
A length that takes more than two is above every bound that is used. -/
def compactLength (bound : ℕ) : Codec String U8 {n : ℕ // n ≤ bound} where
  encode n := if n.val < 64 then [.wrap (4 * n.val)] else leBytes 2 (4 * n.val + 1)
  decode
    | [] => .error notEnoughData
    | b :: input =>
        if b.val % 4 = 0 then boundedLength bound (b.val / 4) input
        else if b.val % 4 = 1 then
          match input with
          | [] => .error notEnoughData
          | c :: input =>
              let n := (b.val + 256 * c.val) / 4
              if 64 ≤ n then boundedLength bound n input else .error "out of range decoding Compact<u32>"
        else .error "BoundedVec exceeds its limit"

theorem compactLength_exact {bound : ℕ} (hbound : bound < 2 ^ 14) :
    (compactLength bound).Exact := by
  intro input n rest
  have hn : n.val < 2 ^ 14 := lt_of_le_of_lt n.property hbound
  constructor
  · intro h
    rcases input with _ | ⟨b, input⟩
    · cases h
    have hb : b.val < 256 := b.isLt
    simp only [compactLength] at h ⊢
    split at h
    · rename_i hmod
      obtain ⟨hval, rfl⟩ := boundedLength_eq_ok.mp h
      have hbyte : b = .wrap (4 * n.val) := (Word.eq_wrap_iff (by omega)).mpr (by omega)
      rw [if_pos (by omega), ← hbyte, List.singleton_append]
    · split at h
      · rename_i hmod
        rcases input with _ | ⟨c, input⟩
        · cases h
        have hc : c.val < 256 := c.isLt
        dsimp only at h
        split at h
        · rename_i hlarge
          obtain ⟨hval, rfl⟩ := boundedLength_eq_ok.mp h
          have hvalue : 4 * n.val + 1 = ofLeBytes [b, c] := by
            simp only [ofLeBytes]
            omega
          have hbytes : leBytes 2 (4 * n.val + 1) = [b, c] := by
            rw [hvalue]
            exact leBytes_ofLeBytes [b, c]
          rw [if_neg (by omega), hbytes]
          rfl
        · cases h
      · cases h
  · rintro rfl
    simp only [compactLength]
    by_cases hsmall : n.val < 64
    · have hbyte : (Word.wrap (4 * n.val) : U8).val = 4 * n.val := Nat.mod_eq_of_lt (by omega)
      rw [if_pos hsmall]
      simp only [List.singleton_append, hbyte]
      rw [if_pos (by omega)]
      exact boundedLength_eq_ok.mpr ⟨by omega, rfl⟩
    · have hlow : (Word.wrap (4 * n.val + 1) : U8).val = (4 * n.val + 1) % 256 := rfl
      have hhigh : (Word.wrap ((4 * n.val + 1) / 256) : U8).val = (4 * n.val + 1) / 256 :=
        Nat.mod_eq_of_lt (by omega)
      rw [if_neg hsmall]
      simp only [leBytes, List.cons_append, List.nil_append, hlow, hhigh]
      rw [if_neg (by omega), if_pos (by omega), if_pos (by omega)]
      exact boundedLength_eq_ok.mpr ⟨by omega, rfl⟩

/-- The codecs as they are in the runtime. -/
def Scale.runtime : Scale where
  hash := ⟨Subtype.val, readExact notEnoughData 32⟩
  u64 := leCodec notEnoughData 8
  boundedVec bound := (compactLength bound).lengthPrefixed notEnoughData

theorem Scale.runtime_canonical : Scale.runtime.Canonical where
  hash := fun _ _ _ => readExact_eq_ok
  encode_hash := fun _ => rfl
  u64 := leCodec_exact
  timelock := (compactLength_exact (by norm_num)).lengthPrefixed
  bigRaw := (compactLength_exact (by norm_num)).lengthPrefixed

end Subtensor.Commitments
