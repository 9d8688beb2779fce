import Subtensor.Commitments.Codec
import Subtensor.Registry.Calls

/-!
# The encoding of an identity field

How `Data` of this pallet is written and read (`pallets/registry/src/types.rs`):
as in the commitments pallet, with blobs of at most 64 bytes, the tags of the
hashes behind theirs, and no other variant.
-/

namespace Subtensor.Registry

open Lib
open Commitments (U8 BoundedVec Hash Scale notEnoughData encodeRaw decodeRaw encodeRaw_eq
  decodeRaw_eq_ok)

namespace Data

def encode : Data → List U8
  | .none => [.wrap 0]
  | .raw bytes => encodeRaw bytes
  | .blakeTwo256 hash => .wrap 66 :: hash.val
  | .sha256 hash => .wrap 67 :: hash.val
  | .keccak256 hash => .wrap 68 :: hash.val
  | .shaThree256 hash => .wrap 69 :: hash.val

def decode (scale : Scale) : List U8 → Except String (Data × List U8)
  | [] => .error notEnoughData
  | b :: input =>
      if b.val = 0 then .ok (.none, input)
      else if h : b.val ≤ 65 then readAs .raw (decodeRaw 64 b h input)
      else if b.val = 66 then readAs .blakeTwo256 (scale.hash.decode input)
      else if b.val = 67 then readAs .sha256 (scale.hash.decode input)
      else if b.val = 68 then readAs .keccak256 (scale.hash.decode input)
      else if b.val = 69 then readAs .shaThree256 (scale.hash.decode input)
      else .error "invalid leading byte"

def codec (scale : Scale) : Codec String U8 Data := ⟨encode, decode scale⟩

variable {scale : Scale}

theorem decode_ok (h : scale.Canonical) {input rest : List U8} {data : Data}
    (hread : decode scale input = .ok (data, rest)) : input = encode data ++ rest := by
  rcases input with _ | ⟨b, input⟩
  · cases hread
  have tag : ∀ {k : ℕ}, k < 256 → b.val = k → b = .wrap k :=
    fun hk hb => (Word.eq_wrap_iff hk).mpr hb
  rw [decode] at hread
  split_ifs at hread with h0 hraw h66 h67 h68 h69
  · cases hread
    rw [tag (by norm_num) h0, encode, List.singleton_append]
  · obtain ⟨bytes, hbytes, rfl⟩ := readAs_eq_ok.mp hread
    exact (decodeRaw_eq_ok (by norm_num) h0).mp hbytes
  · obtain ⟨hash, rfl, rfl⟩ := h.hash.of_readAs hread
    rw [tag (by norm_num) h66, h.encode_hash, encode, List.cons_append]
  · obtain ⟨hash, rfl, rfl⟩ := h.hash.of_readAs hread
    rw [tag (by norm_num) h67, h.encode_hash, encode, List.cons_append]
  · obtain ⟨hash, rfl, rfl⟩ := h.hash.of_readAs hread
    rw [tag (by norm_num) h68, h.encode_hash, encode, List.cons_append]
  · obtain ⟨hash, rfl, rfl⟩ := h.hash.of_readAs hread
    rw [tag (by norm_num) h69, h.encode_hash, encode, List.cons_append]

/-- What is written is read, whatever comes after it. -/
theorem decode_encode (h : scale.Canonical) (data : Data) (rest : List U8) :
    decode scale (encode data ++ rest) = .ok (data, rest) := by
  cases data with
  | none => rfl
  | raw bytes =>
      have hlength : bytes.val.length ≤ 64 := bytes.property
      have hval : (Word.wrap (bytes.val.length + 1) : U8).val = bytes.val.length + 1 :=
        Nat.mod_eq_of_lt (by omega)
      rw [encode, encodeRaw_eq (by norm_num), List.cons_append, decode, if_neg (by omega),
        dif_pos (by omega)]
      refine readAs_eq_ok.mpr ⟨bytes, (decodeRaw_eq_ok (by norm_num) (by omega)).mpr ?_, rfl⟩
      rw [encodeRaw_eq (by norm_num), List.cons_append]
  | blakeTwo256 hash => exact h.readAs_hash Data.blakeTwo256 hash rest
  | sha256 hash => exact h.readAs_hash Data.sha256 hash rest
  | keccak256 hash => exact h.readAs_hash Data.keccak256 hash rest
  | shaThree256 hash => exact h.readAs_hash Data.shaThree256 hash rest

theorem codec_exact (h : scale.Canonical) : (codec scale).Exact := by
  intro input data rest
  constructor
  · exact decode_ok h
  · rintro rfl
    exact decode_encode h data rest

end Data

/-- **The two formats are exact.** If the codec crate writes words, bounded
vectors and arrays canonically, then in both pallets: `Data` that is written is
read back, whatever comes after it; what is read is what would be written;
nothing else is read; and no encoding begins with another one. -/
theorem data_codecs_inverts {scale : Scale} (h : scale.Canonical) :
    (Commitments.Data.codec scale).Inverts ∧ (Data.codec scale).Inverts :=
  ⟨(Commitments.Data.codec_exact h).inverts, (Data.codec_exact h).inverts⟩

/-- With the codecs of the runtime. -/
theorem data_codecs_inverts_runtime :
    Scale.runtime.Canonical ∧ (Commitments.Data.codec .runtime).Inverts ∧
      (Data.codec .runtime).Inverts :=
  ⟨Scale.runtime_canonical, data_codecs_inverts Scale.runtime_canonical⟩

/-- Two bytes stand behind a 3. -/
example : (Data.codec .runtime).encode (.raw ⟨[.wrap 7, .wrap 8], by decide⟩) =
    [.wrap 3, .wrap 7, .wrap 8] := by decide

end Subtensor.Registry
