import Subtensor.Commitments.Scale

/-!
# The encoding of a commitment

How `Data` is written and read (`pallets/commitments/src/types.rs`). The leading
byte is a tag. For a blob of at most 128 bytes it is also one more than their
number; a longer blob and a ciphertext are bounded vectors of the codec crate.
-/

namespace Subtensor.Commitments

open Lib

/-! ## Blobs that are stored directly -/

/-- A blob behind one more than its length. -/
def encodeRaw {bound : ℕ} (bytes : BoundedVec U8 bound) : List U8 :=
  (Word.wrap (min bytes.val.length bound)).satAdd (.wrap 1) :: bytes.val

/-- The blob behind the leading byte `b`. -/
def decodeRaw (bound : ℕ) (b : U8) (h : b.val ≤ bound + 1) (input : List U8) :
    Except String (BoundedVec U8 bound × List U8) :=
  readAs (fun bytes => ⟨bytes.val, bytes.property.trans_le (Nat.sub_le_of_le_add h)⟩)
    (readExact notEnoughData (b.val - 1) input)

theorem encodeRaw_eq {bound : ℕ} (hbound : bound + 1 < 2 ^ 8) (bytes : BoundedVec U8 bound) :
    encodeRaw bytes = .wrap (bytes.val.length + 1) :: bytes.val := by
  have hlength : bytes.val.length ≤ bound := bytes.property
  have hone : (Word.wrap 1 : U8).val = 1 := rfl
  have hwrap : (Word.wrap bytes.val.length : U8).val = bytes.val.length :=
    Nat.mod_eq_of_lt (by omega)
  rw [encodeRaw, min_eq_left hlength, List.cons.injEq, Word.eq_wrap_iff (by omega),
    Word.val_satAdd_of_lt (by omega), hwrap, hone]
  exact ⟨rfl, rfl⟩

/-- Reading a blob inverts writing it. -/
theorem decodeRaw_eq_ok {bound : ℕ} {b : U8} {h : b.val ≤ bound + 1} {input rest : List U8}
    {bytes : BoundedVec U8 bound} (hbound : bound + 1 < 2 ^ 8) (hb : b.val ≠ 0) :
    decodeRaw bound b h input = .ok (bytes, rest) ↔ b :: input = encodeRaw bytes ++ rest := by
  have hlength : bytes.val.length ≤ bound := bytes.property
  rw [encodeRaw_eq hbound, List.cons_append, List.cons.injEq, Word.eq_wrap_iff (by omega)]
  constructor
  · intro hread
    obtain ⟨front, hfront, rfl⟩ := readAs_eq_ok.mp hread
    refine ⟨?_, readExact_eq_ok.mp hfront⟩
    have hfront : front.val.length = b.val - 1 := front.property
    dsimp only
    omega
  · rintro ⟨hval, rfl⟩
    have hfront : bytes.val.length = b.val - 1 := by omega
    exact readAs_eq_ok.mpr ⟨⟨bytes.val, hfront⟩, readExact_eq_ok.mpr rfl, rfl⟩

namespace Data

/-! ## Writing and reading -/

def encode (scale : Scale) : Data → List U8
  | .none => [.wrap 0]
  | .raw bytes => encodeRaw bytes
  | .blakeTwo256 hash => .wrap 130 :: hash.val
  | .sha256 hash => .wrap 131 :: hash.val
  | .keccak256 hash => .wrap 132 :: hash.val
  | .shaThree256 hash => .wrap 133 :: hash.val
  | .timelockEncrypted encrypted revealRound =>
      .wrap 134 :: ((scale.boundedVec 1024).encode encrypted ++ scale.u64.encode revealRound)
  | .resetBondsFlag => [.wrap 135]
  | .bigRaw bytes => .wrap 136 :: (scale.boundedVec 512).encode bytes

def decode (scale : Scale) : List U8 → Except String (Data × List U8)
  | [] => .error notEnoughData
  | b :: input =>
      if b.val = 0 then .ok (.none, input)
      else if h : b.val ≤ 129 then readAs .raw (decodeRaw 128 b h input)
      else if b.val = 130 then readAs .blakeTwo256 (scale.hash.decode input)
      else if b.val = 131 then readAs .sha256 (scale.hash.decode input)
      else if b.val = 132 then readAs .keccak256 (scale.hash.decode input)
      else if b.val = 133 then readAs .shaThree256 (scale.hash.decode input)
      else if b.val = 134 then do
        let (encrypted, input) ← (scale.boundedVec 1024).decode input
        readAs (.timelockEncrypted encrypted) (scale.u64.decode input)
      else if b.val = 135 then .ok (.resetBondsFlag, input)
      else if b.val = 136 then readAs .bigRaw ((scale.boundedVec 512).decode input)
      else .error "invalid leading byte"

def codec (scale : Scale) : Codec String U8 Data := ⟨encode scale, decode scale⟩

variable {scale : Scale}

theorem decode_ok (h : scale.Canonical) {input rest : List U8} {data : Data}
    (hread : decode scale input = .ok (data, rest)) : input = encode scale data ++ rest := by
  rcases input with _ | ⟨b, input⟩
  · cases hread
  have tag : ∀ {k : ℕ}, k < 256 → b.val = k → b = .wrap k :=
    fun hk hb => (Word.eq_wrap_iff hk).mpr hb
  rw [decode] at hread
  split_ifs at hread with h0 hraw h130 h131 h132 h133 h134 h135 h136
  · cases hread
    rw [tag (by norm_num) h0, encode, List.singleton_append]
  · obtain ⟨bytes, hbytes, rfl⟩ := readAs_eq_ok.mp hread
    exact (decodeRaw_eq_ok (by norm_num) h0).mp hbytes
  · obtain ⟨hash, rfl, rfl⟩ := h.hash.of_readAs hread
    rw [tag (by norm_num) h130, h.encode_hash, encode, List.cons_append]
  · obtain ⟨hash, rfl, rfl⟩ := h.hash.of_readAs hread
    rw [tag (by norm_num) h131, h.encode_hash, encode, List.cons_append]
  · obtain ⟨hash, rfl, rfl⟩ := h.hash.of_readAs hread
    rw [tag (by norm_num) h132, h.encode_hash, encode, List.cons_append]
  · obtain ⟨hash, rfl, rfl⟩ := h.hash.of_readAs hread
    rw [tag (by norm_num) h133, h.encode_hash, encode, List.cons_append]
  · obtain ⟨⟨encrypted, input'⟩, hencrypted, hread⟩ := bind_eq_ok.mp hread
    obtain ⟨revealRound, rfl, rfl⟩ := h.u64.of_readAs hread
    rw [tag (by norm_num) h134, (h.timelock _ _ _).mp hencrypted, encode, List.cons_append,
      List.append_assoc]
  · cases hread
    rw [tag (by norm_num) h135, encode, List.singleton_append]
  · obtain ⟨bytes, rfl, rfl⟩ := h.bigRaw.of_readAs hread
    rw [tag (by norm_num) h136, encode, List.cons_append]

/-- What is written is read, whatever comes after it. -/
theorem decode_encode (h : scale.Canonical) (data : Data) (rest : List U8) :
    decode scale (encode scale data ++ rest) = .ok (data, rest) := by
  cases data with
  | none => rfl
  | raw bytes =>
      have hlength : bytes.val.length ≤ 128 := bytes.property
      have hval : (Word.wrap (bytes.val.length + 1) : U8).val = bytes.val.length + 1 :=
        Nat.mod_eq_of_lt (by omega)
      rw [encode, encodeRaw_eq (by norm_num), List.cons_append, decode, if_neg (by omega),
        dif_pos (by omega)]
      refine readAs_eq_ok.mpr ⟨bytes, (decodeRaw_eq_ok (by norm_num) (by omega)).mpr ?_, rfl⟩
      rw [encodeRaw_eq (by norm_num), List.cons_append]
  | blakeTwo256 hash => exact h.readAs_hash Data.blakeTwo256 hash rest
  | sha256 hash => exact h.readAs_hash Data.sha256 hash rest
  | keccak256 hash => exact h.readAs_hash Data.keccak256 hash rest
  | shaThree256 hash => exact h.readAs_hash Data.shaThree256 hash rest
  | timelockEncrypted encrypted revealRound =>
      rw [encode, List.cons_append, List.append_assoc]
      refine bind_eq_ok.mpr ⟨(encrypted, scale.u64.encode revealRound ++ rest), ?_, ?_⟩
      · exact (h.timelock _ _ _).mpr rfl
      · exact h.u64.readAs_decode (Data.timelockEncrypted encrypted) revealRound rest
  | resetBondsFlag => rfl
  | bigRaw bytes => exact h.bigRaw.readAs_decode Data.bigRaw bytes rest

theorem codec_exact (h : scale.Canonical) : (codec scale).Exact := by
  intro input data rest
  constructor
  · exact decode_ok h
  · rintro rfl
    exact decode_encode h data rest

end Data

end Subtensor.Commitments
