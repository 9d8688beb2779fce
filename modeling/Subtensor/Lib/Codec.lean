import Subtensor.Lib.Except

/-!
# Codecs

A codec writes a value as a string of symbols, and reads one off the front of a
string. It is exact if the strings on which reading succeeds are those that
begin with what is written for a value, and reading returns that value and what
comes after it. All that one expects of a format follows from this equivalence.
-/

namespace Subtensor.Lib

variable {ε β α γ : Type}

structure Codec (ε β α : Type) where
  encode : α → List β
  decode : List β → Except ε (α × List β)

/-! ## Reading -/

/-- Reads the next `n` symbols, and fails if there are not that many. -/
def readExact (short : ε) (n : ℕ) (input : List β) :
    Except ε ({l : List β // l.length = n} × List β) :=
  if h : n ≤ input.length then
    .ok (⟨input.take n, List.length_take_of_le h⟩, input.drop n)
  else .error short

theorem readExact_eq_ok {short : ε} {n : ℕ} {input rest : List β}
    {front : {l : List β // l.length = n}} :
    readExact short n input = .ok (front, rest) ↔ input = front.val ++ rest := by
  unfold readExact
  constructor
  · intro h
    split at h
    · cases h
      exact (List.take_append_drop n input).symm
    · cases h
  · rintro rfl
    obtain ⟨front, rfl⟩ := front
    simp

/-- What is read, as a value of another type. -/
def readAs (f : α → γ) (result : Except ε (α × List β)) : Except ε (γ × List β) :=
  result.map (Prod.map f id)

theorem readAs_eq_ok {f : α → γ} {result : Except ε (α × List β)} {y : γ} {rest : List β} :
    readAs f result = .ok (y, rest) ↔ ∃ x, result = .ok (x, rest) ∧ f x = y := by
  unfold readAs
  rcases result with e | ⟨x, rest'⟩
  · simp [Except.map]
  · simp [Except.map, and_comm]

namespace Codec

variable {codec : Codec ε β α}

/-! ## Exact codecs -/

def Exact (codec : Codec ε β α) : Prop :=
  ∀ input x rest, codec.decode input = .ok (x, rest) ↔ input = codec.encode x ++ rest

/-- What a format promises: the two directions invert each other, nothing else
is read, and no encoding begins with another one. -/
structure Inverts (codec : Codec ε β α) : Prop where
  decode_encode : ∀ x rest, codec.decode (codec.encode x ++ rest) = .ok (x, rest)
  encode_decode : ∀ input x rest, codec.decode input = .ok (x, rest) →
    codec.encode x ++ rest = input
  rejects : ∀ input, (∀ x rest, input ≠ codec.encode x ++ rest) →
    ∃ e, codec.decode input = .error e
  prefixFree : ∀ x y, x ≠ y → ¬ codec.encode x <+: codec.encode y

theorem Exact.prefixFree (h : codec.Exact) {x y : α} (hne : x ≠ y) :
    ¬ codec.encode x <+: codec.encode y := by
  rintro ⟨rest, heq⟩
  have hx : codec.decode (codec.encode y) = .ok (x, rest) := (h _ _ _).mpr heq.symm
  have hy : codec.decode (codec.encode y) = .ok (y, []) :=
    (h _ _ _).mpr (List.append_nil _).symm
  rw [hx] at hy
  cases hy
  exact hne rfl

theorem Exact.inverts (h : codec.Exact) : codec.Inverts where
  decode_encode := by
    intro x rest
    exact (h _ _ _).mpr rfl
  encode_decode := by
    intro input x rest hread
    exact ((h _ _ _).mp hread).symm
  rejects := by
    intro input hother
    cases hread : codec.decode input with
    | error e => exact ⟨e, rfl⟩
    | ok result => exact absurd ((h _ _ _).mp hread) (hother result.1 result.2)
  prefixFree := by
    intro x y hne
    exact h.prefixFree hne

theorem Exact.readAs_decode (h : codec.Exact) (f : α → γ) (x : α) (rest : List β) :
    readAs f (codec.decode (codec.encode x ++ rest)) = .ok (f x, rest) :=
  readAs_eq_ok.mpr ⟨x, (h _ _ _).mpr rfl, rfl⟩

theorem Exact.of_readAs (h : codec.Exact) {f : α → γ} {input rest : List β} {y : γ}
    (hread : readAs f (codec.decode input) = .ok (y, rest)) :
    ∃ x, f x = y ∧ input = codec.encode x ++ rest := by
  obtain ⟨x, hdecode, hx⟩ := readAs_eq_ok.mp hread
  exact ⟨x, hx, (h _ _ _).mp hdecode⟩

/-! ## A list behind its length -/

def lengthPrefixed (short : ε) {bound : ℕ} (length : Codec ε β {n : ℕ // n ≤ bound}) :
    Codec ε β {l : List β // l.length ≤ bound} where
  encode list := length.encode ⟨list.val.length, list.property⟩ ++ list.val
  decode input := do
    let (n, input) ← length.decode input
    readAs (fun list => ⟨list.val, list.property.le.trans n.property⟩)
      (readExact short n.val input)

theorem Exact.lengthPrefixed {short : ε} {bound : ℕ} {length : Codec ε β {n : ℕ // n ≤ bound}}
    (h : length.Exact) : (length.lengthPrefixed short).Exact := by
  intro input list rest
  constructor
  · intro hread
    obtain ⟨⟨n, input'⟩, hlength, hread⟩ := bind_eq_ok.mp hread
    obtain ⟨front, hfront, rfl⟩ := readAs_eq_ok.mp hread
    have hinput' : input' = front.val ++ rest := readExact_eq_ok.mp hfront
    have hn : (⟨front.val.length, front.property.le.trans n.property⟩ : {n // n ≤ bound}) = n :=
      Subtype.ext front.property
    rw [(h _ _ _).mp hlength, hinput']
    simp only [Codec.lengthPrefixed, hn, List.append_assoc]
  · rintro rfl
    refine bind_eq_ok.mpr ⟨(⟨list.val.length, list.property⟩, list.val ++ rest), ?_, ?_⟩
    · refine (h _ _ _).mpr ?_
      simp only [Codec.lengthPrefixed, List.append_assoc]
    · exact readAs_eq_ok.mpr ⟨⟨list.val, rfl⟩, readExact_eq_ok.mpr rfl, rfl⟩

end Codec

end Subtensor.Lib
