import Subtensor.Lib.Bitset
import Subtensor.Swap.Bitmap

/-!
# The tick index is exact

The three layers represent the set of active ticks, the words that hold one,
and the words of those words. `insert` and `remove` keep this, and under it
the search for the closest tick in a direction is exact.
-/

namespace Subtensor.Swap

open Subtensor.Lib TickIndexBitmap ActiveTickIndexManager

/-! ## The represented set -/

def InBounds (t : ℤ) : Prop := TickIndex.MIN ≤ t ∧ t ≤ TickIndex.MAX

instance (t : ℤ) : Decidable (InBounds t) := inferInstanceAs (Decidable (_ ∧ _))

theorem inBounds_iff {t : ℤ} : InBounds t ↔ -443636 ≤ t ∧ t ≤ 443636 := Iff.rfl

/-- The stored number of a tick. -/
def offsetIndex (t : ℤ) : ℕ := (t + TickIndex.OFFSET).toNat

theorem offsetIndex_eq (t : ℤ) : offsetIndex t = (t + 887272).toNat := rfl

def offsets (S : Set ℤ) : Set ℕ := {o | ∃ t ∈ S, InBounds t ∧ offsetIndex t = o}

/-- The bitmap holds exactly the ticks of `S` that are in bounds. -/
structure BitmapExact (words : BitmapWords) (S : Set ℤ) : Prop where
  bottom : Represents (words .bottom) (offsets S)
  middle : Represents (words .middle) (coarsen 128 (offsets S))
  top : Represents (words .top) (coarsen 128 (coarsen 128 (offsets S)))

/-- The words are determined by the ticks. -/
theorem BitmapExact.unique {words words' : BitmapWords} {S : Set ℤ} (h : BitmapExact words S)
    (h' : BitmapExact words' S) : words = words' := by
  funext layer
  cases layer with
  | top => exact h.top.unique h'.top
  | middle => exact h.middle.unique h'.middle
  | bottom => exact h.bottom.unique h'.bottom

theorem bitmapExact_empty : BitmapExact (fun _ _ => 0) ∅ := by
  have hoff : offsets ∅ = ∅ := by
    ext o
    simp [offsets]
  have hco : coarsen 128 (∅ : Set ℕ) = ∅ := Set.image_empty _
  constructor
  · rw [hoff]
    exact Represents.empty
  · rw [hoff, hco]
    exact Represents.empty
  · rw [hoff, hco, hco]
    exact Represents.empty

theorem offsets_insert {S : Set ℤ} {t : ℤ} (ht : InBounds t) :
    offsets (insert t S) = insert (offsetIndex t) (offsets S) := by
  ext o
  constructor
  · rintro ⟨s, rfl | hs, hb, rfl⟩
    · exact Or.inl rfl
    · exact Or.inr ⟨s, hs, hb, rfl⟩
  · rintro (rfl | ⟨s, hs, hb, rfl⟩)
    · exact ⟨t, Or.inl rfl, ht, rfl⟩
    · exact ⟨s, Or.inr hs, hb, rfl⟩

theorem offsetIndex_inj {s t : ℤ} (hs : InBounds s) (ht : InBounds t)
    (h : offsetIndex s = offsetIndex t) : s = t := by
  rw [inBounds_iff] at hs ht
  rw [offsetIndex_eq, offsetIndex_eq] at h
  omega

theorem offsets_erase {S : Set ℤ} {t : ℤ} (ht : InBounds t) :
    offsets (S \ {t}) = offsets S \ {offsetIndex t} := by
  ext o
  constructor
  · rintro ⟨s, ⟨hs, hne⟩, hb, rfl⟩
    exact ⟨⟨s, hs, hb, rfl⟩, fun h => hne (offsetIndex_inj hb ht h)⟩
  · rintro ⟨⟨s, hs, hb, rfl⟩, hne⟩
    exact ⟨s, ⟨hs, fun h => hne (by rw [h]; rfl)⟩, hb, rfl⟩

/-! ## `insert` and `remove` -/

theorem set_same (words : BitmapWords) (l : LayerLevel) (w : ℕ) (v : BitVec 128) :
    set words l w v l = Function.update (words l) w v := by
  funext k
  simp [ActiveTickIndexManager.set, Function.update_apply]

theorem set_other (words : BitmapWords) {l l' : LayerLevel} (h : l' ≠ l) (w : ℕ)
    (v : BitVec 128) : set words l w v l' = words l' := by
  funext k
  simp [ActiveTickIndexManager.set, h]

theorem not_outside {t : ℤ} (ht : InBounds t) :
    ¬(t < TickIndex.MIN ∨ TickIndex.MAX < t) := by
  rintro (h | h)
  · exact absurd ht.1 (not_le.mpr h)
  · exact absurd ht.2 (not_le.mpr h)

/-- **`insert` adds the tick to every layer.** -/
theorem BitmapExact.insert {words : BitmapWords} {S : Set ℤ} (h : BitmapExact words S)
    {t : ℤ} (ht : InBounds t) :
    BitmapExact (ActiveTickIndexManager.insert words t) (Insert.insert t S) := by
  unfold ActiveTickIndexManager.insert
  rw [if_neg (not_outside ht)]
  constructor
  · rw [set_same, set_other _ (by decide), set_other _ (by decide), offsets_insert ht]
    exact h.bottom.insert (by norm_num) _
  · rw [set_other _ (by decide), set_same, set_other _ (by decide), offsets_insert ht,
      coarsen_insert]
    exact h.middle.insert (by norm_num) _
  · rw [set_other _ (by decide), set_other _ (by decide), set_same, offsets_insert ht,
      coarsen_insert, coarsen_insert]
    exact h.top.insert (by norm_num) _

theorem ite_update_self {above : ℕ → BitVec 128} {c : Prop} [Decidable c] {k : ℕ}
    {v : BitVec 128} :
    (if c then Function.update above k v else above) k = if c then v else above k := by
  split <;> simp

section Remove

variable (words : BitmapWords) {t : ℤ}

theorem remove_bottom (ht : InBounds t) :
    ActiveTickIndexManager.remove words t .bottom =
      Function.update (words .bottom) (offsetIndex t / 128)
        (words .bottom (offsetIndex t / 128) &&& ~~~(1#128 <<< (offsetIndex t % 128))) := by
  unfold ActiveTickIndexManager.remove
  rw [if_neg (not_outside ht)]
  split_ifs <;> simp [set_same, set_other] <;> rfl

theorem remove_middle (ht : InBounds t) :
    ActiveTickIndexManager.remove words t .middle =
      if ActiveTickIndexManager.remove words t .bottom (offsetIndex t / 128) = 0 then
        Function.update (words .middle) (offsetIndex t / 128 / 128)
          (words .middle (offsetIndex t / 128 / 128) &&&
            ~~~(1#128 <<< (offsetIndex t / 128 % 128)))
      else words .middle := by
  rw [remove_bottom words ht, Function.update_self]
  unfold ActiveTickIndexManager.remove
  rw [if_neg (not_outside ht)]
  have hword : words .bottom ((ofTickIndex t).wordAt .bottom) &&&
      ~~~(ofTickIndex t).bitMask .bottom =
      words .bottom (offsetIndex t / 128) &&& ~~~(1#128 <<< (offsetIndex t % 128)) := rfl
  rw [hword]
  split_ifs <;> simp [set_same, set_other] <;> rfl

theorem remove_top (ht : InBounds t) :
    ActiveTickIndexManager.remove words t .top =
      if ActiveTickIndexManager.remove words t .middle (offsetIndex t / 128 / 128) = 0 then
        Function.update (words .top) (offsetIndex t / 128 / 128 / 128)
          (words .top (offsetIndex t / 128 / 128 / 128) &&&
            ~~~(1#128 <<< (offsetIndex t / 128 / 128 % 128)))
      else words .top := by
  rw [remove_middle words ht, remove_bottom words ht, Function.update_self, ite_update_self]
  unfold ActiveTickIndexManager.remove
  rw [if_neg (not_outside ht)]
  have hword : words .bottom ((ofTickIndex t).wordAt .bottom) &&&
      ~~~(ofTickIndex t).bitMask .bottom =
      words .bottom (offsetIndex t / 128) &&& ~~~(1#128 <<< (offsetIndex t % 128)) := rfl
  have hword' : words .middle ((ofTickIndex t).wordAt .middle) &&&
      ~~~(ofTickIndex t).bitMask .middle = words .middle (offsetIndex t / 128 / 128) &&&
        ~~~(1#128 <<< (offsetIndex t / 128 % 128)) := rfl
  have hword'' : words .middle ((ofTickIndex t).wordAt .middle) =
    words .middle (offsetIndex t / 128 / 128) := rfl
  rw [hword, hword', hword'']
  split_ifs <;> simp [set_same, set_other] <;> rfl

end Remove

/-- **`remove` takes the tick out of every layer.** -/
theorem BitmapExact.remove {words : BitmapWords} {S : Set ℤ} (h : BitmapExact words S)
    {t : ℤ} (ht : InBounds t) :
    BitmapExact (ActiveTickIndexManager.remove words t) (S \ {t}) := by
  have hbottom := h.bottom.erase (by norm_num) (offsetIndex t)
  rw [← remove_bottom words ht] at hbottom
  have hmiddle := hbottom.eraseWord (k := offsetIndex t) Set.sdiff_subset subset_rfl
    (by norm_num) h.middle
  rw [← remove_middle words ht] at hmiddle
  have hrest : coarsen 128 (offsets S) \ {offsetIndex t / 128} ⊆
      coarsen 128 (offsets S \ {offsetIndex t}) := fun i hi =>
    mem_coarsen_of_ne subset_rfl hi.1 hi.2
  have htop := hmiddle.eraseWord (k := offsetIndex t / 128) (Set.image_mono Set.sdiff_subset)
    hrest (by norm_num) h.top
  rw [← remove_top words ht] at htop
  rw [← offsets_erase ht] at hbottom hmiddle htop
  exact ⟨hbottom, hmiddle, htop⟩

/-! ## One word of the search -/

/-- `a` lies at `b` or beyond it in the direction of the search. -/
def Reach (lower : Bool) (a b : ℕ) : Prop := if lower then a ≤ b else b ≤ a

/-- The element of `Q` closest to `k` in the direction of the search. -/
def Closest (lower : Bool) (Q : Set ℕ) (k m : ℕ) : Prop :=
  m ∈ Q ∧ Reach lower m k ∧ ∀ x ∈ Q, Reach lower x k → Reach lower x m

/-- `k` itself, or the closest element beyond it. -/
def Candidate (lower : Bool) (Q : Set ℕ) (k m : ℕ) : Prop :=
  m ∈ Q ∧ (m = k ∨ Reach lower m k ∧ ∀ x ∈ Q, x ≠ k → Reach lower x k → Reach lower x m)

theorem Closest.candidate {lower : Bool} {Q : Set ℕ} {k m : ℕ} (h : Closest lower Q k m) :
    Candidate lower Q k m :=
  ⟨h.1, Or.inr ⟨h.2.1, fun x hx _ hxk => h.2.2 x hx hxk⟩⟩

theorem Reach.div {lower : Bool} {a b : ℕ} (h : Reach lower a b) :
    Reach lower (a / 128) (b / 128) := by
  cases lower
  · exact Nat.div_le_div_right h
  · exact Nat.div_le_div_right h

theorem reach_of_div {lower : Bool} {a b : ℕ} (hr : Reach lower (a / 128) (b / 128))
    (hne : a / 128 ≠ b / 128) : Reach lower a b := by
  cases lower
  · simp only [Reach, Bool.false_eq_true, if_false] at *
    omega
  · simp only [Reach, if_true] at *
    omega

/-- The word of a candidate is a candidate in the layer above. -/
theorem Candidate.coarsen {lower : Bool} {Q : Set ℕ} {k m : ℕ} (h : Candidate lower Q k m) :
    Candidate lower (coarsen 128 Q) (k / 128) (m / 128) := by
  obtain ⟨hm, h⟩ := h
  refine ⟨⟨m, hm, rfl⟩, ?_⟩
  rcases h with rfl | ⟨hmk, hbest⟩
  · exact Or.inl rfl
  · refine Or.inr ⟨hmk.div, ?_⟩
    rintro _ ⟨x, hx, rfl⟩ hne hxk
    exact (hbest x hx (fun h => hne (by rw [h])) (reach_of_div hxk hne)).div

/-- The bits after the start bit, in the order of the search. -/
def bitsBeyond (bit : ℕ) (lower : Bool) : List ℕ :=
  if lower then (List.range bit).reverse else (List.range (127 - bit)).map (bit + 1 + ·)

theorem visitedBits_eq {bit : ℕ} (hb : bit < 128) (lower : Bool) :
    visitedBits bit lower = bit :: bitsBeyond bit lower := by
  cases lower
  · have h128 : 128 - bit = (127 - bit) + 1 := by omega
    simp only [visitedBits, bitsBeyond, Bool.false_eq_true, if_false, h128,
      List.range_succ_eq_map, List.map_cons, List.map_map, Nat.add_zero, List.cons.injEq, true_and]
    apply List.map_congr_left
    intro a _
    simp only [Function.comp_apply]
    omega
  · simp [visitedBits, bitsBeyond, List.range_succ]

theorem mem_bitsBeyond {bit c : ℕ} (hb : bit < 128) (lower : Bool) :
    c ∈ bitsBeyond bit lower ↔ c < 128 ∧ c ≠ bit ∧ Reach lower c bit := by
  cases lower
  · simp only [bitsBeyond, Reach, Bool.false_eq_true, if_false, List.mem_map, List.mem_range]
    constructor
    · rintro ⟨a, ha, rfl⟩
      omega
    · rintro ⟨h₁, h₂, h₃⟩
      exact ⟨c - bit - 1, by omega, by omega⟩
  · simp only [bitsBeyond, Reach, if_true, List.mem_reverse, List.mem_range]
    omega

/-- The bits beyond are visited in the order of their distance. -/
theorem bitsBeyond_pairwise (bit : ℕ) (lower : Bool) :
    (bitsBeyond bit lower).Pairwise fun a b => Reach lower b a ∧ a ≠ b := by
  cases lower
  · simp only [bitsBeyond, Reach, Bool.false_eq_true, if_false]
    rw [List.pairwise_map]
    exact List.pairwise_lt_range.imp (fun h => by omega)
  · simp only [bitsBeyond, Reach, if_true]
    rw [List.pairwise_reverse]
    exact List.pairwise_lt_range.imp (fun h => by omega)

theorem scanBits_eq {word : BitVec 128} {bit : ℕ} : ∀ {l : List ℕ}, bit ∉ l →
    scanBits word bit l = (l.find? word.getLsbD).toList
  | [], _ => rfl
  | b :: l, h => by
      have hb : b ≠ bit := fun hc => h (by rw [hc]; exact List.mem_cons_self)
      have ih : scanBits word bit l = (l.find? word.getLsbD).toList :=
        scanBits_eq fun hc => h (List.mem_cons_of_mem b hc)
      by_cases hbit : word.getLsbD b = true
      · simp [scanBits, hbit, hb]
      · simp [scanBits, hbit, ih]

/-- The candidates of a word: the start bit if it is active, and the first
active bit beyond it. -/
theorem candidates_eq {word : BitVec 128} {bit : ℕ} (hb : bit < 128) (lower : Bool) :
    findClosestActiveBitCandidates word bit lower =
      (if word.getLsbD bit then [bit] else []) ++
        ((bitsBeyond bit lower).find? word.getLsbD).toList := by
  have hnot : bit ∉ bitsBeyond bit lower := fun h => ((mem_bitsBeyond hb lower).mp h).2.1 rfl
  unfold findClosestActiveBitCandidates
  rw [visitedBits_eq hb, scanBits, scanBits_eq hnot]
  by_cases hbit : word.getLsbD bit = true
  · simp [hbit]
  · simp [hbit]

/-- In a list ordered by distance, `find?` yields the closest match. -/
theorem find?_of_pairwise {p : ℕ → Bool} {r : ℕ → ℕ → Prop} {c : ℕ} : ∀ {l : List ℕ},
    l.Pairwise r → c ∈ l → p c = true → (∀ a ∈ l, r a c → p a = false) → l.find? p = some c
  | a :: l, hl, hc, hp, hbefore => by
      rw [List.pairwise_cons] at hl
      rcases List.mem_cons.mp hc with rfl | hc'
      · simp [hp]
      · have ha : p a = false := hbefore a List.mem_cons_self (hl.1 c hc')
        rw [List.find?_cons_of_neg (by simp [ha])]
        exact find?_of_pairwise hl.2 hc' hp fun b hb => hbefore b (List.mem_cons_of_mem a hb)

section Word

variable {lower : Bool} {words : ℕ → BitVec 128} {Q : Set ℕ} {k m w c : ℕ}

/-- The bit where the search for `k` starts in the word `w`. -/
def startBit (w k : ℕ) : ℕ := startFromBit w (k / 128) (k % 128)

theorem startBit_lt (w k : ℕ) : startBit w k < 128 := by
  unfold startBit startFromBit
  split_ifs <;> omega

/-- Whatever lies at the start bit of a word or beyond it, lies at `k` or
beyond it. -/
theorem reach_of_startBit (hw : Reach lower w (k / 128)) (hc : c < 128)
    (h : Reach lower c (startBit w k)) : Reach lower (w * 128 + c) k := by
  unfold startBit startFromBit at h
  cases lower
  · simp only [Reach, Bool.false_eq_true, if_false] at *
    split_ifs at h <;> omega
  · simp only [Reach, if_true] at *
    split_ifs at h <;> omega

theorem startBit_reach (hm : Reach lower m k) : Reach lower (m % 128) (startBit (m / 128) k) := by
  unfold startBit startFromBit
  cases lower
  · simp only [Reach, Bool.false_eq_true, if_false] at *
    split_ifs <;> omega
  · simp only [Reach, if_true] at *
    split_ifs <;> omega

theorem reach_antisymm {a b : ℕ} (h₁ : Reach lower a b) (h₂ : Reach lower b a) : a = b := by
  cases lower
  · exact le_antisymm h₂ h₁
  · exact le_antisymm h₁ h₂

theorem reach_rfl {a : ℕ} : Reach lower a a := by
  cases lower
  · exact le_refl a
  · exact le_refl a

theorem reach_mod {a : ℕ} (h : Reach lower (m / 128 * 128 + a) m) :
    Reach lower a (m % 128) := by
  cases lower
  · simp only [Reach, Bool.false_eq_true, if_false] at *
    omega
  · simp only [Reach, if_true] at *
    omega

theorem mem_candidates {word : BitVec 128} {bit : ℕ} (hb : bit < 128)
    (h : c ∈ findClosestActiveBitCandidates word bit lower) :
    word.getLsbD c = true ∧ c < 128 ∧ Reach lower c bit := by
  rw [candidates_eq hb, List.mem_append, Option.mem_toList] at h
  rcases h with h | h
  · split at h
    · rename_i hbit
      obtain rfl := List.mem_singleton.mp h
      exact ⟨hbit, hb, reach_rfl⟩
    · simp at h
  · obtain ⟨hc, -, hr⟩ := (mem_bitsBeyond hb lower).mp (List.mem_of_find?_eq_some h)
    exact ⟨List.find?_some h, hc, hr⟩

/-- Soundness: what the search finds in a word is an element in the
direction of the search. -/
theorem candidates_sound (hQ : Represents words Q) (hw : Reach lower w (k / 128))
    (h : c ∈ findClosestActiveBitCandidates (words w) (startBit w k) lower) :
    c < 128 ∧ w * 128 + c ∈ Q ∧ Reach lower (w * 128 + c) k := by
  obtain ⟨hbit, hc, hr⟩ := mem_candidates (startBit_lt w k) h
  exact ⟨hc, (hQ.bit_iff hc).mp hbit, reach_of_startBit hw hc hr⟩

/-- Completeness: a candidate is found in its word. -/
theorem candidates_complete (hQ : Represents words Q) (h : Candidate lower Q k m) :
    m % 128 ∈ findClosestActiveBitCandidates (words (m / 128)) (startBit (m / 128) k) lower := by
  obtain ⟨hm, h⟩ := h
  have hbit : (words (m / 128)).getLsbD (m % 128) = true := (hQ m).mpr hm
  have hmk : Reach lower m k := by
    rcases h with rfl | ⟨hmk, -⟩
    · exact reach_rfl
    · exact hmk
  rw [candidates_eq (startBit_lt _ _), List.mem_append, Option.mem_toList]
  by_cases heq : m % 128 = startBit (m / 128) k
  · left
    rw [← heq, if_pos hbit]
    exact List.mem_singleton_self _
  · right
    rcases h with rfl | ⟨-, hbest⟩
    · exact absurd (by simp [startBit, startFromBit]) heq
    · have hlt := Nat.mod_lt m (show 0 < 128 by norm_num)
      refine find?_of_pairwise (bitsBeyond_pairwise _ lower)
        ((mem_bitsBeyond (startBit_lt _ _) lower).mpr ⟨hlt, heq, startBit_reach hmk⟩) hbit ?_
      rintro a ha ⟨hca, hne⟩
      obtain ⟨ha128, hane, har⟩ := (mem_bitsBeyond (startBit_lt _ _) lower).mp ha
      -- an active bit before `m` would be an element between `m` and `k`
      by_contra hact
      have hmem : m / 128 * 128 + a ∈ Q := (hQ.bit_iff ha128).mp (by simpa using hact)
      have hreach := reach_of_startBit hmk.div ha128 har
      have hak : m / 128 * 128 + a ≠ k := by
        rintro rfl
        apply hane
        have hdiv : (m / 128 * 128 + a) / 128 = m / 128 := by omega
        have hmod : (m / 128 * 128 + a) % 128 = a := by omega
        simp [startBit, startFromBit, hdiv, hmod]
      exact hne (reach_antisymm (reach_mod (hbest _ hmem hak hreach)) hca)

/-- The first candidate of the word of the closest element is that element. -/
theorem candidates_head (hQ : Represents words Q) (h : Closest lower Q k m) :
    (findClosestActiveBitCandidates (words (m / 128)) (startBit (m / 128) k) lower).head? =
      some (m % 128) := by
  have hmem := candidates_complete hQ h.candidate
  have hsb := startBit_lt (m / 128) k
  rw [candidates_eq hsb] at hmem ⊢
  by_cases hact : (words (m / 128)).getLsbD (startBit (m / 128) k) = true
  · rw [if_pos hact, List.singleton_append, List.head?_cons, Option.some_inj]
    have hQs : m / 128 * 128 + startBit (m / 128) k ∈ Q := (hQ.bit_iff hsb).mp hact
    have hle := h.2.2 _ hQs (reach_of_startBit h.2.1.div hsb reach_rfl)
    exact reach_antisymm (reach_mod hle) (startBit_reach h.2.1)
  · rw [if_neg hact, List.nil_append, Option.mem_toList] at hmem
    rw [if_neg hact, List.nil_append, hmem]
    rfl

end Word

/-! ## The search through the three layers -/

/-- The tick found under a bit of the middle layer. -/
def foundInBottom (words : BitmapWords) (k : ℕ) (lower : Bool) (word2Index : ℕ) : Option ℕ :=
  (findClosestActiveBitCandidates (words .bottom word2Index) (startBit word2Index k)
    lower).head?.map (word2Index * 128 + ·)

/-- All ticks that the two nested loops come across. -/
def foundOffsets (words : BitmapWords) (k : ℕ) (lower : Bool) : List ℕ :=
  (findClosestActiveBitCandidates (words .top (k / 128 / 128 / 128)) (k / 128 / 128 % 128)
    lower).flatMap fun c₀ =>
    (findClosestActiveBitCandidates (words .middle c₀) (startBit c₀ (k / 128)) lower).filterMap
      fun c₁ => foundInBottom words k lower (c₀ * 128 + c₁)

theorem findInBottom_eq (words : BitmapWords) (t : ℤ) (lower : Bool) (word1Index : ℕ)
    (result : Option ℕ) (c₁ : ℕ) :
    findInBottom words (ofTickIndex t) lower word1Index result c₁ =
      match foundInBottom words (offsetIndex t) lower (word1Index * 128 + c₁) with
      | none => result
      | some x => keepClosest lower result x := by
  unfold findInBottom foundInBottom
  show (match (findClosestActiveBitCandidates (words .bottom (word1Index * 128 + c₁))
    (startBit (word1Index * 128 + c₁) (offsetIndex t)) lower).head? with
    | none => result
    | some c₂ => keepClosest lower result ((word1Index * 128 + c₁) * 128 + c₂)) = _
  cases (findClosestActiveBitCandidates (words .bottom (word1Index * 128 + c₁))
    (startBit (word1Index * 128 + c₁) (offsetIndex t)) lower).head? with
  | none => rfl
  | some c₂ => rfl

theorem foldl_filterMap_eq {f : ℕ → Option ℕ} {lower : Bool} : ∀ (l : List ℕ) (r : Option ℕ),
    l.foldl (fun r c => match f c with
      | none => r
      | some x => keepClosest lower r x) r = (l.filterMap f).foldl (keepClosest lower) r
  | [], _ => rfl
  | c :: l, r => by
      rw [List.foldl_cons, foldl_filterMap_eq l]
      cases hf : f c with
      | none => rw [List.filterMap_cons_none hf]
      | some x => rw [List.filterMap_cons_some hf, List.foldl_cons]

theorem findInMiddle_eq (words : BitmapWords) (t : ℤ) (lower : Bool) (result : Option ℕ)
    (c₀ : ℕ) :
    findInMiddle words (ofTickIndex t) lower result c₀ =
      ((findClosestActiveBitCandidates (words .middle c₀)
        (startBit c₀ (offsetIndex t / 128)) lower).filterMap
          fun c₁ => foundInBottom words (offsetIndex t) lower (c₀ * 128 + c₁)).foldl
        (keepClosest lower) result := by
  have hidx : layerToIndex ⟨0, c₀⟩ = c₀ := by simp [layerToIndex]
  have hstep : findInBottom words (ofTickIndex t) lower c₀ = fun r c =>
      match foundInBottom words (offsetIndex t) lower (c₀ * 128 + c) with
      | none => r
      | some x => keepClosest lower r x := by
    funext r c
    exact findInBottom_eq words t lower c₀ r c
  rw [← foldl_filterMap_eq, ← hstep]
  unfold findInMiddle
  rw [hidx]
  rfl

/-- The nested loops keep the closest of the ticks they come across. -/
theorem findClosest_eq {words : BitmapWords} {t : ℤ} (ht : InBounds t) (lower : Bool) :
    findClosest words t lower =
      ((foundOffsets words (offsetIndex t) lower).foldl (keepClosest lower) none).bind
        fun o => (fromOffsetIndex o).toOption := by
  have hstep : findInMiddle words (ofTickIndex t) lower = fun r c₀ =>
      ((findClosestActiveBitCandidates (words .middle c₀)
        (startBit c₀ (offsetIndex t / 128)) lower).filterMap
          fun c₁ => foundInBottom words (offsetIndex t) lower (c₀ * 128 + c₁)).foldl
        (keepClosest lower) r := by
    funext r c₀
    exact findInMiddle_eq words t lower r c₀
  unfold findClosest foundOffsets
  rw [if_neg (not_outside ht), List.foldl_flatMap, ← hstep]
  show (match List.foldl (findInMiddle words (ofTickIndex t) lower) none
    (findClosestActiveBitCandidates (words .top (offsetIndex t / 128 / 128 / 128))
      (offsetIndex t / 128 / 128 % 128) lower) with
    | none => none
    | some o => (fromOffsetIndex o).toOption) = _
  cases List.foldl (findInMiddle words (ofTickIndex t) lower) none
    (findClosestActiveBitCandidates (words .top (offsetIndex t / 128 / 128 / 128))
      (offsetIndex t / 128 / 128 % 128) lower) with
  | none => rfl
  | some o => rfl

theorem foldl_keepClosest {lower : Bool} {m : ℕ} : ∀ (l : List ℕ) (r : Option ℕ),
    (∀ x ∈ l, Reach lower x m) → (∀ x ∈ r, Reach lower x m) → (m ∈ l ∨ r = some m) →
    l.foldl (keepClosest lower) r = some m
  | [], r, _, _, h => by simpa using h
  | x :: l, r, hl, hr, h => by
      rw [List.foldl_cons]
      have hx := hl x List.mem_cons_self
      have hl' : ∀ y ∈ l, Reach lower y m := fun y hy => hl y (List.mem_cons_of_mem x hy)
      have hkeep : (∀ y ∈ keepClosest lower r x, Reach lower y m) ∧
          (x = m ∨ r = some m → keepClosest lower r x = some m) := by
        cases r with
        | none =>
            refine ⟨fun y hy => ?_, fun h => ?_⟩
            · obtain rfl := Option.mem_some_iff.mp hy
              exact hx
            · simpa [keepClosest] using h
        | some y =>
            have hy := hr y rfl
            cases lower
            · simp only [Reach, keepClosest, Bool.false_eq_true, if_false, Option.some.injEq] at *
              split
              · simp
                omega
              · simp
                omega
            · simp only [Reach, keepClosest, if_true, Option.some.injEq] at *
              split
              · simp
                omega
              · simp
                omega
      apply foldl_keepClosest l _ hl' hkeep.1
      rcases h with h | h
      · rcases List.mem_cons.mp h with rfl | h
        · exact Or.inr (hkeep.2 (Or.inl rfl))
        · exact Or.inl h
      · exact Or.inr (hkeep.2 (Or.inr h))

section Search

variable {words : BitmapWords} {S : Set ℤ} {lower : Bool} {t : ℤ}

theorem offsetIndex_lt (ht : InBounds t) : offsetIndex t / 128 / 128 / 128 = 0 := by
  rw [inBounds_iff] at ht
  rw [offsetIndex_eq]
  omega

theorem startBit_self (k : ℕ) : startBit (k / 128) k = k % 128 := by
  simp [startBit, startFromBit]

/-- Every tick that the loops come across is active and lies in the
direction of the search. -/
theorem foundOffsets_sound (h : BitmapExact words S) (ht : InBounds t) {x : ℕ}
    (hx : x ∈ foundOffsets words (offsetIndex t) lower) :
    x ∈ offsets S ∧ Reach lower x (offsetIndex t) := by
  obtain ⟨k, hk⟩ : ∃ k, k = offsetIndex t := ⟨_, rfl⟩
  have h0 : k / 128 / 128 / 128 = 0 := hk ▸ offsetIndex_lt ht
  rw [← hk] at hx ⊢
  unfold foundOffsets at hx
  rw [List.mem_flatMap] at hx
  obtain ⟨c₀, hc₀, hx⟩ := hx
  rw [← startBit_self] at hc₀
  obtain ⟨-, -, hr₀⟩ := candidates_sound h.top reach_rfl hc₀
  rw [h0, Nat.zero_mul, Nat.zero_add] at hr₀
  rw [List.mem_filterMap] at hx
  obtain ⟨c₁, hc₁, hx⟩ := hx
  obtain ⟨-, -, hr₁⟩ := candidates_sound h.middle hr₀ hc₁
  unfold foundInBottom at hx
  rw [Option.map_eq_some_iff] at hx
  obtain ⟨c₂, hc₂, rfl⟩ := hx
  obtain ⟨-, hmem, hr₂⟩ := candidates_sound h.bottom hr₁ (List.mem_of_mem_head? hc₂)
  exact ⟨hmem, hr₂⟩

/-- The closest tick is among those that the loops come across. -/
theorem foundOffsets_complete (h : BitmapExact words S) (ht : InBounds t) {m : ℕ}
    (hm : Closest lower (offsets S) (offsetIndex t) m) :
    m ∈ foundOffsets words (offsetIndex t) lower := by
  obtain ⟨k, hk⟩ : ∃ k, k = offsetIndex t := ⟨_, rfl⟩
  have h0 : k / 128 / 128 / 128 = 0 := hk ▸ offsetIndex_lt ht
  rw [← hk] at hm ⊢
  have hcand₁ := hm.candidate.coarsen
  have hcand₀ := hcand₁.coarsen
  have htop := candidates_complete h.top hcand₀
  have hm0 : m / 128 / 128 / 128 = 0 := by
    obtain ⟨⟨s, -, hs, rfl⟩, -⟩ := hm
    exact offsetIndex_lt hs
  have hm0' : m / 128 / 128 % 128 = m / 128 / 128 := by omega
  unfold foundOffsets
  rw [List.mem_flatMap]
  refine ⟨m / 128 / 128, ?_, ?_⟩
  · rw [hm0, hm0'] at htop
    rw [h0]
    convert htop using 2
    simp [startBit, startFromBit, h0]
  · rw [List.mem_filterMap]
    refine ⟨m / 128 % 128, candidates_complete h.middle hcand₁, ?_⟩
    have hidx : m / 128 / 128 * 128 + m / 128 % 128 = m / 128 := Nat.div_add_mod' _ _
    rw [hidx, foundInBottom, candidates_head h.bottom hm, Option.map_some, Nat.div_add_mod']

theorem fromOffsetIndex_offsetIndex (ht : InBounds t) :
    (fromOffsetIndex (offsetIndex t)).toOption = some t := by
  have hback : ((offsetIndex t : ℕ) : ℤ) - TickIndex.OFFSET = t := by
    rw [inBounds_iff] at ht
    rw [offsetIndex_eq, show TickIndex.OFFSET = 887272 from rfl]
    omega
  rw [fromOffsetIndex, hback, TickIndex.new, if_neg (not_not.mpr ⟨ht.1, ht.2⟩)]
  rfl

theorem exists_closest (k : ℕ) (hex : ∃ x ∈ offsets S, Reach lower x k) :
    ∃ m, Closest lower (offsets S) k m := by
  classical
  obtain ⟨x, hx, hxk⟩ := hex
  cases lower
  · let P : ℕ → Prop := fun y => y ∈ offsets S ∧ k ≤ y
    have hP : ∃ y, P y := ⟨x, hx, hxk⟩
    exact ⟨Nat.find hP, (Nat.find_spec hP).1, (Nat.find_spec hP).2,
      fun y hy hyk => Nat.find_min' hP ⟨hy, hyk⟩⟩
  · have hle : x ≤ k := hxk
    exact ⟨Nat.findGreatest (· ∈ offsets S) k, Nat.findGreatest_spec hle hx,
      Nat.findGreatest_le k, fun y hy hyk => Nat.le_findGreatest hyk hy⟩

/-- **The search finds the closest tick**: the offset of its result is the
closest active offset, and it finds nothing only if there is none. -/
theorem findClosest_spec (h : BitmapExact words S) (ht : InBounds t) (lower : Bool) :
    (∃ s ∈ S, InBounds s ∧ findClosest words t lower = some s ∧
      Closest lower (offsets S) (offsetIndex t) (offsetIndex s)) ∨
    (findClosest words t lower = none ∧
      ∀ s ∈ S, InBounds s → ¬Reach lower (offsetIndex s) (offsetIndex t)) := by
  rw [findClosest_eq ht]
  by_cases hex : ∃ x ∈ offsets S, Reach lower x (offsetIndex t)
  · left
    obtain ⟨m, hm⟩ := exists_closest _ hex
    have hfold : (foundOffsets words (offsetIndex t) lower).foldl (keepClosest lower) none =
        some m :=
      foldl_keepClosest _ none
        (fun x hx => hm.2.2 x (foundOffsets_sound h ht hx).1 (foundOffsets_sound h ht hx).2)
        (by simp) (Or.inl (foundOffsets_complete h ht hm))
    obtain ⟨s, hs, hsb, rfl⟩ := hm.1
    refine ⟨s, hs, hsb, ?_, hm⟩
    rw [hfold, Option.bind_some, fromOffsetIndex_offsetIndex hsb]
  · right
    have hnil : foundOffsets words (offsetIndex t) lower = [] := by
      rw [List.eq_nil_iff_forall_not_mem]
      intro x hx
      exact hex ⟨x, foundOffsets_sound h ht hx⟩
    refine ⟨by rw [hnil]; rfl, fun s hs hsb hr => hex ⟨_, ⟨s, hs, hsb, rfl⟩, hr⟩⟩

theorem reach_offsetIndex {s t : ℤ} (hs : InBounds s) (ht : InBounds t) :
    Reach lower (offsetIndex s) (offsetIndex t) ↔ if lower then s ≤ t else t ≤ s := by
  rw [inBounds_iff] at hs ht
  rw [offsetIndex_eq, offsetIndex_eq]
  cases lower
  · simp only [Reach, Bool.false_eq_true, if_false]
    omega
  · simp only [Reach, if_true]
    omega

/-- What `find_closest_lower` returns: the greatest active tick up to `t`. -/
theorem findClosestLower_spec (h : BitmapExact words S) (hS : ∀ s ∈ S, InBounds s)
    (ht : InBounds t) :
    (∃ s ∈ S, findClosestLower words t = some s ∧ s ≤ t ∧ ∀ u ∈ S, u ≤ t → u ≤ s) ∨
    (findClosestLower words t = none ∧ ∀ s ∈ S, ¬s ≤ t) := by
  rcases findClosest_spec h ht true with ⟨s, hs, hsb, heq, -, hr, hbest⟩ | ⟨heq, hnone⟩
  · refine Or.inl ⟨s, hs, heq, (reach_offsetIndex hsb ht).mp hr, fun u hu hut => ?_⟩
    have hub := hS u hu
    exact (reach_offsetIndex hub hsb).mp
      (hbest _ ⟨u, hu, hub, rfl⟩ ((reach_offsetIndex hub ht).mpr hut))
  · refine Or.inr ⟨heq, fun s hs hst => ?_⟩
    exact hnone s hs (hS s hs) ((reach_offsetIndex (hS s hs) ht).mpr hst)

/-- What `find_closest_higher` returns: the least active tick from `t` on. -/
theorem findClosestHigher_spec (h : BitmapExact words S) (hS : ∀ s ∈ S, InBounds s)
    (ht : InBounds t) :
    (∃ s ∈ S, findClosestHigher words t = some s ∧ t ≤ s ∧ ∀ u ∈ S, t ≤ u → s ≤ u) ∨
    (findClosestHigher words t = none ∧ ∀ s ∈ S, ¬t ≤ s) := by
  rcases findClosest_spec h ht false with ⟨s, hs, hsb, heq, -, hr, hbest⟩ | ⟨heq, hnone⟩
  · refine Or.inl ⟨s, hs, heq, (reach_offsetIndex hsb ht).mp hr, fun u hu hut => ?_⟩
    have hub := hS u hu
    exact (reach_offsetIndex hub hsb).mp
      (hbest _ ⟨u, hu, hub, rfl⟩ ((reach_offsetIndex hub ht).mpr hut))
  · refine Or.inr ⟨heq, fun s hs hst => ?_⟩
    exact hnone s hs (hS s hs) ((reach_offsetIndex (hS s hs) ht).mpr hst)

/-- Below the greatest tick, `tick_is_active` is exact. -/
theorem tickIsActive_iff (h : BitmapExact words S) (hS : ∀ s ∈ S, InBounds s)
    (ht : InBounds t) (hmax : t < TickIndex.MAX) : tickIsActive words t = true ↔ t ∈ S := by
  unfold tickIsActive
  rw [decide_eq_true_eq]
  rcases findClosestLower_spec h hS ht with ⟨s, hs, heq, hst, hbest⟩ | ⟨heq, hnone⟩
  · rw [heq, Option.getD_some]
    exact ⟨fun hc => hc ▸ hs, fun hc => le_antisymm hst (hbest t hc le_rfl)⟩
  · rw [heq, Option.getD_none]
    exact ⟨fun hc => absurd hc hmax.ne', fun hc => absurd le_rfl (hnone t hc)⟩

end Search

end Subtensor.Swap
