import Mathlib.Order.Bounds.Basic
import Subtensor.Pallet.Types
import Subtensor.Swap.BitmapExact

/-!
# Searching after any insertions and removals

The words of all subnets lie in one storage map. Whatever was inserted and
removed on them, in any order, the search on a subnet sees the ticks of that
subnet, as a set has them after the same insertions and removals.
-/

namespace Subtensor.Swap

open Subtensor.Lib ActiveTickIndexManager

/-- A tick index from `TickIndex::MIN` to `TickIndex::MAX`. -/
abbrev BoundedTick := {t : ℤ // InBounds t}

/-- A change of the index of active ticks. -/
inductive TickOp where
  | insert (tick : BoundedTick)
  | remove (tick : BoundedTick)

namespace TickOp

def onWords : TickOp → BitmapWords → BitmapWords
  | .insert tick, words => ActiveTickIndexManager.insert words tick
  | .remove tick, words => ActiveTickIndexManager.remove words tick

/-- The same change of a set. -/
def onSet : TickOp → Set ℤ → Set ℤ
  | .insert tick, S => Insert.insert tick.val S
  | .remove tick, S => S \ {tick.val}

end TickOp

/-- `TickIndexBitmapWords` after a sequence of changes, from empty words. -/
def wordsAfter (ops : List (NetUid × TickOp)) : NetUid → BitmapWords :=
  ops.foldl (fun words op => Function.update words op.1 (op.2.onWords (words op.1)))
    fun _ _ _ => 0

/-- The active ticks of every subnet after a sequence of changes. -/
def activeAfter (ops : List (NetUid × TickOp)) : NetUid → Set ℤ :=
  ops.foldl (fun active op => Function.update active op.1 (op.2.onSet (active op.1))) fun _ => ∅

theorem wordsAfter_append (ops : List (NetUid × TickOp)) (op : NetUid × TickOp) :
    wordsAfter (ops ++ [op]) =
      Function.update (wordsAfter ops) op.1 (op.2.onWords (wordsAfter ops op.1)) :=
  List.foldl_append

theorem activeAfter_append (ops : List (NetUid × TickOp)) (op : NetUid × TickOp) :
    activeAfter (ops ++ [op]) =
      Function.update (activeAfter ops) op.1 (op.2.onSet (activeAfter ops op.1)) :=
  List.foldl_append

/-- The words are exact, and only ticks in bounds are active. -/
structure Indexed (words : BitmapWords) (S : Set ℤ) : Prop where
  exact : BitmapExact words S
  inBounds : ∀ s ∈ S, InBounds s

theorem Indexed.onWords {words : BitmapWords} {S : Set ℤ} (h : Indexed words S) (op : TickOp) :
    Indexed (op.onWords words) (op.onSet S) := by
  cases op with
  | insert tick =>
      refine ⟨h.exact.insert tick.property, ?_⟩
      rintro s (rfl | hs)
      · exact tick.property
      · exact h.inBounds s hs
  | remove tick =>
      refine ⟨h.exact.remove tick.property, ?_⟩
      rintro s ⟨hs, -⟩
      exact h.inBounds s hs

theorem indexed_after (ops : List (NetUid × TickOp)) (netuid : NetUid) :
    Indexed (wordsAfter ops netuid) (activeAfter ops netuid) := by
  induction ops using List.reverseRecOn with
  | nil =>
      refine ⟨bitmapExact_empty, ?_⟩
      rintro s ⟨⟩
  | append_singleton ops op ih =>
      rw [wordsAfter_append, activeAfter_append]
      by_cases heq : netuid = op.1
      · subst heq
        rw [Function.update_self, Function.update_self]
        exact ih.onWords op.2
      · rw [Function.update_of_ne heq, Function.update_of_ne heq]
        exact ih

theorem Indexed.findClosestLower_iff {words : BitmapWords} {S : Set ℤ} (h : Indexed words S)
    {q : ℤ} (hq : InBounds q) (t : ℤ) :
    findClosestLower words q = some t ↔ IsGreatest {s ∈ S | s ≤ q} t := by
  rcases findClosestLower_spec h.exact h.inBounds hq with ⟨s, hs, heq, hsq, hbest⟩ | ⟨heq, hnone⟩
  · have hgreatest : IsGreatest {s ∈ S | s ≤ q} s := by
      refine ⟨⟨hs, hsq⟩, ?_⟩
      rintro u ⟨hu, huq⟩
      exact hbest u hu huq
    rw [heq, Option.some_inj]
    constructor
    · rintro rfl
      exact hgreatest
    · intro ht
      exact hgreatest.unique ht
  · rw [heq]
    constructor
    · rintro ⟨⟩
    · rintro ⟨⟨ht, htq⟩, -⟩
      exact absurd htq (hnone t ht)

theorem Indexed.findClosestHigher_iff {words : BitmapWords} {S : Set ℤ} (h : Indexed words S)
    {q : ℤ} (hq : InBounds q) (t : ℤ) :
    findClosestHigher words q = some t ↔ IsLeast {s ∈ S | q ≤ s} t := by
  rcases findClosestHigher_spec h.exact h.inBounds hq with ⟨s, hs, heq, hqs, hbest⟩ | ⟨heq, hnone⟩
  · have hleast : IsLeast {s ∈ S | q ≤ s} s := by
      refine ⟨⟨hs, hqs⟩, ?_⟩
      rintro u ⟨hu, hqu⟩
      exact hbest u hu hqu
    rw [heq, Option.some_inj]
    constructor
    · rintro rfl
      exact hleast
    · intro ht
      exact hleast.unique ht
  · rw [heq]
    constructor
    · rintro ⟨⟩
    · rintro ⟨⟨ht, hqt⟩, -⟩
      exact absurd hqt (hnone t ht)

theorem Indexed.findClosestLower_none {words : BitmapWords} {S : Set ℤ} (h : Indexed words S)
    {q : ℤ} (hq : InBounds q) : findClosestLower words q = none ↔ ∀ s ∈ S, ¬s ≤ q := by
  rcases findClosestLower_spec h.exact h.inBounds hq with ⟨s, hs, heq, hsq, -⟩ | ⟨heq, hnone⟩
  · rw [heq]
    exact ⟨fun hc => (Option.some_ne_none s hc).elim, fun hno => absurd hsq (hno s hs)⟩
  · exact ⟨fun _ => hnone, fun _ => heq⟩

theorem Indexed.findClosestHigher_none {words : BitmapWords} {S : Set ℤ} (h : Indexed words S)
    {q : ℤ} (hq : InBounds q) : findClosestHigher words q = none ↔ ∀ s ∈ S, ¬q ≤ s := by
  rcases findClosestHigher_spec h.exact h.inBounds hq with ⟨s, hs, heq, hqs, -⟩ | ⟨heq, hnone⟩
  · rw [heq]
    exact ⟨fun hc => (Option.some_ne_none s hc).elim, fun hno => absurd hqs (hno s hs)⟩
  · exact ⟨fun _ => hnone, fun _ => heq⟩

/-- **The search is exact.** It finds the greatest active tick up to the one
that is asked for and the least one from it on, and nothing if there is none. -/
theorem findClosest_exact (ops : List (NetUid × TickOp)) (netuid : NetUid) (q : BoundedTick) :
    (∀ t, findClosestLower (wordsAfter ops netuid) q = some t ↔
      IsGreatest {s ∈ activeAfter ops netuid | s ≤ q} t) ∧
    (findClosestLower (wordsAfter ops netuid) q = none ↔
      ∀ s ∈ activeAfter ops netuid, ¬s ≤ q) ∧
    (∀ t, findClosestHigher (wordsAfter ops netuid) q = some t ↔
      IsLeast {s ∈ activeAfter ops netuid | q ≤ s} t) ∧
    (findClosestHigher (wordsAfter ops netuid) q = none ↔
      ∀ s ∈ activeAfter ops netuid, ¬q ≤ s) := by
  have h := indexed_after ops netuid
  exact ⟨h.findClosestLower_iff q.property, h.findClosestLower_none q.property,
    h.findClosestHigher_iff q.property, h.findClosestHigher_none q.property⟩

end Subtensor.Swap
