import Subtensor.SharePool.SingleUpdate

/-!
# Runs in which nothing saturates

From the empty pool, as long as nothing saturates or overflows, the shares of
all keys are the denominator and the shared value is a whole number. An update
of one key then returns by how much the shared value moved, moves the key's
value by it, and leaves the values of the other keys in place, up to rounding.
-/

namespace Subtensor.SharePool

open Lib Lib.Run

variable {S K : Type} {ops : SharePoolDataOperations S K}

/-- Nothing saturates or overflows in an update. -/
def NothingSaturates (ops : SharePoolDataOperations S K) (s : S) : Update K → Prop
  | .one key update =>
      OneFits (ops.getSharedValue s) (ops.getDenominator s) (ops.getShare s key) update
  | .all update =>
      update.val ≠ -2 ^ 63 ∧ 0 ≤ ((ops.getSharedValue s).bits : ℤ) + update.val * 2 ^ 64 ∧
        ((ops.getSharedValue s).bits : ℤ) + update.val * 2 ^ 64 < 2 ^ 128

instance (s : S) : DecidablePred (NothingSaturates ops s)
  | .one _ _ => inferInstanceAs (Decidable (OneFits _ _ _ _))
  | .all _ => inferInstanceAs (Decidable (_ ∧ _ ∧ _))

/-- The shares of all keys are the denominator, and the shared value is a whole
number. -/
structure Accounted (ops : SharePoolDataOperations S K) (s : S) : Prop where
  shared : Shared (ops.getShare s) (ops.getDenominator s)
  whole : ∃ value : U64, ops.getSharedValue s = .ofNat value.val

variable [DecidableEq K]

/-- A shared value that is a whole number is read back as it was written, and no
other operation changes it. -/
structure SharePoolDataOperations.Faithful (ops : SharePoolDataOperations S K) :
    Prop extends ops.Lawful where
  sharedValue_setSharedValue : ∀ s (value : U64),
    ops.getSharedValue (ops.setSharedValue s (.ofNat value.val)) = .ofNat value.val
  sharedValue_setShare : ∀ s key share,
    ops.getSharedValue (ops.setShare s key share) = ops.getSharedValue s
  sharedValue_setDenominator : ∀ s value,
    ops.getSharedValue (ops.setDenominator s value) = ops.getSharedValue s

theorem mock_faithful : mock.Faithful where
  toLawful := mock_lawful
  sharedValue_setSharedValue _ _ := rfl
  sharedValue_setShare _ _ _ := rfl
  sharedValue_setDenominator _ _ := rfl

theorem mock_empty : Empty mock .new := ⟨fun _ => rfl, rfl, rfl⟩

/-! ## One update -/

section

variable {s : S} {key : K} {update : I64} {value : U64}

omit [DecidableEq K] in
theorem NothingSaturates.not_saturates {i : Update K} (h : NothingSaturates ops s i) :
    ¬Saturates ops s i := by
  cases i with
  | one key update => exact fun hsaturates => absurd h.denominatorFits (not_lt.mpr hsaturates.2)
  | all update => exact id

/-- What is read before and after an update of one key's value: the shared
value goes from `value` to `value'`. -/
structure OneReads (ops : SharePoolDataOperations S K) (s : S) (key : K) (update : I64)
    (value value' : U64) : Prop where
  fits : OneFits (.ofNat value.val) (ops.getDenominator s) (ops.getShare s key) update
  before : ops.getSharedValue s = .ofNat value.val
  after : ops.getSharedValue (updateValueForOne ops s key update).1 = .ofNat value'.val
  moved : (value'.val : ℤ) = value.val + (updateValueForOne ops s key update).2.val
  actualUpdate : (updateValueForOne ops s key update).2 = (shareUpdate (.ofNat value.val)
    (ops.getDenominator s) (ops.getShare s key) update).actualUpdate
  denominator : ops.getDenominator (updateValueForOne ops s key update).1 =
    (shareUpdate (.ofNat value.val) (ops.getDenominator s) (ops.getShare s key)
      update).denominator
  share : ops.getShare (updateValueForOne ops s key update).1 =
    Function.update (ops.getShare s) key (shareUpdate (.ofNat value.val)
      (ops.getDenominator s) (ops.getShare s key) update).share

theorem Accounted.oneReads (hops : ops.Faithful) (h : Accounted ops s)
    (hfits : NothingSaturates ops s (.one key update)) :
    ∃ value value', OneReads ops s key update value value' := by
  rcases h.whole with ⟨value, hvalue⟩
  have hone : OneFits (.ofNat value.val) (ops.getDenominator s) (ops.getShare s key) update :=
    hvalue ▸ hfits
  rcases addUpdate_actualUpdate hone (h.shared.share_le key) with ⟨value', hvalue', hmoved⟩
  have hafter : (updateValueForOne ops s key update).1 = ops.setSharedValue
      (ops.setShare (ops.setDenominator s (shareUpdate (.ofNat value.val) (ops.getDenominator s)
        (ops.getShare s key) update).denominator) key (shareUpdate (.ofNat value.val)
        (ops.getDenominator s) (ops.getShare s key) update).share) (.ofNat value'.val) := by
    show ops.setSharedValue _ (addUpdate (ops.getSharedValue (ops.setShare _ key _)) _) = _
    rw [hops.sharedValue_setShare, hops.sharedValue_setDenominator, ← hvalue', hvalue]
  have hactual : (updateValueForOne ops s key update).2 = (shareUpdate (.ofNat value.val)
      (ops.getDenominator s) (ops.getShare s key) update).actualUpdate := by
    rw [← hvalue]
    rfl
  refine ⟨value, value', hone, hvalue, ?_, ?_, hactual, ?_, ?_⟩
  · rw [hafter]
    exact hops.sharedValue_setSharedValue _ value'
  · rw [hactual]
    exact hmoved
  · rw [hafter, hops.denominator_setSharedValue, hops.denominator_setShare,
      hops.denominator_setDenominator]
  · rw [hafter, hops.share_setSharedValue, hops.share_setShare, hops.share_setDenominator]

section

variable {value value' : U64} (h : OneReads ops s key update value value')
include h

theorem OneReads.getValue_before (other : K) : getValue ops s other =
    valueFromShares (.ofNat value.val) (ops.getDenominator s) (ops.getShare s other) := by
  unfold getValue
  rw [h.before]

theorem OneReads.getValue_self : getValue ops (updateValueForOne ops s key update).1 key =
    valueFromShares (.ofNat value'.val)
      (shareUpdate (.ofNat value.val) (ops.getDenominator s) (ops.getShare s key)
        update).denominator
      (shareUpdate (.ofNat value.val) (ops.getDenominator s) (ops.getShare s key)
        update).share := by
  unfold getValue
  rw [h.after, h.denominator, h.share, Function.update_self]

theorem OneReads.getValue_of_ne {other : K} (hne : other ≠ key) :
    getValue ops (updateValueForOne ops s key update).1 other =
      valueFromShares (.ofNat value'.val)
        (shareUpdate (.ofNat value.val) (ops.getDenominator s) (ops.getShare s key)
          update).denominator (ops.getShare s other) := by
  unfold getValue
  rw [h.after, h.denominator, h.share, Function.update_of_ne hne]

end

theorem updateValueForAll_whole (hops : ops.Faithful) (h : Accounted ops s)
    (hfits : NothingSaturates ops s (.all update)) :
    ∃ value : U64, ops.getSharedValue (updateValueForAll ops s update) = .ofNat value.val := by
  rcases h.whole with ⟨value, hvalue⟩
  rcases hfits with ⟨hleast, hnonneg, hlt⟩
  rw [hvalue, bits_ofNat_word] at hnonneg hlt
  rcases @addUpdate_ofNat value update hleast (by omega) (by omega) with ⟨value', hvalue', -⟩
  refine ⟨value', ?_⟩
  unfold updateValueForAll
  rw [hvalue, hvalue']
  exact hops.sharedValue_setSharedValue s value'

theorem Accounted.apply (hops : ops.Faithful) (i : Update K) (h : Accounted ops s)
    (hfits : NothingSaturates ops s i) : Accounted ops (apply ops s i) := by
  refine ⟨h.shared.apply hops.toLawful i hfits.not_saturates, ?_⟩
  cases i with
  | one key update =>
      rcases h.oneReads hops hfits with ⟨_, value', hreads⟩
      exact ⟨value', hreads.after⟩
  | all update => exact updateValueForAll_whole hops h hfits

omit [DecidableEq K] in
theorem Empty.accounted (h : Empty ops s) : Accounted ops s :=
  ⟨h.shared, 0, h.sharedValue⟩

theorem Accounted.run (hops : ops.Faithful) (h : Empty ops s) (updates : List (Update K))
    (hfits : AllInputs (SharePool.apply ops) (NothingSaturates ops) s updates) :
    Accounted ops (updates.foldl (SharePool.apply ops) s) :=
  (hfits.allStates (fun _ i h hfits => h.apply hops i hfits) h.accounted).foldl

end

/-! ## Exactness -/

/-- What is exact in an update of one key's value. The value of the key moves by
the actual update up to one unit, unless value is added and the value of one
share is not a number of the format. -/
structure OneExact (ops : SharePoolDataOperations S K) (s : S) (key : K) (update : I64) :
    Prop where
  sharedValue : ((ops.getSharedValue (updateValueForOne ops s key update).1).bits : ℤ) =
    (ops.getSharedValue s).bits + (updateValueForOne ops s key update).2.val * 2 ^ 64
  added : 0 ≤ update.val → (updateValueForOne ops s key update).2 = update
  removed : update.val < 0 →
    -((getValue ops s key).val : ℤ) ≤ (updateValueForOne ops s key update).2.val ∧
      ((updateValueForOne ops s key update).2 = update ∨
        (updateValueForOne ops s key update).2.val = -((getValue ops s key).val : ℤ) ∧
          ops.getShare (updateValueForOne ops s key update).1 key = 0)
  value : update.val < 0 ∨ (ops.getSharedValue s).checkedDiv (ops.getDenominator s) ≠ none →
    |((getValue ops (updateValueForOne ops s key update).1 key).val : ℤ) -
      ((getValue ops s key).val + (updateValueForOne ops s key update).2.val)| ≤ 1

section

variable {s : S} {key : K} {update : I64}

theorem Accounted.oneExact (hops : ops.Faithful) (h : Accounted ops s)
    (hfits : NothingSaturates ops s (.one key update)) : OneExact ops s key update := by
  rcases h.oneReads hops hfits with ⟨value, value', hreads⟩
  have hle := h.shared.share_le key
  have hmoved := hreads.moved
  rw [hreads.actualUpdate] at hmoved
  refine ⟨?_, fun hsign => ?_, fun hsign => ?_, ?_⟩
  · rw [hreads.after, hreads.before, bits_ofNat_word, bits_ofNat_word]
    push_cast
    rw [← add_mul, ← hreads.moved]
  · rw [hreads.actualUpdate]
    exact actualUpdate_of_nonneg hsign
  · rcases actualUpdate_withdraw hreads.fits hle hsign with ⟨hcases, hbound⟩
    rw [hreads.share, Function.update_self, hreads.getValue_before, hreads.actualUpdate]
    exact ⟨hbound, hcases⟩
  · rw [hreads.getValue_self, hreads.getValue_before, hreads.actualUpdate, hreads.before]
    intro hcase
    rcases lt_or_ge update.val 0 with hsign | hsign
    · exact withdraw_value hreads.fits hle hsign hmoved
    · rcases hcase with hlt | hsome
      · exact absurd hlt (not_lt.mpr hsign)
      · rcases Option.ne_none_iff_exists'.mp hsome with ⟨valuePerShare, hsome⟩
        rw [actualUpdate_of_nonneg hsign] at hmoved ⊢
        exact deposit_value hreads.fits hsome hle hsign hmoved

end

/-- By how much an update of one key's value moves the values of the other keys,
and how much it adds to the key's. The first key gets all. -/
structure Undiluted (ops : SharePoolDataOperations S K) (s : S) (key : K) (update : I64) :
    Prop where
  others : ∀ other ≠ key,
    |((getValue ops (updateValueForOne ops s key update).1 other).val : ℤ) -
      (getValue ops s other).val| ≤ 2
  own : 0 < update.val → (ops.getDenominator s).bits ≠ 0 →
    ((getValue ops (updateValueForOne ops s key update).1 key).val : ℤ) ≤
      (getValue ops s key).val + update.val + 1

theorem Shared.add_le {shares : K → U64F64} {denominator : U64F64} (h : Shared shares denominator)
    {key other : K} (hne : other ≠ key) :
    (shares other).bits + (shares key).bits ≤ denominator.bits := by
  have hle := h.share_le key
  have hchange : (0 : U64F64).bits + denominator.bits =
      (denominator.satSub (shares key)).bits + (shares key).bits := by
    rw [UFixed.bits_zero, UFixed.bits_satSub]
    omega
  have hrest := (h.update hchange).share_le other
  rw [Function.update_of_ne hne, UFixed.bits_satSub] at hrest
  omega

theorem Accounted.undiluted (hops : ops.Faithful) {s : S} (h : Accounted ops s) {key : K}
    {update : I64} (hfits : NothingSaturates ops s (.one key update))
    (hprice : (ops.getDenominator s).bits ≠ 0 →
      (ops.getSharedValue s).checkedDiv (ops.getDenominator s) ≠ none) :
    Undiluted ops s key update := by
  rcases h.oneReads hops hfits with ⟨value, value', hreads⟩
  have hmoved := hreads.moved
  rw [hreads.actualUpdate] at hmoved
  rw [hreads.before] at hprice
  refine ⟨fun other hne => ?_, fun hsign hpos => ?_⟩
  · have hboth := h.shared.add_le hne
    rw [hreads.getValue_of_ne hne, hreads.getValue_before, abs_le]
    by_cases hzero : (ops.getDenominator s).bits = 0
    · have hnone : ops.getShare s other = 0 := UFixed.ext (by rw [UFixed.bits_zero]; omega)
      rw [hnone, valueFromShares_zero, valueFromShares_zero]
      exact ⟨by norm_num, by norm_num⟩
    rcases Option.ne_none_iff_exists'.mp (hprice hzero) with ⟨valuePerShare, hsome⟩
    rcases lt_or_ge update.val 0 with hsign | hsign
    · rcases withdraw_other hreads.fits hsome hboth hsign hmoved with ⟨hleast, hmost⟩
      exact ⟨by omega, by omega⟩
    · rw [actualUpdate_of_nonneg hsign] at hmoved
      rcases deposit_other hreads.fits hsome (h.shared.share_le key) (h.shared.share_le other)
          hsign hmoved with
        ⟨hleast, hmost⟩
      exact ⟨by omega, by omega⟩
  · rcases Option.ne_none_iff_exists'.mp (hprice hpos) with ⟨valuePerShare, hsome⟩
    rw [actualUpdate_of_nonneg hsign.le] at hmoved
    have hvalue := (abs_le.mp (deposit_value hreads.fits hsome (h.shared.share_le key) hsign.le
      hmoved)).2
    rw [hreads.getValue_self, hreads.getValue_before]
    omega

/-- **No dilution.** In every run from the empty pool in which nothing saturates
or overflows, and where the value of one share is a number of the format. -/
theorem updateValueForOne_undiluted (hops : ops.Faithful) {s : S} (hempty : Empty ops s)
    (updates : List (Update K)) (key : K) (update : I64)
    (hrun : AllInputs (apply ops) (NothingSaturates ops) s updates)
    (hfits : NothingSaturates ops (updates.foldl (apply ops) s) (.one key update))
    (hprice : (ops.getDenominator (updates.foldl (apply ops) s)).bits ≠ 0 →
      (ops.getSharedValue (updates.foldl (apply ops) s)).checkedDiv
        (ops.getDenominator (updates.foldl (apply ops) s)) ≠ none) :
    Undiluted ops (updates.foldl (apply ops) s) key update :=
  (Accounted.run hops hempty updates hrun).undiluted hops hfits hprice

theorem updateValueForOne_undiluted_mock : Undiluted mock
    ([.one (.wrap 2) (.sat 3), .one (.wrap 1) (.sat 6), .all (.sat 15)].foldl (apply mock) .new)
    (.wrap 1) (.sat (-16)) :=
  updateValueForOne_undiluted mock_faithful mock_empty _ _ _ (by decide +kernel)
    (by decide +kernel) (by decide +kernel)

/-- The value of a key after some updates of a pool in memory. -/
def valueAfter (updates : List (Update (Word 16))) (key : Word 16) : ℕ :=
  (getValue mock (updates.foldl (apply mock) .new) key).val

/-- Rounding moves the value of another key by two, and adds one to a deposit;
the first key also gets what was shared before; where the value of one share does not
fit the signed format, a deposit takes value from the other keys; and where it is zero,
a deposit buys no shares and goes to all keys. -/
theorem updateValueForOne_dilutes :
    (valueAfter [.one (.wrap 2) (.sat 3), .one (.wrap 1) (.sat 6), .all (.sat 15)]
        (.wrap 2) = 7 ∧
      valueAfter [.one (.wrap 2) (.sat 3), .one (.wrap 1) (.sat 6), .all (.sat 15),
        .one (.wrap 1) (.sat (-16))] (.wrap 2) = 9) ∧
    (valueAfter [.one (.wrap 1) (.sat 805306368), .one (.wrap 2) (.sat 67914170371),
        .all (.sat 68658392759648)] (.wrap 1) = 805395846484 ∧
      valueAfter [.one (.wrap 1) (.sat 805306368), .one (.wrap 2) (.sat 67914170371),
        .all (.sat 68658392759648), .one (.wrap 1) (.sat 1)] (.wrap 1) = 805395846486) ∧
    (valueAfter [.all (.sat 5)] (.wrap 1) = 0 ∧
      valueAfter [.all (.sat 5), .one (.wrap 1) (.sat 1)] (.wrap 1) = 6) ∧
    (valueAfter [.one (.wrap 1) (.sat 1), .all (.sat (2 ^ 63 - 1)), .all (.sat (2 ^ 62))]
        (.wrap 1) = 13835058055282163712 ∧
      valueAfter [.one (.wrap 1) (.sat 1), .all (.sat (2 ^ 63 - 1)), .all (.sat (2 ^ 62)),
        .one (.wrap 2) (.sat (2 ^ 61))] (.wrap 1) = 12912720851596686131) ∧
    (valueAfter [.one (.wrap 1) (.sat 10), .one (.wrap 2) (.sat 10), .all (.sat (-20))]
        (.wrap 2) = 0 ∧
      valueAfter [.one (.wrap 1) (.sat 10), .one (.wrap 2) (.sat 10), .all (.sat (-20)),
        .one (.wrap 1) (.sat 10)] (.wrap 2) = 5) := by
  decide +kernel

end Subtensor.SharePool
