import Subtensor.SharePool.ExactRun

/-!
# A withdrawal and a refund

A key withdraws, and some of it is deposited again. Each of the two updates is
rounded by less than one unit; while the shares and their price are less than
half of their range, both together are.
-/

namespace Subtensor.SharePool

open Lib Lib.SharePrice

/-! ## Half a unit -/

section

variable {value value' : U64} {denominator share valuePerShare : U64F64} {update : I64}

/-- A withdrawal that leaves some shares, with fewer than `2 ^ 63` of them. -/
theorem shareUpdate_withdraw_near (h : OneFits (.ofNat value.val) denominator share update)
    (hsome : (UFixed.ofNat value.val : U64F64).checkedDiv denominator = some valuePerShare)
    (hle : share.bits ≤ denominator.bits) (hsign : update.val < 0)
    (hroom : denominator.bits < 2 ^ 127) {denominator' share' : U64F64}
    (hless : tradedShares value denominator update.val.natAbs < share.bits)
    (hdenominator : denominator'.bits =
      denominator.bits - tradedShares value denominator update.val.natAbs)
    (hshare : share'.bits = share.bits - tradedShares value denominator update.val.natAbs)
    (hvalue' : (value'.val : ℤ) = value.val + update.val) :
    price (total value') denominator'.bits * share'.bits + update.val.natAbs * 2 ^ 128 <
        price (total value) denominator.bits * share.bits + 2 ^ 127 ∧
      price (total value) denominator.bits * share.bits <
        price (total value') denominator'.bits * share'.bits + update.val.natAbs * 2 ^ 128 +
          2 ^ 127 := by
  rcases h.shares hsome with ⟨hzero, hlt, -, -⟩
  rcases tradedShares_bounds hzero update.val.natAbs with ⟨hworth, hworth'⟩
  generalize tradedShares value denominator update.val.natAbs = traded at *
  rcases Nat.exists_eq_add_of_le hle with ⟨rest, hrest⟩
  have hsplit : denominator.bits = share'.bits + traded + rest := by omega
  have hleft : denominator'.bits = share'.bits + rest := by omega
  have hown : share.bits = share'.bits + traded := by omega
  have htotal : total value = total value' + update.val.natAbs * 2 ^ 128 := by
    unfold total
    omega
  rw [htotal, hsplit] at hworth hworth' hlt
  rw [htotal, hsplit, hown, hleft]
  -- the price is rounded down after the withdrawal, which only lowers the left side
  constructor
  · refine Nat.lt_of_mul_lt_mul_right (a := share'.bits + rest) (lt_of_le_of_lt ?_
      (withdraw_own_lt (by omega) (by omega) hlt.le hworth'))
    have hold := Nat.mul_le_mul_right share'.bits
      (price_mul_le (total value') (share'.bits + rest))
    rw [Nat.add_mul]
    refine Nat.add_le_add_right (le_trans (le_of_eq ?_) hold) _
    ring
  · exact lt_withdraw_own (by omega) (by omega) hworth

/-- The value after a deposit into a pool that is not empty, with fewer than
`2 ^ 63` shares then. -/
theorem shareUpdate_deposit_near (h : OneFits (.ofNat value.val) denominator share update)
    (hsome : (UFixed.ofNat value.val : U64F64).checkedDiv denominator = some valuePerShare)
    (hle : share.bits ≤ denominator.bits) (hsign : 0 ≤ update.val)
    (hvalue' : (value'.val : ℤ) = value.val + update.val)
    (hroom : (shareUpdate (.ofNat value.val) denominator share update).denominator.bits <
      2 ^ 127) :
    let r := shareUpdate (.ofNat value.val) denominator share update
    let after := (valueFromShares (.ofNat value'.val) r.denominator r.share).val
    after * 2 ^ 128 < price (total value) denominator.bits * share.bits +
        update.val.toNat * 2 ^ 128 + 2 ^ 127 ∧
      price (total value) denominator.bits * share.bits + update.val.toNat * 2 ^ 128 <
        after * 2 ^ 128 + 2 ^ 128 + 2 ^ 127 := by
  intro r after
  have hspec : r.denominator.bits =
        denominator.bits + tradedShares value denominator update.val.toNat ∧
      r.share.bits = share.bits + tradedShares value denominator update.val.toNat ∧
      r.actualUpdate = update := shareUpdate_deposit h hsome hle hsign
  have hroom' : r.denominator.bits < 2 ^ 127 := hroom
  rcases hspec with ⟨hdenominator, hshare, -⟩
  rcases checkedDiv_some hsome with ⟨hpos, -⟩
  rcases h.shares hsome with ⟨hzero, hlt, -, -⟩
  rcases tradedShares_bounds hzero update.val.toNat with ⟨hworth, hworth'⟩
  rcases Nat.exists_eq_add_of_le hle with ⟨rest, hrest⟩
  have hfloor : price (total value') r.denominator.bits * r.share.bits <
      after * 2 ^ 128 + 2 ^ 128 := lt_value_add value' (by omega) (by omega)
  have htotal : total value' = total value + update.val.toNat * 2 ^ 128 := by
    unfold total
    omega
  rw [hrest] at hworth hworth' hlt hdenominator
  constructor
  · refine value_lt_of_mul_lt ?_
    rw [htotal, hdenominator, hshare, hrest]
    exact deposit_own_lt (by omega) (by omega) hworth
  · have hnew : price (total value) (share.bits + rest) * share.bits +
        update.val.toNat * 2 ^ 128 <
          price (total value') r.denominator.bits * r.share.bits + 2 ^ 127 := by
      rw [htotal, hdenominator, hshare]
      exact lt_deposit_own (by omega) (by omega) hlt.le hworth'
    rw [hrest]
    omega

/-- Who holds all shares has all of the value, up to one unit. -/
theorem value_of_all_shares (value : U64) (hpos : denominator.bits ≠ 0) :
    (valueFromShares (.ofNat value.val) denominator denominator).val ≤ value.val ∧
      value.val ≤ (valueFromShares (.ofNat value.val) denominator denominator).val + 1 := by
  have hfloor := lt_value_add value hpos le_rfl
  have hprice := lt_price_mul (total value) (Nat.pos_of_ne_zero hpos)
  have hlt := denominator.isLt
  refine ⟨value_le value le_rfl, ?_⟩
  unfold total at hprice hfloor
  omega

end

/-! ## Both updates -/

section

variable {S K : Type} [DecidableEq K] {ops : SharePoolDataOperations S K} {s : S} {key : K}
  {withdrawn refund : I64}

/-- The pool takes a refund: nothing saturates, the pool is empty or the value of
one share is a number of the format, and there are fewer than `2 ^ 63` shares
afterwards. -/
structure RefundFits (ops : SharePoolDataOperations S K) (s : S) (key : K) (refund : I64) :
    Prop where
  fits : NothingSaturates ops s (.one key refund)
  price : (ops.getDenominator s).bits = 0 ∨
    (ops.getSharedValue s).checkedDiv (ops.getDenominator s) ≠ none
  room : (ops.getDenominator (updateValueForOne ops s key refund).1).bits < 2 ^ 127

instance (ops : SharePoolDataOperations S K) (s : S) (key : K) (refund : I64) :
    Decidable (RefundFits ops s key refund) :=
  decidable_of_iff (_ ∧ _ ∧ _)
    ⟨fun ⟨h₁, h₂, h₃⟩ => ⟨h₁, h₂, h₃⟩, fun ⟨h₁, h₂, h₃⟩ => ⟨h₁, h₂, h₃⟩⟩

/-- A withdrawal takes the whole share of the key, or it is worth what it takes
within half a unit. -/
theorem OneReads.withdraw_cases {value value' : U64}
    (h : OneReads ops s key withdrawn value value') (hle : (ops.getShare s key).bits ≤
      (ops.getDenominator s).bits) (hsign : withdrawn.val < 0)
    (hroom : (ops.getDenominator s).bits < 2 ^ 127) :
    let s' := (updateValueForOne ops s key withdrawn).1
    ((updateValueForOne ops s key withdrawn).2.val = -((getValue ops s key).val : ℤ) ∧
        ops.getShare s' key = 0 ∧
        (ops.getDenominator s').bits =
          (ops.getDenominator s).bits - (ops.getShare s key).bits) ∨
      ((updateValueForOne ops s key withdrawn).2 = withdrawn ∧
        (ops.getDenominator s').bits ≠ 0 ∧
        (getValue ops s key).val =
          price (total value) (ops.getDenominator s).bits * (ops.getShare s key).bits / 2 ^ 128 ∧
        price (total value') (ops.getDenominator s').bits * (ops.getShare s' key).bits +
            withdrawn.val.natAbs * 2 ^ 128 <
          price (total value) (ops.getDenominator s).bits * (ops.getShare s key).bits + 2 ^ 127 ∧
        price (total value) (ops.getDenominator s).bits * (ops.getShare s key).bits <
          price (total value') (ops.getDenominator s').bits * (ops.getShare s' key).bits +
            withdrawn.val.natAbs * 2 ^ 128 + 2 ^ 127) := by
  intro s'
  have hshare : ops.getShare s' key = (shareUpdate (.ofNat value.val) (ops.getDenominator s)
      (ops.getShare s key) withdrawn).share := by
    rw [h.share, Function.update_self]
  have hdenominator : ops.getDenominator s' = _ := h.denominator
  have hmoved := h.moved
  have hpos : (ops.getDenominator s).bits ≠ 0 := by
    intro hzero
    have := h.fits.first hzero
    omega
  have hneg := val_asI64_neg (h.fits.valueFits hsign)
  rw [hshare, hdenominator, h.getValue_before]
  rw [h.actualUpdate] at hmoved ⊢
  cases hdiv : (UFixed.ofNat value.val : U64F64).checkedDiv (ops.getDenominator s) with
  | none =>
      rw [shareUpdate_fallback h.fits hdiv hpos hsign]
      exact Or.inl ⟨hneg, rfl, UFixed.bits_satSub _ _⟩
  | some valuePerShare =>
      rcases shareUpdate_withdraw h.fits hdiv hsign with
        ⟨hall, hnone, hactual⟩ | ⟨hless, hleft, hown, hactual⟩
      · rw [hall, hnone, hactual]
        exact Or.inl ⟨hneg, rfl, UFixed.bits_satSub _ _⟩
      · rw [hactual] at hmoved
        refine Or.inr ⟨hactual, by omega, value_eq hdiv hle, ?_⟩
        exact shareUpdate_withdraw_near h.fits hdiv hle hsign hroom hless hleft hown hmoved

theorem OneReads.getValue_of_zero {value value' : U64}
    (h : OneReads ops s key withdrawn value value') (hzero : withdrawn.val = 0) :
    getValue ops (updateValueForOne ops s key withdrawn).1 key = getValue ops s key := by
  have hmoved := h.moved
  rw [h.actualUpdate, actualUpdate_of_nonneg hzero.ge, hzero, add_zero] at hmoved
  have hsame : value' = value := Word.ext (by omega)
  rw [h.getValue_self, h.getValue_before, hsame]
  by_cases hempty : (ops.getDenominator s).bits = 0
  · have hnone : (shareUpdate (.ofNat value.val) (ops.getDenominator s) (ops.getShare s key)
        withdrawn).denominator.bits = 0 := by
      unfold shareUpdate
      rw [if_pos hempty, hzero]
      rfl
    apply Word.ext
    rw [val_valueFromShares_of_zero hempty, val_valueFromShares_of_zero hnone]
  · have hshares : (getSharesPerUpdate withdrawn (.ofNat value.val)
        (ops.getDenominator s)).bits = 0 := getSharesPerUpdate_zero hzero
    have hadded : ∀ a : U64F64, a.satAdd (getSharesPerUpdate withdrawn (.ofNat value.val)
        (ops.getDenominator s)).toUFixed = a := by
      intro a
      have hlt := a.isLt
      ext
      rw [UFixed.bits_satAdd, bits_toUFixed hshares.ge, hshares, Int.toNat_zero]
      omega
    unfold shareUpdate
    dsimp only
    rw [if_neg hempty, if_pos hshares.ge, hadded, hadded]

/-- The refund of a key that left an empty pool. -/
theorem OneReads.refund_of_empty {value value' : U64}
    (h : OneReads ops s key refund value value') (hempty : (ops.getDenominator s).bits = 0)
    (hrefund : 0 < refund.val) (hvalue : value.val ≤ 1) :
    |((getValue ops (updateValueForOne ops s key refund).1 key).val : ℤ) - refund.val| ≤ 1 := by
  have hmoved := h.moved
  have hlt := refund.upper
  have hshares : shareUpdate (.ofNat value.val) (ops.getDenominator s) (ops.getShare s key)
      refund = ⟨.ofNat refund.val.toNat, .ofNat refund.val.toNat, refund⟩ := by
    unfold shareUpdate
    rw [if_pos hempty]
  have hbits : (UFixed.ofNat refund.val.toNat : U64F64).bits = refund.val.toNat * 2 ^ 64 :=
    UFixed.bits_ofNat_of_lt (by omega)
  rw [h.actualUpdate, hshares] at hmoved
  rw [h.getValue_self, hshares]
  have hpos : (UFixed.ofNat refund.val.toNat : U64F64).bits ≠ 0 := by
    rw [hbits]
    omega
  have hall := value_of_all_shares value' hpos
  dsimp only at hmoved ⊢
  rw [abs_le]
  omega

/-- What a key leaves behind that had all shares. -/
theorem OneReads.leaves_le {value value' : U64} (h : OneReads ops s key withdrawn value value')
    (hpos : (ops.getDenominator s).bits ≠ 0)
    (hle : (ops.getShare s key).bits ≤ (ops.getDenominator s).bits)
    (hall : (updateValueForOne ops s key withdrawn).2.val = -((getValue ops s key).val : ℤ))
    (hempty : (ops.getDenominator s).bits - (ops.getShare s key).bits = 0) : value'.val ≤ 1 := by
  have hshare : ops.getShare s key = ops.getDenominator s := UFixed.ext (by omega)
  have hvalue := (value_of_all_shares value hpos).2
  have hmoved := h.moved
  rw [hall, h.getValue_before, hshare] at hmoved
  omega

/-- **A withdrawal and a refund.** While the shares are fewer than `2 ^ 63`, the
value of the key moves by both updates, up to one unit. -/
theorem Accounted.withdraw_refund (hops : ops.Faithful) (h : Accounted ops s)
    (hfits : NothingSaturates ops s (.one key withdrawn)) (hsign : withdrawn.val < 0)
    (hroom : (ops.getDenominator s).bits < 2 ^ 127) (hrefund : 0 < refund.val)
    (hfits' : RefundFits ops (updateValueForOne ops s key withdrawn).1 key refund) :
    |((getValue ops (updateValueForOne ops (updateValueForOne ops s key withdrawn).1 key
        refund).1 key).val : ℤ) - ((getValue ops s key).val +
          (updateValueForOne ops s key withdrawn).2.val + refund.val)| ≤ 1 := by
  have hle := h.shared.share_le key
  rcases h.oneReads hops hfits with ⟨value, value', hreads⟩
  have hcases := hreads.withdraw_cases hle hsign hroom
  have hpos : (ops.getDenominator s).bits ≠ 0 := by
    intro hzero
    have := hreads.fits.first hzero
    omega
  have hleaves := hreads.leaves_le hpos hle
  have hafter := hreads.after
  have h' : Accounted ops (updateValueForOne ops s key withdrawn).1 :=
    h.apply hops (.one key withdrawn) hfits
  generalize (updateValueForOne ops s key withdrawn).1 = s' at hfits' hcases hafter h' ⊢
  generalize (updateValueForOne ops s key withdrawn).2 = actual at hcases hleaves ⊢
  rcases h'.oneReads hops hfits'.fits with ⟨value₁, value'', hreads'⟩
  have hsame : value₁ = value' := by
    have hbits := congrArg UFixed.bits (hreads'.before.symm.trans hafter)
    rw [bits_ofNat_word, bits_ofNat_word] at hbits
    exact Word.ext (by omega)
  subst hsame
  rcases hcases with ⟨hall, hnone, hleft⟩ | ⟨hactual, hpos', hvalue, hmost, hleast⟩
  · -- the key left the pool, and all that it has is the refund
    rw [hall, add_neg_cancel, zero_add]
    rcases hfits'.price with hempty | hsome
    · exact hreads'.refund_of_empty hempty hrefund (hleaves hall (hleft.symm.trans hempty))
    · have hexact := (h'.oneExact hops hfits'.fits).value (Or.inr hsome)
      have hzero : (getValue ops s' key).val = 0 := by
        rw [hreads'.getValue_before, hnone]
        exact valueFromShares_zero _ _
      rw [hzero, (h'.oneExact hops hfits'.fits).added hrefund.le] at hexact
      simpa using hexact
  · -- it stays, and either update is worth what it says within half a unit
    rcases hfits'.price with hempty | hsome
    · exact absurd hempty hpos'
    · rw [hreads'.before] at hsome
      rcases Option.ne_none_iff_exists'.mp hsome with ⟨valuePerShare, hsome⟩
      have hmoved := hreads'.moved
      rw [hreads'.actualUpdate, actualUpdate_of_nonneg hrefund.le] at hmoved
      have hroom' := hfits'.room
      rw [hreads'.denominator] at hroom'
      have hnear := shareUpdate_deposit_near hreads'.fits hsome (h'.shared.share_le key)
        hrefund.le hmoved hroom'
      rw [hreads'.getValue_self, hactual]
      have hfloor := Nat.div_mul_le_self
        (price (total value) (ops.getDenominator s).bits * (ops.getShare s key).bits) (2 ^ 128)
      have hfloor' := Nat.lt_div_mul_add (a := price (total value)
        (ops.getDenominator s).bits * (ops.getShare s key).bits) (Nat.two_pow_pos 128)
      rw [← hvalue] at hfloor hfloor'
      dsimp only at hnear
      rw [abs_le]
      omega

end

end Subtensor.SharePool
