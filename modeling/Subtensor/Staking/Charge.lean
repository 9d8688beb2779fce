import Subtensor.SharePool.Refund
import Subtensor.Staking.Solvency
import Subtensor.Staking.Transition
import Subtensor.Swap.PartialFill

/-!
# What staking charges

Staking withdraws the TAO before it is swapped and gives nothing back. With a
limit price it withdraws no more than what a rolled back swap of the largest
amount takes in, which the executed swap then takes in as well. Without one the
highest price is the limit, nobody asks how much the pool takes in below it, and
what the swap leaves there is gone. Unstaking gives the alpha back that the swap
leaves.
-/

namespace Subtensor

open Lib SharePool

namespace Chain

variable {A B P : Type} [DecidableEq A]

def freeBalance (rt : Runtime A B P) (chain : Chain A B P) (coldkey : A) : U64 :=
  rt.currency.freeBalance chain.ledger.currency coldkey

section

variable {rt : Runtime A B (SwapStorage A)} {cfg : Swap.Config A}
  {chain chain' : Chain A B (SwapStorage A)} {netuid : NetUid} {order : Swap.OrderType}
  {amount priceLimit : U64} {result : Swap.SwapResult}

variable {coldkey hotkey : A} {stakeToBeAdded limitPrice : U64} {allowPartial : Bool}

variable {alpha tao : U64} {chain₁ chain₂ : Chain A B (SwapStorage A)}

/-- The alpha that an unstaking takes from the stake and offers to the pool. -/
def alphaTaken (chain : Chain A B (SwapStorage A)) (hotkey coldkey : A) (netuid : NetUid)
    (alpha : U64) : U64 :=
  (chain.decreaseStakeForHotkeyAndColdkeyOnSubnet hotkey coldkey netuid alpha).2

/-- What the two share updates of an unstaking need: the share pool is solvent,
the amount is a number of the signed word, nothing saturates, the shares are
fewer than `2 ^ 63`, the sale does not start where its target overflows, and the
share pool that is left takes the refund. -/
structure UnstakeFits (cfg : Swap.Config A) (chain : Chain A B (SwapStorage A))
    (hotkey coldkey : A) (netuid : NetUid) (alpha refund : U64) : Prop where
  solvent : chain.StakeSolvent hotkey netuid
  small : alpha.val < 2 ^ 63
  withdrawn : NothingSaturates (hotkeyAlphaSharePool hotkey netuid) chain.stakes
    (.one coldkey alpha.asI64.neg)
  room : (chain.stakes.totalHotkeyShares (hotkey, netuid)).bits < 2 ^ 127
  sale : ∀ pool, (chain.swap.pool netuid).maybeInitializeV3 cfg
      (swapEnv (chain.subnetInfo netuid)) = .ok pool →
    ¬pool.TargetOverflows .sell (chain.alphaTaken hotkey coldkey netuid alpha)
  refund : 0 < refund.val → RefundFits (hotkeyAlphaSharePool hotkey netuid)
    (chain.decreaseStakeForHotkeyAndColdkeyOnSubnet hotkey coldkey netuid alpha).1.stakes
    coldkey refund.asI64

/-- What is taken from the stake is what the share update removes. -/
theorem decreaseStake_taken (hsolvent : chain.StakeSolvent hotkey netuid)
    (hsmall : alpha.val < 2 ^ 63)
    (hfits : NothingSaturates (hotkeyAlphaSharePool hotkey netuid) chain.stakes
      (.one coldkey alpha.asI64.neg)) :
    let pool := hotkeyAlphaSharePool hotkey netuid
    let decreased := chain.decreaseStakeForHotkeyAndColdkeyOnSubnet hotkey coldkey netuid alpha
    (decreased = (chain, 0)) ∨
      (decreased.1.stakes = (updateValueForOne pool chain.stakes coldkey alpha.asI64.neg).1 ∧
        (decreased.2.val : ℤ) =
          -(updateValueForOne pool chain.stakes coldkey alpha.asI64.neg).2.val ∧
        decreased.2.val < 2 ^ 63) := by
  intro pool decreased
  have hexact := hsolvent.accounted.oneExact (hotkeyAlphaSharePool_faithful hotkey netuid) hfits
  have hneg := val_asI64_neg hsmall
  rcases decreaseStake_cases chain hotkey coldkey netuid alpha with
    hnone | ⟨value, hvalue, hle, updated, hupdated, heq⟩
  · exact Or.inl hnone
  · right
    subst hupdated
    have hbefore : getValue pool chain.stakes coldkey = value := by
      rcases Option.map_eq_some_iff.mp hvalue with ⟨-, -, heq'⟩
      exact heq'
    -- so that neither the negation nor the absolute value overflows
    have hbounds : -(2 ^ 63 : ℤ) < (updateValueForOne pool chain.stakes coldkey
          alpha.asI64.neg).2.val ∧
        (updateValueForOne pool chain.stakes coldkey alpha.asI64.neg).2.val ≤ 0 := by
      rcases Nat.eq_zero_or_pos alpha.val with hzero | hpos
      · rw [hexact.added (by omega)]
        omega
      · have hsign : alpha.asI64.neg.val < 0 := by omega
        have hfit : (getValue pool chain.stakes coldkey).val < 2 ^ 63 := hfits.valueFits hsign
        rcases (hexact.removed hsign).2 with hactual | ⟨hactual, -⟩
        · rw [hactual]
          omega
        · have hall : (updateValueForOne pool chain.stakes coldkey alpha.asI64.neg).2.val =
            -((getValue pool chain.stakes coldkey).val : ℤ) := hactual
          omega
    have htaken : decreased.2 = if 0 ≤ (updateValueForOne pool chain.stakes coldkey
        alpha.asI64.neg).2.neg.val then (updateValueForOne pool chain.stakes coldkey
          alpha.asI64.neg).2.neg.unsignedAbs else 0 := by
      show (chain.decreaseStakeForHotkeyAndColdkeyOnSubnet hotkey coldkey netuid alpha).2 = _
      rw [heq]
    have hflip := SWord.val_neg_of_ne hbounds.1.ne'
    have hval : (decreased.2.val : ℤ) =
        -(updateValueForOne pool chain.stakes coldkey alpha.asI64.neg).2.val := by
      rw [htaken, if_pos (by omega)]
      show (((updateValueForOne pool chain.stakes coldkey
        alpha.asI64.neg).2.neg.val.natAbs : ℕ) : ℤ) = _
      omega
    refine ⟨?_, hval, by omega⟩
    show (chain.decreaseStakeForHotkeyAndColdkeyOnSubnet hotkey coldkey netuid alpha).1.stakes = _
    rw [heq]
    rfl

/-- A removal moves the value of the key by what it takes, within one unit. -/
theorem decreaseStake_near (hsolvent : chain.StakeSolvent hotkey netuid)
    (hsmall : alpha.val < 2 ^ 63)
    (hfits : NothingSaturates (hotkeyAlphaSharePool hotkey netuid) chain.stakes
      (.one coldkey alpha.asI64.neg)) :
    let pool := hotkeyAlphaSharePool hotkey netuid
    |((getValue pool (updateValueForOne pool chain.stakes coldkey alpha.asI64.neg).1 coldkey).val :
      ℤ) - ((getValue pool chain.stakes coldkey).val +
        (updateValueForOne pool chain.stakes coldkey alpha.asI64.neg).2.val)| ≤ 1 := by
  intro pool
  have hfaithful := hotkeyAlphaSharePool_faithful hotkey netuid
  have hexact := hsolvent.accounted.oneExact hfaithful hfits
  have hneg := val_asI64_neg hsmall
  rcases Nat.eq_zero_or_pos alpha.val with hzero | hpos
  · have hnothing : alpha.asI64.neg.val = 0 := by omega
    have hadded : (updateValueForOne pool chain.stakes coldkey alpha.asI64.neg).2 =
      alpha.asI64.neg := hexact.added hnothing.ge
    rcases hsolvent.accounted.oneReads hfaithful hfits with ⟨value, value', hreads⟩
    have hsame : getValue pool (updateValueForOne pool chain.stakes coldkey
        alpha.asI64.neg).1 coldkey = getValue pool chain.stakes coldkey :=
      hreads.getValue_of_zero hnothing
    rw [hsame, hadded, hnothing, abs_le]
    omega
  · exact hexact.value (Or.inl (by omega))

theorem UnstakeFits.stake {refund : U64}
    (h : chain.UnstakeFits cfg hotkey coldkey netuid alpha refund)
    (hle : refund.val ≤ (chain.alphaTaken hotkey coldkey netuid alpha).val) :
    let pool := hotkeyAlphaSharePool hotkey netuid
    let decreased := chain.decreaseStakeForHotkeyAndColdkeyOnSubnet hotkey coldkey netuid alpha
    let stakes := if 0 < refund.val then
        (updateValueForOne pool decreased.1.stakes coldkey refund.asI64).1
      else decreased.1.stakes
    |((getValue pool chain.stakes coldkey).val : ℤ) - (getValue pool stakes coldkey).val -
      (decreased.2.val - refund.val)| ≤ 1 := by
  intro pool decreased stakes
  have hfaithful := hotkeyAlphaSharePool_faithful hotkey netuid
  have hneg := val_asI64_neg h.small
  have hle' : refund.val ≤ decreased.2.val := hle
  have hrefits : 0 < refund.val → RefundFits pool decreased.1.stakes coldkey refund.asI64 :=
    h.refund
  rcases decreaseStake_taken h.solvent h.small h.withdrawn with hnone | ⟨hstakes, htaken, hsmall⟩
  · have hdecreased : decreased = (chain, 0) := hnone
    have hzero : refund.val = 0 := by
      rw [hdecreased] at hle'
      exact Nat.le_zero.mp hle'
    have hsame : stakes = chain.stakes := by
      show (if 0 < refund.val then _ else decreased.1.stakes) = _
      rw [if_neg (by omega), hdecreased]
    rw [hsame, hdecreased, hzero]
    simp
  · have hstakes' : decreased.1.stakes =
      (updateValueForOne pool chain.stakes coldkey alpha.asI64.neg).1 := hstakes
    have htaken' : (decreased.2.val : ℤ) =
      -(updateValueForOne pool chain.stakes coldkey alpha.asI64.neg).2.val := htaken
    have hexact := h.solvent.accounted.oneExact hfaithful h.withdrawn
    by_cases hrefund : 0 < refund.val
    · have hsign : alpha.asI64.neg.val < 0 := by
        by_contra hnonneg
        have hadded : (updateValueForOne pool chain.stakes coldkey alpha.asI64.neg).2 =
          alpha.asI64.neg := hexact.added (not_lt.mp hnonneg)
        rw [hadded] at htaken'
        omega
      have hcast : refund.asI64.val = refund.val := Word.val_asI64_of_lt (hle'.trans_lt hsmall)
      have hboth : |((getValue pool (updateValueForOne pool (updateValueForOne pool chain.stakes
          coldkey alpha.asI64.neg).1 coldkey refund.asI64).1 coldkey).val : ℤ) -
            ((getValue pool chain.stakes coldkey).val +
              (updateValueForOne pool chain.stakes coldkey alpha.asI64.neg).2.val +
                refund.asI64.val)| ≤ 1 := by
        refine h.solvent.accounted.withdraw_refund hfaithful h.withdrawn hsign h.room
          (by omega) ?_
        rw [← hstakes']
        exact hrefits hrefund
      have hafter : stakes = (updateValueForOne pool (updateValueForOne pool chain.stakes coldkey
          alpha.asI64.neg).1 coldkey refund.asI64).1 := by
        show (if 0 < refund.val then _ else _) = _
        rw [if_pos hrefund, hstakes']
      rw [hafter]
      rw [abs_le] at hboth ⊢
      omega
    · have hafter : stakes = (updateValueForOne pool chain.stakes coldkey alpha.asI64.neg).1 := by
        show (if 0 < refund.val then _ else decreased.1.stakes) = _
        rw [if_neg hrefund, hstakes']
      rw [hafter]
      have hvalue : |((getValue pool (updateValueForOne pool chain.stakes coldkey
          alpha.asI64.neg).1 coldkey).val : ℤ) - ((getValue pool chain.stakes coldkey).val +
            (updateValueForOne pool chain.stakes coldkey alpha.asI64.neg).2.val)| ≤ 1 :=
        decreaseStake_near h.solvent h.small h.withdrawn
      rw [abs_le] at hvalue ⊢
      omega

end

end Chain

end Subtensor
