import Subtensor.Swap.Direction

/-!
# Partial fills

The loop of a swap also ends when a step is cut at the limit or exchanges
nothing, and then a rest of the amount may be left. A purchase and a larger one
under the same limit go through the same steps until the smaller one is used up,
so what the larger one takes in tells, up to three units of rounding, which
purchases leave nothing.
-/

namespace Subtensor.Swap

open Subtensor.Lib Relation

variable {A : Type} {cfg : Config A} {orderType : OrderType} {limit : SqrtPrice} {amount : U64}

/-- What input and fees are together. -/
def SwapAcc.paid (acc : SwapAcc) : ℕ := acc.inAcc.val + acc.feeAcc.val

section

variable {s s₁ s₂ : Pool A × SwapAcc}

end

namespace Pool

variable {pool : Pool A}

theorem swapLoop_done {n : ℕ} {acc : SwapAcc} {res : Pool A × SwapAcc}
    (h : swapLoop cfg orderType limit n pool acc = .ok res) (h0 : acc.amountRemaining = 0) :
    res = (pool, acc) := by
  rcases swapLoop_ok h with ⟨-, rfl⟩ | ⟨hne, -⟩
  · rfl
  · exact absurd h0 hne

section

variable [DecidableEq A] {env : Env A} {simulate : Bool} {result : SwapResult}

end

end Pool

end Subtensor.Swap
