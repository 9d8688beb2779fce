import Subtensor.Liquidity.Calls
import Subtensor.Staking.Issuance
import Subtensor.Swap.Amounts

/-!
# User liquidity and the issuance equation

The calls of liquidity providers move TAO between balances and positions, but
`BalanceOps` does not tell `TotalStake`. So the TAO of a position is neither in
a balance nor in the total stake, and what is paid back, fees included, is
taken from a counter that never counted it. The equation is kept along the
runs in which no such call moves TAO, and every other call breaks it.
-/

namespace Subtensor.Chain

open Lib

variable {A B : Type} [DecidableEq A]

/-! ## Calls on one subnet -/

inductive SubnetCall (A : Type) where
  | addLiquidity (coldkey hotkey : A) (tickLow tickHigh : ℤ) (liquidity : U64)
  | removeLiquidity (coldkey hotkey : A) (positionId : Swap.PositionId)
  | modifyPosition (coldkey hotkey : A) (positionId : Swap.PositionId) (liquidityDelta : I64)
  | addStake (coldkey hotkey : A) (stakeToBeAdded : U64)
  | removeStake (coldkey hotkey : A) (alphaUnstaked : U64)

def callOnSubnet (rt : Runtime A B (SwapStorage A)) (cfg : Swap.Config A) (netuid : NetUid)
    (chain : Chain A B (SwapStorage A)) :
    SubnetCall A → Except Error (Chain A B (SwapStorage A))
  | .addLiquidity coldkey hotkey tickLow tickHigh liquidity =>
      chain.addLiquidity rt cfg coldkey hotkey netuid tickLow tickHigh liquidity
  | .removeLiquidity coldkey hotkey positionId =>
      chain.removeLiquidity rt coldkey hotkey netuid positionId
  | .modifyPosition coldkey hotkey positionId liquidityDelta =>
      chain.modifyPosition rt cfg coldkey hotkey netuid positionId liquidityDelta
  | .addStake coldkey hotkey stakeToBeAdded =>
      chain.doAddStake rt coldkey hotkey netuid stakeToBeAdded
  | .removeStake coldkey hotkey alphaUnstaked =>
      chain.doRemoveStake rt coldkey hotkey netuid alphaUnstaked

/-- The call moves no TAO between a balance and a position: the liquidity is
worth less than a RAO of TAO at the present price, and no TAO fees are due. An
increase of a position may also deposit exactly the fees that are due. -/
def MovesNoTao (netuid : NetUid) (chain : Chain A B (SwapStorage A)) : SubnetCall A → Prop
  | .addLiquidity _ _ tickLow tickHigh liquidity =>
      Swap.taoWorth tickLow tickHigh liquidity (Swap.settlementPrice (chain.swap.pool netuid)) = 0
  | .removeLiquidity coldkey _ positionId =>
      let pool := chain.swap.pool netuid
      ∀ position, pool.positions.lookup (coldkey, positionId) = some position →
        Swap.taoWorth position.tickLow position.tickHigh position.liquidity
            pool.alphaSqrtPrice = 0 ∧
          Swap.taoFeesDue pool position = 0
  | .modifyPosition coldkey _ positionId liquidityDelta =>
      let pool := chain.swap.pool netuid
      ∀ position, pool.positions.lookup (coldkey, positionId) = some position →
        let tao := Swap.taoWorth position.tickLow position.tickHigh
          (Swap.unsignedAbs liquidityDelta) pool.alphaSqrtPrice
        let fees := Swap.taoFeesDue pool position
        if 0 < liquidityDelta.val then tao = fees.val else tao = 0 ∧ fees = 0
  | .addStake _ _ _ => True
  | .removeStake _ _ _ => True

/-- Calls on one subnet that all succeed and meet a condition on the state in
which they are made. -/
inductive SubnetRun (rt : Runtime A B (SwapStorage A)) (cfg : Swap.Config A) (netuid : NetUid)
    (C : Chain A B (SwapStorage A) → SubnetCall A → Prop) (chain : Chain A B (SwapStorage A)) :
    Chain A B (SwapStorage A) → Prop where
  | refl : SubnetRun rt cfg netuid C chain chain
  | step {chain₁ chain₂ : Chain A B (SwapStorage A)} (call : SubnetCall A) :
      SubnetRun rt cfg netuid C chain chain₁ → C chain₁ call →
        chain₁.callOnSubnet rt cfg netuid call = .ok chain₂ →
          SubnetRun rt cfg netuid C chain chain₂

/-! ## `BalanceOps` -/

section BalanceOps

variable {P : Type} {rt : Runtime A B P} {chain chain' : Chain A B P} {coldkey hotkey : A}
  {netuid : NetUid} {tao alpha : U64}

theorem increaseStakeOp_ok (h : chain.increaseStake coldkey hotkey netuid alpha = .ok chain') :
    Touches netuid chain chain' ∧ Moves rt chain chain' 0 0 := by
  unfold increaseStake at h
  obtain ⟨-, h⟩ := ite_error_eq_ok.mp h
  cases h
  exact ⟨withReserves_touches.trans increaseStake_touches,
    (moves_of_ledger_eq rfl).none_then increaseStake_moves⟩

theorem decreaseStakeOp_ok {taken : U64}
    (h : chain.decreaseStake coldkey hotkey netuid alpha = .ok (chain', taken)) :
    Touches netuid chain chain' ∧ Moves rt chain chain' 0 0 := by
  unfold decreaseStake at h
  obtain ⟨-, h⟩ := ite_error_eq_ok.mp h
  extract_lets chain₁ at h
  have hchain : chain' =
      (chain₁.decreaseStakeForHotkeyAndColdkeyOnSubnet hotkey coldkey netuid alpha).1 :=
    (congrArg Prod.fst (Except.ok.inj h)).symm
  rw [hchain]
  have htouch : Touches netuid chain chain₁ := withReserves_touches
  have hmoves : Moves rt chain chain₁ 0 0 := moves_of_ledger_eq rfl
  exact ⟨htouch.trans decreaseStake_touches, hmoves.none_then decreaseStake_moves⟩

/-- A deposit leaves the balances and is counted nowhere. -/
theorem provide_ok (hexact : rt.currency.Exact)
    (h : chain.provide rt coldkey hotkey netuid tao alpha = .ok chain') :
    Touches netuid chain chain' ∧ Moves rt chain chain' (-tao.val) 0 := by
  unfold provide at h
  cases hremove : chain.removeBalanceFromColdkeyAccount rt coldkey tao with
  | error e =>
      rw [hremove] at h
      cases h
  | ok paid =>
      obtain ⟨chain₁, taoProvided⟩ := paid
      rw [hremove] at h
      obtain ⟨-, h⟩ := ite_error_eq_ok.mp h
      cases hstake : chain₁.decreaseStake coldkey hotkey netuid alpha with
      | error e =>
          rw [hstake] at h
          cases h
      | ok taken =>
          obtain ⟨chain₂, alphaProvided⟩ := taken
          rw [hstake] at h
          obtain ⟨-, h⟩ := ite_error_eq_ok.mp h
          cases h
          obtain ⟨rfl, hmoves₁⟩ := moves_removeBalance hexact hremove
          obtain ⟨currency, rfl⟩ := removeBalance_frame hremove
          have htouch₁ : Touches netuid chain (chain.setCurrency currency) :=
            withLedger_touches (f := fun ledger => { ledger with currency := currency })
          have hstaked : Touches netuid (chain.setCurrency currency) chain' ∧
              Moves rt (chain.setCurrency currency) chain' 0 0 := decreaseStakeOp_ok hstake
          exact ⟨htouch₁.trans hstaked.1, hmoves₁.then_none hstaked.2⟩

/-- A payment enters the balances and is counted nowhere. -/
theorem credit_ok (hexact : rt.currency.Exact)
    (h : chain.credit rt coldkey hotkey netuid tao alpha = .ok chain') :
    Touches netuid chain chain' ∧ Moves rt chain chain' tao.val 0 := by
  obtain ⟨htouch, hmoves⟩ := increaseStakeOp_ok h
  exact ⟨addBalance_touches.trans htouch, (moves_addBalance hexact).then_none hmoves⟩

theorem creditFees_ok (hexact : rt.currency.Exact)
    (h : chain.creditFees rt coldkey hotkey netuid tao alpha = .ok chain') :
    Touches netuid chain chain' ∧ Moves rt chain chain' tao.val 0 := by
  unfold creditFees at h
  extract_lets chain₁ at h
  have h₁ : Touches netuid chain chain₁ ∧ Moves rt chain chain₁ tao.val 0 := by
    by_cases hpos : 0 < tao.val
    · rw [show chain₁ = chain.addBalanceToColdkeyAccount rt coldkey tao from if_pos hpos]
      exact ⟨addBalance_touches, moves_addBalance hexact⟩
    · rw [show chain₁ = chain from if_neg hpos, Nat.eq_zero_of_not_pos hpos]
      exact ⟨.refl netuid chain, .refl chain⟩
  by_cases hpos : 0 < alpha.val
  · rw [if_pos hpos] at h
    obtain ⟨htouch, hmoves⟩ := increaseStakeOp_ok h
    exact ⟨h₁.1.trans htouch, h₁.2.then_none hmoves⟩
  · rw [if_neg hpos] at h
    rw [← Except.ok.inj h]
    exact h₁

end BalanceOps

/-! ## One call -/

variable {rt : Runtime A B (SwapStorage A)} {cfg : Swap.Config A} {netuid : NetUid}
  {chain chain' : Chain A B (SwapStorage A)} {coldkey hotkey : A}

omit [DecidableEq A] in
theorem swapError_eq_ok {α : Type} {x : Except Swap.SwapError α} {a : α}
    (h : swapError x = .ok a) : x = .ok a := by
  cases x with
  | error e => cases h
  | ok b =>
      cases h
      rfl

theorem withPool_ok (pool : Swap.Pool A) :
    Touches netuid chain (chain.withPool netuid pool) ∧
      Moves rt chain (chain.withPool netuid pool) 0 0 :=
  ⟨withSwap_touches, moves_of_ledger_eq rfl⟩

theorem addLiquidity_ok (hexact : rt.currency.Exact) {tickLow tickHigh : ℤ} {liquidity : U64}
    (h : chain.addLiquidity rt cfg coldkey hotkey netuid tickLow tickHigh liquidity = .ok chain') :
    Touches netuid chain chain' ∧
      Moves rt chain chain' (-(Swap.taoWorth tickLow tickHigh liquidity
        (Swap.settlementPrice (chain.swap.pool netuid)) : ℕ)) 0 := by
  unfold addLiquidity at h
  obtain ⟨-, h⟩ := ite_error_eq_ok.mp h
  split at h
  · cases h
  · rename_i pool id tao alpha hswap
    have htao := Swap.Pool.doAddLiquidity_tao (swapError_eq_ok hswap)
    cases hprovide : (chain.withPool netuid pool).provide rt coldkey hotkey netuid tao alpha with
    | error e =>
        rw [hprovide] at h
        cases h
    | ok chain₁ =>
        rw [hprovide] at h
        cases h
        obtain ⟨htouch, hmoves⟩ := provide_ok hexact hprovide
        rw [htao] at hmoves
        have hpool : Touches netuid chain (chain.withPool netuid pool) ∧
          Moves rt chain (chain.withPool netuid pool) 0 0 := withPool_ok pool
        exact ⟨(hpool.1.trans htouch).trans withReserves_touches,
          (hpool.2.none_then hmoves).then_none (moves_of_ledger_eq rfl)⟩

theorem removeLiquidity_ok (hexact : rt.currency.Exact) {positionId : Swap.PositionId}
    (h : chain.removeLiquidity rt coldkey hotkey netuid positionId = .ok chain') :
    ∃ position, (chain.swap.pool netuid).positions.lookup (coldkey, positionId) = some position ∧
      ∃ tao : U64, tao.val = Swap.taoWorth position.tickLow position.tickHigh position.liquidity
          (chain.swap.pool netuid).alphaSqrtPrice ∧
        Touches netuid chain chain' ∧
        Moves rt chain chain'
          (tao.satAdd (Swap.taoFeesDue (chain.swap.pool netuid) position)).val 0 := by
  unfold removeLiquidity at h
  obtain ⟨-, h⟩ := ite_error_eq_ok.mp h
  split at h
  · cases h
  · rename_i pool result hswap
    obtain ⟨position, hlook, htao, hfee⟩ :=
      Swap.Pool.doRemoveLiquidity_tao (swapError_eq_ok hswap)
    rw [hfee] at h
    split at h
    · cases h
    · rename_i chain₁ hcredit
      cases h
      obtain ⟨htouch, hmoves⟩ := credit_ok hexact hcredit
      have hpool : Touches netuid chain (chain.withPool netuid pool) ∧
        Moves rt chain (chain.withPool netuid pool) 0 0 := withPool_ok pool
      exact ⟨position, hlook, result.tao, htao,
        (hpool.1.trans htouch).trans withReserves_touches,
        (hpool.2.none_then hmoves).then_none (moves_of_ledger_eq rfl)⟩

theorem modifyPosition_ok (hexact : rt.currency.Exact) {positionId : Swap.PositionId}
    {liquidityDelta : I64}
    (h : chain.modifyPosition rt cfg coldkey hotkey netuid positionId liquidityDelta =
      .ok chain') :
    ∃ position, (chain.swap.pool netuid).positions.lookup (coldkey, positionId) = some position ∧
      ∃ tao : U64, tao.val = Swap.taoWorth position.tickLow position.tickHigh
          (Swap.unsignedAbs liquidityDelta) (chain.swap.pool netuid).alphaSqrtPrice ∧
        Touches netuid chain chain' ∧
        Moves rt chain chain' ((if 0 < liquidityDelta.val then -(tao.val : ℤ) else tao.val) +
          (Swap.taoFeesDue (chain.swap.pool netuid) position).val) 0 := by
  unfold modifyPosition at h
  obtain ⟨-, h⟩ := ite_error_eq_ok.mp h
  split at h
  · cases h
  · rename_i pool result hswap
    obtain ⟨position, hlook, htao, hfee⟩ :=
      Swap.Pool.doModifyPosition_tao (swapError_eq_ok hswap)
    refine ⟨position, hlook, result.tao, htao, ?_⟩
    rw [hfee] at h
    extract_lets chain₁ at h
    have hpool : Touches netuid chain chain₁ ∧ Moves rt chain chain₁ 0 0 := withPool_ok pool
    split at h
    · cases h
    · rename_i chain₂ hsettle
      have hsettled : Touches netuid chain₁ chain₂ ∧
          Moves rt chain₁ chain₂
            (if 0 < liquidityDelta.val then -(result.tao.val : ℤ) else result.tao.val) 0 := by
        by_cases hpos : 0 < liquidityDelta.val
        · rw [if_pos hpos] at hsettle ⊢
          exact provide_ok hexact hsettle
        · rw [if_neg hpos] at hsettle ⊢
          exact credit_ok hexact hsettle
      obtain ⟨htouch, hmoves⟩ := creditFees_ok hexact h
      have hboth := (hpool.2.none_then hsettled.2).trans hmoves
      rw [add_zero] at hboth
      exact ⟨(hpool.1.trans hsettled.1).trans htouch, hboth⟩

/-- Adding and removing stake keeps the mechanism of the subnet. -/
theorem doAddStake_isDynamic {amount : U64}
    (h : chain.doAddStake rt coldkey hotkey netuid amount = .ok chain') :
    chain'.isDynamic netuid = chain.isDynamic netuid := by
  obtain ⟨chain₁, paid, added, hremove, hstake⟩ := doAddStake_ok h
  obtain ⟨currency, rfl⟩ := removeBalance_frame hremove
  exact (stakeIntoSubnet_ok hstake).1.isDynamic netuid

theorem doRemoveStake_isDynamic {alpha : U64}
    (h : chain.doRemoveStake rt coldkey hotkey netuid alpha = .ok chain') :
    chain'.isDynamic netuid = chain.isDynamic netuid := by
  obtain ⟨-, chain₁, tao, hunstake, rfl⟩ := doRemoveStake_ok h
  have htouch : Touches netuid chain ((chain₁.addBalanceToColdkeyAccount rt coldkey
      tao).clearSmallNominationIfRequired rt hotkey coldkey netuid) :=
    ((unstakeFromSubnet_ok hunstake).1.trans addBalance_touches).trans clearSmallNomination_touches
  rw [← htouch.isDynamic netuid]
  unfold dropPendingChildren
  split_ifs <;> rfl

/-- **What a call moves.** `TotalIssuance` stays, and the accounted TAO stays
if and only if no TAO is moved between a balance and a position. -/
theorem callOnSubnet_ok (hexact : rt.currency.Exact) (hdyn : chain.isDynamic netuid = true)
    {call : SubnetCall A} (h : chain.callOnSubnet rt cfg netuid call = .ok chain') :
    chain'.isDynamic netuid = true ∧
      ∃ v, Moves rt chain chain' v 0 ∧ (v = 0 ↔ MovesNoTao netuid chain call) := by
  cases call with
  | addLiquidity coldkey hotkey tickLow tickHigh liquidity =>
      obtain ⟨htouch, hmoves⟩ := addLiquidity_ok hexact h
      refine ⟨(htouch.isDynamic netuid).trans hdyn, _, hmoves, ?_⟩
      rw [neg_eq_zero, Int.natCast_eq_zero]
      rfl
  | removeLiquidity coldkey hotkey positionId =>
      obtain ⟨position, hlook, tao, htao, htouch, hmoves⟩ := removeLiquidity_ok hexact h
      refine ⟨(htouch.isDynamic netuid).trans hdyn, _, hmoves, ?_⟩
      have hzero : (tao.satAdd (Swap.taoFeesDue (chain.swap.pool netuid) position)).val = 0 ↔
          tao.val = 0 ∧ (Swap.taoFeesDue (chain.swap.pool netuid) position).val = 0 := by
        rw [Word.val_satAdd]
        omega
      rw [Int.natCast_eq_zero, hzero, htao, Word.val_eq_zero_iff]
      constructor
      · rintro hno position' hlook'
        rw [hlook] at hlook'
        cases hlook'
        exact hno
      · intro hno
        exact hno position hlook
  | modifyPosition coldkey hotkey positionId liquidityDelta =>
      obtain ⟨position, hlook, tao, htao, htouch, hmoves⟩ := modifyPosition_ok hexact h
      refine ⟨(htouch.isDynamic netuid).trans hdyn, _, hmoves, ?_⟩
      have hiff : (if 0 < liquidityDelta.val then -(tao.val : ℤ) else tao.val) +
            (Swap.taoFeesDue (chain.swap.pool netuid) position).val = 0 ↔
          if 0 < liquidityDelta.val then
            tao.val = (Swap.taoFeesDue (chain.swap.pool netuid) position).val
          else tao.val = 0 ∧ Swap.taoFeesDue (chain.swap.pool netuid) position = 0 := by
        rw [← Word.val_eq_zero_iff]
        split_ifs
        · omega
        · omega
      rw [hiff, htao]
      constructor
      · rintro hno position' hlook'
        rw [hlook] at hlook'
        cases hlook'
        exact hno
      · intro hno
        exact hno position hlook
  | addStake coldkey hotkey stakeToBeAdded =>
      exact ⟨(doAddStake_isDynamic h).trans hdyn, 0, doAddStake_moves hexact hdyn h,
        iff_of_true rfl trivial⟩
  | removeStake coldkey hotkey alphaUnstaked =>
      exact ⟨(doRemoveStake_isDynamic h).trans hdyn, 0, doRemoveStake_moves hexact hdyn h,
        iff_of_true rfl trivial⟩

/-! ## Runs -/

/-- A run in which no call moves TAO to a position or from it moves nothing. -/
theorem subnetRun_moves (hexact : rt.currency.Exact) (hdyn : chain.isDynamic netuid = true)
    (h : SubnetRun rt cfg netuid (MovesNoTao netuid) chain chain') :
    chain'.isDynamic netuid = true ∧ Moves rt chain chain' 0 0 := by
  induction h with
  | refl => exact ⟨hdyn, .refl chain⟩
  | step call _ hno hcall ih =>
      obtain ⟨hdyn₁, hmoves₁⟩ := ih
      obtain ⟨hdyn₂, v, hmoves₂, hiff⟩ := callOnSubnet_ok hexact hdyn₁ hcall
      rw [hiff.mpr hno] at hmoves₂
      exact ⟨hdyn₂, hmoves₁.then_none hmoves₂⟩

/-- **User liquidity and the issuance equation.** On a dynamic subnet the
equation is kept along every run in which no call of a liquidity provider
moves TAO, and a call keeps it only if it moves none. -/
theorem userLiquidity_issuance (hexact : rt.currency.Exact)
    (hdyn : chain.isDynamic netuid = true) (hbalanced : chain.IssuanceBalanced rt) :
    (∀ chain', SubnetRun rt cfg netuid (MovesNoTao netuid) chain chain' →
        chain'.ledger.overflowed = false → chain'.IssuanceBalanced rt) ∧
      ∀ call chain', chain.callOnSubnet rt cfg netuid call = .ok chain' →
        chain'.ledger.overflowed = false →
          (chain'.IssuanceBalanced rt ↔ MovesNoTao netuid chain call) := by
  refine ⟨?_, ?_⟩
  · intro chain' hrun hok
    exact (subnetRun_moves hexact hdyn hrun).2.issuanceBalanced hok hbalanced
  · intro call chain' hcall hok
    obtain ⟨-, v, hmoves, hiff⟩ := callOnSubnet_ok hexact hdyn hcall
    obtain ⟨-, hvalue, hissuance⟩ := hmoves hok
    rw [← hiff]
    unfold IssuanceBalanced at hbalanced ⊢
    rw [hvalue, hissuance, hbalanced]
    omega

/-- A small chain on which users may provide liquidity, after a TAO was staked
on the subnet. -/
def providerChain : Chain ℕ (Balances ℕ) (SwapStorage ℕ) :=
  let chain := smallChain.withSwap ⟨fun _ => Swap.Pool.fresh (.sat 33) true 0, 0⟩
  (chain.doAddStake runtime 10 1 (.sat 1) (.sat 1000000000)).toOption.getD chain

/-- A position above the price holds alpha only. -/
theorem userLiquidity_issuance_providerChain :
    ∃ chain', providerChain.addLiquidity runtime swapConfig 10 1 (.sat 1) 15000 20000
        (.sat 100000000) = .ok chain' ∧
      chain'.IssuanceBalanced runtime := by
  have hbalanced : providerChain.IssuanceBalanced runtime := by
    show (_ : ℤ) = _
    decide +kernel
  have hworth : MovesNoTao (.sat 1) providerChain
      (.addLiquidity 10 1 15000 20000 (.sat 100000000)) := by
    show (_ : ℕ) = _
    decide +kernel
  have hadd : (providerChain.addLiquidity runtime swapConfig 10 1 (.sat 1) 15000 20000
      (.sat 100000000)).toOption.map (fun chain => chain.ledger.overflowed) = some false := by
    decide +kernel
  obtain ⟨chain', hcall, hok⟩ := exists_ok_of_toOption_map hadd
  have hrun : ∀ chain', SubnetRun runtime swapConfig (.sat 1) (MovesNoTao (.sat 1)) providerChain
      chain' → chain'.ledger.overflowed = false → chain'.IssuanceBalanced runtime :=
    (userLiquidity_issuance balances_exact (by decide +kernel) hbalanced).1
  exact ⟨chain', hcall, hrun chain' (.step _ .refl hworth hcall) hok⟩

/-- A position around the price: 35081639 RAO leave the balances and are
counted nowhere. -/
theorem addLiquidity_not_balanced :
    providerChain.isDynamic (.sat 1) = true ∧ providerChain.IssuanceBalanced runtime ∧
      ∃ chain', SubnetRun runtime swapConfig (.sat 1) (fun _ _ => True) providerChain chain' ∧
        chain'.ledger.overflowed = false ∧ ¬chain'.IssuanceBalanced runtime := by
  refine ⟨by decide +kernel, ?_, ?_⟩
  · show (_ : ℤ) = _
    decide +kernel
  · have hadd : (providerChain.addLiquidity runtime swapConfig 10 1 (.sat 1) 10000 20000
        (.sat 100000000)).toOption.map (fun chain => (chain.ledger.currency.totalIssuance,
          chain.ledger.totalIssuance, chain.ledger.totalStake, chain.ledger.overflowed)) =
        some (8964918361, .sat 11000000000, .sat 2000000000, false) := by
      decide +kernel
    obtain ⟨chain', hcall, hledger⟩ := exists_ok_of_toOption_map hadd
    simp only [Prod.mk.injEq] at hledger
    obtain ⟨hcurrency, hissuance, hstake, hok⟩ := hledger
    refine ⟨chain', .step (.addLiquidity 10 1 10000 20000 (.sat 100000000)) .refl trivial hcall,
      hok, ?_⟩
    intro hbalanced
    have hvalue : ((11000000000 : ℕ) : ℤ) = (8964918361 : ℕ) + (2000000000 : ℕ) := by
      have h : ((chain'.ledger.totalIssuance.val : ℕ) : ℤ) =
          (chain'.ledger.currency.totalIssuance : ℕ) + (chain'.ledger.totalStake.val : ℕ) :=
        hbalanced
      rwa [hcurrency, hissuance, hstake] at h
    exact absurd hvalue (by norm_num)

end Subtensor.Chain
