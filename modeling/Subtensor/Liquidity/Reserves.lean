import Subtensor.Lib.Run
import Subtensor.Liquidity.Issuance
import Subtensor.Swap.Elimination

/-!
# Reserves and the principal of positions

What coldkeys pay for positions and get back for them is counted beside the
chain, and compared with the reserves of the subnet. Adding and removing a
position keep the two together; a modification moves principal and leaves the
reserves as they are.
-/

namespace Subtensor.Chain

open Lib Lib.Run

variable {A B : Type} [DecidableEq A]

/-! ## Calls and books -/

inductive LiquidityCall (A : Type) where
  | addLiquidity (coldkey hotkey : A) (netuid : NetUid) (tickLow tickHigh : ℤ) (liquidity : U64)
  | removeLiquidity (coldkey hotkey : A) (netuid : NetUid) (positionId : Swap.PositionId)
  | modifyPosition (coldkey hotkey : A) (netuid : NetUid) (positionId : Swap.PositionId)
      (liquidityDelta : I64)

def LiquidityCall.netuid : LiquidityCall A → NetUid
  | .addLiquidity _ _ netuid _ _ _ => netuid
  | .removeLiquidity _ _ netuid _ => netuid
  | .modifyPosition _ _ netuid _ _ => netuid

def liquidityCall (rt : Runtime A B (SwapStorage A)) (cfg : Swap.Config A)
    (chain : Chain A B (SwapStorage A)) :
    LiquidityCall A → Except Error (Chain A B (SwapStorage A))
  | .addLiquidity coldkey hotkey netuid tickLow tickHigh liquidity =>
      chain.addLiquidity rt cfg coldkey hotkey netuid tickLow tickHigh liquidity
  | .removeLiquidity coldkey hotkey netuid positionId =>
      chain.removeLiquidity rt coldkey hotkey netuid positionId
  | .modifyPosition coldkey hotkey netuid positionId liquidityDelta =>
      chain.modifyPosition rt cfg coldkey hotkey netuid positionId liquidityDelta

/-- TAO and alpha that a successful call takes from the coldkey for a position;
what it pays back for one counts negative. Fees are not principal. -/
def principal (rt : Runtime A B (SwapStorage A)) (cfg : Swap.Config A)
    (chain : Chain A B (SwapStorage A)) : LiquidityCall A → ℤ × ℤ
  | .addLiquidity coldkey hotkey netuid tickLow tickHigh liquidity =>
      match (chain.swap.pool netuid).doAddLiquidity cfg (chain.balanceEnv rt netuid)
        coldkey hotkey tickLow tickHigh liquidity with
      | .error _ => 0
      | .ok (_, _, tao, alpha) => (tao.val, alpha.val)
  | .removeLiquidity coldkey _ netuid positionId =>
      match (chain.swap.pool netuid).doRemoveLiquidity coldkey positionId with
      | .error _ => 0
      | .ok (_, result) => (-result.tao.val, -result.alpha.val)
  | .modifyPosition coldkey hotkey netuid positionId liquidityDelta =>
      match (chain.swap.pool netuid).doModifyPosition cfg (chain.balanceEnv rt netuid)
        coldkey hotkey positionId liquidityDelta with
      | .error _ => 0
      | .ok (_, result) =>
          if 0 < liquidityDelta.val then (result.tao.val, result.alpha.val)
          else (-result.tao.val, -result.alpha.val)

/-- TAO and alpha, with what users provided. -/
def reservesTotal (reserves : Reserves) : ℤ × ℤ :=
  (reserves.subnetTAO.val + reserves.subnetTaoProvided.val,
    reserves.subnetAlphaIn.val + reserves.subnetAlphaInProvided.val)

def poolReserves {P : Type} (chain : Chain A B P) (netuid : NetUid) : ℤ × ℤ :=
  reservesTotal (chain.reserves netuid)

/-- A chain, and the principal that was paid for positions so far. -/
structure Booked (A B : Type) where
  chain : Chain A B (SwapStorage A)
  paid : NetUid → ℤ × ℤ

/-- A call and its booking; a call that fails changes nothing. -/
def Booked.apply (rt : Runtime A B (SwapStorage A)) (cfg : Swap.Config A) (s : Booked A B)
    (call : LiquidityCall A) : Booked A B :=
  match s.chain.liquidityCall rt cfg call with
  | .error _ => s
  | .ok chain =>
      { chain := chain
        paid := Function.update s.paid call.netuid
          (s.paid call.netuid + s.chain.principal rt cfg call) }

/-- The reserves changed by exactly the principal that was paid. -/
def Booked.Matches (chain : Chain A B (SwapStorage A)) (s : Booked A B) : Prop :=
  ∀ netuid, s.chain.poolReserves netuid = chain.poolReserves netuid + s.paid netuid

/-- When the reserves follow a call: what is added fits in the provided
reserves, what is removed is there, and what is modified is worth nothing. -/
def ReservesFollow (chain : Chain A B (SwapStorage A)) : LiquidityCall A → Prop
  | .addLiquidity _ _ netuid tickLow tickHigh liquidity =>
      let price := Swap.settlementPrice (chain.swap.pool netuid)
      (chain.reserves netuid).subnetTaoProvided.val +
          Swap.taoWorth tickLow tickHigh liquidity price < 2 ^ 64 ∧
        (chain.reserves netuid).subnetAlphaInProvided.val +
          Swap.alphaWorth tickLow tickHigh liquidity price < 2 ^ 64
  | .removeLiquidity coldkey _ netuid positionId =>
      let pool := chain.swap.pool netuid
      ∀ position, pool.positions.lookup (coldkey, positionId) = some position →
        Swap.taoWorth position.tickLow position.tickHigh position.liquidity
            pool.alphaSqrtPrice ≤ (chain.poolReserves netuid).1 ∧
          Swap.alphaWorth position.tickLow position.tickHigh position.liquidity
            pool.alphaSqrtPrice ≤ (chain.poolReserves netuid).2
  | .modifyPosition coldkey _ netuid positionId liquidityDelta =>
      let pool := chain.swap.pool netuid
      ∀ position, pool.positions.lookup (coldkey, positionId) = some position →
        Swap.taoWorth position.tickLow position.tickHigh (Swap.unsignedAbs liquidityDelta)
            pool.alphaSqrtPrice = 0 ∧
          Swap.alphaWorth position.tickLow position.tickHigh (Swap.unsignedAbs liquidityDelta)
            pool.alphaSqrtPrice = 0

/-! ## What leaves the reserves alone -/

section Frames

variable {P : Type} {rt : Runtime A B P} {chain chain₁ chain' : Chain A B P} {coldkey hotkey : A}
  {netuid : NetUid} {tao alpha : U64}

/-- The reserves of every pool are as before. -/
def KeepsReserves (chain chain' : Chain A B P) : Prop :=
  ∀ netuid, chain'.poolReserves netuid = chain.poolReserves netuid ∧
    (chain'.reserves netuid).subnetTaoProvided = (chain.reserves netuid).subnetTaoProvided ∧
    (chain'.reserves netuid).subnetAlphaInProvided = (chain.reserves netuid).subnetAlphaInProvided

omit [DecidableEq A] in
theorem KeepsReserves.trans (h : KeepsReserves chain chain₁) (h' : KeepsReserves chain₁ chain') :
    KeepsReserves chain chain' := fun netuid =>
  ⟨(h' netuid).1.trans (h netuid).1, (h' netuid).2.1.trans (h netuid).2.1,
    (h' netuid).2.2.trans (h netuid).2.2⟩

omit [DecidableEq A] in
theorem keepsReserves_of_eq (h : chain'.reserves = chain.reserves) :
    KeepsReserves chain chain' := by
  intro netuid
  unfold poolReserves
  rw [h]
  exact ⟨rfl, rfl, rfl⟩

omit [DecidableEq A] in
theorem keepsReserves_alphaOut (chain : Chain A B P) (netuid : NetUid) (f : U64 → U64) :
    KeepsReserves chain (chain.withReserves netuid fun reserves =>
      { reserves with subnetAlphaOut := f reserves.subnetAlphaOut }) := by
  intro n
  unfold poolReserves reservesTotal withReserves
  rcases eq_or_ne n netuid with rfl | hne
  · simp
  · simp [hne]

theorem increaseStakeOp_keepsReserves
    (h : chain.increaseStake coldkey hotkey netuid alpha = .ok chain') :
    KeepsReserves chain chain' := by
  unfold increaseStake at h
  rcases ite_error_eq_ok.mp h with ⟨-, h⟩
  cases h
  refine (keepsReserves_alphaOut chain netuid fun out => out.satAdd alpha).trans (keepsReserves_of_eq ?_)
  unfold increaseStakeForHotkeyAndColdkeyOnSubnet
  dsimp only
  split_ifs <;> rfl

theorem decreaseStakeOp_keepsReserves {taken : U64}
    (h : chain.decreaseStake coldkey hotkey netuid alpha = .ok (chain', taken)) :
    KeepsReserves chain chain' := by
  unfold decreaseStake at h
  rcases ite_error_eq_ok.mp h with ⟨-, h⟩
  extract_lets chain₁ at h
  refine (keepsReserves_alphaOut chain netuid fun out => out.satSub alpha).trans (keepsReserves_of_eq ?_)
  rw [show chain' =
    (chain₁.decreaseStakeForHotkeyAndColdkeyOnSubnet hotkey coldkey netuid alpha).1 from
      (congrArg Prod.fst (Except.ok.inj h)).symm]
  unfold decreaseStakeForHotkeyAndColdkeyOnSubnet
  split
  · rfl
  · split_ifs <;> rfl

theorem provide_keepsReserves
    (h : chain.provide rt coldkey hotkey netuid tao alpha = .ok chain') :
    KeepsReserves chain chain' := by
  unfold provide at h
  cases hremove : chain.removeBalanceFromColdkeyAccount rt coldkey tao with
  | error e =>
      rw [hremove] at h
      cases h
  | ok paid =>
      rcases paid with ⟨chain₁, taoProvided⟩
      rw [hremove] at h
      rcases ite_error_eq_ok.mp h with ⟨-, h⟩
      cases hstake : chain₁.decreaseStake coldkey hotkey netuid alpha with
      | error e =>
          rw [hstake] at h
          cases h
      | ok taken =>
          rcases taken with ⟨chain₂, alphaProvided⟩
          rw [hstake] at h
          rcases ite_error_eq_ok.mp h with ⟨-, h⟩
          cases h
          rcases removeBalance_frame hremove with ⟨currency, rfl⟩
          have hpaid : KeepsReserves chain (chain.setCurrency currency) :=
            keepsReserves_of_eq rfl
          exact hpaid.trans (decreaseStakeOp_keepsReserves hstake)

theorem credit_keepsReserves
    (h : chain.credit rt coldkey hotkey netuid tao alpha = .ok chain') :
    KeepsReserves chain chain' := by
  have hbalance : KeepsReserves chain (chain.addBalanceToColdkeyAccount rt coldkey tao) :=
    keepsReserves_of_eq rfl
  exact hbalance.trans (increaseStakeOp_keepsReserves h)

theorem creditFees_keepsReserves
    (h : chain.creditFees rt coldkey hotkey netuid tao alpha = .ok chain') :
    KeepsReserves chain chain' := by
  unfold creditFees at h
  extract_lets chain₁ at h
  have h₁ : KeepsReserves chain chain₁ := by
    refine keepsReserves_of_eq ?_
    show (if 0 < tao.val then _ else _ : Chain A B P).reserves = _
    split_ifs <;> rfl
  by_cases hpos : 0 < alpha.val
  · rw [if_pos hpos] at h
    exact h₁.trans (increaseStakeOp_keepsReserves h)
  · rw [if_neg hpos] at h
    rw [← Except.ok.inj h]
    exact h₁

end Frames

/-! ## The reserves after a call -/

theorem decreaseProvided_sum (own provided amount : U64) :
    (decreaseProvided own provided amount).1.val + (decreaseProvided own provided amount).2.val =
      own.val + provided.val - amount.val := by
  unfold decreaseProvided
  rw [Word.val_satSub]
  by_cases hle : amount.val - provided.val = 0
  · rw [if_pos hle]
    dsimp only
    rw [Word.val_satSub]
    omega
  · rw [if_neg hle]
    dsimp only
    rw [Word.val_satSub, Word.val_satSub, Word.val_zero]
    omega

variable {rt : Runtime A B (SwapStorage A)} {cfg : Swap.Config A}
  {chain chain' : Chain A B (SwapStorage A)} {coldkey hotkey : A} {netuid : NetUid}

/-- The reserves of the subnet after an addition, and those of the others. -/
theorem addLiquidity_reserves {tickLow tickHigh : ℤ} {liquidity : U64}
    (h : chain.addLiquidity rt cfg coldkey hotkey netuid tickLow tickHigh liquidity = .ok chain') :
    ∃ chain₁ tao alpha, KeepsReserves chain chain₁ ∧
      chain' = chain₁.withReserves netuid (increaseProvidedReserves · tao alpha) ∧
      chain.principal rt cfg (.addLiquidity coldkey hotkey netuid tickLow tickHigh liquidity) =
        ((tao.val : ℤ), (alpha.val : ℤ)) ∧
      tao.val = Swap.taoWorth tickLow tickHigh liquidity
        (Swap.settlementPrice (chain.swap.pool netuid)) ∧
      alpha.val = Swap.alphaWorth tickLow tickHigh liquidity
        (Swap.settlementPrice (chain.swap.pool netuid)) := by
  unfold addLiquidity at h
  rcases ite_error_eq_ok.mp h with ⟨-, h⟩
  split at h
  · cases h
  · rename_i pool id tao alpha hswap
    have hadd := swapError_eq_ok hswap
    cases hprovide : (chain.withPool netuid pool).provide rt coldkey hotkey netuid tao alpha with
    | error e =>
        rw [hprovide] at h
        cases h
    | ok chain₁ =>
        rw [hprovide] at h
        cases h
        have hpool : KeepsReserves chain (chain.withPool netuid pool) := keepsReserves_of_eq rfl
        refine ⟨chain₁, tao, alpha, hpool.trans (provide_keepsReserves hprovide), rfl, ?_,
          Swap.Pool.doAddLiquidity_tao hadd, Swap.Pool.doAddLiquidity_alpha hadd⟩
        unfold principal
        dsimp only
        rw [hadd]

theorem removeLiquidity_reserves (rt : Runtime A B (SwapStorage A)) (cfg : Swap.Config A) {positionId : Swap.PositionId}
    (h : chain.removeLiquidity rt coldkey hotkey netuid positionId = .ok chain') :
    ∃ chain₁ tao alpha position, KeepsReserves chain chain₁ ∧
      chain' = chain₁.withReserves netuid (decreaseProvidedReserves · tao alpha) ∧
      chain.principal rt cfg (.removeLiquidity coldkey hotkey netuid positionId) =
        (-(tao.val : ℤ), -(alpha.val : ℤ)) ∧
      (chain.swap.pool netuid).positions.lookup (coldkey, positionId) = some position ∧
      tao.val = Swap.taoWorth position.tickLow position.tickHigh position.liquidity
        (chain.swap.pool netuid).alphaSqrtPrice ∧
      alpha.val = Swap.alphaWorth position.tickLow position.tickHigh position.liquidity
        (chain.swap.pool netuid).alphaSqrtPrice := by
  unfold removeLiquidity at h
  rcases ite_error_eq_ok.mp h with ⟨-, h⟩
  split at h
  · cases h
  · rename_i pool result hswap
    have hremove := swapError_eq_ok hswap
    rcases Swap.Pool.doRemoveLiquidity_tao hremove with ⟨position, hlook, htao, -⟩
    rcases Swap.Pool.doRemoveLiquidity_alpha hremove with ⟨position', hlook', halpha, -⟩
    cases hlook.symm.trans hlook'
    split at h
    · cases h
    · rename_i chain₁ hcredit
      cases h
      have hpool : KeepsReserves chain (chain.withPool netuid pool) := keepsReserves_of_eq rfl
      refine ⟨chain₁, result.tao, result.alpha, position,
        hpool.trans (credit_keepsReserves hcredit), rfl, ?_, hlook, htao, halpha⟩
      unfold principal
      dsimp only
      rw [hremove]

/-- A modification keeps the reserves, whatever principal it moves. -/
theorem modifyPosition_reserves {positionId : Swap.PositionId} {liquidityDelta : I64}
    (h : chain.modifyPosition rt cfg coldkey hotkey netuid positionId liquidityDelta =
      .ok chain') :
    ∃ (tao alpha : U64) (position : Swap.Position), KeepsReserves chain chain' ∧
      chain.principal rt cfg
          (.modifyPosition coldkey hotkey netuid positionId liquidityDelta) =
        (if 0 < liquidityDelta.val then ((tao.val : ℤ), (alpha.val : ℤ))
          else (-(tao.val : ℤ), -(alpha.val : ℤ))) ∧
      (chain.swap.pool netuid).positions.lookup (coldkey, positionId) = some position ∧
      tao.val = Swap.taoWorth position.tickLow position.tickHigh
        (Swap.unsignedAbs liquidityDelta) (chain.swap.pool netuid).alphaSqrtPrice ∧
      alpha.val = Swap.alphaWorth position.tickLow position.tickHigh
        (Swap.unsignedAbs liquidityDelta) (chain.swap.pool netuid).alphaSqrtPrice := by
  unfold modifyPosition at h
  rcases ite_error_eq_ok.mp h with ⟨-, h⟩
  split at h
  · cases h
  · rename_i pool result hswap
    have hmodify := swapError_eq_ok hswap
    rcases Swap.Pool.doModifyPosition_tao hmodify with ⟨position, hlook, htao, -⟩
    rcases Swap.Pool.doModifyPosition_alpha hmodify with ⟨position', hlook', halpha, -⟩
    cases hlook.symm.trans hlook'
    extract_lets chain₁ at h
    split at h
    · cases h
    · rename_i chain₂ hsettle
      have hsettled : KeepsReserves chain₁ chain₂ := by
        by_cases hpos : 0 < liquidityDelta.val
        · rw [if_pos hpos] at hsettle
          exact provide_keepsReserves hsettle
        · rw [if_neg hpos] at hsettle
          exact credit_keepsReserves hsettle
      refine ⟨result.tao, result.alpha, position, ?_, ?_, hlook, htao, halpha⟩
      · have hpool : KeepsReserves chain chain₁ := keepsReserves_of_eq rfl
        exact (hpool.trans hsettled).trans (creditFees_keepsReserves h)
      · unfold principal
        dsimp only
        rw [hmodify]

omit [DecidableEq A] in
/-- A change of the reserves of one subnet, seen from another. -/
theorem poolReserves_withReserves_of_ne {n : NetUid} (hne : n ≠ netuid)
    (f : Reserves → Reserves) : (chain.withReserves netuid f).poolReserves n =
      chain.poolReserves n :=
  congrArg reservesTotal (Function.update_of_ne hne _ _)

omit [DecidableEq A] in
theorem poolReserves_withReserves (f : Reserves → Reserves) :
    (chain.withReserves netuid f).poolReserves netuid = reservesTotal (f (chain.reserves netuid)) :=
  congrArg reservesTotal (Function.update_self _ _ _)

theorem reservesTotal_decrease (reserves : Reserves) (tao alpha : U64) :
    reservesTotal (decreaseProvidedReserves reserves tao alpha) =
      (((reserves.subnetTAO.val + reserves.subnetTaoProvided.val - tao.val : ℕ) : ℤ),
        ((reserves.subnetAlphaIn.val + reserves.subnetAlphaInProvided.val - alpha.val : ℕ) : ℤ)) :=
    by
  rw [← decreaseProvided_sum, ← decreaseProvided_sum, Nat.cast_add, Nat.cast_add]
  rfl

/-- **One call.** It leaves the reserves of other subnets alone, and those of its
own follow the principal exactly if what is moved fits and is accounted for. -/
theorem liquidityCall_reserves {call : LiquidityCall A}
    (h : chain.liquidityCall rt cfg call = .ok chain') :
    (∀ n, n ≠ call.netuid → chain'.poolReserves n = chain.poolReserves n) ∧
      (chain'.poolReserves call.netuid =
          chain.poolReserves call.netuid + chain.principal rt cfg call ↔
        chain.ReservesFollow call) := by
  cases call with
  | addLiquidity coldkey hotkey netuid tickLow tickHigh liquidity =>
      dsimp only [LiquidityCall.netuid]
      rcases addLiquidity_reserves h with
        ⟨chain₁, tao, alpha, hkeeps, rfl, hprincipal, htao, halpha⟩
      refine ⟨fun n hne => (poolReserves_withReserves_of_ne hne _).trans (hkeeps n).1, ?_⟩
      rcases hkeeps netuid with ⟨hsum, hprovidedTao, hprovidedAlpha⟩
      show (chain₁.withReserves netuid _).poolReserves netuid = _ ↔ _ ∧ _
      rw [hprincipal, ← htao, ← halpha, poolReserves_withReserves, ← hsum, Prod.ext_iff,
        ← hprovidedTao, ← hprovidedAlpha]
      unfold poolReserves reservesTotal increaseProvidedReserves
      simp only [Prod.fst_add, Prod.snd_add, Word.val_satAdd]
      omega
  | removeLiquidity coldkey hotkey netuid positionId =>
      dsimp only [LiquidityCall.netuid]
      rcases removeLiquidity_reserves rt cfg h with
        ⟨chain₁, tao, alpha, position, hkeeps, rfl, hprincipal, hlook, htao, halpha⟩
      refine ⟨fun n hne => (poolReserves_withReserves_of_ne hne _).trans (hkeeps n).1, ?_⟩
      have hfollow : chain.ReservesFollow (.removeLiquidity coldkey hotkey netuid positionId) ↔
          (tao.val : ℤ) ≤ (chain.poolReserves netuid).1 ∧
            (alpha.val : ℤ) ≤ (chain.poolReserves netuid).2 := by
        rw [htao, halpha]
        constructor
        · intro hall
          exact hall position hlook
        · intro hle position' hlook'
          cases hlook.symm.trans hlook'
          exact hle
      rw [hfollow, ← (hkeeps netuid).1]
      show (chain₁.withReserves netuid _).poolReserves netuid = _ ↔ _
      rw [hprincipal, poolReserves_withReserves, reservesTotal_decrease, Prod.ext_iff]
      unfold poolReserves reservesTotal
      simp only [Prod.fst_add, Prod.snd_add]
      omega
  | modifyPosition coldkey hotkey netuid positionId liquidityDelta =>
      dsimp only [LiquidityCall.netuid]
      rcases modifyPosition_reserves h with
        ⟨tao, alpha, position, hkeeps, hprincipal, hlook, htao, halpha⟩
      refine ⟨fun n _ => (hkeeps n).1, ?_⟩
      have hfollow : chain.ReservesFollow
          (.modifyPosition coldkey hotkey netuid positionId liquidityDelta) ↔
            tao.val = 0 ∧ alpha.val = 0 := by
        rw [htao, halpha]
        constructor
        · intro hall
          exact hall position hlook
        · intro hzero position' hlook'
          cases hlook.symm.trans hlook'
          exact hzero
      rw [hfollow, hprincipal]
      rw [(hkeeps netuid).1, left_eq_add]
      split_ifs
      · rw [Prod.mk_eq_zero]
        omega
      · rw [Prod.mk_eq_zero]
        omega

/-! ## Runs -/

/-- The books match after a call exactly if the reserves follow it. -/
theorem apply_matches_iff {chain₀ : Chain A B (SwapStorage A)} {s : Booked A B}
    (h : s.Matches chain₀) (call : LiquidityCall A) : (s.apply rt cfg call).Matches chain₀ ↔
      ∀ chain', s.chain.liquidityCall rt cfg call = .ok chain' →
        s.chain.ReservesFollow call := by
  unfold Booked.apply
  cases hcall : s.chain.liquidityCall rt cfg call with
  | error e => exact iff_of_true h fun _ hok => nomatch hok
  | ok chain' =>
      rcases liquidityCall_reserves hcall with ⟨hothers, hown⟩
      constructor
      · intro hmatch _ _
        rw [← hown]
        have hnet := hmatch call.netuid
        dsimp only at hnet
        rw [Function.update_self] at hnet
        rw [hnet, h call.netuid, add_assoc]
      · intro hfollow n
        have hnet := hown.mpr (hfollow chain' rfl)
        dsimp only
        rcases eq_or_ne n call.netuid with rfl | hne
        · rw [Function.update_self, hnet, h call.netuid, add_assoc]
        · rw [Function.update_of_ne hne, hothers n hne, h n]

/-- **Reserves follow positions.** Along a run of calls on any subnets by any
accounts, the reserves change by exactly the principal that was paid less what
was paid back, in every state, if and only if they follow every successful
call; and a modification is followed only if it moves no principal. -/
theorem reserves_run_iff (rt : Runtime A B (SwapStorage A)) (cfg : Swap.Config A)
    (chain : Chain A B (SwapStorage A)) (calls : List (LiquidityCall A)) :
    AllStates (Booked.apply rt cfg) (Booked.Matches chain) ⟨chain, fun _ => 0⟩ calls ↔
      AllInputs (Booked.apply rt cfg) (fun s call =>
        ∀ chain', s.chain.liquidityCall rt cfg call = .ok chain' → s.chain.ReservesFollow call)
        ⟨chain, fun _ => 0⟩ calls :=
  allStates_iff_of_step (fun _ call h => apply_matches_iff h call)
    (fun _ => (add_zero _).symm) calls

/-- A position around the price is added, and half of it is withdrawn by a
modification: 17540819 RAO and 6611404 alpha are paid back, and the reserves
keep them. -/
theorem modifyPosition_not_followed :
    ∃ chain₁ chain₂, providerChain.liquidityCall runtime swapConfig
        (.addLiquidity 10 1 (.sat 1) 10000 20000 (.sat 100000000)) = .ok chain₁ ∧
      chain₁.liquidityCall runtime swapConfig
        (.modifyPosition 10 1 (.sat 1) (.sat 2) (.sat (-50000000))) = .ok chain₂ ∧
      chain₁.principal runtime swapConfig
        (.modifyPosition 10 1 (.sat 1) (.sat 2) (.sat (-50000000))) = (-17540819, -6611404) ∧
      chain₂.poolReserves (.sat 1) = chain₁.poolReserves (.sat 1) ∧
      ¬AllStates (Booked.apply runtime swapConfig) (Booked.Matches providerChain)
        ⟨providerChain, fun _ => 0⟩
        [.addLiquidity 10 1 (.sat 1) 10000 20000 (.sat 100000000),
          .modifyPosition 10 1 (.sat 1) (.sat 2) (.sat (-50000000))] := by
  have hadd : (providerChain.liquidityCall runtime swapConfig
      (.addLiquidity 10 1 (.sat 1) 10000 20000 (.sat 100000000))).toOption.map (fun chain =>
        (chain.principal runtime swapConfig
          (.modifyPosition 10 1 (.sat 1) (.sat 2) (.sat (-50000000))),
        (chain.liquidityCall runtime swapConfig
          (.modifyPosition 10 1 (.sat 1) (.sat 2) (.sat (-50000000)))).toOption.map
            fun _ => ())) = some ((-17540819, -6611404), some ()) := by decide +kernel
  rcases exists_ok_of_toOption_map hadd with ⟨chain₁, hcall₁, hrest⟩
  rcases Prod.mk.inj hrest with ⟨hprincipal, hmodify⟩
  rcases exists_ok_of_toOption_map hmodify with ⟨chain₂, hcall₂, -⟩
  rcases modifyPosition_reserves hcall₂ with ⟨-, -, -, hkeeps, -⟩
  refine ⟨chain₁, chain₂, hcall₁, hcall₂, hprincipal, (hkeeps (.sat 1)).1, ?_⟩
  rintro ⟨-, hfirst, hsecond⟩
  have hchain : (Booked.apply runtime swapConfig ⟨providerChain, fun _ => 0⟩
      (.addLiquidity 10 1 (.sat 1) 10000 20000 (.sat 100000000))).chain = chain₁ := by
    unfold Booked.apply
    dsimp only
    rw [hcall₁]
  have hfollow := (apply_matches_iff hfirst _).mp hsecond chain₂ (by rw [hchain]; exact hcall₂)
  rw [hchain] at hfollow
  have hmoved := (liquidityCall_reserves hcall₂).2.mpr hfollow
  rw [hprincipal, (hkeeps _).1, left_eq_add] at hmoved
  exact absurd hmoved (by decide)

end Subtensor.Chain
