import Subtensor.Lib.Run
import Subtensor.Swap.Consistent

/-!
# Positions, their ids and their number

A position gets the id after the last one, so that ids do not repeat. The
number of positions of an account is compared with the maximum before one more
is stored, and may still be equal to it.
-/

namespace Subtensor.Swap

open Subtensor.Lib Subtensor.Lib.Run

variable {A : Type} [DecidableEq A]

namespace Pool

/-- Every position is stored under its own id, and no id is beyond the last. -/
def IdsIssued (pool : Pool A) : Prop :=
  ∀ k position, pool.positions.lookup k = some position →
    position.id = k.2 ∧ k.2.val ≤ pool.lastPositionId.val

end Pool

/-- The account that a call stores a new position for. -/
def Op.creates (cfg : Config A) (pool : Pool A) : Op A → Option A
  | .addLiquidity env coldkey hotkey tickLow tickHigh liquidity =>
      match pool.doAddLiquidity cfg env coldkey hotkey tickLow tickHigh liquidity with
      | .ok _ => some coldkey
      | .error _ => none
  | .swap env orderType amount limitSqrtPrice simulate =>
      if pool.swapV3Initialized ∨ simulate then none
      else match pool.swapInner cfg env orderType amount limitSqrtPrice with
        | .ok _ => some cfg.protocolAccountId
        | .error _ => none
  | _ => none

namespace Pool

variable {cfg : Config A} {pool pool' : Pool A}

/-! ## What a call does to the positions -/

/-- The positions and the last id after one more position for an account. -/
def Stores (pool pool' : Pool A) (owner : A) : Prop :=
  ∃ position : Position, position.id = pool.nextId ∧
    pool'.positions = pool.positions.insert (owner, pool.nextId) position ∧
    pool'.lastPositionId = pool.nextId

/-- Positions are kept, erased, or written again under the same key. -/
def KeepsKeys (pool pool' : Pool A) : Prop :=
  pool.lastPositionId.val ≤ pool'.lastPositionId.val ∧
    (pool'.positions = pool.positions ∨
      (∃ key, pool'.positions = pool.positions.erase key) ∨
      ∃ key old position, pool.positions.lookup key = some old ∧ position.id = old.id ∧
        pool'.positions = pool.positions.insert key position)

theorem KeepsKeys.of_eq (hpos : pool'.positions = pool.positions)
    (hlast : pool'.lastPositionId = pool.lastPositionId) : KeepsKeys pool pool' :=
  ⟨by rw [hlast], Or.inl hpos⟩

theorem withPosition_stores (owner : A) (lo hi : ℤ) (l : U64) :
    Stores pool (pool.withPosition owner lo hi l) owner :=
  ⟨_, rfl, rfl, rfl⟩

/-- Where the price starts does not matter to the positions. -/
theorem maybeInitializeV3_stores {env : Env A} (h : pool.maybeInitializeV3 cfg env = .ok pool')
    (h0 : pool.swapV3Initialized = false) : Stores pool pool' cfg.protocolAccountId := by
  rcases maybeInitializeV3_ok h h0 with ⟨price, rfl⟩
  exact ⟨_, rfl, rfl, rfl⟩

omit [DecidableEq A] in
theorem swapLoop_positions {orderType : OrderType} {limit : SqrtPrice} {n : ℕ} {acc : SwapAcc}
    {res : Pool A × SwapAcc} (h : swapLoop cfg orderType limit n pool acc = .ok res) :
    res.1.positions = pool.positions ∧ res.1.lastPositionId = pool.lastPositionId := by
  refine swapLoop_invariant (I := fun q => q.positions = pool.positions ∧
    q.lastPositionId = pool.lastPositionId) ?_ n pool acc res ⟨rfl, rfl⟩ h
  rintro p p' a r - hp hstep
  rcases SwapStep.processSwap_frame hstep with ⟨_, _, _, _, rfl⟩
  exact hp

theorem withoutPosition_positions (pool : Pool A) (key : A × PositionId)
    (position : Position) :
    (pool.withoutPosition key position).positions = pool.positions.erase key ∧
      (pool.withoutPosition key position).lastPositionId = pool.lastPositionId := by
  rcases removeLiquidityAtIndex_frame pool position.tickLow position.liquidity false with
    ⟨_, _, h₁⟩
  rcases removeLiquidityAtIndex_frame (pool.removeLiquidityAtIndex position.tickLow
    position.liquidity false) position.tickHigh position.liquidity true with ⟨_, _, h₂⟩
  rcases updateLiquidityIfNeeded_frame ((pool.removeLiquidityAtIndex position.tickLow
    position.liquidity false).removeLiquidityAtIndex position.tickHigh position.liquidity true)
    position.tickLow position.tickHigh (negI128 position.liquidity) with ⟨_, h₃⟩
  refine ⟨rfl, ?_⟩
  unfold withoutPosition
  rw [h₃, h₂, h₁]

theorem withModified_lastPositionId (pool : Pool A) (cfg : Config A) (key : A × PositionId)
    (position : Position)
    (sqrtPa sqrtPb : SqrtPrice) (delta : I64) :
    (pool.withModified cfg key position sqrtPa sqrtPb delta).lastPositionId =
      pool.lastPositionId := by
  rcases sqrtPriceBox_frame pool sqrtPa sqrtPb delta with ⟨_, hbox⟩
  rcases modifyTicks_frame (pool.sqrtPriceBox sqrtPa sqrtPb delta).1
    (movedLiquidity cfg position delta) position (decide (0 < delta.val)) with ⟨_, _, hticks⟩
  unfold withModified
  rw [hticks, hbox]

theorem adjustProtocolLiquidity_keepsKeys (h : pool.IdsIssued) (taoDelta alphaDelta : U64) :
    KeepsKeys pool (pool.adjustProtocolLiquidity cfg taoDelta alphaDelta) := by
  unfold adjustProtocolLiquidity
  split
  · exact .of_eq rfl rfl
  · rename_i e he
    have hmem : e ∈ pool.positions.entries.filter fun e => e.1.1 = cfg.protocolAccountId :=
      List.mem_of_head? he
    have howner : e.1.1 = cfg.protocolAccountId := by simpa using (List.mem_filter.mp hmem).2
    have hlook : pool.positions.lookup e.1 = some e.2 :=
      StorageMap.mem_entries_iff.mp (List.mem_filter.mp hmem).1
    split
    · exact .of_eq rfl rfl
    · rename_i tao alpha hamounts
      have hkey : (cfg.protocolAccountId, e.2.id) = e.1 := by
        rw [(h e.1 e.2 hlook).1, ← howner]
      refine ⟨le_rfl, Or.inr (Or.inr ⟨e.1, e.2, { e.2 with
        liquidity := liquidityOfReserves (tao.satAdd taoDelta) (alpha.satAdd alphaDelta) },
        hlook, rfl, ?_⟩)⟩
      show pool.positions.insert (cfg.protocolAccountId, e.2.id) _ = _
      rw [hkey]

/-- **What a call does to the positions.** It stores a new one for the account
that it creates one for, and makes no other key. -/
theorem step_positions (cfg : Config A) (h : pool.IdsIssued) (op : Op A) :
    (∃ owner, op.creates cfg pool = some owner ∧ Stores pool (pool.step cfg op) owner) ∨
      (op.creates cfg pool = none ∧ KeepsKeys pool (pool.step cfg op)) := by
  cases op with
  | addLiquidity env coldkey hotkey tickLow tickHigh liquidity =>
      unfold Op.creates Pool.step okOr
      dsimp only
      cases hadd : pool.doAddLiquidity cfg env coldkey hotkey tickLow tickHigh liquidity with
      | error e => exact Or.inr ⟨rfl, .of_eq rfl rfl⟩
      | ok res =>
          rcases doAddLiquidity_ok hadd with ⟨-, -, -, heq⟩
          refine Or.inl ⟨coldkey, rfl, ?_⟩
          show Stores pool res.1 coldkey
          rw [heq]
          exact withPosition_stores coldkey tickLow tickHigh liquidity
  | removeLiquidity coldkey positionId =>
      refine Or.inr ⟨rfl, ?_⟩
      show KeepsKeys pool (pool.okOr (pool.doRemoveLiquidity coldkey positionId))
      cases hremove : pool.doRemoveLiquidity coldkey positionId with
      | error e => exact .of_eq rfl rfl
      | ok res =>
          rcases doRemoveLiquidity_ok hremove with ⟨position, -, heq, -, -⟩
          have hpos := pool.withoutPosition_positions (coldkey, positionId) position
          show KeepsKeys pool res.1
          rw [heq]
          exact ⟨by rw [hpos.2], Or.inr (Or.inl ⟨_, hpos.1⟩)⟩
  | modifyPosition env coldkey hotkey positionId liquidityDelta =>
      refine Or.inr ⟨rfl, ?_⟩
      show KeepsKeys pool (pool.okOr (pool.doModifyPosition cfg env coldkey hotkey positionId
        liquidityDelta))
      cases hmodify : pool.doModifyPosition cfg env coldkey hotkey positionId liquidityDelta with
      | error e => exact .of_eq rfl rfl
      | ok res =>
          rcases doModifyPosition_ok hmodify with ⟨position, pa, pb, hlook, -, -, -, -, heq, -, -⟩
          have hlast := pool.withModified_lastPositionId cfg
            (coldkey, positionId) position pa pb liquidityDelta
          show KeepsKeys pool res.1
          rw [heq]
          refine ⟨by rw [hlast], ?_⟩
          unfold withModified
          dsimp only
          split
          · exact Or.inr (Or.inl ⟨_, rfl⟩)
          · rw [(h _ _ hlook).1]
            exact Or.inr (Or.inr ⟨_, position, modifiedPosition pool position liquidityDelta,
              hlook, rfl, rfl⟩)
  | swap env orderType amount limitSqrtPrice simulate =>
      show (∃ owner, _ ∧ Stores pool (pool.doSwap cfg env orderType amount limitSqrtPrice
        simulate).1 owner) ∨ (_ ∧ KeepsKeys pool (pool.doSwap cfg env orderType amount
          limitSqrtPrice simulate).1)
      unfold Op.creates doSwap
      dsimp only
      cases hinner : pool.swapInner cfg env orderType amount limitSqrtPrice with
      | error e =>
          refine Or.inr ⟨?_, .of_eq rfl rfl⟩
          split <;> rfl
      | ok res =>
          rcases swapInner_ok hinner with ⟨-, pool₀, acc, hinit, hloop, -⟩
          rcases swapLoop_positions hloop with ⟨hpos, hlast⟩
          cases simulate with
          | true =>
              refine Or.inr ⟨?_, .of_eq rfl rfl⟩
              simp
          | false =>
              cases h0 : pool.swapV3Initialized with
              | true =>
                  rw [maybeInitializeV3_initialized h0] at hinit
                  cases hinit
                  refine Or.inr ⟨by simp, .of_eq hpos hlast⟩
              | false =>
                  rcases maybeInitializeV3_stores hinit h0 with ⟨position, hid, hins, hnext⟩
                  refine Or.inl ⟨cfg.protocolAccountId, by simp, position, hid, ?_, ?_⟩
                  · exact hpos.trans hins
                  · exact hlast.trans hnext
  | setFeeRate rate =>
      refine Or.inr ⟨rfl, ?_⟩
      show KeepsKeys pool (if rate.val ≤ cfg.maxFeeRate.val then _ else pool : Pool A)
      split
      · exact .of_eq rfl rfl
      · exact .of_eq rfl rfl
  | toggleUserLiquidity enable => exact Or.inr ⟨rfl, .of_eq rfl rfl⟩
  | adjustProtocol taoDelta alphaDelta =>
      exact Or.inr ⟨rfl, adjustProtocolLiquidity_keepsKeys h taoDelta alphaDelta⟩
  | otherSubnet positions =>
      refine Or.inr ⟨rfl, ?_, Or.inl rfl⟩
      show pool.lastPositionId.val ≤ (pool.lastPositionId.satAdd (.sat positions)).val
      have := pool.lastPositionId.isLt
      rw [Word.val_satAdd]
      omega

/-! ## Ids -/

theorem fresh_idsIssued (feeRate : U16) (enabled : Bool) (lastPositionId : U128) :
    (fresh feeRate enabled lastPositionId : Pool A).IdsIssued := by
  rintro k position h
  have hnone : (fresh feeRate enabled lastPositionId : Pool A).positions.lookup k = none := rfl
  rw [hnone] at h
  cases h

omit [DecidableEq A] in
theorem le_nextId (pool : Pool A) : pool.lastPositionId.val ≤ pool.nextId.val := by
  have := pool.lastPositionId.isLt
  unfold nextId
  rw [Word.val_satAdd]
  omega

omit [DecidableEq A] in
theorem lt_nextId {pool : Pool A} (h : pool.lastPositionId.val < 2 ^ 128 - 1) :
    pool.lastPositionId.val < pool.nextId.val := by
  have hone : (.sat 1 : U128).val = 1 := rfl
  unfold nextId
  rw [Word.val_satAdd, hone]
  omega

/-- Ids after the last one are not stored. -/
theorem IdsIssued.lookup_none (h : pool.IdsIssued) {k : A × PositionId}
    (hk : pool.lastPositionId.val < k.2.val) : pool.positions.lookup k = none := by
  cases hlook : pool.positions.lookup k with
  | none => rfl
  | some position =>
      have := (h k position hlook).2
      omega

theorem IdsIssued.stores (h : pool.IdsIssued) {owner : A} (hs : Stores pool pool' owner) :
    pool'.IdsIssued := by
  rcases hs with ⟨position, hid, hpos, hlast⟩
  intro k q hq
  rw [hpos] at hq
  rw [hlast]
  rcases eq_or_ne k (owner, pool.nextId) with rfl | hne
  · rw [AList.lookup_insert] at hq
    cases hq
    exact ⟨hid, le_rfl⟩
  · rw [AList.lookup_insert_ne hne] at hq
    exact ⟨(h k q hq).1, (h k q hq).2.trans pool.le_nextId⟩

theorem IdsIssued.keepsKeys (h : pool.IdsIssued) (hs : KeepsKeys pool pool') :
    pool'.IdsIssued := by
  rcases hs with ⟨hlast, hpos | ⟨key, hpos⟩ | ⟨key, old, position, hlook, hid, hpos⟩⟩
  · intro k q hq
    rw [hpos] at hq
    exact ⟨(h k q hq).1, (h k q hq).2.trans hlast⟩
  · intro k q hq
    rw [hpos] at hq
    rcases eq_or_ne k key with rfl | hne
    · rw [AList.lookup_erase] at hq
      cases hq
    · rw [AList.lookup_erase_ne hne] at hq
      exact ⟨(h k q hq).1, (h k q hq).2.trans hlast⟩
  · intro k q hq
    rw [hpos] at hq
    rcases eq_or_ne k key with rfl | hne
    · rw [AList.lookup_insert] at hq
      cases hq
      exact ⟨hid.trans (h k old hlook).1, (h k old hlook).2.trans hlast⟩
    · rw [AList.lookup_insert_ne hne] at hq
      exact ⟨(h k q hq).1, (h k q hq).2.trans hlast⟩

theorem IdsIssued.step (h : pool.IdsIssued) (op : Op A) : (pool.step cfg op).IdsIssued := by
  rcases step_positions cfg h op with ⟨owner, -, hs⟩ | ⟨-, hs⟩
  · exact h.stores hs
  · exact h.keepsKeys hs

theorem Initial.idsIssued (h : Initial cfg pool) : pool.IdsIssued := by
  rcases h with ⟨env, feeRate, enabled, lastPositionId, -, -, hinit⟩
  exact (fresh_idsIssued feeRate enabled lastPositionId).stores (maybeInitializeV3_stores hinit rfl)

theorem step_lastPositionId (h : pool.IdsIssued) (op : Op A) :
    pool.lastPositionId.val ≤ (pool.step cfg op).lastPositionId.val := by
  rcases step_positions cfg h op with ⟨owner, -, position, -, -, hlast⟩ | ⟨-, hlast, -⟩
  · rw [hlast]
    exact pool.le_nextId
  · exact hlast

theorem run_lastPositionId (h : pool.IdsIssued) (ops : List (Op A)) :
    pool.lastPositionId.val ≤ (pool.run cfg ops).lastPositionId.val := by
  induction ops generalizing pool with
  | nil => exact le_rfl
  | cons op ops ih => exact (step_lastPositionId h op).trans (ih (h.step op))

/-- An id after the last one was not issued or stored in any state of the run. -/
theorem IdsIssued.allStates_lookup (h : pool.IdsIssued) (ops : List (Op A)) {id : PositionId}
    (hid : (pool.run cfg ops).lastPositionId.val < id.val) :
    AllStates (Pool.step cfg) (fun q => q.lastPositionId.val < id.val ∧
      ∀ account, q.positions.lookup (account, id) = none) pool ops := by
  induction ops generalizing pool with
  | nil => exact ⟨hid, fun account => h.lookup_none hid⟩
  | cons op ops ih =>
      have hlt := (run_lastPositionId h (op :: ops)).trans_lt hid
      exact ⟨⟨hlt, fun account => h.lookup_none hlt⟩, ih (h.step op) hid⟩

theorem doAddLiquidity_id {env : Env A} {coldkey hotkey : A} {lo hi : ℤ} {l : U64}
    {id : PositionId} {r : U64 × U64}
    (h : pool.doAddLiquidity cfg env coldkey hotkey lo hi l = .ok (pool', id, r)) :
    id = pool.nextId := by
  unfold doAddLiquidity at h
  rcases ite_error_eq_ok.mp h with ⟨-, h⟩
  cases hadd : pool.addLiquidityNotInsert cfg coldkey lo hi l with
  | error e =>
      rw [hadd] at h
      cases h
  | ok res =>
      rw [hadd] at h
      rcases ite_error_eq_ok.mp h with ⟨-, h⟩
      rcases ite_error_eq_ok.mp h with ⟨-, h⟩
      cases h
      exact (addLiquidityNotInsert_ok hadd).2.2.2

/-! ## The number of positions -/

theorem countPositions_eq (pool : Pool A) (account : A) : pool.countPositions account =
    StorageMap.sumBy (fun k _ => if k.1 = account then 1 else 0) pool.positions :=
  (StorageMap.sumBy_ite (fun k : A × PositionId => k.1 = account) pool.positions).symm

theorem countPositions_stores (h : pool.IdsIssued) {owner : A} (hs : Stores pool pool' owner)
    (hlast : pool'.lastPositionId.val < 2 ^ 128 - 1) (account : A) :
    pool'.countPositions account =
      (if owner = account then 1 else 0) + pool.countPositions account := by
  rcases hs with ⟨position, -, hpos, hnext⟩
  have hlt : pool.lastPositionId.val < pool.nextId.val := by
    refine lt_nextId (pool.le_nextId.trans_lt ?_)
    rw [← hnext]
    exact hlast
  rw [countPositions_eq, countPositions_eq, hpos,
    StorageMap.sumBy_insert_new _ _ (h.lookup_none hlt)]

theorem countPositions_keepsKeys (hs : KeepsKeys pool pool') (account : A) :
    pool'.countPositions account ≤ pool.countPositions account := by
  rw [countPositions_eq, countPositions_eq]
  rcases hs with ⟨-, hpos | ⟨key, hpos⟩ | ⟨key, old, position, hlook, -, hpos⟩⟩
  · rw [hpos]
  · rw [hpos, ← StorageMap.sumBy_erase_elim _ pool.positions key]
    exact Nat.le_add_right _ _
  · rw [hpos, StorageMap.sumBy_insert, StorageMap.sumBy_erase _ hlook]

/-! ## Runs -/

def WithinCap (cfg : Config A) (pool : Pool A) : Prop :=
  ∀ account, pool.countPositions account ≤ cfg.maxPositions.val

/-- A new position finds room for one more. -/
def FindsRoom (cfg : Config A) (pool : Pool A) (op : Op A) : Prop :=
  ∀ account, op.creates cfg pool = some account →
    pool.countPositions account < cfg.maxPositions.val

theorem step_withinCap_iff (h : pool.IdsIssued) (hcap : pool.WithinCap cfg) (op : Op A)
    (hlast : (pool.step cfg op).lastPositionId.val < 2 ^ 128 - 1) :
    (pool.step cfg op).WithinCap cfg ↔ pool.FindsRoom cfg op := by
  unfold FindsRoom
  rcases step_positions cfg h op with ⟨owner, hcreates, hs⟩ | ⟨hcreates, hs⟩
  · have hcount := countPositions_stores h hs hlast
    rw [hcreates]
    constructor
    · rintro hcap' account ⟨⟩
      have hle := hcap' owner
      rw [hcount, if_pos rfl] at hle
      omega
    · intro hroom account
      rw [hcount]
      by_cases heq : owner = account
      · have hlt := hroom owner rfl
        rw [if_pos heq, ← heq]
        omega
      · rw [if_neg heq, Nat.zero_add]
        exact hcap account
  · rw [hcreates]
    refine iff_of_true ?_ ?_
    · intro account
      exact (countPositions_keepsKeys hs account).trans (hcap account)
    · rintro account ⟨⟩

theorem allStates_withinCap_iff (h : pool.IdsIssued) (hcap : pool.WithinCap cfg)
    (ops : List (Op A)) (hlast : (pool.run cfg ops).lastPositionId.val < 2 ^ 128 - 1) :
    AllStates (Pool.step cfg) (WithinCap cfg) pool ops ↔
      AllInputs (Pool.step cfg) (FindsRoom cfg) pool ops := by
  induction ops generalizing pool with
  | nil => exact ⟨fun _ => trivial, fun _ => hcap⟩
  | cons op ops ih =>
      have hstep := step_withinCap_iff h hcap op
        ((run_lastPositionId (h.step op) ops).trans_lt hlast)
      constructor
      · rintro ⟨-, hrest⟩
        exact ⟨hstep.mp hrest.head, (ih (h.step op) hrest.head hlast).mp hrest⟩
      · rintro ⟨hroom, hrest⟩
        have hcap' := hstep.mpr hroom
        exact ⟨hcap, (ih (h.step op) hcap' hlast).mpr hrest⟩

/-- **Positions of a run.** Before the ids run out, the number of positions of
every account stays within the maximum exactly if every new position finds
less than the maximum. The id of a new position is beyond the last one that was
issued before, on this subnet or on another, and it was not stored before. It is
the last one and is stored then. -/
theorem positionCap_run_iff (cfg : Config A) (feeRate : U16) (enabled : Bool)
    (lastPositionId : U128) (ops : List (Op A))
    (hlast : ((fresh feeRate enabled lastPositionId : Pool A).run cfg ops).lastPositionId.val <
      2 ^ 128 - 1) :
    (AllStates (Pool.step cfg) (WithinCap cfg) (fresh feeRate enabled lastPositionId) ops ↔
      AllInputs (Pool.step cfg) (FindsRoom cfg) (fresh feeRate enabled lastPositionId) ops) ∧
    ∀ (env : Env A) (coldkey hotkey : A) (lo hi : ℤ) (l : U64) (pool' : Pool A) (id : PositionId)
      (r : U64 × U64),
      ((fresh feeRate enabled lastPositionId).run cfg ops).doAddLiquidity cfg env coldkey hotkey
        lo hi l = .ok (pool', id, r) →
      AllStates (Pool.step cfg) (fun q => q.lastPositionId.val < id.val ∧
        ∀ account, q.positions.lookup (account, id) = none)
        (fresh feeRate enabled lastPositionId) ops ∧
      pool'.lastPositionId = id ∧ (pool'.positions.lookup (coldkey, id)).isSome := by
  have hids := fresh_idsIssued (A := A) feeRate enabled lastPositionId
  refine ⟨allStates_withinCap_iff hids ?_ ops hlast, ?_⟩
  · exact fun account => Nat.zero_le _
  · intro env coldkey hotkey lo hi l pool' id r hadd
    have hid := doAddLiquidity_id hadd
    rcases doAddLiquidity_ok hadd with ⟨-, -, -, hpool⟩
    refine ⟨hids.allStates_lookup ops ?_, ?_, ?_⟩
    · rw [hid]
      exact lt_nextId hlast
    · rw [hpool, hid]
      rfl
    · rw [hpool, hid]
      unfold withPosition
      rw [AList.lookup_insert]
      rfl

/-- A pool is initialised and the account `10` adds a number of positions. -/
def fillOps (n : ℕ) : List (Op ℕ) :=
  .swap mockEnv .buy 0 0 false ::
    List.replicate n (.addLiquidity mockEnv 10 1 (-10) 10 (.sat 100000))

/-- After a hundred positions there is room for one more. -/
theorem positionCap_run_filled :
    ¬AllStates (Pool.step mockConfig) (WithinCap mockConfig) (fresh (.sat 196) true 0)
      (fillOps 101) := by
  intro h
  have hcap := h.foldl 10
  have hcount : ((fillOps 101).foldl (Pool.step mockConfig)
      (fresh (.sat 196) true 0)).countPositions 10 = 101 := by decide +kernel
  rw [hcount] at hcap
  exact absurd hcap (by decide)

/-- A run that initialises a pool and adds three positions, which find room. -/
theorem positionCap_run_iff_threePositions :
    (AllStates (Pool.step mockConfig) (WithinCap mockConfig) (fresh (.sat 196) true 0)
        (fillOps 3) ↔
      AllInputs (Pool.step mockConfig) (FindsRoom mockConfig) (fresh (.sat 196) true 0)
        (fillOps 3)) ∧
      ((fillOps 3).foldl (Pool.step mockConfig)
        (fresh (.sat 196) true 0)).countPositions 10 = 3 :=
  ⟨(positionCap_run_iff mockConfig (.sat 196) true 0 (fillOps 3) (by decide +kernel)).1,
    by decide +kernel⟩

end Pool

end Subtensor.Swap
