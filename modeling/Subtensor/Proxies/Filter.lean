import Subtensor.Lib.FixedPoint

/-!
# Calls and the types of proxies

The calls of the runtime, as far as proxies tell them apart, and what a proxy of
each type may do (`InstanceFilter<RuntimeCall> for ProxyType` in
`runtime/src/lib.rs`). Calls of the utility pallet and of the proxy pallet hold
other calls. Of a call of another pallet there is what the filters read, and its
other data.
-/

namespace Subtensor.Proxies

open Lib

abbrev BlockNumber := U32

inductive ProxyType where
  | any
  | owner
  | nonCritical
  | nonTransfer
  | senate
  | nonFungibile
  | triumvirate
  | governance
  | staking
  | registration
  | transfer
  | smallTransfer
  | rootWeights
  | childKeys
  | sudoUncheckedSetCode
  | swapHotkey
deriving DecidableEq

/-- The position of a type in the enumeration, by which definitions are sorted. -/
def ProxyType.index : ProxyType → ℕ
  | .any => 0
  | .owner => 1
  | .nonCritical => 2
  | .nonTransfer => 3
  | .senate => 4
  | .nonFungibile => 5
  | .triumvirate => 6
  | .governance => 7
  | .staking => 8
  | .registration => 9
  | .transfer => 10
  | .smallTransfer => 11
  | .rootWeights => 12
  | .childKeys => 13
  | .sudoUncheckedSetCode => 14
  | .swapHotkey => 15

inductive BalancesCall where
  | transferKeepAlive (value : U64)
  | transferAllowDeath (value : U64)
  | transferAll
  | other
deriving DecidableEq

inductive SubtensorCall where
  | transferStake (alphaAmount : U64)
  | scheduleSwapColdkey
  | swapColdkey
  | addStake
  | addStakeLimit
  | removeStake
  | removeStakeLimit
  | removeStakeFullLimit
  | unstakeAll
  | unstakeAllAlpha
  | swapStake
  | swapStakeLimit
  | moveStake
  | burnedRegister
  | rootRegister
  | register
  | swapHotkey
  | dissolveNetwork
  | setTaoWeights
  | setChildren
  | setChildkeyTake
  | other
deriving DecidableEq

inductive AdminUtilsCall where
  | sudoSetSnOwnerHotkey
  | other
deriving DecidableEq

inductive SudoCall where
  /-- With whether the call inside is `System::set_code`. -/
  | sudoUncheckedWeight (setsCode : Bool)
  | other
deriving DecidableEq

/-- A call that is not of the utility pallet or the proxy pallet. -/
inductive PlainCall where
  | balances (call : BalancesCall)
  | subtensorModule (call : SubtensorCall)
  | adminUtils (call : AdminUtilsCall)
  | triumvirate
  | triumvirateMembers
  | senateMembers
  | sudo (call : SudoCall)
  | other
deriving DecidableEq

/-- An origin before it has filters. -/
inductive RawOrigin (A : Type) where
  | root
  | signed (who : A)
  | none
deriving DecidableEq

inductive RuntimeCall (A H D : Type) where
  | plain (call : PlainCall) (data : D)
  | batch (calls : List (RuntimeCall A H D))
  | asDerivative (index : U16) (call : RuntimeCall A H D)
  | batchAll (calls : List (RuntimeCall A H D))
  | dispatchAs (asOrigin : RawOrigin A) (call : RuntimeCall A H D)
  | forceBatch (calls : List (RuntimeCall A H D))
  | withWeight (call : RuntimeCall A H D)
  | proxy (real : A) (forceProxyType : Option ProxyType) (call : RuntimeCall A H D)
  | addProxy (delegate : A) (proxyType : ProxyType) (delay : BlockNumber)
  | removeProxy (delegate : A) (proxyType : ProxyType) (delay : BlockNumber)
  | removeProxies
  | createPure (proxyType : ProxyType) (delay : BlockNumber) (index : U16)
  | killPure (spawner : A) (proxyType : ProxyType) (index : U16) (height : BlockNumber)
      (extIndex : U32)
  | announce (real : A) (callHash : H)
  | removeAnnouncement (real : A) (callHash : H)
  | rejectAnnouncement (delegate : A) (callHash : H)
  | proxyAnnounced (delegate real : A) (forceProxyType : Option ProxyType)
      (call : RuntimeCall A H D)

def smallTransferLimit : ℕ := 500000000

namespace ProxyType

variable {A H D : Type}

/-- `filter` for the calls of other pallets. -/
def filterPlain : ProxyType → PlainCall → Bool
  | .any, _ => true
  | .nonTransfer, call =>
      !(match call with
        | .balances _ => true
        | .subtensorModule (.transferStake _) => true
        | .subtensorModule .scheduleSwapColdkey => true
        | .subtensorModule .swapColdkey => true
        | _ => false)
  | .nonFungibile, call =>
      !(match call with
        | .balances _ => true
        | .subtensorModule .addStake => true
        | .subtensorModule .addStakeLimit => true
        | .subtensorModule .removeStake => true
        | .subtensorModule .removeStakeLimit => true
        | .subtensorModule .removeStakeFullLimit => true
        | .subtensorModule .unstakeAll => true
        | .subtensorModule .unstakeAllAlpha => true
        | .subtensorModule .swapStake => true
        | .subtensorModule .swapStakeLimit => true
        | .subtensorModule .moveStake => true
        | .subtensorModule (.transferStake _) => true
        | .subtensorModule .burnedRegister => true
        | .subtensorModule .rootRegister => true
        | .subtensorModule .scheduleSwapColdkey => true
        | .subtensorModule .swapColdkey => true
        | .subtensorModule .swapHotkey => true
        | _ => false)
  | .transfer, call =>
      match call with
      | .balances (.transferKeepAlive _) => true
      | .balances (.transferAllowDeath _) => true
      | .balances .transferAll => true
      | .subtensorModule (.transferStake _) => true
      | _ => false
  | .smallTransfer, call =>
      match call with
      | .balances (.transferKeepAlive value) => decide (value.val < smallTransferLimit)
      | .balances (.transferAllowDeath value) => decide (value.val < smallTransferLimit)
      | .subtensorModule (.transferStake alphaAmount) =>
          decide (alphaAmount.val < smallTransferLimit)
      | _ => false
  | .owner, call =>
      (match call with
        | .adminUtils _ => true
        | _ => false) &&
      !(match call with
        | .adminUtils .sudoSetSnOwnerHotkey => true
        | _ => false)
  | .nonCritical, call =>
      !(match call with
        | .subtensorModule .dissolveNetwork => true
        | .subtensorModule .rootRegister => true
        | .subtensorModule .burnedRegister => true
        | .triumvirate => true
        | .subtensorModule .setTaoWeights => true
        | .sudo _ => true
        | _ => false)
  | .triumvirate, call =>
      match call with
      | .triumvirate => true
      | .triumvirateMembers => true
      | _ => false
  | .senate, call =>
      match call with
      | .senateMembers => true
      | _ => false
  | .governance, call =>
      match call with
      | .senateMembers => true
      | .triumvirate => true
      | .triumvirateMembers => true
      | _ => false
  | .staking, call =>
      match call with
      | .subtensorModule .addStake => true
      | .subtensorModule .removeStake => true
      | .subtensorModule .unstakeAll => true
      | .subtensorModule .unstakeAllAlpha => true
      | .subtensorModule .swapStake => true
      | .subtensorModule .swapStakeLimit => true
      | .subtensorModule .moveStake => true
      | .subtensorModule .addStakeLimit => true
      | .subtensorModule .removeStakeLimit => true
      | .subtensorModule .removeStakeFullLimit => true
      | _ => false
  | .registration, call =>
      match call with
      | .subtensorModule .burnedRegister => true
      | .subtensorModule .register => true
      | _ => false
  | .rootWeights, call =>
      match call with
      | .subtensorModule .setTaoWeights => true
      | _ => false
  | .childKeys, call =>
      match call with
      | .subtensorModule .setChildren => true
      | .subtensorModule .setChildkeyTake => true
      | _ => false
  | .sudoUncheckedSetCode, call =>
      match call with
      | .sudo (.sudoUncheckedWeight setsCode) => setsCode
      | _ => false
  | .swapHotkey, call =>
      match call with
      | .subtensorModule .swapHotkey => true
      | _ => false

/-- Whether a type lets through the calls that it does not name. -/
def filterOthers : ProxyType → Bool
  | .any => true
  | .nonTransfer => true
  | .nonFungibile => true
  | .nonCritical => true
  | _ => false

/-- `filter`: no type names a call of the utility pallet or of the proxy pallet. -/
def filter (proxyType : ProxyType) : RuntimeCall A H D → Bool
  | .plain call _ => proxyType.filterPlain call
  | _ => proxyType.filterOthers

def isSuperset (self o : ProxyType) : Bool :=
  if self = o then true
  else match self, o with
    | .any, _ => true
    | _, .any => false
    | .nonTransfer, o =>
        !(match o with
          | .transfer => true
          | .smallTransfer => true
          | _ => false)
    | .governance, .triumvirate => true
    | .governance, .senate => true
    | .transfer, .smallTransfer => true
    | _, _ => false

/-! ## Supersets -/

@[simp] theorem isSuperset_self (t : ProxyType) : t.isSuperset t = true := by
  unfold isSuperset
  rw [if_pos rfl]

theorem isSuperset_cases {a b : ProxyType} (h : a.isSuperset b = true) :
    a = b ∨ a = .any ∨ (a = .nonTransfer ∧ b ≠ .any ∧ b ≠ .transfer ∧ b ≠ .smallTransfer) ∨
      (a = .governance ∧ (b = .triumvirate ∨ b = .senate)) ∨ (a = .transfer ∧ b = .smallTransfer) := by
  cases a <;> cases b <;> first | decide | exact absurd h (by decide)

theorem isSuperset_trans {a b c : ProxyType} (hab : a.isSuperset b = true)
    (hbc : b.isSuperset c = true) : a.isSuperset c = true := by
  rcases isSuperset_cases hab with rfl | rfl | ⟨rfl, hany, htransfer, hsmall⟩ |
    ⟨rfl, rfl | rfl⟩ | ⟨rfl, rfl⟩
  · exact hbc
  · cases c <;> rfl
  · rcases isSuperset_cases hbc with rfl | rfl | ⟨rfl, -⟩ | ⟨rfl, rfl | rfl⟩ | ⟨rfl, rfl⟩
    · exact hab
    · exact absurd rfl hany
    · exact hbc
    · rfl
    · rfl
    · exact absurd rfl htransfer
  · cases c <;> first | rfl | cases hbc
  · cases c <;> first | rfl | cases hbc
  · cases c <;> first | rfl | cases hbc

/-- What a type without transfers keeps back, a type that it is a superset of
keeps back too, with one exception. -/
theorem filterPlain_of_nonTransfer {t : ProxyType} {call : PlainCall} (hany : t ≠ .any)
    (htransfer : t ≠ .transfer) (hsmall : t ≠ .smallTransfer) (hcritical : t ≠ .nonCritical)
    (h : t.filterPlain call = true) : ProxyType.nonTransfer.filterPlain call = true := by
  cases t with
  | any => exact absurd rfl hany
  | transfer => exact absurd rfl htransfer
  | smallTransfer => exact absurd rfl hsmall
  | nonCritical => exact absurd rfl hcritical
  | nonTransfer => exact h
  | _ =>
      cases call with
      | balances call => cases h
      | subtensorModule call => cases call <;> first | rfl | cases h
      | _ => rfl

/-- **A superset admits what the other type admits**, except that the type without
transfers is a superset of the one without critical calls, which admits transfers. -/
theorem filterPlain_of_isSuperset {a b : ProxyType} {call : PlainCall}
    (hsuperset : a.isSuperset b = true) (hne : ¬(a = .nonTransfer ∧ b = .nonCritical))
    (h : b.filterPlain call = true) : a.filterPlain call = true := by
  rcases isSuperset_cases hsuperset with rfl | rfl | ⟨rfl, hany, htransfer, hsmall⟩ |
    ⟨rfl, rfl | rfl⟩ | ⟨rfl, rfl⟩
  · exact h
  · rfl
  · exact filterPlain_of_nonTransfer hany htransfer hsmall (fun hb => hne ⟨rfl, hb⟩) h
  · cases call <;> first | rfl | cases h
  · cases call <;> first | rfl | cases h
  · cases call with
    | balances call => cases call <;> first | rfl | cases h
    | subtensorModule call => cases call <;> first | rfl | cases h
    | _ => cases h

end ProxyType

end Subtensor.Proxies
