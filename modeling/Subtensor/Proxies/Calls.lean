import Subtensor.Proxies.Filter
import Subtensor.Lib.Balances
import Mathlib.Data.Prod.Lex

/-!
# The proxy pallet

The storage of the proxy pallet and what its calls do to it
(`pallets/proxy/src/lib.rs`): proxies, announcements, and the deposits for both.
The calls that hold other calls are in the next module.
-/

namespace Subtensor.Proxies

open Lib

abbrev Balance := U64

inductive Error where
  | tooMany
  | notFound
  | notProxy
  | duplicate
  | noPermission
  | unannounced
  | noSelfProxy
  | tooManyCalls
  | badOrigin
  | callFiltered
  | insufficientBalance
  /-- An error of another pallet. -/
  | other (code : ℕ)
deriving DecidableEq

structure ProxyDefinition (A : Type) where
  delegate : A
  proxyType : ProxyType
  delay : BlockNumber
deriving DecidableEq

structure Announcement (A H : Type) where
  real : A
  callHash : H
  height : BlockNumber

inductive Event (A H : Type) where
  | batchInterrupted (index : ℕ) (error : Error)
  | batchCompleted
  | batchCompletedWithErrors
  | itemCompleted
  | itemFailed (error : Error)
  | dispatchedAs (error : Option Error)
  | proxyExecuted (error : Option Error)
  | pureCreated (pure who : A) (proxyType : ProxyType) (disambiguationIndex : U16)
  | announced (real proxy : A) (callHash : H)
  | proxyAdded (delegator delegatee : A) (proxyType : ProxyType) (delay : BlockNumber)
  | proxyRemoved (delegator delegatee : A) (proxyType : ProxyType) (delay : BlockNumber)

/-- What a call of another pallet does. It writes the storage of other pallets, and it
may have a call dispatched with an origin of its own (`finalize` of the crowdloan
pallet, `sudo`, `as_multi`) and go on with what comes back. -/
inductive Script (A H D W : Type) where
  | fail (error : Error)
  | done (world : W) (balances : Balances A)
  | dispatch (world : W) (balances : Balances A) (bypassFilter : Bool) (origin : RawOrigin A)
      (call : RuntimeCall A H D) (next : Option Error → W → Balances A → Script A H D W)

/-- The constants of both pallets, the hashes, and the rest of the runtime: what
the safe mode lets through, what the calls of other pallets do, and how deep the
calls nest that these dispatch. -/
structure Config (A H D W : Type) where
  proxyDepositBase : Balance
  proxyDepositFactor : Balance
  maxProxies : U32
  maxPending : U32
  announcementDepositBase : Balance
  announcementDepositFactor : Balance
  batchedCallsLimit : ℕ
  hashOf : RuntimeCall A H D → H
  /-- `pure_account`, with the height and the index of the extrinsic. -/
  pureAccount : A → ProxyType → U16 → BlockNumber × U32 → A
  derivativeAccountId : A → U16 → A
  safeMode : W → RuntimeCall A H D → Bool
  plain : RawOrigin A → PlainCall → D → W → Balances A → Script A H D W
  depth : ℕ

structure State (A H D W : Type) where
  proxies : StorageMap A (List (ProxyDefinition A) × Balance)
  announcements : StorageMap A (List (Announcement A H) × Balance)
  balances : Balances A
  blockNumber : BlockNumber
  extrinsicIndex : U32
  /-- The storage of other pallets. -/
  world : W
  events : List (Event A H)
  /-- The calls of other pallets so far, with their origins. -/
  executed : List (RawOrigin A × PlainCall)
  /-- The calls that these have dispatched, with their origins. -/
  dispatched : List (RawOrigin A × RuntimeCall A H D)

/-! ## Proxies -/

def ProxyDefinition.key {A : Type} (definition : ProxyDefinition A) : A ×ₗ ℕ ×ₗ ℕ :=
  toLex (definition.delegate, toLex (definition.proxyType.index, definition.delay.val))

variable {A H D W : Type} [LinearOrder A] [DecidableEq H]

/-- `binary_search` in a sorted vector: where the definition is, or where it has
its place. -/
def binarySearch (proxies : List (ProxyDefinition A)) (definition : ProxyDefinition A) :
    Except ℕ ℕ :=
  match proxies.idxOf? definition with
  | some i => .ok i
  | none => .error (proxies.takeWhile fun d => decide (d.key < definition.key)).length

/-- The reserve follows the deposit. -/
def adjustReserve (balances : Balances A) (who : A) (oldDeposit newDeposit : Balance) :
    Except Error (Balances A) :=
  if oldDeposit.val < newDeposit.val then
    match balances.reserve who (newDeposit.satSub oldDeposit).val with
    | none => .error .insufficientBalance
    | some balances => .ok balances
  else if newDeposit.val < oldDeposit.val then
    .ok (balances.release who (oldDeposit.satSub newDeposit).val)
  else .ok balances

namespace Config

def deposit (cfg : Config A H D W) (numProxies : U32) : Balance :=
  if numProxies = 0 then 0
  else cfg.proxyDepositBase.satAdd (.sat (cfg.proxyDepositFactor.val * numProxies.val))

end Config

/-- `rejig_deposit`: the deposit for what is left, if something is. -/
def rejigDeposit (balances : Balances A) (who : A) (oldDeposit base factor : Balance) (len : ℕ) :
    Except Error (Balances A × Option Balance) :=
  let newDeposit : Balance :=
    if len = 0 then 0 else base.satAdd (.sat (factor.val * (Word.wrap len : U32).val))
  (adjustReserve balances who oldDeposit newDeposit).map fun balances =>
    (balances, if len = 0 then none else some newDeposit)

namespace State

def deposit (s : State A H D W) (event : Event A H) : State A H D W :=
  { s with events := s.events ++ [event] }

/-- The definitions of the proxies of an account. -/
def proxiesOf (s : State A H D W) (real : A) : List (ProxyDefinition A) :=
  ((s.proxies.lookup real).getD ([], 0)).1

def addProxyDelegate (cfg : Config A H D W) (s : State A H D W) (delegator delegatee : A)
    (proxyType : ProxyType) (delay : BlockNumber) : Except Error (State A H D W) :=
  if delegator = delegatee then .error .noSelfProxy
  else
    let (proxies, deposit) := (s.proxies.lookup delegator).getD ([], 0)
    let definition : ProxyDefinition A := ⟨delegatee, proxyType, delay⟩
    match binarySearch proxies definition with
    | .ok _ => .error .duplicate
    | .error i =>
        if ¬proxies.length < cfg.maxProxies.val then .error .tooMany
        else
          let proxies := proxies.insertIdx i definition
          let newDeposit := cfg.deposit (.wrap proxies.length)
          match adjustReserve s.balances delegator deposit newDeposit with
          | .error e => .error e
          | .ok balances =>
              .ok (({ s with
                proxies := s.proxies.insert delegator (proxies, newDeposit)
                balances := balances } : State A H D W).deposit
                  (.proxyAdded delegator delegatee proxyType delay))

def removeProxyDelegate (cfg : Config A H D W) (s : State A H D W) (delegator delegatee : A)
    (proxyType : ProxyType) (delay : BlockNumber) : Except Error (State A H D W) :=
  match s.proxies.lookup delegator with
  | none => .error .notFound
  | some (proxies, oldDeposit) =>
      match binarySearch proxies ⟨delegatee, proxyType, delay⟩ with
      | .error _ => .error .notFound
      | .ok i =>
          let proxies := proxies.eraseIdx i
          let newDeposit := cfg.deposit (.wrap proxies.length)
          match adjustReserve s.balances delegator oldDeposit newDeposit with
          | .error e => .error e
          | .ok balances =>
              .ok (({ s with
                proxies := if proxies.isEmpty then s.proxies.erase delegator
                  else s.proxies.insert delegator (proxies, newDeposit)
                balances := balances } : State A H D W).deposit
                  (.proxyRemoved delegator delegatee proxyType delay))

/-- `Proxies::take`, and the reserve of an account that gets the deposit back. -/
def takeProxies (s : State A H D W) (who payer : A) : State A H D W :=
  { s with
    proxies := s.proxies.erase who
    balances := s.balances.release payer ((s.proxies.lookup who).getD ([], 0)).2.val }

def removeAllProxyDelegates (s : State A H D W) (delegator : A) : State A H D W :=
  s.takeProxies delegator delegator

def createPure (cfg : Config A H D W) (s : State A H D W) (who : A) (proxyType : ProxyType)
    (delay : BlockNumber) (index : U16) : Except Error (State A H D W) :=
  let pure := cfg.pureAccount who proxyType index (s.blockNumber, s.extrinsicIndex)
  if (s.proxies.lookup pure).isSome then .error .duplicate
  else if ¬1 ≤ cfg.maxProxies.val then .error .tooMany
  else
    let deposit := cfg.proxyDepositBase.satAdd cfg.proxyDepositFactor
    match s.balances.reserve who deposit.val with
    | none => .error .insufficientBalance
    | some balances =>
        .ok (({ s with
          proxies := s.proxies.insert pure ([⟨who, proxyType, delay⟩], deposit)
          balances := balances } : State A H D W).deposit (.pureCreated pure who proxyType index))

def killPure (cfg : Config A H D W) (s : State A H D W) (who spawner : A) (proxyType : ProxyType)
    (index : U16) (height : BlockNumber) (extIndex : U32) : Except Error (State A H D W) :=
  if cfg.pureAccount spawner proxyType index (height, extIndex) ≠ who then .error .noPermission
  else .ok (s.takeProxies who spawner)

def findProxy (s : State A H D W) (real delegate : A) (forceProxyType : Option ProxyType) :
    Except Error (ProxyDefinition A) :=
  match (s.proxiesOf real).find? fun x =>
      decide (x.delegate = delegate) && (forceProxyType.elim true fun y => decide (x.proxyType = y))
    with
  | none => .error .notProxy
  | some definition => .ok definition

/-! ## Announcements -/

def announce (cfg : Config A H D W) (s : State A H D W) (who real : A) (callHash : H) :
    Except Error (State A H D W) :=
  match (s.proxiesOf real).find? fun x => decide (x.delegate = who) with
  | none => .error .notProxy
  | some _ =>
      let (pending, deposit) := (s.announcements.lookup who).getD ([], 0)
      if ¬pending.length < cfg.maxPending.val then .error .tooMany
      else
        let pending := pending ++ [⟨real, callHash, s.blockNumber⟩]
        match rejigDeposit s.balances who deposit cfg.announcementDepositBase
            cfg.announcementDepositFactor pending.length with
        | .error e => .error e
        | .ok (balances, newDeposit) =>
            .ok (({ s with
              announcements := s.announcements.insert who (pending, newDeposit.getD deposit)
              balances := balances } : State A H D W).deposit (.announced real who callHash))

/-- `edit_announcements`: only the announcements with `f` stay, and at least one
goes. -/
def editAnnouncements (cfg : Config A H D W) (s : State A H D W) (delegate : A)
    (f : Announcement A H → Bool) : Except Error (State A H D W) :=
  match s.announcements.lookup delegate with
  | none => .error .notFound
  | some (pending, oldDeposit) =>
      let kept := pending.filter f
      if ¬kept.length < pending.length then .error .notFound
      else
        match rejigDeposit s.balances delegate oldDeposit cfg.announcementDepositBase
            cfg.announcementDepositFactor kept.length with
        | .error e => .error e
        | .ok (balances, none) =>
            .ok { s with announcements := s.announcements.erase delegate, balances := balances }
        | .ok (balances, some deposit) =>
            .ok { s with
              announcements := s.announcements.insert delegate (kept, deposit)
              balances := balances }

def removeAnnouncement (cfg : Config A H D W) (s : State A H D W) (who real : A) (callHash : H) :
    Except Error (State A H D W) :=
  s.editAnnouncements cfg who fun ann => decide (ann.real ≠ real ∨ ann.callHash ≠ callHash)

def rejectAnnouncement (cfg : Config A H D W) (s : State A H D W) (who delegate : A)
    (callHash : H) : Except Error (State A H D W) :=
  s.editAnnouncements cfg delegate fun ann => decide (ann.real ≠ who ∨ ann.callHash ≠ callHash)

/-- The storage of other pallets is written. -/
def write (s : State A H D W) (world : W) (balances : Balances A) : State A H D W :=
  { s with world := world, balances := balances }

def logExecuted (s : State A H D W) (caller : RawOrigin A) (call : PlainCall) : State A H D W :=
  { s with executed := s.executed ++ [(caller, call)] }

def logDispatched (s : State A H D W) (origin : RawOrigin A) (call : RuntimeCall A H D) :
    State A H D W :=
  { s with dispatched := s.dispatched ++ [(origin, call)] }

end State

/-- How a call is dispatched for another pallet, with the filters or past them. -/
abbrev Dispatcher (A H D W : Type) :=
  Bool → RawOrigin A → State A H D W → RuntimeCall A H D → Except Error (State A H D W)

/-- A call that is dispatched is rolled back if it fails. -/
def Script.run (nested : Dispatcher A H D W) (s : State A H D W) :
    Script A H D W → Except Error (State A H D W)
  | .fail e => .error e
  | .done world balances => .ok (s.write world balances)
  | .dispatch world balances bypassFilter origin call next =>
      let s := s.write world balances
      match nested bypassFilter origin (s.logDispatched origin call) call with
      | .error e => run nested s (next (some e) s.world s.balances)
      | .ok s' => run nested s' (next none s'.world s'.balances)

/-- A call of another pallet. -/
def State.plain (cfg : Config A H D W) (nested : Dispatcher A H D W) (s : State A H D W)
    (caller : RawOrigin A) (call : PlainCall) (data : D) : Except Error (State A H D W) :=
  (cfg.plain caller call data s.world s.balances).run nested (s.logExecuted caller call)

end Subtensor.Proxies
