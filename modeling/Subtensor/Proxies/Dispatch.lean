import Subtensor.Proxies.Calls
import Subtensor.Lib.Run

/-!
# Calls that hold calls

The utility pallet (`pallets/utility/src/lib.rs`) and the calls of the proxy
pallet that dispatch others, by recursion on the call. An origin carries filters
that the calls inside inherit; a proxy acts with a new origin, whose only filter
is that of its type, and so does a call that another pallet dispatches, with no
filter. Every dispatch is rolled back if it fails.
-/

namespace Subtensor.Proxies

open Lib

/-- A filter that was added to an origin. -/
inductive Restriction where
  | proxied (t : ProxyType)
  | noBatchAll

/-- An origin, and the filters it has beside the base filter. -/
structure Origin (A : Type) where
  caller : RawOrigin A
  filters : List Restriction

variable {A H D W : Type}

namespace RuntimeCall

def isBatch : RuntimeCall A H D → Bool
  | .batch _ => true
  | .batchAll _ => true
  | .forceBatch _ => true
  | _ => false

/-- `NoNestingCallFilter`. -/
def noNesting : RuntimeCall A H D → Bool
  | .batch calls => !calls.any isBatch
  | .batchAll calls => !calls.any isBatch
  | .forceBatch calls => !calls.any isBatch
  | _ => true

end RuntimeCall

/-- The filter that `do_proxy` adds, or the one that `batch_all` adds. -/
def Restriction.allows (restriction : Restriction) (call : RuntimeCall A H D) : Bool :=
  match restriction with
  | .noBatchAll =>
      match call with
      | .batchAll _ => false
      | _ => true
  | .proxied t =>
      match call with
      | .addProxy _ proxyType _ => t.isSuperset proxyType && t.filter call
      | .removeProxy _ proxyType _ => t.isSuperset proxyType && t.filter call
      | .removeProxies => decide (t = .any) && t.filter call
      | .killPure .. => decide (t = .any) && t.filter call
      | _ => t.filter call

namespace Origin

/-- A new origin. -/
def of (caller : RawOrigin A) : Origin A := ⟨caller, []⟩

def addFilter (origin : Origin A) (restriction : Restriction) : Origin A :=
  { origin with filters := restriction :: origin.filters }

/-- `filter_call`: root has no filters. -/
def filterCall (cfg : Config A H D W) (world : W) (origin : Origin A)
    (call : RuntimeCall A H D) : Bool :=
  match origin.caller with
  | .root => true
  | _ => cfg.safeMode world call && call.noNesting &&
      origin.filters.all fun restriction => restriction.allows call

/-- The origin with which a proxy acts. -/
def proxied (real : A) (definition : ProxyDefinition A) : Origin A :=
  (Origin.of (.signed real)).addFilter (.proxied definition.proxyType)

/-- The origin of the calls in a `batch_all`. -/
def inBatchAll (origin : Origin A) : Origin A :=
  match origin.caller with
  | .root => origin
  | _ => origin.addFilter .noBatchAll

end Origin

/-- A dispatch with the filters of an origin. -/
def filtered {S : Type} (allowed : Bool) (result : Except Error S) : Except Error S :=
  if allowed then result else .error .callFiltered

namespace State

/-- The event of a dispatch, after it. -/
def settle {S : Type} (s : S) (result : Except Error S) (event : Option Error → S → S) : S :=
  match result with
  | .error e => event (some e) s
  | .ok s' => event none s'

end State

variable [LinearOrder A] [DecidableEq H]

mutual

def dispatchBypassFilter (cfg : Config A H D W) (nested : Dispatcher A H D W)
    (origin : Origin A) (s : State A H D W) :
    RuntimeCall A H D → Except Error (State A H D W)
  | .plain call data => s.plain cfg nested origin.caller call data
  | .batch calls =>
      if origin.caller = .none then .error .badOrigin
      else if ¬calls.length ≤ cfg.batchedCallsLimit then .error .tooManyCalls
      else .ok (batchItems cfg nested origin s 0 calls)
  | .asDerivative index call =>
      match origin.caller with
      | .signed who =>
          let derived : Origin A :=
            { origin with caller := .signed (cfg.derivativeAccountId who index) }
          filtered (derived.filterCall cfg s.world call)
            (dispatchBypassFilter cfg nested derived s call)
      | _ => .error .badOrigin
  | .batchAll calls =>
      if origin.caller = .none then .error .badOrigin
      else if ¬calls.length ≤ cfg.batchedCallsLimit then .error .tooManyCalls
      else batchAllItems cfg nested origin.inBatchAll s calls
  | .dispatchAs asOrigin call =>
      if origin.caller ≠ .root then .error .badOrigin
      else .ok (State.settle s (dispatchBypassFilter cfg nested (.of asOrigin) s call)
        fun error s => s.deposit (.dispatchedAs error))
  | .forceBatch calls =>
      if origin.caller = .none then .error .badOrigin
      else if ¬calls.length ≤ cfg.batchedCallsLimit then .error .tooManyCalls
      else .ok (forceBatchItems cfg nested origin s false calls)
  | .withWeight call =>
      if origin.caller ≠ .root then .error .badOrigin
      else dispatchBypassFilter cfg nested (.of .root) s call
  | .proxy real forceProxyType call =>
      match origin.caller with
      | .signed who =>
          match s.findProxy real who forceProxyType with
          | .error e => .error e
          | .ok definition =>
              if definition.delay ≠ 0 then .error .unannounced
              else .ok (State.settle s
                (filtered ((Origin.proxied real definition).filterCall cfg s.world call)
                  (dispatchBypassFilter cfg nested (.proxied real definition) s call))
                fun error s => s.deposit (.proxyExecuted error))
      | _ => .error .badOrigin
  | .addProxy delegate proxyType delay =>
      match origin.caller with
      | .signed who => s.addProxyDelegate cfg who delegate proxyType delay
      | _ => .error .badOrigin
  | .removeProxy delegate proxyType delay =>
      match origin.caller with
      | .signed who => s.removeProxyDelegate cfg who delegate proxyType delay
      | _ => .error .badOrigin
  | .removeProxies =>
      match origin.caller with
      | .signed who => .ok (s.removeAllProxyDelegates who)
      | _ => .error .badOrigin
  | .createPure proxyType delay index =>
      match origin.caller with
      | .signed who => s.createPure cfg who proxyType delay index
      | _ => .error .badOrigin
  | .killPure spawner proxyType index height extIndex =>
      match origin.caller with
      | .signed who => s.killPure cfg who spawner proxyType index height extIndex
      | _ => .error .badOrigin
  | .announce real callHash =>
      match origin.caller with
      | .signed who => s.announce cfg who real callHash
      | _ => .error .badOrigin
  | .removeAnnouncement real callHash =>
      match origin.caller with
      | .signed who => s.removeAnnouncement cfg who real callHash
      | _ => .error .badOrigin
  | .rejectAnnouncement delegate callHash =>
      match origin.caller with
      | .signed who => s.rejectAnnouncement cfg who delegate callHash
      | _ => .error .badOrigin
  | .proxyAnnounced delegate real forceProxyType call =>
      match origin.caller with
      | .signed _ =>
          match s.findProxy real delegate forceProxyType with
          | .error e => .error e
          | .ok definition =>
              match s.editAnnouncements cfg delegate fun ann =>
                  decide (ann.real ≠ real ∨ ann.callHash ≠ cfg.hashOf call ∨
                    (s.blockNumber.satSub ann.height).val < definition.delay.val) with
              | .error _ => .error .unannounced
              | .ok s =>
                  .ok (State.settle s
                    (filtered ((Origin.proxied real definition).filterCall cfg s.world call)
                      (dispatchBypassFilter cfg nested (.proxied real definition) s call))
                    fun error s => s.deposit (.proxyExecuted error))
      | _ => .error .badOrigin

/-- The calls of a `batch`, up to the first one that fails. -/
def batchItems (cfg : Config A H D W) (nested : Dispatcher A H D W) (origin : Origin A)
    (s : State A H D W) (index : ℕ) :
    List (RuntimeCall A H D) → State A H D W
  | [] => s.deposit .batchCompleted
  | call :: calls =>
      match filtered (origin.filterCall cfg s.world call)
          (dispatchBypassFilter cfg nested origin s call) with
      | .error e => s.deposit (.batchInterrupted index e)
      | .ok s => batchItems cfg nested origin (s.deposit .itemCompleted) (index + 1) calls

/-- The calls of a `batch_all`, of which none may fail. -/
def batchAllItems (cfg : Config A H D W) (nested : Dispatcher A H D W) (origin : Origin A)
    (s : State A H D W) :
    List (RuntimeCall A H D) → Except Error (State A H D W)
  | [] => .ok (s.deposit .batchCompleted)
  | call :: calls =>
      match filtered (origin.filterCall cfg s.world call)
          (dispatchBypassFilter cfg nested origin s call) with
      | .error e => .error e
      | .ok s => batchAllItems cfg nested origin (s.deposit .itemCompleted) calls

/-- The calls of a `force_batch`, and whether one has failed. -/
def forceBatchItems (cfg : Config A H D W) (nested : Dispatcher A H D W) (origin : Origin A)
    (s : State A H D W) (hasError : Bool) : List (RuntimeCall A H D) → State A H D W
  | [] => s.deposit (if hasError then .batchCompletedWithErrors else .batchCompleted)
  | call :: calls =>
      match filtered (origin.filterCall cfg s.world call)
          (dispatchBypassFilter cfg nested origin s call) with
      | .error e => forceBatchItems cfg nested origin (s.deposit (.itemFailed e)) true calls
      | .ok s => forceBatchItems cfg nested origin (s.deposit .itemCompleted) hasError calls

end

/-- The calls that other pallets dispatch, as deep as they nest. -/
def nestedDispatch (cfg : Config A H D W) : ℕ → Dispatcher A H D W
  | 0, _, _, _, _ => .error (.other 0)
  | depth + 1, bypassFilter, origin, s, call =>
      filtered (bypassFilter || (Origin.of origin).filterCall cfg s.world call)
        (dispatchBypassFilter cfg (nestedDispatch cfg depth) (.of origin) s call)

/-- `dispatch`: with the filters of the origin. -/
def dispatch (cfg : Config A H D W) (origin : Origin A) (s : State A H D W)
    (call : RuntimeCall A H D) : Except Error (State A H D W) :=
  filtered (origin.filterCall cfg s.world call)
    (dispatchBypassFilter cfg (nestedDispatch cfg cfg.depth) origin s call)

/-! ## Runs -/

inductive Input (A H D W : Type) where
  /-- An account signs a call. -/
  | extrinsic (who : A) (call : RuntimeCall A H D)
  /-- Root makes a call, one that was scheduled. -/
  | rootCall (call : RuntimeCall A H D)
  /-- What other pallets do between calls, and the blocks that pass. -/
  | environment (world : W) (balances : Balances A) (blockNumber : BlockNumber)
      (extrinsicIndex : U32)

def apply (cfg : Config A H D W) (s : State A H D W) : Input A H D W → State A H D W
  | .extrinsic who call => (dispatch cfg (.of (.signed who)) s call).toOption.getD s
  | .rootCall call => (dispatch cfg (.of .root) s call).toOption.getD s
  | .environment world balances blockNumber extrinsicIndex =>
      { s with
        world := world
        balances := balances
        blockNumber := blockNumber
        extrinsicIndex := extrinsicIndex }

end Subtensor.Proxies
