import Subtensor.Lib.Digraph
import Subtensor.Lib.StorageMap
import Subtensor.Pallet.Types

/-!
# Parents and children of a subnet

The storage items `ChildKeys`, `ParentKeys` and `PendingChildKeys` of one
subnet with the functions that edit them
(`pallets/subtensor/src/staking/set_children.rs` and the parts of
`swap/swap_hotkey.rs` that rewrite them). `ChildKeys` and `ParentKeys` are
the two copies of one weighted graph.
-/

namespace Subtensor.Children

open Lib Lib.Digraph

variable {A : Type}

abbrev Request (A : Type) := List (U64 × A) × U64

/-- The graph of one subnet. An absent list is the empty list. -/
structure SubnetGraph (A : Type) where
  childKeys : Links A U64
  parentKeys : Links A U64
  pendingChildKeys : StorageMap A (Request A)

def SubnetGraph.empty : SubnetGraph A where
  childKeys := fun _ => []
  parentKeys := fun _ => []
  pendingChildKeys := ∅

section

variable [DecidableEq A]

/-! ## Scheduling a request -/

/-- `try_fold` with `checked_add` over the proportions. -/
def totalProportion (children : List (U64 × A)) : Option U64 :=
  children.foldlM (fun acc e =>
    if h : acc.val + e.1.val < 2 ^ 64 then some ⟨acc.val + e.1.val, h⟩ else none) 0

def hasDuplicate : List A → List A → Bool
  | _, [] => false
  | unique, child :: rest => unique.contains child || hasDuplicate (unique ++ [child]) rest

/-- The checks of `do_schedule_children` on the list of children. -/
def checkChildren (hotkey : A) (children : List (U64 × A)) : Except Error Unit :=
  if ¬children.length ≤ 5 then .error .tooManyChildren
  else if children.any (·.2 = hotkey) then .error .invalidChild
  else match totalProportion children with
  | none => .error .proportionOverflow
  | some _ =>
      if hasDuplicate [] (names children) then .error .duplicateChild
      else .ok ()

namespace SubnetGraph

/-- The insertion at the end of `do_schedule_children`. -/
def schedule (graph : SubnetGraph A) (hotkey : A) (children : List (U64 × A))
    (cooldownBlock : U64) : SubnetGraph A :=
  { graph with
    pendingChildKeys := graph.pendingChildKeys.insert hotkey (children, cooldownBlock) }

/-! ## Applying the requests -/

def setChildren (graph : SubnetGraph A) (hotkey : A) (children : List (U64 × A)) :
    SubnetGraph A :=
  { graph with
    childKeys := Function.update graph.childKeys hotkey children
    parentKeys :=
      link (unlink graph.parentKeys hotkey (names (graph.childKeys hotkey))) hotkey children }

def applyRequest (currentBlock : U64) (graph : SubnetGraph A) (entry : A × Request A) :
    SubnetGraph A :=
  if entry.2.2.val < currentBlock.val then
    let graph := graph.setChildren entry.1 entry.2.1
    { graph with pendingChildKeys := graph.pendingChildKeys.erase entry.1 }
  else graph

/-- `do_set_pending_children`. The entries are visited in the order of their
hashed keys, which is an argument; an entry is removed only after it was
visited. -/
def doSetPendingChildren (graph : SubnetGraph A) (currentBlock : U64)
    (entries : List (A × Request A)) : SubnetGraph A :=
  entries.foldl (applyRequest currentBlock) graph

/-! ## Replacing a hotkey -/

/-- The two passes of `perform_hotkey_swap_on_one_subnet` over `ChildKeys`
and `ParentKeys`. -/
def swapLinks (graph : SubnetGraph A) (oldHotkey newHotkey : A) : SubnetGraph A :=
  let myChildren := graph.childKeys oldHotkey
  let childKeys :=
    Function.update (Function.update graph.childKeys oldHotkey []) newHotkey myChildren
  let parentKeys := renameAll graph.parentKeys oldHotkey newHotkey (names myChildren)
  let parents := parentKeys oldHotkey
  let parentKeys :=
    Function.update (Function.update parentKeys oldHotkey []) newHotkey parents
  { graph with
    childKeys := renameAll childKeys oldHotkey newHotkey (names parents)
    parentKeys := parentKeys }

def movePending (graph : SubnetGraph A) (oldHotkey newHotkey : A) :
    StorageMap A (Request A) :=
  match graph.pendingChildKeys.lookup oldHotkey with
  | none => graph.pendingChildKeys
  | some request => (graph.pendingChildKeys.erase oldHotkey).insert newHotkey request

/-- A request that names the old hotkey: its first entry for it is taken out
and appended under the new name. -/
def renameRequest (oldHotkey newHotkey : A) (request : Request A) : Request A :=
  match request.1.findIdx? (·.2 = oldHotkey) with
  | none => request
  | some index =>
      match request.1[index]? with
      | none => request
      | some entry => (request.1.eraseIdx index ++ [(entry.1, newHotkey)], request.2)

def swapHotkey (graph : SubnetGraph A) (oldHotkey newHotkey : A) : SubnetGraph A :=
  { graph.swapLinks oldHotkey newHotkey with
    pendingChildKeys :=
      (graph.movePending oldHotkey newHotkey).mapValues
        fun _ request => renameRequest oldHotkey newHotkey request }

end SubnetGraph

end

end Subtensor.Children
