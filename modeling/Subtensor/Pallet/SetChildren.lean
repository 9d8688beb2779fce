import Subtensor.Pallet.Chain

/-!
# Setting children

`do_schedule_children` and `do_set_pending_children` on the storage of the
chain (`pallets/subtensor/src/staking/set_children.rs`), and the runs they
make up.
-/

namespace Subtensor.Chain

open Lib Children

variable {A B P : Type} [DecidableEq A]

/-- `check_passes_rate_limit`. -/
def checkPassesRateLimit (limit : ℕ) (block lastBlock : U64) : Bool :=
  lastBlock.val = 0 || limit ≤ (block.satSub lastBlock).val

/-- The rate limit of `TransactionType::SetChildren`, in blocks. -/
def setChildrenRateLimit : ℕ := 150

/-- The graph of the subnet after `f`. -/
def withGraph (chain : Chain A B P) (netuid : NetUid)
    (f : SubnetGraph A → SubnetGraph A) : Chain A B P :=
  { chain with graph := Function.update chain.graph netuid (f (chain.graph netuid)) }

omit [DecidableEq A] in
@[simp] theorem withGraph_graph_self (chain : Chain A B P) (netuid : NetUid)
    (f : SubnetGraph A → SubnetGraph A) :
    (chain.withGraph netuid f).graph netuid = f (chain.graph netuid) := Function.update_self ..

omit [DecidableEq A] in
theorem withGraph_graph_of_ne (chain : Chain A B P) {netuid n : NetUid} (h : n ≠ netuid)
    (f : SubnetGraph A → SubnetGraph A) :
    (chain.withGraph netuid f).graph n = chain.graph n := Function.update_of_ne h ..

/-- `set_last_transaction_block_on_subnet` for `SetChildren`. -/
def setLastSetChildren (chain : Chain A B P) (hotkey : A) (netuid : NetUid) : Chain A B P :=
  { chain with lastBlocks :=
    { chain.lastBlocks with
      setChildren := Function.update chain.lastBlocks.setChildren hotkey
        (Function.update (chain.lastBlocks.setChildren hotkey) netuid chain.block) } }

/-- The parent has the minimum stake, or is the owner of the subnet. -/
def hasStakeForChildren (rt : Runtime A B P) (chain : Chain A B P) (hotkey : A)
    (netuid : NetUid) (children : List (U64 × A)) : Bool :=
  children.isEmpty ||
    chain.params.stakeThreshold.val ≤ (chain.getTotalStakeForHotkey rt hotkey).val ||
    (chain.subnets netuid).subnetOwnerHotkey = some hotkey

def doScheduleChildren (rt : Runtime A B P) (chain : Chain A B P) (coldkey hotkey : A)
    (netuid : NetUid) (children : List (U64 × A)) : Except Error (Chain A B P) :=
  if ¬checkPassesRateLimit setChildrenRateLimit chain.block
      (chain.lastBlocks.setChildren hotkey netuid) then .error .txRateLimitExceeded
  else if netuid.isRoot then .error .registrationNotPermittedOnRootSubnet
  else if ¬chain.ifSubnetExist netuid then .error .subNetworkDoesNotExist
  else if ¬chain.coldkeyOwnsHotkey coldkey hotkey then .error .nonAssociatedColdKey
  else match checkChildren hotkey children with
  | .error e => .error e
  | .ok () =>
      if ¬chain.hasStakeForChildren rt hotkey netuid children then
        .error .notEnoughStakeToSetChildkeys
      else
        .ok ((chain.setLastSetChildren hotkey netuid).withGraph netuid fun graph =>
          graph.schedule hotkey children (chain.block.satAdd chain.params.pendingChildKeyCooldown))

/-- The requests of a subnet, in the order of the storage map. -/
def pendingEntries (chain : Chain A B P) (netuid : NetUid) : List (A × Request A) :=
  (chain.graph netuid).pendingChildKeys.entries.map fun e => (e.1, e.2)

/-- `do_set_pending_children`, which visits the requests in the order of
`entries`. -/
def doSetPendingChildren (chain : Chain A B P) (netuid : NetUid)
    (entries : List (A × Request A)) : Chain A B P :=
  chain.withGraph netuid fun graph => graph.doSetPendingChildren chain.block entries

/-- One step of a run: a request is scheduled, the requests of a subnet are
applied in some order, or anything but the graphs changes. -/
inductive ChildStep (rt : Runtime A B P) : Chain A B P → Chain A B P → Prop where
  | schedule {chain chain' : Chain A B P} (coldkey hotkey : A) (netuid : NetUid)
      (children : List (U64 × A)) :
      chain.doScheduleChildren rt coldkey hotkey netuid children = .ok chain' →
      ChildStep rt chain chain'
  | setPending {chain : Chain A B P} (netuid : NetUid) (entries : List (A × Request A)) :
      entries.Perm (chain.pendingEntries netuid) →
      ChildStep rt chain (chain.doSetPendingChildren netuid entries)
  | other {chain chain' : Chain A B P} : chain'.graph = chain.graph → ChildStep rt chain chain'

end Subtensor.Chain
