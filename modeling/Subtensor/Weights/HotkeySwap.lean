import Subtensor.Registration.UidRuns
import Subtensor.Weights.Crv3

/-!
# Pending commits and hotkey swaps

A hotkey swap hands the queue of commits to the new hotkey, but a commit is the
hash of weights together with the hotkey that commits, so the new hotkey finds
no match. Timelocked commits are not handed over: they stay with the old hotkey,
which has no slot any more.
-/

namespace Subtensor.Network

open Lib

variable {A B P H : Type} [DecidableEq A]

/-! ## The swap -/

/-- The queue of the old hotkey goes to the new one. -/
def moveCommits (weights : SubnetWeights A H) (oldHotkey newHotkey : A) : SubnetWeights A H :=
  match weights.weightCommits oldHotkey with
  | none => weights
  | some oldWeightCommits =>
      { weights with
        weightCommits := Function.update (Function.update weights.weightCommits oldHotkey none)
          newHotkey (some oldWeightCommits) }

/-- Step 3.5 of `perform_hotkey_swap_on_one_subnet`. The chain is that before
the swap: a turn of the loop over the subnets changes no membership on another
subnet. -/
def swapWeightCommits (chain : Chain A B P) (oldHotkey newHotkey : A)
    (weights : NetUid → SubnetWeights A H) (netuid : NetUid) : NetUid → SubnetWeights A H :=
  if (chain.isNetworkMember.lookup (oldHotkey, netuid)).getD false then
    Function.update weights netuid (moveCommits (weights netuid) oldHotkey newHotkey)
  else weights

/-- `do_swap_hotkey`, with the weights of the subnets. -/
def doSwapHotkey (rt : Runtime A B P) (net : Network A B P H) (coldkey oldHotkey newHotkey : A)
    (onSubnet : Option NetUid) : Except Error (Network A B P H) :=
  match net.chain.doSwapHotkey rt coldkey oldHotkey newHotkey onSubnet with
  | .error e => .error e
  | .ok chain =>
      .ok ⟨chain, (net.chain.swappedSubnets onSubnet).foldl
        (swapWeightCommits net.chain oldHotkey newHotkey) net.weights⟩

/-! ## Statements -/

section

variable [DecidableEq H]

end

section

variable {rt : Runtime A B P} {net net' : Network A B P H} {netuid : NetUid}
  {coldkey oldHotkey newHotkey : A} {onSubnet : Option NetUid}

/-- The swap of a hotkey with a slot: who has a slot then, and what the new
hotkey can reveal. -/
structure Swapped (net net' : Network A B P H) (netuid : NetUid) (oldHotkey newHotkey : A)
    (onSubnet : Option NetUid) : Prop where
  tempo : net'.tempo netuid = net.tempo netuid
  period : net'.getRevealPeriod netuid = net.getRevealPeriod netuid
  queue : (net.commitsOf netuid oldHotkey) ≠ [] →
    net'.commitsOf netuid newHotkey = net.commitsOf netuid
      (if netuid ∈ net.chain.swappedSubnets onSubnet then oldHotkey else newHotkey)
  slots : (net'.chain.neurons netuid).uids oldHotkey = none ∨
    (net'.chain.neurons netuid).uids newHotkey = none

end

/-! ## The equivalence -/

section

variable [DecidableEq H] {hashOf : A → NetUid → Reveal → H} {rt : Runtime A B P}
  {net net' : Network A B P H} {netuid : NetUid} {coldkey oldHotkey newHotkey : A}
  {onSubnet : Option NetUid}

omit [DecidableEq A] [DecidableEq H] in
/-- The schedule of a subnet depends on its tempo, its period and the block. -/
theorem Swapped.schedule (hswapped : Swapped net net' netuid oldHotkey newHotkey onSubnet)
    (block commitBlock : U64) :
    (net'.atBlock block).isRevealBlockRange netuid commitBlock =
        (net.atBlock block).isRevealBlockRange netuid commitBlock ∧
      (net'.atBlock block).isCommitExpired netuid commitBlock =
        (net.atBlock block).isCommitExpired netuid commitBlock := by
  have htempo : (net'.atBlock block).tempo netuid = (net.atBlock block).tempo netuid :=
    hswapped.tempo
  have hperiod : (net'.atBlock block).getRevealPeriod netuid =
      (net.atBlock block).getRevealPeriod netuid := hswapped.period
  have hblock : (net'.atBlock block).chain.block = (net.atBlock block).chain.block := rfl
  simp only [isRevealBlockRange, isCommitExpired, revealEpoch, getEpochIndex, htempo, hperiod,
    hblock]
  exact ⟨rfl, rfl⟩

end

/-! ## A commit that can not be revealed -/

end Subtensor.Network
