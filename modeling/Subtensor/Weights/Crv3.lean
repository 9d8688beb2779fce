import Subtensor.Emission.Clock
import Subtensor.Weights.CommitReveal

/-!
# Timelocked commits

`do_commit_crv3_weights` (`pallets/subtensor/src/subnets/weights.rs`) stores a
commit under an epoch; `reveal_crv3_commits`
(`pallets/subtensor/src/coinbase/run_coinbase.rs`) takes the commits of one epoch
out when the epoch of the subnet is run, in the step of a block. What a commit is
decrypted to is a parameter.
-/

namespace Subtensor

open Lib

/-! ## Storage -/

structure WeightsTlockPayload where
  uids : List U16
  values : List U16
  versionKey : U64

/-- What a run of `reveal_crv3_commits` took out: the current epoch, the epoch
under which the commits were stored, and the commits. -/
structure Crv3Reveal (A : Type) where
  curEpoch : U64
  revealEpoch : U64
  entries : List (Crv3Commit A)
deriving DecidableEq

namespace Network

variable {A B P H : Type}

/-- The commits stored under an epoch. -/
def crv3CommitsOf (net : Network A B P H) (netuid : NetUid) (epoch : U64) : List (Crv3Commit A) :=
  ((net.weights netuid).crv3WeightCommits.lookup epoch).getD []

def withCrv3 (net : Network A B P H) (netuid : NetUid)
    (f : StorageMap U64 (List (Crv3Commit A)) → StorageMap U64 (List (Crv3Commit A))) :
    Network A B P H :=
  net.withWeights netuid
    { net.weights netuid with crv3WeightCommits := f (net.weights netuid).crv3WeightCommits }

/-! ## The commit -/

/-- A commit in the block of an epoch run belongs to the next epoch. -/
def crv3CommitEpoch (net : Network A B P H) (netuid : NetUid) : U64 :=
  if net.chain.shouldRunEpoch netuid then
    (net.getEpochIndex netuid net.chain.block).satAdd (.sat 1)
  else net.getEpochIndex netuid net.chain.block

section

variable [DecidableEq A]

def doCommitCrv3Weights (net : Network A B P H) (who : A) (netuid : NetUid) (commit : List UInt8)
    (revealRound : U64) : Except Error (Network A B P H) :=
  if ¬(net.weights netuid).commitRevealWeightsEnabled then .error .commitRevealDisabled
  else match (net.chain.neurons netuid).uids who with
  | none => .error .hotKeyNotRegisteredInSubNet
  | some neuronUid =>
      if ¬net.checkRateLimit netuid neuronUid net.chain.block then
        .error .committingWeightsTooFast
      else
        let curEpoch := net.crv3CommitEpoch netuid
        let commits := net.crv3CommitsOf netuid curEpoch
        if ¬(commits.filter (·.who = who)).length < 10 then .error .tooManyUnrevealedCommits
        else
          let net := net.withCrv3 netuid fun stored =>
            stored.insert curEpoch (commits ++ [⟨who, commit, revealRound⟩])
          .ok (net.withChain (net.chain.setLastUpdateForUid netuid neuronUid net.chain.block))

end

/-! ## The reveal -/

/-- The epoch whose commits are revealed. -/
def crv3RevealEpoch (net : Network A B P H) (netuid : NetUid) : U64 :=
  (net.getEpochIndex netuid net.chain.block).satSub ((net.getRevealPeriod netuid).satSub (.sat 1))

/-- The loop that removes what was stored under earlier epochs. -/
def cleanCrv3Commits (epoch : U64) (stored : StorageMap U64 (List (Crv3Commit A))) :
    StorageMap U64 (List (Crv3Commit A)) :=
  (stored.keys.filter (·.val < epoch.val)).foldl (fun stored key => stored.erase key) stored

/-- The cleaning, and the commits that are taken out. -/
def takeCrv3Commits (net : Network A B P H) (netuid : NetUid) :
    Network A B P H × Crv3Reveal A :=
  let curEpoch := net.getEpochIndex netuid net.chain.block
  let revealEpoch := net.crv3RevealEpoch netuid
  let net := net.withCrv3 netuid (cleanCrv3Commits revealEpoch)
  if curEpoch.val < 2 then (net, ⟨curEpoch, revealEpoch, []⟩)
  else (net.withCrv3 netuid (·.erase revealEpoch),
    ⟨curEpoch, revealEpoch, net.crv3CommitsOf netuid revealEpoch⟩)

variable [DecidableEq A]

/-- One turn of the loop: a commit that can not be decrypted, or whose weights
are refused, is skipped. -/
def revealCrv3Commit (decrypt : Crv3Commit A → Option WeightsTlockPayload) (netuid : NetUid)
    (net : Network A B P H) (entry : Crv3Commit A) : Network A B P H :=
  match decrypt entry with
  | none => net
  | some payload =>
      match net.doSetWeights entry.who netuid payload.uids payload.values payload.versionKey with
      | .error _ => net
      | .ok net => net

def revealCrv3Commits (decrypt : Crv3Commit A → Option WeightsTlockPayload)
    (net : Network A B P H) (netuid : NetUid) : Network A B P H × Crv3Reveal A :=
  let taken := net.takeCrv3Commits netuid
  (taken.2.entries.foldl (revealCrv3Commit decrypt netuid) taken.1, taken.2)

/-! ## The block -/

/-- The network, and the reveals so far. -/
abbrev Revealed (A B P H : Type) := Network A B P H × List (NetUid × Crv3Reveal A)

/-- The turn of a subnet in the epoch loop of `run_coinbase`. -/
def drainIfDue (rt : Runtime A B P) (epoch : Epoch A B P)
    (decrypt : Crv3Commit A → Option WeightsTlockPayload) (state : Revealed A B P H)
    (netuid : NetUid) : Revealed A B P H :=
  if state.1.chain.shouldRunEpoch netuid then
    let revealed := state.1.revealCrv3Commits decrypt netuid
    (revealed.1.withChain (revealed.1.chain.drainIfDue rt epoch netuid),
      state.2 ++ [(netuid, revealed.2)])
  else state

/-- `run_coinbase` up to the epoch loop. -/
def beforeEpochs (rt : Runtime A B P) (chain : Chain A B P) (blockEmission : U96F32) :
    Chain A B P :=
  let sold := (chain.injection rt blockEmission).rootSale rt chain.subnetsToEmitTo
    (chain.emissionTerms rt blockEmission)
  chain.subnetsToEmitTo.foldl (Chain.updateMovingPrice rt) sold

def runCoinbase (rt : Runtime A B P) (epoch : Epoch A B P)
    (decrypt : Crv3Commit A → Option WeightsTlockPayload) (net : Network A B P H)
    (blockEmission : U96F32) : Revealed A B P H :=
  net.chain.coinbaseSubnets.foldl (drainIfDue rt epoch decrypt)
    (net.withChain (beforeEpochs rt net.chain blockEmission), [])

def blockStep (rt : Runtime A B P) (epoch : Epoch A B P)
    (decrypt : Crv3Commit A → Option WeightsTlockPayload) (net : Network A B P H) :
    Revealed A B P H :=
  let blockEmission : U96F32 := .ofNat ((net.chain.getBlockEmission rt).getD 0).val
  let run := (net.withChain (net.chain.beforeCoinbase rt)).runCoinbase rt epoch decrypt blockEmission
  (run.1.withChain run.1.chain.trySetPendingChildren, run.2)

/-- The next block starts with its number. -/
def atBlock (net : Network A B P H) (block : U64) : Network A B P H :=
  net.withChain { net.chain with block := block }

end Network

end Subtensor
