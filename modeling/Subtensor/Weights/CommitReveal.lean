import Subtensor.Weights.SetWeights

/-!
# Commit and reveal of weights

`do_commit_weights` and `do_reveal_weights`, with the functions that say when
a commit may be revealed (`pallets/subtensor/src/subnets/weights.rs`). The
hash function is a parameter.
-/

namespace Subtensor

open Lib

/-! ## Epochs -/

/-- `get_epoch_index`, for a tempo. -/
def epochIndex (netuid : NetUid) (tempo : U16) (blockNumber : U64) : U64 :=
  let tempoPlusOne : U64 := .sat (tempo.val + 1)
  let blockWithOffset := blockNumber.satAdd (.sat (netuid.val + 1))
  .sat (blockWithOffset.val / tempoPlusOne.val)

namespace Network

variable {A B P H : Type}

def tempo (net : Network A B P H) (netuid : NetUid) : U16 := (net.chain.subnets netuid).tempo

def getRevealPeriod (net : Network A B P H) (netuid : NetUid) : U64 :=
  (net.weights netuid).revealPeriodEpochs

def getEpochIndex (net : Network A B P H) (netuid : NetUid) (blockNumber : U64) : U64 :=
  epochIndex netuid (net.tempo netuid) blockNumber

def revealEpoch (net : Network A B P H) (netuid : NetUid) (commitBlock : U64) : U64 :=
  (net.getEpochIndex netuid commitBlock).satAdd (net.getRevealPeriod netuid)

def isRevealBlockRange (net : Network A B P H) (netuid : NetUid) (commitBlock : U64) : Bool :=
  (net.getEpochIndex netuid net.chain.block).val = (net.revealEpoch netuid commitBlock).val

def isCommitExpired (net : Network A B P H) (netuid : NetUid) (commitBlock : U64) : Bool :=
  (net.revealEpoch netuid commitBlock).val < (net.getEpochIndex netuid net.chain.block).val

def getRevealBlocks (net : Network A B P H) (netuid : NetUid) (commitBlock : U64) : U64 × U64 :=
  let tempoPlusOne := (net.tempo netuid).val + 1
  let firstRevealBlock := (Word.sat ((net.revealEpoch netuid commitBlock).val * tempoPlusOne) :
    U64).satSub (.sat (netuid.val + 1))
  (firstRevealBlock, firstRevealBlock.satAdd (.sat (net.tempo netuid).val))

/-! ## The queue -/

/-- The commits of a hotkey; an absent queue is empty. -/
def commitsOf (net : Network A B P H) (netuid : NetUid) (who : A) : List (WeightCommit H) :=
  ((net.weights netuid).weightCommits who).getD []

/-- The loop that pops expired commits from the front. -/
def dropExpired (net : Network A B P H) (netuid : NetUid) (commits : List (WeightCommit H)) :
    List (WeightCommit H) :=
  commits.dropWhile fun commit => net.isCommitExpired netuid commit.commitBlock

section

variable [DecidableEq A]

def setCommits (net : Network A B P H) (netuid : NetUid) (who : A)
    (commits : Option (List (WeightCommit H))) : Network A B P H :=
  net.withWeights netuid
    { net.weights netuid with
      weightCommits := Function.update (net.weights netuid).weightCommits who commits }

/-! ## The calls -/

/-- The commit that is appended to the queue. -/
def newCommit (net : Network A B P H) (netuid : NetUid) (commitHash : H) : WeightCommit H :=
  let blocks := net.getRevealBlocks netuid net.chain.block
  ⟨commitHash, net.chain.block, blocks.1, blocks.2⟩

def doCommitWeights (net : Network A B P H) (who : A) (netuid : NetUid) (commitHash : H) :
    Except Error (Network A B P H) :=
  if ¬(net.weights netuid).commitRevealWeightsEnabled then .error .commitRevealDisabled
  else match (net.chain.neurons netuid).uids who with
  | none => .error .hotKeyNotRegisteredInSubNet
  | some neuronUid =>
      if ¬net.checkRateLimit netuid neuronUid net.chain.block then
        .error .committingWeightsTooFast
      else
        let commits := net.dropExpired netuid (net.commitsOf netuid who)
        if ¬commits.length < 10 then .error .tooManyUnrevealedCommits
        else
          let net := net.setCommits netuid who (some (commits ++ [net.newCommit netuid commitHash]))
          .ok (net.withChain (net.chain.setLastUpdateForUid netuid neuronUid net.chain.block))

end

structure Reveal where
  uids : List U16
  values : List U16
  salt : List U16
  versionKey : U64

variable [DecidableEq A] [DecidableEq H]

/-- The error when no commit has the hash. -/
def noMatchError (expired : List (WeightCommit H)) (providedHash : H) (otherwise : Error) : Error :=
  if expired.any (·.commitHash = providedHash) then .expiredWeightCommit else otherwise

def doRevealWeights (hashOf : A → NetUid → Reveal → H) (net : Network A B P H) (who : A)
    (netuid : NetUid) (reveal : Reveal) : Except Error (Network A B P H) :=
  if ¬(net.weights netuid).commitRevealWeightsEnabled then .error .commitRevealDisabled
  else match (net.weights netuid).weightCommits who with
  | none => .error .noWeightsCommitFound
  | some stored =>
      let commits := net.dropExpired netuid stored
      let expired := stored.takeWhile fun commit => net.isCommitExpired netuid commit.commitBlock
      let providedHash := hashOf who netuid reveal
      if commits.isEmpty then .error (noMatchError expired providedHash .noWeightsCommitFound)
      else match commits.findIdx? (·.commitHash = providedHash) with
      | none => .error (noMatchError expired providedHash .invalidRevealCommitHashNotMatch)
      | some position =>
          match commits[position]? with
          | none => .error .noWeightsCommitFound
          | some commit =>
              if ¬net.isRevealBlockRange netuid commit.commitBlock then .error .revealTooEarly
              else
                let rest := commits.drop (position + 1)
                (net.setCommits netuid who (if rest.isEmpty then none else some rest)).doSetWeights
                  who netuid reveal.uids reveal.values reveal.versionKey

end Network

end Subtensor
