import Subtensor.Registration.SlotEvents
import Subtensor.Weights.SetWeights

/-!
# The items of a replaced slot

`append_neuron` gives a new slot its items by pushing the defaults, and
`replace_neuron` resets some items of an old one (`subnets/uids.rs`). The rank,
the last update, the trust and the permit of the validator and the row of
weights are those of the predecessor.
-/

namespace Subtensor

open Lib

/-- The items that a subnet stores for one uid. -/
structure NeuronItems where
  rank : Option U16
  trust : Option U16
  active : Option Bool
  emission : Option U64
  consensus : Option U16
  incentive : Option U16
  dividends : Option U16
  lastUpdate : Option U64
  validatorTrust : Option U16
  validatorPermit : Option Bool
  weights : List (U16 × U16)
  bonds : List (U16 × U16)
deriving DecidableEq

/-- The items of a new slot. -/
def NeuronItems.fresh (blockNumber : U64) : NeuronItems where
  rank := some 0
  trust := some 0
  active := some true
  emission := some 0
  consensus := some 0
  incentive := some 0
  dividends := some 0
  lastUpdate := some blockNumber
  validatorTrust := some 0
  validatorPermit := some false
  weights := []
  bonds := []

/-- Every vector holds one value for each slot. -/
structure Neurons.VectorsFit {A : Type} (neurons : Neurons A) : Prop where
  rank : neurons.rank.length = neurons.subnetworkN.val
  trust : neurons.trust.length = neurons.subnetworkN.val
  active : neurons.active.length = neurons.subnetworkN.val
  emission : neurons.emission.length = neurons.subnetworkN.val
  consensus : neurons.consensus.length = neurons.subnetworkN.val
  incentive : neurons.incentive.length = neurons.subnetworkN.val
  dividends : neurons.dividends.length = neurons.subnetworkN.val
  lastUpdate : neurons.lastUpdate.length = neurons.subnetworkN.val
  validatorTrust : neurons.validatorTrust.length = neurons.subnetworkN.val
  validatorPermit : neurons.validatorPermit.length = neurons.subnetworkN.val

namespace Network

variable {A B P H : Type} {net : Network A B P H} {rt : Runtime A B P} {netuid : NetUid}
  {uid : U16} {hotkey newHotkey : A}

def itemsAt (net : Network A B P H) (netuid : NetUid) (uid : U16) : NeuronItems :=
  let neurons := net.chain.neurons netuid
  { rank := neurons.rank[uid.val]?
    trust := neurons.trust[uid.val]?
    active := neurons.active[uid.val]?
    emission := neurons.emission[uid.val]?
    consensus := neurons.consensus[uid.val]?
    incentive := neurons.incentive[uid.val]?
    dividends := neurons.dividends[uid.val]?
    lastUpdate := neurons.lastUpdate[uid.val]?
    validatorTrust := neurons.validatorTrust[uid.val]?
    validatorPermit := neurons.validatorPermit[uid.val]?
    weights := (net.weights netuid).weights uid
    bonds := neurons.bonds uid }

/-- The vectors fit, and there are no rows for slots that do not exist. -/
structure TableFits (net : Network A B P H) (netuid : NetUid) : Prop where
  vectors : (net.chain.neurons netuid).VectorsFit
  noWeights : (net.weights netuid).weights (net.chain.neurons netuid).subnetworkN = []
  noBonds : (net.chain.neurons netuid).bonds (net.chain.neurons netuid).subnetworkN = []

variable [DecidableEq A]

/-- `append_neuron`; it writes no weights. -/
def appendNeuron (net : Network A B P H) (netuid : NetUid) (newHotkey : A) : Network A B P H :=
  net.withChain (net.chain.appendNeuron netuid newHotkey)

/-- `replace_neuron`; it writes no weights. -/
def replaceNeuron (rt : Runtime A B P) (net : Network A B P H) (netuid : NetUid)
    (uidToReplace : U16) (newHotkey : A) : Network A B P H :=
  net.withChain (net.chain.replaceNeuron rt netuid uidToReplace newHotkey)

theorem appendNeuron_itemsAt (h : net.TableFits netuid) :
    (net.appendNeuron netuid newHotkey).itemsAt netuid (net.chain.neurons netuid).subnetworkN =
      NeuronItems.fresh net.chain.block := by
  obtain ⟨hvectors, hweights, hbonds⟩ := h
  have hneurons : (net.appendNeuron netuid newHotkey).chain.neurons netuid =
      (net.chain.neurons netuid).appendNeuron newHotkey net.chain.block :=
    Chain.withNeurons_self
  have hpush : ∀ {α : Type} {xs : List α} (x : α), xs.length =
      (net.chain.neurons netuid).subnetworkN.val →
        (xs ++ [x])[(net.chain.neurons netuid).subnetworkN.val]? = some x := by
    intro α xs x hlen
    rw [← hlen, List.getElem?_concat_length]
  unfold itemsAt
  rw [hneurons]
  unfold Neurons.appendNeuron NeuronItems.fresh
  simp only [NeuronItems.mk.injEq]
  exact ⟨hpush _ hvectors.rank, hpush _ hvectors.trust, hpush _ hvectors.active,
    hpush _ hvectors.emission, hpush _ hvectors.consensus, hpush _ hvectors.incentive,
    hpush _ hvectors.dividends, hpush _ hvectors.lastUpdate, hpush _ hvectors.validatorTrust,
    hpush _ hvectors.validatorPermit, hweights, hbonds⟩

theorem replaceNeuron_itemsAt (h : net.TableFits netuid)
    (huid : uid.val < (net.chain.neurons netuid).subnetworkN.val)
    (howner : (net.chain.subnets netuid).subnetOwnerHotkey ≠
      some (((net.chain.neurons netuid).keys uid).getD rt.defaultAccount)) :
    (net.replaceNeuron rt netuid uid newHotkey).itemsAt netuid uid =
      { net.itemsAt netuid uid with
        trust := some 0
        active := some true
        emission := some 0
        consensus := some 0
        incentive := some 0
        dividends := some 0
        bonds := [] } := by
  obtain ⟨hvectors, -, -⟩ := h
  have hneurons : (net.replaceNeuron rt netuid uid newHotkey).chain.neurons netuid =
      ((net.chain.neurons netuid).replaceNeuron rt.defaultAccount
        (net.chain.subnets netuid).subnetOwnerHotkey uid newHotkey net.chain.block).1 :=
    Chain.withNeurons_self
  have hset : ∀ {α : Type} {xs : List α} (x : α), xs.length =
      (net.chain.neurons netuid).subnetworkN.val → (xs.set uid.val x)[uid.val]? = some x := by
    intro α xs x hlen
    exact List.getElem?_set_self (by rwa [hlen])
  unfold itemsAt
  rw [hneurons]
  unfold Neurons.replaceNeuron
  simp only [if_neg howner, Neurons.clearNeuron, NeuronItems.mk.injEq]
  refine ⟨trivial, hset _ hvectors.trust, hset _ hvectors.active, hset _ hvectors.emission,
    hset _ hvectors.consensus, hset _ hvectors.incentive, hset _ hvectors.dividends, trivial,
    trivial, trivial, rfl, Function.update_self ..⟩

/-- The predecessor left nothing in the items that are not reset. -/
structure LeavesNothing (net : Network A B P H) (netuid : NetUid) (uid : U16) : Prop where
  rank : (net.itemsAt netuid uid).rank = some 0
  lastUpdate : (net.itemsAt netuid uid).lastUpdate = some net.chain.block
  validatorTrust : (net.itemsAt netuid uid).validatorTrust = some 0
  validatorPermit : (net.itemsAt netuid uid).validatorPermit = some false
  weights : (net.itemsAt netuid uid).weights = []

/-- **A replaced slot starts fresh**, as one that is appended, exactly when the
predecessor had no rank, no trust and no permit as a validator and no weights,
and was updated last in this block. -/
theorem replaceNeuron_fresh_iff (h : net.TableFits netuid)
    (huid : uid.val < (net.chain.neurons netuid).subnetworkN.val)
    (howner : (net.chain.subnets netuid).subnetOwnerHotkey ≠
      some (((net.chain.neurons netuid).keys uid).getD rt.defaultAccount)) :
    (net.replaceNeuron rt netuid uid newHotkey).itemsAt netuid uid =
        (net.appendNeuron netuid newHotkey).itemsAt netuid
          (net.chain.neurons netuid).subnetworkN ↔
      net.LeavesNothing netuid uid := by
  rw [replaceNeuron_itemsAt h huid howner, appendNeuron_itemsAt h]
  unfold NeuronItems.fresh
  rw [NeuronItems.mk.injEq]
  constructor
  · rintro ⟨hrank, -, -, -, -, -, -, hupdate, htrust, hpermit, hweights, -⟩
    exact ⟨hrank, hupdate, htrust, hpermit, hweights⟩
  · rintro ⟨hrank, hupdate, htrust, hpermit, hweights⟩
    exact ⟨hrank, rfl, rfl, rfl, rfl, rfl, rfl, hupdate, htrust, hpermit, hweights, rfl⟩

/-- The small network where the subnet `1` has the hotkeys `1` and `2`. -/
def twoNeuronNetwork : Network ℕ (Balances ℕ) (SwapStorage ℕ) Unit :=
  { smallNetwork Unit with chain := (smallChain.appendNeuron (.sat 1) 1).appendNeuron (.sat 1) 2 }

theorem replaceNeuron_fresh_iff_twoNeuronNetwork :
    (twoNeuronNetwork.replaceNeuron runtime (.sat 1) (.sat 1) 3).itemsAt (.sat 1) (.sat 1) =
        (twoNeuronNetwork.appendNeuron (.sat 1) 3).itemsAt (.sat 1)
          (twoNeuronNetwork.chain.neurons (.sat 1)).subnetworkN ↔
      twoNeuronNetwork.LeavesNothing (.sat 1) (.sat 1) := by
  refine replaceNeuron_fresh_iff ⟨⟨?_, ?_, ?_, ?_, ?_, ?_, ?_, ?_, ?_, ?_⟩, rfl, rfl⟩ ?_ ?_ <;>
    decide

/-- The hotkey `2` is a validator, with a permit and weights. -/
def validatorNetwork : Network ℕ (Balances ℕ) (SwapStorage ℕ) Unit :=
  { twoNeuronNetwork with
    chain := { twoNeuronNetwork.chain with
      neurons := Function.update twoNeuronNetwork.chain.neurons (.sat 1)
        { twoNeuronNetwork.chain.neurons (.sat 1) with validatorPermit := [true, true] } }
    weights := fun netuid =>
      { twoNeuronNetwork.weights netuid with
        weights := fun uid => if uid.val = 1 then [(0, .sat 65535)] else [] } }

/-- The hotkey `3` takes over the slot with the permit and the weights. -/
theorem replaceNeuron_not_fresh :
    let replaced := (validatorNetwork.replaceNeuron runtime (.sat 1) (.sat 1) 3)
    let appended := (validatorNetwork.appendNeuron (.sat 1) 3)
    (replaced.chain.neurons (.sat 1)).keys (.sat 1) = some 3 ∧
      (replaced.itemsAt (.sat 1) (.sat 1)).validatorPermit = some true ∧
      (replaced.itemsAt (.sat 1) (.sat 1)).weights = [(0, .sat 65535)] ∧
      (appended.itemsAt (.sat 1) (.sat 2)).validatorPermit = some false ∧
      (appended.itemsAt (.sat 1) (.sat 2)).weights = [] := by
  decide +kernel

end Network

end Subtensor
