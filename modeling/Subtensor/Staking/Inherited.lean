import Subtensor.Emission.Dividends
import Subtensor.Lib.Shares
import Subtensor.Pallet.Instances

/-!
# Inherited stake

`get_inherited_for_hotkey_on_subnet` and `get_tao_inherited_for_hotkey_on_subnet`:
a hotkey passes parts of its stake on to its children and receives parts of
the stake of its parents. What is passed on and what is received are computed
from the two copies of the graph, edge by edge with the same rounding, so that
nothing is created on the way; a value that does not fit a `u64` is clamped.
-/

namespace Subtensor

open Lib Lib.Digraph

variable {A B P : Type} [DecidableEq A]

namespace Chain

/-! ## The model -/

/-- What a hotkey keeps of its stake on `stakeNetuid` and what it inherits
there, along the children and parents on `netuid`. -/
def inheritedStake (chain : Chain A B P) (hotkey : A) (netuid stakeNetuid : NetUid) : U64 :=
  let initial : U96F32 := .ofNat (chain.getStakeForHotkeyOnSubnet hotkey stakeNetuid).val
  let toChildren : U96F32 := ((chain.graph netuid).childKeys hotkey).foldl
    (fun total child => total.satAdd (initial.satMul (normalizedProportion child.1))) 0
  let fromParents : U96F32 := ((chain.graph netuid).parentKeys hotkey).foldl
    (fun total parent => total.satAdd
      ((UFixed.ofNat (chain.getStakeForHotkeyOnSubnet parent.2 stakeNetuid).val).satMul
        (normalizedProportion parent.1))) 0
  ((initial.satSub toChildren).satAdd fromParents).toWord 64

def getTaoInheritedForHotkeyOnSubnet (chain : Chain A B P) (hotkey : A) (netuid : NetUid) : U64 :=
  chain.inheritedStake hotkey netuid .ROOT

def getInheritedForHotkeyOnSubnet (chain : Chain A B P) (hotkey : A) (netuid : NetUid) : U64 :=
  if netuid.isRoot then
    (UFixed.ofNat (chain.getStakeForHotkeyOnSubnet hotkey netuid).val : U96F32).toWord 64
  else chain.inheritedStake hotkey netuid netuid

/-! ## Exact inheritance -/

/-- A proportion of a stake, in units of `2 ^ -32`. -/
def edgeShare (stake proportion : U64) : ℕ := stake.val * (proportion.val * 2 ^ 32 / (2 ^ 64 - 1))

/-- The inheritance of a hotkey before it is converted, in units of
`2 ^ -32`. -/
def inheritance (chain : Chain A B P) (netuid stakeNetuid : NetUid) (hotkey : A) : ℕ :=
  let stake := fun hotkey => chain.getStakeForHotkeyOnSubnet hotkey stakeNetuid
  (stake hotkey).val * 2 ^ 32 -
      (((chain.graph netuid).childKeys hotkey).map fun e => edgeShare (stake hotkey) e.1).sum +
    (((chain.graph netuid).parentKeys hotkey).map fun e => edgeShare (stake e.2) e.1).sum

/-- The hotkeys of a set that have more inheritance than a `u64` holds. -/
def InheritanceFits (chain : Chain A B P) (netuid stakeNetuid : NetUid) (H : Finset A) : Prop :=
  ∀ hotkey ∈ H, chain.inheritance netuid stakeNetuid hotkey < 2 ^ (64 + 32)

/-- What the two copies of the graph and the lists of children have to
satisfy. -/
structure InheritanceGraph (graph : Children.SubnetGraph A) : Prop where
  edges : SameEdges graph.childKeys graph.parentKeys
  proportions : ∀ hotkey, ((graph.childKeys hotkey).map fun e => e.1.val).sum ≤ 2 ^ 64 - 1

/-- The set contains the children and the parents of its members. -/
def ClosedUnder (graph : Children.SubnetGraph A) (H : Finset A) : Prop :=
  ∀ hotkey ∈ H, (∀ child ∈ names (graph.childKeys hotkey), child ∈ H) ∧
    ∀ parent ∈ names (graph.parentKeys hotkey), parent ∈ H

/-! ## Rounding -/

theorem normalizedProportion_bits (proportion : U64) :
    (normalizedProportion proportion).bits = proportion.val * 2 ^ 32 / (2 ^ 64 - 1) := by
  have hlt : proportion.val < 2 ^ 96 := proportion.isLt.trans (by norm_num)
  have hofNat : (UFixed.ofNat proportion.val : U96F32).bits = proportion.val * 2 ^ 32 :=
    UFixed.bits_ofNat_of_lt hlt
  unfold normalizedProportion
  rw [UFixed.bits_safeDiv_ofNat _ (by norm_num) (by norm_num), hofNat]

theorem bits_ofNat_stake (stake : U64) :
    (UFixed.ofNat stake.val : U96F32).bits = stake.val * 2 ^ 32 :=
  UFixed.bits_ofNat_of_lt (stake.isLt.trans (by norm_num))

theorem edgeShare_le (stake proportion : U64) : edgeShare stake proportion ≤ stake.val * 2 ^ 32 := by
  refine Nat.mul_le_mul_left _ (Nat.div_le_of_le_mul ?_)
  exact Nat.mul_le_mul_right _ (by have := proportion.isLt; omega)

theorem bits_satMul_normalizedProportion (stake proportion : U64) :
    ((UFixed.ofNat stake.val : U96F32).satMul (normalizedProportion proportion)).bits =
      edgeShare stake proportion := by
  have hle := edgeShare_le stake proportion
  have hstake := stake.isLt
  rw [UFixed.bits_satMul, bits_ofNat_stake, normalizedProportion_bits, mul_right_comm,
    Nat.mul_div_cancel _ (Nat.two_pow_pos 32)]
  unfold edgeShare at hle ⊢
  omega

omit [DecidableEq A] in
/-- What a hotkey passes on is at most its stake. -/
theorem sum_edgeShare_le (stake : U64) {children : List (U64 × A)}
    (h : (children.map fun e => e.1.val).sum ≤ 2 ^ 64 - 1) :
    (children.map fun e => edgeShare stake e.1).sum ≤ stake.val * 2 ^ 32 := by
  have hsum : (children.map fun e => 2 ^ 32 * e.1.val / (2 ^ 64 - 1)).sum ≤ 2 ^ 32 :=
    sum_div_le (fun e : U64 × A => e.1.val) (2 ^ 32) (2 ^ 64 - 1) children h
  have hmul : (children.map fun e => edgeShare stake e.1).sum =
      stake.val * (children.map fun e => 2 ^ 32 * e.1.val / (2 ^ 64 - 1)).sum := by
    rw [← List.sum_map_mul_left]
    refine congrArg List.sum (List.map_congr_left fun e _ => ?_)
    unfold edgeShare
    rw [mul_comm e.1.val]
  rw [hmul]
  exact Nat.mul_le_mul_left _ hsum

/-- A sum that is clamped on the way is clamped in the end. -/
theorem min_clamped_div (kept received : ℕ) :
    min (min (kept + min received (2 ^ 128 - 1)) (2 ^ 128 - 1) / 2 ^ 32) (2 ^ 64 - 1) =
      min ((kept + received) / 2 ^ 32) (2 ^ 64 - 1) := by
  by_cases hfits : kept + received ≤ 2 ^ 128 - 1
  · rw [min_eq_left (le_trans (Nat.le_add_left _ _) hfits), min_eq_left hfits]
  · have hclamped : min (kept + min received (2 ^ 128 - 1)) (2 ^ 128 - 1) = 2 ^ 128 - 1 := by
      refine min_eq_right ?_
      rcases min_cases received (2 ^ 128 - 1) with ⟨h, -⟩ | ⟨h, -⟩
      · rw [h]
        exact (not_le.mp hfits).le
      · rw [h]
        exact Nat.le_add_left _ _
    have hlarge : 2 ^ 64 - 1 ≤ (kept + received) / 2 ^ 32 :=
      le_trans (by norm_num) (Nat.div_le_div_right (not_le.mp hfits).le)
    rw [hclamped, min_eq_right hlarge]
    norm_num

/-! ## One hotkey -/

variable {chain : Chain A B P} {netuid stakeNetuid : NetUid} {H : Finset A}

/-- The inheritance is rounded down, and clamped if it does not fit. -/
theorem inheritedStake_val (hgraph : InheritanceGraph (chain.graph netuid)) (hotkey : A) :
    (chain.inheritedStake hotkey netuid stakeNetuid).val =
      min (chain.inheritance netuid stakeNetuid hotkey / 2 ^ 32) (2 ^ 64 - 1) := by
  unfold inheritedStake inheritance
  extract_lets initial toChildren fromParents stake
  have hgiven := sum_edgeShare_le (stake hotkey) (hgraph.proportions hotkey)
  have hstake := (stake hotkey).isLt
  have hinitial : initial.bits = (stake hotkey).val * 2 ^ 32 := bits_ofNat_stake _
  have hchildren : toChildren.bits =
      (((chain.graph netuid).childKeys hotkey).map fun e => edgeShare (stake hotkey) e.1).sum := by
    rw [UFixed.bits_foldl_satAdd, UFixed.bits_zero, zero_add]
    simp only [initial, bits_satMul_normalizedProportion]
    refine min_eq_left (hgiven.trans ?_)
    have hbound : (stake hotkey).val * 2 ^ 32 ≤ 2 ^ 64 * 2 ^ 32 := Nat.mul_le_mul_right _ hstake.le
    exact hbound.trans (by norm_num)
  have hparents : fromParents.bits =
      min (((chain.graph netuid).parentKeys hotkey).map fun e =>
        edgeShare (stake e.2) e.1).sum (2 ^ 128 - 1) := by
    rw [UFixed.bits_foldl_satAdd, UFixed.bits_zero, zero_add]
    simp only [bits_satMul_normalizedProportion]
    rfl
  show min (((initial.satSub toChildren).satAdd fromParents).bits / 2 ^ 32) (2 ^ 64 - 1) = _
  rw [UFixed.bits_satAdd, UFixed.bits_satSub, hinitial, hchildren, hparents]
  exact min_clamped_div _ _

/-! ## All hotkeys -/

/-- Nothing is lost and nothing created before the rounding. -/
theorem sum_inheritance (hgraph : InheritanceGraph (chain.graph netuid))
    (hclosed : ClosedUnder (chain.graph netuid) H) :
    ∑ hotkey ∈ H, chain.inheritance netuid stakeNetuid hotkey =
      (∑ hotkey ∈ H, (chain.getStakeForHotkeyOnSubnet hotkey stakeNetuid).val) * 2 ^ 32 := by
  let stake := fun hotkey => chain.getStakeForHotkeyOnSubnet hotkey stakeNetuid
  have hedges : ∑ hotkey ∈ H,
        (((chain.graph netuid).childKeys hotkey).map fun e => edgeShare (stake hotkey) e.1).sum =
      ∑ hotkey ∈ H,
        (((chain.graph netuid).parentKeys hotkey).map fun e => edgeShare (stake e.2) e.1).sum :=
    hgraph.edges.sum_out_eq_sum_into (fun hotkey h => (hclosed hotkey h).1)
      (fun hotkey h => (hclosed hotkey h).2) fun parent _ proportion =>
        edgeShare (stake parent) proportion
  have hsplit : ∑ hotkey ∈ H, (chain.inheritance netuid stakeNetuid hotkey +
        (((chain.graph netuid).childKeys hotkey).map fun e => edgeShare (stake hotkey) e.1).sum) =
      ∑ hotkey ∈ H, ((stake hotkey).val * 2 ^ 32 +
        (((chain.graph netuid).parentKeys hotkey).map fun e => edgeShare (stake e.2) e.1).sum) := by
    refine Finset.sum_congr rfl fun hotkey _ => ?_
    have hgiven := sum_edgeShare_le (stake hotkey) (hgraph.proportions hotkey)
    show (stake hotkey).val * 2 ^ 32 -
        (((chain.graph netuid).childKeys hotkey).map fun e => edgeShare (stake hotkey) e.1).sum +
      (((chain.graph netuid).parentKeys hotkey).map fun e => edgeShare (stake e.2) e.1).sum +
        (((chain.graph netuid).childKeys hotkey).map fun e => edgeShare (stake hotkey) e.1).sum = _
    omega
  rw [Finset.sum_add_distrib, Finset.sum_add_distrib, hedges] at hsplit
  rw [Finset.sum_mul]
  exact Nat.add_right_cancel hsplit

theorem sum_inheritedStake_le (hgraph : InheritanceGraph (chain.graph netuid))
    (hclosed : ClosedUnder (chain.graph netuid) H) :
    ∑ hotkey ∈ H, (chain.inheritedStake hotkey netuid stakeNetuid).val ≤
      ∑ hotkey ∈ H, (chain.getStakeForHotkeyOnSubnet hotkey stakeNetuid).val := by
  have hsum : (∑ hotkey ∈ H, (chain.inheritedStake hotkey netuid stakeNetuid).val) * 2 ^ 32 ≤
      ∑ hotkey ∈ H, chain.inheritance netuid stakeNetuid hotkey := by
    rw [Finset.sum_mul]
    refine Finset.sum_le_sum fun hotkey _ => ?_
    rw [inheritedStake_val hgraph]
    omega
  rw [sum_inheritance hgraph hclosed] at hsum
  exact Nat.le_of_mul_le_mul_right hsum (Nat.two_pow_pos 32)

/-- The rounding takes less than one unit from every hotkey. -/
theorem lt_sum_inheritedStake (hgraph : InheritanceGraph (chain.graph netuid))
    (hclosed : ClosedUnder (chain.graph netuid) H) (hne : H.Nonempty)
    (hfits : InheritanceFits chain netuid stakeNetuid H) :
    ∑ hotkey ∈ H, (chain.getStakeForHotkeyOnSubnet hotkey stakeNetuid).val <
      (∑ hotkey ∈ H, (chain.inheritedStake hotkey netuid stakeNetuid).val) + H.card := by
  have hsum : ∑ hotkey ∈ H, chain.inheritance netuid stakeNetuid hotkey <
      ∑ hotkey ∈ H, ((chain.inheritedStake hotkey netuid stakeNetuid).val + 1) * 2 ^ 32 := by
    refine Finset.sum_lt_sum_of_nonempty hne fun hotkey h => ?_
    have hlt := hfits hotkey h
    rw [inheritedStake_val hgraph]
    omega
  rw [sum_inheritance hgraph hclosed, ← Finset.sum_mul, Finset.sum_add_distrib,
    Finset.sum_const, smul_eq_mul, mul_one] at hsum
  exact Nat.lt_of_mul_lt_mul_right hsum

theorem getInherited_val_root (hotkey : A) (hroot : netuid.isRoot = true) :
    chain.getInheritedForHotkeyOnSubnet hotkey netuid =
      chain.getStakeForHotkeyOnSubnet hotkey netuid := by
  have hlt := (chain.getStakeForHotkeyOnSubnet hotkey netuid).isLt
  unfold getInheritedForHotkeyOnSubnet
  rw [if_pos hroot]
  refine Word.ext ?_
  show min ((UFixed.ofNat _ : U96F32).bits / 2 ^ 32) (2 ^ 64 - 1) = _
  rw [bits_ofNat_stake]
  omega

/-- **Inherited stake is conserved.** Over a set of hotkeys that is closed
under children and parents, the inherited stake sums to at most the stake,
and, unless an inheritance does not fit a `u64`, to less than one unit less
for every hotkey. -/
theorem inheritedStake_conserved (hgraph : InheritanceGraph (chain.graph netuid))
    (hclosed : ClosedUnder (chain.graph netuid) H) :
    (∑ hotkey ∈ H, (chain.getInheritedForHotkeyOnSubnet hotkey netuid).val ≤
        ∑ hotkey ∈ H, (chain.getStakeForHotkeyOnSubnet hotkey netuid).val ∧
      (H.Nonempty → InheritanceFits chain netuid netuid H →
        ∑ hotkey ∈ H, (chain.getStakeForHotkeyOnSubnet hotkey netuid).val <
          (∑ hotkey ∈ H, (chain.getInheritedForHotkeyOnSubnet hotkey netuid).val) + H.card)) ∧
    (∑ hotkey ∈ H, (chain.getTaoInheritedForHotkeyOnSubnet hotkey netuid).val ≤
        ∑ hotkey ∈ H, (chain.getStakeForHotkeyOnSubnet hotkey .ROOT).val ∧
      (H.Nonempty → InheritanceFits chain netuid .ROOT H →
        ∑ hotkey ∈ H, (chain.getStakeForHotkeyOnSubnet hotkey .ROOT).val <
          (∑ hotkey ∈ H, (chain.getTaoInheritedForHotkeyOnSubnet hotkey netuid).val) +
            H.card)) := by
  refine ⟨?_, sum_inheritedStake_le hgraph hclosed, lt_sum_inheritedStake hgraph hclosed⟩
  by_cases hroot : netuid.isRoot = true
  · have heq : ∑ hotkey ∈ H, (chain.getInheritedForHotkeyOnSubnet hotkey netuid).val =
        ∑ hotkey ∈ H, (chain.getStakeForHotkeyOnSubnet hotkey netuid).val :=
      Finset.sum_congr rfl fun hotkey _ => by rw [getInherited_val_root hotkey hroot]
    rw [heq]
    refine ⟨le_rfl, ?_⟩
    intro hne _
    have hcard := hne.card_pos
    omega
  · have heq : ∑ hotkey ∈ H, (chain.getInheritedForHotkeyOnSubnet hotkey netuid).val =
        ∑ hotkey ∈ H, (chain.inheritedStake hotkey netuid netuid).val :=
      Finset.sum_congr rfl fun hotkey _ => by
        unfold getInheritedForHotkeyOnSubnet
        rw [if_neg hroot]
    rw [heq]
    exact ⟨sum_inheritedStake_le hgraph hclosed, lt_sum_inheritedStake hgraph hclosed⟩

/-! ## Two hotkeys -/

/-- The hotkeys `1` and `2` have the same stake on subnet `1`, and `1` passes a
proportion of it on to `2`. -/
def inheritingChain (stake proportion : U64) : Chain ℕ (Balances ℕ) (SwapStorage ℕ) :=
  { smallChain with
    stakes := { smallChain.stakes with
      totalHotkeyAlpha :=
        ((∅ : StorageMap (ℕ × NetUid) U64).insert (1, .sat 1) stake).insert (2, .sat 1) stake }
    graph := fun _ =>
      { childKeys := fun hotkey => if hotkey = 1 then [(proportion, 2)] else []
        parentKeys := fun hotkey => if hotkey = 2 then [(proportion, 1)] else []
        pendingChildKeys := ∅ } }

theorem inheritingChain_graph (stake proportion : U64) :
    InheritanceGraph ((inheritingChain stake proportion).graph (.sat 1)) ∧
      ClosedUnder ((inheritingChain stake proportion).graph (.sat 1)) {1, 2} := by
  refine ⟨⟨⟨?_, ?_, ?_⟩, ?_⟩, ?_⟩
  · intro u v w
    show (w, v) ∈ (if u = 1 then [(proportion, 2)] else [] : List (U64 × ℕ)) ↔
      (w, u) ∈ (if v = 2 then [(proportion, 1)] else [] : List (U64 × ℕ))
    split_ifs <;> simp_all
  · intro u
    show (names (if u = 1 then [(proportion, 2)] else [] : List (U64 × ℕ))).Nodup
    split_ifs <;> simp [names]
  · intro v
    show (names (if v = 2 then [(proportion, 1)] else [] : List (U64 × ℕ))).Nodup
    split_ifs <;> simp [names]
  · intro hotkey
    have hlt := proportion.isLt
    show ((if hotkey = 1 then [(proportion, 2)] else [] : List (U64 × ℕ)).map fun e =>
      e.1.val).sum ≤ 2 ^ 64 - 1
    split_ifs
    · show proportion.val + 0 ≤ _
      omega
    · exact Nat.zero_le _
  · intro hotkey _
    show (∀ child ∈ names (if hotkey = 1 then [(proportion, 2)] else [] : List (U64 × ℕ)), _) ∧
      ∀ parent ∈ names (if hotkey = 2 then [(proportion, 1)] else [] : List (U64 × ℕ)), _
    split_ifs <;> simp [names]

/-- Half of a thousand is passed on; one unit is lost to the rounding. -/
theorem inheritedStake_conserved_inheritingChain :
    let chain := inheritingChain (.sat 1000) (.sat (2 ^ 63))
    ∑ hotkey ∈ {1, 2}, (chain.getInheritedForHotkeyOnSubnet hotkey (.sat 1)).val ≤ 2000 ∧
      2000 < (∑ hotkey ∈ {1, 2}, (chain.getInheritedForHotkeyOnSubnet hotkey (.sat 1)).val) + 2 := by
  intro chain
  obtain ⟨hgraph, hclosed⟩ := inheritingChain_graph (.sat 1000) (.sat (2 ^ 63))
  obtain ⟨⟨hle, hlt⟩, -⟩ := inheritedStake_conserved hgraph hclosed
  have hstake : ∑ hotkey ∈ {1, 2}, (chain.getStakeForHotkeyOnSubnet hotkey (.sat 1)).val = 2000 := by
    decide +kernel
  have hfits : InheritanceFits chain (.sat 1) (.sat 1) {1, 2} := by
    intro hotkey hmem
    rcases Finset.mem_insert.mp hmem with rfl | hmem
    · show (_ : ℕ) < _
      decide +kernel
    · rw [Finset.mem_singleton.mp hmem]
      show (_ : ℕ) < _
      decide +kernel
  rw [hstake] at hle hlt
  exact ⟨hle, hlt (Finset.insert_nonempty 1 {2}) hfits⟩

/-- Two stakes of `u64::MAX` on one hotkey are clamped, and over no hotkeys
there is nothing to lose. -/
theorem inheritedStake_clamped :
    let chain := inheritingChain .maxVal .maxVal
    InheritanceGraph (chain.graph (.sat 1)) ∧
      (ClosedUnder (chain.graph (.sat 1)) {1, 2} ∧
        ¬∑ hotkey ∈ {1, 2}, (chain.getStakeForHotkeyOnSubnet hotkey (.sat 1)).val <
          (∑ hotkey ∈ {1, 2}, (chain.getInheritedForHotkeyOnSubnet hotkey (.sat 1)).val) + 2) ∧
      ClosedUnder (chain.graph (.sat 1)) ∅ ∧
        ¬∑ hotkey ∈ ∅, (chain.getStakeForHotkeyOnSubnet hotkey (.sat 1)).val <
          (∑ hotkey ∈ ∅, (chain.getInheritedForHotkeyOnSubnet hotkey (.sat 1)).val) +
            (∅ : Finset ℕ).card := by
  intro chain
  obtain ⟨hgraph, hclosed⟩ := inheritingChain_graph .maxVal .maxVal
  refine ⟨hgraph, ⟨hclosed, ?_⟩, ?_, ?_⟩
  · decide +kernel
  · intro hotkey hmem
    exact absurd hmem (Finset.notMem_empty hotkey)
  · simp

end Chain

end Subtensor
