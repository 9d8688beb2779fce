import Mathlib.Data.List.MinMax
import Mathlib.Data.Prod.Lex
import Subtensor.Registration.UidRuns

/-!
# The neuron that is pruned

`get_neuron_to_prune` keeps two candidates in one pass, the least neuron out of
its immunity period and the least one in it. Each is the least for the score, the
block of the registration and the uid, in this order; the sentinels that the pass
starts from are never taken for a neuron.
-/

namespace Subtensor

open Lib

namespace Neurons

variable {A : Type} [DecidableEq A] {neurons : Neurons A} {ownerHotkey : Option A}
  {currentBlock : U64} {immunityPeriod : U16} {immune : Bool} {uid : U16} {n : ℕ}

/-! ## What the pass reads of a neuron -/

/-- `get_pruning_score_for_uid`. -/
def pruningScore (neurons : Neurons A) (uid : U16) : U16 :=
  (neurons.pruningScores[uid.val]?).getD .maxVal

/-- The hotkey is that of the owner of the subnet. -/
def IsOwnerSlot (neurons : Neurons A) (ownerHotkey : Option A) (uid : U16) : Prop :=
  neurons.keys uid ≠ none ∧ neurons.keys uid = ownerHotkey

instance : Decidable (neurons.IsOwnerSlot ownerHotkey uid) :=
  inferInstanceAs (Decidable (_ ∧ _))

/-- `get_neuron_is_immune`. -/
def isImmune (neurons : Neurons A) (currentBlock : U64) (immunityPeriod uid : U16) : Bool :=
  (currentBlock.satSub (neurons.blockAtRegistration uid)).val < immunityPeriod.val

/-- The order of pruning: by score, then by registration, then by uid. -/
def pruneKey (neurons : Neurons A) (uid : U16) : ℕ ×ₗ ℕ ×ₗ ℕ :=
  toLex ((neurons.pruningScore uid).val,
    toLex ((neurons.blockAtRegistration uid).val, uid.val))

/-- The neurons that are not the owner's, in or out of their immunity period. -/
def prunable (neurons : Neurons A) (ownerHotkey : Option A) (currentBlock : U64)
    (immunityPeriod : U16) (immune : Bool) : Set U16 :=
  {uid | uid.val < neurons.subnetworkN.val ∧ ¬neurons.IsOwnerSlot ownerHotkey uid ∧
    neurons.isImmune currentBlock immunityPeriod uid = immune}

/-! ## The pass -/

omit [DecidableEq A] in
theorem pruneKey_lt_iff (neurons : Neurons A) {uid uid' : U16} (h : uid'.val < uid.val) :
    neurons.pruneKey uid < neurons.pruneKey uid' ↔
      (neurons.pruningScore uid).val < (neurons.pruningScore uid').val ∨
        ((neurons.pruningScore uid).val = (neurons.pruningScore uid').val ∧
          (neurons.blockAtRegistration uid).val < (neurons.blockAtRegistration uid').val) := by
  unfold pruneKey
  rw [Prod.Lex.toLex_lt_toLex, Prod.Lex.toLex_lt_toLex]
  -- the uid comes later, so it decides no tie in its favour
  simp only [not_lt_of_gt h, and_false, or_false]

/-- The candidate that stands for the neuron found so far. -/
def candidateOf (neurons : Neurons A) : Option U16 → PruneCandidate
  | none => .start
  | some uid => ⟨neurons.pruningScore uid, neurons.blockAtRegistration uid, uid⟩

omit [DecidableEq A] in
/-- One step of the search for the least neuron, as `argmin` takes it. -/
theorem consider_candidateOf {best : Option U16} (hbest : ∀ uid' ∈ best, uid'.val < uid.val)
    (hblock : (neurons.blockAtRegistration uid).val < 2 ^ 64 - 1) :
    (neurons.candidateOf best).consider (neurons.pruningScore uid)
        (neurons.blockAtRegistration uid) uid =
      neurons.candidateOf (Option.casesOn best (some uid) fun uid' =>
        if neurons.pruneKey uid < neurons.pruneKey uid' then some uid else some uid') := by
  have hmax64 : (Word.maxVal : U64).val = 2 ^ 64 - 1 := rfl
  have hmax16 : (Word.maxVal : U16).val = 2 ^ 16 - 1 := rfl
  have hscore := (neurons.pruningScore uid).isLt
  cases best with
  | none =>
      -- a block below the sentinel beats it at any score
      refine if_pos ?_
      show (neurons.pruningScore uid).val < (Word.maxVal : U16).val ∨
        ((neurons.pruningScore uid).val = (Word.maxVal : U16).val ∧
          (neurons.blockAtRegistration uid).val < (Word.maxVal : U64).val)
      rw [hmax64, hmax16]
      omega
  | some uid' =>
      have hiff := neurons.pruneKey_lt_iff (hbest uid' rfl)
      by_cases hlt : neurons.pruneKey uid < neurons.pruneKey uid'
      · show _ = neurons.candidateOf (if _ then _ else _)
        rw [if_pos hlt]
        exact if_pos (hiff.mp hlt)
      · show _ = neurons.candidateOf (if _ then _ else _)
        rw [if_neg hlt]
        exact if_neg (mt hiff.mpr hlt)

/-- The prunable ones among the first uids. -/
def prunableBelow (neurons : Neurons A) (ownerHotkey : Option A) (currentBlock : U64)
    (immunityPeriod : U16) (immune : Bool) (n : ℕ) : List U16 :=
  ((List.range n).map (Word.wrap : ℕ → U16)).filter fun uid =>
    ¬neurons.IsOwnerSlot ownerHotkey uid ∧ neurons.isImmune currentBlock immunityPeriod uid = immune

theorem mem_prunableBelow (hn : n ≤ 2 ^ 16) :
    uid ∈ neurons.prunableBelow ownerHotkey currentBlock immunityPeriod immune n ↔
      uid.val < n ∧ ¬neurons.IsOwnerSlot ownerHotkey uid ∧
        neurons.isImmune currentBlock immunityPeriod uid = immune := by
  unfold prunableBelow
  rw [List.mem_filter, List.mem_map, decide_eq_true_iff]
  refine and_congr_left fun _ => ?_
  constructor
  · rintro ⟨i, hi, rfl⟩
    have hlt := List.mem_range.mp hi
    have hwrap : (Word.wrap i : U16).val = i := Nat.mod_eq_of_lt (by omega)
    rw [hwrap]
    exact hlt
  · intro hlt
    exact ⟨uid.val, List.mem_range.mpr hlt, Word.ext (Nat.mod_eq_of_lt uid.isLt)⟩

theorem prunableBelow_succ :
    neurons.prunableBelow ownerHotkey currentBlock immunityPeriod immune (n + 1) =
      neurons.prunableBelow ownerHotkey currentBlock immunityPeriod immune n ++
        if ¬neurons.IsOwnerSlot ownerHotkey (.wrap n) ∧
          neurons.isImmune currentBlock immunityPeriod (.wrap n) = immune then [.wrap n]
        else [] := by
  unfold prunableBelow
  rw [List.range_succ, List.map_append, List.filter_append]
  congr 1
  simp only [List.map_cons, List.map_nil, List.filter_singleton, Bool.cond_decide]

/-- The least prunable one among the first uids. -/
def leastBelow (neurons : Neurons A) (ownerHotkey : Option A) (currentBlock : U64)
    (immunityPeriod : U16) (immune : Bool) (n : ℕ) : Option U16 :=
  (neurons.prunableBelow ownerHotkey currentBlock immunityPeriod immune n).argmin
    neurons.pruneKey

/-- The accumulators after the first uids. -/
def pruneStateBelow (neurons : Neurons A) (ownerHotkey : Option A) (currentBlock : U64)
    (immunityPeriod : U16) (n : ℕ) : PruneState where
  nonImmune := neurons.candidateOf
    (neurons.leastBelow ownerHotkey currentBlock immunityPeriod false n)
  immune := neurons.candidateOf
    (neurons.leastBelow ownerHotkey currentBlock immunityPeriod true n)
  foundNonImmune := (neurons.leastBelow ownerHotkey currentBlock immunityPeriod false n).isSome

theorem leastBelow_lt (hn : n ≤ 2 ^ 16) :
    ∀ uid ∈ neurons.leastBelow ownerHotkey currentBlock immunityPeriod immune n, uid.val < n :=
  fun _ huid => ((mem_prunableBelow hn).mp (List.argmin_mem huid)).1

theorem leastBelow_succ_of_not
    (h : ¬(¬neurons.IsOwnerSlot ownerHotkey (.wrap n) ∧
      neurons.isImmune currentBlock immunityPeriod (.wrap n) = immune)) :
    neurons.leastBelow ownerHotkey currentBlock immunityPeriod immune (n + 1) =
      neurons.leastBelow ownerHotkey currentBlock immunityPeriod immune n := by
  unfold leastBelow
  rw [prunableBelow_succ, if_neg h, List.append_nil]

theorem candidateOf_leastBelow_succ (hn : n < 2 ^ 16)
    (h : ¬neurons.IsOwnerSlot ownerHotkey (.wrap n) ∧
      neurons.isImmune currentBlock immunityPeriod (.wrap n) = immune)
    (hblock : (neurons.blockAtRegistration (.wrap n)).val < 2 ^ 64 - 1) :
    neurons.candidateOf
        (neurons.leastBelow ownerHotkey currentBlock immunityPeriod immune (n + 1)) =
      (neurons.candidateOf
        (neurons.leastBelow ownerHotkey currentBlock immunityPeriod immune n)).consider
        (neurons.pruningScore (.wrap n)) (neurons.blockAtRegistration (.wrap n)) (.wrap n) := by
  have hwrap : (Word.wrap n : U16).val = n := Nat.mod_eq_of_lt hn
  rw [consider_candidateOf (by rw [hwrap]; exact leastBelow_lt hn.le) hblock]
  unfold leastBelow
  rw [prunableBelow_succ, if_pos h, List.argmin_concat]

theorem leastBelow_succ_isSome
    (h : ¬neurons.IsOwnerSlot ownerHotkey (.wrap n) ∧
      neurons.isImmune currentBlock immunityPeriod (.wrap n) = immune) :
    (neurons.leastBelow ownerHotkey currentBlock immunityPeriod immune (n + 1)).isSome = true := by
  rw [Option.isSome_iff_ne_none]
  unfold leastBelow
  rw [Ne, List.argmin_eq_none, prunableBelow_succ, if_pos h]
  simp

/-- A step of the pass: the accumulators hold the least ones so far. -/
theorem pruneStep_pruneStateBelow (hn : n < 2 ^ 16)
    (hblock : ¬neurons.IsOwnerSlot ownerHotkey (.wrap n) →
      (neurons.blockAtRegistration (.wrap n)).val < 2 ^ 64 - 1) :
    neurons.pruneStep ownerHotkey currentBlock immunityPeriod
        (neurons.pruneStateBelow ownerHotkey currentBlock immunityPeriod n) (.wrap n) =
      neurons.pruneStateBelow ownerHotkey currentBlock immunityPeriod (n + 1) := by
  by_cases howner : neurons.IsOwnerSlot ownerHotkey (.wrap n)
  · have hskip : ∀ immune, neurons.leastBelow ownerHotkey currentBlock immunityPeriod immune
        (n + 1) = neurons.leastBelow ownerHotkey currentBlock immunityPeriod immune n :=
      fun _ => leastBelow_succ_of_not fun h => h.1 howner
    unfold pruneStateBelow
    rw [hskip false, hskip true]
    exact if_pos howner
  · unfold pruneStateBelow
    cases himmune : neurons.isImmune currentBlock immunityPeriod (.wrap n) with
    | true =>
        have hother : neurons.leastBelow ownerHotkey currentBlock immunityPeriod false (n + 1) =
            neurons.leastBelow ownerHotkey currentBlock immunityPeriod false n :=
          leastBelow_succ_of_not fun h => absurd (himmune.symm.trans h.2) (by decide)
        rw [hother, candidateOf_leastBelow_succ hn ⟨howner, himmune⟩ (hblock howner)]
        exact (if_neg howner).trans (if_pos (of_decide_eq_true himmune))
    | false =>
        have hother : neurons.leastBelow ownerHotkey currentBlock immunityPeriod true (n + 1) =
            neurons.leastBelow ownerHotkey currentBlock immunityPeriod true n :=
          leastBelow_succ_of_not fun h => absurd (himmune.symm.trans h.2) (by decide)
        rw [hother, candidateOf_leastBelow_succ hn ⟨howner, himmune⟩ (hblock howner),
          leastBelow_succ_isSome ⟨howner, himmune⟩]
        exact (if_neg howner).trans (if_neg (of_decide_eq_false himmune))

theorem foldl_pruneStep (hn : n ≤ 2 ^ 16)
    (hblocks : ∀ uid : U16, uid.val < n → ¬neurons.IsOwnerSlot ownerHotkey uid →
      (neurons.blockAtRegistration uid).val < 2 ^ 64 - 1) :
    (List.range n).foldl (fun state uid => neurons.pruneStep ownerHotkey currentBlock
        immunityPeriod state (.wrap uid)) ⟨.start, .start, false⟩ =
      neurons.pruneStateBelow ownerHotkey currentBlock immunityPeriod n := by
  induction n with
  | zero => rfl
  | succ n ih =>
      have hwrap : (Word.wrap n : U16).val = n := Nat.mod_eq_of_lt hn
      rw [List.range_succ, List.foldl_append, ih (by omega)
        fun uid huid => hblocks uid (huid.trans (Nat.lt_succ_self n))]
      exact pruneStep_pruneStateBelow hn (hblocks _ (by omega))

/-! ## The neuron -/

/-- The uid is the least of the set, in the order of pruning. -/
def IsLeastPrunable (neurons : Neurons A) (uids : Set U16) (uid : U16) : Prop :=
  uid ∈ uids ∧ IsMinOn neurons.pruneKey uids uid

theorem leastBelow_isLeastPrunable
    (h : neurons.leastBelow ownerHotkey currentBlock immunityPeriod immune
      neurons.subnetworkN.val = some uid) :
    neurons.IsLeastPrunable
      (neurons.prunable ownerHotkey currentBlock immunityPeriod immune) uid := by
  have hn : neurons.subnetworkN.val ≤ 2 ^ 16 := neurons.subnetworkN.isLt.le
  refine ⟨(mem_prunableBelow hn).mp (List.argmin_mem h), fun uid' huid' => ?_⟩
  exact List.le_of_mem_argmin ((mem_prunableBelow hn).mpr huid') h

theorem leastBelow_eq_none
    (h : neurons.leastBelow ownerHotkey currentBlock immunityPeriod immune
      neurons.subnetworkN.val = none) :
    neurons.prunable ownerHotkey currentBlock immunityPeriod immune = ∅ := by
  have hnil := List.argmin_eq_none.mp h
  ext uid
  refine iff_of_false (fun huid => ?_) (Set.notMem_empty uid)
  have hmem := (mem_prunableBelow neurons.subnetworkN.isLt.le).mpr huid
  rw [hnil] at hmem
  exact List.not_mem_nil hmem

omit [DecidableEq A] in
theorem pruningScore_set {uid' : U16} (hne : uid' ≠ uid) (score : U16) :
    ({ neurons with pruningScores := neurons.pruningScores.set uid.val score } :
      Neurons A).pruningScore uid' = neurons.pruningScore uid' := by
  have hval : uid.val ≠ uid'.val := fun h => hne (Word.ext h.symm)
  unfold pruningScore
  rw [List.getElem?_set_ne hval]

theorem getNeuronToPrune_uid
    (hsome : ∃ uid : U16, uid.val < neurons.subnetworkN.val ∧
      ¬neurons.IsOwnerSlot ownerHotkey uid)
    (hblocks : ∀ uid : U16, uid.val < neurons.subnetworkN.val →
      ¬neurons.IsOwnerSlot ownerHotkey uid →
        (neurons.blockAtRegistration uid).val < 2 ^ 64 - 1) :
    ((neurons.prunable ownerHotkey currentBlock immunityPeriod false).Nonempty →
      neurons.IsLeastPrunable (neurons.prunable ownerHotkey currentBlock immunityPeriod false)
        (neurons.getNeuronToPrune ownerHotkey currentBlock immunityPeriod).1) ∧
    (¬(neurons.prunable ownerHotkey currentBlock immunityPeriod false).Nonempty →
      neurons.IsLeastPrunable (neurons.prunable ownerHotkey currentBlock immunityPeriod true)
        (neurons.getNeuronToPrune ownerHotkey currentBlock immunityPeriod).1) := by
  obtain ⟨uid₀, huid₀, hfree⟩ := hsome
  have hpos : neurons.subnetworkN.val ≠ 0 := by omega
  unfold getNeuronToPrune
  rw [if_neg hpos, foldl_pruneStep neurons.subnetworkN.isLt.le hblocks]
  constructor
  · rintro ⟨uid, huid⟩
    cases hleast : neurons.leastBelow ownerHotkey currentBlock immunityPeriod false
        neurons.subnetworkN.val with
    | none => exact absurd (leastBelow_eq_none hleast ▸ huid) (Set.notMem_empty uid)
    | some uid' =>
        unfold pruneStateBelow
        rw [hleast]
        exact leastBelow_isLeastPrunable hleast
  · intro hempty
    cases hleast : neurons.leastBelow ownerHotkey currentBlock immunityPeriod false
        neurons.subnetworkN.val with
    | some uid' => exact absurd ⟨uid', (leastBelow_isLeastPrunable hleast).1⟩ hempty
    | none =>
        -- the neuron that is not the owner's is immune
        have himmune : neurons.isImmune currentBlock immunityPeriod uid₀ = true := by
          rw [← Bool.not_eq_false]
          exact fun hfalse => hempty ⟨uid₀, huid₀, hfree, hfalse⟩
        cases hother : neurons.leastBelow ownerHotkey currentBlock immunityPeriod true
            neurons.subnetworkN.val with
        | none =>
            have hmem : uid₀ ∈ neurons.prunable ownerHotkey currentBlock immunityPeriod true :=
              ⟨huid₀, hfree, himmune⟩
            exact absurd (leastBelow_eq_none hother ▸ hmem) (Set.notMem_empty uid₀)
        | some uid' =>
            unfold pruneStateBelow
            rw [hleast, hother]
            exact leastBelow_isLeastPrunable hother

theorem getNeuronToPrune_not_owner
    (hsome : ∃ uid : U16, uid.val < neurons.subnetworkN.val ∧
      ¬neurons.IsOwnerSlot ownerHotkey uid)
    (hblocks : ∀ uid : U16, uid.val < neurons.subnetworkN.val →
      ¬neurons.IsOwnerSlot ownerHotkey uid →
        (neurons.blockAtRegistration uid).val < 2 ^ 64 - 1) :
    ¬neurons.IsOwnerSlot ownerHotkey
      (neurons.getNeuronToPrune ownerHotkey currentBlock immunityPeriod).1 := by
  obtain ⟨hout, hin⟩ := @getNeuronToPrune_uid A _ neurons ownerHotkey currentBlock immunityPeriod
    hsome hblocks
  by_cases h : (neurons.prunable ownerHotkey currentBlock immunityPeriod false).Nonempty
  · exact (hout h).1.2.1
  · exact (hin h).1.2.1

theorem getNeuronToPrune_table (hpos : neurons.subnetworkN.val ≠ 0) (ownerHotkey : Option A)
    (currentBlock : U64) (immunityPeriod : U16) :
    (neurons.getNeuronToPrune ownerHotkey currentBlock immunityPeriod).2 =
      { neurons with
        pruningScores := neurons.pruningScores.set
          (neurons.getNeuronToPrune ownerHotkey currentBlock immunityPeriod).1.val .maxVal } := by
  unfold getNeuronToPrune
  rw [if_neg hpos]

/-- **The neuron that is pruned.** It is the least one out of its immunity period
that is not the owner's, or the least one in it if there is none; nothing but
its score is changed. -/
theorem getNeuronToPrune_isLeastPrunable
    (hsome : ∃ uid : U16, uid.val < neurons.subnetworkN.val ∧
      ¬neurons.IsOwnerSlot ownerHotkey uid)
    (hblocks : ∀ uid : U16, uid.val < neurons.subnetworkN.val →
      ¬neurons.IsOwnerSlot ownerHotkey uid →
        (neurons.blockAtRegistration uid).val < 2 ^ 64 - 1) :
    ∃ uid neurons', neurons.getNeuronToPrune ownerHotkey currentBlock immunityPeriod =
        (uid, neurons') ∧
      ((neurons.prunable ownerHotkey currentBlock immunityPeriod false).Nonempty →
        neurons.IsLeastPrunable
          (neurons.prunable ownerHotkey currentBlock immunityPeriod false) uid) ∧
      (¬(neurons.prunable ownerHotkey currentBlock immunityPeriod false).Nonempty →
        neurons.IsLeastPrunable
          (neurons.prunable ownerHotkey currentBlock immunityPeriod true) uid) ∧
      neurons' = { neurons with pruningScores := neurons.pruningScores.set uid.val .maxVal } ∧
      ∀ uid' ≠ uid, neurons'.pruningScore uid' = neurons.pruningScore uid' := by
  obtain ⟨hout, hin⟩ := getNeuronToPrune_uid hsome hblocks
  have hpos : neurons.subnetworkN.val ≠ 0 := by
    obtain ⟨uid, huid, -⟩ := hsome
    omega
  have htable := getNeuronToPrune_table hpos ownerHotkey currentBlock immunityPeriod
  refine ⟨_, _, Prod.mk.eta.symm, hout, hin, htable, fun uid' hne => ?_⟩
  rw [htable]
  exact pruningScore_set hne _

/-- Three neurons, the first one of them the owner's. -/
def threeNeurons : Neurons ℕ :=
  ((empty.appendNeuron 1 (.sat 10)).appendNeuron 2 (.sat 20)).appendNeuron 3 (.sat 30)

theorem threeNeurons_blockAtRegistration {uid : U16} (huid : uid.val < 3) :
    (threeNeurons.blockAtRegistration uid).val ≤ 30 := by
  have hcases : uid = .sat 0 ∨ uid = .sat 1 ∨ uid = .sat 2 := by
    rcases (by omega : uid.val = 0 ∨ uid.val = 1 ∨ uid.val = 2) with h | h | h
    · exact Or.inl (Word.ext h)
    · exact Or.inr (Or.inl (Word.ext h))
    · exact Or.inr (Or.inr (Word.ext h))
  rcases hcases with rfl | rfl | rfl <;> decide

/-- The second neuron was registered before the third, and the first is the owner's. -/
theorem getNeuronToPrune_isLeastPrunable_threeNeurons :
    (threeNeurons.getNeuronToPrune (some 1) (.sat 10000) (.sat 5000)).1 = .sat 1 ∧
      threeNeurons.IsLeastPrunable
        (threeNeurons.prunable (some 1) (.sat 10000) (.sat 5000) false) (.sat 1) := by
  obtain ⟨uid, neurons', heq, hleast, -⟩ := @getNeuronToPrune_isLeastPrunable ℕ _ threeNeurons
    (some 1) (.sat 10000) (.sat 5000) ⟨.sat 1, by decide, by decide⟩
    fun uid huid _ => (threeNeurons_blockAtRegistration huid).trans_lt (by norm_num)
  have huid : (threeNeurons.getNeuronToPrune (some 1) (.sat 10000) (.sat 5000)).1 = .sat 1 := by
    decide
  refine ⟨huid, ?_⟩
  rw [heq] at huid
  subst huid
  exact hleast ⟨.sat 1, by decide, by decide, by decide⟩

end Neurons

end Subtensor
