import Subtensor.Pallet.Instances
import Subtensor.Pallet.SetChildren

/-!
# Both copies of the graph agree

Every list of children that is stored or pending was checked when it was
scheduled (`ValidChildren`), and replacing the children of a hotkey by a
checked list keeps `ChildKeys` and `ParentKeys` dual. Hence the invariant of
the graph holds along every run.
-/

namespace Subtensor.Children

open Lib Lib.Digraph

variable {A : Type}

/-! ## The checks of a request -/

/-- What `do_schedule_children` checks of a list of children. -/
structure ValidChildren (hotkey : A) (children : List (U64 × A)) : Prop where
  length_le : children.length ≤ 5
  not_mem : hotkey ∉ names children
  nodup : (names children).Nodup
  sum_lt : (children.map (·.1.val)).sum < 2 ^ 64

theorem validChildren_nil (hotkey : A) : ValidChildren hotkey [] where
  length_le := by simp
  not_mem := by simp
  nodup := by simp
  sum_lt := by simp

variable [DecidableEq A]

theorem hasDuplicate_eq_false {unique l : List A} (hunique : unique.Nodup)
    (h : hasDuplicate unique l = false) : (unique ++ l).Nodup := by
  induction l generalizing unique with
  | nil => simpa using hunique
  | cons child rest ih =>
      rw [hasDuplicate, Bool.or_eq_false_iff] at h
      obtain ⟨hnot, hrest⟩ := h
      have hmem : child ∉ unique := by simpa using hnot
      have hsnoc : (unique ++ [child]).Nodup := by
        refine hunique.append (List.nodup_singleton child) ?_
        simpa using hmem
      simpa using ih hsnoc hrest

omit [DecidableEq A] in
theorem foldlM_proportion {children : List (U64 × A)} {acc total : U64}
    (h : children.foldlM (fun (acc : U64) e =>
      if h : acc.val + e.1.val < 2 ^ 64 then some (⟨acc.val + e.1.val, h⟩ : U64) else none) acc =
        some total) :
    total.val = acc.val + (children.map (·.1.val)).sum := by
  induction children generalizing acc with
  | nil =>
      simp only [List.foldlM_nil, Option.pure_def, Option.some.injEq] at h
      simp [h]
  | cons e rest ih =>
      rw [List.foldlM_cons] at h
      split at h
      · have hrest := ih h
        simp only [List.map_cons, List.sum_cons] at hrest ⊢
        rw [hrest, add_assoc]
      · cases h

/-- **A list that passes the checks is valid.** -/
theorem validChildren_of_check {hotkey : A} {children : List (U64 × A)}
    (h : checkChildren hotkey children = .ok ()) : ValidChildren hotkey children := by
  unfold checkChildren at h
  cases htotal : totalProportion children with
  | none =>
      simp only [htotal] at h
      split_ifs at h
  | some total =>
      simp only [htotal] at h
      split_ifs at h with hlen hself hdup
      refine ⟨by omega, ?_, ?_, ?_⟩
      · intro hmem
        obtain ⟨w, hw⟩ := mem_names.mp hmem
        exact hself (List.any_eq_true.mpr ⟨_, hw, by simp⟩)
      · simpa using hasDuplicate_eq_false List.nodup_nil (by simpa using hdup)
      · have hsum := foldlM_proportion htotal
        have := total.isLt
        simp only [Word.val_zero, zero_add] at hsum
        omega

/-! ## The invariant of a subnet -/

/-- The two copies agree, and every list of children is valid. -/
structure GraphInv (graph : SubnetGraph A) : Prop where
  dual : Dual graph.childKeys graph.parentKeys
  valid : ∀ hotkey, ValidChildren hotkey (graph.childKeys hotkey)
  pending : ∀ hotkey request, graph.pendingChildKeys.lookup hotkey = some request →
    ValidChildren hotkey request.1

theorem graphInv_empty : GraphInv (SubnetGraph.empty : SubnetGraph A) where
  dual := dual_empty
  valid := validChildren_nil
  pending := by
    intro hotkey request h
    cases h

namespace GraphInv

variable {graph : SubnetGraph A}

theorem schedule (h : GraphInv graph) {hotkey : A} {children : List (U64 × A)}
    (hvalid : ValidChildren hotkey children) (cooldownBlock : U64) :
    GraphInv (graph.schedule hotkey children cooldownBlock) where
  dual := h.dual
  valid := h.valid
  pending := by
    intro key request hlookup
    by_cases hkey : key = hotkey
    · subst hkey
      have hreq : some (children, cooldownBlock) = some request := by
        rw [← hlookup]
        exact (AList.lookup_insert graph.pendingChildKeys).symm
      cases hreq
      exact hvalid
    · apply h.pending key request
      rw [← hlookup]
      exact (AList.lookup_insert_ne (s := graph.pendingChildKeys) hkey).symm

theorem setChildren (h : GraphInv graph) {hotkey : A} {children : List (U64 × A)}
    (hvalid : ValidChildren hotkey children) : GraphInv (graph.setChildren hotkey children) where
  dual := h.dual.replace hotkey hvalid.nodup hvalid.not_mem
  valid := by
    intro key
    by_cases hkey : key = hotkey
    · subst hkey
      simpa [SubnetGraph.setChildren] using hvalid
    · simpa [SubnetGraph.setChildren, Function.update_of_ne hkey] using h.valid key
  pending := h.pending

/-- One visited entry: its list is valid, as every entry of the map was. -/
theorem applyRequest (h : GraphInv graph) {entry : A × Request A}
    (hvalid : ValidChildren entry.1 entry.2.1) (currentBlock : U64) :
    GraphInv (SubnetGraph.applyRequest currentBlock graph entry) := by
  unfold SubnetGraph.applyRequest
  split
  · have hset := h.setChildren hvalid
    refine ⟨hset.dual, hset.valid, ?_⟩
    intro key request hlookup
    by_cases hkey : key = entry.1
    · subst hkey
      simp at hlookup
    · apply h.pending key request
      rw [← hlookup]
      exact (AList.lookup_erase_ne (s := graph.pendingChildKeys) hkey).symm
  · exact h

/-- The invariant along the whole iteration. -/
theorem doSetPendingChildren (currentBlock : U64) {entries : List (A × Request A)}
    (hvalid : ∀ entry ∈ entries, ValidChildren entry.1 entry.2.1) (h : GraphInv graph) :
    GraphInv (graph.doSetPendingChildren currentBlock entries) := by
  induction entries generalizing graph with
  | nil => exact h
  | cons entry rest ih =>
      apply ih
      · intro e he
        exact hvalid e (List.mem_cons_of_mem entry he)
      · exact h.applyRequest (hvalid entry List.mem_cons_self) currentBlock

end GraphInv

end Subtensor.Children

namespace Subtensor.Chain

open Lib Lib.Digraph Children

variable {A B P : Type} [DecidableEq A] {rt : Runtime A B P}

/-! ## Runs -/

theorem doScheduleChildren_ok {chain chain' : Chain A B P} {coldkey hotkey : A}
    {netuid : NetUid} {children : List (U64 × A)}
    (h : chain.doScheduleChildren rt coldkey hotkey netuid children = .ok chain') :
    ValidChildren hotkey children ∧
      chain'.graph = Function.update chain.graph netuid
        ((chain.graph netuid).schedule hotkey children
          (chain.block.satAdd chain.params.pendingChildKeyCooldown)) := by
  unfold doScheduleChildren at h
  cases hcheck : checkChildren hotkey children with
  | error e =>
      simp only [hcheck] at h
      split_ifs at h
  | ok u =>
      simp only [hcheck] at h
      split_ifs at h
      rw [Except.ok.injEq] at h
      subst h
      exact ⟨validChildren_of_check hcheck, rfl⟩

theorem mem_pendingEntries {chain : Chain A B P} {netuid : NetUid} {entry : A × Request A}
    (h : entry ∈ chain.pendingEntries netuid) :
    (chain.graph netuid).pendingChildKeys.lookup entry.1 = some entry.2 := by
  obtain ⟨e, he, rfl⟩ := List.mem_map.mp h
  exact StorageMap.mem_entries_iff.mp he

/-- Every step keeps the invariant of every subnet. -/
theorem ChildStep.graphInv {chain chain' : Chain A B P} (hstep : ChildStep rt chain chain')
    {netuid : NetUid} (h : GraphInv (chain.graph netuid)) : GraphInv (chain'.graph netuid) := by
  cases hstep with
  | schedule coldkey hotkey n children hok =>
      obtain ⟨hvalid, hgraph⟩ := doScheduleChildren_ok hok
      rw [hgraph]
      by_cases hn : netuid = n
      · subst hn
        simpa using h.schedule hvalid _
      · simpa [Function.update_of_ne hn] using h
  | setPending n entries hperm =>
      by_cases hn : netuid = n
      · subst hn
        have hvalid : ∀ entry ∈ entries, ValidChildren entry.1 entry.2.1 := by
          intro entry hentry
          exact h.pending _ _ (mem_pendingEntries (hperm.mem_iff.mp hentry))
        rw [doSetPendingChildren, withGraph_graph_self]
        exact GraphInv.doSetPendingChildren chain.block hvalid h
      · rwa [doSetPendingChildren, withGraph_graph_of_ne chain hn]
  | other hgraph =>
      rw [hgraph]
      exact h

/-- **The parent/child graph.** Along every run that starts from an empty
graph of a subnet, `ChildKeys` and `ParentKeys` hold the same edges, no list
names an account twice, no hotkey is its own child, and every list of
children has at most five entries whose proportions sum to at most
`u64::MAX`. -/
theorem childKeys_parentKeys_dual {start chain : Chain A B P} {netuid : NetUid}
    (hempty : start.graph netuid = SubnetGraph.empty)
    (hrun : Relation.ReflTransGen (ChildStep rt) start chain) :
    (∀ hotkey child p, (p, child) ∈ (chain.graph netuid).childKeys hotkey ↔
        (p, hotkey) ∈ (chain.graph netuid).parentKeys child) ∧
      (∀ hotkey, (names ((chain.graph netuid).childKeys hotkey)).Nodup ∧
        (names ((chain.graph netuid).parentKeys hotkey)).Nodup) ∧
      (∀ hotkey, hotkey ∉ names ((chain.graph netuid).childKeys hotkey)) ∧
      (∀ hotkey, ((chain.graph netuid).childKeys hotkey).length ≤ 5) ∧
      ∀ hotkey, (((chain.graph netuid).childKeys hotkey).map (·.1.val)).sum ≤ 2 ^ 64 - 1 := by
  have hinv : GraphInv (chain.graph netuid) := by
    induction hrun with
    | refl =>
        rw [hempty]
        exact graphInv_empty
    | tail _ hstep ih => exact hstep.graphInv ih
  refine ⟨hinv.dual.mem_iff, ?_, hinv.dual.irrefl, ?_, ?_⟩
  · intro hotkey
    exact ⟨hinv.dual.nodup_out hotkey, hinv.dual.nodup_into hotkey⟩
  · intro hotkey
    exact (hinv.valid hotkey).length_le
  · intro hotkey
    exact Nat.le_sub_one_of_lt (hinv.valid hotkey).sum_lt

/-- The owner of a subnet schedules a child, and it is set after the
cool-down. -/
theorem childKeys_parentKeys_dual_smallChain :
    ∃ chain, Relation.ReflTransGen (ChildStep runtime) smallChain chain ∧
      ((.sat 7 : U64), 1) ∈ (chain.graph (.sat 1)).parentKeys 2 := by
  have hok : (smallChain.doScheduleChildren runtime 10 1 (.sat 1) [(.sat 7, 2)]).toBool = true := by
    decide +kernel
  cases hsched : smallChain.doScheduleChildren runtime 10 1 (.sat 1) [(.sat 7, 2)] with
  | error e =>
      rw [hsched] at hok
      cases hok
  | ok scheduled =>
      obtain ⟨-, hgraph⟩ := doScheduleChildren_ok hsched
      let later : Chain ℕ (Balances ℕ) (SwapStorage ℕ) := { scheduled with block := .sat 9000 }
      let final := later.doSetPendingChildren (.sat 1) (later.pendingEntries (.sat 1))
      have hlater : ChildStep runtime scheduled later := .other rfl
      have hrun : Relation.ReflTransGen (ChildStep runtime) smallChain final :=
        ((Relation.ReflTransGen.single (.schedule 10 1 (.sat 1) _ hsched)).tail hlater).tail
          (.setPending (.sat 1) _ (List.Perm.refl _))
      have hmem : ((.sat 7 : U64), 2) ∈ (final.graph (.sat 1)).childKeys 1 := by
        have hfinal : final.graph (.sat 1) =
            (scheduled.graph (.sat 1)).doSetPendingChildren (.sat 9000)
              (scheduled.pendingEntries (.sat 1)) :=
          withGraph_graph_self ..
        rw [hfinal, pendingEntries, hgraph]
        decide +kernel
      exact ⟨final, hrun, ((childKeys_parentKeys_dual rfl hrun).1 1 2 _).mp hmem⟩

end Subtensor.Chain
