import Subtensor.Children.Duality
import Subtensor.Pallet.SwapHotkey

/-!
# Replacing a hotkey in the graph

`swapHotkey` gives the lists of the old hotkey to the new one and renames it
in the lists of its neighbours. It is a relabelling of the graph exactly when
the new hotkey is not part of the graph yet; otherwise it overwrites the
lists of the new hotkey, whose neighbours still point to it.
-/

namespace Subtensor.Children

open Lib Lib.Digraph

variable {A : Type}

/-- The two copies agree, and no hotkey is its own child, present or
requested. -/
structure Consistent [DecidableEq A] (graph : SubnetGraph A) : Prop where
  dual : Dual graph.childKeys graph.parentKeys
  pending_irrefl : ∀ hotkey request, graph.pendingChildKeys.lookup hotkey = some request →
    hotkey ∉ names request.1

/-- The edges between hotkeys other than the two are the same. -/
def SameElsewhere (graph graph' : SubnetGraph A) (oldHotkey newHotkey : A) : Prop :=
  ∀ u v p, u ≠ oldHotkey → u ≠ newHotkey → v ≠ oldHotkey → v ≠ newHotkey →
    ((p, v) ∈ graph'.childKeys u ↔ (p, v) ∈ graph.childKeys u) ∧
      ((p, v) ∈ graph'.parentKeys u ↔ (p, v) ∈ graph.parentKeys u)

/-- The new hotkey has neither children nor parents, and neither of the two
is requested as a child by the other in the request that survives: that of
the old hotkey, or that of the new one if the old has none. -/
structure SwapSafe [DecidableEq A] (graph : SubnetGraph A) (oldHotkey newHotkey : A) : Prop where
  no_children : graph.childKeys newHotkey = []
  no_parents : graph.parentKeys newHotkey = []
  old_request : ∀ request, graph.pendingChildKeys.lookup oldHotkey = some request →
    newHotkey ∉ names request.1
  new_request : graph.pendingChildKeys.lookup oldHotkey = none →
    ∀ request, graph.pendingChildKeys.lookup newHotkey = some request →
      oldHotkey ∉ names request.1

variable [DecidableEq A] {graph : SubnetGraph A} {oldHotkey newHotkey : A}

/-! ## The lists after the swap -/

section Links

variable (hne : oldHotkey ≠ newHotkey) (h : Dual graph.childKeys graph.parentKeys)

include hne h

/-- The parents that the second pass reads: the first pass did not change
them, as no hotkey is its own child. -/
theorem renameAll_parentKeys_old :
    renameAll graph.parentKeys oldHotkey newHotkey (names (graph.childKeys oldHotkey))
      oldHotkey = graph.parentKeys oldHotkey := by
  rw [renameAll_apply hne, if_neg (h.irrefl oldHotkey)]

theorem swapLinks_childKeys (u : A) :
    (graph.swapLinks oldHotkey newHotkey).childKeys u =
      if u = newHotkey then graph.childKeys oldHotkey
      else if u = oldHotkey then []
      else if u ∈ names (graph.parentKeys oldHotkey) then
        renameIn oldHotkey newHotkey (graph.childKeys u)
      else graph.childKeys u := by
  have hrename : (graph.swapLinks oldHotkey newHotkey).childKeys u =
      renameAll (Function.update (Function.update graph.childKeys oldHotkey []) newHotkey
        (graph.childKeys oldHotkey)) oldHotkey newHotkey
        (names (graph.parentKeys oldHotkey)) u := by
    rw [← renameAll_parentKeys_old hne h]
    rfl
  rw [hrename, renameAll_apply hne]
  by_cases hnew : u = newHotkey
  · subst hnew
    simp [renameIn_eq_self (h.irrefl oldHotkey)]
  · by_cases hold : u = oldHotkey
    · subst hold
      simp [hnew, renameIn]
    · simp [hnew, hold]

theorem swapLinks_parentKeys (v : A) :
    (graph.swapLinks oldHotkey newHotkey).parentKeys v =
      if v = newHotkey then graph.parentKeys oldHotkey
      else if v = oldHotkey then []
      else if v ∈ names (graph.childKeys oldHotkey) then
        renameIn oldHotkey newHotkey (graph.parentKeys v)
      else graph.parentKeys v := by
  have hupdate : (graph.swapLinks oldHotkey newHotkey).parentKeys v =
      Function.update (Function.update
        (renameAll graph.parentKeys oldHotkey newHotkey (names (graph.childKeys oldHotkey)))
        oldHotkey []) newHotkey (graph.parentKeys oldHotkey) v := by
    rw [← renameAll_parentKeys_old hne h]
    rfl
  rw [hupdate]
  by_cases hnew : v = newHotkey
  · subst hnew
    simp
  · by_cases hold : v = oldHotkey
    · subst hold
      simp [hnew]
    · simp [hnew, hold, renameAll_apply hne]

/-- Whatever the graph, the swap touches only edges at one of the two. -/
theorem sameElsewhere_swapHotkey :
    SameElsewhere graph (graph.swapHotkey oldHotkey newHotkey) oldHotkey newHotkey := by
  intro u v p huo hun hvo hvn
  have hchild : (graph.swapHotkey oldHotkey newHotkey).childKeys u =
      (graph.swapLinks oldHotkey newHotkey).childKeys u := rfl
  have hparent : (graph.swapHotkey oldHotkey newHotkey).parentKeys u =
      (graph.swapLinks oldHotkey newHotkey).parentKeys u := rfl
  rw [hchild, hparent, swapLinks_childKeys hne h, swapLinks_parentKeys hne h]
  simp only [if_neg hun, if_neg huo]
  constructor
  · split
    · exact mem_renameIn_of_ne hvo hvn
    · rfl
  · split
    · exact mem_renameIn_of_ne hvo hvn
    · rfl

/-! ## The swap as a relabelling -/

/-- A new hotkey without neighbours takes the place of the old one. -/
theorem swapLinks_dual (hc : graph.childKeys newHotkey = [])
    (hp : graph.parentKeys newHotkey = []) :
    Dual (graph.swapLinks oldHotkey newHotkey).childKeys
      (graph.swapLinks oldHotkey newHotkey).parentKeys := by
  -- nobody names the new hotkey, so on every list the renaming is the bijection
  have hrelabel : ∀ (links : Links A U64) (v : A), newHotkey ∉ names (links v) →
      (links v).map (fun e => (e.1, Equiv.swap oldHotkey newHotkey e.2)) =
        renameIn oldHotkey newHotkey (links v) := by
    intro links v hnot
    apply List.map_congr_left
    rintro ⟨p, x⟩ hx
    by_cases hxo : x = oldHotkey
    · subst hxo
      simp
    · have hxn : x ≠ newHotkey := by
        rintro rfl
        exact hnot (mem_names_of_mem hx)
      simp [rename_of_ne hxo, Equiv.swap_apply_of_ne_of_ne hxo hxn]
  have hnotc : ∀ u, newHotkey ∉ names (graph.childKeys u) := by
    intro u hu
    rw [h.mem_names_iff, hp] at hu
    cases hu
  have hnotp : ∀ v, newHotkey ∉ names (graph.parentKeys v) := by
    intro v hv
    rw [← h.mem_names_iff, hc] at hv
    cases hv
  have hchild : (graph.swapLinks oldHotkey newHotkey).childKeys =
      relabel (Equiv.swap oldHotkey newHotkey) graph.childKeys := by
    funext u
    rw [swapLinks_childKeys hne h]
    show _ = (graph.childKeys (Equiv.swap oldHotkey newHotkey u)).map _
    rw [hrelabel _ _ (hnotc _)]
    by_cases hun : u = newHotkey
    · subst hun
      simp [renameIn_eq_self (h.irrefl oldHotkey)]
    · by_cases huo : u = oldHotkey
      · subst huo
        simp [hun, hc, renameIn]
      · simp only [if_neg hun, if_neg huo, Equiv.swap_apply_of_ne_of_ne huo hun]
        split
        · rfl
        · rename_i hu
          rw [← h.mem_names_iff] at hu
          exact (renameIn_eq_self hu).symm
  have hparent : (graph.swapLinks oldHotkey newHotkey).parentKeys =
      relabel (Equiv.swap oldHotkey newHotkey) graph.parentKeys := by
    funext v
    rw [swapLinks_parentKeys hne h]
    show _ = (graph.parentKeys (Equiv.swap oldHotkey newHotkey v)).map _
    rw [hrelabel _ _ (hnotp _)]
    by_cases hvn : v = newHotkey
    · subst hvn
      simp [renameIn_eq_self (h.irrefl_into oldHotkey)]
    · by_cases hvo : v = oldHotkey
      · subst hvo
        simp [hvn, hp, renameIn]
      · simp only [if_neg hvn, if_neg hvo, Equiv.swap_apply_of_ne_of_ne hvo hvn]
        split
        · rfl
        · rename_i hv
          rw [h.mem_names_iff] at hv
          exact (renameIn_eq_self hv).symm
  rw [hchild, hparent]
  exact h.relabel _

omit hne h in
/-- A vertex whose lists were overwritten by those of another one had no
successors: a former successor would either have it as a predecessor that
does not list it, or twice. -/
theorem eq_nil_of_overwritten {out into out' into' : Links A U64} (hne : oldHotkey ≠ newHotkey)
    (h : Dual out into) (h' : Dual out' into') (hout : out' newHotkey = out oldHotkey)
    (hinto : into' newHotkey = into oldHotkey)
    (hlist : ∀ d, d ≠ newHotkey → d ≠ oldHotkey →
      into' d = if d ∈ names (out oldHotkey) then renameIn oldHotkey newHotkey (into d)
        else into d) :
    out newHotkey = [] := by
  apply eq_nil_of_names
  intro p d hd
  have hnd : (p, newHotkey) ∈ into d := (h.mem_iff _ _ _).mp hd
  have hdn : d ≠ newHotkey := by
    rintro rfl
    exact h.irrefl _ (mem_names_of_mem hd)
  have hdo : d ≠ oldHotkey := by
    rintro rfl
    have hself := h'.irrefl_into newHotkey
    rw [hinto] at hself
    exact hself (mem_names_of_mem hnd)
  have hd' := hlist d hdn hdo
  by_cases hmem : d ∈ names (out oldHotkey)
  · rw [if_pos hmem] at hd'
    have hnodup := h'.nodup_into d
    rw [hd'] at hnodup
    exact not_nodup_renameIn hne (h.mem_names_iff.mp hmem) (mem_names_of_mem hnd) hnodup
  · rw [if_neg hmem] at hd'
    have hback : (p, d) ∈ out' newHotkey := by
      rw [h'.mem_iff, hd']
      exact hnd
    rw [hout] at hback
    exact hmem (mem_names_of_mem hback)

/-- Conversely, duality after the swap means that the new hotkey had no
neighbours. -/
theorem eq_nil_of_swapLinks_dual (h' : Dual (graph.swapLinks oldHotkey newHotkey).childKeys
    (graph.swapLinks oldHotkey newHotkey).parentKeys) :
    graph.childKeys newHotkey = [] ∧ graph.parentKeys newHotkey = [] := by
  have hc : (graph.swapLinks oldHotkey newHotkey).childKeys newHotkey =
      graph.childKeys oldHotkey := by
    rw [swapLinks_childKeys hne h, if_pos rfl]
  have hp : (graph.swapLinks oldHotkey newHotkey).parentKeys newHotkey =
      graph.parentKeys oldHotkey := by
    rw [swapLinks_parentKeys hne h, if_pos rfl]
  constructor
  · apply eq_nil_of_overwritten hne h h' hc hp
    intro d hdn hdo
    rw [swapLinks_parentKeys hne h, if_neg hdn, if_neg hdo]
  · apply eq_nil_of_overwritten hne h.symm h'.symm hp hc
    intro q hqn hqo
    rw [swapLinks_childKeys hne h, if_neg hqn, if_neg hqo]

end Links

/-! ## Requests -/

/-- A request for the old hotkey becomes one for the new hotkey; the other
children stay. -/
theorem mem_names_renameRequest (request : Request A) {x : A} (hx : x ≠ oldHotkey) :
    x ∈ names (SubnetGraph.renameRequest oldHotkey newHotkey request).1 ↔
      x ∈ names request.1 ∨ (x = newHotkey ∧ oldHotkey ∈ names request.1) := by
  unfold SubnetGraph.renameRequest
  cases hidx : request.1.findIdx? (·.2 = oldHotkey) with
  | none =>
      have hnot : oldHotkey ∉ names request.1 := by
        intro hmem
        obtain ⟨p, hp⟩ := mem_names.mp hmem
        have hall := List.findIdx?_eq_none_iff.mp hidx _ hp
        simp at hall
      simp [hnot]
  | some index =>
      obtain ⟨hlt, hold, -⟩ := List.findIdx?_eq_some_iff_getElem.mp hidx
      have hname : (request.1[index]).2 = oldHotkey := by simpa using hold
      have hperm := (List.getElem_cons_eraseIdx_perm hlt).map Prod.snd
      have hmem : ∀ y, y ∈ names request.1 ↔
          y = oldHotkey ∨ y ∈ names (request.1.eraseIdx index) := by
        intro y
        rw [names, ← hperm.mem_iff, List.map_cons, List.mem_cons, hname]
        rfl
      have happend : names (request.1.eraseIdx index ++ [((request.1[index]).1, newHotkey)]) =
          names (request.1.eraseIdx index) ++ [newHotkey] := by
        simp [names]
      simp only [List.getElem?_eq_getElem hlt, happend, List.mem_append, List.mem_singleton,
        hmem x, hmem oldHotkey, hx, false_or, true_or, and_true]

theorem lookup_movePending_old (hne : oldHotkey ≠ newHotkey) :
    (graph.movePending oldHotkey newHotkey).lookup oldHotkey = none := by
  unfold SubnetGraph.movePending
  cases hold : graph.pendingChildKeys.lookup oldHotkey with
  | none => exact hold
  | some request =>
      simp only
      rw [AList.lookup_insert_ne hne, AList.lookup_erase]

theorem lookup_movePending_of_ne {hotkey : A} (ho : hotkey ≠ oldHotkey)
    (hn : hotkey ≠ newHotkey) :
    (graph.movePending oldHotkey newHotkey).lookup hotkey =
      graph.pendingChildKeys.lookup hotkey := by
  unfold SubnetGraph.movePending
  cases hold : graph.pendingChildKeys.lookup oldHotkey with
  | none => rfl
  | some request =>
      simp only
      rw [AList.lookup_insert_ne hn, AList.lookup_erase_ne ho]

theorem lookup_movePending_new :
    (graph.movePending oldHotkey newHotkey).lookup newHotkey =
      (graph.pendingChildKeys.lookup oldHotkey).or
        (graph.pendingChildKeys.lookup newHotkey) := by
  unfold SubnetGraph.movePending
  cases hold : graph.pendingChildKeys.lookup oldHotkey with
  | none => rfl
  | some request => exact AList.lookup_insert _

/-- The requests after the swap name no hotkey as its own child exactly when
the two hotkeys do not request each other. -/
theorem pending_irrefl_swapHotkey_iff (hne : oldHotkey ≠ newHotkey)
    (h : ∀ hotkey request, graph.pendingChildKeys.lookup hotkey = some request →
      hotkey ∉ names request.1) :
    (∀ hotkey request,
        (graph.swapHotkey oldHotkey newHotkey).pendingChildKeys.lookup hotkey = some request →
          hotkey ∉ names request.1) ↔
      ∀ request, (graph.pendingChildKeys.lookup oldHotkey).or
        (graph.pendingChildKeys.lookup newHotkey) = some request →
          newHotkey ∉ names request.1 ∧
            (graph.pendingChildKeys.lookup oldHotkey = none → oldHotkey ∉ names request.1) := by
  have hlookup : ∀ hotkey,
      (graph.swapHotkey oldHotkey newHotkey).pendingChildKeys.lookup hotkey =
        ((graph.movePending oldHotkey newHotkey).lookup hotkey).map
          (SubnetGraph.renameRequest oldHotkey newHotkey) := by
    intro hotkey
    exact StorageMap.lookup_mapValues _ _ _
  constructor
  · intro h' request hrequest
    have hnew := h' newHotkey (SubnetGraph.renameRequest oldHotkey newHotkey request) (by
      rw [hlookup, lookup_movePending_new, hrequest]
      rfl)
    rw [mem_names_renameRequest request hne.symm] at hnew
    rw [not_or, not_and] at hnew
    exact ⟨hnew.1, fun _ => hnew.2 rfl⟩
  · intro hsafe hotkey request' hrequest'
    rw [hlookup, Option.map_eq_some_iff] at hrequest'
    obtain ⟨request, hrequest, rfl⟩ := hrequest'
    have ho : hotkey ≠ oldHotkey := by
      rintro rfl
      rw [lookup_movePending_old hne] at hrequest
      cases hrequest
    rw [mem_names_renameRequest request ho]
    by_cases hn : hotkey = newHotkey
    · subst hn
      rw [lookup_movePending_new] at hrequest
      obtain ⟨hnot, hold⟩ := hsafe request hrequest
      rintro (hmem | ⟨-, hmem⟩)
      · exact hnot hmem
      · cases hreq : graph.pendingChildKeys.lookup oldHotkey with
        | none => exact hold hreq hmem
        | some r =>
            rw [hreq, Option.some_or] at hrequest
            cases hrequest
            exact h oldHotkey _ hreq hmem
    · rw [lookup_movePending_of_ne ho hn] at hrequest
      rintro (hmem | ⟨heq, -⟩)
      · exact h hotkey request hrequest hmem
      · exact hn heq

/-- **When a hotkey swap keeps the graph consistent.** -/
theorem swapHotkey_consistent_iff (hne : oldHotkey ≠ newHotkey) (h : Consistent graph) :
    (Consistent (graph.swapHotkey oldHotkey newHotkey) ∧
        SameElsewhere graph (graph.swapHotkey oldHotkey newHotkey) oldHotkey newHotkey) ↔
      SwapSafe graph oldHotkey newHotkey := by
  have hpending := pending_irrefl_swapHotkey_iff hne h.pending_irrefl
  constructor
  · rintro ⟨h', -⟩
    obtain ⟨hc, hp⟩ := eq_nil_of_swapLinks_dual hne h.dual h'.dual
    have hrequests := hpending.mp h'.pending_irrefl
    refine ⟨hc, hp, ?_, ?_⟩
    · intro request hrequest
      exact (hrequests request (by rw [hrequest, Option.some_or])).1
    · intro hnone request hrequest
      exact (hrequests request (by rw [hnone, Option.none_or, hrequest])).2 hnone
  · intro hsafe
    refine ⟨⟨?_, ?_⟩, sameElsewhere_swapHotkey hne h.dual⟩
    · exact swapLinks_dual hne h.dual hsafe.no_children hsafe.no_parents
    · apply hpending.mpr
      intro request hrequest
      cases hold : graph.pendingChildKeys.lookup oldHotkey with
      | none =>
          rw [hold, Option.none_or] at hrequest
          exact ⟨h.pending_irrefl _ _ hrequest, fun _ => hsafe.new_request hold request hrequest⟩
      | some r =>
          rw [hold, Option.some_or] at hrequest
          cases hrequest
          exact ⟨hsafe.old_request _ hold, fun hnone => absurd hnone (by simp)⟩

end Subtensor.Children

namespace Subtensor.Chain

open Lib Lib.Digraph Children

variable {A B P : Type} [DecidableEq A] {rt : Runtime A B P}

/-! ## The dispatch -/

/-- The subnets on which the swap takes place. -/
def swappedSubnets (chain : Chain A B P) : Option NetUid → List NetUid
  | some netuid => [netuid]
  | none => chain.getAllSubnetNetuids

theorem performHotkeySwapOnSubnets_graph (oldHotkey newHotkey : A) {netuids : List NetUid}
    (hnodup : netuids.Nodup) (chain : Chain A B P) (n : NetUid) :
    (chain.performHotkeySwapOnSubnets oldHotkey newHotkey netuids).graph n =
      if n ∈ netuids then (chain.graph n).swapHotkey oldHotkey newHotkey else chain.graph n := by
  induction netuids generalizing chain with
  | nil => rfl
  | cons netuid rest ih =>
      obtain ⟨hnot, hrest⟩ := List.nodup_cons.mp hnodup
      have hstep : chain.performHotkeySwapOnSubnets oldHotkey newHotkey (netuid :: rest) =
          (chain.performHotkeySwapOnOneSubnet oldHotkey newHotkey
            netuid).performHotkeySwapOnSubnets oldHotkey newHotkey rest := rfl
      have hgraph : (chain.performHotkeySwapOnOneSubnet oldHotkey newHotkey netuid).graph =
          Function.update chain.graph netuid
            ((chain.graph netuid).swapHotkey oldHotkey newHotkey) := rfl
      rw [hstep, ih hrest, hgraph]
      by_cases hn : n = netuid
      · subst hn
        simp [hnot]
      · simp [hn]

omit [DecidableEq A] in
theorem paySwapCost_frame {chain chain' : Chain A B P} {coldkey : A} {cost : U64} {error : Error}
    (h : chain.paySwapCost rt coldkey cost error = .ok chain') :
    ∃ ledger, chain' = { chain with ledger := ledger } := by
  unfold paySwapCost at h
  split_ifs at h
  cases hremove : chain.removeBalanceFromColdkeyAccount rt coldkey cost with
  | error e =>
      rw [hremove] at h
      cases h
  | ok res =>
      obtain ⟨chain₁, credit⟩ := res
      rw [hremove] at h
      simp only [Except.ok.injEq] at h
      obtain ⟨currency, rfl⟩ := removeBalance_frame hremove
      subst h
      exact ⟨_, rfl⟩

theorem doSwapHotkey_graph {chain chain' : Chain A B P} {coldkey oldHotkey newHotkey : A}
    {netuid : Option NetUid}
    (h : chain.doSwapHotkey rt coldkey oldHotkey newHotkey netuid = .ok chain') :
    oldHotkey ≠ newHotkey ∧ ∀ n, chain'.graph n =
      if n ∈ chain.swappedSubnets netuid then (chain.graph n).swapHotkey oldHotkey newHotkey
      else chain.graph n := by
  unfold doSwapHotkey at h
  split_ifs at h with _ hne _ _
  refine ⟨hne, ?_⟩
  cases netuid with
  | some netuid =>
      simp only [swapHotkeyOnSubnet] at h
      split_ifs at h
      split at h
      · cases h
      · rename_i chain₁ hpay
        obtain ⟨ledger, rfl⟩ := paySwapCost_frame hpay
        rw [Except.ok.injEq] at h
        subst h
        intro n
        exact performHotkeySwapOnSubnets_graph oldHotkey newHotkey (List.nodup_singleton netuid)
          chain n
  | none =>
      simp only at h
      split at h
      · cases h
      · rename_i chain₁ hpay
        obtain ⟨ledger, rfl⟩ := paySwapCost_frame hpay
        split at h
        · cases h
        · rename_i chain₂ hperform
          rw [Except.ok.injEq] at h
          subst h
          unfold performHotkeySwapOnAllSubnets at hperform
          simp only at hperform
          split at hperform
          · cases hperform
          · rw [Except.ok.injEq] at hperform
            subst hperform
            intro n
            exact performHotkeySwapOnSubnets_graph (B := B) (P := P) oldHotkey newHotkey
              (AList.keys_nodup chain.networksAdded) _ n

/-- **When a hotkey swap keeps the parent/child graph.** On a subnet whose
graph is consistent, the graph after the swap is consistent and agrees on all
edges between other hotkeys exactly when the swap is safe there, or does not
touch the subnet. -/
theorem doSwapHotkey_consistent_iff {chain chain' : Chain A B P}
    {coldkey oldHotkey newHotkey : A} {netuid : Option NetUid} (n : NetUid)
    (h : chain.doSwapHotkey rt coldkey oldHotkey newHotkey netuid = .ok chain')
    (hconsistent : Consistent (chain.graph n)) :
    (Consistent (chain'.graph n) ∧
        SameElsewhere (chain.graph n) (chain'.graph n) oldHotkey newHotkey) ↔
      (n ∈ chain.swappedSubnets netuid → SwapSafe (chain.graph n) oldHotkey newHotkey) := by
  obtain ⟨hne, hgraph⟩ := doSwapHotkey_graph h
  rw [hgraph n]
  by_cases hn : n ∈ chain.swappedSubnets netuid
  · simp only [hn, if_true, true_implies]
    exact swapHotkey_consistent_iff hne hconsistent
  · simp only [hn, if_false, false_implies, iff_true]
    exact ⟨hconsistent, fun _ _ _ _ _ _ _ => ⟨Iff.rfl, Iff.rfl⟩⟩

/-- The hotkey `2` is the child of the hotkey `1` on subnet `1`. -/
def familyChain : Chain ℕ (Balances ℕ) (SwapStorage ℕ) :=
  smallChain.withGraph (.sat 1) fun graph => graph.setChildren 1 [(.sat 7, 2)]

theorem familyChain_consistent : Consistent (familyChain.graph (.sat 1)) := by
  rw [familyChain, withGraph_graph_self]
  refine ⟨?_, ?_⟩
  · exact Dual.replace dual_empty 1 (by decide) (by decide)
  · intro hotkey request hlookup
    cases hlookup

/-- The hotkey `1` is swapped for a hotkey that has no neighbours, which becomes the
parent of `2`. -/
theorem doSwapHotkey_consistent_familyChain :
    ∃ chain', familyChain.doSwapHotkey runtime 10 1 4 none = .ok chain' ∧
      Consistent (chain'.graph (.sat 1)) ∧ (chain'.graph (.sat 1)).childKeys 4 = [(.sat 7, 2)] ∧
      (chain'.graph (.sat 1)).parentKeys 2 = [(.sat 7, 4)] := by
  have hok : (familyChain.doSwapHotkey runtime 10 1 4 none).toBool = true := by decide +kernel
  cases hswap : familyChain.doSwapHotkey runtime 10 1 4 none with
  | error e =>
      rw [hswap] at hok
      cases hok
  | ok chain' =>
      have hgraph := (doSwapHotkey_graph hswap).2 (.sat 1)
      refine ⟨chain', rfl, ?_, ?_, ?_⟩
      · refine ((doSwapHotkey_consistent_iff (.sat 1) hswap familyChain_consistent).mpr ?_).1
        intro _
        refine ⟨by decide +kernel, by decide +kernel, ?_, ?_⟩
        · intro request hlookup
          cases hlookup
        · intro _ request hlookup
          cases hlookup
      · rw [hgraph]
        decide +kernel
      · rw [hgraph]
        decide +kernel

/-- The hotkey `1` is swapped for its child `2`, which becomes its own
child. -/
theorem familyChain_swap_self_child :
    Consistent (familyChain.graph (.sat 1)) ∧
      ∃ chain', familyChain.doSwapHotkey runtime 10 1 2 none = .ok chain' ∧
        2 ∈ names ((chain'.graph (.sat 1)).childKeys 2) ∧ ¬Consistent (chain'.graph (.sat 1)) := by
  refine ⟨familyChain_consistent, ?_⟩
  have hok : (familyChain.doSwapHotkey runtime 10 1 2 none).toBool = true := by decide +kernel
  cases hswap : familyChain.doSwapHotkey runtime 10 1 2 none with
  | error e =>
      rw [hswap] at hok
      cases hok
  | ok chain' =>
      have hself : 2 ∈ names ((chain'.graph (.sat 1)).childKeys 2) := by
        rw [(doSwapHotkey_graph hswap).2]
        decide +kernel
      exact ⟨chain', rfl, hself, fun h => h.dual.irrefl 2 hself⟩

end Subtensor.Chain
