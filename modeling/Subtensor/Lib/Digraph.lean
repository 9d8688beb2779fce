import Mathlib.Tactic
import Mathlib.Data.List.Nodup
import Mathlib.Logic.Equiv.Basic

/-!
# A weighted directed graph that is stored twice

The edges of a weighted directed graph, once as the list of successors of
every vertex and once as the list of its predecessors. `Dual` says that the
two copies are copies of one graph. The operations edit one edge at a time:
`unlink` and `link` change the predecessor lists of several vertices, and
`renameAll` replaces a name in several lists.
-/

namespace Subtensor.Lib.Digraph

variable {V W : Type}

/-- For every vertex a list of neighbours with the weight of the edge. -/
abbrev Links (V W : Type) := V → List (W × V)

def names (l : List (W × V)) : List V := l.map Prod.snd

@[simp] theorem names_nil : names ([] : List (W × V)) = [] := rfl

theorem mem_names {l : List (W × V)} {v : V} : v ∈ names l ↔ ∃ w, (w, v) ∈ l := by
  simp [names]

theorem mem_names_of_mem {l : List (W × V)} {w : W} {v : V} (h : (w, v) ∈ l) : v ∈ names l :=
  mem_names.mpr ⟨w, h⟩

theorem eq_nil_of_names {l : List (W × V)} (h : ∀ w v, (w, v) ∉ l) : l = [] :=
  List.eq_nil_iff_forall_not_mem.mpr fun e => h e.1 e.2

/-- Both copies hold the same edges, no vertex is listed twice, and no edge
is a loop. -/
structure Dual (out into : Links V W) : Prop where
  mem_iff : ∀ u v w, (w, v) ∈ out u ↔ (w, u) ∈ into v
  nodup_out : ∀ u, (names (out u)).Nodup
  nodup_into : ∀ v, (names (into v)).Nodup
  irrefl : ∀ u, u ∉ names (out u)

theorem dual_empty : Dual (fun _ : V => ([] : List (W × V))) fun _ => [] where
  mem_iff := by simp
  nodup_out := by simp
  nodup_into := by simp
  irrefl := by simp

namespace Dual

variable {out into : Links V W}

theorem mem_names_iff (h : Dual out into) {u v : V} :
    v ∈ names (out u) ↔ u ∈ names (into v) := by
  simp only [mem_names, h.mem_iff]

theorem irrefl_into (h : Dual out into) (v : V) : v ∉ names (into v) := by
  rw [← h.mem_names_iff]
  exact h.irrefl v

/-- The copies may be exchanged. -/
theorem symm (h : Dual out into) : Dual into out where
  mem_iff u v w := (h.mem_iff v u w).symm
  nodup_out := h.nodup_into
  nodup_into := h.nodup_out
  irrefl := h.irrefl_into

end Dual

/-! ## Sums over the edges -/

/-- Both copies hold the same edges, and no vertex is listed twice. -/
structure SameEdges (out into : Links V W) : Prop where
  mem_iff : ∀ u v w, (w, v) ∈ out u ↔ (w, u) ∈ into v
  nodup_out : ∀ u, (names (out u)).Nodup
  nodup_into : ∀ v, (names (into v)).Nodup

/-- Every edge that leaves a vertex of a closed set enters one. -/
theorem SameEdges.sum_out_eq_sum_into {out into : Links V W} (h : SameEdges out into)
    {H : Finset V} (hout : ∀ u ∈ H, ∀ v ∈ names (out u), v ∈ H)
    (hinto : ∀ v ∈ H, ∀ u ∈ names (into v), u ∈ H) (f : V → V → W → ℕ) :
    ∑ u ∈ H, ((out u).map fun e => f u e.2 e.1).sum =
      ∑ v ∈ H, ((into v).map fun e => f e.2 v e.1).sum := by
  classical
  have hlist : ∀ (l : List (W × V)) (g : W × V → ℕ), (names l).Nodup →
      (l.map g).sum = ∑ e ∈ l.toFinset, g e := by
    intro l g hl
    exact (List.sum_toFinset g (List.Nodup.of_map _ hl)).symm
  have hsumOut : ∑ u ∈ H, ((out u).map fun e => f u e.2 e.1).sum =
      ∑ u ∈ H, ∑ e ∈ (out u).toFinset, f u e.2 e.1 :=
    Finset.sum_congr rfl fun u _ => hlist _ _ (h.nodup_out u)
  have hsumInto : ∑ v ∈ H, ((into v).map fun e => f e.2 v e.1).sum =
      ∑ v ∈ H, ∑ e ∈ (into v).toFinset, f e.2 v e.1 :=
    Finset.sum_congr rfl fun v _ => hlist _ _ (h.nodup_into v)
  rw [hsumOut, hsumInto, Finset.sum_sigma', Finset.sum_sigma']
  -- an edge is turned around
  refine Finset.sum_nbij' (fun x => ⟨x.2.2, (x.2.1, x.1)⟩) (fun x => ⟨x.2.2, (x.2.1, x.1)⟩)
    ?_ ?_ ?_ ?_ ?_
  · rintro ⟨u, w, v⟩ hx
    obtain ⟨hu, he⟩ := Finset.mem_sigma.mp hx
    have he' : (w, v) ∈ out u := List.mem_toFinset.mp he
    exact Finset.mem_sigma.mpr ⟨hout u hu v (mem_names_of_mem he'),
      List.mem_toFinset.mpr ((h.mem_iff u v w).mp he')⟩
  · rintro ⟨v, w, u⟩ hx
    obtain ⟨hv, he⟩ := Finset.mem_sigma.mp hx
    have he' : (w, u) ∈ into v := List.mem_toFinset.mp he
    exact Finset.mem_sigma.mpr ⟨hinto v hv u (mem_names_of_mem he'),
      List.mem_toFinset.mpr ((h.mem_iff u v w).mpr he')⟩
  · rintro ⟨u, w, v⟩ -
    rfl
  · rintro ⟨v, w, u⟩ -
    rfl
  · rintro ⟨u, w, v⟩ -
    rfl

/-! ## Replacing the successors of a vertex -/

section Replace

variable [DecidableEq V]

/-- Take `u` out of the predecessors of every vertex of a list. -/
def unlink (into : Links V W) (u : V) (vs : List V) : Links V W :=
  vs.foldl (fun into v => Function.update into v ((into v).filter (·.2 ≠ u))) into

/-- Append `u` to the predecessors of every vertex of a list. -/
def link (into : Links V W) (u : V) (es : List (W × V)) : Links V W :=
  es.foldl (fun into e => Function.update into e.2 (into e.2 ++ [(e.1, u)])) into

theorem unlink_apply (u : V) (vs : List V) (into : Links V W) (v : V) :
    unlink into u vs v = if v ∈ vs then (into v).filter (·.2 ≠ u) else into v := by
  induction vs generalizing into with
  | nil => simp [unlink]
  | cons a vs ih =>
      have hstep : unlink into u (a :: vs) =
          unlink (Function.update into a ((into a).filter (·.2 ≠ u))) u vs := rfl
      rw [hstep, ih]
      by_cases ha : v = a
      · subst ha
        simp [List.filter_filter]
      · simp [ha]

theorem link_apply (u : V) (es : List (W × V)) (into : Links V W) (v : V) :
    link into u es v = into v ++ (es.filter (·.2 = v)).map fun e => (e.1, u) := by
  induction es generalizing into with
  | nil => simp [link]
  | cons e es ih =>
      have hstep : link into u (e :: es) =
          link (Function.update into e.2 (into e.2 ++ [(e.1, u)])) u es := rfl
      rw [hstep, ih]
      by_cases he : e.2 = v
      · subst he
        simp
      · simp [he, Function.update_of_ne (Ne.symm he)]

/-- On dual copies, unlinking the successors of `u` takes `u` out of every
predecessor list. -/
theorem Dual.unlink_apply {out into : Links V W} (h : Dual out into) (u v : V) :
    unlink into u (names (out u)) v = (into v).filter (·.2 ≠ u) := by
  rw [Digraph.unlink_apply]
  split
  · rfl
  · rename_i hv
    rw [h.mem_names_iff] at hv
    rw [eq_comm, List.filter_eq_self]
    rintro ⟨w, x⟩ hx
    have hne : x ≠ u := by
      rintro rfl
      exact hv (mem_names_of_mem hx)
    simpa using hne

/-- At most one entry of a list without repetition has a given name. -/
theorem length_filter_le_one {l : List (W × V)} (h : (names l).Nodup) (v : V) :
    (l.filter (·.2 = v)).length ≤ 1 := by
  have hcount := List.nodup_iff_count_le_one.mp h v
  rw [names, List.count_eq_countP, List.countP_map, List.countP_eq_length_filter] at hcount
  exact hcount

/-- **Replacing the successors of a vertex keeps the copies dual.** -/
theorem Dual.replace {out into : Links V W} (h : Dual out into) (u : V) {es : List (W × V)}
    (hnodup : (names es).Nodup) (hself : u ∉ names es) :
    Dual (Function.update out u es) (link (unlink into u (names (out u))) u es) := by
  have happly : ∀ v, link (unlink into u (names (out u))) u es v =
      (into v).filter (·.2 ≠ u) ++ (es.filter (·.2 = v)).map fun e => (e.1, u) := by
    intro v
    rw [link_apply, h.unlink_apply]
  refine ⟨?_, ?_, ?_, ?_⟩
  · intro x v w
    rw [happly]
    by_cases hx : x = u
    · subst hx
      simp
    · simp only [Function.update_of_ne hx, List.mem_append, List.mem_filter, List.mem_map,
        h.mem_iff]
      constructor
      · intro hmem
        exact Or.inl ⟨hmem, by simpa using hx⟩
      · rintro (⟨hmem, -⟩ | ⟨e, -, he⟩)
        · exact hmem
        · exact absurd (congrArg Prod.snd he).symm hx
  · intro x
    by_cases hx : x = u
    · subst hx
      simpa using hnodup
    · simpa [Function.update_of_ne hx] using h.nodup_out x
  · intro v
    rw [happly]
    have hone : (names ((es.filter (·.2 = v)).map fun e => (e.1, u))).Nodup := by
      rw [names, List.map_map]
      have hlen := length_filter_le_one hnodup v
      generalize es.filter (·.2 = v) = l at hlen
      rcases l with _ | ⟨e, _ | ⟨e', l⟩⟩
      · simp
      · simp
      · simp at hlen
    have hsub : ((into v).filter (·.2 ≠ u)).Sublist (into v) := List.filter_sublist
    rw [names, List.map_append]
    refine List.Nodup.append ((h.nodup_into v).sublist (hsub.map _)) hone ?_
    intro x hx₁ hx₂
    obtain ⟨e₁, he₁, rfl⟩ := List.mem_map.mp hx₁
    obtain ⟨e₂, he₂, heq⟩ := List.mem_map.mp hx₂
    obtain ⟨e, -, rfl⟩ := List.mem_map.mp he₂
    have hne := (List.mem_filter.mp he₁).2
    simp [← heq] at hne
  · intro x
    by_cases hx : x = u
    · subst hx
      simpa using hself
    · simpa [Function.update_of_ne hx] using h.irrefl x

end Replace

/-! ## Renaming a vertex -/

section Rename

variable [DecidableEq V]

def rename (a b v : V) : V := if v = a then b else v

/-- Replace the name `a` by `b` in one list. -/
def renameIn (a b : V) (l : List (W × V)) : List (W × V) :=
  l.map fun e => (e.1, rename a b e.2)

/-- Replace the name `a` by `b` in the lists of several vertices. -/
def renameAll (links : Links V W) (a b : V) (vs : List V) : Links V W :=
  vs.foldl (fun links v => Function.update links v (renameIn a b (links v))) links

variable {a b : V}

@[simp] theorem rename_self : rename a b a = b := if_pos rfl

theorem rename_of_ne {v : V} (h : v ≠ a) : rename a b v = v := if_neg h

theorem renameIn_eq_self {l : List (W × V)} (h : a ∉ names l) : renameIn a b l = l := by
  have hmap : l.map (fun e => (e.1, rename a b e.2)) = l.map id := by
    apply List.map_congr_left
    rintro ⟨w, v⟩ he
    have hv : v ≠ a := by
      rintro rfl
      exact h (mem_names_of_mem he)
    simp [rename_of_ne hv]
  rw [renameIn, hmap, List.map_id]

theorem mem_renameIn_of_mem {l : List (W × V)} {w : W} {v : V} (h : (w, v) ∈ l) :
    (w, rename a b v) ∈ renameIn a b l :=
  List.mem_map.mpr ⟨(w, v), h, rfl⟩

theorem not_mem_names_renameIn (hne : a ≠ b) (l : List (W × V)) :
    a ∉ names (renameIn a b l) := by
  intro h
  obtain ⟨w, hw⟩ := mem_names.mp h
  obtain ⟨e, -, he⟩ := List.mem_map.mp hw
  have hv : rename a b e.2 = a := congrArg Prod.snd he
  by_cases hea : e.2 = a
  · rw [hea, rename_self] at hv
    exact hne hv.symm
  · rw [rename_of_ne hea] at hv
    exact hea hv

theorem renameAll_apply (hne : a ≠ b) (vs : List V) (links : Links V W) (v : V) :
    renameAll links a b vs v = if v ∈ vs then renameIn a b (links v) else links v := by
  induction vs generalizing links with
  | nil => simp [renameAll]
  | cons x vs ih =>
      have hstep : renameAll links a b (x :: vs) =
          renameAll (Function.update links x (renameIn a b (links x))) a b vs := rfl
      rw [hstep, ih]
      by_cases hx : v = x
      · subst hx
        simp [renameIn_eq_self (not_mem_names_renameIn hne (links v))]
      · simp [hx]

/-- An edge between other vertices is in the renamed list exactly when it was
in the list. -/
theorem mem_renameIn_of_ne {l : List (W × V)} {w : W} {v : V} (ha : v ≠ a) (hb : v ≠ b) :
    (w, v) ∈ renameIn a b l ↔ (w, v) ∈ l := by
  constructor
  · intro h
    obtain ⟨⟨w', v'⟩, hmem, he⟩ := List.mem_map.mp h
    obtain ⟨rfl, hv⟩ := Prod.mk.inj he
    by_cases hv' : v' = a
    · rw [hv', rename_self] at hv
      exact absurd hv.symm hb
    · rw [rename_of_ne hv'] at hv
      exact hv ▸ hmem
  · intro h
    have hmem := mem_renameIn_of_mem (a := a) (b := b) h
    rwa [rename_of_ne ha] at hmem

/-- A list that names both `a` and `b` names `b` twice after the renaming. -/
theorem not_nodup_renameIn (hne : a ≠ b) {l : List (W × V)} (ha : a ∈ names l)
    (hb : b ∈ names l) : ¬(names (renameIn a b l)).Nodup := by
  intro h
  obtain ⟨w₁, h₁⟩ := mem_names.mp ha
  obtain ⟨w₂, h₂⟩ := mem_names.mp hb
  rw [names, renameIn, List.map_map] at h
  have heq := List.inj_on_of_nodup_map h h₁ h₂ (by simp [rename_of_ne hne.symm])
  exact hne (congrArg Prod.snd heq)

/-- The copies of the graph under a bijection of its vertices. -/
def relabel (σ : V ≃ V) (links : Links V W) : Links V W :=
  fun v => (links (σ.symm v)).map fun e => (e.1, σ e.2)

omit [DecidableEq V] in
theorem mem_relabel {σ : V ≃ V} {links : Links V W} {u v : V} {w : W} :
    (w, v) ∈ relabel σ links u ↔ (w, σ.symm v) ∈ links (σ.symm u) := by
  constructor
  · intro h
    obtain ⟨⟨w', v'⟩, hmem, he⟩ := List.mem_map.mp h
    obtain ⟨rfl, rfl⟩ := Prod.mk.inj he
    simpa using hmem
  · intro h
    exact List.mem_map.mpr ⟨_, h, by simp⟩

omit [DecidableEq V] in
/-- **A bijection of the vertices keeps the copies dual.** -/
theorem Dual.relabel {out into : Links V W} (h : Dual out into) (σ : V ≃ V) :
    Dual (relabel σ out) (relabel σ into) := by
  have hnames : ∀ (links : Links V W) (v : V),
      names (Digraph.relabel σ links v) = (names (links (σ.symm v))).map σ := by
    intro links v
    simp [names, Digraph.relabel]
  refine ⟨?_, ?_, ?_, ?_⟩
  · intro u v w
    rw [mem_relabel, mem_relabel, h.mem_iff]
  · intro u
    rw [hnames]
    exact (h.nodup_out _).map σ.injective
  · intro v
    rw [hnames]
    exact (h.nodup_into _).map σ.injective
  · intro u hu
    rw [hnames] at hu
    obtain ⟨v, hv, rfl⟩ := List.mem_map.mp hu
    rw [σ.symm_apply_apply] at hv
    exact h.irrefl v hv

end Rename

end Subtensor.Lib.Digraph
