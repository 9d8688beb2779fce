import Mathlib.Tactic

/-!
# Sparse matrices

A row stores some of its entries, each with its column; a matrix is a list of
rows. Loops over the stored entries write rows again, or accumulate values in
the columns. An access out of range fails, so that both kinds of loops are
partial; on well-formed matrices they succeed.
-/

namespace Subtensor.Lib

variable {α β : Type}

/-! ## Lists -/

/-- A loop whose steps all succeed. -/
theorem mapM_eq_some_map {f : α → Option β} {g : α → β} {l : List α}
    (h : ∀ a ∈ l, f a = some (g a)) : l.mapM f = some (l.map g) := by
  induction l with
  | nil => rfl
  | cons a l ih =>
      rw [List.mapM_cons, h a List.mem_cons_self, ih fun b hb => h b (List.mem_cons_of_mem a hb)]
      rfl

/-- What a loop wrote whose steps all succeeded. -/
theorem eq_map_of_mapM {f : α → Option β} {l : List α} {l' : List β} (h : l.mapM f = some l')
    (d : β) : l' = l.map fun a => (f a).getD d := by
  induction l generalizing l' with
  | nil =>
      cases h
      rfl
  | cons a l ih =>
      rw [List.mapM_cons] at h
      rcases Option.bind_eq_some_iff.mp h with ⟨b, hb, h⟩
      rcases Option.bind_eq_some_iff.mp h with ⟨rest, hrest, h⟩
      cases h
      rw [List.map_cons, hb, ← ih hrest]
      rfl

theorem mapM_isSome {f : α → Option β} {l : List α} {l' : List β} (h : l.mapM f = some l') :
    ∀ a ∈ l, ∃ b, f a = some b := by
  induction l generalizing l' with
  | nil => exact fun a ha => absurd ha List.not_mem_nil
  | cons a l ih =>
      rw [List.mapM_cons] at h
      rcases Option.bind_eq_some_iff.mp h with ⟨b, hb, h⟩
      rcases Option.bind_eq_some_iff.mp h with ⟨rest, hrest, -⟩
      intro a' ha'
      rcases List.mem_cons.mp ha' with rfl | ha'
      · exact ⟨b, hb⟩
      · exact ih hrest a' ha'

/-- A loop has a result if every step has one. -/
theorem mapM_ok {f : α → Option β} {l : List α} (h : ∀ a ∈ l, ∃ b, f a = some b) :
    ∃ l', l.mapM f = some l' ∧ l'.length = l.length := by
  induction l with
  | nil => exact ⟨[], rfl, rfl⟩
  | cons a l ih =>
      obtain ⟨b, hb⟩ := h a List.mem_cons_self
      obtain ⟨rest, hrest, hlen⟩ := ih fun a' ha' => h a' (List.mem_cons_of_mem a ha')
      refine ⟨b :: rest, ?_, by rw [List.length_cons, List.length_cons, hlen]⟩
      rw [List.mapM_cons, hb, hrest]
      rfl

theorem sum_eq_sum_range [AddCommMonoid α] (xs : List α) :
    xs.sum = ∑ j ∈ Finset.range xs.length, xs.getD j 0 := by
  induction xs with
  | nil => rfl
  | cons x xs ih => simp [Finset.sum_range_succ', ih, add_comm]

/-- The elements at distinct places. -/
theorem sum_getD_le [AddCommMonoid α] [PartialOrder α] [IsOrderedAddMonoid α] {xs : List α}
    (hnonneg : ∀ x ∈ xs, 0 ≤ x) {places : List ℕ} (hnodup : places.Nodup) :
    (places.map fun j => xs.getD j 0).sum ≤ xs.sum := by
  have hplace : ∀ j, 0 ≤ xs.getD j 0 := by
    intro j
    rw [List.getD_eq_getElem?_getD]
    cases hj : xs[j]? with
    | none => exact le_refl 0
    | some x => exact hnonneg x (List.mem_of_getElem? hj)
  rw [← List.sum_toFinset _ hnodup, sum_eq_sum_range]
  calc ∑ j ∈ places.toFinset, xs.getD j 0
      = ∑ j ∈ places.toFinset.filter (· < xs.length), xs.getD j 0 := by
        refine (Finset.sum_filter_of_ne fun j _ hj => ?_).symm
        by_contra hle
        rw [List.getD_eq_getElem?_getD, List.getElem?_eq_none (not_lt.mp hle)] at hj
        exact hj rfl
    _ ≤ ∑ j ∈ Finset.range xs.length, xs.getD j 0 := by
        refine Finset.sum_le_sum_of_subset_of_nonneg (fun j hj => ?_) fun j _ _ => hplace j
        exact Finset.mem_range.mpr (Finset.mem_filter.mp hj).2

/-- `acc[j] = f(acc[j])`. -/
def updateAt (acc : List β) (j : ℕ) (f : β → β) : Option (List β) :=
  if j < acc.length then some (acc.modify j f) else none

theorem updateAt_eq {acc : List β} {j : ℕ} (h : j < acc.length) (f : β → β) :
    updateAt acc j f = some (acc.modify j f) := if_pos h

/-! ## Rows -/

/-- The entries of a row that are stored, with their columns. -/
abbrev SparseRow (α : Type) := List (ℕ × α)

namespace SparseRow

/-- The columns are distinct and below `n`. -/
structure WellFormed (n : ℕ) (row : SparseRow α) : Prop where
  nodup : (row.map Prod.fst).Nodup
  lt : ∀ e ∈ row, e.1 < n

variable {n j : ℕ} {a : α} {row row' : SparseRow α}

theorem WellFormed.of_cons {e : ℕ × α} (h : WellFormed n (e :: row)) :
    WellFormed n row ∧ e.1 < n ∧ row.lookup e.1 = none := by
  obtain ⟨hnotin, hnodup⟩ := List.nodup_cons.mp h.nodup
  refine ⟨⟨hnodup, fun e' he' => h.lt e' (List.mem_cons_of_mem e he')⟩,
    h.lt e List.mem_cons_self, ?_⟩
  rw [List.lookup_eq_none_iff]
  intro e' he'
  rw [bne_iff_ne]
  intro heq
  exact hnotin (List.mem_map.mpr ⟨e', he', heq.symm⟩)

theorem lookup_cons_of_eq (e : ℕ × α) (h : j = e.1) : List.lookup j (e :: row) = some e.2 := by
  subst h
  exact List.lookup_cons_self

theorem lookup_cons_of_ne (e : ℕ × α) (h : j ≠ e.1) :
    List.lookup j (e :: row) = row.lookup j := by
  rw [List.lookup_cons, beq_eq_false_iff_ne.mpr h]

theorem WellFormed.lookup_eq_some (h : WellFormed n row) :
    row.lookup j = some a ↔ (j, a) ∈ row := by
  induction row with
  | nil => simp
  | cons e row ih =>
      obtain ⟨htail, -, hnone⟩ := h.of_cons
      by_cases hj : j = e.1
      · rw [lookup_cons_of_eq e hj, List.mem_cons, ← ih htail]
        subst hj
        rw [hnone]
        simp [Prod.ext_iff, eq_comm]
      · rw [lookup_cons_of_ne e hj, ih htail, List.mem_cons]
        simp [Prod.ext_iff, hj]

/-! ### Writing a row again -/

/-- The entries for which `g` gives a value. -/
def mapEntries (g : ℕ → α → Option β) (row : SparseRow α) : SparseRow β :=
  row.filterMap fun e => (g e.1 e.2).map (Prod.mk e.1)

/-- The loop that pushes them, of which any step may fail. -/
def collect (f : ℕ → α → Option (Option β)) (row : SparseRow α) : Option (SparseRow β) :=
  (row.mapM fun e => (f e.1 e.2).map (Option.map (Prod.mk e.1))).map List.reduceOption

theorem collect_eq {f : ℕ → α → Option (Option β)} {g : ℕ → α → Option β}
    (h : ∀ e ∈ row, f e.1 e.2 = some (g e.1 e.2)) : collect f row = some (mapEntries g row) := by
  unfold collect
  rw [mapM_eq_some_map (g := fun e => (g e.1 e.2).map (Prod.mk e.1))]
  · unfold List.reduceOption mapEntries
    rw [Option.map_some, List.filterMap_map]
    rfl
  · intro e he
    rw [h e he]
    rfl

theorem eq_of_collect {f : ℕ → α → Option (Option β)} {row' : SparseRow β}
    (h : collect f row = some row') : row' = mapEntries (fun j a => (f j a).getD none) row := by
  rcases Option.map_eq_some_iff.mp h with ⟨entries, hentries, rfl⟩
  rw [eq_map_of_mapM hentries none]
  unfold List.reduceOption mapEntries
  rw [List.filterMap_map]
  refine List.filterMap_congr fun e _ => ?_
  cases hf : f e.1 e.2 <;> simp [hf]

variable {g : ℕ → α → Option β}

theorem mem_mapEntries {b : β} : (j, b) ∈ mapEntries g row ↔ ∃ a, (j, a) ∈ row ∧ g j a = some b := by
  unfold mapEntries
  rw [List.mem_filterMap]
  constructor
  · rintro ⟨⟨k, a⟩, hmem, heq⟩
    obtain ⟨b', hb', heq⟩ := Option.map_eq_some_iff.mp heq
    cases heq
    exact ⟨a, hmem, hb'⟩
  · rintro ⟨a, hmem, hb⟩
    exact ⟨(j, a), hmem, by rw [hb]; rfl⟩

theorem mapEntries_columns (g : ℕ → α → Option β) (row : SparseRow α) :
    ((mapEntries g row).map Prod.fst).Sublist (row.map Prod.fst) := by
  induction row with
  | nil => exact List.Sublist.slnil
  | cons e row ih =>
      unfold mapEntries at ih ⊢
      rw [List.filterMap_cons, List.map_cons]
      cases g e.1 e.2 with
      | none => exact ih.cons e.1
      | some b => exact ih.cons_cons e.1

theorem WellFormed.mapEntries (h : WellFormed n row) (g : ℕ → α → Option β) :
    WellFormed n (mapEntries g row) := by
  refine ⟨h.nodup.sublist (mapEntries_columns g row), ?_⟩
  rintro ⟨j, b⟩ hmem
  obtain ⟨a, hmem, -⟩ := mem_mapEntries.mp hmem
  exact h.lt _ hmem

theorem WellFormed.lookup_mapEntries (h : WellFormed n row) (g : ℕ → α → Option β) (j : ℕ) :
    (SparseRow.mapEntries g row).lookup j = (row.lookup j).bind (g j) := by
  apply Option.ext
  intro b
  rw [(h.mapEntries g).lookup_eq_some, mem_mapEntries, Option.bind_eq_some_iff]
  simp only [h.lookup_eq_some]

/-! ### Accumulating in the columns -/

/-- The loop that adds the entries of a row to the columns. -/
def scatter (f : α → Option (β → β)) (acc : List β) (row : SparseRow α) : Option (List β) :=
  row.foldlM (fun acc e => (f e.2).bind (updateAt acc e.1)) acc

/-- The columns with an entry are updated. -/
def scattered (g : α → β → β) (acc : List β) (row : SparseRow α) : List β :=
  acc.mapIdx fun j b => (row.lookup j).elim b (g · b)

theorem length_scattered (g : α → β → β) (acc : List β) (row : SparseRow α) :
    (scattered g acc row).length = acc.length := List.length_mapIdx

theorem getElem?_scattered (g : α → β → β) (acc : List β) (row : SparseRow α) (j : ℕ) :
    (scattered g acc row)[j]? = (acc[j]?).map fun b => (row.lookup j).elim b (g · b) :=
  List.getElem?_mapIdx

theorem scatter_eq {f : α → Option (β → β)} {g : α → β → β} {acc : List β}
    (hwf : WellFormed acc.length row) (hf : ∀ e ∈ row, f e.2 = some (g e.2)) :
    scatter f acc row = some (scattered g acc row) := by
  induction row generalizing acc with
  | nil =>
      have hsame : scattered g acc [] = acc := by
        apply List.ext_getElem?
        intro j
        rw [getElem?_scattered]
        cases acc[j]? <;> rfl
      rw [hsame]
      rfl
  | cons e row ih =>
      obtain ⟨htail, hlt, hnone⟩ := hwf.of_cons
      have hlen : (acc.modify e.1 (g e.2)).length = acc.length := List.length_modify _ _ _
      unfold scatter at ih ⊢
      rw [List.foldlM_cons, hf e List.mem_cons_self, Option.bind_some, updateAt_eq hlt]
      refine (ih (hlen ▸ htail) fun e' he' => hf e' (List.mem_cons_of_mem e he')).trans ?_
      congr 1
      apply List.ext_getElem?
      intro j
      rw [getElem?_scattered, getElem?_scattered, List.getElem?_modify]
      by_cases hj : j = e.1
      · rw [lookup_cons_of_eq e hj]
        subst hj
        rw [hnone]
        cases acc[e.1]? <;> simp
      · rw [lookup_cons_of_ne e hj]
        cases acc[j]? <;> simp [Ne.symm hj]

/-! ### Dense rows -/

/-- The row with a zero for every entry that is not stored. -/
def toDense [Zero α] (n : ℕ) (row : SparseRow α) : List α :=
  (List.range n).map fun j => (row.lookup j).getD 0

section

variable [Zero α]

@[simp] theorem length_toDense (row : SparseRow α) : (toDense n row).length = n := by
  simp [toDense]

theorem getElem?_toDense (row : SparseRow α) (h : j < n) :
    (toDense n row)[j]? = some ((row.lookup j).getD 0) := by
  simp [toDense, h]

end

end SparseRow

/-! ## Matrices -/

abbrev SparseMatrix (α : Type) := List (SparseRow α)

namespace SparseMatrix

def WellFormed (n : ℕ) (M : SparseMatrix α) : Prop := ∀ row ∈ M, SparseRow.WellFormed n row

variable {n : ℕ} {M M' : SparseMatrix α}

theorem WellFormed.of_cons {row : SparseRow α} (h : WellFormed n (row :: M)) :
    SparseRow.WellFormed n row ∧ WellFormed n M :=
  ⟨h row List.mem_cons_self, fun row' h' => h row' (List.mem_cons_of_mem row h')⟩

/-! ### Writing a matrix again -/

/-- The entries for which `g` gives a value. -/
def mapEntries (g : ℕ → ℕ → α → Option β) (M : SparseMatrix α) : SparseMatrix β :=
  M.mapIdx fun i => SparseRow.mapEntries (g i)

/-- The loop over the entries that pushes them, row by row. -/
def collect (f : ℕ → ℕ → α → Option (Option β)) (M : SparseMatrix α) : Option (SparseMatrix β) :=
  M.zipIdx.mapM fun p => SparseRow.collect (f p.2) p.1

theorem collect_eq {f : ℕ → ℕ → α → Option (Option β)} {g : ℕ → ℕ → α → Option β}
    (h : ∀ i < M.length, ∀ row ∈ M, ∀ e ∈ row, f i e.1 e.2 = some (g i e.1 e.2)) :
    collect f M = some (mapEntries g M) := by
  unfold collect mapEntries
  rw [mapM_eq_some_map (g := fun p => SparseRow.mapEntries (g p.2) p.1),
    List.mapIdx_eq_zipIdx_map]
  rintro ⟨row, i⟩ hmem
  have hi := List.snd_lt_of_mem_zipIdx hmem
  exact SparseRow.collect_eq fun e he => h i (by omega) row (List.fst_mem_of_mem_zipIdx hmem) e he

theorem eq_of_collect {f : ℕ → ℕ → α → Option (Option β)} {M' : SparseMatrix β}
    (h : collect f M = some M') : M' = mapEntries (fun i j a => (f i j a).getD none) M := by
  have hrow : ∀ p ∈ M.zipIdx, SparseRow.collect (f p.2) p.1 =
      some (SparseRow.mapEntries (fun j a => (f p.2 j a).getD none) p.1) := by
    intro p hp
    rcases mapM_isSome h p hp with ⟨row', hrow'⟩
    rw [hrow', SparseRow.eq_of_collect hrow']
  unfold collect at h
  rw [mapM_eq_some_map hrow, Option.some.injEq] at h
  rw [← h]
  unfold mapEntries
  rw [List.mapIdx_eq_zipIdx_map]

@[simp] theorem length_mapEntries (g : ℕ → ℕ → α → Option β) (M : SparseMatrix α) :
    (mapEntries g M).length = M.length := List.length_mapIdx

theorem getElem?_mapEntries (g : ℕ → ℕ → α → Option β) (M : SparseMatrix α) (i : ℕ) :
    (mapEntries g M)[i]? = (M[i]?).map (SparseRow.mapEntries (g i)) := List.getElem?_mapIdx

theorem mem_mapEntries {g : ℕ → ℕ → α → Option β} {row' : SparseRow β}
    (h : row' ∈ mapEntries g M) : ∃ i, ∃ row ∈ M, row' = SparseRow.mapEntries (g i) row := by
  obtain ⟨i, hi, rfl⟩ := List.mem_mapIdx.mp h
  exact ⟨i, M[i], List.getElem_mem hi, rfl⟩

theorem WellFormed.mapEntries (h : WellFormed n M) (g : ℕ → ℕ → α → Option β) :
    WellFormed n (mapEntries g M) := by
  intro row' hmem
  obtain ⟨i, row, hrow, rfl⟩ := mem_mapEntries hmem
  exact (h row hrow).mapEntries (g i)

/-! ### Accumulating in the columns -/

/-- The loop over the entries that adds them to the columns, row by row. -/
def scatter (f : ℕ → α → Option (β → β)) (M : SparseMatrix α) (acc : List β) : Option (List β) :=
  M.zipIdx.foldlM (fun acc p => SparseRow.scatter (f p.2) acc p.1) acc

def scatteredFrom (g : ℕ → α → β → β) (k : ℕ) (M : SparseMatrix α) (acc : List β) : List β :=
  (M.zipIdx k).foldl (fun acc p => SparseRow.scattered (g p.2) acc p.1) acc

/-- What it adds up to. -/
def scattered (g : ℕ → α → β → β) (M : SparseMatrix α) (acc : List β) : List β :=
  scatteredFrom g 0 M acc

theorem scatteredFrom_cons (g : ℕ → α → β → β) (k : ℕ) (row : SparseRow α) (acc : List β) :
    scatteredFrom g k (row :: M) acc =
      scatteredFrom g (k + 1) M (SparseRow.scattered (g k) acc row) := rfl

theorem length_scatteredFrom (g : ℕ → α → β → β) (k : ℕ) (M : SparseMatrix α) (acc : List β) :
    (scatteredFrom g k M acc).length = acc.length := by
  induction M generalizing k acc with
  | nil => rfl
  | cons row M ih => rw [scatteredFrom_cons, ih, SparseRow.length_scattered]

@[simp] theorem length_scattered (g : ℕ → α → β → β) (M : SparseMatrix α) (acc : List β) :
    (scattered g M acc).length = acc.length := length_scatteredFrom g 0 M acc

theorem scatter_eq {f : ℕ → α → Option (β → β)} {g : ℕ → α → β → β} {acc : List β}
    (hwf : WellFormed acc.length M) (hf : ∀ i < M.length, ∀ a, f i a = some (g i a)) :
    scatter f M acc = some (scattered g M acc) := by
  have hfrom : ∀ (M : SparseMatrix α) (k : ℕ) (acc : List β), WellFormed acc.length M →
      (∀ i < k + M.length, ∀ a, f i a = some (g i a)) →
        (M.zipIdx k).foldlM (fun acc p => SparseRow.scatter (f p.2) acc p.1) acc =
          some (scatteredFrom g k M acc) := by
    intro M
    induction M with
    | nil => exact fun _ _ _ _ => rfl
    | cons row M ih =>
        intro k acc hwf hf
        obtain ⟨hrow, htail⟩ := hwf.of_cons
        have hk : k < k + (row :: M).length := by rw [List.length_cons]; omega
        rw [List.zipIdx_cons, List.foldlM_cons, SparseRow.scatter_eq hrow fun e _ => hf k hk e.2,
          scatteredFrom_cons]
        refine ih (k + 1) _ ?_ fun i hi => hf i (by rw [List.length_cons]; omega)
        rwa [SparseRow.length_scattered]
  exact hfrom M 0 acc hwf fun i hi => hf i (by omega)

/-! ### Dense matrices -/

variable [Zero α]

def toDense (n : ℕ) (M : SparseMatrix α) : List (List α) := M.map (SparseRow.toDense n)

@[simp] theorem length_toDense (n : ℕ) (M : SparseMatrix α) : (toDense n M).length = M.length :=
  List.length_map _

theorem length_of_mem_toDense {row : List α} (h : row ∈ toDense n M) : row.length = n := by
  obtain ⟨row, -, rfl⟩ := List.mem_map.mp h
  exact SparseRow.length_toDense row

end SparseMatrix

end Subtensor.Lib
