import Subtensor.Consensus.Mass

/-!
# The mass of sparse rows

How much mass the loops over sparse matrices move into columns and rows. No
shape of the matrices is assumed: a loop that succeeds is enough.
-/

namespace Subtensor

open Lib

variable {i f : ℕ} {row row' : SparseRow I32F32} {M M' : SparseMatrix I32F32}
  {vector : List I32F32}

/-! ## Rows -/

/-- The entries are in distinct columns and not negative. -/
structure NonnegRow (row : SparseRow I32F32) : Prop where
  nodup : (row.map Prod.fst).Nodup
  nonneg : Nonneg (row.map Prod.snd)

def NonnegRows (M : SparseMatrix I32F32) : Prop := ∀ row ∈ M, NonnegRow row

/-- The entries of every row have at most one unit of mass. -/
def SharesRows (M : SparseMatrix I32F32) : Prop := ∀ row ∈ M, Shares (row.map Prod.snd)

/-- Every entry is at most one. -/
def UnitRows (M : SparseMatrix I32F32) : Prop := ∀ row ∈ M, ∀ e ∈ row, e.2.bits ≤ 2 ^ 32

theorem NonnegRow.le (h : NonnegRow row) {e : ℕ × I32F32} (he : e ∈ row) : 0 ≤ e.2.bits :=
  h.nonneg e.2 (List.mem_map_of_mem he)

theorem NonnegRow.mapEntries (h : NonnegRow row) {g : ℕ → I32F32 → Option I32F32}
    (hg : ∀ j a b, 0 ≤ a.bits → g j a = some b → 0 ≤ b.bits) :
    NonnegRow (SparseRow.mapEntries g row) := by
  refine ⟨h.nodup.sublist (SparseRow.mapEntries_columns g row), fun b hb => ?_⟩
  rcases List.mem_map.mp hb with ⟨⟨j, b⟩, he, rfl⟩
  rcases SparseRow.mem_mapEntries.mp he with ⟨a, ha, hab⟩
  exact hg j a b (h.le ha) hab

/-- Entries that are dropped or replaced, each within a bound. -/
theorem mass_mapEntries_le_sum {g : ℕ → I32F32 → Option I32F32} {bound : ℕ × I32F32 → ℤ}
    (hnonneg : ∀ e ∈ row, 0 ≤ bound e) (hg : ∀ e ∈ row, ∀ b, g e.1 e.2 = some b → b.bits ≤ bound e) :
    mass ((SparseRow.mapEntries g row).map Prod.snd) ≤ (row.map bound).sum := by
  induction row with
  | nil => exact le_refl _
  | cons e row ih =>
      rcases List.forall_mem_cons.mp hnonneg with ⟨he, hrest⟩
      rcases List.forall_mem_cons.mp hg with ⟨hge, hgrest⟩
      have hih := ih hrest hgrest
      unfold SparseRow.mapEntries at hih ⊢
      rw [List.filterMap_cons, List.map_cons, List.sum_cons]
      cases hvalue : g e.1 e.2 with
      | none => exact hih.trans (by omega)
      | some b =>
          simp only [Option.map_some, List.map_cons, mass_cons]
          exact add_le_add (hge b hvalue) hih

theorem mass_mapEntries_le {g : ℕ → I32F32 → Option I32F32} (h : Nonneg (row.map Prod.snd))
    (hg : ∀ j a b, 0 ≤ a.bits → g j a = some b → b.bits ≤ a.bits) :
    mass ((SparseRow.mapEntries g row).map Prod.snd) ≤ mass (row.map Prod.snd) := by
  have hnonneg : ∀ e ∈ row, 0 ≤ e.2.bits := fun e he => h e.2 (List.mem_map_of_mem he)
  have hle := mass_mapEntries_le_sum hnonneg fun e he b => hg e.1 e.2 b (hnonneg e he)
  have hmass : mass (row.map Prod.snd) = (row.map fun e => e.2.bits).sum := by
    unfold mass
    rw [List.map_map]
    rfl
  rw [hmass]
  exact hle

theorem NonnegRows.mapEntries (h : NonnegRows M) {g : ℕ → ℕ → I32F32 → Option I32F32}
    (hg : ∀ k j a b, 0 ≤ a.bits → g k j a = some b → 0 ≤ b.bits) :
    NonnegRows (M.mapEntries g) := by
  intro row' hrow'
  rcases SparseMatrix.mem_mapEntries hrow' with ⟨k, row, hrow, rfl⟩
  exact (h row hrow).mapEntries (hg k)

theorem SharesRows.mapEntries (h : SharesRows M) {g : ℕ → ℕ → I32F32 → Option I32F32}
    (hg : ∀ k j a b, 0 ≤ a.bits → g k j a = some b → 0 ≤ b.bits ∧ b.bits ≤ a.bits) :
    SharesRows (M.mapEntries g) := by
  intro row' hrow'
  rcases SparseMatrix.mem_mapEntries hrow' with ⟨k, row, hrow, rfl⟩
  have hrow := h row hrow
  refine ⟨fun b hb => ?_, (mass_mapEntries_le hrow.nonneg fun j a b ha hab =>
    (hg k j a b ha hab).2).trans hrow.mass_le⟩
  rcases List.mem_map.mp hb with ⟨⟨j, b⟩, he, rfl⟩
  rcases SparseRow.mem_mapEntries.mp he with ⟨a, ha, hab⟩
  exact (hg k j a b (hrow.nonneg a (List.mem_map_of_mem ha)) hab).1

theorem NonnegRow.sum_entries_le (h : NonnegRow row) (hvector : Nonneg vector) :
    (row.map fun e => ((vector[e.1]?).getD 0).bits).sum ≤ mass vector := by
  have hnonneg : ∀ z ∈ vector.map (·.bits), (0 : ℤ) ≤ z := by
    intro z hz
    rcases List.mem_map.mp hz with ⟨x, hx, rfl⟩
    exact hvector x hx
  have hsum := sum_getD_le hnonneg h.nodup
  rw [List.map_map] at hsum
  refine le_of_eq_of_le ?_ hsum
  congr 1
  refine List.map_congr_left fun e _ => ?_
  rw [Function.comp_apply, List.getD_eq_getElem?_getD, List.getElem?_map]
  cases vector[e.1]? <;> rfl

/-! ## Columns -/

def entry (xs : List (IFixed i f)) (j : ℕ) : ℤ := ((xs[j]?).getD 0).bits

/-- Columns to which at most `cost` was added. -/
structure Grows (acc acc' : List (IFixed i f)) (cost : ℤ) : Prop where
  length : acc'.length = acc.length
  nonneg : Nonneg acc'
  mass_le : mass acc' ≤ mass acc + cost
  entry_le : ∀ j, entry acc j ≤ entry acc' j

section

variable {acc acc' acc'' : List (IFixed i f)} {cost cost' : ℤ}

theorem Grows.refl (h : Nonneg acc) : Grows acc acc 0 :=
  ⟨rfl, h, by rw [add_zero], fun _ => le_refl _⟩

theorem Grows.trans (h : Grows acc acc' cost) (h' : Grows acc' acc'' cost') :
    Grows acc acc'' (cost + cost') := by
  refine ⟨h'.length.trans h.length, h'.nonneg, ?_, fun j => (h.entry_le j).trans (h'.entry_le j)⟩
  have hle := h.mass_le
  have hle' := h'.mass_le
  omega

theorem Grows.of_le (h : Grows acc acc' cost) (hle : cost ≤ cost') : Grows acc acc' cost' :=
  ⟨h.length, h.nonneg, h.mass_le.trans (by omega), h.entry_le⟩

theorem entry_nonneg (h : Nonneg acc) (j : ℕ) : 0 ≤ entry acc j := by
  unfold entry
  cases hj : acc[j]? with
  | none => exact le_refl _
  | some a => exact h a (List.mem_of_getElem? hj)

theorem grows_modify (h : Nonneg acc) {j : ℕ} (hj : j < acc.length) {b : IFixed i f}
    (hb : 0 ≤ b.bits) : Grows acc (acc.modify j (·.satAdd b)) b.bits ∧
      b.bits ≤ entry (acc.modify j (·.satAdd b)) j := by
  induction acc generalizing j with
  | nil => exact absurd hj (Nat.not_lt_zero j)
  | cons a acc ih =>
      rcases nonneg_cons.mp h with ⟨ha, hrest⟩
      cases j with
      | zero =>
          have hadd := le_bits_satAdd ha hb
          rw [List.modify_zero_cons]
          refine ⟨⟨rfl, nonneg_cons.mpr ⟨bits_satAdd_nonneg ha hb, hrest⟩, ?_, fun k => ?_⟩, hadd.2⟩
          · have hle := bits_satAdd_le ha hb
            rw [mass_cons, mass_cons]
            omega
          · cases k with
            | zero => exact hadd.1
            | succ k => exact le_refl _
      | succ j =>
          rcases ih hrest (Nat.lt_of_succ_lt_succ hj) with ⟨hgrows, hentry⟩
          rw [List.modify_succ_cons]
          refine ⟨⟨?_, nonneg_cons.mpr ⟨ha, hgrows.nonneg⟩, ?_, fun k => ?_⟩, hentry⟩
          · rw [List.length_cons, List.length_cons, hgrows.length]
          · have hle := hgrows.mass_le
            rw [mass_cons, mass_cons]
            omega
          · cases k with
            | zero => exact le_refl _
            | succ k => exact hgrows.entry_le k

end

theorem scatter_grows {step : I32F32 → Option (I32F32 → I32F32)} {cost : I32F32 → I32F32}
    {acc acc' : List I32F32} (hstep : ∀ a add, step a = some add → add = (·.satAdd (cost a)))
    (hrow : ∀ e ∈ row, 0 ≤ (cost e.2).bits) (h : Nonneg acc)
    (hscatter : SparseRow.scatter step acc row = some acc') :
    Grows acc acc' (mass ((row.map Prod.snd).map cost)) ∧
      ∀ e ∈ row, (cost e.2).bits ≤ entry acc' e.1 := by
  induction row generalizing acc with
  | nil =>
      cases hscatter
      exact ⟨Grows.refl h, fun e he => absurd he List.not_mem_nil⟩
  | cons e row ih =>
      rcases List.forall_mem_cons.mp hrow with ⟨he, hrest⟩
      unfold SparseRow.scatter at hscatter ih
      rw [List.foldlM_cons] at hscatter
      rcases Option.bind_eq_some_iff.mp hscatter with ⟨acc₁, hfirst, hscatter⟩
      rcases Option.bind_eq_some_iff.mp hfirst with ⟨add, hadd, hupdate⟩
      rw [hstep e.2 add hadd] at hupdate
      unfold updateAt at hupdate
      split_ifs at hupdate with hlt
      cases hupdate
      rcases grows_modify h hlt he with ⟨hgrows, hentry⟩
      rcases ih hrest hgrows.nonneg hscatter with ⟨hgrows', hentries⟩
      refine ⟨hgrows.trans hgrows', fun e' he' => ?_⟩
      rcases List.mem_cons.mp he' with rfl | he'
      · exact hentry.trans (hgrows'.entry_le _)
      · exact hentries e' he'

theorem scatter_entry_le {acc acc' : List I32F32} (hM : NonnegRows M) (h : Nonneg acc)
    (hscatter : M.scatter (fun _ value => some fun acc : I32F32 => acc.satAdd value) acc =
      some acc') :
    Nonneg acc' ∧ ∀ row ∈ M, ∀ e ∈ row, e.2.bits ≤ entry acc' e.1 := by
  suffices hfrom : ∀ (M : SparseMatrix I32F32) (k : ℕ) (acc : List I32F32), NonnegRows M →
      Nonneg acc → (M.zipIdx k).foldlM (fun acc p => SparseRow.scatter
        (fun value => some fun acc : I32F32 => acc.satAdd value) acc p.1) acc = some acc' →
      (∃ cost, Grows acc acc' cost) ∧ ∀ row ∈ M, ∀ e ∈ row, e.2.bits ≤ entry acc' e.1 by
    rcases hfrom M 0 acc hM h hscatter with ⟨⟨_, hgrows⟩, hentries⟩
    exact ⟨hgrows.nonneg, hentries⟩
  intro M
  induction M with
  | nil =>
      intro k acc _ h hfold
      cases hfold
      exact ⟨⟨0, Grows.refl h⟩, fun row hrow => absurd hrow List.not_mem_nil⟩
  | cons row M ih =>
      intro k acc hM h hfold
      rcases List.forall_mem_cons.mp hM with ⟨hrow, hrest⟩
      rw [List.zipIdx_cons, List.foldlM_cons] at hfold
      rcases Option.bind_eq_some_iff.mp hfold with ⟨acc₁, hfirst, hfold⟩
      have hgrown : Grows acc acc₁ (mass ((row.map Prod.snd).map id)) ∧
          ∀ e ∈ row, (id e.2).bits ≤ entry acc₁ e.1 :=
        scatter_grows (fun a add hadd => (Option.some.inj hadd).symm) (fun e he => hrow.le he) h
          hfirst
      rcases hgrown with ⟨hgrows, hentries⟩
      rcases ih (k + 1) acc₁ hrest hgrows.nonneg hfold with ⟨⟨cost, hgrows'⟩, hentries'⟩
      refine ⟨⟨_, hgrows.trans hgrows'⟩, fun row' hrow' => ?_⟩
      rcases List.mem_cons.mp hrow' with rfl | hrow'
      · exact fun e he => (hentries e he).trans (hgrows'.entry_le e.1)
      · exact hentries' row' hrow'

theorem nonneg_replicate (n : ℕ) : Nonneg (List.replicate n (0 : I32F32)) := by
  intro x hx
  rw [List.eq_of_mem_replicate hx]
  exact le_refl _

theorem mass_replicate (n : ℕ) : mass (List.replicate n (0 : I32F32)) = 0 := by
  refine mass_eq_zero fun x hx => ?_
  rw [List.eq_of_mem_replicate hx]
  rfl

theorem NonnegRows.colNormalizeSparse (h : NonnegRows M) {columns : ℕ}
    (hnormalize : colNormalizeSparse M columns = some M') :
    NonnegRows M' ∧ UnitRows M' ∧ M'.length = M.length := by
  unfold Subtensor.colNormalizeSparse at hnormalize
  split at hnormalize
  · cases hnormalize
  · rename_i colSum hscatter
    rcases scatter_entry_le h (nonneg_replicate columns) hscatter with ⟨hnonneg, hentries⟩
    rw [SparseMatrix.eq_of_collect hnormalize]
    have hdivided : ∀ row ∈ M, ∀ j a b, (j, a) ∈ row → ((colSum[j]?).map fun total =>
        some (if total.bits = 0 then a else a.safeDiv total)).getD none = some b →
          0 ≤ b.bits ∧ b.bits ≤ 2 ^ 32 := by
      intro row hrow j a b ha hb
      have hnonneg := (h row hrow).le ha
      have hle := hentries row hrow (j, a) ha
      unfold entry at hle
      cases hj : colSum[j]? with
      | none =>
          rw [hj] at hb
          cases hb
      | some total =>
          rw [hj] at hb hle
          rw [Option.map_some, Option.getD_some, Option.some.injEq] at hb
          rw [Option.getD_some] at hle
          subst hb
          split_ifs with hzero
          · exact ⟨hnonneg, hle.trans (by omega)⟩
          · exact ⟨bits_safeDiv_nonneg hnonneg (hnonneg.trans hle),
              bits_safeDiv_le_one hnonneg hle⟩
    refine ⟨fun row' hrow' => ?_, fun row' hrow' e he => ?_, SparseMatrix.length_mapEntries _ _⟩
    · rcases SparseMatrix.mem_mapEntries hrow' with ⟨k, row, hrow, rfl⟩
      refine ⟨(h row hrow).nodup.sublist (SparseRow.mapEntries_columns _ row), fun b hb => ?_⟩
      rcases List.mem_map.mp hb with ⟨⟨j, b⟩, he, rfl⟩
      rcases SparseRow.mem_mapEntries.mp he with ⟨a, ha, hab⟩
      exact (hdivided row hrow j a b ha hab).1
    · rcases SparseMatrix.mem_mapEntries hrow' with ⟨k, row, hrow, rfl⟩
      rcases SparseRow.mem_mapEntries.mp he with ⟨a, ha, hab⟩
      exact (hdivided row hrow e.1 a e.2 ha hab).2

/-! ## Products -/

/-- The products of a factor with shares are at most the factor. -/
theorem Shares.mass_map_satMul {xs : List I32F32} (h : Shares xs) {v : I32F32} (hv : 0 ≤ v.bits) :
    mass (xs.map v.satMul) ≤ v.bits := by
  have hscaled : mass (xs.map v.satMul) * 2 ^ 32 ≤ mass xs * v.bits := by
    refine mass_map_mul_le fun x hx => ?_
    rw [mul_comm x.bits]
    exact bits_satProduct_mul_le hv (h.nonneg x hx)
  have hbound := mul_le_mul_of_nonneg_right h.mass_le hv
  refine le_of_mul_le_mul_right (hscaled.trans ?_) (by positivity : (0 : ℤ) < 2 ^ 32)
  rw [mul_comm v.bits]
  exact hbound

/-- What a matrix with shares in its rows makes of a vector. -/
theorem SharesRows.matmulSparse (h : SharesRows M) (hvector : Nonneg vector) {columns : ℕ}
    {ys : List I32F32} (hmul : matmulSparse M vector columns = some ys) :
    Nonneg ys ∧ mass ys ≤ mass vector ∧ ys.length = columns := by
  suffices hfrom : ∀ (M : SparseMatrix I32F32) (k : ℕ) (acc : List I32F32), SharesRows M →
      Nonneg acc → (M.zipIdx k).foldlM (fun acc p => SparseRow.scatter
        (fun value => (vector[p.2]?).map fun v acc => acc.satAdd (v.satMul value)) acc p.1) acc =
          some ys → Grows acc ys (mass (vector.drop k)) by
    have hgrows := hfrom M 0 _ h (nonneg_replicate columns) hmul
    refine ⟨hgrows.nonneg, ?_, hgrows.length.trans List.length_replicate⟩
    have hle := hgrows.mass_le
    rw [mass_replicate, zero_add, List.drop_zero] at hle
    exact hle
  intro M
  induction M with
  | nil =>
      intro k acc _ h hfold
      cases hfold
      exact (Grows.refl h).of_le (hvector.sublist (List.drop_sublist k vector)).mass_nonneg
  | cons row M ih =>
      intro k acc hM h hfold
      rcases List.forall_mem_cons.mp hM with ⟨hrow, hrest⟩
      rw [List.zipIdx_cons, List.foldlM_cons] at hfold
      rcases Option.bind_eq_some_iff.mp hfold with ⟨acc₁, hfirst, hfold⟩
      cases hk : vector[k]? with
      | none =>
          -- a row without a factor is empty, or the loop fails
          rw [hk] at hfirst
          have hgrown : Grows acc acc₁ (mass ((row.map Prod.snd).map fun _ => (0 : I32F32))) ∧
              ∀ e ∈ row, (0 : I32F32).bits ≤ entry acc₁ e.1 := by
            refine scatter_grows (fun a add hadd => ?_) (fun e he => le_refl _) h hfirst
            cases hadd
          have hzero : mass ((row.map Prod.snd).map fun _ => (0 : I32F32)) = 0 := by
            refine mass_eq_zero fun x hx => ?_
            rcases List.mem_map.mp hx with ⟨-, -, rfl⟩
            rfl
          have hlen := List.getElem?_eq_none_iff.mp hk
          have hgrows := hgrown.1.trans (ih (k + 1) acc₁ hrest hgrown.1.nonneg hfold)
          rw [hzero, List.drop_eq_nil_of_le (by omega : vector.length ≤ k + 1)] at hgrows
          rw [List.drop_eq_nil_of_le hlen]
          exact hgrows
      | some v =>
          have hv := hvector v (List.mem_of_getElem? hk)
          rw [hk] at hfirst
          have hgrown : Grows acc acc₁ (mass ((row.map Prod.snd).map v.satMul)) ∧
              ∀ e ∈ row, (v.satMul e.2).bits ≤ entry acc₁ e.1 :=
            scatter_grows (fun a add hadd => (Option.some.inj hadd).symm)
              (fun e he => bits_satProduct_nonneg hv (hrow.nonneg e.2 (List.mem_map_of_mem he))) h
              hfirst
          have hdrop : vector.drop k = v :: vector.drop (k + 1) := by
            rcases List.getElem?_eq_some_iff.mp hk with ⟨hlt, rfl⟩
            exact List.drop_eq_getElem_cons hlt
          rw [hdrop, mass_cons]
          exact (hgrown.1.of_le (hrow.mass_map_satMul hv)).trans
            (ih (k + 1) acc₁ hrest hgrown.1.nonneg hfold)

/-- The columns of a row, each at most once, weighted by the entries. -/
theorem NonnegRow.mass_map_satMul (h : NonnegRow row) (hunit : ∀ e ∈ row, e.2.bits ≤ 2 ^ 32)
    (hvector : Nonneg vector) :
    mass (row.map fun e => ((vector[e.1]?).getD 0).satMul e.2) ≤ mass vector := by
  refine le_trans ?_ (h.sum_entries_le hvector)
  unfold mass
  rw [List.map_map]
  refine List.sum_le_sum fun e he => ?_
  exact bits_satProduct_le (entry_nonneg hvector e.1) (h.le he) (hunit e he)

theorem foldlM_satMul_le (hvector : Nonneg vector) {acc out : I32F32}
    (hrow : ∀ e ∈ row, 0 ≤ e.2.bits) (hacc : 0 ≤ acc.bits)
    (hfold : row.foldlM (fun acc e => (vector[e.1]?).map fun v => acc.satAdd (v.satMul e.2)) acc =
      some out) :
    0 ≤ out.bits ∧
      out.bits ≤ acc.bits + mass (row.map fun e => ((vector[e.1]?).getD 0).satMul e.2) := by
  induction row generalizing acc with
  | nil =>
      cases hfold
      exact ⟨hacc, by simp⟩
  | cons e row ih =>
      rcases List.forall_mem_cons.mp hrow with ⟨he, hrest⟩
      rw [List.foldlM_cons] at hfold
      rcases Option.bind_eq_some_iff.mp hfold with ⟨acc₁, hfirst, hfold⟩
      rcases Option.map_eq_some_iff.mp hfirst with ⟨v, hv, rfl⟩
      have hproduct := bits_satProduct_nonneg (hvector v (List.mem_of_getElem? hv)) he
      rcases ih hrest (bits_satAdd_nonneg hacc hproduct) hfold with ⟨hnonneg, hle⟩
      refine ⟨hnonneg, hle.trans ?_⟩
      have hadd := bits_satAdd_le hacc hproduct
      rw [List.map_cons, mass_cons, hv, Option.getD_some]
      omega

/-- The dividends that bonds pay: at most the mass of the incentive to each row. -/
theorem matmulTransposeSparse_le (h : NonnegRows M) (hunit : UnitRows M) (hvector : Nonneg vector)
    {ys : List I32F32} (hmul : matmulTransposeSparse M vector = some ys) :
    (∀ y ∈ ys, 0 ≤ y.bits ∧ y.bits ≤ mass vector) ∧ ys.length = M.length := by
  unfold matmulTransposeSparse at hmul
  rw [eq_map_of_mapM hmul 0]
  refine ⟨fun y hy => ?_, List.length_map _⟩
  rcases List.mem_map.mp hy with ⟨row, hrow, rfl⟩
  rcases mapM_isSome hmul row hrow with ⟨out, hout⟩
  rw [hout, Option.getD_some]
  rcases foldlM_satMul_le hvector (fun e he => (h row hrow).le he) (le_refl _) hout with
    ⟨hnonneg, hle⟩
  rw [IFixed.bits_zero, zero_add] at hle
  exact ⟨hnonneg, hle.trans ((h row hrow).mass_map_satMul (hunit row hrow) hvector)⟩

theorem rowSumSparse_matVecMulSparse_le (h : NonnegRows M) (hunit : UnitRows M)
    (hvector : Shares vector) :
    ∀ y ∈ rowSumSparse (matVecMulSparse M vector), 0 ≤ y.bits ∧ y.bits ≤ 2 ^ 32 := by
  intro y hy
  rcases List.mem_map.mp hy with ⟨row', hrow', rfl⟩
  unfold matVecMulSparse at hrow'
  rcases SparseMatrix.mem_mapEntries hrow' with ⟨-, row, hrow, rfl⟩
  have hproduct : ∀ e ∈ row, ∀ b, ((vector[e.1]?).bind fun v =>
      if (e.2.satMul v).bits ≠ 0 then some (e.2.satMul v) else none) = some b →
        0 ≤ b.bits ∧ b.bits ≤ entry vector e.1 := by
    intro e he b hb
    rcases Option.bind_eq_some_iff.mp hb with ⟨v, hv, hb⟩
    split_ifs at hb
    cases hb
    have hnonneg := hvector.nonneg v (List.mem_of_getElem? hv)
    refine ⟨bits_satProduct_nonneg ((h row hrow).le he) hnonneg, ?_⟩
    unfold entry
    rw [hv, Option.getD_some, satMul_comm]
    exact bits_satProduct_le hnonneg ((h row hrow).le he) (hunit row hrow e he)
  have hnonneg : Nonneg ((SparseRow.mapEntries (fun j value => (vector[j]?).bind fun v =>
      if (value.satMul v).bits ≠ 0 then some (value.satMul v) else none) row).map Prod.snd) := by
    intro b hb
    rcases List.mem_map.mp hb with ⟨⟨j, b⟩, he, rfl⟩
    rcases SparseRow.mem_mapEntries.mp he with ⟨a, ha, hab⟩
    exact (hproduct (j, a) ha b hab).1
  have hmass : mass ((SparseRow.mapEntries (fun j value => (vector[j]?).bind fun v =>
      if (value.satMul v).bits ≠ 0 then some (value.satMul v) else none) row).map Prod.snd) ≤
        2 ^ 32 := by
    refine (mass_mapEntries_le_sum (fun e _ => entry_nonneg hvector.nonneg e.1)
      fun e he b hb => ?_).trans
        (((h row hrow).sum_entries_le hvector.nonneg).trans hvector.mass_le)
    exact (hproduct e he b hb).2
  rw [hnonneg.bits_sumFixed (hmass.trans_lt (by norm_num))]
  exact ⟨hnonneg.mass_nonneg, hmass⟩

theorem Shares.vecMul {xs : List I32F32} (hvector : Shares vector)
    (h : ∀ x ∈ xs, 0 ≤ x.bits ∧ x.bits ≤ 2 ^ 32) : Shares (vecMul xs vector) := by
  suffices hproducts : Nonneg (Subtensor.vecMul xs vector) ∧
      mass (Subtensor.vecMul xs vector) ≤ mass vector from
    ⟨hproducts.1, hproducts.2.trans hvector.mass_le⟩
  have hnonneg := hvector.nonneg
  clear hvector
  unfold Subtensor.vecMul
  induction xs generalizing vector with
  | nil => exact ⟨fun _ hx => absurd hx List.not_mem_nil, hnonneg.mass_nonneg⟩
  | cons x xs ih =>
      cases vector with
      | nil => exact ⟨fun _ hx => absurd hx List.not_mem_nil, le_refl _⟩
      | cons v vector =>
          rcases List.forall_mem_cons.mp h with ⟨⟨hx, hone⟩, hrest⟩
          rcases nonneg_cons.mp hnonneg with ⟨hv, hvs⟩
          rcases ih hrest hvs with ⟨ih, ihmass⟩
          have hproduct : 0 ≤ x.bits * v.bits / 2 ^ 32 ∧ x.bits * v.bits / 2 ^ 32 ≤ v.bits := by
            refine ⟨Int.ediv_nonneg (mul_nonneg hx hv) (by norm_num), ?_⟩
            refine Int.ediv_le_of_le_mul (by norm_num) ?_
            rw [mul_comm v.bits]
            exact mul_le_mul_of_nonneg_right hone hv
          have hbits : 0 ≤ (x.mulOrZero v).bits ∧ (x.mulOrZero v).bits ≤ v.bits := by
            unfold IFixed.mulOrZero
            split_ifs
            · exact hproduct
            · exact ⟨le_refl _, hv⟩
          rw [List.zipWith_cons_cons, nonneg_cons, mass_cons, mass_cons]
          exact ⟨⟨hbits.1, ih⟩, add_le_add hbits.2 ihmass⟩

end Subtensor
