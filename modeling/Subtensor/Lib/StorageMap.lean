import Mathlib.Tactic
import Mathlib.Data.List.AList

/-!
# Finite storage maps

A storage map that is iterated over is an association list without
duplicate keys (`AList`); its iteration order is the order of the list. This
file adds what proofs about totals over a map need: `sumBy`, the total of a
function over all entries, and how it moves under `insert` and `erase`.
-/

namespace Subtensor.Lib

/-- A finite map that can be iterated over. -/
abbrev StorageMap (K V : Type) := AList (fun _ : K => V)

namespace StorageMap

variable {K V M : Type}

/-- The total of `f` over all entries. -/
def sumBy [AddCommMonoid M] (f : K → V → M) (m : StorageMap K V) : M :=
  (m.entries.map fun e => f e.1 e.2).sum

/-- Replace every value; the keys and their order stay. -/
def mapValues {V' : Type} (f : K → V → V') (m : StorageMap K V) : StorageMap K V' where
  entries := m.entries.map fun e => ⟨e.1, f e.1 e.2⟩
  nodupKeys := by
    have h : (m.entries.map fun e : Sigma fun _ : K => V =>
        (⟨e.1, f e.1 e.2⟩ : Sigma fun _ : K => V')).keys = m.entries.keys := by
      simp [List.keys, Function.comp_def]
    rw [List.NodupKeys, h]
    exact m.nodupKeys

/-- Replace the values for which there is a new one, and drop the others. -/
def filterMapValues {V' : Type} (f : K → V → Option V') (m : StorageMap K V) : StorageMap K V' where
  entries := m.entries.filterMap fun e => (f e.1 e.2).map fun v' => ⟨e.1, v'⟩
  nodupKeys := by
    have hkeys : ∀ l : List (Sigma fun _ : K => V),
        (l.filterMap fun e => (f e.1 e.2).map fun v' =>
          (⟨e.1, v'⟩ : Sigma fun _ : K => V')).keys.Sublist l.keys := by
      intro l
      induction l with
      | nil => exact List.Sublist.slnil
      | cons e es ih =>
          cases h : f e.1 e.2 with
          | none => simpa [h, List.keys] using ih.cons e.1
          | some v' => simpa [h, List.keys] using ih.cons_cons e.1
    exact List.Nodup.sublist (hkeys m.entries) m.nodupKeys

@[simp] theorem sumBy_empty [AddCommMonoid M] (f : K → V → M) :
    sumBy f (∅ : StorageMap K V) = 0 := rfl

theorem sumBy_one (m : StorageMap K V) : sumBy (fun _ _ => 1) m = m.keys.length := by
  simp [sumBy, AList.keys, List.keys]

/-- How many entries have a key with a property. -/
theorem sumBy_ite (p : K → Prop) [DecidablePred p] (m : StorageMap K V) :
    sumBy (fun k _ => if p k then 1 else 0) m = (m.entries.filter fun e => p e.1).length := by
  unfold sumBy
  induction m.entries with
  | nil => rfl
  | cons e es ih =>
      by_cases h : p e.1
      · simp [h, ih, add_comm]
      · simp [h, ih]

theorem sumBy_add [AddCommMonoid M] (f g : K → V → M) (m : StorageMap K V) :
    sumBy (fun k v => f k v + g k v) m = sumBy f m + sumBy g m :=
  List.sum_map_add

theorem sumBy_mapValues {V' : Type} [AddCommMonoid M] (f : K → V → V') (g : K → V' → M)
    (m : StorageMap K V) : sumBy g (m.mapValues f) = sumBy (fun k v => g k (f k v)) m := by
  simp only [sumBy, mapValues, List.map_map]
  rfl

section

variable [DecidableEq K]

theorem mem_entries_iff {m : StorageMap K V} {k : K} {v : V} :
    (⟨k, v⟩ : Sigma fun _ : K => V) ∈ m.entries ↔ m.lookup k = some v :=
  AList.mem_lookup_iff.symm

theorem lookup_foldl_erase (keys : List K) (m : StorageMap K V) (k : K) :
    (keys.foldl (fun m key => m.erase key) m).lookup k =
      if k ∈ keys then none else m.lookup k := by
  induction keys generalizing m with
  | nil => simp
  | cons key keys ih =>
      rw [List.foldl_cons, ih]
      by_cases hkey : k = key
      · subst hkey
        simp
      · simp [hkey]

theorem lookup_mapValues {V' : Type} (f : K → V → V') (m : StorageMap K V) (k : K) :
    (m.mapValues f).lookup k = (m.lookup k).map (f k) := by
  have hiff : ∀ v', (m.mapValues f).lookup k = some v' ↔ ((m.lookup k).map (f k)) = some v' := by
    intro v'
    rw [← mem_entries_iff, Option.map_eq_some_iff]
    constructor
    · intro h
      obtain ⟨⟨k', v⟩, hmem, heq⟩ := List.mem_map.mp h
      cases heq
      exact ⟨v, mem_entries_iff.mp hmem, rfl⟩
    · rintro ⟨v, hv, rfl⟩
      exact List.mem_map.mpr ⟨⟨k, v⟩, mem_entries_iff.mpr hv, rfl⟩
  exact Option.ext hiff

theorem lookup_filterMapValues {V' : Type} (f : K → V → Option V') (m : StorageMap K V) (k : K) :
    (m.filterMapValues f).lookup k = (m.lookup k).bind (f k) := by
  have hiff : ∀ v', (m.filterMapValues f).lookup k = some v' ↔
      ((m.lookup k).bind (f k)) = some v' := by
    intro v'
    rw [← mem_entries_iff, Option.bind_eq_some_iff]
    constructor
    · intro h
      obtain ⟨⟨k', v⟩, hmem, heq⟩ := List.mem_filterMap.mp h
      obtain ⟨w, hw, heq⟩ := Option.map_eq_some_iff.mp heq
      cases heq
      exact ⟨v, mem_entries_iff.mp hmem, hw⟩
    · rintro ⟨v, hv, hv'⟩
      exact List.mem_filterMap.mpr ⟨⟨k, v⟩, mem_entries_iff.mpr hv, by simp [hv']⟩
  exact Option.ext hiff

/-- When every stored key has a new value, nothing is dropped. -/
theorem filterMapValues_eq_mapValues {V' : Type} {f : K → V → Option V'} {g : K → V → V'}
    {m : StorageMap K V} (h : ∀ k v, m.lookup k = some v → f k v = some (g k v)) :
    m.filterMapValues f = m.mapValues g := by
  apply AList.ext
  show m.entries.filterMap _ = m.entries.map _
  rw [← List.filterMap_eq_map]
  apply List.filterMap_congr
  intro e he
  rw [h e.1 e.2 (mem_entries_iff.mp he)]
  rfl

/-- Erasing a stored key takes exactly its entry out of the list. -/
theorem entries_perm_erase {m : StorageMap K V} {k : K} {v : V}
    (h : m.lookup k = some v) :
    m.entries.Perm (⟨k, v⟩ :: (m.erase k).entries) := by
  have hk : k ∈ m.entries.keys := AList.lookup_isSome.mp (by rw [h]; rfl)
  obtain ⟨b, l₁, l₂, hnot, heq, herase⟩ := List.exists_of_kerase hk
  have hb : b = v := by
    have hmem : (⟨k, b⟩ : Sigma fun _ : K => V) ∈ m.entries := by
      rw [heq]
      simp
    exact Option.some.inj ((mem_entries_iff.mp hmem).symm.trans h)
  subst hb
  have he : (m.erase k).entries = l₁ ++ l₂ := herase
  rw [he, heq]
  exact List.perm_middle

theorem erase_of_lookup_none {m : StorageMap K V} {k : K}
    (h : m.lookup k = none) : m.erase k = m := by
  apply AList.ext
  exact List.kerase_of_notMem_keys (AList.lookup_eq_none.mp h)

/-- A new entry that is erased again leaves no trace. -/
theorem erase_insert_new {m : StorageMap K V} {k : K} (v : V) (h : m.lookup k = none) :
    (m.insert k v).erase k = m := by
  refine Eq.trans ?_ (erase_of_lookup_none h)
  apply AList.ext
  show List.kerase k (m.insert k v).entries = List.kerase k m.entries
  rw [AList.entries_insert]
  exact List.kerase_cons_eq rfl

variable [AddCommMonoid M]

theorem sumBy_erase (f : K → V → M) {m : StorageMap K V} {k : K} {v : V}
    (h : m.lookup k = some v) :
    sumBy f m = f k v + sumBy f (m.erase k) := by
  unfold sumBy
  rw [((entries_perm_erase h).map _).sum_eq]
  simp

theorem sumBy_insert (f : K → V → M) (m : StorageMap K V) (k : K) (v : V) :
    sumBy f (m.insert k v) = f k v + sumBy f (m.erase k) := by
  rw [sumBy, AList.entries_insert, List.map_cons, List.sum_cons]
  rfl

theorem sumBy_insert_new (f : K → V → M) {m : StorageMap K V} {k : K} (v : V)
    (h : m.lookup k = none) :
    sumBy f (m.insert k v) = f k v + sumBy f m := by
  rw [sumBy_insert, erase_of_lookup_none h]

/-- The total after an erasure, when an absent key counts like the value `d`. -/
theorem sumBy_erase_add (f : K → V → M) (m : StorageMap K V) (k : K) {d : V} (hd : f k d = 0) :
    sumBy f (m.erase k) + f k ((m.lookup k).getD d) = sumBy f m := by
  cases h : m.lookup k with
  | none => rw [erase_of_lookup_none h, Option.getD_none, hd, add_zero]
  | some v => rw [sumBy_erase f h, Option.getD_some, add_comm]

/-- The total after an insertion, when an absent key counts like the value `d`. -/
theorem sumBy_insert_add (f : K → V → M) (m : StorageMap K V) (k : K) (v : V) {d : V}
    (hd : f k d = 0) :
    sumBy f (m.insert k v) + f k ((m.lookup k).getD d) = f k v + sumBy f m := by
  rw [sumBy_insert, add_assoc, sumBy_erase_add f m k hd]

/-- The total after an erasure, when an absent key counts for nothing. -/
theorem sumBy_erase_elim (f : K → V → M) (m : StorageMap K V) (k : K) :
    sumBy f (m.erase k) + (m.lookup k).elim 0 (f k) = sumBy f m := by
  cases h : m.lookup k with
  | none => rw [erase_of_lookup_none h, Option.elim_none, add_zero]
  | some v => rw [sumBy_erase f h, Option.elim_some, add_comm]

/-- The total after an insertion, when an absent key counts for nothing. -/
theorem sumBy_insert_elim (f : K → V → M) (m : StorageMap K V) (k : K) (v : V) :
    sumBy f (m.insert k v) + (m.lookup k).elim 0 (f k) = f k v + sumBy f m := by
  rw [sumBy_insert, add_assoc, sumBy_erase_elim]

theorem length_keys_erase_elim (m : StorageMap K V) (k : K) :
    (m.erase k).keys.length + (m.lookup k).elim 0 (fun _ => 1) = m.keys.length := by
  rw [← sumBy_one, ← sumBy_one]
  exact sumBy_erase_elim (fun _ _ => 1) m k

theorem length_keys_insert_elim (m : StorageMap K V) (k : K) (v : V) :
    (m.insert k v).keys.length + (m.lookup k).elim 0 (fun _ => 1) = 1 + m.keys.length := by
  rw [← sumBy_one, ← sumBy_one]
  exact sumBy_insert_elim (fun _ _ => 1) m k v

/-- Entries that are erased one after the other leave the total one by one. -/
theorem sumBy_foldl_erase (f : K → V → M) (taken : List (K × V)) (m : StorageMap K V)
    (hnodup : (taken.map Prod.fst).Nodup) (hstored : ∀ e ∈ taken, m.lookup e.1 = some e.2) :
    sumBy f ((taken.map Prod.fst).foldl (fun m k => m.erase k) m) +
      (taken.map fun e => f e.1 e.2).sum = sumBy f m := by
  induction taken generalizing m with
  | nil => exact add_zero _
  | cons e rest ih =>
      have hnodup := List.nodup_cons.mp hnodup
      have hrest : ∀ e' ∈ rest, (m.erase e.1).lookup e'.1 = some e'.2 := by
        intro e' he'
        have hne : e'.1 ≠ e.1 := fun heq => hnodup.1 (heq ▸ List.mem_map_of_mem he')
        rw [AList.lookup_erase_ne hne]
        exact hstored e' (List.mem_cons_of_mem _ he')
      have hfirst := sumBy_erase f (hstored e List.mem_cons_self)
      rw [List.map_cons, List.foldl_cons, List.map_cons, List.sum_cons, hfirst,
        ← ih (m.erase e.1) hnodup.2 hrest, add_left_comm]

theorem sumBy_congr {f g : K → V → M} {m : StorageMap K V}
    (h : ∀ k v, m.lookup k = some v → f k v = g k v) :
    sumBy f m = sumBy g m := by
  unfold sumBy
  congr 1
  apply List.map_congr_left
  intro e he
  exact h e.1 e.2 (mem_entries_iff.mp he)

/-- The total is a sum over any set of keys that holds the stored ones. -/
theorem sumBy_eq_sum (f : K → V → M) {m : StorageMap K V} {keys : Finset K}
    (h : ∀ k ∈ m, k ∈ keys) : sumBy f m = ∑ k ∈ keys, (m.lookup k).elim 0 (f k) := by
  have hkeys : m.keys.toFinset ⊆ keys := by
    intro k hk
    exact h k (List.mem_toFinset.mp hk)
  have hzero : ∀ k ∈ keys, k ∉ m.keys.toFinset → (m.lookup k).elim 0 (f k) = 0 := by
    intro k _ hk
    rw [AList.lookup_eq_none.mpr fun hmem => hk (List.mem_toFinset.mpr hmem)]
    rfl
  rw [← Finset.sum_subset hkeys hzero, List.sum_toFinset _ m.keys_nodup]
  unfold sumBy AList.keys List.keys
  rw [List.map_map]
  congr 1
  apply List.map_congr_left
  intro e he
  show f e.1 e.2 = (m.lookup e.1).elim 0 (f e.1)
  rw [mem_entries_iff.mp he]
  rfl

/-- The total depends on what is stored under each key only. -/
theorem sumBy_congr_lookup (f : K → V → M) {m m' : StorageMap K V}
    (h : ∀ k, (m.lookup k).elim 0 (f k) = (m'.lookup k).elim 0 (f k)) :
    sumBy f m = sumBy f m' := by
  have hm : ∀ k ∈ m, k ∈ m.keys.toFinset ∪ m'.keys.toFinset := by
    intro k hk
    exact Finset.mem_union_left _ (List.mem_toFinset.mpr hk)
  have hm' : ∀ k ∈ m', k ∈ m.keys.toFinset ∪ m'.keys.toFinset := by
    intro k hk
    exact Finset.mem_union_right _ (List.mem_toFinset.mpr hk)
  rw [sumBy_eq_sum f hm, sumBy_eq_sum f hm']
  exact Finset.sum_congr rfl fun k _ => h k

theorem sumBy_eq_zero {f : K → V → M} {m : StorageMap K V}
    (h : ∀ k v, m.lookup k = some v → f k v = 0) : sumBy f m = 0 := by
  rw [sumBy_congr h]
  simp [sumBy]

end

section Order

variable [DecidableEq K]

theorem le_sumBy (f : K → V → ℕ) {m : StorageMap K V} {k : K} {v : V}
    (h : m.lookup k = some v) : f k v ≤ sumBy f m := by
  rw [sumBy_erase f h]
  exact Nat.le_add_right _ _

theorem sumBy_le_sumBy {f g : K → V → ℕ} {m : StorageMap K V}
    (h : ∀ k v, m.lookup k = some v → f k v ≤ g k v) :
    sumBy f m ≤ sumBy g m := by
  unfold sumBy
  apply List.sum_le_sum
  intro e he
  exact h e.1 e.2 (mem_entries_iff.mp he)

end Order

end StorageMap

end Subtensor.Lib
