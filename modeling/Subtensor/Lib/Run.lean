import Mathlib.Tactic

/-!
# Runs of a machine

A machine applies inputs to its state one after the other. What holds of every
state of a run is compared with what holds of every input, in the state in
which it is applied.
-/

namespace Subtensor.Lib.Run

variable {S I : Type} (apply : S → I → S)

/-- `p` holds of the first state of a run and of every state that it reaches. -/
def AllStates (p : S → Prop) : S → List I → Prop
  | s, [] => p s
  | s, i :: is => p s ∧ AllStates p (apply s i) is

/-- `c` holds of every input, in the state in which it is applied. -/
def AllInputs (c : S → I → Prop) : S → List I → Prop
  | _, [] => True
  | s, i :: is => c s i ∧ AllInputs c (apply s i) is

variable {apply} {p q : S → Prop} {c : S → I → Prop}

instance decidableAllInputs [∀ s, DecidablePred (c s)] (s : S) (is : List I) :
    Decidable (AllInputs apply c s is) :=
  match is with
  | [] => isTrue trivial
  | i :: is =>
      have := decidableAllInputs (apply s i) is
      inferInstanceAs (Decidable (c s i ∧ AllInputs apply c (apply s i) is))

theorem AllStates.head {s : S} {is : List I} (h : AllStates apply p s is) : p s := by
  cases is with
  | nil => exact h
  | cons i is => exact h.1

/-- What holds of every state of a run holds of the last one. -/
theorem AllStates.foldl {s : S} {is : List I} (h : AllStates apply p s is) :
    p (is.foldl apply s) := by
  induction is generalizing s with
  | nil => exact h
  | cons i is ih => exact ih h.2

theorem AllStates.mono (hsub : ∀ s, p s → q s) {s : S} {is : List I}
    (h : AllStates apply p s is) : AllStates apply q s is := by
  induction is generalizing s with
  | nil => exact hsub s h
  | cons i is ih => exact ⟨hsub s h.1, ih h.2⟩

theorem AllInputs.congr {c' : S → I → Prop} (h : ∀ s i, c s i ↔ c' s i) {s : S} {is : List I} :
    AllInputs apply c s is ↔ AllInputs apply c' s is := by
  induction is generalizing s with
  | nil => exact Iff.rfl
  | cons i is ih => exact and_congr (h s i) ih

/-- Inputs that keep an invariant lead to states in which it holds. -/
theorem AllInputs.allStates (hstep : ∀ s i, p s → c s i → p (apply s i)) {s : S} (h : p s)
    {is : List I} (hinputs : AllInputs apply c s is) : AllStates apply p s is := by
  induction is generalizing s with
  | nil => exact h
  | cons i is ih => exact ⟨h, ih (hstep s i h hinputs.1) hinputs.2⟩

/-- A property that every input keeps holds along every run. -/
theorem allStates_of_step (hstep : ∀ s i, p s → p (apply s i)) {s : S} (h : p s) (is : List I) :
    AllStates apply p s is := by
  induction is generalizing s with
  | nil => exact h
  | cons i is ih => exact ⟨h, ih (hstep s i h)⟩

/-- A state property that fails exactly after the inputs without `c` holds all
along a run exactly if all its inputs have `c`. The invariant `q` is kept by
every input. -/
theorem allStates_iff (hinv : ∀ s i, q s → q (apply s i))
    (hstep : ∀ s i, q s → p s → (p (apply s i) ↔ c s i)) {s : S} (hq : q s) (hp : p s)
    (is : List I) : AllStates apply p s is ↔ AllInputs apply c s is := by
  induction is generalizing s with
  | nil => exact ⟨fun _ => trivial, fun _ => hp⟩
  | cons i is ih =>
      constructor
      · rintro ⟨-, hrest⟩
        have hp' := hrest.head
        exact ⟨(hstep s i hq hp).mp hp', (ih (hinv s i hq) hp').mp hrest⟩
      · rintro ⟨hc, hrest⟩
        have hp' := (hstep s i hq hp).mpr hc
        exact ⟨hp, (ih (hinv s i hq) hp').mpr hrest⟩

theorem allStates_iff_of_step (hstep : ∀ s i, p s → (p (apply s i) ↔ c s i)) {s : S} (hp : p s)
    (is : List I) : AllStates apply p s is ↔ AllInputs apply c s is :=
  allStates_iff (q := fun _ => True) (fun _ _ _ => trivial) (fun s i _ => hstep s i) trivial hp is

/-- The same for a property `p` that is not inductive by itself: `q` implies it
and is kept by the inputs with `c`, and after the others `p` fails. -/
theorem allStates_iff_of_kept (hsub : ∀ s, q s → p s) (hbreak : ∀ s i, q s → p (apply s i) → c s i)
    (hkeep : ∀ s i, q s → c s i → q (apply s i)) {s : S} (hq : q s) (is : List I) :
    AllStates apply p s is ↔ AllInputs apply c s is := by
  induction is generalizing s with
  | nil => exact ⟨fun _ => trivial, fun _ => hsub s hq⟩
  | cons i is ih =>
      constructor
      · rintro ⟨-, hrest⟩
        have hc := hbreak s i hq hrest.head
        exact ⟨hc, (ih (hkeep s i hq hc)).mp hrest⟩
      · rintro ⟨hc, hrest⟩
        exact ⟨hsub s hq, (ih (hkeep s i hq hc)).mpr hrest⟩

/-! ## Passes over keys -/

section

variable {K V : Type} {step : S → K → S} {view : S → K → V}

/-- A pass of steps that are each about one key leaves the other keys alone. -/
theorem view_foldl_of_notMem (hother : ∀ s k k', k' ≠ k → view (step s k) k' = view s k')
    {keys : List K} {k : K} (hk : k ∉ keys) (s : S) :
    view (keys.foldl step s) k = view s k := by
  induction keys generalizing s with
  | nil => rfl
  | cons key keys ih =>
      obtain ⟨hne, hk⟩ := not_or.mp (mt List.mem_cons.mpr hk)
      rw [List.foldl_cons, ih hk, hother s key k hne]

/-- It does for each of its keys what the step of that key does. -/
theorem view_foldl_of_mem (hother : ∀ s k k', k' ≠ k → view (step s k) k' = view s k')
    {keys : List K} (hnodup : keys.Nodup) {k : K} (hk : k ∈ keys) (s : S) :
    ∃ s', view s' k = view s k ∧ view (keys.foldl step s) k = view (step s' k) k := by
  obtain ⟨before, after, rfl⟩ := List.append_of_mem hk
  obtain ⟨-, hafter, hdisjoint⟩ := List.nodup_append'.mp hnodup
  have hnotBefore : k ∉ before := fun hmem => hdisjoint hmem List.mem_cons_self
  refine ⟨before.foldl step s, view_foldl_of_notMem hother hnotBefore s, ?_⟩
  rw [List.foldl_append, List.foldl_cons,
    view_foldl_of_notMem hother (List.nodup_cons.mp hafter).1]

end

end Subtensor.Lib.Run
