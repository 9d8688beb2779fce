import Mathlib.Tactic

/-!
# Programs over storage

A program over a storage reads it, writes it and may fail. Nothing is rolled back: what it has
written before it fails stays written, as in `EStateM`. A program is *atomic* if it has written
nothing when it fails. Checks that only read come first and writes that cannot fail come last
in a program that is atomic; a batch of atomic programs whose failures are swallowed is the
fold of those that succeed.
-/

namespace Subtensor.Lib.Dispatch

variable {σ τ ε ε' α β ι V : Type}

/-! ## What a program leaves behind -/

/-- The storage after the program, also if it fails. -/
def final (x : EStateM ε σ α) (s : σ) : σ :=
  match x.run s with
  | .ok _ s' => s'
  | .error _ s' => s'

/-- The storage after the program, where failing means to do nothing. -/
def effect (x : EStateM ε σ α) (s : σ) : σ :=
  match x.run s with
  | .ok _ s' => s'
  | .error _ _ => s

/-- A program that has written nothing when it fails. -/
def Atomic (x : EStateM ε σ α) : Prop := ∀ s e s', x.run s = .error e s' → s' = s

/-- A program that leaves a part of the storage as it is, whether it fails or not. -/
def Keeps (part : σ → τ) (x : EStateM ε σ α) : Prop := ∀ s, part (final x s) = part s

def ReadOnly (x : EStateM ε σ α) : Prop := Keeps id x

/-- A program that does not fail. -/
def Succeeds (x : EStateM ε σ α) : Prop := ∀ s, ∃ a s', x.run s = .ok a s'

section

variable {x : EStateM ε σ α} {f : α → EStateM ε σ β} {part : σ → τ}

theorem final_of_ok {s s' : σ} {a : α} (h : x.run s = .ok a s') : final x s = s' := by
  rw [final, h]

theorem final_of_error {s s' : σ} {e : ε} (h : x.run s = .error e s') : final x s = s' := by
  rw [final, h]

theorem effect_of_ok {s s' : σ} {a : α} (h : x.run s = .ok a s') : effect x s = s' := by
  rw [effect, h]

theorem effect_of_error {s s' : σ} {e : ε} (h : x.run s = .error e s') : effect x s = s := by
  rw [effect, h]

theorem Succeeds.final_eq (h : Succeeds x) (s : σ) : ∃ a, x.run s = .ok a (final x s) := by
  obtain ⟨a, s', hrun⟩ := h s
  exact ⟨a, by rw [final_of_ok hrun, hrun]⟩

theorem Succeeds.atomic (h : Succeeds x) : Atomic x := by
  intro s e s' hrun
  obtain ⟨a, s'', hok⟩ := h s
  rw [hok] at hrun
  cases hrun

/-! ## Sequences -/

theorem run_bind_of_ok {s s' : σ} {a : α} (h : x.run s = .ok a s') :
    (x >>= f).run s = (f a).run s' := by
  rw [EStateM.run_bind, h]

theorem run_bind_of_error {s s' : σ} {e : ε} (h : x.run s = .error e s') :
    (x >>= f).run s = .error e s' := by
  rw [EStateM.run_bind, h]

theorem Keeps.bind (hx : Keeps part x) (hf : ∀ a, Keeps part (f a)) : Keeps part (x >>= f) := by
  intro s
  have hfirst := hx s
  cases hrun : x.run s with
  | ok a s' =>
      rw [final_of_ok hrun] at hfirst
      rw [final, run_bind_of_ok hrun, ← hfirst]
      exact hf a s'
  | error e s' =>
      rw [final_of_error hrun] at hfirst
      rw [final_of_error (run_bind_of_error hrun), hfirst]

theorem Succeeds.bind (hx : Succeeds x) (hf : ∀ a, Succeeds (f a)) : Succeeds (x >>= f) := by
  intro s
  obtain ⟨a, s', hrun⟩ := hx s
  obtain ⟨b, s'', hrun'⟩ := hf a s'
  exact ⟨b, s'', (run_bind_of_ok hrun).trans hrun'⟩

/-- A check comes before an atomic program. -/
theorem ReadOnly.bind (hx : ReadOnly x) (hf : ∀ a, Atomic (f a)) : Atomic (x >>= f) := by
  intro s e s' hrun
  have hsame : final x s = s := hx s
  cases hfirst : x.run s with
  | ok a s₁ =>
      rw [final_of_ok hfirst] at hsame
      rw [run_bind_of_ok hfirst, hsame] at hrun
      exact hf a s e s' hrun
  | error e₁ s₁ =>
      rw [final_of_error hfirst] at hsame
      rw [run_bind_of_error hfirst, hsame] at hrun
      cases hrun
      rfl

/-- What comes after an atomic program does not fail. -/
theorem Atomic.bind (hx : Atomic x) (hf : ∀ a, Succeeds (f a)) : Atomic (x >>= f) := by
  intro s e s' hrun
  cases hfirst : x.run s with
  | ok a s₁ =>
      obtain ⟨b, s₂, hok⟩ := hf a s₁
      rw [run_bind_of_ok hfirst, hok] at hrun
      cases hrun
  | error e₁ s₁ =>
      rw [run_bind_of_error hfirst] at hrun
      cases hrun
      exact hx s _ _ hfirst

end

/-! ## Single steps -/

theorem readOnly_pure (a : α) : ReadOnly (pure a : EStateM ε σ α) := fun _ => rfl

theorem readOnly_get : ReadOnly (get : EStateM ε σ σ) := fun _ => rfl

theorem readOnly_throw (e : ε) : ReadOnly (throw e : EStateM ε σ α) := fun _ => rfl

theorem succeeds_pure (a : α) : Succeeds (pure a : EStateM ε σ α) := fun s => ⟨a, s, rfl⟩

theorem succeeds_modify (f : σ → σ) : Succeeds (modify f : EStateM ε σ PUnit) :=
  fun s => ⟨⟨⟩, f s, rfl⟩

theorem keeps_modify {part : σ → τ} {f : σ → σ} (h : ∀ s, part (f s) = part s) :
    Keeps part (modify f : EStateM ε σ PUnit) := h

def ensure (p : Prop) [Decidable p] (e : ε) : EStateM ε σ Unit := if p then pure () else throw e

theorem run_ensure (p : Prop) [Decidable p] (e : ε) (s : σ) :
    (ensure p e : EStateM ε σ Unit).run s = if p then .ok () s else .error e s := by
  unfold ensure
  split
  · rfl
  · rfl

theorem readOnly_ensure (p : Prop) [Decidable p] (e : ε) :
    ReadOnly (ensure p e : EStateM ε σ Unit) := by
  unfold ensure
  split
  · exact readOnly_pure ()
  · exact readOnly_throw e

/-- `ok_or`. -/
def orError (e : ε) : Option α → EStateM ε σ α
  | none => throw e
  | some a => pure a

theorem readOnly_orError (e : ε) (a : Option α) : ReadOnly (orError e a : EStateM ε σ α) := by
  cases a with
  | none => exact readOnly_throw e
  | some a => exact readOnly_pure a

/-- `try_mutate`: a program gets a value of the storage and returns the new one, which is
written back only if the program succeeds. -/
def tryMutate (read : σ → V) (write : V → σ → σ) (f : V → EStateM ε σ (α × V)) :
    EStateM ε σ α := do
  let (a, value) ← f (read (← get))
  modify (write value)
  return a

section

variable {read : σ → V} {write : V → σ → σ} {f : V → EStateM ε σ (α × V)} {s s' : σ}

theorem run_tryMutate_of_ok {a : α} {value : V} (h : (f (read s)).run s = .ok (a, value) s') :
    (tryMutate read write f).run s = .ok a (write value s') := by
  unfold tryMutate
  rw [run_bind_of_ok (rfl : (get : EStateM ε σ σ).run s = .ok s s), run_bind_of_ok h]
  rfl

theorem run_tryMutate_of_error {e : ε} (h : (f (read s)).run s = .error e s') :
    (tryMutate read write f).run s = .error e s' := by
  unfold tryMutate
  rw [run_bind_of_ok (rfl : (get : EStateM ε σ σ).run s = .ok s s), run_bind_of_error h]

end

theorem atomic_tryMutate {read : σ → V} {write : V → σ → σ} {f : V → EStateM ε σ (α × V)}
    (h : ∀ value, Atomic (f value)) : Atomic (tryMutate read write f) := by
  refine readOnly_get.bind fun s => (h _).bind fun result => ?_
  exact (succeeds_modify _).bind fun _ => succeeds_pure _

/-! ## Batches -/

/-- The result of a program as a value: whoever goes on has swallowed its failure. -/
def attempt (x : EStateM ε σ α) : EStateM ε' σ (Except ε α) := fun s =>
  match x.run s with
  | .ok a s' => .ok (.ok a) s'
  | .error e s' => .ok (.error e) s'

theorem run_attempt_of_ok {x : EStateM ε σ α} {s s' : σ} {a : α} (h : x.run s = .ok a s') :
    (attempt x : EStateM ε' σ (Except ε α)).run s = .ok (.ok a) s' := by
  show (match x.run s with | .ok a s' => _ | .error e s' => _ : EStateM.Result _ _ _) = _
  rw [h]

theorem run_attempt_of_error {x : EStateM ε σ α} {s s' : σ} {e : ε} (h : x.run s = .error e s') :
    (attempt x : EStateM ε' σ (Except ε α)).run s = .ok (.error e) s' := by
  show (match x.run s with | .ok a s' => _ | .error e s' => _ : EStateM.Result _ _ _) = _
  rw [h]

/-- A swallowed failure of an atomic program does nothing. -/
theorem Atomic.run_attempt {x : EStateM ε σ α} (h : Atomic x) (s : σ) :
    ∃ result, (attempt x : EStateM ε' σ (Except ε α)).run s = .ok result (effect x s) := by
  cases hrun : x.run s with
  | ok a s' => exact ⟨.ok a, by rw [run_attempt_of_ok hrun, effect_of_ok hrun]⟩
  | error e s' =>
      exact ⟨.error e, by rw [run_attempt_of_error hrun, effect_of_error hrun, h s e s' hrun]⟩

/-- **Batches.** When atomic programs are run one after the other and their results are
collected, the failing ones do nothing. -/
theorem run_mapM_attempt {call : ι → EStateM ε σ α} (h : ∀ i, Atomic (call i)) (calls : List ι)
    (s : σ) :
    ∃ results, (calls.mapM fun i => (attempt (call i) : EStateM ε' σ (Except ε α))).run s =
      .ok results (calls.foldl (fun s i => effect (call i) s) s) := by
  induction calls generalizing s with
  | nil => exact ⟨[], rfl⟩
  | cons i calls ih =>
      obtain ⟨result, hfirst⟩ : ∃ result, (attempt (call i) : EStateM ε' σ (Except ε α)).run s =
          .ok result (effect (call i) s) := (h i).run_attempt s
      obtain ⟨results, hrest⟩ := ih (effect (call i) s)
      refine ⟨result :: results, ?_⟩
      rw [List.mapM_cons, run_bind_of_ok hfirst, run_bind_of_ok hrest]
      rfl

/-- A loop whose turns do not fail. -/
theorem run_forM {body : ι → EStateM ε σ PUnit} (h : ∀ i, Succeeds (body i)) (items : List ι)
    (s : σ) :
    (items.forM body).run s = .ok ⟨⟩ (items.foldl (fun s i => final (body i) s) s) := by
  induction items generalizing s with
  | nil => rfl
  | cons i items ih =>
      obtain ⟨a, hrun⟩ := (h i).final_eq s
      rw [List.forM_eq_forM, List.forM_cons, run_bind_of_ok hrun]
      exact ih (final (body i) s)

end Subtensor.Lib.Dispatch
