import Mathlib.Tactic

/-!
# Computations that may fail

How `Except` computations are taken apart: a successful `bind` has two
successful parts, a failing one fails in one of them.
-/

namespace Subtensor.Lib

variable {ε α β : Type}

@[simp] theorem ok_bind (a : α) (f : α → Except ε β) : (Except.ok a >>= f) = f a := rfl

@[simp] theorem error_bind (e : ε) (f : α → Except ε β) :
    (Except.error e >>= f) = Except.error e := rfl

theorem bind_eq_ok {x : Except ε α} {f : α → Except ε β} {b : β} :
    (x >>= f) = .ok b ↔ ∃ a, x = .ok a ∧ f a = .ok b := by
  cases x with
  | error e => simp
  | ok a => simp

/-- A check that fails if `p` holds, and what comes after it. -/
theorem ite_error_eq_ok {p : Prop} [Decidable p] {e : ε} {x : Except ε α} {a : α} :
    (if p then .error e else x) = .ok a ↔ ¬p ∧ x = .ok a := by
  by_cases h : p
  · simp [h]
  · simp [h]

/-- A check in front of a computation that may not return. -/
theorem ite_some_error_eq_ok {p : Prop} [Decidable p] {e : ε} {x : Option (Except ε α)} {a : α} :
    (if p then some (.error e) else x) = some (.ok a) ↔ ¬p ∧ x = some (.ok a) := by
  by_cases h : p
  · simp [h]
  · simp [h]

/-- What is read off a result that did not fail. -/
theorem exists_ok_of_toOption_map {x : Except ε α} {f : α → β} {b : β}
    (h : x.toOption.map f = some b) : ∃ a, x = .ok a ∧ f a = b := by
  cases x with
  | error e => cases h
  | ok a => exact ⟨a, rfl, Option.some.inj h⟩

/-! ## One part of the result -/

theorem map_fst_eq_ok {x : Except ε (α × β)} {a : α} :
    x.map Prod.fst = .ok a ↔ ∃ b, x = .ok (a, b) := by
  cases x with
  | error e => simp [Except.map]
  | ok r =>
      rcases r with ⟨a', b⟩
      simp [Except.map]

theorem map_map_fst_eq_ok {x : Option (Except ε (α × β))} {a : α} :
    x.map (Except.map Prod.fst) = some (.ok a) ↔ ∃ b, x = some (.ok (a, b)) := by
  cases x with
  | none => simp
  | some r => simp [map_fst_eq_ok]

/-- A function of a case distinction. -/
theorem ite_eq_apply_ite (f : α → β) {c : Prop} [Decidable c] {x y : β} {x' y' : α}
    (hx : c → x = f x') (hy : ¬c → y = f y') :
    (if c then x else y) = f (if c then x' else y') := by
  rw [apply_ite f]
  exact ite_congr rfl hx hy

end Subtensor.Lib
