import Mathlib.Tactic.TypeStar
/-!
# Chains of changes

A list of `(old, new)` pairs in which every old value is the new value before
it: what a variable went through, with a relation that each change meets.
-/

namespace Chain

/-- The changes lead from one value to another, and each of them meets `R`. -/
def Chained {α : Type*} (R : α → α → Prop) : α → List (α × α) → α → Prop
  | a, [], b => a = b
  | a, (oldValue, value) :: ps, b => oldValue = a ∧ R oldValue value ∧ Chained R value ps b

variable {α : Type*} {R : α → α → Prop} {a b value : α} {ps : List (α × α)}

theorem Chained.append (h : Chained R a ps b) (hr : R b value) : Chained R a (ps ++ [(b, value)]) value := by
  induction ps generalizing a with
  | nil =>
    obtain rfl : a = b := h
    exact ⟨rfl, hr, rfl⟩
  | cons p ps ih =>
    obtain ⟨ho, he, hps⟩ := h
    exact ⟨ho, he, ih hps⟩

/-- A chain ends in its last new value. -/
theorem Chained.getLast {oldValue : α} (h : Chained R a ps b) (hl : ps.getLast? = some (oldValue, value)) :
    value = b := by
  induction ps generalizing a with
  | nil => cases hl
  | cons p ps ih =>
    obtain ⟨-, -, hps⟩ := h
    cases ps with
    | nil =>
      cases hl
      exact hps
    | cons q ps => exact ih hps (by simpa using hl)

end Chain
