import Mathlib.Logic.Function.Basic
/-!
# One token

A protocol that hands one token around: it is at rest, or exactly one agent
holds it. `holds a` is the stage of the token at the agent `a`, if `a` has it,
and `rest` says at which stages no agent has it. Agents change one at a time,
by `Function.update`.
-/

namespace Token

variable {α σ : Type} {rest : σ → Bool} {holds : α → Option σ} {x y : σ} {a b : α}

/-- The token is at the stage `x`. -/
inductive At (rest : σ → Bool) (holds : α → Option σ) (x : σ) : Prop
  | resting : rest x = true → (∀ a, holds a = none) → At rest holds x
  | held (a : α) : rest x = false → holds a = some x → (∀ b, b ≠ a → holds b = none) → At rest holds x

namespace At

/-- Whoever has the token has it at its stage. -/
theorem eq_of_holds (h : At rest holds x) (ha : holds a = some y) : y = x := by
  cases h with
  | resting _ hn => rw [hn] at ha; cases ha
  | held b _ hb ho =>
    by_cases hab : a = b
    · subst hab
      rw [hb] at ha
      exact (Option.some.inj ha).symm
    · rw [ho a hab] at ha
      cases ha

theorem not_rest (h : At rest holds x) (ha : holds a = some y) : rest x = false := by
  cases h with
  | resting _ hn => rw [hn] at ha; cases ha
  | held b hr _ _ => exact hr

/-- Nobody else has it. -/
theorem others (h : At rest holds x) (ha : holds a = some y) (hb : b ≠ a) : holds b = none := by
  cases h with
  | resting _ hn => exact hn b
  | held c _ hc ho =>
    by_cases hac : a = c
    · subst hac; exact ho b hb
    · rw [ho a hac] at ha
      cases ha

theorem none_of_rest (h : At rest holds x) (hr : rest x = true) (a : α) : holds a = none := by
  cases h with
  | resting _ hn => exact hn a
  | held b hf _ _ => rw [hr] at hf; cases hf

theorem exists_of_held (h : At rest holds x) (hr : rest x = false) : ∃ a, holds a = some x := by
  cases h with
  | resting hf _ => rw [hr] at hf; cases hf
  | held a _ ha _ => exact ⟨a, ha⟩

variable [DecidableEq α]

/-- An agent without the token changed. -/
theorem keep (h : At rest holds x) (ha : holds a = none) : At rest (Function.update holds a none) x := by
  rwa [← ha, Function.update_eq_self]

/-- The holder moves the token on. -/
theorem move (h : At rest holds x) (ha : holds a = some x) (hy : rest y = false) :
    At rest (Function.update holds a (some y)) y :=
  .held a hy (by simp) fun b hb => by rw [Function.update_of_ne hb]; exact h.others ha hb

/-- The holder puts it down. -/
theorem release (h : At rest holds x) (ha : holds a = some x) (hy : rest y = true) :
    At rest (Function.update holds a none) y := by
  refine .resting hy fun b => ?_
  by_cases hb : b = a
  · subst hb; simp
  · rw [Function.update_of_ne hb]; exact h.others ha hb

/-- An agent takes the resting token. -/
theorem take (h : At rest holds x) (hx : rest x = true) (hy : rest y = false) :
    At rest (Function.update holds a (some y)) y :=
  .held a hy (by simp) fun b hb => by rw [Function.update_of_ne hb]; exact h.none_of_rest hx b

end At
end Token
