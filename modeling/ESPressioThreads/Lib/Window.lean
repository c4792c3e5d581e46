import Mathlib.Algebra.Order.BigOperators.Group.List
import Mathlib.Algebra.Order.Field.Basic
import Mathlib.Data.Finset.Max
import Mathlib.Data.Nat.Cast.Order.Field
import Mathlib.Tactic.Ring
/-!
# Rolling windows

The last `n` elements of a list, and the mean rate of a window of intervals:
`length * c / sum` lies between the rates `c / x` of its longest and its
shortest interval.
-/

namespace Window

variable {α : Type*}

/-- The last `n` elements. -/
def last (n : Nat) (l : List α) : List α := l.drop (l.length - n)

@[simp] theorem last_nil (n : Nat) : last n ([] : List α) = [] := List.drop_nil

theorem last_suffix (n : Nat) (l : List α) : last n l <:+ l := List.drop_suffix _ _

theorem length_last (n : Nat) (l : List α) : (last n l).length = min l.length n := by
  simp only [last, List.length_drop]
  omega

/-- Putting `x` into the window is putting it into the list. -/
theorem last_append (n : Nat) (l : List α) (x : α) : last n (last n l ++ [x]) = last n (l ++ [x]) := by
  have hlen := length_last n l
  simp only [last, List.drop_append, List.drop_drop, List.length_append, List.length_singleton] at hlen ⊢
  rw [hlen]
  rcases Nat.lt_or_ge l.length n with hshort | hlong
  · rw [Nat.min_eq_left hshort.le, show l.length - n = 0 by omega, Nat.zero_add]
  · rw [Nat.min_eq_right hlong]
    congr 2 <;> omega

theorem getLast?_last_append {n : Nat} (hn : 0 < n) (l : List α) (x : α) : (last n (l ++ [x])).getLast? = some x := by
  rw [last, List.drop_append_of_le_length (by simp; omega), List.getLast?_concat]

/-! ## Mean rates -/

section
variable {l : List Nat}

theorem exists_extremes (h : l ≠ []) : ∃ lo ∈ l, ∃ hi ∈ l, ∀ x ∈ l, lo ≤ x ∧ x ≤ hi := by
  have hne : l.toFinset.Nonempty := (List.toFinset_nonempty_iff l).2 h
  obtain ⟨lo, hlo, hmin⟩ := l.toFinset.exists_min_image id hne
  obtain ⟨hi, hhi, hmax⟩ := l.toFinset.exists_max_image id hne
  simp only [List.mem_toFinset, id] at hlo hmin hhi hmax
  exact ⟨lo, hlo, hi, hhi, fun x hx => ⟨hmin x hx, hmax x hx⟩⟩

variable {K : Type*} [Field K] [LinearOrder K] [IsStrictOrderedRing K]

theorem mean_rate_between (h : l ≠ []) (hpos : ∀ x ∈ l, 0 < x) {c : K} (hc : 0 ≤ c) :
    ∃ short ∈ l, ∃ long ∈ l, (∀ x ∈ l, c / long ≤ c / x ∧ c / x ≤ c / short) ∧
      c / long ≤ l.length * c / l.sum ∧ l.length * c / l.sum ≤ c / short := by
  obtain ⟨lo, hlo, hi, hhi, hbounds⟩ := exists_extremes h
  have hcast : ∀ x ∈ l, (0 : K) < x := fun x hx => by exact_mod_cast hpos x hx
  have hsum : (0 : K) < l.sum := by
    have := List.single_le_sum (by simp) lo hlo
    exact_mod_cast lt_of_lt_of_le (hpos lo hlo) this
  have hupper : l.sum ≤ l.length * hi := by
    simpa using l.sum_le_card_nsmul hi fun x hx => (hbounds x hx).2
  have hlower : l.length * lo ≤ l.sum := by
    simpa using l.card_nsmul_le_sum lo fun x hx => (hbounds x hx).1
  refine ⟨lo, hlo, hi, hhi, fun x hx => ⟨?_, ?_⟩, ?_, ?_⟩
  · exact div_le_div_of_nonneg_left hc (hcast x hx) (by exact_mod_cast (hbounds x hx).2)
  · exact div_le_div_of_nonneg_left hc (hcast lo hlo) (by exact_mod_cast (hbounds x hx).1)
  · rw [div_le_div_iff₀ (hcast hi hhi) hsum]
    calc c * l.sum ≤ c * (l.length * hi) := mul_le_mul_of_nonneg_left (by exact_mod_cast hupper) hc
      _ = l.length * c * hi := by ring
  · rw [div_le_div_iff₀ hsum (hcast lo hlo)]
    calc l.length * c * lo = c * (l.length * lo) := by ring
      _ ≤ c * l.sum := mul_le_mul_of_nonneg_left (by exact_mod_cast hlower) hc

end

end Window
