import Mathlib.Tactic.ByContra
/-!
# Deadlines on a grid

A periodic deadline moves along the grid `b, b + P, b + 2 * P, ...`. At a
reading `n` at or past the deadline `d`, `(n - d) / P` slots after `d` have
already passed, and the next deadline is the first grid point after `n`.
-/

namespace Grid

/-- The first point of the grid through `d` with step `P` that lies after `n`. -/
def next (P d n : Nat) : Nat := d + ((n - d) / P + 1) * P

/-- `x` is a point of the grid from `b` with step `P`. -/
def On (b P x : Nat) : Prop := ∃ m, x = b + m * P

theorem lt_next {P d n : Nat} (hP : 0 < P) : n < next P d n := by
  have h := Nat.div_add_mod (n - d) P
  have hm := Nat.mod_lt (n - d) hP
  rw [Nat.mul_comm] at h
  simp only [next, Nat.add_mul, Nat.one_mul]
  omega

theorem next_le {P d n : Nat} (hd : d ≤ n) : next P d n ≤ n + P := by
  have h := Nat.div_mul_le_self (n - d) P
  simp only [next, Nat.add_mul, Nat.one_mul]
  omega

/-- A grid point after `n` is at or past any other within one step of `n`. -/
theorem least_of_le {b P d n : Nat} (hd : On b P d) (hle : d ≤ n + P) : ∀ x, On b P x → n < x → d ≤ x := by
  obtain ⟨m, rfl⟩ := hd
  rintro _ ⟨k, rfl⟩ hx
  by_contra hlt
  have hkm : k < m := by
    by_contra hmk
    have := Nat.mul_le_mul_right P (Nat.le_of_not_lt hmk)
    omega
  have h := Nat.mul_le_mul_right P (Nat.succ_le_of_lt hkm)
  rw [Nat.succ_mul] at h
  omega

/-- The number of slots from `b` up to the reading `n`, when the grid point
`b + m * P` is the first one after `n`. -/
theorem slots_eq {b P m n : Nat} (hb : b ≤ n) (hlt : n < b + m * P) (hle : b + m * P ≤ n + P) :
    (n - b) / P + 1 = m := by
  cases m with
  | zero => omega
  | succ k =>
    rw [Nat.succ_mul] at hlt hle
    congr 1
    apply Nat.div_eq_of_lt_le
    · omega
    · rw [Nat.succ_mul]; omega

end Grid
