import Mathlib.Algebra.Group.Nat.Defs
/-!
# Checked word arithmetic

Each operation is the machine's own where its exact result is representable,
and `none` where it would wrap. An algorithm written with them gives `some` of
what it gives with the machine's operations exactly when nothing in it wraps.
-/

namespace Checked

def add (a b : UInt64) : Option UInt64 := if a.toNat + b.toNat < 2 ^ 64 then some (a + b) else none

def sub (a b : UInt64) : Option UInt64 := if b ≤ a then some (a - b) else none

def mul (a b : UInt64) : Option UInt64 := if a.toNat * b.toNat < 2 ^ 64 then some (a * b) else none

def div (a b : UInt64) : Option UInt64 := if b = 0 then none else some (a / b)

/-- The conversion to a signed word. -/
def signed (a : UInt64) : Option Int64 := if a.toNat < 2 ^ 63 then some a.toInt64 else none

def neg (a : Int64) : Option Int64 := if a = Int64.minValue then none else some (-a)

variable {a b : UInt64} {i : Int64}

theorem add_eq (h : a.toNat + b.toNat < 2 ^ 64) : add a b = some (a + b) := if_pos h

theorem sub_eq (h : b ≤ a) : sub a b = some (a - b) := if_pos h

/-- A computation goes on with the exact difference. -/
theorem sub_bind {β : Type} (h : b ≤ a) (f : UInt64 → Option β) : (sub a b >>= f) = f (a - b) := by
  rw [sub_eq h]
  rfl

theorem mul_eq (h : a.toNat * b.toNat < 2 ^ 64) : mul a b = some (a * b) := if_pos h

theorem div_eq (h : 0 < b) : div a b = some (a / b) :=
  if_neg fun hb => absurd (hb ▸ h) (by decide)

theorem signed_eq (h : a.toNat < 2 ^ 63) : signed a = some a.toInt64 := if_pos h

theorem neg_eq (h : i ≠ Int64.minValue) : neg i = some (-i) := if_neg h

theorem signed_toInt (h : a.toNat < 2 ^ 63) : a.toInt64.toInt = a.toNat := by
  rw [← UInt64.ofNat_toNat (x := a), show (UInt64.ofNat a.toNat).toInt64 = Int64.ofNat a.toNat from rfl,
    Int64.toInt_ofNat_of_lt h, UInt64.ofNat_toNat]

end Checked
