import Mathlib.Data.List.Nodup
/-!
# A readers-writer lock

Who holds a lock that is taken shared by any number of owners or exclusively by
one, for any type of owners. That the two modes exclude each other, and that an
owner is not counted twice, are fields of the state.

Unlocking a lock that the caller does not hold is undefined by contract. Here
it takes the lock from whoever holds it.
-/

namespace ReadWriteLock

inductive Mode
  | shared
  | exclusive
  deriving DecidableEq, Repr

structure State (π : Type) where
  writer : Option π
  readers : List π
  exclusive : writer = none ∨ readers = []
  distinct : readers.Nodup

variable {π : Type}

namespace State

/-- Nobody holds the lock. -/
def free : State π := ⟨none, [], .inl rfl, List.nodup_nil⟩

def Holds (l : State π) (p : π) : Mode → Prop
  | .exclusive => l.writer = some p
  | .shared => p ∈ l.readers

variable {l l' : State π} {p q : π} {mode mode' : Mode}

theorem not_holds_free : ¬ (free : State π).Holds p mode := by
  cases mode <;> simp [free, Holds]

/-- Whoever holds the lock exclusively is its only holder. -/
theorem Holds.only (h : l.Holds p .exclusive) (h' : l.Holds q mode) : q = p ∧ mode = .exclusive := by
  have hw : l.writer = some p := h
  cases mode with
  | exclusive =>
    have hq : l.writer = some q := h'
    rw [hw] at hq
    exact ⟨(Option.some.inj hq).symm, rfl⟩
  | shared =>
    have hq : q ∈ l.readers := h'
    rcases l.exclusive with hn | hn
    · rw [hn] at hw
      cases hw
    · rw [hn] at hq
      cases hq

variable [DecidableEq π]

instance (l : State π) (p : π) : ∀ mode, Decidable (l.Holds p mode)
  | .exclusive => inferInstanceAs (Decidable (l.writer = some p))
  | .shared => inferInstanceAs (Decidable (p ∈ l.readers))

/-- The lock after `p` has taken it, when it can be taken in that mode. -/
def acquire (l : State π) (p : π) : Mode → Option (State π)
  | .exclusive => if l.writer = none ∧ l.readers = [] then some ⟨some p, [], .inr rfl, List.nodup_nil⟩ else none
  | .shared =>
    if h : l.writer = none ∧ p ∉ l.readers then
      some ⟨none, p :: l.readers, .inl rfl, List.nodup_cons.2 ⟨h.2, l.distinct⟩⟩
    else none

/-- The lock after `p` has unlocked it, whether or not it held it. -/
def release (l : State π) (p : π) : Mode → State π
  | .exclusive => ⟨none, l.readers, .inl rfl, l.distinct⟩
  | .shared =>
    { writer := l.writer
      readers := if p ∈ l.readers then l.readers.erase p else l.readers.tail
      exclusive := l.exclusive.imp_right fun h => by simp [h]
      distinct := by
        split
        · exact l.distinct.erase p
        · exact l.distinct.sublist l.readers.tail_sublist }

theorem holds_acquire (h : l.acquire p mode = some l') :
    l'.Holds q mode' ↔ (q = p ∧ mode' = mode) ∨ l.Holds q mode' := by
  cases mode with
  | exclusive =>
    simp only [acquire] at h
    split at h
    · rename_i hfree
      cases h
      cases mode' <;> simp [Holds, hfree.1, hfree.2, eq_comm]
    · cases h
  | shared =>
    simp only [acquire] at h
    split at h
    · rename_i hfree
      cases h
      cases mode' <;> simp [Holds, hfree.1]
    · cases h

/-- A lock that somebody holds exclusively cannot be taken. -/
theorem acquire_eq_none (h : l.Holds p .exclusive) : l.acquire q mode = none := by
  cases ha : l.acquire q mode with
  | none => rfl
  | some l' =>
    have hw : l.writer = some p := h
    cases mode <;> simp [acquire, hw] at ha

/-- Unlocking gives the lock to nobody. -/
theorem holds_of_release (h : (l.release p mode).Holds q mode') : l.Holds q mode' := by
  cases mode <;> cases mode' <;> simp only [release, Holds] at h ⊢
  · split at h
    · exact List.mem_of_mem_erase h
    · exact List.mem_of_mem_tail h
  · exact h
  · exact h
  · cases h

/-- A holder that unlocks gives up its own hold and no other. -/
theorem holds_release (h : l.Holds p mode) :
    (l.release p mode).Holds q mode' ↔ l.Holds q mode' ∧ ¬ (q = p ∧ mode' = mode) := by
  cases mode with
  | exclusive =>
    have honly : l.Holds q mode' → q = p ∧ mode' = .exclusive := h.only
    refine ⟨fun hq => absurd (honly (holds_of_release hq)) ?_, fun hq => absurd (honly hq.1) hq.2⟩
    rintro ⟨rfl, rfl⟩
    exact absurd hq (by simp [release, Holds])
  | shared =>
    have hp : p ∈ l.readers := h
    cases mode' <;> simp [release, Holds, hp, l.distinct.mem_erase_iff, and_comm]

end State
end ReadWriteLock
