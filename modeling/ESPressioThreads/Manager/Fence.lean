import ESPressioThreads.Manager.Guard
import ESPressioThreads.Manager.Pinning
import ESPressioThreads.Manager.Registration
/-!
# Who holds `_iterationMutex`

Passes hold `_iterationMutex` from the moment they look for iterations, and an
iteration begins and ends while nobody holds it. So the iterations that a pass
has found are still there when it writes its result.
-/

namespace ESPressio.Manager

open Transition

/-- One operation at a time holds `_iterationMutex`, and a pass that defers has
found iterations, none of which can end before the pass unlocks. -/
structure Fenced (m : Machine) : Prop where
  holder : ∀ i, (m.ops i).role.Locked → m.iterationMutex = some i
  deferring : ∀ i caller, m.ops i = .cleanUp caller .deferring → 0 < m.activeIterations

/-- A step of operation `i`: the mutex and the count of iterations change only
under the mutex. -/
structure FenceStep (m : Machine) (i : OpId) (m' : Machine) : Prop where
  others : ∀ j, j ≠ i → m'.ops j = m.ops j
  mutex : m'.iterationMutex = m.iterationMutex ∨ m.iterationMutex = none ∨ m.iterationMutex = some i
  count : m'.activeIterations = m.activeIterations ∨ m.iterationMutex = none
  own : (m'.ops i).role.Locked → m'.iterationMutex = some i
  deferring : ∀ caller, m'.ops i = .cleanUp caller .deferring → 0 < m'.activeIterations

section
variable {n : Nat} {m m' : Machine} {i : OpId} {answer : Answer}

theorem Fenced.step (h : Fenced m) (hs : FenceStep m i m') : Fenced m' := by
  -- Another operation that holds the mutex keeps it.
  have hkept : ∀ j, j ≠ i → m.iterationMutex = some j → m'.iterationMutex = some j := by
    intro j hj hm
    rcases hs.mutex with he | he | he
    · rw [he, hm]
    · rw [hm] at he
      cases he
    · rw [hm] at he
      exact absurd (Option.some.inj he) hj
  refine ⟨fun j hl => ?_, fun j caller hd => ?_⟩
  · by_cases hj : j = i
    · subst hj
      exact hs.own hl
    · rw [hs.others j hj] at hl
      exact hkept j hj (h.holder j hl)
  · by_cases hj : j = i
    · subst hj
      exact hs.deferring caller hd
    · rw [hs.others j hj] at hd
      rcases hs.count with he | he
      · rw [he]
        exact h.deferring j caller hd
      · have hm := h.holder j (by rw [hd]; trivial)
        rw [hm] at he
        cases he

theorem goto_ops_ne {j : OpId} (pc : Pc) (ho : m'.ops = m.ops) (h : j ≠ i) : (m'.goto i pc).ops j = m.ops j := by
  rw [← ho]
  exact Function.update_of_ne h pc m'.ops

/-- A step with the mutex as it was. -/
theorem FenceStep.goto (h : Fenced m) {pc : Pc} (ho : m'.ops = m.ops) (hm : m'.iterationMutex = m.iterationMutex)
    (hc : m'.activeIterations = m.activeIterations ∨ m.iterationMutex = none)
    (hl : pc.role.Locked → (m.ops i).role.Locked) (hd : pc.role = .deferring → False) :
    FenceStep m i (m'.goto i pc) where
  others _ hj := goto_ops_ne pc ho hj
  mutex := .inl hm
  count := hc
  own hlocked := by
    rw [goto_ops_self] at hlocked
    exact hm.trans (h.holder i (hl hlocked))
  deferring caller he := by
    rw [goto_ops_self] at he
    exact (hd (by rw [he]; rfl)).elim

/-- A step that unlocks. -/
theorem FenceStep.unlock (h : Fenced m) {pc : Pc} (ho : m'.ops = m.ops) (hlocked : (m.ops i).role.Locked)
    (hc : m'.activeIterations = m.activeIterations) (hl : ¬ pc.role.Locked) : FenceStep m i (m'.goto i pc) where
  others _ hj := goto_ops_ne pc ho hj
  mutex := .inr (.inr (h.holder i hlocked))
  count := .inl hc
  own hl' := by
    rw [goto_ops_self] at hl'
    exact absurd hl' hl
  deferring caller he := by
    rw [goto_ops_self] at he
    exact absurd (by rw [he]; trivial) hl

theorem fence_stepAddThread {t : ThreadPtr} {assigned : Bool} {pc : AddPc} (h : Fenced m)
    (hs : stepAddThread n m i t assigned pc answer = some m') : FenceStep m i m' := by
  -- No program counter of `AddThread`, and none it leaves to, holds the mutex.
  have hgoto : ∀ {m₁ : Machine} {pc' : Pc}, m₁.ops = m.ops → m₁.iterationMutex = m.iterationMutex →
      m₁.activeIterations = m.activeIterations → pc'.role = .idle → FenceStep m i (m₁.goto i pc') := by
    intro m₁ pc' ho hm hc hr
    refine .goto h ho hm (.inl hc) ?_ ?_
    · rw [hr]
      exact False.elim
    · rw [hr]
      rintro ⟨⟩
  cases pc with
  | lookUp =>
    simp only [stepAddThread] at hs
    split at hs
    · cases hs
      exact hgoto rfl rfl rfl rfl
    · split at hs <;> cases hs <;> exact hgoto rfl rfl rfl rfl
  | getThreadID =>
    simp only [stepAddThread] at hs
    split at hs <;> cases hs <;> exact hgoto rfl rfl rfl rfl
  | insert requested =>
    simp only [stepAddThread] at hs
    split at hs
    · split at hs
      · split at hs <;> cases hs <;> exact hgoto rfl rfl rfl rfl
      · cases hs
        exact hgoto rfl rfl rfl rfl
    · cases hs
      exact hgoto rfl rfl rfl rfl
  | notifyRegistered record =>
    simp only [stepAddThread] at hs
    split at hs <;> cases hs <;> exact hgoto rfl rfl rfl rfl
  | notifyFailed e =>
    cases hs
    exact hgoto rfl rfl rfl rfl

theorem fence_stepRemoveThread {key : RemoveBy} (h : Fenced m) : FenceStep m i (stepRemoveThread m i key) := by
  cases key <;>
    (simp only [stepRemoveThread]; split <;> exact .goto h rfl rfl (.inl rfl) False.elim (by rintro ⟨⟩))

/-- Iterations begin and end while nobody holds the mutex. -/
theorem fence_stepIteration {kind : IterationKind} {pc : IterationPc} (h : Fenced m)
    (hs : stepIteration m i kind pc answer = some m') : FenceStep m i m' := by
  unfold stepIteration at hs
  split at hs
  · split at hs <;> cases hs
    exact .goto h rfl rfl (.inr ‹_›) False.elim (by rintro ⟨⟩)
  · cases hs
    exact .goto h rfl rfl (.inl rfl) False.elim (by rintro ⟨⟩)
  · cases hs
    exact .goto h rfl rfl (.inl rfl) False.elim (by rintro ⟨⟩)
  · split at hs <;> cases hs <;> exact .goto h rfl rfl (.inl rfl) False.elim (by rintro ⟨⟩)
  · cases hs
    exact .goto h rfl rfl (.inl rfl) False.elim (by rintro ⟨⟩)
  · cases hs
    exact .goto h rfl rfl (.inl rfl) False.elim (by rintro ⟨⟩)
  · split at hs <;> cases hs
    simp only [endIteration]
    split <;> exact .goto h rfl rfl (.inr ‹_›) False.elim (by rintro ⟨⟩)
  · cases hs

theorem fence_stepCleanUp {caller : Caller} {pc : PassPc} (h : Fenced m) (hpc : m.ops i = .cleanUp caller pc)
    (hs : stepCleanUp m i caller pc answer = some m') : FenceStep m i m' := by
  have hrole : (m.ops i).role = pc.role := by rw [hpc]; rfl
  have hgoto : ∀ {m₁ : Machine} {pc' : Pc}, m₁.ops = m.ops → m₁.iterationMutex = m.iterationMutex →
      m₁.activeIterations = m.activeIterations → (pc'.role.Locked → pc.role.Locked) → pc'.role ≠ .deferring →
      FenceStep m i (m₁.goto i pc') := by
    intro m₁ pc' ho hm hc hl hd
    exact .goto h ho hm (.inl hc) (by rw [hrole]; exact hl) hd
  unfold stepCleanUp at hs
  split at hs
  · -- lockIteration
    split at hs
    · rename_i hfree
      dsimp only at hs
      split at hs
      · rename_i hactive
        cases hs
        refine ⟨fun _ => goto_ops_ne _ rfl, .inr (.inl hfree), .inl rfl, fun _ => rfl, fun _ _ => hactive⟩
      · cases hs
        refine ⟨fun _ => goto_ops_ne _ rfl, .inr (.inl hfree), .inl rfl, fun _ => rfl, fun caller hd => ?_⟩
        rw [goto_ops_self] at hd
        cases hd
    · cases hs
  · -- deferring
    cases hs
    exact .unlock h rfl (by rw [hrole]; trivial) rfl id
  · cases hs
    exact hgoto rfl rfl rfl id (by rintro ⟨⟩)
  · cases hs
    exact hgoto rfl rfl rfl id (by rintro ⟨⟩)
  · cases hs
    exact hgoto rfl rfl rfl id (by rintro ⟨⟩)
  · cases hs
    exact hgoto rfl rfl rfl id (by rintro ⟨⟩)
  · cases hs
    exact hgoto rfl rfl rfl id (by rintro ⟨⟩)
  · cases hs
    exact hgoto rfl rfl rfl id (by rintro ⟨⟩)
  · cases hs
    exact hgoto rfl rfl rfl id (by rintro ⟨⟩)
  · split at hs
    · cases hs
      exact hgoto rfl rfl rfl id (by rintro ⟨⟩)
    · cases answer with
      | returnsBool terminated => cases terminated <;> (cases hs; exact hgoto rfl rfl rfl id (by rintro ⟨⟩))
      | throws =>
        cases hs
        exact hgoto rfl rfl rfl id (by rintro ⟨⟩)
      | returns | threadID _ | status _ => cases hs
  · split at hs <;> cases hs <;> exact hgoto rfl rfl rfl id (by rintro ⟨⟩)
  · cases hs
    exact hgoto rfl rfl rfl id (by rintro ⟨⟩)
  · cases hs
    exact hgoto rfl rfl rfl id (by rintro ⟨⟩)
  · cases hs
    exact hgoto rfl rfl rfl id (by rintro ⟨⟩)
  · cases hs
    exact hgoto rfl rfl rfl id (by rintro ⟨⟩)
  · -- unlock
    cases hs
    exact .unlock h rfl (by rw [hrole]; trivial) rfl id
  · cases hs
    exact hgoto rfl rfl rfl id (by rintro ⟨⟩)
  · split at hs
    · split at hs <;> cases hs <;> exact hgoto rfl rfl rfl id (by rintro ⟨⟩)
    · cases hs
      exact hgoto rfl rfl rfl id (by rintro ⟨⟩)
  · cases hs
    exact hgoto rfl rfl rfl id (by rintro ⟨⟩)
  · cases hs
    exact hgoto rfl rfl rfl id (by rintro ⟨⟩)
  · cases hs
    exact hgoto rfl rfl rfl id (by rintro ⟨⟩)
  · -- unlockFailed
    cases hs
    exact .unlock h rfl (by rw [hrole]; trivial) rfl id
  · cases hs
    exact hgoto rfl rfl rfl id (by rintro ⟨⟩)
  · cases hs
    exact hgoto rfl rfl rfl id (by rintro ⟨⟩)
  · cases hs

theorem fence_step {a : Action} (h : Fenced m) (hs : step n m a = some m') : ∃ i, FenceStep m i m' := by
  cases a with
  | call i request =>
    simp only [step] at hs
    split at hs <;> cases hs
    refine ⟨i, .goto h rfl rfl (.inl rfl) ?_ ?_⟩ <;> (cases request <;> first | exact False.elim | rintro ⟨⟩)
  | step i answer =>
    refine ⟨i, ?_⟩
    simp only [step, stepOp] at hs
    split at hs
    · cases hs
    · cases hs
    · exact fence_stepAddThread h hs
    · split at hs <;> cases hs
      exact fence_stepRemoveThread h
    · split at hs <;> cases hs <;> exact .goto h rfl rfl (.inl rfl) False.elim (by rintro ⟨⟩)
    · exact fence_stepIteration h hs
    · exact fence_stepCleanUp h ‹_› hs

theorem fenced_reachable (h : (fresh n).Reachable m) : Fenced m := by
  refine h.invariant ?_ ?_
  · rintro m rfl
    exact ⟨fun _ => False.elim, by rintro i caller ⟨⟩⟩
  · intro m a m' hf _ hs
    obtain ⟨i, hi⟩ := fence_step hf hs
    exact hf.step hi

end

end ESPressio.Manager
