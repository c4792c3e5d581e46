import ESPressioThreads.Dispatch.Machine
/-!
# Calls in progress

Only the top call of a stack is at work: those below it are in a handler, and
each call past the recursive mutex counts in its depth. So a call that stores a
transition meets no call of another task, and none of its own that is about to
call a handler.
-/

namespace ESPressio.Dispatch

open Transition ESPressio.Thread
open ESPressio.Lifecycle (TaskId)

/-- The call is inside the locked section. -/
def Pc.locked : Pc → Bool
  | .idle | .lock => false
  | _ => true

def Pc.inHandler : Pc → Bool
  | .running _ _ => true
  | _ => false

theorem Pc.locked_of_inHandler {pc : Pc} (h : pc.inHandler = true) : pc.locked = true := by
  cases pc <;> first | rfl | cases h

structure Stacks (m : Machine) : Prop where
  above : ∀ p k, m.height p ≤ k → m.frames (p, k) = Frame.idle
  below : ∀ p k, k + 1 < m.height p → (m.frames (p, k)).pc.inHandler = true
  owner : ∀ a, (m.frames a).pc.locked = true → m.transitionOwner = some a.1
  free : m.transitionOwner = none → m.transitionDepth = 0
  depth : ∀ p, m.transitionOwner = some p → ∃ k, m.height p = k + 1 ∧
    (((m.frames (p, k)).pc.locked = true ∧ m.transitionDepth = k + 1) ∨
      ((m.frames (p, k)).pc.locked = false ∧ m.transitionDepth = k ∧ 0 < k))

variable {h : Handlers} {m m' m₁ : Machine} {p q : TaskId} {k : Nat} {pc : Pc} {e : Option Event} {a : Action}

theorem Stacks.lt_height (hs : Stacks m) (hpc : (m.frames (p, k)).pc ≠ .idle) : k < m.height p := by
  by_contra hk
  rw [hs.above p k (Nat.le_of_not_lt hk)] at hpc
  exact hpc rfl

/-- A call that is inside the locked section and in no handler is the only such call. -/
theorem Stacks.only {b : TaskId × Nat} (hs : Stacks m) (hk : m.height p = k + 1)
    (hl : (m.frames (p, k)).pc.locked = true) (hb : (m.frames b).pc.locked = true)
    (hn : (m.frames b).pc.inHandler = false) : b = (p, k) := by
  obtain ⟨q, j⟩ := b
  have hp := hs.owner _ hl
  have hq := hs.owner _ hb
  simp only at hp hq
  rw [hp] at hq
  cases hq
  have hj : j < m.height p := hs.lt_height (fun hi => by rw [hi] at hb; cases hb)
  rcases Nat.lt_or_ge (j + 1) (m.height p) with hlt | hge
  · rw [hs.below p j hlt] at hn
    cases hn
  · congr
    omega

/-- A step that leaves a call inside the locked section. -/
theorem Stacks.moved (hs : Stacks m) (hk : m.height p = k + 1) (hl : (m.frames (p, k)).pc.locked = true)
    (hpc : pc.locked = true) (hf : m₁.frames = m.frames) (hh : m₁.height = m.height)
    (ho : m₁.transitionOwner = m.transitionOwner) (hd : m₁.transitionDepth = m.transitionDepth) :
    Stacks (m₁.setPc (p, k) pc) where
  above q j hj := by
    rw [Machine.setPc_height, hh] at hj
    rw [Machine.setPc_frames, hf, if_neg]
    · exact hs.above q j hj
    · rintro ⟨⟩
      omega
  below q j hj := by
    rw [Machine.setPc_height, hh] at hj
    rw [Machine.setPc_frames, hf, if_neg]
    · exact hs.below q j hj
    · rintro ⟨⟩
      omega
  owner a ha := by
    rw [Machine.setPc_frames, hf] at ha
    show m₁.transitionOwner = some a.1
    rw [ho]
    split at ha
    · rename_i hap
      rw [hap]
      exact hs.owner _ hl
    · exact hs.owner a ha
  free := by
    show m₁.transitionOwner = none → m₁.transitionDepth = 0
    rw [ho, hd]
    exact hs.free
  depth q hq := by
    have hown : m.transitionOwner = some q := ho.symm.trans hq
    obtain rfl : q = p := by
      have := hs.owner _ hl
      rw [hown] at this
      exact Option.some.inj this
    obtain ⟨j, hj, hdepth⟩ := hs.depth q hown
    obtain rfl : j = k := by omega
    refine ⟨j, by rw [Machine.setPc_height, hh]; exact hj, ?_⟩
    simp only [Machine.setPc_frames, if_true, hpc, Bool.true_eq_false, false_and, or_false, true_and]
    show m₁.transitionDepth = j + 1
    rw [hd]
    rcases hdepth with ⟨-, hdepth⟩ | ⟨hfalse, -⟩
    · exact hdepth
    · rw [hl] at hfalse
      cases hfalse

theorem Stacks.called (hs : Stacks m) (hin : m.inHandler p = true) (expected : Option ThreadState)
    (newState : ThreadState) : Stacks (m.push p expected newState) where
  above q j hj := by
    rw [Machine.push_height] at hj
    rw [Machine.push_frames, if_neg]
    · refine hs.above q j ?_
      split at hj
      · rename_i hq; subst hq; omega
      · exact hj
    · rintro ⟨⟩
      rw [if_pos rfl] at hj
      omega
  below q j hj := by
    rw [Machine.push_height] at hj
    by_cases hq : q = p
    · subst hq
      rw [if_pos rfl] at hj
      rw [Machine.push_frames, if_neg (by rintro ⟨⟩; omega)]
      rcases Nat.lt_or_ge (j + 1) (m.height q) with hlt | hge
      · exact hs.below q j hlt
      · obtain ⟨k, hk⟩ : ∃ k, m.height q = k + 1 := ⟨m.height q - 1, by omega⟩
        obtain rfl : j = k := by omega
        simp only [Machine.inHandler, hk] at hin
        unfold Pc.inHandler
        split at hin <;> simp_all
    · rw [if_neg hq] at hj
      rw [Machine.push_frames, if_neg (by rintro ⟨⟩; exact hq rfl)]
      exact hs.below q j hj
  owner a ha := by
    rw [Machine.push_frames] at ha
    split at ha
    · cases ha
    · exact hs.owner a ha
  free := hs.free
  depth q hq := by
    obtain ⟨j, hj, hdepth⟩ := hs.depth q hq
    by_cases hqp : q = p
    · subst hqp
      have hlocked : (m.frames (q, j)).pc.locked = true := by
        simp only [Machine.inHandler, hj] at hin
        split at hin
        · rename_i hpc; rw [hpc]; rfl
        · cases hin
      refine ⟨j + 1, by rw [Machine.push_height, if_pos rfl, hj], .inr ?_⟩
      rw [Machine.push_frames, if_pos (by rw [hj])]
      rcases hdepth with ⟨-, hdepth⟩ | ⟨hfalse, -⟩
      · exact ⟨rfl, hdepth, Nat.succ_pos j⟩
      · rw [hlocked] at hfalse
        cases hfalse
    · refine ⟨j, by rw [Machine.push_height, if_neg hqp, hj], ?_⟩
      rw [Machine.push_frames, if_neg (by rintro ⟨⟩; exact hqp rfl)]
      exact hdepth

theorem Stacks.took (hs : Stacks m) (hk : m.height p = k + 1) (hpc : (m.frames (p, k)).pc = .lock)
    (hfree : m.transitionOwner = none ∨ m.transitionOwner = some p) :
    Stacks ({ m with transitionOwner := some p, transitionDepth := m.transitionDepth + 1 }.setPc (p, k) .check) where
  above q j hj := by
    rw [Machine.setPc_frames, if_neg]
    · exact hs.above q j hj
    · rintro ⟨⟩
      simp only [Machine.setPc_height] at hj
      omega
  below q j hj := by
    rw [Machine.setPc_frames, if_neg]
    · exact hs.below q j hj
    · rintro ⟨⟩
      simp only [Machine.setPc_height] at hj
      omega
  owner a ha := by
    rw [Machine.setPc_frames] at ha
    show some p = some a.1
    split at ha
    · rename_i hap
      rw [hap]
    · have := hs.owner a ha
      rcases hfree with hnone | hsome
      · rw [hnone] at this
        cases this
      · exact hsome.symm.trans this
  free := nofun
  depth q hq := by
    cases hq
    refine ⟨k, hk, .inl ⟨by simp [Machine.setPc_frames, Pc.locked], ?_⟩⟩
    show m.transitionDepth + 1 = k + 1
    rcases hfree with hnone | hsome
    · have hzero := hs.free hnone
      -- A call below would hold the lock.
      cases k with
      | zero => omega
      | succ k =>
        have := hs.owner _ (Pc.locked_of_inHandler (hs.below p k (by omega)))
        rw [hnone] at this
        cases this
    · obtain ⟨j, hj, hdepth⟩ := hs.depth p hsome
      obtain rfl : j = k := by omega
      rcases hdepth with ⟨hl, -⟩ | ⟨-, hdepth, -⟩
      · rw [hpc] at hl
        cases hl
      · omega

theorem Stacks.popped {throws : Bool} (hs : Stacks m) (hk : m.height p = k + 1)
    (hpc : (m.frames (p, k)).pc = .unlock throws) :
    Stacks ({ m with transitionDepth := m.transitionDepth - 1
                     transitionOwner := if m.transitionDepth - 1 = 0 then none else some p }.pop p k) := by
  have hl : (m.frames (p, k)).pc.locked = true := by rw [hpc]; rfl
  have hown := hs.owner _ hl
  have hdepth : m.transitionDepth = k + 1 := by
    obtain ⟨j, hj, hdepth⟩ := hs.depth p hown
    obtain rfl : j = k := by omega
    rcases hdepth with ⟨-, hdepth⟩ | ⟨hfalse, -⟩
    · exact hdepth
    · rw [hl] at hfalse
      cases hfalse
  refine ⟨fun q j hj => ?_, fun q j hj => ?_, fun a ha => ?_, fun hnone => ?_, fun q hq => ?_⟩
  · rw [Machine.pop_height] at hj
    rw [Machine.pop_frames]
    split
    · rfl
    · rename_i hne
      refine hs.above q j ?_
      split at hj
      · rename_i hqp
        subst hqp
        have : j ≠ k := fun he => hne (by rw [he])
        omega
      · exact hj
  · rw [Machine.pop_height] at hj
    have hlt : j + 1 < m.height q := by
      split at hj
      · rename_i hqp
        subst hqp
        omega
      · exact hj
    rw [Machine.pop_frames, if_neg]
    · exact hs.below q j hlt
    · rintro ⟨⟩
      omega
  · rw [Machine.pop_frames] at ha
    split at ha
    · cases ha
    · rename_i hne
      show (if m.transitionDepth - 1 = 0 then none else some p) = some a.1
      have hap := hs.owner a ha
      rw [hown] at hap
      obtain ⟨q, j⟩ := a
      cases hap
      have hj : j < m.height p := hs.lt_height (fun hi => by rw [hi] at ha; cases ha)
      have : j ≠ k := fun he => hne (by rw [he])
      rw [if_neg (by omega)]
  · have hnone : (if m.transitionDepth - 1 = 0 then none else some p) = none := hnone
    split at hnone
    · assumption
    · cases hnone
  · have hq : (if m.transitionDepth - 1 = 0 then none else some p) = some q := hq
    split at hq
    · cases hq
    · cases hq
      cases k with
      | zero => omega
      | succ k =>
        refine ⟨k, by rw [Machine.pop_height, if_pos rfl], .inl ⟨?_, ?_⟩⟩
        · rw [Machine.pop_frames, if_neg (by rintro ⟨⟩)]
          exact Pc.locked_of_inHandler (hs.below p k (by omega))
        · show m.transitionDepth - 1 = k + 1
          omega

theorem Stacks.step (hs : Stacks m) (hm : Moved h m a m' e) : Stacks m' := by
  cases hm with
  | call p expected newState hin => exact hs.called hin expected newState
  | initializing => exact ⟨hs.above, hs.below, hs.owner, hs.free, hs.depth⟩
  | locked p k ok hk hpc hfree => exact hs.took hk hpc hfree
  | stored p k ok hk hpc => exact hs.moved hk (by rw [hpc]; rfl) rfl rfl rfl rfl rfl
  | superseded p k ok d handler rest hk hpc => exact hs.moved hk (by rw [hpc]; rfl) rfl rfl rfl rfl rfl
  | chosen p k ok d handler rest hk hpc => exact hs.moved hk (by rw [hpc]; rfl) rfl rfl rfl rfl rfl
  | started p k ok handler d hk hpc => exact hs.moved hk (by rw [hpc]; rfl) rfl rfl rfl rfl rfl
  | returned p k ok handler d failed hk hpc => exact hs.moved hk (by rw [hpc]; rfl) rfl rfl rfl rfl rfl
  | ending p k ok pc hk hpc hto =>
    refine hs.moved hk ?_ ?_ rfl rfl rfl rfl
    · rcases hpc with ⟨d, hpc, -⟩ | hpc | hpc | hpc <;> rw [hpc] <;> rfl
    · rcases hto with rfl | rfl | ⟨throws, rfl⟩ <;> rfl
  | unlocked p k ok throws hk hpc => exact hs.popped hk hpc

theorem stacks_start : Stacks .start where
  above _ _ _ := rfl
  below _ _ hj := absurd hj (Nat.not_lt_zero _)
  owner _ ha := nomatch ha
  free _ := rfl
  depth _ hq := nomatch hq

/-- The calls of every run nest. -/
theorem stacks_reachable {C : Machine × List Event → Action → Prop} {x : Machine × List Event}
    (hx : (system h).ReachableWhen C x) : Stacks x.1 := by
  refine hx.invariant (I := fun x => Stacks x.1) (fun x hx => ?_) fun x a y hi _ hs => ?_
  · rw [hx.1]
    exact stacks_start
  · exact hi.step (step_moved (System.logged_step.1 hs).1)

end ESPressio.Dispatch
