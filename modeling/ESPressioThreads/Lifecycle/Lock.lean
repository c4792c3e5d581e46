import Mathlib.Data.Finset.Card
import ESPressioThreads.Lifecycle.Steps
/-!
# The transition lock

`_stateTransitionMutex` is recursive: its depth is the number of calls on the
owner's stack that are inside a transition, and no other task has one.
-/

namespace ESPressio.Lifecycle

open Transition ESPressio.Thread

/-- The call is inside its transition's locked section. -/
def Frame.holds (f : Frame) : Bool :=
  match f.transition with
  | some tr => tr.pc ≠ .lock
  | none => false

/-- The calls of `p` that hold the lock. -/
def World.held (w : World) (p : TaskId) : Finset Nat :=
  (Finset.range (w.depth p)).filter fun n => (w.frames (p, n)).holds = true

structure LockInv (w : World) : Prop where
  owner : ∀ p, w.shared.transitionOwner = some p → (w.held p).card = w.shared.transitionDepth
  others : ∀ p, w.shared.transitionOwner ≠ some p → w.held p = ∅
  free : w.shared.transitionOwner = none ↔ w.shared.transitionDepth = 0

/-! ## The lock in one step -/

/-- The owner and the depth of the lock. -/
def Shared.lock (s : Shared) : Option TaskId × Nat := (s.transitionOwner, s.transitionDepth)

variable {s s' : Shared} {p : TaskId} {ok : Bool}

theorem execCleanUp_lock {pc : CleanUpPc} {next : Next CleanUpPc} (h : execCleanUp s p pc ok = some (s', next)) :
    s'.lock = s.lock := by
  cases pc <;> simp only [execCleanUp] at h
  case releaseClaim => cases h; exact congrArg Prod.fst (Shared.aside_exchangeClaim s _ _)
  case deleteTask => cases h; exact congrArg Prod.fst (Shared.aside_kill s _)
  all_goals first
    | (cases h; rfl)
    | (split at h <;> cases h <;> rfl)
    | cases h

theorem exec_lock {pc : Pc} {next : Next Pc} (h : exec s p pc ok = some (s', next)) : s'.lock = s.lock := by
  rcases exec_aside h with ⟨-, ha⟩ | ⟨t, n, -, -, hc⟩
  · exact congrArg Prod.fst ha
  · exact execCleanUp_lock hc

/-- A transition takes the lock at its start and keeps it. -/
theorem stepTransition_lock {tr tr' : StateTransition} (h : stepTransition s p tr ok = some (s', .goto tr')) :
    tr'.pc ≠ .lock ∧
      ((tr.pc = .lock ∧ (s.transitionOwner = none ∨ s.transitionOwner = some p) ∧
          s'.lock = (some p, s.transitionDepth + 1)) ∨
        (tr.pc ≠ .lock ∧ s'.lock = s.lock)) := by
  unfold stepTransition at h
  split at h <;> rename_i hpc
  · split at h <;> cases h
    rename_i ho
    refine ⟨by simp, .inl ⟨hpc, ho, rfl⟩⟩
  · split at h <;> cases h
    · exact ⟨by simp, .inr ⟨by simp [hpc], rfl⟩⟩
    · exact ⟨by simp, .inr ⟨by simp [hpc], rfl⟩⟩
  · cases h; exact ⟨by simp, .inr ⟨by simp [hpc], rfl⟩⟩
  · cases h; exact ⟨by dsimp only; split <;> simp, .inr ⟨by simp [hpc], rfl⟩⟩
  · cases h; exact ⟨by simp, .inr ⟨by simp [hpc], rfl⟩⟩
  · cases h; exact ⟨by dsimp only; split <;> simp, .inr ⟨by simp [hpc], rfl⟩⟩
  · cases h; exact ⟨by dsimp only; split <;> simp, .inr ⟨by simp [hpc], rfl⟩⟩
  · cases h; exact ⟨by simp, .inr ⟨by simp [hpc], rfl⟩⟩
  · cases h

/-- A transition that is done releases the lock once. -/
theorem stepTransition_done {tr : StateTransition} {stored threw : Bool}
    (h : stepTransition s p tr ok = some (s', .done stored threw)) :
    tr.pc = .unlock ∧ s'.lock = (if s.transitionDepth - 1 = 0 then none else some p, s.transitionDepth - 1) := by
  have hpc := stepTransition_unlock h
  simp only [stepTransition, hpc] at h
  cases h
  exact ⟨hpc, rfl⟩

/-! ## The invariant -/

theorem Frame.holds_of_none {f : Frame} (h : f.transition = none) : f.holds = false := by
  simp [Frame.holds, h]

theorem Frame.holds_of_some {f : Frame} {tr : StateTransition} (h : f.transition = some tr) :
    f.holds = decide (tr.pc ≠ .lock) := by
  simp [Frame.holds, h]

/-- Whether the call that stepped still holds the lock. -/
def heldAfter : Option Frame → Bool
  | some f => f.holds
  | none => false

variable {w w' : World}

theorem World.mem_held (n : Nat) : n ∈ w.held p ↔ n < w.depth p ∧ (w.frames (p, n)).holds = true := by
  simp [World.held]

/-- What a step does to the calls that hold the lock. -/
theorem Moves.held (h : Moves w p ok w') : ∃ n f, w.depth p = n + 1 ∧
    stepFrame w.shared p (w.frames (p, n)) ok = some (w'.shared, f) ∧
    (∀ q, q ≠ p → w'.held q = w.held q) ∧
    w'.held p = if heldAfter f then insert n (w.held p) else (w.held p).erase n := by
  have hother : ∀ {x : World} {n : Nat} {f : Frame} (q : TaskId), q ≠ p → x.depth q = w.depth q →
      x.frames = w.frames → (x.setFrame (p, n) f).held q = w.held q := by
    intro x n f q hq hd hf
    ext m
    simp [World.mem_held, World.setFrame_frames, hq, hd, hf]
  cases h with
  | stay n s f hd hs =>
    refine ⟨n, some f, hd, hs, fun q hq => hother q hq rfl rfl, ?_⟩
    ext m
    by_cases hm : m = n
    · subst hm
      cases hf : f.holds <;> simp [World.mem_held, World.setFrame_frames, heldAfter, hd, hf]
    · cases hf : f.holds <;> simp [World.mem_held, World.setFrame_frames, heldAfter, hm, hf]
  | ret n s hd hs =>
    refine ⟨n, none, hd, hs, fun q hq => hother q hq (by simp [hq]) rfl, ?_⟩
    ext m
    have : m < n ↔ m ≠ n ∧ m < n + 1 := by omega
    by_cases hm : m = n
    · simp [World.mem_held, heldAfter, hm]
    · simp [World.mem_held, World.setFrame_frames, heldAfter, hm, hd, this]

theorem World.push_held (request : Request) (q : TaskId) : (w.push p request).held q = w.held q := by
  ext m
  simp only [World.mem_held, World.push_depth, World.push_frames, Prod.mk.injEq]
  by_cases hq : q = p
  · subst hq
    by_cases hm : m = w.depth q
    · simp [hm, Frame.holds]
    · have : m < w.depth q + 1 ↔ m < w.depth q := by omega
      simp [hm, this]
  · simp [hq]

/-- Neither the lock nor the calls that hold it changed. -/
theorem LockInv.kept (h : LockInv w) (hl : w'.shared.lock = w.shared.lock) (hheld : ∀ q, w'.held q = w.held q) :
    LockInv w' := by
  simp only [Shared.lock, Prod.mk.injEq] at hl
  constructor
  · intro q hq
    rw [hheld, hl.2]
    exact h.owner q (hl.1 ▸ hq)
  · intro q hq
    rw [hheld]
    exact h.others q (hl.1 ▸ hq)
  · rw [hl.1, hl.2]
    exact h.free

/-- A call of `p` took the lock, which was free or already `p`'s. -/
theorem LockInv.taken {n : Nat} (h : LockInv w)
    (ho : w.shared.transitionOwner = none ∨ w.shared.transitionOwner = some p)
    (hl : w'.shared.lock = (some p, w.shared.transitionDepth + 1)) (hn : n ∉ w.held p)
    (hp : w'.held p = insert n (w.held p)) (hothers : ∀ q, q ≠ p → w'.held q = w.held q) : LockInv w' := by
  simp only [Shared.lock, Prod.mk.injEq] at hl
  have hcard : (w.held p).card = w.shared.transitionDepth := by
    rcases ho with ho | ho
    · rw [h.others p (by simp [ho]), h.free.1 ho]; rfl
    · exact h.owner p ho
  constructor
  · intro q hq
    rw [hl.1] at hq
    obtain rfl := Option.some.inj hq
    rw [hp, hl.2, Finset.card_insert_of_notMem hn, hcard]
  · intro q hq
    have hqp : q ≠ p := fun he => hq (by rw [hl.1, he])
    rw [hothers q hqp]
    refine h.others q ?_
    rcases ho with ho | ho <;> simp [ho, Ne.symm hqp]
  · simp [hl.1, hl.2]

/-- The task of a call that holds the lock owns it. -/
theorem LockInv.owner_of_mem {n : Nat} (h : LockInv w) (hn : n ∈ w.held p) : w.shared.transitionOwner = some p := by
  by_contra hne
  rw [h.others p hne] at hn
  cases hn

/-- A call of `p` released the lock: it is free when that was the last one. -/
theorem LockInv.released {n : Nat} (h : LockInv w) (hn : n ∈ w.held p)
    (hl : w'.shared.lock =
      (if w.shared.transitionDepth - 1 = 0 then none else some p, w.shared.transitionDepth - 1))
    (hp : w'.held p = (w.held p).erase n) (hothers : ∀ q, q ≠ p → w'.held q = w.held q) : LockInv w' := by
  simp only [Shared.lock, Prod.mk.injEq] at hl
  have hown := h.owner_of_mem hn
  have hcard : (w'.held p).card = w.shared.transitionDepth - 1 := by
    rw [hp, Finset.card_erase_of_mem hn, h.owner p hown]
  constructor
  · intro q hq
    rw [hl.1] at hq
    split at hq
    · cases hq
    · obtain rfl := Option.some.inj hq
      rw [hcard, hl.2]
  · intro q hq
    by_cases hqp : q = p
    · subst hqp
      rw [hl.1] at hq
      split at hq
      · rename_i hz
        rw [hz] at hcard
        exact Finset.card_eq_zero.1 hcard
      · exact absurd rfl hq
    · rw [hothers q hqp]
      exact h.others q (by simp [hown, Ne.symm hqp])
  · rw [hl.1, hl.2]
    split <;> simp_all

theorem LockInv.step {a : Action} (h : LockInv w) (hs : step w a = some w') : LockInv w' := by
  cases a with
  | call p request =>
    obtain ⟨-, -, rfl⟩ := step_push hs
    exact h.kept rfl (World.push_held request)
  | step p ok =>
    obtain ⟨n, f', hd, hf, hothers, hheld⟩ := (step_moves hs).2.held
    -- The lock did not move, and the call holds it as before.
    have hsame : w'.shared.lock = w.shared.lock → heldAfter f' = (w.frames (p, n)).holds → LockInv w' := by
      intro hl hh
      refine h.kept hl fun q => ?_
      by_cases hq : q = p
      · subst hq
        rw [hheld, hh]
        cases hb : (w.frames (q, n)).holds
        · exact Finset.erase_eq_of_notMem (by simp [World.mem_held, hb])
        · exact Finset.insert_eq_of_mem (by simp [World.mem_held, hb, hd])
      · exact hothers q hq
    have hcases := stepFrame_cases hf
    generalize hw : w'.shared = s' at hcases hsame
    cases hcases with
    | inTransition tr tr' s' htr hst =>
      obtain ⟨hpc', ⟨hpc, ho, hl⟩ | ⟨hpc, hl⟩⟩ := stepTransition_lock hst
      · have hnot : n ∉ w.held p := by simp [World.mem_held, Frame.holds_of_some htr, hpc]
        exact h.taken ho (hw ▸ hl) hnot (by simp [hheld, heldAfter, Frame.holds, hpc']) hothers
      · refine hsame hl ?_
        simp [heldAfter, Frame.holds, htr, hpc, hpc']
    | transitionDone tr s' stored threw htr hst =>
      obtain ⟨hpc, hl⟩ := stepTransition_done hst
      have hmem : n ∈ w.held p := by simp [World.mem_held, Frame.holds_of_some htr, hpc, hd]
      have hafter : heldAfter ((w.frames (p, n)).next ((w.frames (p, n)).pc.resume s' stored threw)) = false := by
        cases hn : (w.frames (p, n)).next ((w.frames (p, n)).pc.resume s' stored threw) with
        | none => rfl
        | some f => exact Frame.holds_of_none (Frame.next_transition hn)
      exact h.released hmem (hw ▸ hl) (by simp [hheld, hafter]) hothers
    | transitionStart expected newState htr hpc =>
      exact hsame rfl (by simp [heldAfter, Frame.holds, htr, StateTransition.start])
    | exec s' next htr hpc hex =>
      refine hsame (exec_lock hex) ?_
      rw [Frame.holds_of_none htr]
      cases hn : (w.frames (p, n)).next next with
      | none => rfl
      | some f => exact Frame.holds_of_none (Frame.next_transition hn)

variable {f : Frame}

/-- A call of the owner is in the locked section. -/
theorem LockInv.owner_call (h : LockInv w) (hown : w.shared.transitionOwner = some p) :
    ∃ n f, w.call (p, n) = some f ∧ f.holds = true := by
  have hdepth : w.shared.transitionDepth ≠ 0 := fun h0 => by
    rw [h.free.2 h0] at hown
    cases hown
  have hcard := h.owner p hown
  obtain ⟨n, hn⟩ := Finset.card_ne_zero.1 (hcard ▸ hdepth)
  obtain ⟨hlt, hh⟩ := (World.mem_held n).1 hn
  exact ⟨n, _, World.call_eq_some.2 ⟨hlt, rfl⟩, hh⟩

theorem LockInv.owner_of_holds {n : Nat} (h : LockInv w) (hf : w.call (p, n) = some f) (hh : f.holds = true) :
    w.shared.transitionOwner = some p := by
  obtain ⟨hlt, rfl⟩ := World.call_eq_some.1 hf
  exact h.owner_of_mem ((World.mem_held n).2 ⟨hlt, hh⟩)

theorem lockInv_start (s : Shared) (hs : s.transitionOwner = none) (hd : s.transitionDepth = 0) :
    LockInv (.start s) := by
  have hnone : ∀ p, (World.start s).held p = ∅ := by
    intro p
    ext n
    simp only [World.mem_held, Finset.notMem_empty, iff_false, not_and]
    intro _
    have : ((World.start s).frames (p, n)).transition = none := by
      simp only [World.start]
      split <;> rfl
    simp [Frame.holds_of_none this]
  exact ⟨fun p hp => by simp [World.start, hs] at hp, fun p _ => hnone p, by simp [World.start, hs, hd]⟩

/-- The invariant of the lock holds in every run. -/
theorem lockInv_reachable {managed : Bool} {C : World → Action → Prop}
    (h : (system managed).ReachableWhen C w) : LockInv w := by
  refine h.invariant (I := LockInv) (fun w hw => ?_) fun w a w' hi _ hs => hi.step hs
  obtain ⟨free, start, precision, rfl⟩ := hw
  exact lockInv_start _ rfl rfl

end ESPressio.Lifecycle
