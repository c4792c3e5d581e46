import ESPressioThreads.Lifecycle.Lock
/-!
# Shutdown from a lifecycle callback

A callback runs inside the transition lock. If it calls `Shutdown` on a task
that must wait for the worker, the worker can not make its last transition and
never exits. Nothing else holds the lock while it waits for the exit.
-/

namespace ESPressio.Lifecycle

open Transition ESPressio.Thread

variable {w w' : World} {s s' : Shared} {p : TaskId} {ok : Bool}

/-- The task waits in `_taskExited->Wait()`. -/
def World.Waits (w : World) (p : TaskId) : Prop :=
  ∃ n, w.depth p = n + 1 ∧ (w.frames (p, n)).pc = .shutdown .waitExited ∧ (w.frames (p, n)).transition = none

/-- The worker has not got the lock for its transition to `Terminated` yet. -/
def Frame.BeforeExitLock (f : Frame) : Prop :=
  match f.pc, f.transition with
  | .worker _ .waitGate, _ | .worker _ .loop, _ | .worker _ .onLoop, _ | .worker _ .onExecutionFailed, _
  | .worker _ .notifyExecutionFailed, _ | .worker _ (.terminate _), _ | .worker _ .beginFinalization, _
  | .worker _ .setTerminated, none => True
  | .worker _ .setTerminated, some tr => tr.pc = .lock
  | _, _ => False

/-- A task holds the transition lock and waits for the exit of a worker that
needs the lock to exit. -/
def World.WaitCycle (w : World) : Prop :=
  ∃ p g, w.shared.transitionOwner = some p ∧ w.Waits p ∧ w.shared.taskExited = false ∧
    w.runnable (.worker g) = true ∧ (w.frames (.worker g, 0)).BeforeExitLock

/-- `Shutdown` is about to take the branch that waits. -/
def Pc.entersWait (s : Shared) (p : TaskId) : Pc → Bool
  | .shutdown (.loadInProgress (some g)) => !s.initializationInProgress && p ≠ .worker g
  | .shutdown (.loadInitializing (some g)) => s.initializingTask ≠ some p && p ≠ .worker g
  | _ => false

/-- `Shutdown` takes its waiting branch on a task that does not hold the
transition lock. -/
def WaitsUnlocked (w : World) : Action → Prop
  | .call _ _ => True
  | .step p _ =>
    match w.depth p with
    | 0 => True
    | n + 1 => (w.frames (p, n)).pc.entersWait w.shared p = true → w.shared.transitionOwner ≠ some p

/-- `Shutdown` is in its waiting branch. -/
def Pc.InWait : Pc → Prop
  | .shutdown (.terminate .wait _) | .shutdown .waitExited => True
  | _ => False

/-! ## The waiting branch is entered once -/

theorem inWait_terminate (branch : ShutdownBranch) (t : TerminatePc) :
    (Pc.shutdown (.terminate branch t)).InWait ↔ branch = .wait := by
  cases branch <;> simp [Pc.InWait]

theorem inWait_resume {pc pc' : Pc} {stored threw : Bool} (h : pc.resume s stored threw = .goto pc')
    (hw : pc'.InWait) : pc.InWait := by
  cases resume_goto h with
  | shutdown t t' ht =>
    cases t with
    | terminate branch t =>
      simp only [ShutdownPc.resume] at ht
      obtain ⟨y, -, rfl⟩ | ⟨threw', -, hr⟩ := Next.inside_goto ht
      · rwa [inWait_terminate] at hw ⊢
      · unfold ShutdownBranch.after at hr
        split at hr
        · cases hr
        · cases branch <;> cases hr
          · exact hw
          · trivial
    | _ =>
      simp only [ShutdownPc.resume] at ht
      split at ht <;> cases ht
      exact hw.elim
  | terminate | initializeThread | start | worker | cleanUp => exact hw.elim

theorem inWait_choose {p : TaskId} {handle : Option Gen} (hw : (Pc.shutdown (ShutdownPc.choose p handle)).InWait) :
    ∃ g, handle = some g ∧ p ≠ .worker g := by
  cases handle with
  | none => exact hw.elim
  | some g =>
    refine ⟨g, rfl, fun hp => ?_⟩
    simp [ShutdownPc.choose, hp, Pc.InWait] at hw

theorem inWait_exec {pc pc' : Pc} (h : exec s p pc ok = some (s', .goto pc')) (hw : pc'.InWait) :
    pc.InWait ∨ pc.entersWait s p = true := by
  cases exec_goto h with
  | shutdown t t' ht =>
    cases t <;> simp only [execShutdown] at ht
    case terminate branch t =>
      simp only [Option.some.injEq, Prod.mk.injEq] at ht
      obtain ⟨-, ht⟩ := ht
      obtain ⟨y, -, rfl⟩ | ⟨threw', -, hr⟩ := Next.inside_goto ht
      · exact .inl (by rwa [inWait_terminate] at hw ⊢)
      · unfold ShutdownBranch.after at hr
        split at hr
        · cases hr
        · cases branch <;> cases hr
          · exact hw.elim
          · exact .inl trivial
    case loadInProgress handle =>
      cases ht
      split at hw
      · exact hw.elim
      · rename_i hn
        obtain ⟨g, rfl, hp⟩ := inWait_choose hw
        exact .inr (by simp [Pc.entersWait, hn, hp])
    case loadInitializing handle =>
      cases ht
      split at hw
      · exact hw.elim
      · rename_i hn
        obtain ⟨g, rfl, hp⟩ := inWait_choose hw
        exact .inr (by simp [Pc.entersWait, hn, hp])
    case waitExited => exact .inl trivial
    all_goals first
      | (cases ht; done)
      | (cases ht; exact hw.elim)
      | (cases ht; split at hw; exact hw.elim; exact hw.elim)
      | (split at ht <;> cases ht; exact hw.elim)
  | setFreeOnTerminate | terminate | initializeThread | start | worker | dispatcher | cleanUp => exact hw.elim

/-- A call that is in the waiting branch after a step was in it, or entered it
by the step. -/
theorem inWait_frame {f f' : Frame} (h : FrameStep s p f ok s' (some f')) (hw : f'.pc.InWait) :
    f.pc.InWait ∨ f.pc.entersWait s p = true := by
  cases h.goto with
  | inTransition tr tr' s' htr hst => exact .inl hw
  | transitionDone tr s' stored threw pc htr hst hn =>
    exact .inl (inWait_resume hn hw)
  | transitionStart expected newState htr hpc => exact .inl hw
  | exec s' pc htr hpc hex =>
    exact inWait_exec hex hw

/-! ## Runs -/

/-- Under a call in the waiting branch no call of its task holds the lock. -/
def WaitInv (w : World) : Prop :=
  ∀ p n, n < w.depth p → (w.frames (p, n)).pc.InWait → ∀ m, m < n → (w.frames (p, m)).holds = false

theorem WaitInv.step {a : Action} (h : WaitInv w) (hl : LockInv w) (hc : WaitsUnlocked w a)
    (hs : step w a = some w') : WaitInv w' := by
  cases a with
  | call p request =>
    obtain ⟨-, -, rfl⟩ := step_push hs
    intro q n hn hw m hm
    rw [World.push_frames] at hw ⊢
    rw [World.push_depth] at hn
    split at hw
    · cases request <;> exact hw.elim
    · rename_i hne
      have hnd : n < w.depth q := by
        split at hn
        · rename_i hq
          subst hq
          have : n ≠ w.depth q := fun he => hne (by rw [he])
          omega
        · exact hn
      have hmd : (q, m) ≠ (p, w.depth p) := by
        rintro ⟨⟩
        omega
      rw [if_neg hmd]
      exact h q n hnd hw m hm
  | step p ok =>
    -- The frames under the one that stepped are the old ones.
    have hkeep : ∀ {x : World} {n₀ : Nat} {f : Frame}, w.depth p = n₀ + 1 → x.frames = w.frames →
        (∀ q, x.depth q ≤ w.depth q) → (f.pc.InWait → ∀ m, m < n₀ → (w.frames (p, m)).holds = false) →
        WaitInv (x.setFrame (p, n₀) f) := by
      intro x n₀ f hd hx hle hf q n hn hw m hm
      have hn' : n < w.depth q := Nat.lt_of_lt_of_le hn (hle q)
      rw [World.setFrame_frames] at hw ⊢
      have hmne : (q, m) ≠ (p, n₀) := by
        rintro ⟨⟩
        omega
      rw [if_neg hmne, hx]
      split at hw
      · rename_i he
        cases he
        exact hf hw m hm
      · rw [hx] at hw
        exact h q n hn' hw m hm
    cases (step_moves hs).2 with
    | stay n s f hd hf =>
      refine hkeep hd rfl (fun _ => Nat.le_refl _) fun hw m hm => ?_
      rcases inWait_frame (stepFrame_cases hf) hw with hold | henter
      · exact h p n (by omega) hold m hm
      · have hown : w.shared.transitionOwner ≠ some p := by
          simp only [WaitsUnlocked, hd] at hc
          exact hc henter
        by_contra hne
        have hmem : m ∈ w.held p := (World.mem_held m).2 ⟨by omega, by simpa using hne⟩
        rw [hl.others p hown] at hmem
        cases hmem
    | ret n s hd hf =>
      refine hkeep hd rfl (fun q => ?_) False.elim
      by_cases hq : q = p
      · subst hq; simp [hd]
      · simp [hq]

theorem waitInv_start (s : Shared) : WaitInv (.start s) := by
  intro p n _ hw
  simp only [World.start] at hw
  split at hw <;> exact hw.elim

/-- No task waits for a worker's exit with the lock that the worker needs. -/
theorem no_wait_cycle (managed : Bool) (w : World) (h : (system managed).ReachableWhen WaitsUnlocked w) :
    ¬ w.WaitCycle := by
  have hl := lockInv_reachable h
  have hw : WaitInv w := by
    refine h.invariant_with (I := WaitInv) (J := LockInv) (fun _ => lockInv_reachable) (fun w hw => ?_)
      fun w a w' hl _ hi hc hs => hi.step hl hc hs
    obtain ⟨free, start, precision, rfl⟩ := hw
    exact waitInv_start _
  rintro ⟨p, g, hown, ⟨n, hd, hpc, htr⟩, -, -, -⟩
  have hempty : w.held p = ∅ := by
    ext m
    simp only [World.mem_held, Finset.notMem_empty, iff_false, not_and, Bool.not_eq_true]
    intro hm
    rcases Nat.lt_or_eq_of_le (Nat.le_of_lt_succ (hd ▸ hm)) with hlt | rfl
    · exact hw p n (by omega) (by rw [hpc]; trivial) m hlt
    · exact Frame.holds_of_none htr
  have hdepth := hl.owner p hown
  rw [hempty, Finset.card_empty] at hdepth
  rw [hl.free.2 hdepth.symm] at hown
  cases hown

/-! ## A callback that shuts its thread down -/

instance (w : World) (a : Action) : Decidable (WaitsUnlocked w a) := by
  unfold WaitsUnlocked
  cases a with
  | call => exact inferInstance
  | step p ok => dsimp only; split <;> exact inferInstance

/-- A task without the lock shuts the running thread down and waits. -/
theorem shutdown_waits : ∃ w, (system false).ReachableWhen WaitsUnlocked w ∧ w.Waits (.app 0) ∧ ¬ w.WaitCycle := by
  have hrun : ((system false).replayWhen WaitsUnlocked (newThread false false)
      (initialized ++ [.call (.app 0) .shutdown] ++ steps (.app 0) 13)).map
      (fun w => (w.depth (.app 0), w.frames (.app 0, 0))) =
      some (1, ⟨.shutdown .waitExited, none, false⟩) := by
    decide
  obtain ⟨w, hs, hp⟩ := Option.map_eq_some_iff.1 hrun
  simp only [Prod.mk.injEq] at hp
  have hr := Transition.System.reachableWhen_of_replayWhen (newThread_init false false) hs
  exact ⟨w, hr, ⟨0, hp.1, by simp [hp.2]⟩, no_wait_cycle false w hr⟩

/-- The callback of the transition to `Terminating` calls `Shutdown`, and the
worker waits for the lock with which it would leave `Terminating`. -/
theorem shutdown_in_callback : ¬ ∀ w, (system false).Reachable w → ¬ w.WaitCycle := by
  intro hall
  have hrun : ((system false).replay (newThread false false) (initialized ++ [.call (.app 0) .terminate] ++
      steps (.app 0) 4 ++ [.call (.app 0) .shutdown] ++ steps (.app 0) 6 ++ steps (.worker 0) 4)).map
      (fun w => (w.shared.transitionOwner, w.shared.taskExited, w.runnable (.worker 0), w.depth (.app 0),
        w.frames (.app 0, 1), w.frames (.worker 0, 0))) =
      some (some (.app 0), false, true, 2, ⟨.shutdown .waitExited, none, false⟩,
        ⟨.worker 0 .setTerminated, some (.start (some .terminating) .terminated), false⟩) := by
    decide
  obtain ⟨w, hs, hp⟩ := Option.map_eq_some_iff.1 hrun
  simp only [Prod.mk.injEq] at hp
  obtain ⟨hown, hexited, hruns, hdepth, hframe, hworker⟩ := hp
  refine hall w (Transition.System.reachable_of_replay (newThread_init false false) hs) ?_
  refine ⟨.app 0, 0, hown, ⟨1, hdepth, by simp [hframe]⟩, hexited, hruns, ?_⟩
  rw [hworker]
  exact rfl

end ESPressio.Lifecycle
