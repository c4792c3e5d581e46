import ESPressioThreads.Lifecycle.Generations
/-!
# The worker of the current generation

`Fits` says which task may be alive. The other direction is here: the worker of
the current generation is created and not deleted, it waits at its gate until
the gate is opened, and it is suspended when its record was refused.
-/

namespace ESPressio.Lifecycle

open Transition ESPressio.Thread

variable {w w' : World} {s s' : Shared} {p : TaskId} {ok : Bool} {f : Frame}

/-! ## The protocol -/

/-- The worker that a stage still has, where `task` is the task handle. -/
def Stage.worker (task : Option Gen) : Stage → Option Gen
  | .made g | .live g | .gated g | .looping g | .lost g => some g
  | .failing _ task | .claimed _ task | .sending _ task | .unsent task | .deleting _ task => task
  | .queued _ | .dispatching _ => task
  | .quiet | .checked | .exitedReset | .gateReset | .ready | .failed _ | .delivering _ | .signalled _ => none

/-- The worker of the stage exists, and only workers that were created have
been deleted. -/
structure Registers.Alive (r : Registers) (st : Stage) : Prop where
  worker : ∀ g, st.worker r.taskHandle = some g → g < r.created ∧ g ∉ r.killed
  killed : ∀ g ∈ r.killed, g < r.created

/-- The stage's worker has not passed its gate. -/
def Stage.gatedWorker : Stage → Option Gen
  | .made g | .live g | .gated g => some g
  | _ => none

variable {l l' : Option Stage} {r r' : Registers} {st st' : Stage}

/-- Deleting the worker of a stage leaves none. -/
theorem Registers.Alive.kill {g : Gen} (h : r.Alive st) (hg : st.worker r.taskHandle = some g)
    (hnone : st'.worker r.taskHandle = none) : Registers.Alive { r with killed := g :: r.killed } st' := by
  refine ⟨fun x hx => absurd (hnone.symm.trans hx) nofun, fun x hx => ?_⟩
  rcases List.mem_cons.1 hx with rfl | hx
  · exact (h.worker x hg).1
  · exact h.killed x hx

/-- A step that creates and deletes nothing. -/
theorem Registers.Alive.keep (h : r.Alive st) (hc : r'.created = r.created) (hk : r'.killed = r.killed)
    (hw : ∀ g, st'.worker r'.taskHandle = some g → st.worker r.taskHandle = some g) : r'.Alive st' := by
  refine ⟨fun g hg => ?_, fun g hg => ?_⟩
  · rw [hc, hk]
    exact h.worker g (hw g hg)
  · rw [hc]
    exact h.killed g (hk ▸ hg)

theorem Move.alive (hm : Move l r l' r') (hp : Passes l st l' st') (hf : st.Fits r) (h : r.Alive st) :
    r'.Alive st' := by
  cases hp with
  | keep =>
    cases hm with
    | skip => exact h
    | waitExited => exact h.keep rfl rfl fun _ hg => hg
  | hold _ _ hr hr' =>
    cases hm with
    | skip => exact h
    | create r =>
      refine ⟨fun g hg => ?_, fun g hg => Nat.lt_succ_of_lt (h.killed g hg)⟩
      obtain rfl : r.created = g := Option.some.inj hg
      exact ⟨Nat.lt_succ_self _, fun hk => Nat.lt_irrefl _ (h.killed _ hk)⟩
    -- The task that is exchanged out is the worker itself.
    | fail g r =>
      refine h.keep rfl rfl fun x hx => ?_
      obtain rfl := Option.some.inj (hf.1.handle.symm.trans hx)
      rfl
    | killNone | deleteNone => exact h.keep rfl rfl nofun
    | kill g t r => exact h.kill rfl rfl
    | delete g t r => exact h.kill rfl rfl
    | resetExited | resetGate | resetFinalization | finalize | giveExited => exact h.keep rfl rfl nofun
    | publish | exit | storePending | sendFailed | exchange => exact h.keep rfl rfl fun _ hg => hg
  | check => cases hm with | check => exact h.keep rfl rfl nofun
  | createFailed => cases hm with | createFailed => exact h.keep rfl rfl nofun
  | giveGate g => cases hm with | giveGate => exact h.keep rfl rfl fun _ hg => hg
  | enter g => cases hm with | enter => exact h.keep rfl rfl fun _ hg => hg
  | send g task =>
    cases hm with
    | send => exact h.keep rfl rfl fun x hx => hf.2.1.handle.symm.trans hx
  | unsent => cases hm with | clearUnsent => exact h.keep rfl rfl nofun
  | lost g => cases hm with | clearUnsent => exact h.keep rfl rfl fun _ hg => hg
  | receive g => cases hm with | receive => exact h.keep rfl rfl fun _ hg => hg
  | dispatched g => cases hm with | clearPending => exact h.keep rfl rfl nofun

/-- A worker at its gate was there before, or is created by the step. -/
theorem Passes.gatedWorker {g : Gen} (hp : Passes l st l' st') (hm : Move l r l' r')
    (hg : st'.gatedWorker = some g) : st.gatedWorker = some g ∨ r.created = g := by
  cases hp with
  | keep => exact .inl hg
  | giveGate => exact .inl hg
  | hold =>
    cases hm with
    | create => exact .inr (Option.some.inj hg)
    | _ => first | exact .inl hg | cases hg
  | _ => cases hg

/-! ## The calls of `_taskEntry` -/

/-- Where the worker of a generation is in `_taskEntry`. -/
def World.entry (w : World) (g : Gen) : Option Pc := (w.call (.worker g, 0)).map (·.pc)

structure WorkersInv (w : World) (st : Stage) : Prop where
  alive : w.shared.registers.Alive st
  /-- A worker that was not created, or whose gate was not passed, has not run. -/
  gated : ∀ g, (w.shared.created ≤ g ∨ st.gatedWorker = some g) → w.entry g = some (.worker g .waitGate)
  lost : ∀ g, st = .lost g → w.entry g = some (.worker g .suspended)

variable {a : TaskId × Nat} {f' : Option Frame} {g : Gen}

/-- A worker that leaves its gate enters its loop. -/
theorem FrameStep.waitGate (h : FrameStep s p f ok s' f') (hok : f.Ok a) (hpc : f.pc = .worker g .waitGate) :
    stageAfter f' = some (.looping g) := by
  obtain ⟨next, hex, rfl⟩ := h.exec_of hok (by rw [hpc]; rfl)
  rw [hpc] at hex
  obtain ⟨⟨s₁, n⟩, hs, he⟩ := Option.map_eq_some_iff.1 hex
  cases he
  simp only [execWorker] at hs
  split at hs <;> cases hs
  rfl

/-- A suspended worker does nothing. -/
theorem FrameStep.not_suspended (h : FrameStep s p f ok s' f') (hok : f.Ok a) : f.pc ≠ .worker g .suspended := by
  intro hpc
  obtain ⟨next, hex, -⟩ := h.exec_of hok (by rw [hpc]; rfl)
  rw [hpc] at hex
  cases hex

theorem Pc.clearPending_of_stage {pc : Pc} (h : pc.stage = some (.unsent (some g))) : pc = .worker g .clearPending := by
  cases pc with
  | initializeThread t => cases t <;> cases h
  | start t =>
    cases t with
    | initializeThread t => cases t <;> cases h
    | _ => cases h
  | worker x t => cases t <;> cases h; rfl
  | dispatcher t => cases t <;> cases h
  | _ => cases h

/-- The worker whose record was refused is suspended. -/
theorem FrameStep.clearUnsent (h : FrameStep s p f ok s' f') (hok : f.Ok a)
    (hstage : f.pc.stage = some (.unsent (some g))) :
    a = (.worker g, 0) ∧ f'.map (·.pc) = some (.worker g .suspended) := by
  have hpc := Pc.clearPending_of_stage hstage
  obtain ⟨next, hex, rfl⟩ := h.exec_of hok (by rw [hpc]; rfl)
  rw [hpc] at hex
  cases hex
  exact ⟨hok.worker g _ hpc, rfl⟩

theorem WorkersInv.moved (h : WorkersInv w st) (hst : AtStage w st) (hm : Moved w p ok w' st st' a f f')
    (hok : f.Ok a) (hrun : w.runnable p = true) : WorkersInv w' st' := by
  have hentry : ∀ x, a ≠ (.worker x, 0) → w'.entry x = w.entry x := by
    intro x hx
    simp only [World.entry, hm.calls, Function.update_of_ne (Ne.symm hx)]
  refine ⟨hm.move.alive hm.passes hst.fits h.alive, fun g hg => ?_, fun g hg => ?_⟩
  · have hold : w.entry g = some (.worker g .waitGate) := by
      refine h.gated g ?_
      rcases hg with hg | hg
      · exact .inl (Nat.le_trans hm.move.created_le hg)
      · rcases hm.passes.gatedWorker hm.move hg with hg | hg
        · exact .inr hg
        · exact .inl (Nat.le_of_eq hg)
    by_cases ha : a = (.worker g, 0)
    · -- The worker itself stepped, and is in its loop.
      exfalso
      have hpc : f.pc = .worker g .waitGate := by
        have hcall := hm.call
        rw [ha] at hcall
        simpa [World.entry, hcall] using hold
      have hnext := hm.frame.waitGate hok hpc
      have hpass := hm.passes
      rw [hpc, hnext] at hpass
      cases hpass with
      | enter =>
        rcases hg with hg | hg
        · have hlt : g < w.shared.created := by
            have : p = .worker g := by rw [← hm.task, ha]
            rw [this] at hrun
            simp only [World.runnable, Bool.and_eq_true, decide_eq_true_eq] at hrun
            exact hrun.1
          exact absurd (Nat.le_trans hm.move.created_le hg) (Nat.not_le_of_lt hlt)
        · cases hg
    · rw [hentry g ha]
      exact hold
  · subst hg
    have hpass := hm.passes
    generalize hl : f.pc.stage = l at hpass
    generalize hl' : stageAfter f' = l' at hpass
    cases hpass with
    | keep =>
      have hold := h.lost g rfl
      by_cases ha : a = (.worker g, 0)
      · have hcall := hm.call
        rw [ha] at hcall
        exact absurd (by simpa [World.entry, hcall] using hold) (hm.frame.not_suspended hok)
      · rw [hentry g ha]
        exact hold
    | hold _ _ _ hr => cases hr
    | lost =>
      obtain ⟨rfl, hpc⟩ := hm.frame.clearUnsent hok hl
      simp only [World.entry, hm.calls, Function.update_self]
      exact hpc

theorem WorkersInv.pushed {request : Request} (h : WorkersInv w st) (hs : step w (.call p request) = some w') :
    WorkersInv w' st := by
  obtain ⟨hshared, -, a, -, ha, hcall⟩ := call_update hs
  have hentry : ∀ x y, w.entry x = some y → w'.entry x = some y := by
    intro x y hx
    have hne : (TaskId.worker x, 0) ≠ a := by
      rintro rfl
      rw [World.entry, ha] at hx
      cases hx
    rwa [World.entry, hcall, Function.update_of_ne hne]
  refine ⟨by rw [hshared]; exact h.alive, fun g hg => ?_, fun g hg => hentry g _ (h.lost g hg)⟩
  rw [hshared] at hg
  exact hentry g _ (h.gated g hg)

theorem workersInv_start (s : Shared) (hk : s.killed = []) : WorkersInv (.start s) .quiet := by
  refine ⟨⟨nofun, fun g hg => ?_⟩, fun g _ => rfl, nofun⟩
  have hg : g ∈ s.killed := hg
  rw [hk] at hg
  cases hg

/-- While the checks of `Initialize` hold, the stage says which worker there is. -/
theorem workersInv_reachable {C : World → Action → Prop} (hC : ∀ w a, C w a → ChecksHold w a)
    (h : (system false).ReachableWhen C w) : ∃ st, AtStage w st ∧ WorkersInv w st := by
  refine h.invariant_with (I := fun w => ∃ st, AtStage w st ∧ WorkersInv w st)
    (J := fun w => CallsOk w ∧ Unmanaged w) (fun _ hr => ⟨callsOk_reachable hr, unmanaged_reachable hr⟩)
    (fun w hw => ?_) ?_
  · obtain ⟨free, start, precision, rfl⟩ := hw
    exact ⟨.quiet, atStage_start _ ⟨rfl, rfl, rfl, rfl, fun g hg => absurd hg (Nat.not_lt_zero g)⟩,
      workersInv_start _ rfl⟩
  · rintro w a w' ⟨hok, hu⟩ - ⟨st, hst, hw⟩ hc hs
    cases a with
    | call p request => exact ⟨st, hst.pushed hs, hw.pushed hs⟩
    | step p ok =>
      obtain ⟨st', a, f, f', hm, hst'⟩ := hst.moved hok hu (hC _ _ hc) hs
      exact ⟨st', hst', hw.moved hst hm (hok a f hm.call) (step_moves hs).1⟩

/-! ## `_taskEntry` is not left -/

/-- Every worker is in `_taskEntry`, below whatever its user code calls. -/
def World.Enters (w : World) : Prop := ∀ g, ∃ f, w.call (.worker g, 0) = some f ∧ ∃ t, f.pc = .worker g t

theorem WorkerPc.exec_goto {t : WorkerPc} {next : Next WorkerPc} (h : execWorker s g t ok = some (s', next)) :
    ∃ t', next = .goto t' := by
  cases t <;> simp only [execWorker] at h
  case terminate u =>
    simp only [Option.some.injEq, Prod.mk.injEq] at h
    obtain ⟨-, rfl⟩ := h
    cases execTerminate s u <;> exact ⟨_, rfl⟩
  all_goals first
    | (cases h; exact ⟨_, rfl⟩)
    | (split at h <;> cases h <;> exact ⟨_, rfl⟩)
    | cases h

theorem WorkerPc.resume_goto {t : WorkerPc} {threw : Bool} : ∃ t', t.resume s threw = .goto t' := by
  cases t with
  | terminate u =>
    simp only [WorkerPc.resume]
    cases u.resume s threw <;> exact ⟨_, rfl⟩
  | _ => exact ⟨_, rfl⟩

theorem FrameStep.worker {t : WorkerPc} (h : FrameStep s p f ok s' f') (hpc : f.pc = .worker g t) :
    ∃ f₁, f' = some f₁ ∧ ∃ t', f₁.pc = .worker g t' := by
  cases h with
  | inTransition | transitionStart => exact ⟨_, rfl, t, hpc⟩
  | transitionDone tr s' stored threw htr hst =>
    obtain ⟨t', ht'⟩ : ∃ t', t.resume s' threw = .goto t' := WorkerPc.resume_goto
    rw [hpc, Pc.resume, ht']
    exact ⟨_, rfl, t', rfl⟩
  | exec s' next htr _ hex =>
    rw [hpc] at hex
    obtain ⟨⟨s₁, m⟩, hs, he⟩ := Option.map_eq_some_iff.1 hex
    cases he
    obtain ⟨t', rfl⟩ := WorkerPc.exec_goto hs
    exact ⟨_, rfl, t', rfl⟩

theorem World.Enters.step {b : Action} (h : w.Enters) (hcalls : CallsOk w) (hs : Lifecycle.step w b = some w') :
    w'.Enters := fun g =>
  call_stays (Q := fun pc => ∃ t, pc = .worker g t) (fun hstep _ ⟨_, ht⟩ => hstep.worker ht) (h g) hcalls hs

theorem enters_start (s : Shared) : (World.start s).Enters :=
  fun g => ⟨⟨.worker g .waitGate, none, false⟩, rfl, .waitGate, rfl⟩

/-! ## The dispatcher's loop -/

/-- The dispatcher is in its loop, below whatever its callbacks call. -/
def World.Loops (w : World) : Prop := ∃ t, (w.call (.dispatcher, 0)).map (·.pc) = some (.dispatcher t)

theorem DispatcherPc.exec_goto {t : DispatcherPc} {next : Next DispatcherPc}
    (h : execDispatcher s t = some (s', next)) : ∃ t', next = .goto t' := by
  cases t <;> simp only [execDispatcher] at h
  case receive => split at h <;> cases h; exact ⟨_, rfl⟩
  all_goals cases h; exact ⟨_, rfl⟩

theorem FrameStep.dispatcher {t : DispatcherPc} (h : FrameStep s p f ok s' f') (hok : f.Ok a)
    (hpc : f.pc = .dispatcher t) :
    ∃ t', f'.map (·.pc) = some (.dispatcher t') ∧ execDispatcher s t = some (s', .goto t') := by
  obtain ⟨next, hex, rfl⟩ := h.exec_of hok (by rw [hpc]; rfl)
  rw [hpc] at hex
  obtain ⟨⟨s₁, m⟩, hs, he⟩ := Option.map_eq_some_iff.1 hex
  cases he
  obtain ⟨t', rfl⟩ := DispatcherPc.exec_goto hs
  exact ⟨t', rfl, hs⟩

theorem World.loops_iff : w.Loops ↔ ∃ f, w.call (.dispatcher, 0) = some f ∧ ∃ t, f.pc = .dispatcher t := by
  simp only [World.Loops, Option.map_eq_some_iff]
  exact ⟨fun ⟨t, f, hf, ht⟩ => ⟨f, hf, t, ht⟩, fun ⟨f, hf, t, ht⟩ => ⟨t, f, hf, ht⟩⟩

theorem World.Loops.step {b : Action} (h : w.Loops) (hcalls : CallsOk w) (hs : Lifecycle.step w b = some w') :
    w'.Loops := by
  rw [World.loops_iff] at h ⊢
  refine call_stays (Q := fun pc => ∃ t, pc = .dispatcher t) (fun hstep hok ⟨t, ht⟩ => ?_) h hcalls hs
  obtain ⟨t', ht', -⟩ := hstep.dispatcher hok ht
  obtain ⟨f₁, hf₁, hpc⟩ := Option.map_eq_some_iff.1 ht'
  exact ⟨f₁, hf₁, t', hpc⟩

theorem loops_reachable {managed : Bool} {C : World → Action → Prop} (h : (system managed).ReachableWhen C w) :
    w.Loops := by
  refine h.invariant_with (I := World.Loops) (J := CallsOk) (fun _ hr => callsOk_reachable hr) (fun w hw => ?_)
    fun w a w' hcalls _ hi _ hs => hi.step hcalls hs
  obtain ⟨free, start, precision, rfl⟩ := hw
  exact ⟨.receive, rfl⟩

end ESPressio.Lifecycle
