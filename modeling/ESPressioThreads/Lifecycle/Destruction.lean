import ESPressioThreads.Lifecycle.Workers
import ESPressioThreads.Lifecycle.Sequential
/-!
# Destruction after termination

The owner of a thread that has seen `Terminated` runs `~Thread`, which waits
while a termination dispatch is pending. The worker stores `Terminated` before
it stores the pending flag: a destructor that reads the flag in between goes on
while the exit is still in progress. One that finds the flag stored, or the
worker deleted, goes on when nothing of the exit is left but the cleanup pass of
the dispatcher, which `Lifecycle.Passes` adds.
-/

namespace ESPressio.Lifecycle

open Transition ESPressio.Thread

variable {w w' : World} {s s' : Shared} {p : TaskId} {ok : Bool} {f : Frame} {f' : Option Frame}
  {st st' : Stage} {a : TaskId × Nat} {g : Gen} {n : Nat}

/-! ## The destructor -/

/-- The owner, on application task `n`, begins `~Thread`. -/
def World.destroy (w : World) (n : Nat) : World :=
  { w with
    depth := Function.update w.depth (.app n) (w.depth (.app n) + 1)
    frames := Function.update w.frames (.app n, w.depth (.app n)) ⟨.cleanUp .storeFree, none, w.shared.reclaimed⟩ }

/-- The dispatcher is in `_dispatchTermination` of this thread. -/
def World.dispatching (w : World) : Bool := (w.call (.dispatcher, 0)).any fun f => f.pc.dispatching

/-- The owner on application task `n` may destroy the thread, which exists and
is `Terminated`: nobody initializes or starts it, and the dispatcher is in no
call on behalf of another thread. -/
structure Destroyable (w : World) (n : Nat) : Prop where
  exists_ : w.shared.freed = false
  terminated : w.shared.threadState = .terminated
  owner : w.inUserCode (.app n) = true
  initializes : ∀ a f, w.call a = some f → f.pc.initializes = false
  dispatcher : w.dispatching = false → ∀ k, w.call (.dispatcher, k + 1) = none

/-- While the thread is destroyed nobody initializes or starts it, and the
dispatcher calls its methods in callbacks of this thread only. -/
def OnlyExits (w : World) : Action → Prop
  | .call p request => (request ≠ .initializeThread ∧ request ≠ .start ∧ request ≠ .cleanUp) ∧
      (p = .dispatcher → w.dispatching = true)
  | .step _ _ => True

/-- The worker has stored the pending flag of its exit. -/
def WorkerPc.storedPending : WorkerPc → Bool
  | .send | .clearPending | .suspended => true
  | _ => false

/-- Every worker that is not deleted has stored the pending flag. -/
def World.ExitsStored (w : World) : Prop :=
  ∀ g, w.runnable (.worker g) = true → ∃ t, w.entry g = some (.worker g t) ∧ t.storedPending = true

/-- The destructor looks at the pending flag when every worker has stored it. -/
def LoadsStored (w : World) : Action → Prop
  | .call _ _ => True
  | .step p _ => ∀ f, w.top p = some f → f.pc = .cleanUp .loadPending → w.ExitsStored

/-- The destructor looks at the pending flag. -/
def Pc.looks : Pc → Bool
  | .cleanUp .loadPending | .cleanUp .poll => true
  | _ => false

/-- The destructor is past `_waitForTerminationDispatch`. -/
def Pc.passed : Pc → Bool
  | .cleanUp .setDestroyed | .cleanUp .onDestroy | .cleanUp .exchangeTask | .cleanUp (.deleteTask _)
  | .cleanUp .free => true
  | _ => false

def World.Passed (w : World) : Prop := w.shared.freed = true ∨ ∃ a f, w.call a = some f ∧ f.pc.passed = true

/-- No record is queued, no worker takes a step, and the dispatcher is done
with the last record. -/
structure ExitOver (w : World) : Prop where
  queue : w.shared.queue = []
  worker : ∀ g ok, step w (.step (.worker g) ok) = none
  dispatcher : ∀ ok w', step w (.step .dispatcher ok) = some w' →
    (w.top .dispatcher).map (·.pc) = some (.dispatcher .cleanUp) ∧ w'.shared = w.shared

/-! ## One step -/

theorem Stacked.destroy (h : Stacked w) (hn : w.inUserCode (.app n) = true) : Stacked (w.destroy n) := by
  intro q m hm
  simp only [World.destroy, Function.update_apply, Prod.mk.injEq] at hm ⊢
  by_cases hq : q = .app n
  · subst hq
    rw [if_pos rfl] at hm
    rw [if_neg (by omega)]
    by_cases hlast : m + 1 = w.depth (.app n)
    · simp only [World.inUserCode, ← hlast] at hn
      exact hn
    · exact h (.app n) m (by omega)
  · rw [if_neg hq] at hm
    rw [if_neg (by simp [hq])]
    exact h q m hm

/-- The destructor is not past `_waitForTerminationDispatch`. -/
def CleanUpPc.draining : CleanUpPc → Bool
  | .storeFree | .releaseClaim | .loadPending | .isCurrentTask | .poll => true
  | _ => false

/-- The destructor has found a pending dispatch. -/
def CleanUpPc.foundPending : CleanUpPc → Bool
  | .isCurrentTask | .poll => true
  | _ => false

theorem Shared.registers_exchangeClaim (s : Shared) (a b : CleanupClaim) :
    (s.exchangeClaim a b).registers = s.registers := by
  unfold Shared.exchangeClaim
  split <;> rfl

/-- The destructor goes on in `_waitForTerminationDispatch`, or leaves it when
no dispatch is pending. -/
theorem FrameStep.draining {t : CleanUpPc} (h : FrameStep s p f ok s' f') (hok : f.Ok a) (hpc : f.pc = .cleanUp t)
    (ht : t.draining = true) (hp : p ≠ .dispatcher) : s'.registers = s.registers ∧ s'.freed = s.freed ∧
      ∃ t', f'.map (·.pc) = some (.cleanUp t') ∧
        ((t'.draining = true ∧ (t'.foundPending = true → t.foundPending = true ∨ t = .loadPending)) ∨
          (t' = .setDestroyed ∧ f.pc.looks = true ∧ s.terminationDispatchPending = false)) := by
  have hno : f.pc.transition = none := by
    rw [hpc]
    cases t <;> first | rfl | cases ht
  obtain ⟨next, hex, rfl⟩ := h.exec_of hok hno
  rw [hpc] at hex
  obtain ⟨⟨s₁, m⟩, hs, he⟩ := Option.map_eq_some_iff.1 hex
  cases he
  cases t <;> simp only [execCleanUp] at hs
  case storeFree => cases hs; exact ⟨rfl, rfl, .releaseClaim, rfl, .inl ⟨rfl, nofun⟩⟩
  case releaseClaim =>
    cases hs
    refine ⟨Shared.registers_exchangeClaim _ _ _, ?_, .loadPending, rfl, .inl ⟨rfl, nofun⟩⟩
    exact congrArg (fun x => x.2.2.2.2) (Shared.aside_exchangeClaim s _ _)
  case loadPending =>
    cases hs
    refine ⟨rfl, rfl, ?_⟩
    by_cases hd : s.terminationDispatchPending = true
    · rw [if_pos hd]
      exact ⟨.isCurrentTask, rfl, .inl ⟨rfl, fun _ => .inr rfl⟩⟩
    · rw [if_neg hd]
      exact ⟨.setDestroyed, rfl, .inr ⟨rfl, by rw [hpc]; rfl, by simpa using hd⟩⟩
  case isCurrentTask =>
    cases hs
    rw [if_neg hp]
    exact ⟨rfl, rfl, .poll, rfl, .inl ⟨rfl, fun _ => .inl rfl⟩⟩
  case poll =>
    cases hs
    refine ⟨rfl, rfl, ?_⟩
    by_cases hd : s.terminationDispatchPending = true
    · rw [if_pos hd]
      exact ⟨.poll, rfl, .inl ⟨rfl, fun _ => .inl rfl⟩⟩
    · rw [if_neg hd]
      exact ⟨.setDestroyed, rfl, .inr ⟨rfl, by rw [hpc]; rfl, by simpa using hd⟩⟩
  all_goals cases ht

theorem FrameStep.storedPending {t : WorkerPc} (h : FrameStep s p f ok s' f') (hok : f.Ok a)
    (hpc : f.pc = .worker g t) (ht : t.storedPending = true) :
    ∃ t', f'.map (·.pc) = some (.worker g t') ∧ t'.storedPending = true := by
  have hno : f.pc.transition = none := by
    rw [hpc]
    cases t <;> first | rfl | cases ht
  obtain ⟨next, hex, rfl⟩ := h.exec_of hok hno
  rw [hpc] at hex
  obtain ⟨⟨s₁, m⟩, hs, he⟩ := Option.map_eq_some_iff.1 hex
  cases he
  cases t <;> simp only [execWorker] at hs
  case send =>
    split at hs <;> cases hs
    · exact ⟨.suspended, rfl, rfl⟩
    · exact ⟨.clearPending, rfl, rfl⟩
  case clearPending => cases hs; exact ⟨.suspended, rfl, rfl⟩
  all_goals first | (cases hs; done) | cases ht

/-! ## The exit goes on -/

/-- What holds of the thread while it is destroyed: nobody initializes it. -/
structure ExitsInv (w : World) (st : Stage) : Prop where
  stage : AtStage w st
  workers : WorkersInv w st
  calls : CallsOk w
  stacked : Stacked w
  initializes : ∀ a f, w.call a = some f → f.pc.initializes = false
  loops : w.Loops
  dispatcher : w.dispatching = false → ∀ k, w.call (.dispatcher, k + 1) = none

theorem Pc.not_initializePc {pc : Pc} (h : pc.initializes = false) : pc.initializePc = none := by
  cases hi : pc.initializePc with
  | none => rfl
  | some t =>
    rw [Pc.initializes_of_initializePc hi] at h
    cases h

theorem World.dispatching_congr (h : w'.call (.dispatcher, 0) = w.call (.dispatcher, 0)) :
    w'.dispatching = w.dispatching := by
  rw [World.dispatching, h, World.dispatching]

/-- A step changes what is called above the dispatcher's loop only in its
callbacks. -/
theorem dispatcher_moved (hd : w.depth p = n + 1) (hf : w.call (p, n) = some f)
    (hcall : w'.call = Function.update w.call (p, n) f')
    (h : w.dispatching = false → ∀ k, w.call (.dispatcher, k + 1) = none) :
    w'.dispatching = false → ∀ k, w'.call (.dispatcher, k + 1) = none := by
  by_cases hp : p = .dispatcher
  · subst hp
    cases n with
    | zero =>
      intro _ k
      rw [hcall, Function.update_of_ne (by simp)]
      simp [World.call, hd]
    | succ m =>
      intro hno
      rw [World.dispatching_congr (w := w) (by rw [hcall, Function.update_of_ne (by simp)])] at hno
      rw [h hno m] at hf
      cases hf
  · have hother : ∀ k, w'.call (.dispatcher, k) = w.call (.dispatcher, k) := by
      intro k
      rw [hcall, Function.update_of_ne (by simp [Ne.symm hp])]
    intro hno k
    rw [hother]
    exact h (by rwa [← World.dispatching_congr (hother 0)]) k

/-- A call of another task than the dispatcher, or in a callback of the
dispatcher. -/
theorem dispatcher_pushed {request : Request} (hs : step w (.call p request) = some w')
    (hp : p = .dispatcher → w.dispatching = true)
    (h : w.dispatching = false → ∀ k, w.call (.dispatcher, k + 1) = none) :
    w'.dispatching = false → ∀ k, w'.call (.dispatcher, k + 1) = none := by
  obtain ⟨-, -, a, ha, hnone, hcall⟩ := call_update hs
  by_cases hd : p = .dispatcher
  · have hdispatching := hp hd
    have hbase : w'.call (.dispatcher, 0) = w.call (.dispatcher, 0) := by
      rw [hcall, Function.update_of_ne]
      rintro rfl
      rw [World.dispatching, hnone] at hdispatching
      cases hdispatching
    intro hno
    rw [World.dispatching_congr hbase, hdispatching] at hno
    cases hno
  · have hother : ∀ k, w'.call (.dispatcher, k) = w.call (.dispatcher, k) := by
      intro k
      rw [hcall, Function.update_of_ne]
      rintro rfl
      exact hd ha.symm
    intro hno k
    rw [hother]
    exact h (by rwa [← World.dispatching_congr (hother 0)]) k

theorem Pc.initializes_of_made {pc : Pc} (h : pc.stage = some (.made g)) : pc.initializes = true := by
  cases pc with
  | initializeThread | start => rfl
  | worker x t => cases t <;> cases h
  | dispatcher t => cases t <;> cases h
  | _ => cases h

theorem World.runnable_of_moved (hc : w'.shared.created = w.shared.created)
    (hk : ∀ x ∈ w.shared.killed, x ∈ w'.shared.killed) (h : w'.runnable (.worker g) = true) :
    w.runnable (.worker g) = true := by
  simp only [World.runnable, Bool.and_eq_true, decide_eq_true_eq, Bool.not_eq_true', List.contains_eq_mem,
    decide_eq_false_iff_not] at h ⊢
  rw [hc] at h
  exact ⟨h.1, fun hx => h.2 (hk g hx)⟩

/-- While the thread is destroyed no call comes to initialize it. -/
theorem not_initializes_step {b : Action} (h : ∀ a f, w.call a = some f → f.pc.initializes = false)
    (hs : step w b = some w') (hc : OnlyExits w b) : ∀ a f, w'.call a = some f → f.pc.initializes = false := by
  cases b with
  | call p request =>
    obtain ⟨-, -, a, -, -, hcall⟩ := call_update hs
    rw [hcall]
    refine forall_call_update (fun f hf => ?_) fun b f _ hb => h b f hb
    cases hf
    obtain ⟨⟨hi, hst, -⟩, -⟩ := hc
    cases request with
    | initializeThread => exact absurd rfl hi
    | start => exact absurd rfl hst
    | _ => rfl
  | step p ok =>
    obtain ⟨-, a, f, f', -, -, hf, hstep, hcall⟩ := step_update hs
    rw [hcall]
    refine forall_call_update (fun g hg => ?_) fun b g _ hb => h b g hb
    rw [hg] at hstep
    rw [hstep.initializes]
    exact h a f hf

theorem ExitsInv.pushed {request : Request} (h : ExitsInv w st) (hc : OnlyExits w (.call p request))
    (hs : step w (.call p request) = some w') : ExitsInv w' st :=
  ⟨h.stage.pushed hs, h.workers.pushed hs, h.calls.step hs, h.stacked.step hs, not_initializes_step h.initializes hs hc,
    h.loops.step h.calls hs, dispatcher_pushed hs hc.2 h.dispatcher⟩

/-- A step of any call but the destructor. -/
theorem ExitsInv.moved (h : ExitsInv w st) (hne : ∀ f, w.top p = some f → ∀ t, f.pc ≠ .cleanUp t)
    (hs : step w (.step p ok) = some w') :
    ∃ st', ExitsInv w' st' ∧ (w.ExitsStored → w'.ExitsStored) := by
  have hc : ChecksHold w (.step p ok) := by
    intro f htop hpc
    obtain ⟨k, -, hf⟩ := World.call_of_top htop
    rw [Pc.not_initializePc (h.initializes _ f hf)] at hpc
    cases hpc
  obtain ⟨st', n, f, f', hd, hm, hst'⟩ := h.stage.moved_last h.calls hne hc hs
  have hok := h.calls _ f hm.call
  have hinit := not_initializes_step h.initializes hs trivial
  refine ⟨st', ⟨hst', h.workers.moved h.stage hm hok (step_moves hs).1, h.calls.step hs, h.stacked.step hs, hinit,
    h.loops.step h.calls hs, dispatcher_moved hd hm.call hm.calls h.dispatcher⟩, fun hstored g hg => ?_⟩
  -- Only `Initialize` creates tasks.
  have hcreated : w'.shared.created = w.shared.created := by
    rcases hm.move.created with he | hmade
    · exact he
    · obtain ⟨x, hx, hstage⟩ := Option.bind_eq_some_iff.1 hmade
      have hx' : w'.call (p, n) = some x := by rw [hm.calls, Function.update_self]; exact hx
      have hi := Pc.initializes_of_made hstage
      rw [hinit _ x hx'] at hi
      cases hi
  obtain ⟨t, ht, hts⟩ := hstored g (World.runnable_of_moved hcreated (fun x hx => hm.move.killed hx) hg)
  by_cases ha : (TaskId.worker g, 0) = (p, n)
  · have hpc : f.pc = .worker g t := by
      have hf := hm.call
      rw [← ha] at hf
      simpa [World.entry, hf] using ht
    obtain ⟨t', ht', hts'⟩ := hm.frame.storedPending hok hpc hts
    refine ⟨t', ?_, hts'⟩
    rw [World.entry, hm.calls, ha, Function.update_self]
    exact ht'
  · refine ⟨t, ?_, hts⟩
    rw [World.entry, hm.calls, Function.update_of_ne ha]
    exact ht

/-- A step of the destructor, which leaves the registers alone. -/
theorem ExitsInv.kept {t t' : CleanUpPc} (h : ExitsInv w st) (hs : step w (.step p ok) = some w')
    (hd : w.depth p = n + 1) (hf : w.call (p, n) = some f) (hcall : w'.call = Function.update w.call (p, n) f')
    (hpc : f.pc = .cleanUp t) (hpc' : f'.map (·.pc) = some (.cleanUp t'))
    (hr : w'.shared.registers = w.shared.registers) : ExitsInv w' st ∧ (w.ExitsStored → w'.ExitsStored) := by
  have hafter : stageAfter f' = none := by
    obtain ⟨x, rfl, hx⟩ := Option.map_eq_some_iff.1 hpc'
    simp only [stageAfter, Option.bind_some, hx]
    rfl
  have hentry : ∀ g t, w.entry g = some (.worker g t) → w'.entry g = some (.worker g t) := by
    intro g u hu
    have hne : (TaskId.worker g, 0) ≠ (p, n) := by
      rintro he
      rw [World.entry, he, hf] at hu
      rw [Option.map_some, hpc] at hu
      cases hu
    rwa [World.entry, hcall, Function.update_of_ne hne]
  have hcreated : w'.shared.created = w.shared.created := congrArg Registers.created hr
  have hkilled : w'.shared.killed = w.shared.killed := congrArg Registers.killed hr
  refine ⟨⟨⟨by rw [hr]; exact h.stage.fits, ?_⟩, ⟨by rw [hr]; exact h.workers.alive, fun g hg => ?_, fun g hg => ?_⟩,
    h.calls.step hs, h.stacked.step hs, not_initializes_step h.initializes hs trivial, h.loops.step h.calls hs,
    dispatcher_moved hd hf hcall h.dispatcher⟩, fun hstored g hg => ?_⟩
  · rw [World.stages_update hcall, hafter]
    exact h.stage.token.keep (by simp only [World.stages, hf, Option.bind_some, hpc]; rfl)
  · rw [hcreated] at hg
    exact hentry g _ (h.workers.gated g hg)
  · exact hentry g _ (h.workers.lost g hg)
  · obtain ⟨u, hu, hus⟩ := hstored g (World.runnable_of_moved hcreated (fun x hx => hkilled ▸ hx) hg)
    exact ⟨u, hentry g u hu, hus⟩

/-! ## Nothing is left of the exit -/

/-- The workers are deleted or suspended, no record is queued, and the
dispatcher is done with the last one. -/
structure AtRest (w : World) : Prop where
  calls : CallsOk w
  initializes : ∀ a f, w.call a = some f → f.pc.initializes = false
  loops : w.Loops
  queue : w.shared.queue = []
  worker : ∀ g, w.runnable (.worker g) = true → w.entry g = some (.worker g .suspended) ∧
    ∀ k, w.call (.worker g, k + 1) = none
  dispatcher : w.dispatching = false ∧ ∀ k, w.call (.dispatcher, k + 1) = none

/-- A stage without a pending dispatch, when every worker has stored the flag. -/
theorem ExitsInv.stage_cases (h : ExitsInv w st) (hstored : w.ExitsStored)
    (hp : w.shared.terminationDispatchPending = false) : st = .quiet ∨ ∃ g, st = .lost g := by
  have hfits := h.stage.fits
  have hpending : ∀ {task gate queue alive}, ¬ w.shared.registers.Has task true gate queue alive :=
    fun hf => absurd (hf.pending.symm.trans hp) (by rintro ⟨⟩)
  -- A live worker of the stage has stored the flag, so it is past `storePending`.
  have halive : ∀ g, st.worker w.shared.taskHandle = some g → ∃ t, w.entry g = some (.worker g t) ∧
      t.storedPending = true := fun g hg => by
    obtain ⟨hc, hk⟩ := h.workers.alive.worker g hg
    have hc : g < w.shared.created := hc
    have hk : g ∉ w.shared.killed := hk
    exact hstored g (by simp [World.runnable, hc, hk])
  by_cases hr : st.rest = true
  · cases st with
    | quiet => exact .inl rfl
    | lost g => exact .inr ⟨g, rfl⟩
    | gated g =>
      obtain ⟨t, ht, hts⟩ := halive g rfl
      cases ht.symm.trans (h.workers.gated g (.inr rfl))
      cases hts
    | queued g =>
      obtain ⟨task, -, hhas, -⟩ := hfits
      exact (hpending hhas).elim
    | _ => cases hr
  -- A call has the token: a worker before its store, or a stage whose flag is set.
  · exfalso
    obtain ⟨b, hb⟩ := h.stage.token.exists_of_held (by simpa using hr)
    obtain ⟨f, hf, hstage⟩ := Option.bind_eq_some_iff.1 hb
    have hinit := h.initializes b f hf
    cases hpc : f.pc with
    | worker g t =>
      obtain rfl := (h.calls b f hf).worker g t hpc
      have hentry : w.entry g = some (.worker g t) := by simp [World.entry, hf, hpc]
      have hts : st.worker w.shared.taskHandle = some g → t.storedPending = true := fun hg => by
        obtain ⟨t', ht', hts⟩ := halive g hg
        cases hentry.symm.trans ht'
        exact hts
      rw [hpc] at hstage
      cases t with
      | waitGate | suspended => cases hstage
      | send =>
        cases hstage
        exact hpending hfits.2.1
      | clearPending =>
        cases hstage
        exact hpending hfits.1
      | loop | onLoop | onExecutionFailed | notifyExecutionFailed | terminate | beginFinalization | setTerminated
      | storePending =>
        cases hstage
        cases hts rfl
    | dispatcher t =>
      rw [hpc] at hstage
      cases t with
      | receive | cleanUp => cases hstage
      | exchangeTask x =>
        cases hstage
        obtain ⟨task, -, hhas, -⟩ := hfits
        exact hpending hhas
      | deleteTask x task => cases hstage; exact hpending hfits.2.1
      | clearPending x => cases hstage; exact hpending hfits
      | readState | onTerminated | onThreadTaskExited | giveExited => cases hstage; exact hpending hfits.1
    | _ =>
      -- `Initialize` has it, which nobody calls any more.
      have hcommitted := Stage.committed_of_stage hstage (by rw [hpc]; rintro _ _ ⟨⟩) (by rw [hpc]; rintro _ ⟨⟩)
      obtain ⟨t, ht⟩ := Pc.initializePc_of_committed hcommitted
      rw [Pc.initializes_of_initializePc ht] at hinit
      cases hinit

theorem ExitsInv.atRest (h : ExitsInv w st) (hstored : w.ExitsStored)
    (hp : w.shared.terminationDispatchPending = false) : AtRest w := by
  have hfits := h.stage.fits
  have hst := h.stage_cases hstored hp
  have hrest : st.rest = true := by rcases hst with rfl | ⟨g, rfl⟩ <;> rfl
  have hdispatching : w.dispatching = false := h.stage.not_dispatching hrest
  refine ⟨h.calls, h.initializes, h.loops, ?_, fun g hg => ?_, hdispatching, h.dispatcher hdispatching⟩
  · rcases hst with rfl | ⟨g, rfl⟩
    · exact Registers.Has.queue hfits
    · exact hfits.1.queue
  · have hrun : g < w.shared.created ∧ g ∉ w.shared.killed := by simpa [World.runnable] using hg
    have hentry : w.entry g = some (.worker g .suspended) := by
      rcases hst with rfl | ⟨x, rfl⟩
      · cases Registers.Has.alive hfits g hrun.1 hrun.2
      · obtain rfl := Option.some.inj (hfits.1.alive g hrun.1 hrun.2)
        exact h.workers.lost _ rfl
    refine ⟨hentry, fun k => ?_⟩
    obtain ⟨f, hf, hpc⟩ := Option.map_eq_some_iff.1 hentry
    have hno := (h.calls _ f hf).no_transition (by rw [hpc]; rfl)
    have := h.stacked.no_call hf (by simp only [Frame.userCode, hno, hpc]; rfl) k
    rwa [Nat.zero_add] at this

/-- What a call that is not part of an exit does to the exit. -/
theorem exec_exit {pc : Pc} {next : Next Pc} (h : exec s p pc ok = some (s', next)) (hw : ∀ g t, pc ≠ .worker g t)
    (hd : ∀ t, pc ≠ .dispatcher t) (hi : pc.initializes = false) :
    s'.queue = s.queue ∧ s'.created = s.created ∧ ∀ x ∈ s.killed, x ∈ s'.killed := by
  have hclaim : ∀ a b, (s.exchangeClaim a b).queue = s.queue ∧ (s.exchangeClaim a b).created = s.created ∧
      ∀ x ∈ s.killed, x ∈ (s.exchangeClaim a b).killed := by
    intro a b
    unfold Shared.exchangeClaim
    split <;> exact ⟨rfl, rfl, fun _ hx => hx⟩
  have hkill : ∀ t, (s.kill t).queue = s.queue ∧ (s.kill t).created = s.created ∧
      ∀ x ∈ s.killed, x ∈ (s.kill t).killed := by
    rintro (_ | t)
    · exact ⟨rfl, rfl, fun _ hx => hx⟩
    · exact ⟨rfl, rfl, fun _ hx => List.mem_cons_of_mem _ hx⟩
  unfold exec at h
  split at h
  · cases h
  · cases h
  · cases h; exact ⟨rfl, rfl, fun _ hx => hx⟩
  · cases h; split <;> exact hclaim _ _
  · cases h; exact ⟨rfl, rfl, fun _ hx => hx⟩
  · cases h; exact ⟨rfl, rfl, fun _ hx => hx⟩
  · cases hi
  · cases hi
  · obtain ⟨⟨s₁, m⟩, hs, he⟩ := Option.map_eq_some_iff.1 h
    cases he
    rename_i t
    cases t <;> simp only [execShutdown] at hs
    case waitExited => split at hs <;> cases hs; exact ⟨rfl, rfl, fun _ hx => hx⟩
    all_goals first
      | (cases hs; first | exact ⟨rfl, rfl, fun _ hx => hx⟩ | exact hclaim _ _)
      | cases hs
  · exact absurd rfl (hw _ _)
  · exact absurd rfl (hd _)
  · obtain ⟨⟨s₁, m⟩, hs, he⟩ := Option.map_eq_some_iff.1 h
    cases he
    rename_i t
    cases t <;> simp only [execCleanUp] at hs
    case exchangeClaim => split at hs <;> cases hs <;> exact ⟨rfl, rfl, fun _ hx => hx⟩
    all_goals first
      | (cases hs; first | exact ⟨rfl, rfl, fun _ hx => hx⟩ | exact hclaim _ _ | exact hkill _)
      | cases hs

theorem FrameStep.exit (h : FrameStep s p f ok s' f') (hw : ∀ g t, f.pc ≠ .worker g t)
    (hd : ∀ t, f.pc ≠ .dispatcher t) (hi : f.pc.initializes = false) :
    s'.queue = s.queue ∧ s'.created = s.created ∧ ∀ x ∈ s.killed, x ∈ s'.killed := by
  rcases h.shared_cases with ⟨_, _, _, rfl⟩ | ⟨next, hex⟩
  · exact ⟨rfl, rfl, fun _ hx => hx⟩
  · exact exec_exit hex hw hd hi

theorem AtRest.not_worker {b : Action} (h : AtRest w) (hb : b.task = .worker g) (hs : step w b = some w') : False := by
  have hdepth : ∀ m, w.depth (.worker g) = m + 1 → w.runnable (.worker g) = true → m = 0 := by
    intro m hm hrun
    cases m with
    | zero => rfl
    | succ k =>
      have := (h.worker g hrun).2 k
      simp [World.call, hm] at this
  cases b with
  | call p request =>
    obtain rfl : p = .worker g := hb
    obtain ⟨hrun, huser, -⟩ := step_push hs
    obtain ⟨f, hf, hpc⟩ := Option.map_eq_some_iff.1 (h.worker g hrun).1
    have hno := (h.calls _ f hf).no_transition (by rw [hpc]; rfl)
    obtain ⟨hlt, rfl⟩ := World.call_eq_some.1 hf
    obtain ⟨m, hm⟩ := Nat.exists_eq_succ_of_ne_zero (Nat.ne_of_gt hlt)
    obtain rfl := hdepth m hm hrun
    simp [World.inUserCode, hm, Frame.userCode, hno, hpc, Pc.userCode] at huser
  | step p ok =>
    obtain rfl : p = .worker g := hb
    obtain ⟨hrun, n, f, f', hd, -, hf, hstep, -⟩ := step_last hs
    obtain rfl := hdepth n hd hrun
    refine hstep.not_suspended (h.calls _ f hf) (g := g) ?_
    simpa [World.entry, hf] using (h.worker g hrun).1

/-- The dispatcher can only go back to its queue. -/
theorem AtRest.dispatcher_step (h : AtRest w) (hs : step w (.step .dispatcher ok) = some w') :
    (w.top .dispatcher).map (·.pc) = some (.dispatcher .cleanUp) ∧ w'.shared = w.shared ∧
      ∃ f', w'.call = Function.update w.call (.dispatcher, 0) f' ∧ f'.map (·.pc) = some (.dispatcher .receive) := by
  obtain ⟨-, n, f, f', hd, htop, hf, hstep, hcall⟩ := step_last hs
  obtain rfl : n = 0 := by
    cases n with
    | zero => rfl
    | succ k => rw [h.dispatcher.2 k] at hf; cases hf
  obtain ⟨t, ht⟩ := h.loops
  have hpc : f.pc = .dispatcher t := by simpa [hf] using ht
  have hdispatching : t.dispatching = false := by
    simpa [World.dispatching, hf, hpc, Pc.dispatching] using h.dispatcher.1
  obtain ⟨t', ht', hex⟩ := hstep.dispatcher (h.calls _ f hf) hpc
  cases t with
  | receive =>
    simp only [execDispatcher, h.queue] at hex
    cases hex
  | cleanUp =>
    simp only [execDispatcher, Option.some.injEq, Prod.mk.injEq, Next.goto.injEq] at hex
    obtain ⟨he, rfl⟩ := hex
    exact ⟨by rw [htop, Option.map_some, hpc], he.symm, f', hcall, ht'⟩
  | _ => cases hdispatching

theorem AtRest.exitOver (h : AtRest w) : ExitOver w := by
  refine ⟨h.queue, fun g ok => ?_, fun ok w' hs => ?_⟩
  · cases hs : step w (.step (.worker g) ok) with
    | none => rfl
    | some w' => exact (h.not_worker rfl hs).elim
  · obtain ⟨htop, hshared, -⟩ := h.dispatcher_step hs
    exact ⟨htop, hshared⟩

/-- A change of an application task's calls only. -/
theorem AtRest.of_app {m : Nat} (h : AtRest w) (hcalls : CallsOk w')
    (hinit : ∀ a f, w'.call a = some f → f.pc.initializes = false) (hq : w'.shared.queue = w.shared.queue)
    (hc : w'.shared.created = w.shared.created) (hk : ∀ x ∈ w.shared.killed, x ∈ w'.shared.killed)
    (hcall : ∀ q k, q ≠ .app m → w'.call (q, k) = w.call (q, k)) : AtRest w' := by
  have hd : ∀ k, w'.call (.dispatcher, k) = w.call (.dispatcher, k) := fun k => hcall _ k nofun
  have hw : ∀ g k, w'.call (.worker g, k) = w.call (.worker g, k) := fun g k => hcall _ k nofun
  refine ⟨hcalls, hinit, ?_, by rw [hq]; exact h.queue, fun g hg => ?_, ?_, fun k => ?_⟩
  · obtain ⟨t, ht⟩ := h.loops
    exact ⟨t, by rw [hd]; exact ht⟩
  · obtain ⟨hentry, hnone⟩ := h.worker g (World.runnable_of_moved hc hk hg)
    exact ⟨by rw [World.entry, hw]; exact hentry, fun k => by rw [hw]; exact hnone k⟩
  · rw [World.dispatching_congr (hd 0)]
    exact h.dispatcher.1
  · rw [hd]
    exact h.dispatcher.2 k

/-- The dispatcher finishes its cleanup pass, over whichever threads. -/
theorem AtRest.dispatcher_moved (h : AtRest w) (hs : Lifecycle.step w (.step .dispatcher ok) = some w') :
    AtRest w' := by
  obtain ⟨-, hshared, f', hcall, hpc⟩ := h.dispatcher_step hs
  have hother : ∀ q k, (q, k) ≠ (TaskId.dispatcher, 0) → w'.call (q, k) = w.call (q, k) := by
    intro q k hne
    rw [hcall, Function.update_of_ne hne]
  have hbase : (w'.call (.dispatcher, 0)).map (·.pc) = some (.dispatcher .receive) := by
    rw [hcall, Function.update_self]
    exact hpc
  refine ⟨h.calls.step hs, not_initializes_step h.initializes hs trivial, ⟨.receive, hbase⟩,
    by rw [hshared]; exact h.queue, fun g hg => ?_, ?_, fun k => ?_⟩
  · rw [World.runnable, hshared] at hg
    obtain ⟨hentry, hnone⟩ := h.worker g hg
    exact ⟨by rw [World.entry, hother _ _ (by simp)]; exact hentry,
      fun k => by rw [hother _ _ (by simp)]; exact hnone k⟩
  · obtain ⟨f, hf, hpc⟩ := Option.map_eq_some_iff.1 hbase
    simp [World.dispatching, hf, hpc, Pc.dispatching, DispatcherPc.dispatching]
  · rw [hother _ _ (by simp)]
    exact h.dispatcher.2 k

/-- An application task creates no worker and sends no record. -/
theorem AtRest.app_moved {m : Nat} (h : AtRest w) (hs : Lifecycle.step w (.step (.app m) ok) = some w') :
    AtRest w' := by
  obtain ⟨-, n, f, f', -, -, hf, hstep, hcall⟩ := step_last hs
  have hok := h.calls _ f hf
  obtain ⟨hq, hcr, hk⟩ := hstep.exit (fun g t hpc => nomatch hok.worker g t hpc)
    (fun t hpc => nomatch hok.dispatcher t hpc) (h.initializes _ f hf)
  refine h.of_app (m := m) (h.calls.step hs) (not_initializes_step h.initializes hs trivial) hq hcr hk fun q k hne => ?_
  rw [hcall, Function.update_of_ne]
  rintro he
  cases he
  exact hne rfl

theorem AtRest.step {b : Action} (h : AtRest w) (hc : OnlyExits w b) (hs : Lifecycle.step w b = some w') :
    AtRest w' := by
  cases b with
  | call p request =>
    obtain ⟨hshared, -, a, ha, -, hcall⟩ := call_update hs
    cases p with
    | worker g => exact (h.not_worker rfl hs).elim
    | dispatcher =>
      have := hc.2 rfl
      rw [h.dispatcher.1] at this
      cases this
    | app m =>
      refine h.of_app (m := m) (h.calls.step hs) (not_initializes_step h.initializes hs hc) (by rw [hshared])
        (by rw [hshared]) (fun x hx => by rwa [hshared]) fun q k hq => ?_
      rw [hcall, Function.update_of_ne]
      rintro rfl
      exact hq ha
  | step p ok =>
    cases p with
    | worker g => exact (h.not_worker rfl hs).elim
    | dispatcher => exact h.dispatcher_moved hs
    | app m => exact h.app_moved hs

/-! ## The destruction -/

/-- The destructor has not passed `_waitForTerminationDispatch`. -/
structure Destructing (w : World) (st : Stage) : Prop where
  exits : ExitsInv w st
  freed : w.shared.freed = false
  destructor : ∀ a f, w.call a = some f → ∀ t, f.pc = .cleanUp t →
    a.1 ≠ .dispatcher ∧ t.draining = true ∧ (t.foundPending = true → w.ExitsStored)

theorem FrameStep.freed (h : FrameStep s p f ok s' f') (hc : ∀ t, f.pc ≠ .cleanUp t) : s'.freed = s.freed := by
  rcases h.shared_cases with ⟨_, _, _, rfl⟩ | ⟨next, hex⟩
  · rfl
  · rcases exec_aside hex with ⟨-, ha⟩ | ⟨t, m, ht, -, -⟩
    · exact congrArg (fun x => x.2.2.2.2) ha
    · exact absurd ht (hc t)

theorem World.ExitsStored.pushed {request : Request} (h : w.ExitsStored)
    (hs : step w (.call p request) = some w') : w'.ExitsStored := by
  obtain ⟨hshared, -, a, -, ha, hcall⟩ := call_update hs
  intro g hg
  rw [World.runnable, hshared] at hg
  obtain ⟨t, ht, hts⟩ := h g hg
  refine ⟨t, ?_, hts⟩
  rw [World.entry, hcall, Function.update_of_ne]
  · exact ht
  · rintro rfl
    rw [World.entry, ha] at ht
    cases ht

theorem Destructing.pushed {request : Request} (h : Destructing w st) (hc : OnlyExits w (.call p request))
    (hs : step w (.call p request) = some w') : Destructing w' st := by
  obtain ⟨hshared, -, a, -, -, hcall⟩ := call_update hs
  refine ⟨h.exits.pushed hc hs, by rw [hshared]; exact h.freed, ?_⟩
  rw [hcall]
  refine forall_call_update (fun f hf t ht => ?_) fun b f _ hb t ht => ?_
  · cases hf
    cases request <;> cases ht
    exact absurd rfl hc.1.2.2
  · obtain ⟨ha, hd, hstored⟩ := h.destructor b f hb t ht
    exact ⟨ha, hd, fun hf => (hstored hf).pushed hs⟩

/-- The destructor goes on, or looks at the pending flag and passes when nothing
of the exit is left. -/
theorem Destructing.stepped (h : Destructing w st) (hl : LoadsStored w (.step p ok))
    (hs : step w (.step p ok) = some w') : (∃ st', Destructing w' st') ∨
      (AtRest w' ∧ w'.Passed ∧ w.shared.terminationDispatchPending = false ∧
        ∃ f, w.top p = some f ∧ f.pc.looks = true) := by
  obtain ⟨-, n, f, f', hd, htop, hf, hstep, hcall⟩ := step_last hs
  by_cases hclean : ∃ t, f.pc = .cleanUp t
  · obtain ⟨t, hpc⟩ := hclean
    obtain ⟨hp, hdraining, hfound⟩ := h.destructor _ f hf t hpc
    obtain ⟨hr, hfreed, t', ht', hnext⟩ := hstep.draining (h.exits.calls _ f hf) hpc hdraining hp
    obtain ⟨hexits, hstays⟩ := h.exits.kept hs hd hf hcall hpc ht' hr
    -- Every worker has stored the flag once the destructor has loaded it.
    have hstored : t.foundPending = true ∨ t = .loadPending → w.ExitsStored := by
      rintro (hpending | rfl)
      · exact hfound hpending
      · exact hl f htop hpc
    rcases hnext with ⟨hdraining', hfound'⟩ | ⟨rfl, hlooks, hpending⟩
    · refine .inl ⟨st, hexits, hfreed.trans h.freed, ?_⟩
      rw [hcall]
      refine forall_call_update (fun x hx u hu => ?_) fun b x _ hb u hu => ?_
      · rw [hx] at ht'
        obtain rfl : t' = u := by simpa [hu] using ht'.symm
        exact ⟨hp, hdraining', fun hpending => hstays (hstored (hfound' hpending))⟩
      · obtain ⟨ha, hdr, hst⟩ := h.destructor b x hb u hu
        exact ⟨ha, hdr, fun hpending => hstays (hst hpending)⟩
    · have hloaded : t.foundPending = true ∨ t = .loadPending := by
        rw [hpc] at hlooks
        cases t <;> first | exact .inl rfl | exact .inr rfl | cases hlooks
      obtain ⟨x, rfl, hx⟩ := Option.map_eq_some_iff.1 ht'
      refine .inr ⟨hexits.atRest (hstays (hstored hloaded)) ?_, .inr ⟨(p, n), x, ?_, by rw [hx]; rfl⟩, hpending, f,
        htop, hlooks⟩
      · exact (congrArg Registers.terminationDispatchPending hr).trans hpending
      · rw [hcall, Function.update_self]
  · have hne : ∀ t, f.pc ≠ .cleanUp t := fun t ht => hclean ⟨t, ht⟩
    obtain ⟨st', hexits, hstays⟩ := h.exits.moved (fun g hg => by rw [htop] at hg; cases hg; exact hne) hs
    refine .inl ⟨st', hexits, (hstep.freed hne).trans h.freed, ?_⟩
    rw [hcall]
    refine forall_call_update (fun x hx u hu => ?_) fun b x _ hb u hu => ?_
    · rw [hx] at hstep
      obtain ⟨t, ht⟩ := hstep.method.2.2.1 u hu
      exact absurd ht (hne t)
    · obtain ⟨ha, hdr, hst⟩ := h.destructor b x hb u hu
      exact ⟨ha, hdr, fun hpending => hstays (hst hpending)⟩

theorem Destructing.not_passed (h : Destructing w st) : ¬ w.Passed := by
  rintro (hf | ⟨a, f, hf, hpassed⟩)
  · rw [h.freed] at hf
    cases hf
  · generalize hpc : f.pc = pc at hpassed
    cases pc with
    | cleanUp t =>
      have := (h.destructor a f hf t hpc).2.1
      cases t <;> first | (cases this; done) | cases hpassed
    | _ => cases hpassed

theorem World.destroy_call (w : World) (n : Nat) : (w.destroy n).call =
    Function.update w.call (.app n, w.depth (.app n)) (some ⟨.cleanUp .storeFree, none, w.shared.reclaimed⟩) := by
  funext b
  obtain ⟨q, m⟩ := b
  simp only [World.call, World.destroy, Function.update_apply, Prod.mk.injEq]
  by_cases hq : q = .app n
  · subst hq
    by_cases hm : m = w.depth (.app n)
    · simp [hm]
    · have : m < w.depth (.app n) + 1 ↔ m < w.depth (.app n) := by omega
      simp [hm, this]
  · simp [hq]

theorem destructing_start (h : (system false).ReachableWhen ChecksHold w) (hd : Destroyable w n) :
    ∃ st, Destructing (w.destroy n) st := by
  obtain ⟨st, hst, hw⟩ := workersInv_reachable (fun _ _ hc => hc) h
  have hcalls := callsOk_reachable h
  have hu := unmanaged_reachable h
  have hnone : w.call (.app n, w.depth (.app n)) = none := by simp [World.call]
  have hother : ∀ q k, q ≠ .app n → (w.destroy n).call (q, k) = w.call (q, k) := by
    intro q k hq
    rw [World.destroy_call, Function.update_of_ne]
    rintro he
    exact hq (congrArg Prod.fst he)
  have hd0 : ∀ k, (w.destroy n).call (.dispatcher, k) = w.call (.dispatcher, k) := fun k => hother _ k (by rintro ⟨⟩)
  have hw0 : ∀ g, (w.destroy n).entry g = w.entry g := fun g => by
    rw [World.entry, hother (.worker g) 0 (by rintro ⟨⟩), World.entry]
  refine ⟨st, ⟨⟨hst.fits, ?_⟩, ⟨hw.alive, fun g hg => ?_, fun g hg => ?_⟩, ?_, ?_, ?_, ?_, ?_⟩, hd.exists_, ?_⟩
  · rw [World.stages_update (World.destroy_call w n)]
    exact hst.token.keep (by simp [World.stages, hnone])
  · rw [hw0]
    exact hw.gated g hg
  · rw [hw0]
    exact hw.lost g hg
  · rw [CallsOk, World.destroy_call]
    refine forall_call_update (fun f hf => ?_) fun b f _ hb => hcalls b f hb
    cases hf
    refine ⟨fun tr htr => ?_, (by rintro _ _ ⟨⟩), (by rintro _ ⟨⟩)⟩
    cases htr
  · exact (stacked_reachable h).destroy hd.owner
  · rw [World.destroy_call]
    refine forall_call_update (fun f hf => ?_) fun b f _ hb => hd.initializes b f hb
    cases hf
    rfl
  · obtain ⟨t, ht⟩ := loops_reachable h
    exact ⟨t, by rw [hd0]; exact ht⟩
  · rw [World.dispatching_congr (hd0 0)]
    intro hno k
    rw [hd0]
    exact hd.dispatcher hno k
  · rw [World.destroy_call]
    refine forall_call_update (fun f hf t ht => ?_) fun b f _ hb t ht => absurd ht (hu.calls b f hb t)
    cases hf
    cases ht
    exact ⟨(by rintro ⟨⟩), rfl, (by rintro ⟨⟩)⟩

end ESPressio.Lifecycle
