import ESPressioThreads.Lifecycle.Generations
/-!
# What holds when `Shutdown` returns

`Shutdown` samples the task handle once. A call that found no task drains the
record that may be left, and a call that found one waits for its exit first.
Both end at the stage `quiet`, unless a worker is created in between.
-/

namespace ESPressio.Lifecycle

open Transition ESPressio.Thread

variable {w w' : World} {s s' : Shared} {p : TaskId} {ok : Bool} {f : Frame}

/-- `Shutdown` has sampled the handle, and is in a branch that waits. -/
def ShutdownPc.sampled : ShutdownPc → Bool
  | .claimManual | .storeFree | .releaseClaim | .loadHandle => false
  | .terminate .initializing _ | .terminate .ownTask _ => false
  | _ => true

/-- The stage of the protocol while `Shutdown` is at a program counter. -/
def ShutdownPc.Sees (st : Stage) : ShutdownPc → Prop
  | .claimManual | .storeFree | .releaseClaim | .loadHandle | .terminate .initializing _ | .terminate .ownTask _ => True
  | .loadInProgress (some _) | .loadInitializing (some _) | .terminate .wait _ | .waitExited => st ≠ .checked
  | .loadInProgress none | .loadInitializing none | .readState | .rereadState | .terminate .noTask _
  | .setTerminated | .loadPending | .isCurrentTask | .poll => st.tail = true
  | .finish => st = .quiet

/-! ## One step of `Shutdown` -/

variable {st st' : Stage}

theorem sees_choose (p : TaskId) {handle : Option Gen} (hn : handle = none → st.tail = true) (hs : st ≠ .checked) :
    (ShutdownPc.choose p handle).Sees st := by
  cases handle with
  | none => exact hn rfl
  | some g =>
    by_cases hp : p = .worker g <;> simp [ShutdownPc.choose, hp, ShutdownPc.Sees, hs]

theorem ne_checked_of_tail (h : st.tail = true) : st ≠ .checked := by
  rintro rfl
  cases h

theorem sees_terminate {branch : ShutdownBranch} {u u' : TerminatePc} (h : (ShutdownPc.terminate branch u).Sees st) :
    (ShutdownPc.terminate branch u').Sees st := by
  cases branch <;> exact h

theorem sees_after {branch : ShutdownBranch} {u : TerminatePc} {threw : Bool} {t : ShutdownPc}
    (h : (ShutdownPc.terminate branch u).Sees st) (ha : branch.after threw = .goto t) : t.Sees st := by
  unfold ShutdownBranch.after at ha
  split at ha
  · cases ha
  · cases branch <;> cases ha <;> exact h

theorem execShutdown_sees {t t' : ShutdownPc} (h : execShutdown s p t = some (s', .goto t')) (hf : st.Fits s.registers)
    (ht : t.Sees st) (hload : t = .loadHandle → s.taskHandle = none → st.tail = true) : t'.Sees st := by
  cases t <;> simp only [execShutdown] at h
  case claimManual | storeFree | releaseClaim => cases h; trivial
  case loadHandle =>
    cases h
    cases hh : s.taskHandle with
    | none => exact hload rfl hh
    | some g =>
      rintro rfl
      exact absurd (hf.handle.symm.trans hh) (by rintro ⟨⟩)
  case loadInProgress handle =>
    cases h
    have hn : handle = none → st.tail = true := by rintro rfl; exact ht
    have hs : st ≠ .checked := by
      cases handle
      · exact ne_checked_of_tail ht
      · exact ht
    split
    · cases handle <;> exact ht
    · exact sees_choose p hn hs
  case loadInitializing handle =>
    cases h
    have hn : handle = none → st.tail = true := by rintro rfl; exact ht
    have hs : st ≠ .checked := by
      cases handle
      · exact ne_checked_of_tail ht
      · exact ht
    split
    · trivial
    · exact sees_choose p hn hs
  case readState | rereadState => cases h; split <;> exact ht
  case terminate branch u =>
    simp only [Option.some.injEq, Prod.mk.injEq] at h
    obtain ⟨-, h⟩ := h
    obtain ⟨y, -, rfl⟩ | ⟨threw, -, hr⟩ := Next.inside_goto h
    · exact sees_terminate ht
    · exact sees_after ht hr
  case waitExited =>
    split at h <;> cases h
    exact hf.tail_of_taskExited ‹_› ht
  case loadPending | poll =>
    cases h
    split
    · exact ht
    · rename_i hp
      exact hf.quiet_of_pending (Bool.eq_false_iff.2 hp) ht
  case isCurrentTask =>
    simp only [Option.some.injEq, Prod.mk.injEq] at h
    obtain ⟨-, h⟩ := h
    split at h <;> cases h
    exact ht
  case finish | setTerminated => cases h

/-- A step of `Shutdown` keeps what it sees of the stage. -/
theorem FrameStep.sees {f' : Frame} {t' : ShutdownPc} (h : FrameStep s p f ok s' (some f'))
    (hok : ∀ tr, f.transition = some tr → f.pc.transition = some (tr.expected, tr.newState))
    (hf : st.Fits s.registers) (ht : ∀ t, f.pc = .shutdown t → t.Sees st)
    (hload : f.pc = .shutdown .loadHandle → s.taskHandle = none → st.tail = true) (ht' : f'.pc = .shutdown t') :
    t'.Sees st := by
  obtain ⟨pc, tr, after⟩ := f
  cases h.goto with
  | inTransition => exact ht t' ht'
  | transitionStart => exact ht t' ht'
  | transitionDone tr s' stored threw pc' htr hst hn =>
    have hpc := hok tr htr
    cases resume_goto hn with
    | shutdown t t₁ hr =>
      cases ht'
      have hsees := ht t rfl
      cases t with
      | terminate branch u =>
        simp only [ShutdownPc.resume] at hr
        obtain ⟨y, -, rfl⟩ | ⟨threw', -, ha⟩ := Next.inside_goto hr
        · exact sees_terminate hsees
        · exact sees_after hsees ha
      | setTerminated =>
        simp only [ShutdownPc.resume] at hr
        split at hr <;> cases hr
        exact hsees
      | _ => cases hpc
    | terminate | initializeThread | start | worker | cleanUp => cases ht'
  | exec s' pc' htr hpc hex =>
    cases exec_goto hex with
    | shutdown t t₁ hx =>
      cases ht'
      exact execShutdown_sees hx hf (ht t rfl) fun he => hload (by rw [he])
    | setFreeOnTerminate | terminate | initializeThread | start | worker | dispatcher | cleanUp => cases ht'

/-! ## Runs -/

/-- No worker is created while `Shutdown` waits: `Initialize` passes its check
while no `Shutdown` has sampled the handle, and `Shutdown` finds no task while
no `Initialize` is past its check. The dispatcher's `Shutdown` does not wait. -/
def ShutsDownAlone (w : World) : Action → Prop
  | .call _ _ => True
  | .step p ok => ChecksHold w (.step p ok) ∧ ∀ f, w.top p = some f →
      (f.pc.initializePc = some .recheckHandle → w.shared.taskHandle = none →
        ∀ a g t, w.call a = some g → g.pc = .shutdown t → a.1 ≠ .dispatcher → t.sampled = false) ∧
      (f.pc = .shutdown .loadHandle → w.shared.taskHandle = none → p ≠ .dispatcher →
        ∀ a g, w.call a = some g → g.pc.committed = false)

/-- What each `Shutdown` outside the dispatcher sees of the stage. -/
def ShutInv (w : World) (st : Stage) : Prop :=
  ∀ a f, w.call a = some f → ∀ t, f.pc = .shutdown t → a.1 ≠ .dispatcher → t.Sees st

/-- A stage that goes on without a check of `Initialize` is seen as before. -/
theorem ShutdownPc.Sees.passes {t : ShutdownPc} {l l' : Option Stage} {r r' : Registers} (h : t.Sees st)
    (hp : Passes l st l' st') (hm : Move l r l' r') (hne : t.sampled = true → st' ≠ .checked) : t.Sees st' := by
  have hquiet : st = .quiet → st' ≠ .checked → st' = .quiet := by
    rintro rfl hne
    cases hp with
    | keep => rfl
    | hold _ _ hr => cases hr
    | check => exact absurd rfl hne
  cases t with
  | claimManual | storeFree | releaseClaim | loadHandle => trivial
  | loadInProgress handle | loadInitializing handle =>
    cases handle with
    | none => exact hp.tail hm h (hne rfl)
    | some g => exact hne rfl
  | terminate branch u =>
    cases branch with
    | initializing | ownTask => trivial
    | noTask => exact hp.tail hm h (hne rfl)
    | wait => exact hne rfl
  | waitExited => exact hne rfl
  | readState | rereadState | setTerminated | loadPending | isCurrentTask | poll => exact hp.tail hm h (hne rfl)
  | finish => exact hquiet h (hne rfl)

theorem ShutdownPc.sampled_of_checked {t : ShutdownPc} (h : t.Sees .checked) : t.sampled = false := by
  cases t with
  | claimManual | storeFree | releaseClaim | loadHandle => rfl
  | loadInProgress handle | loadInitializing handle =>
    cases handle with
    | none => cases h
    | some g => exact absurd rfl h
  | terminate branch u =>
    cases branch with
    | initializing | ownTask => rfl
    | noTask => cases h
    | wait => exact absurd rfl h
  | waitExited => exact absurd rfl h
  | readState | rereadState | setTerminated | loadPending | isCurrentTask | poll => cases h
  | finish => cases h

theorem ShutInv.moved {a : TaskId × Nat} {f' : Option Frame} (h : ShutInv w st) (hst : AtStage w st)
    (hm : Moved w p ok w' st st' a f f') (hok : f.Ok a) (hc : ShutsDownAlone w (.step p ok)) : ShutInv w' st' := by
  obtain ⟨hrecheck, hload⟩ := hc.2 f hm.top
  rw [ShutInv, hm.calls]
  refine forall_call_update (fun g hg t' ht' ha => ?_) fun b g _ hg t ht hb => ?_
  · -- `Shutdown` itself stepped, and the stage is the same.
    have hstep := hm.frame
    rw [hg] at hstep
    obtain ⟨t, ht⟩ := hstep.method.2.2.2 t' ht'
    have hsees := hstep.sees hok.transition hst.fits (fun t ht => h a f hm.call t ht ha)
      (fun he hh => hst.tail_of hh (hload he hh (hm.task ▸ ha))) ht'
    have hpass := hm.passes
    rw [hg, ht, show stageAfter (some g) = none by simp [stageAfter, ht']; rfl] at hpass
    cases hpass
    exact hsees
  · have hsees := h b g hg t ht hb
    refine hsees.passes hm.passes hm.move fun hsampled hchecked => ?_
    subst hchecked
    have hpass := hm.passes
    have hmove := hm.move
    generalize hl : f.pc.stage = l at hpass hmove
    generalize hl' : stageAfter f' = l' at hpass hmove
    cases hpass with
    | keep =>
      rw [ShutdownPc.sampled_of_checked hsees] at hsampled
      cases hsampled
    | hold _ _ hr hr' =>
      obtain rfl := hmove.checked
      rw [ShutdownPc.sampled_of_checked hsees] at hsampled
      cases hsampled
    | check =>
      cases hf' : f' with
      | none => rw [hf'] at hl'; cases hl'
      | some f₁ =>
        have hstep := hm.frame
        rw [hf'] at hstep hl'
        rw [hrecheck (hstep.recheckHandle hl hl') hmove.handle_of_check b g t hg ht hb] at hsampled
        cases hsampled

theorem ShutInv.pushed {request : Request} (h : ShutInv w st) (hs : step w (.call p request) = some w') :
    ShutInv w' st := by
  obtain ⟨-, -, a, -, -, hcall⟩ := call_update hs
  rw [ShutInv, hcall]
  refine forall_call_update (fun g hg t ht _ => ?_) fun b g _ hb => h b g hb
  cases hg
  cases request <;> cases ht
  trivial

/-! ## The contract -/

/-- The worker executes `OnLoop`, or can come to it. -/
def WorkerPc.canLoop : WorkerPc → Bool
  | .waitGate | .loop | .onLoop => true
  | _ => false

/-- A worker that exists can execute `OnLoop`. -/
def World.CanLoop (w : World) (g : Gen) : Prop :=
  w.runnable (.worker g) = true ∧ ∃ f t, w.call (.worker g, 0) = some f ∧ f.pc = .worker g t ∧ t.canLoop = true

/-- When a `Shutdown` outside the dispatcher is about to return, no worker can
execute `OnLoop` and no record is outstanding. -/
def ShutdownDone (w : World) : Prop :=
  ∀ a f, w.call a = some f → f.pc = .shutdown .finish → a.1 ≠ .dispatcher →
    (∀ g, ¬ w.CanLoop g) ∧ w.outstanding = 0

/-- `Shutdown` keeps its contract while it runs alone. -/
theorem shutdown_done (w : World) (h : (system false).ReachableWhen ShutsDownAlone w) : ShutdownDone w := by
  have hinv : ∃ st, AtStage w st ∧ ShutInv w st := by
    refine h.invariant_with (I := fun w => ∃ st, AtStage w st ∧ ShutInv w st) (J := fun w => CallsOk w ∧ Unmanaged w)
      (fun _ hr => ⟨callsOk_reachable hr, unmanaged_reachable hr⟩) (fun w hw => ?_) ?_
    · obtain ⟨free, start, precision, rfl⟩ := hw
      refine ⟨.quiet, atStage_start _ ⟨rfl, rfl, rfl, rfl, fun g hg => absurd hg (Nat.not_lt_zero g)⟩, ?_⟩
      intro a f hf t ht
      rcases start_call hf with ⟨g, -, rfl⟩ | ⟨-, rfl⟩ <;> cases ht
    · rintro w a w' ⟨hok, hu⟩ - ⟨st, hst, hshut⟩ hc hs
      cases a with
      | call p request => exact ⟨st, hst.pushed hs, hshut.pushed hs⟩
      | step p ok =>
        obtain ⟨st', a, f, f', hm, hst'⟩ := hst.moved hok hu hc.1 hs
        exact ⟨st', hst', hshut.moved hst hm (hok a f hm.call) hc⟩
  obtain ⟨st, hst, hshut⟩ := hinv
  intro a f hf hpc ha
  obtain rfl : st = .quiet := hshut a f hf _ hpc ha
  have hfits : w.shared.registers.Has none false false [] none := hst.fits
  refine ⟨fun g hloop => ?_, ?_⟩
  · -- Every worker that was created is deleted.
    have hrun : g < w.shared.created ∧ g ∉ w.shared.killed := by simpa [World.runnable] using hloop.1
    cases hfits.alive g hrun.1 hrun.2
  · have hq : w.shared.queue = [] := hfits.queue
    simp [World.outstanding, hq, hst.not_dispatching rfl]

/-! ## A worker created after the sample -/

/-- A call of `Shutdown` that is in a branch that waits. -/
def Pc.shutsDown : Pc → Bool
  | .shutdown t => t.sampled
  | _ => false

/-- `ShutsDownAlone` of the tasks that run. -/
def ShutsDownAloneOn (w : World) (a : Action) : Prop :=
  a.task ∈ [TaskId.app 0, .worker 0, .dispatcher] ∧ ∀ f ∈ w.top a.task,
    (f.pc.initializePc = some .recheckHandle → w.shared.terminationDispatchPending = false ∧
      w.callsOn [.app 0, .worker 0, .dispatcher] (fun f => !f.pc.committed && !f.pc.shutsDown) = true) ∧
    (f.pc = .shutdown .loadHandle → w.shared.taskHandle ≠ none)

instance (w : World) (a : Action) : Decidable (ShutsDownAloneOn w a) := by
  unfold ShutsDownAloneOn
  exact inferInstance

theorem shutsDownAlone_of_on {a : Action} (hi : w.IdleBut [.app 0, .worker 0, .dispatcher])
    (h : ShutsDownAloneOn w a) : ShutsDownAlone w a := by
  cases a with
  | call => trivial
  | step p ok =>
    have hon : w.callsOn [.app 0, .worker 0, .dispatcher] (fun f => !f.pc.committed && !f.pc.shutsDown) = true →
        ∀ a g, w.call a = some g → g.pc.committed = false ∧ g.pc.shutsDown = false := fun hon a g hg => by
      have := hi.forall_call (P := fun f => !f.pc.committed && !f.pc.shutsDown)
        (by rintro f (⟨g, rfl⟩ | rfl) <;> rfl) hon a g hg
      simpa using this
    refine ⟨fun f htop hpc _ => ?_, fun f htop => ⟨fun hpc _ a g t hg ht _ => ?_, fun hpc hh => ?_⟩⟩
    · obtain ⟨hp, hcalls⟩ := (h.2 f htop).1 hpc
      exact ⟨hp, fun a g hg => (hon hcalls a g hg).1⟩
    · have := (hon ((h.2 f htop).1 hpc).2 a g hg).2
      rwa [ht] at this
    · exact absurd hh ((h.2 f htop).2 hpc)

/-- `Shutdown` of the running thread is about to return. -/
theorem shutdown_returns : ∃ w, (system false).ReachableWhen ShutsDownAlone w ∧
    w.call (.app 0, 0) = some ⟨.shutdown .finish, none, false⟩ ∧ ShutdownDone w := by
  have hrun : ((system false).replayWhen ShutsDownAloneOn (newThread false false)
      (initialized ++ [.call (.app 0) .shutdown] ++ steps (.app 0) 13 ++ steps (.worker 0) 13 ++ dispatched ++
        steps (.app 0) 2)).map (fun w => w.call (.app 0, 0)) =
      some (some ⟨.shutdown .finish, none, false⟩) := by
    decide +kernel
  obtain ⟨w, hs, hp⟩ := Option.map_eq_some_iff.1 hrun
  have hl := (Transition.System.leads_of_replayWhen hs).mono_with (idleBut_start _ _)
    (fun _ _ _ hi hd hst => hi.step hd.1 hst) fun _ _ hi hd => shutsDownAlone_of_on hi hd
  have hr := (Transition.System.ReachableWhen.init (newThread_init false false)).leads hl
  exact ⟨w, hr, hp, shutdown_done w hr⟩

/-- Task 1's `Shutdown` finds no task; task 0 then initializes the thread, and
`Shutdown` returns while the worker runs `OnLoop`. -/
theorem returns_in_loop : ¬ ∀ w, (system false).Reachable w → ShutdownDone w := by
  intro hall
  have hrun : ((system false).replay (newThread false false)
      ([.call (.app 1) .shutdown] ++ steps (.app 1) 5 ++ initialized ++ steps (.worker 0) 2 ++
        steps (.app 1) 19)).map
      (fun w => (w.runnable (.worker 0), w.call (.app 1, 0), w.call (.worker 0, 0))) =
      some (true, some ⟨.shutdown .finish, none, false⟩, some ⟨.worker 0 .onLoop, none, false⟩) := by
    decide +kernel
  obtain ⟨w, hs, hp⟩ := Option.map_eq_some_iff.1 hrun
  simp only [Prod.mk.injEq] at hp
  obtain ⟨hruns, hf, hworker⟩ := hp
  have hr := Transition.System.reachable_of_replay (newThread_init false false) hs
  exact (hall w hr _ _ hf rfl nofun).1 0 ⟨hruns, _, _, hworker, rfl, rfl⟩

end ESPressio.Lifecycle
