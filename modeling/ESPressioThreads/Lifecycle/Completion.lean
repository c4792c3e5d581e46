import Mathlib.Algebra.Order.BigOperators.Group.Finset
import ESPressioThreads.Lifecycle.Captured
/-!
# The exit comes to its end

While no `Shutdown` has captured its task, a worker that has left its loop can
always be brought through the rest of the exit protocol: the worker, the
dispatcher, or the task that holds the transition lock has a step, and each
lowers the work they still have.
-/

namespace ESPressio.Lifecycle

open Transition ESPressio.Thread

variable {w w' : World} {s s' : Shared} {p q : TaskId} {ok : Bool} {f : Frame} {f' : Option Frame}
  {st st' : Stage} {a : TaskId × Nat} {g : Gen} {n : Nat} {x y : World × List Event} {log : List Event}

/-! ## Where calls are -/

/-- No call is idle, the dispatcher does not poll for its own dispatch, and a
worker does not wait for an exit. -/
structure Placed (w : World) : Prop where
  idle : ∀ a f, w.call a = some f → f.pc ≠ .idle
  poll : ∀ n f, w.call (.dispatcher, n) = some f → f.pc ≠ .shutdown .poll
  worker : ∀ g n f, w.call (.worker g, n) = some f → f.pc.waits (.worker g) = false

theorem FrameStep.not_idle {f₁ : Frame} (h : FrameStep s p f ok s' (some f₁)) (hne : f.pc ≠ .idle) :
    f₁.pc ≠ .idle := by
  cases h.goto with
  | inTransition => exact hne
  | transitionStart => exact hne
  | transitionDone tr s' stored threw pc htr hst hn =>
    generalize f.pc = x at hn
    cases resume_goto hn <;> nofun
  | exec s' pc htr hpc hex =>
    generalize f.pc = x at hex
    cases exec_goto hex <;> nofun

/-- Only a task that is not the dispatcher comes to poll. -/
theorem FrameStep.poll {f₁ : Frame} (h : FrameStep s .dispatcher f ok s' (some f₁)) (hpc : f₁.pc = .shutdown .poll) :
    f.pc = .shutdown .poll := by
  cases h.goto with
  | inTransition => exact hpc
  | transitionStart => exact hpc
  | transitionDone tr s' stored threw pc htr hst hn =>
    generalize f.pc = x at hn
    cases resume_goto hn with
    | shutdown t t' hr =>
      cases hpc
      cases t with
      | terminate branch u =>
        obtain ⟨y, -, he⟩ | ⟨threw', -, ha⟩ := Next.inside_goto hr
        · cases he
        · unfold ShutdownBranch.after at ha
          split at ha
          · cases ha
          · cases branch <;> cases ha
      | _ =>
        simp only [ShutdownPc.resume] at hr
        split at hr <;> cases hr
    | terminate | initializeThread | start | worker | cleanUp => cases hpc
  | exec s' pc htr hno hex =>
    generalize f.pc = x at hex
    cases exec_goto hex with
    | shutdown t t' hx =>
      cases hpc
      cases t <;> simp only [execShutdown] at hx
      case poll => rfl
      case terminate branch u =>
        simp only [Option.some.injEq, Prod.mk.injEq] at hx
        obtain ⟨y, -, he⟩ | ⟨threw', -, ha⟩ := Next.inside_goto hx.2
        · cases he
        · unfold ShutdownBranch.after at ha
          split at ha
          · cases ha
          · cases branch <;> cases ha
      case isCurrentTask =>
        rw [if_pos trivial] at hx
        cases hx
      case loadInProgress handle | loadInitializing handle =>
        simp only [Option.some.injEq, Prod.mk.injEq, Next.goto.injEq] at hx
        obtain ⟨-, hx⟩ := hx
        split at hx
        · cases hx
        · cases handle <;> cases hx
      case readState | rereadState | loadPending =>
        simp only [Option.some.injEq, Prod.mk.injEq, Next.goto.injEq] at hx
        obtain ⟨-, hx⟩ := hx
        split at hx <;> cases hx
      all_goals first
        | cases hx
        | (split at hx <;> cases hx)
    | setFreeOnTerminate | terminate | initializeThread | start | worker | dispatcher | cleanUp => cases hpc

/-- A worker that runs user code has the current generation. -/
theorem AtStage.of_userCode {t : WorkerPc} (h : AtStage w st) (hf : w.call (.worker g, 0) = some f) (hok : f.Ok a)
    (hpc : f.pc = .worker g t) (hu : f.userCode = true) : st = .looping g ∨ st = .claimed g (some g) := by
  have hstage : f.pc.stage = some (.looping g) ∨ f.pc.stage = some (.claimed g (some g)) := by
    obtain ⟨pc, tr, after⟩ := f
    obtain rfl : pc = .worker g t := hpc
    cases t with
    | waitGate | suspended | storePending | send | clearPending =>
      obtain rfl : tr = none := hok.no_transition rfl
      cases hu
    | loop | onLoop | onExecutionFailed | notifyExecutionFailed | terminate | beginFinalization => exact .inl rfl
    | setTerminated => exact .inr rfl
  rcases hstage with hs | hs
  · exact .inl (h.token.eq_of_holds (a := (.worker g, 0)) (by simp [World.stages, hf, hs])).symm
  · exact .inr (h.token.eq_of_holds (a := (.worker g, 0)) (by simp [World.stages, hf, hs])).symm

theorem Placed.moved (h : Placed w) (hm : Moved w p ok w' st st' (p, n) f f') (hst : AtStage w st)
    (hoks : CallsOk w) (hs : Stacked w) (he : w.Enters) (hd : w.depth p = n + 1) : Placed w' := by
  refine ⟨?_, fun k f₁ hf₁ => ?_, fun g k f₁ hf₁ => ?_⟩
  · rw [hm.calls]
    refine forall_call_update (fun f₁ hf₁ => ?_) fun b f₁ _ hb => h.idle b f₁ hb
    have hstep := hm.frame
    rw [hf₁] at hstep
    exact hstep.not_idle (h.idle _ f hm.call)
  · rw [hm.calls, Function.update_apply] at hf₁
    split at hf₁
    · rename_i hk
      cases hk
      have hstep := hm.frame
      rw [hf₁] at hstep
      exact fun hpc => h.poll n f hm.call (hstep.poll hpc)
    · exact h.poll k f₁ hf₁
  · rw [hm.calls, Function.update_apply] at hf₁
    split at hf₁
    · rename_i hk
      cases hk
      by_contra hne
      have hstep := hm.frame
      rw [hf₁] at hstep
      rcases hstep.waits (hoks _ f hm.call) (by simpa using hne) with ⟨hold, -⟩ | ⟨hpc, x, hx, hne⟩
      · rw [h.worker g n f hm.call] at hold
        cases hold
      · -- The worker whose user code calls `Shutdown` is the task of the handle.
        obtain ⟨f₀, hf₀, t, ht⟩ := he g
        have hn : n ≠ 0 := by
          rintro rfl
          rw [hm.call] at hf₀
          cases hf₀
          rw [hpc] at ht
          cases ht
        have huser := hs (.worker g) 0 (by omega)
        rw [(World.call_eq_some.1 hf₀).2] at huser
        have hhandle : w.shared.taskHandle = some g := by
          rcases hst.of_userCode hf₀ (hoks _ f₀ hf₀) ht huser with rfl | rfl
          · exact hst.fits.1.handle
          · exact hst.fits.2.1.handle
        rw [hhandle] at hx
        cases hx
        exact hne rfl
    · exact h.worker g k f₁ hf₁

theorem Placed.pushed {request : Request} (h : Placed w) (hs : Lifecycle.step w (.call p request) = some w') :
    Placed w' := by
  obtain ⟨-, -, a, -, -, hcall⟩ := call_update hs
  have hentry : request.entry ≠ .idle ∧ request.entry ≠ .shutdown .poll ∧ ∀ q, request.entry.waits q = false := by
    cases request <;> exact ⟨nofun, nofun, fun _ => rfl⟩
  refine ⟨?_, fun k f hf => ?_, fun g k f hf => ?_⟩
  · rw [hcall]
    refine forall_call_update (fun f hf => ?_) fun b f _ hb => h.idle b f hb
    cases hf
    exact hentry.1
  · rw [hcall, Function.update_apply] at hf
    split at hf
    · cases hf; exact hentry.2.1
    · exact h.poll k f hf
  · rw [hcall, Function.update_apply] at hf
    split at hf
    · cases hf; exact hentry.2.2 _
    · exact h.worker g k f hf

theorem placed_start (s : Shared) : Placed (.start s) := by
  refine ⟨fun a f hf => ?_, fun n f hf => ?_, fun g n f hf => ?_⟩
  · rcases start_call hf with ⟨g, -, rfl⟩ | ⟨-, rfl⟩ <;> nofun
  · rcases start_call hf with ⟨g, -, rfl⟩ | ⟨-, rfl⟩ <;> nofun
  · rcases start_call hf with ⟨g, -, rfl⟩ | ⟨-, rfl⟩ <;> rfl

/-! ## Runs -/

structure RunInv (x : World × List Event) (st : Stage) : Prop where
  exit : ExitInv x st
  workers : WorkersInv x.1 st
  stacked : Stacked x.1
  initializing : InitializingInv x.1
  enters : x.1.Enters
  loops : x.1.Loops
  placed : Placed x.1

/-- A step of a task keeps the invariants. -/
theorem RunInv.moved (h : RunInv x st) (hc : Assumed x.1 (.step p ok))
    (hs : loggedSystem.step x (.step p ok) = some y) :
    ∃ st' n f f', x.1.depth p = n + 1 ∧ Moved x.1 p ok y.1 st st' (p, n) f f' ∧
      y.2 = x.2 ++ (f.event x.1.shared ok).toList ∧ RunInv y st' := by
  have hstep := (loggedSystem_step.1 hs).1
  obtain ⟨st', n, f, f', hd, hm, hlog, hexit⟩ := h.exit.moved hc hs
  have hok := h.exit.calls (p, n) f hm.call
  exact ⟨st', n, f, f', hd, hm, hlog, hexit, h.workers.moved h.exit.stage hm hok (step_moves hstep).1,
    h.stacked.step hstep, h.initializing.step h.exit.one h.exit.unmanaged hstep, h.enters.step h.exit.calls hstep,
    h.loops.step h.exit.calls hstep, h.placed.moved hm h.exit.stage h.exit.calls h.stacked h.enters hd⟩

theorem RunInv.step {b : Action} (h : RunInv x st) (hc : Assumed x.1 b) (hs : loggedSystem.step x b = some y) :
    ∃ st', RunInv y st' := by
  cases b with
  | call p request =>
    have hstep := (loggedSystem_step.1 hs).1
    exact ⟨st, h.exit.pushed hc hs, h.workers.pushed hstep, h.stacked.step hstep,
      h.initializing.step h.exit.one h.exit.unmanaged hstep, h.enters.step h.exit.calls hstep,
      h.loops.step h.exit.calls hstep, h.placed.pushed hstep⟩
  | step p ok =>
    obtain ⟨st', -, -, -, -, -, -, h'⟩ := h.moved hc hs
    exact ⟨st', h'⟩

theorem runInv_reachable (h : loggedSystem.ReachableWhen (fun x a => Assumed x.1 a) x) : ∃ st, RunInv x st := by
  refine h.invariant (I := fun x => ∃ st, RunInv x st) ?_ fun x a y ⟨st, hx⟩ hc hs => hx.step hc hs
  rintro ⟨w, log⟩ ⟨⟨free, start, precision, rfl⟩, rfl⟩
  exact ⟨.quiet,
    exitInv_start _ ⟨rfl, rfl, rfl, rfl, fun g hg => absurd hg (Nat.not_lt_zero g)⟩ rfl ⟨rfl, rfl⟩ rfl,
    workersInv_start _ rfl, stacked_start _, initializingInv_start _, enters_start _, ⟨.receive, rfl⟩,
    placed_start _⟩

/-! ## Who has a step -/

/-- The last call of the task makes a step and lowers its rank. -/
structure World.Advances (w : World) (p : TaskId) (n : Nat) (f : Frame) : Prop where
  depth : w.depth p = n + 1
  call : w.call (p, n) = some f
  runnable : w.runnable p = true
  pc : f.transition = none → f.pc.transition = none → f.pc.advances w.shared = true

/-- A call that user code made goes on, unless it waits. -/
theorem RunInv.nested (h : RunInv x st) (hst : st ≠ .quiet) (hf : x.1.call (q, n) = some f) (hn : 0 < n)
    (hwait : f.pc ≠ .shutdown .waitExited)
    (hpoll : f.pc = .shutdown .poll → x.1.shared.terminationDispatchPending = false) :
    f.pc.advances x.1.shared = true := by
  have hok := h.exit.calls _ f hf
  have hlock : f.pc.initializePc ≠ some .lockConfiguration := fun hpc => hst (h.exit.checks.quiet _ f hf _ hpc rfl)
  have hidle := h.placed.idle _ f hf
  have hclean := h.exit.unmanaged.calls _ f hf
  have hroot : ∀ {b : TaskId}, (q, n) ≠ (b, 0) := fun he => absurd (Prod.mk.inj he).2 (by omega)
  cases hpc : f.pc with
  | idle => exact absurd hpc hidle
  | cleanUp t => exact absurd hpc (hclean t)
  | worker g t => exact absurd (hok.worker g t hpc) hroot
  | dispatcher t => exact absurd (hok.dispatcher t hpc) hroot
  | pause | setFreeOnTerminate | setStartOnInitialize | terminate => rfl
  | initializeThread t =>
    rw [hpc] at hlock
    cases t <;> first | rfl | exact absurd rfl hlock
  | start t =>
    rw [hpc] at hlock
    cases t with
    | initializeThread t => cases t <;> first | rfl | exact absurd rfl hlock
    | _ => rfl
  | shutdown t =>
    rw [hpc] at hwait hpoll
    cases t
    case waitExited => exact absurd rfl hwait
    case poll => simp [Pc.advances, hpoll rfl]
    all_goals rfl

/-- A worker past its gate, whose record is not sent, is the current one. -/
theorem RunInv.runnable_of_stage {t : WorkerPc} (h : RunInv x st) (hf : x.1.call (.worker g, 0) = some f)
    (hpc : f.pc = .worker g t) (ht : t.stage g ≠ none) : x.1.runnable (.worker g) = true := by
  obtain ⟨z, hz⟩ := Option.ne_none_iff_exists'.1 ht
  have hst := h.exit.stage.token.eq_of_holds (a := (.worker g, 0)) (y := z)
    (by simp [World.stages, hf, hpc, Pc.stage, hz])
  subst hst
  have hworker : z.worker x.1.shared.taskHandle = some g := by
    cases t <;> cases hz <;> rfl
  obtain ⟨hc, hk⟩ := h.workers.alive.worker g hworker
  have hk : g ∉ x.1.shared.killed := hk
  have hc : g < x.1.shared.created := hc
  simp [World.runnable, hc, hk]

/-- A worker that holds the lock is the current one. -/
theorem RunInv.holder_runnable {m : Nat} (h : RunInv x st) (hf : x.1.call (q, m) = some f) (hh : f.holds = true) :
    x.1.runnable q = true := by
  cases q with
  | app | dispatcher => rfl
  | worker g =>
    obtain ⟨f₀, hf₀, t, ht⟩ := h.enters g
    by_cases hstage : t.stage g = none
    · -- At its gate or suspended it has made no transition and no call.
      have hno : f₀.transition = none := by
        refine (h.exit.calls _ f₀ hf₀).no_transition ?_
        rw [ht]
        cases t <;> first | rfl | cases hstage
      have huser : f₀.userCode = false := by
        simp only [Frame.userCode, hno, ht]
        cases t <;> first | rfl | cases hstage
      cases m with
      | zero =>
        rw [hf₀] at hf
        cases hf
        rw [Frame.holds_of_none hno] at hh
        cases hh
      | succ m =>
        have := h.stacked.no_call hf₀ huser m
        rw [Nat.zero_add, hf] at this
        cases this
    · exact h.runnable_of_stage hf₀ ht hstage

/-- The owner of the lock goes on, and is not captured. -/
theorem RunInv.holder (h : RunInv x st) (hc : ¬ x.1.Captured) (hst : st ≠ .quiet)
    (hown : x.1.shared.transitionOwner = some q)
    (hfree : x.1.shared.terminationDispatchPending = false ∨ Calm x.1) : ∃ n f, x.1.Advances q n f := by
  obtain ⟨m, f₀, hf₀, hh⟩ := h.exit.lock.owner_call hown
  obtain ⟨n, hn⟩ : ∃ n, x.1.depth q = n + 1 :=
    Nat.exists_eq_succ_of_ne_zero fun h0 => by
      have := (World.call_eq_some.1 hf₀).1
      dsimp only at this
      omega
  have hlt : m < n + 1 := hn ▸ (World.call_eq_some.1 hf₀).1
  refine ⟨n, x.1.frames (q, n), hn, World.call_eq_some.2 ⟨by simp [hn], rfl⟩, h.holder_runnable hf₀ hh,
    fun htr _ => ?_⟩
  have hcall : x.1.call (q, n) = some (x.1.frames (q, n)) := World.call_eq_some.2 ⟨by simp [hn], rfl⟩
  rcases Nat.lt_succ_iff_lt_or_eq.1 hlt with hmn | rfl
  · refine h.nested hst hcall (by omega) (fun hpc => hc ?_) fun hpc => ?_
    · exact ⟨q, n, _, hcall, by rw [hpc]; rfl, .inr ⟨m, f₀, hmn, hf₀, hh⟩⟩
    · refine hfree.resolve_right fun hcalm => ?_
      -- In its callbacks the call that holds the lock is not at the end of its transition.
      have huser := h.stacked q m (by omega)
      rw [(World.call_eq_some.1 hf₀).2] at huser
      cases hx : f₀.transition with
      | none => rw [Frame.holds_of_none hx] at hh; cases hh
      | some tr =>
        rw [Frame.holds_of_some hx] at hh
        simp only [Frame.userCode, hx] at huser
        rcases hcalm _ f₀ hf₀ tr hx with he | he | he <;> simp [he] at hh huser
  · rw [hf₀] at hcall
    rw [← Option.some.inj hcall] at htr
    rw [Frame.holds_of_none htr] at hh
    cases hh

theorem World.call_last {m : Nat} (h : w.call (q, m) = some f) :
    ∃ n f₁, w.depth q = n + 1 ∧ w.call (q, n) = some f₁ ∧ m ≤ n := by
  have hlt := (World.call_eq_some.1 h).1
  dsimp only at hlt
  obtain ⟨n, hn⟩ := Nat.exists_eq_succ_of_ne_zero (by omega : w.depth q ≠ 0)
  exact ⟨n, _, hn, World.call_eq_some.2 ⟨by simp [hn], rfl⟩, by omega⟩

/-- A worker that has left its loop goes on. -/
theorem RunInv.worker_ready {t : WorkerPc} (h : RunInv x st) (hf : x.1.call (.worker g, 0) = some f)
    (hpc : f.pc = .worker g t) (ht : t.exitStep = some 2) : ∃ n f₁, x.1.Advances (.worker g) n f₁ ∧
      (f₁.transition ≠ none → x.1.shared.terminationDispatchPending = false) := by
  have hok := h.exit.calls _ f hf
  have hst := h.exit.stage
  have hstage : t.stage g ≠ none := by
    cases t <;> first | exact Option.some_ne_none _ | cases ht
  have hrun := h.runnable_of_stage hf hpc hstage
  obtain ⟨n, f₁, hn, hf₁, -⟩ := World.call_last hf
  -- The exit itself runs, or a callback of its transition to `Terminating` has called further methods.
  by_cases h0 : n = 0
  · subst h0
    rw [hf] at hf₁
    cases hf₁
    refine ⟨0, f, ⟨hn, hf, hrun, fun _ _ => ?_⟩, fun htr => ?_⟩
    · rw [hpc]
      cases t <;> first | rfl | cases ht
    · obtain ⟨tr, htr⟩ := Option.ne_none_iff_exists'.1 htr
      have htransition := hok.transition tr htr
      rw [hpc] at htransition
      obtain ⟨z, hz⟩ := Option.ne_none_iff_exists'.1 hstage
      have hfits := hst.fits
      rw [← hst.token.eq_of_holds (a := (.worker g, 0)) (y := z)
        (by simp [World.stages, hf, hpc, Pc.stage, hz])] at hfits
      cases t <;> cases hz <;> first | exact hfits.1.pending | exact hfits.2.1.pending | cases htransition
  · have hpending : x.1.shared.terminationDispatchPending = false := by
      have huser := h.stacked (.worker g) 0 (by omega)
      rw [(World.call_eq_some.1 hf).2] at huser
      rcases hst.of_userCode hf hok hpc huser with rfl | rfl
      · exact hst.fits.1.pending
      · exact hst.fits.2.1.pending
    -- No `Shutdown` called there waits: it finds the flag clear, and the worker is its own task.
    have hne : st ≠ .quiet := hst.ne_quiet hf (by rw [hpc]; exact hstage)
    refine ⟨n, f₁, ⟨hn, hf₁, hrun, fun _ _ => ?_⟩, fun _ => hpending⟩
    refine h.nested hne hf₁ (by omega) (fun hwait => ?_) fun _ => hpending
    have := h.placed.worker g n f₁ hf₁
    rw [hwait] at this
    cases this

theorem Pc.dispatcher_of_recorded {pc : Pc} (hs : pc.stage = some st) (hr : st.recorded = some g) :
    ∃ t, pc = .dispatcher t := by
  cases pc with
  | initializeThread t => cases t <;> cases hs <;> cases hr
  | start t =>
    cases t with
    | initializeThread t => cases t <;> cases hs <;> cases hr
    | _ => cases hs
  | worker x t => cases t <;> cases hs <;> cases hr
  | dispatcher t => exact ⟨t, rfl⟩
  | _ => cases hs

/-- The dispatcher goes on with a record, up to its last step. -/
theorem RunInv.dispatcher_ready (h : RunInv x st) (hc : ¬ x.1.Captured) (hrec : st.recorded = some g) :
    (∃ f, x.1.depth .dispatcher = 1 ∧ x.1.call (.dispatcher, 0) = some f ∧ f.pc = .dispatcher (.clearPending g)) ∨
      ∃ n f, x.1.Advances .dispatcher n f := by
  have hst := h.exit.stage
  obtain ⟨f₀, hf₀, t, ht⟩ := World.loops_iff.1 h.loops
  obtain ⟨n, f₁, hn, hf₁, -⟩ := World.call_last hf₀
  by_cases h0 : n = 0
  · subst h0
    rw [hf₀] at hf₁
    cases hf₁
    have hstage : ∀ z, t.stage = some z → z = st := fun z hz =>
      hst.token.eq_of_holds (a := (.dispatcher, 0)) (by simp [World.stages, hf₀, ht, Pc.stage, hz])
    cases t with
    | clearPending g' =>
      obtain rfl := hstage _ rfl
      cases hrec
      exact .inl ⟨f₀, hn, hf₀, ht⟩
    | receive =>
      refine .inr ⟨0, f₀, hn, hf₀, rfl, fun _ _ => ?_⟩
      by_cases hr : st.rest = true
      · -- The record is in the queue.
        have hqueue : x.1.shared.queue = [g] := by
          have hfits := hst.fits
          cases st <;> cases hrec <;> cases hr
          obtain ⟨_, -, hhas, -⟩ := hfits
          exact hhas.queue
        simp [ht, Pc.advances, hqueue]
      · obtain ⟨⟨b, m⟩, hb⟩ := hst.token.exists_of_held (Bool.eq_false_iff.2 hr)
        obtain ⟨f₂, hf₂, hs⟩ := Option.bind_eq_some_iff.1 hb
        obtain ⟨t₂, ht₂⟩ := Pc.dispatcher_of_recorded hs hrec
        cases (h.exit.calls _ f₂ hf₂).dispatcher t₂ ht₂
        rw [hf₀] at hf₂
        cases hf₂
        rw [ht] at hs
        cases hs
    | _ => exact .inr ⟨0, f₀, hn, hf₀, rfl, fun _ _ => by rw [ht]; rfl⟩
  · have hne : st ≠ .quiet := by
      rintro rfl
      cases hrec
    refine .inr ⟨n, f₁, hn, hf₁, rfl, fun _ _ => ?_⟩
    refine h.nested hne hf₁ (by omega) (fun hwait => hc ?_) fun hpoll => absurd hpoll (h.placed.poll n f₁ hf₁)
    exact ⟨.dispatcher, n, f₁, hf₁, by rw [hwait]; rfl, .inl rfl⟩

/-! ## Whose turn it is -/

/-- A generation that `Initialize` has in hand is not released. -/
theorem InitializePc.gen_cases {t : InitializePc} (hs : t.stage = some st) (hg : st.gen = some g) :
    st.unreleased = some g ∨ st.abandoned = some g := by
  cases t <;> cases hs <;> cases hg <;> first | exact .inl rfl | exact .inr rfl

theorem Pc.exitStep_of_gen {pc : Pc} (hs : pc.stage = some st) (hg : st.gen = some g)
    (hu : st.unreleased = none) (ha : st.abandoned = none) : ∃ n, pc.exitStep = some (g, n) := by
  have hinit : ∀ t : InitializePc, t.stage ≠ some st := by
    intro t ht
    rcases InitializePc.gen_cases ht hg with he | he
    · rw [hu] at he; cases he
    · rw [ha] at he; cases he
  cases pc with
  | initializeThread t => exact absurd hs (hinit t)
  | start t =>
    cases t with
    | initializeThread t => exact absurd hs (hinit t)
    | _ => cases hs
  | worker x t => cases t <;> cases hs <;> cases hg <;> exact ⟨_, rfl⟩
  | dispatcher t => cases t <;> cases hs <;> cases hg <;> exact ⟨_, rfl⟩
  | _ => cases hs

theorem Stage.gen_of_unreleased (h : st.unreleased = some g) : st.gen = some g := by
  cases st <;> first | exact h | cases h

theorem Stage.gen_of_abandoned (h : st.abandoned = some g) : st.gen = some g := by
  cases st with
  | failing | failed => exact h
  | claimed x task | sending x task =>
    cases task with
    | none => exact h
    | some => cases h
  | _ => cases h

/-- Every released worker is somewhere in its exit. -/
theorem LogInv.reaches (h : LogInv w log st) (hst : AtStage w st) (hr : .released g ∈ log) : ∃ n, Reached w st g n := by
  by_cases hg : st.gen = some g
  · have hu : st.unreleased = none := by
      by_contra hne
      obtain ⟨z, hz⟩ := Option.ne_none_iff_exists'.1 hne
      obtain rfl : z = g := Option.some.inj ((Stage.gen_of_unreleased hz).symm.trans hg)
      exact history_eq_nil_of (h.fresh z (.inr hz)) hr
    have ha : st.abandoned = none := by
      by_contra hne
      obtain ⟨z, hz⟩ := Option.ne_none_iff_exists'.1 hne
      obtain rfl : z = g := Option.some.inj ((Stage.gen_of_abandoned hz).symm.trans hg)
      exact h.abandoned z hz hr
    by_cases hrest : st.rest = true
    · have hrec := h.recorded
      cases st with
      | queued z => cases hg; exact ⟨3, .inr (.inl ⟨rfl, rfl⟩)⟩
      | gated => cases hu
      | lost => cases hrec
      | quiet => cases hg
      | _ => cases hrest
    · obtain ⟨a, hstage⟩ := hst.token.exists_of_held (Bool.eq_false_iff.2 hrest)
      obtain ⟨f, hf, hs⟩ := Option.bind_eq_some_iff.1 hstage
      obtain ⟨n, hn⟩ := Pc.exitStep_of_gen hs hg hu ha
      exact ⟨n, .inr (.inr ⟨a, f, hf, hn⟩)⟩
  · exact ⟨10, .inl ⟨hg, rfl⟩⟩

theorem leftLoop_mem_take (h : .leftLoop g ∈ (exitProtocol g).take n) : 2 ≤ n := by
  by_contra hlt
  have : n = 0 ∨ n = 1 := by omega
  rcases this with rfl | rfl <;> simp [exitProtocol] at h

theorem mem_history {e : Event} (h : e ∈ log) : e ∈ history e.gen log := by
  simp [history, h]

/-- The exit is done, or it is the worker's turn, or the dispatcher's. -/
theorem LogInv.turn (h : LogInv w log st) (hst : AtStage w st) (hoks : CallsOk w) (hr : .released g ∈ log)
    (hl : .leftLoop g ∈ log) : history g log = exitProtocol g ∨
      (∃ f t, w.call (.worker g, 0) = some f ∧ f.pc = .worker g t ∧ t.exitStep = some 2) ∨
      st.recorded = some g := by
  obtain ⟨n, hn⟩ := h.reaches hst hr
  have hlog := h.reached g n hr hn
  have hle : 2 ≤ n := leftLoop_mem_take (g := g) (by rw [← hlog]; exact mem_history hl)
  rcases hn with ⟨-, rfl⟩ | ⟨rfl, rfl⟩ | ⟨a, f, hf, hs⟩
  · exact .inl hlog
  · exact .inr (.inr rfl)
  · right
    cases hpc : f.pc with
    | worker g' t =>
      rw [hpc] at hs
      obtain ⟨m, hm, he⟩ := Option.map_eq_some_iff.1 hs
      cases he
      obtain rfl := (hoks a f hf).worker g t hpc
      refine .inl ⟨f, t, hf, hpc, ?_⟩
      cases t <;> cases hm <;> first | rfl | omega
    | dispatcher t =>
      rw [hpc] at hs
      obtain ⟨z, hz, hrec⟩ : ∃ z, t.stage = some z ∧ z.recorded = some g := by
        cases t <;> cases hs <;> exact ⟨_, rfl, rfl⟩
      refine .inr ?_
      rw [← hst.token.eq_of_holds (a := a) (y := z) (by simp [World.stages, hf, hpc, Pc.stage, hz])]
      exact hrec
    | _ => rw [hpc] at hs; cases hs

/-! ## The exit is brought to its end -/

/-- The step of a task whose last call advances. -/
theorem World.Advances.step (h : w.Advances p n f) (hoks : CallsOk w) (hu : Unmanaged w)
    (hl : f.transition ≠ none → w.shared.transitionOwner = none ∨ w.shared.transitionOwner = some p) :
    ∃ w', Lifecycle.step w (.step p true) = some w' ∧ w'.work p < w.work p ∧ ∀ q, q ≠ p → w'.work q = w.work q := by
  obtain ⟨hd, hcall, hrun, hpc⟩ := h
  obtain ⟨-, rfl⟩ := World.call_eq_some.1 hcall
  exact step_lowers hrun hd (hoks _ _ hcall) (hu.calls _ _ hcall) hl hpc

/-- The tasks of `T` have less to do when one of them has made a step. -/
theorem sum_work_lt {T : Finset TaskId} (hp : p ∈ T) (hlt : w'.work p < w.work p)
    (hothers : ∀ q, q ≠ p → w'.work q = w.work q) : ∑ q ∈ T, w'.work q < ∑ q ∈ T, w.work q := by
  refine Finset.sum_lt_sum (fun q _ => ?_) ⟨p, hp, hlt⟩
  by_cases hq : q = p
  · subst hq
    exact Nat.le_of_lt hlt
  · exact Nat.le_of_eq (hothers q hq)

theorem FrameStep.owner (h : FrameStep s p f ok s' f') : s'.transitionOwner = s.transitionOwner ∨
    s'.transitionOwner = none ∨ s'.transitionOwner = some p := by
  cases h with
  | inTransition tr tr' s' htr hst =>
    rcases (stepTransition_lock hst).2 with ⟨-, -, hl⟩ | ⟨-, hl⟩
    · exact .inr (.inr (congrArg Prod.fst hl))
    · exact .inl (congrArg Prod.fst hl)
  | transitionDone tr s' stored threw htr hst =>
    have hl : s'.transitionOwner = if s.transitionDepth - 1 = 0 then none else some p :=
      congrArg Prod.fst (stepTransition_done hst).2
    rw [hl]
    split
    · exact .inr (.inl rfl)
    · exact .inr (.inr rfl)
  | transitionStart => exact .inl rfl
  | exec s' next htr hpc hex => exact .inl (congrArg Prod.fst (exec_lock hex))

theorem assumed_step (w : World) (p : TaskId) : Assumed w (.step p true) :=
  ⟨trivial, fun _ _ _ => ⟨fun _ => rfl, fun _ _ => rfl⟩⟩

/-- A worker has left its loop, and the tasks that its exit may need are in `T`. -/
structure Exiting (T : Finset TaskId) (g : Gen) (x : World × List Event) : Prop where
  inv : ∃ st, RunInv x st
  uncaptured : ¬ x.1.Captured
  released : .released g ∈ x.2
  leftLoop : .leftLoop g ∈ x.2
  worker : .worker g ∈ T
  dispatcher : .dispatcher ∈ T
  owner : ∀ q, x.1.shared.transitionOwner = some q → q ∈ T

/-- A step of a task of `T`, or one that does not touch the lock, keeps a worker
in its exit. -/
theorem Exiting.step {T : Finset TaskId} (h : Exiting T g x) (hnot : history g x.2 ≠ exitProtocol g)
    (hp : p ∈ T ∨ y.1.shared.transitionOwner = x.1.shared.transitionOwner)
    (hs : loggedSystem.step x (.step p true) = some y) : Exiting T g y := by
  obtain ⟨st, hr⟩ := h.inv
  obtain ⟨st', n, f, f', hd, hm, hlog, hr'⟩ := hr.moved (assumed_step _ _) hs
  -- An unfinished exit is that of the current generation, which is past its start gate.
  have hgen : st.gen = some g ∧ st.unreleased = none := by
    have hlogInv := hr.exit.log
    refine ⟨?_, ?_⟩
    · by_contra hne
      exact hnot (hlogInv.reached g 10 h.released (.inl ⟨hne, rfl⟩))
    · by_contra hne
      obtain ⟨z, hz⟩ := Option.ne_none_iff_exists'.1 hne
      by_cases hgz : z = g
      · subst hgz
        exact history_eq_nil_of (hlogInv.fresh z (.inr hz)) h.released
      · refine hnot (hlogInv.reached g 10 h.released (.inl ⟨fun he => hgz ?_, rfl⟩))
        exact Option.some.inj ((Stage.gen_of_unreleased hz).symm.trans he)
  have hstage : ∀ z, f.pc.stage = some z → z.unreleased = none := by
    intro z hz
    rw [hr.exit.stage.token.eq_of_holds (a := (p, n)) (y := z) (by simp [World.stages, hm.call, hz])]
    exact hgen.2
  refine ⟨⟨st', hr'⟩, ?_, ?_, ?_, h.worker, h.dispatcher, fun q hq => ?_⟩
  · refine hm.uncaptured h.uncaptured hd hr.exit.calls hr.exit.unmanaged hr.stacked hr.initializing
      (fun z hz => ?_) fun z hz => ?_
    · cases hstage _ hz
    · cases hstage _ hz
  · rw [hlog]
    exact List.mem_append_left _ h.released
  · rw [hlog]
    exact List.mem_append_left _ h.leftLoop
  · rcases hp with hp | hsame
    · rcases hm.frame.owner with ho | ho | ho
      · exact h.owner q (ho ▸ hq)
      · rw [ho] at hq
        cases hq
      · rw [ho] at hq
        cases hq
        exact hp
    · exact h.owner q (hsame ▸ hq)

/-- The dispatcher clears the pending flag, and the exit is done. -/
theorem RunInv.ends (h : RunInv x st) (hr : .released g ∈ x.2) (hd : x.1.depth .dispatcher = 1)
    (hf : x.1.call (.dispatcher, 0) = some f) (hpc : f.pc = .dispatcher (.clearPending g)) :
    ∃ y, loggedSystem.step x (.step .dispatcher true) = some y ∧ history g y.2 = exitProtocol g := by
  have hno : f.transition = none := (h.exit.calls _ f hf).no_transition (by rw [hpc]; rfl)
  obtain ⟨-, hframe⟩ := World.call_eq_some.1 hf
  have htop : x.1.top .dispatcher = some f := by rw [World.top_succ hd, hframe]
  obtain ⟨w', hs⟩ : ∃ w', Lifecycle.step x.1 (.step .dispatcher true) = some w' := by
    have hstep : stepFrame x.1.shared .dispatcher f true =
        some ({ x.1.shared with terminationDispatchPending := false }, f.next (.goto (.dispatcher .cleanUp))) := by
      simp only [stepFrame, hno, hpc]
      rfl
    simp only [Lifecycle.step, hd, hframe, hstep, World.runnable]
    exact ⟨_, rfl⟩
  refine ⟨(w', x.2 ++ [.clearedPending g]), loggedSystem_step.2 ⟨hs, ?_⟩, ?_⟩
  · simp [World.event, htop, Frame.event, hno, hpc, Pc.event, DispatcherPc.event]
  · have hreached : Reached x.1 st g 9 := .inr (.inr ⟨_, f, hf, by rw [hpc]; rfl⟩)
    have hself : history g [.clearedPending g] = [.clearedPending g] := history_self (.clearedPending g)
    rw [history_append, h.exit.log.reached g 9 hr hreached, hself]
    rfl

/-- A task of `T` has a step that ends the exit or leaves less work. -/
def GoesOn (T : Finset TaskId) (g : Gen) (x : World × List Event) : Prop :=
  ∃ p y, p ∈ T ∧ loggedSystem.step x (.step p true) = some y ∧
    (history g y.2 = exitProtocol g ∨ ∑ q ∈ T, y.1.work q < ∑ q ∈ T, x.1.work q)

theorem Exiting.progress {T : Finset TaskId} (h : Exiting T g x) (hnot : history g x.2 ≠ exitProtocol g) :
    GoesOn T g x := by
  obtain ⟨st, hr⟩ := h.inv
  have hst := hr.exit.stage
  -- A task whose last call advances, and has the lock where it needs it, makes the step.
  have hmoves : ∀ p n f, x.1.Advances p n f → p ∈ T →
      (f.transition ≠ none → x.1.shared.transitionOwner = none ∨ x.1.shared.transitionOwner = some p) →
      GoesOn T g x := by
    intro p n f ha hp hl
    obtain ⟨w', hs, hlt, hothers⟩ := ha.step hr.exit.calls hr.exit.unmanaged hl
    exact ⟨p, (w', x.2 ++ (x.1.event (.step p true)).toList), hp, loggedSystem_step.2 ⟨hs, rfl⟩,
      .inr (sum_work_lt hp hlt hothers)⟩
  -- Otherwise the owner of the lock does.
  have hready : ∀ p n f, x.1.Advances p n f → p ∈ T → st ≠ .quiet →
      (f.transition ≠ none → x.1.shared.terminationDispatchPending = false ∨ Calm x.1) →
      GoesOn T g x := by
    intro p n f ha hp hne hfree
    by_cases hl : f.transition ≠ none → x.1.shared.transitionOwner = none ∨ x.1.shared.transitionOwner = some p
    · exact hmoves p n f ha hp hl
    · obtain ⟨htr, hother⟩ := Classical.not_imp.1 hl
      obtain ⟨q, hq⟩ := Option.ne_none_iff_exists'.1 fun hnone => hother (.inl hnone)
      obtain ⟨m, f₁, ha₁⟩ := hr.holder h.uncaptured hne hq (hfree htr)
      exact hmoves q m f₁ ha₁ (h.owner q hq) fun _ => .inr hq
  rcases hr.exit.log.turn hst hr.exit.calls h.released h.leftLoop with hdone | ⟨f, t, hf, hpc, ht⟩ | hrec
  · exact absurd hdone hnot
  · obtain ⟨n, f₁, ha, hpending⟩ := hr.worker_ready hf hpc ht
    refine hready _ n f₁ ha h.worker (hst.ne_quiet hf ?_) fun htr => .inl (hpending htr)
    rw [hpc]
    cases t <;> first | exact Option.some_ne_none _ | cases ht
  · have hne : st ≠ .quiet := by
      rintro rfl
      cases hrec
    have hcalm := (hr.exit.state.past g (.inr ⟨hrec, h.released⟩)).2
    rcases hr.dispatcher_ready h.uncaptured hrec with ⟨f, hd, hf, hpc⟩ | ⟨n, f, ha⟩
    · obtain ⟨y, hs, hend⟩ := hr.ends h.released hd hf hpc
      exact ⟨.dispatcher, y, h.dispatcher, hs, .inl hend⟩
    · exact hready _ n f ha h.dispatcher hne fun _ => .inr hcalm

end ESPressio.Lifecycle
