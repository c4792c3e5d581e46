import ESPressioThreads.Lifecycle.Guarded
/-!
# Every exit happens once

What a worker that was released and leaves its loop does in every run, and what
keeps it from coming to its end: a `Shutdown` in a callback, or a mutex that was
lost with a deleted worker.
-/

namespace ESPressio.Lifecycle

open Transition ESPressio.Thread

variable {w w' : World} {p : TaskId} {st st' : Stage} {g k : Gen} {x y : World × List Event}
  {c d : Guarded × List Event}

/-- The exit of a released worker goes through `exitProtocol`, no event twice
and none out of order. From its record on, and from wherever it finds the
thread `Terminated` after its loop, the thread stays so until the pending flag
is clear, and nothing keeps the exit from being finished. -/
structure ExitsOnce (c : Guarded × List Event) (g : Gen) : Prop where
  order : ∃ n, history g c.2 = (exitProtocol g).take n
  terminated : .sent g .terminated ∈ c.2 → .clearedPending g ∉ c.2 → c.1.world.shared.threadState = .terminated
  stays : .leftLoop g ∈ c.2 → .clearedPending g ∉ c.2 → c.1.world.shared.threadState = .terminated →
    ∀ b d, AssumedGuarded c.1 b → guardedSystem.step c b = some d → d.1.world.shared.threadState = .terminated
  completes : .leftLoop g ∈ c.2 →
    ∃ d, guardedSystem.Leads (fun c b => AssumedGuarded c.1 b) c d ∧ history g d.2 = exitProtocol g

def exitingTasks : List TaskId := [.app 0, .worker 0, .dispatcher]

/-- `AssumedGuarded` of the tasks that run, while nothing throws or fails. -/
def AssumedOn (c : Guarded × List Event) : GuardedAction → Prop
  | .lifecycle (.call p request) => p ∈ exitingTasks ∧ (request.entry.initializes = true →
      c.1.world.callsOn exitingTasks (fun f => !f.pc.initializes) = true)
  | .lifecycle (.step p ok) => p ∈ exitingTasks ∧ ok = true
  | .mutex b => b ≠ .setFull true

instance (c : Guarded × List Event) : ∀ b, Decidable (AssumedOn c b)
  | .lifecycle (.call _ _) => inferInstanceAs (Decidable (_ ∧ (_ → _)))
  | .lifecycle (.step _ _) => inferInstanceAs (Decidable (_ ∧ _ = _))
  | .mutex _ => inferInstanceAs (Decidable (_ ≠ _))

theorem assumed_of_on {b : GuardedAction} (hi : c.1.world.IdleBut exitingTasks) (h : AssumedOn c b) :
    AssumedGuarded c.1 b := by
  cases b with
  | lifecycle a =>
    cases a with
    | call p request =>
      refine ⟨fun hinit b f hf => ?_, trivial⟩
      have := hi.forall_call (P := fun f => !f.pc.initializes) (by rintro f (⟨g, rfl⟩ | rfl) <;> rfl) (h.2 hinit) b f hf
      simpa using this
    | step p ok =>
      obtain rfl : ok = true := h.2
      exact assumed_step c.1.world p
  | mutex b => exact h

theorem idleBut_of_on {b : GuardedAction} (hi : c.1.world.IdleBut exitingTasks) (h : AssumedOn c b)
    (hs : guardedSystem.step c b = some d) : d.1.world.IdleBut exitingTasks := by
  cases b with
  | lifecycle a =>
    obtain ⟨-, hl, -⟩ := guarded_lifecycle.1 hs
    refine hi.step ?_ (loggedSystem_step.1 hl).1
    cases a <;> exact h.1
  | mutex b =>
    obtain ⟨hw, -, -⟩ := guarded_mutex.1 hs
    rw [hw]
    exact hi

/-- A new thread, with the mutex free. -/
def guardedThread : Guarded × List Event := (⟨newThread false false, .free⟩, [])

/-- A schedule of these tasks from a new thread. -/
theorem reachable_of_on {bs : List GuardedAction} (h : guardedSystem.replayWhen AssumedOn guardedThread bs = some c) :
    guardedSystem.ReachableWhen (fun c b => AssumedGuarded c.1 b) c ∧ c.1.world.IdleBut exitingTasks := by
  have hl := Transition.System.leads_of_replayWhen h
  have hstart : guardedThread.1.world.IdleBut exitingTasks := idleBut_start _ _
  have hinit : guardedSystem.init guardedThread := ⟨⟨newThread_init false false, rfl⟩, rfl⟩
  refine ⟨Transition.System.ReachableWhen.leads (.init hinit) ?_,
    hl.invariant (I := fun c => c.1.world.IdleBut exitingTasks) hstart fun _ _ _ hi hd hs => idleBut_of_on hi hd hs⟩
  exact hl.mono_with (I := fun c => c.1.world.IdleBut exitingTasks) hstart
    (fun _ _ _ hi hd hs => idleBut_of_on hi hd hs) fun _ _ => assumed_of_on

/-- `n` steps that need no mutex. -/
def unguarded (p : TaskId) (n : Nat) : List GuardedAction := (steps p n).map .lifecycle

/-- One access under the mutex. -/
def accessed (p : TaskId) : List GuardedAction := [.mutex (.lock p), .lifecycle (.step p true), .mutex (.unlock p)]

/-- Application task 0 initializes the thread, which is then running. -/
def initializedGuarded : List GuardedAction :=
  .lifecycle (.call (.app 0) .initializeThread) :: unguarded (.app 0) 3 ++ accessed (.app 0) ++ unguarded (.app 0) 35

/-- No `Shutdown` is in progress that has yet to wait for the exit. -/
def Frame.apart (f : Frame) : Bool :=
  match f.pc with
  | .shutdown .isCurrentTask => true
  | .shutdown _ => false
  | _ => true

theorem uncaptured_of_apart (h : ∀ a f, w.call a = some f → f.apart = true) : ¬ w.Captured := by
  rintro ⟨p, n, f, hf, hw, -⟩
  have hapart := h (p, n) f hf
  obtain ⟨pc, tr, after⟩ := f
  cases pc with
  | shutdown t =>
    cases t with
    | isCurrentTask => cases hw
    | _ => cases hapart
  | _ => cases hw

/-- `p` has the transition lock and waits for the exit of `g`, which waits for
the lock. -/
structure Deadlocked (w : World) (p : TaskId) (g : Gen) : Prop where
  ne : p ≠ .worker g
  holds : ∃ m f, w.call (p, m) = some f ∧ f.holds = true
  waits : ∃ f, w.top p = some f ∧ f.pc = .shutdown .waitExited ∧ f.transition = none
  worker : ∃ f tr, w.top (.worker g) = some f ∧ w.call (.worker g, 0) = some f ∧ f.pc = .worker g .setTerminated ∧
    f.transition = some tr ∧ tr.pc = .lock

/-- A task whose last call is blocked does nothing. -/
theorem blocked_task {f : Frame} {a : Action} (htop : w.top p = some f) (hu : f.userCode = false)
    (hb : ∀ ok, stepFrame w.shared p f ok = none) (hs : step w a = some w') : p ≠ a.task := by
  rintro rfl
  obtain ⟨n, hd, hf⟩ := World.call_of_top htop
  obtain ⟨-, hframe⟩ := World.call_eq_some.1 hf
  cases a with
  | call q request =>
    have huser := (step_push hs).2.1
    simp only [World.inUserCode] at huser
    simp only [Action.task] at hd hframe
    rw [hd] at huser
    simp only [hframe, hu] at huser
    cases huser
  | step q ok =>
    simp only [Action.task] at hd hframe
    cases (step_moves hs).2 with
    | stay m s f₁ hm hst =>
      obtain rfl : m = n := by omega
      rw [hframe] at hst
      exact absurd ((hb ok).symm.trans hst) (by rintro ⟨⟩)
    | ret m s hm hst =>
      obtain rfl : m = n := by omega
      rw [hframe] at hst
      exact absurd ((hb ok).symm.trans hst) (by rintro ⟨⟩)

/-- The deadlock lasts. -/
theorem Deadlocked.step {a : Action} (h : Deadlocked w p g) (hl : LockInv w) (he : w.shared.taskExited = false)
    (hs : Lifecycle.step w a = some w') : Deadlocked w' p g := by
  obtain ⟨m, f₀, hf₀, hh⟩ := h.holds
  obtain ⟨f, htop, hpc, hno⟩ := h.waits
  obtain ⟨f₁, tr, htop₁, hf₁, hpc₁, htr, hlock⟩ := h.worker
  have hown := hl.owner_of_holds hf₀ hh
  have hp : p ≠ a.task := by
    refine blocked_task htop (by simp [Frame.userCode, hno, hpc, Pc.userCode]) (fun ok => ?_) hs
    simp [stepFrame, hno, hpc, Pc.transition, ShutdownPc.transition, Lifecycle.exec, execShutdown, he]
  have hw : TaskId.worker g ≠ a.task := by
    refine blocked_task htop₁ (by simp [Frame.userCode, htr, hlock]) (fun ok => ?_) hs
    simp [stepFrame, htr, stepTransition, hlock, hown, h.ne]
  obtain ⟨htop', hcall'⟩ := calls_others hs hp
  obtain ⟨htop₁', hcall₁'⟩ := calls_others hs hw
  exact ⟨h.ne, ⟨m, f₀, by rw [hcall', hf₀], hh⟩, ⟨f, by rw [htop', htop], hpc, hno⟩,
    f₁, tr, by rw [htop₁', htop₁], by rw [hcall₁', hf₁], hpc₁, htr, hlock⟩

/-- The exit of the worker does not come to its end. -/
theorem Deadlocked.not_completes (h : Deadlocked x.1 p g) (hinv : RunInv x st) (hr : .released g ∈ x.2)
    (hl : loggedSystem.Leads (fun x a => Assumed x.1 a) x y) : history g y.2 ≠ exitProtocol g := by
  have hall : (∃ st, RunInv y st) ∧ Deadlocked y.1 p g ∧ .released g ∈ y.2 := by
    refine hl.invariant (I := fun x => (∃ st, RunInv x st) ∧ Deadlocked x.1 p g ∧ .released g ∈ x.2)
      ⟨⟨st, hinv⟩, h, hr⟩ fun x a y ⟨⟨st, hx⟩, hd, hr⟩ hc hs => ?_
    obtain ⟨hstep, hlog⟩ := loggedSystem_step.1 hs
    refine ⟨hx.step hc hs, hd.step hx.exit.lock ?_ hstep, by rw [hlog]; exact List.mem_append_left _ hr⟩
    obtain ⟨f, tr, -, hf, hpc, -, -⟩ := hd.worker
    have hst := hx.exit.stage
    have hstage := hst.token.eq_of_holds (a := (.worker g, 0)) (y := .claimed g (some g))
      (by simp [World.stages, hf, hpc]; rfl)
    subst hstage
    exact hst.fits.2.2
  obtain ⟨⟨st', hy⟩, hd, hr'⟩ := hall
  obtain ⟨f, tr, -, hf, hpc, -, -⟩ := hd.worker
  rw [hy.exit.log.reached g 2 hr' (.inr (.inr ⟨_, f, hf, by rw [hpc]; rfl⟩))]
  simp [exitProtocol]

/-- The worker was deleted with the mutex, for which the dispatcher waits in a
callback of the exit of `g`. -/
structure Lost (c : Guarded) (k g : Gen) : Prop where
  holder : c.mutex.holder = some (.task (.worker k))
  killed : k ∈ c.world.shared.killed
  waits : ∃ f, c.world.top .dispatcher = some f ∧ f.pc = .shutdown .isCurrentTask
  callback : ∃ f, c.world.call (.dispatcher, 0) = some f ∧ f.pc = .dispatcher (.onTerminated g)

/-- Nobody takes or leaves a lost mutex. -/
theorem stepMutex_lost {m m' : Mutex} {b : MutexAction} (hinv : MutexInv w m) (hh : m.holder = some (.task (.worker k)))
    (hk : k ∈ w.shared.killed) (hs : stepMutex w m b = some m') : m'.holder = m.holder := by
  cases b with
  | lock p =>
    rw [stepMutex, if_neg (by simp [hh])] at hs
    cases hs
  | unlock p =>
    simp only [stepMutex] at hs
    split at hs
    · rename_i hrun
      obtain ⟨phase, hphase, -⟩ := Option.map_eq_some_iff.1 hs
      have howner := (hinv.holder p).1 (MutexPhase.unlocked_cases hphase).1
      rw [hh] at howner
      cases howner
      simp [World.runnable, hk] at hrun
    · cases hs
  | lockOther n =>
    rw [stepMutex, if_neg (by simp [hh])] at hs
    cases hs
  | unlockOther n =>
    rw [stepMutex, if_neg (by simp [hh])] at hs
    cases hs
  | stopOther n => cases hs; rfl
  | setFull full => cases hs; rfl

theorem after_holder (m : Mutex) (a : Action) : (m.after a).holder = m.holder := by
  cases a with
  | call => rfl
  | step p ok =>
    simp only [Mutex.after]
    split <;> rfl

theorem Lost.step {b : GuardedAction} (h : Lost c.1 k g) (hg : GuardedInv c.1) (hinv : RunInv (c.1.world, c.2) st)
    (hb : AssumedGuarded c.1 b) (hs : guardedSystem.step c b = some d) : Lost d.1 k g := by
  cases b with
  | mutex b =>
    obtain ⟨hw, hm, -⟩ := guarded_mutex.1 hs
    refine ⟨(stepMutex_lost hg.mutex h.holder h.killed hm).trans h.holder, ?_, ?_, ?_⟩ <;> rw [hw]
    · exact h.killed
    · exact h.waits
    · exact h.callback
  | lifecycle a =>
    obtain ⟨hadmits, hl, hm⟩ := guarded_lifecycle.1 hs
    have hstep := (loggedSystem_step.1 hl).1
    obtain ⟨f, htop, hpc⟩ := h.waits
    -- The dispatcher is not in user code, and does not have the mutex.
    have hother : TaskId.dispatcher ≠ a.task := by
      intro he
      cases a with
      | call p request =>
        obtain rfl : .dispatcher = p := he
        obtain ⟨n, hd, hf⟩ := World.call_of_top htop
        have huser := (step_push hstep).2.1
        obtain ⟨-, hframe⟩ := World.call_eq_some.1 hf
        have hno : f.transition = none := (hinv.exit.calls _ f hf).no_transition (by rw [hpc]; rfl)
        simp only [World.inUserCode] at huser
        rw [hd] at huser
        simp only [hframe, Frame.userCode, hno, hpc, Pc.userCode] at huser
        cases huser
      | step p ok =>
        obtain rfl : .dispatcher = p := he
        have hguard : c.1.world.guard .dispatcher = some .access := by simp [World.guard, htop, hpc, Pc.guard]
        simp only [Mutex.admits, hguard, decide_eq_true_eq] at hadmits
        have howner := (hg.mutex.holder .dispatcher).1 (by rw [hadmits]; rfl)
        cases howner.symm.trans h.holder
    obtain ⟨htop', hcall'⟩ := calls_others hstep hother
    refine ⟨by rw [hm, after_holder, h.holder], ?_, ⟨f, htop'.trans htop, hpc⟩, ?_⟩
    · cases a with
      | call p request =>
        rw [(call_update hstep).1]
        exact h.killed
      | step p ok =>
        obtain ⟨st', n, f, f', -, hmoved, -, -⟩ := hinv.moved hb hl
        exact hmoved.move.killed h.killed
    · obtain ⟨f₀, hf₀, hpc₀⟩ := h.callback
      exact ⟨f₀, (hcall' 0).trans hf₀, hpc₀⟩

theorem Lost.not_completes (h : Lost c.1 k g) (hg : GuardedInv c.1) (hinv : RunInv (c.1.world, c.2) st)
    (hr : .released g ∈ c.2) (hl : guardedSystem.Leads (fun c b => AssumedGuarded c.1 b) c d) :
    history g d.2 ≠ exitProtocol g := by
  have hall : (∃ st, RunInv (d.1.world, d.2) st) ∧ GuardedInv d.1 ∧ Lost d.1 k g ∧ .released g ∈ d.2 := by
    refine hl.invariant (I := fun c => (∃ st, RunInv (c.1.world, c.2) st) ∧ GuardedInv c.1 ∧ Lost c.1 k g ∧
      .released g ∈ c.2) ⟨⟨st, hinv⟩, hg, h, hr⟩ fun c b d hc hb hs => ?_
    obtain ⟨⟨st, hx⟩, hg, hlost, hr⟩ := hc
    have hlost' := hlost.step hg hx hb hs
    obtain ⟨hg', he | ⟨a, ha, hlogged⟩⟩ := hg.step hb hs
    · rw [he, (Prod.mk.inj he).2]
      exact ⟨⟨st, hx⟩, hg', hlost', hr⟩
    · refine ⟨hx.step ha hlogged, hg', hlost', ?_⟩
      have hlog : d.2 = c.2 ++ (c.1.world.event a).toList := (loggedSystem_step.1 hlogged).2
      rw [hlog]
      exact List.mem_append_left _ hr
  obtain ⟨⟨st', hy⟩, -, hlost, hr'⟩ := hall
  obtain ⟨f, hf, hpc⟩ := hlost.callback
  rw [hy.exit.log.reached g 6 hr' (.inr (.inr ⟨_, f, hf, by rw [hpc]; rfl⟩))]
  simp [exitProtocol]

/-- Worker 0 is deleted after its `Send`, before it unlocks the mutex, and
`OnTerminated` calls `Shutdown`. -/
def losesMutex : List GuardedAction :=
  initializedGuarded ++ terminating.map .lifecycle ++ unguarded (.worker 0) 12 ++
    [.mutex (.lock (.worker 0)), .mutex (.unlock (.worker 0)), .mutex (.lock (.worker 0)),
      .lifecycle (.step (.worker 0) true)] ++
    unguarded .dispatcher 4 ++ .lifecycle (.call .dispatcher .shutdown) :: unguarded .dispatcher 7

theorem exit_lost : ¬ ∀ c, guardedSystem.ReachableWhen (fun c b => AssumedGuarded c.1 b) c →
    ∀ g, .released g ∈ c.2 → ¬ c.1.world.Captured → ExitsOnce c g := by
  intro hall
  have hrun : (guardedSystem.replayWhen AssumedOn guardedThread losesMutex).map
      (fun c => ((c.2.take 2, c.1.mutex.holder, c.1.world.shared.killed), (c.1.world.top .dispatcher,
        c.1.world.call (.dispatcher, 0), c.1.world.callsOn exitingTasks Frame.apart))) =
      some (([.released 0, .leftLoop 0], some (.task (.worker 0)), [0]),
        (some ⟨.shutdown .isCurrentTask, none, false⟩, some ⟨.dispatcher (.onTerminated 0), none, false⟩, true)) := by
    decide +kernel
  obtain ⟨c, hs, hp⟩ := Option.map_eq_some_iff.1 hrun
  simp only [Prod.mk.injEq] at hp
  obtain ⟨⟨hlog, hholder, hkilled⟩, htop, hcall, hcalls⟩ := hp
  obtain ⟨hr, hi⟩ := reachable_of_on hs
  obtain ⟨hlogged, hguarded⟩ := guarded_reachable hr
  obtain ⟨st, hinv⟩ := runInv_reachable hlogged
  have hlost : Lost c.1 0 0 := ⟨hholder, by simp [hkilled], ⟨_, htop, rfl⟩, _, hcall, rfl⟩
  have hmem : ∀ e ∈ [Event.released 0, .leftLoop 0], e ∈ c.2 := fun e he => List.mem_of_mem_take (hlog ▸ he)
  have hapart := hi.forall_call (by rintro f (⟨g, rfl⟩ | rfl) <;> rfl) hcalls
  have hreleased := hmem (.released 0) (by simp)
  obtain ⟨d, hl, hend⟩ :=
    (hall c hr 0 hreleased (uncaptured_of_apart hapart)).completes (hmem (.leftLoop 0) (by simp))
  exact hlost.not_completes hguarded hinv hreleased hl hend

end ESPressio.Lifecycle
