import ESPressioThreads.Initialization.Retry
/-!
# Outcomes of a failed `Initialize`

In every run that is `Orderly`, a failed attempt is clean and can be retried.
The one path of the code that leaves the thread as it was is the start gate:
where it cannot be given, the task is deleted, but `Terminated` is not stored.
-/

namespace ESPressio.Attempts

open Transition ESPressio.Thread ESPressio.Lifecycle

variable {x y : World × List Event} {st st' : Stage} {p : TaskId} {ok : Bool} {action : Action}

theorem attempts_step : attempts.step x action = some y ↔
    step x.1 action = some y.1 ∧ y.2 = x.2 ++ (event x.1 action).toList :=
  System.logged_step

/-! ## Every run -/

structure FailureInv (x : World × List Event) (st : Stage) : Prop where
  calls : CallsOk x.1
  unmanaged : Unmanaged x.1
  alone : AloneInInitialize x.1
  stage : AtStage x.1 st
  checks : ChecksInv x.1 st
  tasks : AttemptInv x.1 x.2 st
  ends : EndInv x.1
  reports : Reports x.1 x.2 st
  reset : ResetInv x.1
  returned : Returned x.1 x.2
  retry : RetryInv x.1 x.2
  unrejected : Unrejected x.2

theorem FailureInv.moved (h : FailureInv x st) (hc : EntersAlone x.1 (.step p ok)) (ho : Orderly x.1 (.step p ok))
    (hs : attempts.step x (.step p ok) = some y) : ∃ st', FailureInv y st' := by
  obtain ⟨hstep, hlog⟩ := attempts_step.1 hs
  have hrun := (step_moves hstep).1
  obtain ⟨st', n, f, f', -, hm, hst'⟩ :=
    h.stage.moved_last h.calls h.unmanaged.top (h.checks.checksHold h.stage _) hstep
  have hok := h.calls (p, n) f hm.call
  have hevent : event x.1 (.step p ok) = callEvent x.1.shared f ok := by simp [event, hm.top]
  rw [hevent] at hlog
  refine ⟨st', h.calls.step hstep, h.unmanaged.step hstep, h.alone.step hc hstep, hst',
    h.checks.moved h.stage h.alone hm, ?_, h.ends.moved h.stage h.checks h.calls h.unmanaged hm ho, ?_,
    h.reset.moved h.alone h.unmanaged hm hok, ?_, ?_, ?_⟩
  all_goals rw [hlog]
  · exact h.tasks.moved h.stage hm hok
  · exact h.reports.moved h.tasks h.ends h.stage h.alone h.unmanaged hm hok hrun ho
  · exact h.returned.moved h.reports hm hok hrun
  · exact h.retry.moved h.returned h.alone h.unmanaged h.reset h.checks h.stage hm hok
  · exact h.unrejected.moved h.retry hm hok

theorem FailureInv.pushed {request : Request} (h : FailureInv x st) (hc : EntersAlone x.1 (.call p request))
    (hs : attempts.step x (.call p request) = some y) : FailureInv y st := by
  obtain ⟨hstep, hlog⟩ := attempts_step.1 hs
  have hlog : y.2 = x.2 := by simpa [event] using hlog
  refine ⟨h.calls.step hstep, h.unmanaged.step hstep, h.alone.step hc hstep, h.stage.pushed hstep,
    h.checks.pushed hstep, ?_, h.ends.pushed hstep, ?_, h.reset.pushed hstep, ?_, ?_, ?_⟩
  all_goals rw [hlog]
  · exact h.tasks.pushed hstep
  · exact h.reports.pushed hstep
  · exact h.returned.pushed hstep
  · exact h.retry.pushed hstep
  · exact h.unrejected

theorem failureInv_start (s : Shared) (hs : Stage.quiet.Fits s.registers) (hstate : s.threadState = .uninitialized)
    (hi : s.initializingTask = none) (hm : s.managed = false) : FailureInv (.start s, []) .quiet := by
  -- At the start no call is in `Initialize`.
  have hnone : ∀ a f, (World.start s).call a = some f → f.pc.initializePc = none ∧ ∀ t, f.pc ≠ .cleanUp t := by
    intro a f hf
    rcases start_call hf with ⟨g, -, rfl⟩ | ⟨-, rfl⟩ <;> exact ⟨rfl, (by rintro _ ⟨⟩)⟩
  have hnot : ∀ a f, (World.start s).call a = some f → ∀ t, f.pc.initializePc ≠ some t := by
    intro a f hf t ht
    rw [(hnone a f hf).1] at ht
    cases ht
  have hlog : ∀ {l₀ l : List Event} {e}, [] ≠ l₀ ++ e :: l := fun h => by simp at h
  refine ⟨?_, ⟨hm, fun a f hf => (hnone a f hf).2⟩, (oneInitializer_start s).alone, atStage_start s hs,
    checksInv_start s, attemptInv_start s, ⟨by rw [World.start, hstate]; rintro ⟨⟩, ?_, ?_, ?_⟩, ?_, ⟨?_, ?_⟩, ?_,
    ⟨?_, ?_⟩, ?_⟩
  · intro a f hf
    rcases start_call hf with ⟨g, rfl, rfl⟩ | ⟨rfl, rfl⟩
    · exact ok_waitGate g
    · exact ok_receive
  · exact fun a f hf t ht => absurd ht (hnot a f hf t)
  · exact fun a f hf t ht => absurd ht (hnot a f hf t)
  · exact fun a f hf status => hnot a f hf _
  · exact fun a f hf t ht => absurd ht (hnot a f hf t)
  · intro q hq
    rw [World.start, hi] at hq
    cases hq
  · exact fun a f hf ht => absurd ht (hnot a f hf _)
  · exact fun l₀ status s l₂ hl => absurd hl hlog
  · rintro σ ⟨l₀, status, s, l₁, hl, -⟩
    exact absurd hl hlog
  · rintro σ ⟨l₀, status, s, l₁, hl, -⟩
    exact absurd hl hlog
  · exact fun l₀ status s l₁ s' l₂ hl => absurd hl hlog

theorem failureInv_reachable
    (h : attempts.ReachableWhen (fun x a => EntersAlone x.1 a ∧ Orderly x.1 a) x) : ∃ st, FailureInv x st := by
  refine h.invariant (I := fun x => ∃ st, FailureInv x st) ?_ fun x a y ⟨st, hx⟩ hc hs => ?_
  · rintro ⟨w, log⟩ ⟨⟨free, start, precision, rfl⟩, rfl⟩
    exact ⟨.quiet,
      failureInv_start _ ⟨rfl, rfl, rfl, rfl, fun g hg => absurd hg (Nat.not_lt_zero g)⟩ rfl rfl rfl⟩
  · cases a with
    | call p request => exact ⟨st, hx.pushed hc.1 hs⟩
    | step p ok => exact hx.moved hc.1 hc.2 hs

/-- The worker of a failed attempt never ran, and left one record. -/
theorem FailureInv.undone {g : Gen} (h : FailureInv x st) (hg : GaveUp x.1 x.2 g) : Undone x.2 g := by
  refine ⟨hg.released, fun hl => hg.released (h.tasks.onLoop g hl), ?_⟩
  exact Nat.le_antisymm (h.tasks.once g) (List.count_pos_iff.2 hg.sent)

/-- In every run in which no call enters `Initialize` while another one is in
it, and which is `Orderly`, a failed initialization is clean and retryable. -/
theorem initialize_fails_cleanly (x : World × List Event)
    (h : attempts.ReachableWhen (fun x a => EntersAlone x.1 a ∧ Orderly x.1 a) x) : FailsCleanly x.2 := by
  obtain ⟨st, hi⟩ := failureInv_reachable h
  refine ⟨fun l₀ status s l₂ hl hfail => ?_, hi.unrejected⟩
  obtain ⟨hgone, l₁, l, hl₀, hn, hor⟩ := hi.returned l₀ status s l₂ hl hfail
  refine ⟨hgone, l₁, l, hl₀, hn, ?_⟩
  rcases hor with ⟨g, ⟨ht, hr⟩, hs, hgave⟩ | ⟨⟨ht, hr⟩, hs⟩
  · exact .inl ⟨g, ht, hr, hs, hi.undone hgave⟩
  · exact .inr ⟨ht, hr, hs⟩

/-! ## A failure and a retry -/

/-- The tasks that run. -/
def running : List TaskId := [.app 0, .dispatcher]

/-- `EntersAlone` of these tasks, without `Start`. -/
def EntersAloneOn (x : World × List Event) (a : Action) : Prop :=
  a.task ∈ running ∧
    match a with
    | .call _ _ => x.1.callsOn running (fun f => f.pc.initializePc.isNone) = true
    | .step p _ => ∀ f ∈ x.1.top p, f.pc ≠ .start .readState

/-- `Orderly` of these tasks, when only `OnInitialization` throws. -/
def OrderlyOn (x : World × List Event) (a : Action) : Prop :=
  EntersAloneOn x a ∧
    match a with
    | .call _ _ => True
    | .step p ok => (ok = true ∨ ∀ f ∈ x.1.top p, f.pc = .initializeThread (.onInitialization 0)) ∧
        x.1.callsOn running (fun f => (f.pc.initializePc.bind InitializePc.status) ≠ some .taskCreationFailed) = true

instance (x : World × List Event) : ∀ a, Decidable (EntersAloneOn x a)
  | .call _ _ => inferInstanceAs (Decidable (_ ∧ _ = _))
  | .step _ _ => inferInstanceAs (Decidable (_ ∧ ∀ _ ∈ _, _))

instance (x : World × List Event) : ∀ a, Decidable (OrderlyOn x a)
  | .call _ _ => inferInstanceAs (Decidable (_ ∧ True))
  | .step _ _ => inferInstanceAs (Decidable (_ ∧ (_ ∨ ∀ _ ∈ _, _) ∧ _ = _))

theorem entersAlone_of_on (hi : x.1.IdleBut running) (h : EntersAloneOn x action) : EntersAlone x.1 action := by
  cases action with
  | call p request =>
    intro _ a f hf
    have := hi.forall_call (by rintro f (⟨g, rfl⟩ | rfl) <;> rfl) h.2 a f hf
    simpa using this
  | step p ok =>
    intro f hf hstart
    exact absurd hstart.pc (h.2 f hf)

theorem orderly_of_on (hi : x.1.IdleBut running) (h : OrderlyOn x action) : Orderly x.1 action := by
  cases action with
  | call p request => trivial
  | step p ok =>
    obtain ⟨hok, hcalls⟩ := h.2
    refine fun f hf => ⟨fun t ht => ?_, fun _ _ a f₁ hf₁ t ht hstatus => ?_⟩
    · rcases hok with rfl | hpc
      · exact ⟨fun _ _ _ => rfl, fun _ _ => .inl rfl, fun _ => .inl rfl⟩
      · rw [hpc f hf] at ht
        cases ht
        exact ⟨nofun, nofun, nofun⟩
    · have := hi.forall_call (by rintro f (⟨g, rfl⟩ | rfl) <;> rfl) hcalls a f₁ hf₁
      simp [ht, hstatus] at this

/-- A schedule of these tasks from a new thread. -/
theorem reachable_of_on {P : World × List Event → Action → Prop} [∀ x a, Decidable (P x a)] {as : List Action}
    (hP : ∀ x a, P x a → EntersAloneOn x a)
    (h : attempts.replayWhen P (newThread false false, []) as = some x) :
    attempts.ReachableWhen (fun x a => x.1.IdleBut running ∧ P x a) x := by
  have hl := System.leads_of_replayWhen h
  have hstep : ∀ (x : World × List Event) a y, x.1.IdleBut running → P x a →
      attempts.step x a = some y → y.1.IdleBut running :=
    fun x a y hi hd hs => hi.step (hP x a hd).1 (attempts_step.1 hs).1
  have hinit : attempts.init (newThread false false, []) := ⟨newThread_init false false, rfl⟩
  exact System.ReachableWhen.leads (.init hinit)
    (hl.mono_with (I := fun x => x.1.IdleBut running) (idleBut_start _ _) hstep fun _ _ hi hd => ⟨hi, hd⟩)

/-- `OnInitialization` throws, the record is dispatched, and the thread is
initialized again. -/
def retried : List Action :=
  initializationThrows ++ steps (.app 0) 30 ++ dispatched ++ .call (.app 0) .initializeThread :: steps (.app 0) 46

/-- The statuses that were returned. -/
def statuses (log : List Event) : List ThreadInitializationStatus :=
  log.filterMap fun
    | .returned status _ => some status
    | _ => none

theorem retried_cleanly :
    ∃ x, attempts.ReachableWhen (fun x a => EntersAlone x.1 a ∧ Orderly x.1 a) x ∧
      statuses x.2 = [.initializationException, .success] ∧ FailsCleanly x.2 := by
  have hrun : (attempts.replayWhen OrderlyOn (newThread false false, []) retried).map (fun x => statuses x.2) =
      some [.initializationException, .success] := by
    decide +kernel
  obtain ⟨x, hs, hx⟩ := Option.map_eq_some_iff.1 hrun
  have hr := (reachable_of_on (fun _ _ h => h.1) hs).mono fun x a h =>
    And.intro (entersAlone_of_on h.1 h.2.1) (orderly_of_on h.1 h.2)
  exact ⟨x, hr, hx, initialize_fails_cleanly x hr⟩

/-! ## The start gate -/

/-- The start gate cannot be given to the worker of a thread that is `Running`. -/
def gateNotGiven : List Action :=
  .call (.app 0) .initializeThread :: steps (.app 0) 35 ++ [.step (.app 0) false] ++ steps (.app 0) 10

/-- A failed attempt has left the thread `Running`. -/
def leftRunning : Event → Bool
  | .returned status s => failed status && s.threadState = .running
  | _ => false

theorem running_after_failure :
    ¬ ∀ x, attempts.ReachableWhen (fun x a => EntersAlone x.1 a) x → FailsCleanly x.2 := by
  intro hall
  have hrun : (attempts.replayWhen EntersAloneOn (newThread false false, []) gateNotGiven).map
      (fun x => x.2.any leftRunning) = some true := by
    decide +kernel
  obtain ⟨x, hs, hx⟩ := Option.map_eq_some_iff.1 hrun
  have hr := (reachable_of_on (fun _ _ h => h) hs).mono fun x a h => entersAlone_of_on h.1 h.2
  obtain ⟨e, he, hleft⟩ := List.any_eq_true.1 hx
  obtain ⟨l₀, l₂, hl⟩ := List.append_of_mem he
  cases e with
  | returned status s =>
    obtain ⟨hfail, hrunning⟩ : failed status = true ∧ s.threadState = .running := by simpa [leftRunning] using hleft
    obtain ⟨-, _, _, -, -, ⟨_, -, -, hs, -⟩ | ⟨-, -, hs⟩⟩ := (hall x hr).clean l₀ status s l₂ hl hfail
    all_goals
      rw [hrunning] at hs
      cases hs
  | _ => cases hleft

end ESPressio.Attempts
