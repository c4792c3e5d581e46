import ESPressioThreads.Lifecycle.Lock
import ESPressioThreads.Lifecycle.Sequential
import ESPressioThreads.Lifecycle.States
/-!
# The exit of a worker

A log of what `_taskEntry`, `_finalizeStoppedTaskExit` and `_dispatchTermination`
do with the generations of workers, and the log that the exit of one released
worker has to leave.
-/

namespace ESPressio.Lifecycle

open Transition ESPressio.Thread

variable {w w' : World} {s s' : Shared} {p : TaskId} {ok : Bool} {f : Frame} {g : Gen}

inductive Event
  | released (g : Gen)
  | leftLoop (g : Gen)
  | sent (g : Gen) (state : ThreadState)
  | received (g : Gen)
  | deleted (g : Gen) (task : Option Gen)
  | readState (g : Gen) (state : ThreadState)
  | onTerminated (g : Gen)
  | onThreadTaskExited (g : Gen)
  | gaveExited (g : Gen)
  | clearedPending (g : Gen)
  deriving DecidableEq, Repr

/-- The worker whose exit an event belongs to. -/
def Event.gen : Event → Gen
  | .released g | .leftLoop g | .sent g _ | .received g | .deleted g _ | .readState g _ | .onTerminated g
  | .onThreadTaskExited g | .gaveExited g | .clearedPending g => g

/-- The exit of a released worker, from its start gate on. -/
def exitProtocol (g : Gen) : List Event :=
  [.released g, .leftLoop g, .sent g .terminated, .received g, .deleted g (some g), .readState g .terminated,
    .onTerminated g, .onThreadTaskExited g, .gaveExited g, .clearedPending g]

/-! ## The events of a step -/

def InitializePc.event (s : Shared) (ok : Bool) : InitializePc → Option Event
  | .deleteTask g _ handle => some (.deleted g handle)
  | .send g _ => if ok then some (.sent g s.threadState) else none
  | _ => none

def WorkerPc.event (s : Shared) (g : Gen) (ok : Bool) : WorkerPc → Option Event
  | .waitGate => some (.released g)
  | .loop =>
    match s.threadState with
    | .terminating | .terminated | .destroyed => some (.leftLoop g)
    | .running | .paused | .initialized | .uninitialized => none
  -- The exception leaves `_loop`.
  | .onLoop => if ok then none else some (.leftLoop g)
  | .send => if ok then some (.sent g s.threadState) else none
  | _ => none

def DispatcherPc.event (s : Shared) : DispatcherPc → Option Event
  | .receive => s.queue.head?.map .received
  | .deleteTask g handle => some (.deleted g handle)
  | .readState g => some (.readState g s.threadState)
  | .onTerminated g => some (.onTerminated g)
  | .onThreadTaskExited g => some (.onThreadTaskExited g)
  | .giveExited g => some (.gaveExited g)
  | .clearPending g => some (.clearedPending g)
  | .exchangeTask _ | .cleanUp => none

def Pc.event (s : Shared) (ok : Bool) : Pc → Option Event
  | .initializeThread pc | .start (.initializeThread pc) => pc.event s ok
  | .worker g pc => pc.event s g ok
  | .dispatcher pc => pc.event s
  | _ => none

/-- What a step of a call that waits for no transition does to a worker. -/
def Frame.event (f : Frame) (s : Shared) (ok : Bool) : Option Event :=
  match f.transition with
  | some _ => none
  | none => f.pc.event s ok

def World.event (w : World) : Action → Option Event
  | .call _ _ => none
  | .step p ok => (w.top p).bind fun f => f.event w.shared ok

/-- The lifecycle of a thread with the log of its workers' exits. -/
def loggedSystem : System (World × List Event) Action := (system false).logged World.event

theorem loggedSystem_step {x y : World × List Event} {action : Action} : loggedSystem.step x action = some y ↔
    step x.1 action = some y.1 ∧ y.2 = x.2 ++ (x.1.event action).toList :=
  Transition.System.logged_step

/-- What a log says of one worker. -/
def history (g : Gen) (log : List Event) : List Event := log.filter fun e => e.gen = g

theorem history_append (log log' : List Event) : history g (log ++ log') = history g log ++ history g log' :=
  List.filter_append ..

theorem history_self (e : Event) : history e.gen [e] = [e] := by
  simp [history]

theorem history_other {e : Event} (h : e.gen ≠ g) : history g [e] = [] := by
  simp [history, h]

/-! ## How far an exit is -/

/-- How much of the exit protocol is behind the call. -/
def WorkerPc.exitStep : WorkerPc → Option Nat
  | .waitGate | .suspended | .clearPending => none
  | .loop | .onLoop => some 1
  | .onExecutionFailed | .notifyExecutionFailed | .terminate _ | .beginFinalization | .setTerminated
  | .storePending | .send => some 2

def DispatcherPc.exitStep : DispatcherPc → Option (Gen × Nat)
  | .receive | .cleanUp => none
  | .exchangeTask g | .deleteTask g _ => some (g, 4)
  | .readState g => some (g, 5)
  | .onTerminated g => some (g, 6)
  | .onThreadTaskExited g => some (g, 7)
  | .giveExited g => some (g, 8)
  | .clearPending g => some (g, 9)

def Pc.exitStep : Pc → Option (Gen × Nat)
  | .worker g pc => pc.exitStep.map fun n => (g, n)
  | .dispatcher pc => pc.exitStep
  | _ => none

def Next.exitStep (next : Next Pc) : Option (Gen × Nat) :=
  match next with
  | .goto pc => pc.exitStep
  | .ret _ => none

def exitStepAfter (f : Option Frame) : Option (Gen × Nat) := f.bind fun f => f.pc.exitStep

theorem exitStepAfter_next (f : Frame) (next : Next Pc) : exitStepAfter (f.next next) = next.exitStep := by
  cases next <;> rfl

/-- What a step logs: the stage in hand and how far the exit is before the
step, the event, and both after it. -/
inductive Logs (s : Shared) : Option Stage → Option (Gen × Nat) → Option Event →
    Option Stage → Option (Gen × Nat) → Prop
  | nothing (l l' : Option Stage) (x : Option (Gen × Nat)) : (∀ g task, l ≠ some (.sending g task)) →
      (∀ g, l ≠ some (.signalled g)) → (l = none → l' = none ∨ l' = some .checked) → Logs s l x none l' x
  | release (g : Gen) : Logs s none none (some (.released g)) (some (.looping g)) (some (g, 1))
  | leave (g : Gen) : Logs s (some (.looping g)) (some (g, 1)) (some (.leftLoop g)) (some (.looping g)) (some (g, 2))
  | exited (g : Gen) : s.taskExitFinalizationStarted = true → Logs s (some (.looping g)) (some (g, 2)) none none none
  | send (g : Gen) : Logs s (some (.sending g (some g))) (some (g, 2)) (some (.sent g s.threadState)) none none
  | receive (g : Gen) : Logs s none none (some (.received g)) (some (.dispatching g)) (some (g, 4))
  | delete (g : Gen) (task : Option Gen) :
      Logs s (some (.deleting g task)) (some (g, 4)) (some (.deleted g task)) (some (.delivering g)) (some (g, 5))
  | readOther (g : Gen) : s.threadState ≠ .terminated →
      Logs s (some (.delivering g)) (some (g, 5)) (some (.readState g s.threadState))
        (some (.delivering g)) (some (g, 8))
  | deliver (n : Nat) (e : Event) : 5 ≤ n → e ≠ .released e.gen →
      (exitProtocol e.gen).take n ++ [e] = (exitProtocol e.gen).take (n + 1) →
      Logs s (some (.delivering e.gen)) (some (e.gen, n)) (some e) (some (.delivering e.gen)) (some (e.gen, n + 1))
  | giveExited (g : Gen) :
      Logs s (some (.delivering g)) (some (g, 8)) (some (.gaveExited g)) (some (.signalled g)) (some (g, 9))
  | clearPending (g : Gen) : Logs s (some (.signalled g)) (some (g, 9)) (some (.clearedPending g)) none none
  | deleteFailed (g : Gen) (task : Option Gen) :
      Logs s (some (.failing g task)) none (some (.deleted g task)) (some (.failed g)) none
  | sendFailed (g : Gen) : Logs s (some (.sending g none)) none (some (.sent g s.threadState)) none none

theorem Logs.same {l : Option Stage} (x : Option (Gen × Nat)) (hs : ∀ g task, l ≠ some (.sending g task))
    (hd : ∀ g, l ≠ some (.signalled g)) : Logs s l x none l x :=
  .nothing l l x hs hd .inl

/-- The queue takes the record. -/
def Sends (f : Frame) (ok : Bool) : Prop :=
  ∀ g, (f.pc = .worker g .send → ok = true) ∧ ∀ status, f.pc.initializePc = some (.send g status) → ok = true

theorem execInitialize_logs {pc : InitializePc} {next : Next InitializePc}
    (h : execInitialize s p pc ok = some (s', next)) (hsend : ∀ g status, pc = .send g status → ok = true) :
    Logs s pc.stage none (pc.event s ok) (next.stage InitializePc.stage) none := by
  have hmove := execInitialize_move h
  by_cases hd : ∃ g status task, pc = .deleteTask g status task
  · obtain ⟨g, status, task, rfl⟩ := hd
    cases h
    exact .deleteFailed g task
  by_cases hs : ∃ g status, pc = .send g status
  · obtain ⟨g, status, rfl⟩ := hs
    obtain rfl := hsend g status rfl
    cases h
    exact .sendFailed g
  have hevent : pc.event s ok = none := by
    cases pc
    case deleteTask g status task => exact absurd ⟨g, status, task, rfl⟩ hd
    case send g status => exact absurd ⟨g, status, rfl⟩ hs
    all_goals rfl
  have hrange : ∀ n : Next InitializePc, (∀ g, n.stage InitializePc.stage ≠ some (.looping g)) ∧
      ∀ g, n.stage InitializePc.stage ≠ some (.dispatching g) := by
    intro n
    cases n with
    | ret => exact ⟨nofun, nofun⟩
    | goto t => cases t <;> exact ⟨nofun, nofun⟩
  rw [hevent]
  refine .nothing _ _ _ (fun g task hl => ?_) (fun g hl => ?_) fun hl => ?_
  · cases pc <;> cases hl
    exact hs ⟨g, _, rfl⟩
  · cases pc <;> cases hl
  · rw [hl] at hmove
    generalize s.registers = r at hmove
    generalize s'.registers = r' at hmove
    generalize hl' : next.stage InitializePc.stage = l' at hmove
    cases hmove with
    | skip | waitExited => exact .inl rfl
    | check => exact .inr rfl
    | enter g => exact absurd hl' ((hrange next).1 g)
    | receive g => exact absurd hl' ((hrange next).2 g)

theorem execWorker_logs {pc : WorkerPc} {next : Next WorkerPc} (h : execWorker s g pc ok = some (s', next))
    (hsend : pc = .send → ok = true) (hclear : pc ≠ .clearPending) :
    Logs s (pc.stage g) (Pc.worker g pc).exitStep (pc.event s g ok) (next.stage (WorkerPc.stage g))
      (next.inside (Pc.worker g) .ret).exitStep := by
  cases pc <;> simp only [execWorker] at h
  case waitGate =>
    split at h <;> cases h
    exact .release g
  case loop =>
    simp only [Option.some.injEq, Prod.mk.injEq] at h
    obtain ⟨-, rfl⟩ := h
    simp only [WorkerPc.event]
    cases hs : s.threadState <;> first | exact .leave g | exact .same _ (by rintro _ _ ⟨⟩) (by rintro _ ⟨⟩)
  case onLoop =>
    cases h
    cases ok with
    | true => exact .same _ (by rintro _ _ ⟨⟩) (by rintro _ ⟨⟩)
    | false => exact .leave g
  case beginFinalization =>
    split at h <;> cases h
    · exact .exited g ‹_›
    · exact .nothing _ _ _ (by rintro _ _ ⟨⟩) (by rintro _ ⟨⟩) (by rintro ⟨⟩)
  case storePending => cases h; exact .nothing _ _ _ (by rintro _ _ ⟨⟩) (by rintro _ ⟨⟩) (by rintro ⟨⟩)
  case send =>
    obtain rfl := hsend rfl
    cases h
    exact .send g
  case clearPending => exact absurd rfl hclear
  case terminate pc =>
    cases h
    cases execTerminate s pc <;> exact .same _ (by rintro _ _ ⟨⟩) (by rintro _ ⟨⟩)
  case onExecutionFailed | notifyExecutionFailed => cases h; exact .same _ (by rintro _ _ ⟨⟩) (by rintro _ ⟨⟩)
  case setTerminated | suspended => cases h

theorem execStart_logs {pc : StartPc} {next : Next StartPc} (h : execStart s p pc ok = some (s', next))
    (hsend : ∀ g status, pc = .initializeThread (.send g status) → ok = true) :
    Logs s (Pc.start pc).stage none ((Pc.start pc).event s ok) (next.stage fun pc => (Pc.start pc).stage) none := by
  unfold execStart at h
  split at h
  · cases h
    have hnone : ∀ n : Next StartPc, n.stage (fun pc => (Pc.start pc).stage) = none →
        Logs s (Pc.start .readState).stage none ((Pc.start .readState).event s ok)
          (n.stage fun pc => (Pc.start pc).stage) none := fun n hn => by rw [hn]; exact .same _ nofun nofun
    refine hnone _ ?_
    split <;> first | rfl | exact StartPc.tail_stage
  · rename_i status
    cases h
    split
    · exact .same _ nofun nofun
    · rw [StartPc.tail_stage]; exact .same _ nofun nofun
  · rename_i pc _
    obtain ⟨⟨s₁, n⟩, hs, he⟩ := Option.map_eq_some_iff.1 h
    cases he
    rw [Next.stage_inside]
    exact execInitialize_logs hs fun g status he => hsend g status (by rw [he])
  · cases h; exact .same _ nofun nofun
  · cases h
  · cases h
  · cases h

theorem execDispatcher_logs {pc : DispatcherPc} {next : Next DispatcherPc}
    (h : execDispatcher s pc = some (s', next)) :
    Logs s pc.stage pc.exitStep (pc.event s) (next.stage DispatcherPc.stage)
      (next.inside Pc.dispatcher .ret).exitStep := by
  cases pc <;> simp only [execDispatcher] at h
  case receive =>
    simp only [DispatcherPc.event]
    split at h <;> cases h
    rename_i hq
    rw [hq]
    exact .receive _
  case exchangeTask g => cases h; exact .nothing _ _ _ (by rintro _ _ ⟨⟩) (by rintro _ ⟨⟩) (by rintro ⟨⟩)
  case deleteTask g task => cases h; exact .delete g task
  case readState g =>
    cases h
    by_cases hs : s.threadState = .terminated
    · simp only [hs, DispatcherPc.event, if_true]
      exact .deliver 5 (.readState g .terminated) (by omega) (by rintro ⟨⟩) rfl
    · simp only [hs, DispatcherPc.event, if_false]
      exact .readOther g hs
  case onTerminated g => cases h; exact .deliver 6 (.onTerminated g) (by omega) (by rintro ⟨⟩) rfl
  case onThreadTaskExited g => cases h; exact .deliver 7 (.onThreadTaskExited g) (by omega) (by rintro ⟨⟩) rfl
  case giveExited g => cases h; exact .giveExited g
  case clearPending g => cases h; exact .clearPending g
  case cleanUp => cases h; exact .same _ (by rintro _ _ ⟨⟩) (by rintro _ ⟨⟩)

/-- A transition is no part of an exit. -/
theorem resume_exitStep {pc : Pc} {stored threw : Bool} (h : pc.transition ≠ none) :
    (pc.resume s stored threw).exitStep = pc.exitStep := by
  cases pc with
  | idle | setFreeOnTerminate | setStartOnInitialize | dispatcher => exact absurd rfl h
  | pause => rfl
  | terminate pc =>
    simp only [Pc.resume]
    cases pc.resume s threw <;> rfl
  | initializeThread pc =>
    simp only [Pc.resume]
    cases pc.resume s stored threw <;> rfl
  | start pc =>
    simp only [Pc.resume]
    cases pc.resume s stored threw <;> rfl
  | shutdown pc =>
    simp only [Pc.resume]
    cases pc.resume s threw <;> rfl
  | worker g pc =>
    simp only [Pc.resume]
    cases pc with
    | terminate pc =>
      simp only [WorkerPc.resume]
      cases pc.resume s threw <;> rfl
    | setTerminated => rfl
    | _ => exact absurd rfl h
  | cleanUp pc => cases pc <;> rfl

theorem Pc.stage_of_transition {pc : Pc} (h : pc.transition ≠ none) :
    (∀ g task, pc.stage ≠ some (.sending g task)) ∧ ∀ g, pc.stage ≠ some (.signalled g) := by
  refine ⟨fun g task hs => h ?_, fun g hs => h ?_⟩
  · cases pc with
    | initializeThread t => cases t <;> cases hs; rfl
    | start t =>
      cases t with
      | initializeThread t => cases t <;> cases hs; rfl
      | _ => cases hs
    | worker g t => cases t <;> cases hs; rfl
    | dispatcher t => rfl
    | _ => cases hs
  · cases pc with
    | initializeThread t => cases t <;> cases hs
    | start t =>
      cases t with
      | initializeThread t => cases t <;> cases hs
      | _ => cases hs
    | worker g t => cases t <;> cases hs
    | dispatcher t => rfl
    | _ => cases hs

theorem Pc.event_of_transition {pc : Pc} (h : pc.transition ≠ none) : pc.event s ok = none := by
  have hinit : ∀ t : InitializePc, t.transition ≠ none → t.event s ok = none := by
    intro t ht
    cases t <;> first | rfl | exact absurd rfl ht
  cases pc with
  | initializeThread t => exact hinit t h
  | start t =>
    cases t with
    | initializeThread t => exact hinit t h
    | _ => rfl
  | worker g t => cases t <;> first | rfl | exact absurd rfl h
  | dispatcher t => exact absurd rfl h
  | _ => rfl

/-- What a step of a call logs. -/
theorem FrameStep.logs {a : TaskId × Nat} {f' : Option Frame} (h : FrameStep s p f ok s' f') (hok : f.Ok a)
    (hsend : Sends f ok) (hclear : ∀ g, f.pc ≠ .worker g .clearPending) :
    Logs s f.pc.stage f.pc.exitStep (f.event s ok) (stageAfter f') (exitStepAfter f') := by
  have hstage : ∀ tr, f.transition = some tr → f.pc.transition ≠ none := fun tr htr => by
    rw [hok.transition tr htr]
    exact Option.some_ne_none _
  cases h with
  -- Inside a transition nothing is logged, and the stage stays in hand.
  | inTransition tr tr' s' htr hst =>
    simp only [Frame.event, htr]
    obtain ⟨hsending, hsignalled⟩ := Pc.stage_of_transition (hstage tr htr)
    exact .same _ hsending hsignalled
  | transitionDone tr s' stored threw htr hst =>
    have htransition := hstage tr htr
    simp only [Frame.event, htr, stageAfter_next, exitStepAfter_next, resume_stage htransition,
      resume_exitStep htransition]
    obtain ⟨hsending, hsignalled⟩ := Pc.stage_of_transition htransition
    exact .same _ hsending hsignalled
  | transitionStart expected newState htr hpc =>
    have htransition : f.pc.transition ≠ none := by
      rw [hpc]
      exact Option.some_ne_none _
    simp only [Frame.event, htr, Pc.event_of_transition htransition]
    obtain ⟨hsending, hsignalled⟩ := Pc.stage_of_transition htransition
    exact .same _ hsending hsignalled
  -- Only `Initialize`, the workers and the dispatcher have events.
  | exec s' next htr hpc hex =>
    simp only [Frame.event, htr, stageAfter_next, exitStepAfter_next]
    cases hx : f.pc with
    | idle | pause => rw [hx] at hex; cases hex
    | setFreeOnTerminate value stored =>
      rw [hx] at hex
      cases stored <;> cases hex <;> exact .same _ nofun nofun
    | setStartOnInitialize value => rw [hx] at hex; cases hex; exact .same _ nofun nofun
    | terminate pc =>
      rw [hx] at hex
      cases hex
      cases execTerminate s pc <;> exact .same _ nofun nofun
    | initializeThread pc =>
      rw [hx] at hex
      obtain ⟨⟨s₁, n⟩, hs, he⟩ := Option.map_eq_some_iff.1 hex
      cases he
      rw [Next.stage_inside]
      have hlogs := execInitialize_logs hs fun g status he => (hsend g).2 status (by rw [hx, he]; rfl)
      cases n <;> exact hlogs
    | start pc =>
      rw [hx] at hex
      obtain ⟨⟨s₁, n⟩, hs, he⟩ := Option.map_eq_some_iff.1 hex
      cases he
      rw [Next.stage_inside]
      have hlogs := execStart_logs hs fun g status he => (hsend g).2 status (by rw [hx, he]; rfl)
      cases n <;> exact hlogs
    | shutdown pc =>
      rw [hx] at hex
      obtain ⟨⟨s₁, n⟩, hs, he⟩ := Option.map_eq_some_iff.1 hex
      cases he
      cases n <;> exact .same _ nofun nofun
    | worker g pc =>
      rw [hx] at hex
      obtain ⟨⟨s₁, n⟩, hs, he⟩ := Option.map_eq_some_iff.1 hex
      cases he
      rw [Next.stage_inside]
      exact execWorker_logs hs (fun he => (hsend g).1 (by rw [hx, he])) fun he => hclear g (by rw [hx, he])
    | dispatcher pc =>
      rw [hx] at hex
      obtain ⟨⟨s₁, n⟩, hs, he⟩ := Option.map_eq_some_iff.1 hex
      cases he
      rw [Next.stage_inside]
      exact execDispatcher_logs hs
    | cleanUp pc =>
      rw [hx] at hex
      obtain ⟨⟨s₁, n⟩, hs, he⟩ := Option.map_eq_some_iff.1 hex
      cases he
      cases n <;> exact .same _ nofun nofun

end ESPressio.Lifecycle
