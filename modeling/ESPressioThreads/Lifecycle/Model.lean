import Mathlib.Logic.Function.Basic
import ESPressioThreads.Lib.Transition
import ESPressioThreads.Lifecycle.Calls
/-!
# The lifecycle of one thread

Any number of application tasks, the workers of all generations and the
termination dispatcher run the lifecycle methods of one thread. Every task has
a stack of calls, of which the top one runs; user code (callbacks, observers,
`OnLoop`, `OnInitialization`) may call any public method, and may throw.

The queue holds the records of this thread, each with the generation whose exit
sent it; the records of other threads only delay a step here. Waiting without a
timeout for a signal does not fail.

The mutex of the dispatcher is left out. In the code a task may wait for it,
and for ever where the worker that held it was deleted. The code's runs are runs
here too, so what never happens here never happens there. That a call comes to
its end is another matter, and is said with the mutex, in `Lifecycle.Guarded`.
-/

namespace ESPressio.Lifecycle

open Transition ESPressio.Thread

/-- The atomics, signals and locks of the thread, its task records, and what
happened: `created` tasks, the `killed` ones, the reclamation by cleanup, and
whether the object is gone. -/
structure Shared where
  threadState : ThreadState
  freeOnTerminate : Bool
  startOnInitialize : Bool
  taskHandle : Option Gen
  initializingTask : Option TaskId
  initializationInProgress : Bool
  terminationDispatchPending : Bool
  taskExitFinalizationStarted : Bool
  cleanupClaim : CleanupClaim
  taskExited : Bool
  taskStartGate : Bool
  configurationLocked : Bool
  transitionOwner : Option TaskId
  transitionDepth : Nat
  queue : List Gen
  created : Nat
  killed : List Gen
  reclaimed : Bool
  freed : Bool
  /-- Constants: a `PrecisionThread`, a thread that manager cleanup sees. -/
  precision : Bool
  managed : Bool
  deriving DecidableEq, Repr

/-! ## State transitions -/

/-- `_dispatchThreadStateChange` has a callback for the new state. -/
def hasThreadEvent : ThreadState → Bool
  | .terminated | .paused | .running | .initialized => true
  | .uninitialized | .terminating | .destroyed => false

inductive TransitionNext
  | goto (tr : StateTransition)
  | done (stored threw : Bool)
  deriving DecidableEq, Repr

/-- One step of `SetThreadState` or `TrySetThreadState` on the task `p`. -/
def stepTransition (s : Shared) (p : TaskId) (tr : StateTransition) (ok : Bool) :
    Option (Shared × TransitionNext) :=
  let goto := fun (tr : StateTransition) pc => TransitionNext.goto { tr with pc := pc }
  match tr.pc with
  | .lock =>
    if s.transitionOwner = none ∨ s.transitionOwner = some p then
      some ({ s with transitionOwner := some p, transitionDepth := s.transitionDepth + 1 }, goto tr .check)
    else none
  | .check =>
    if (tr.expected = none ∨ tr.expected = some s.threadState) ∧
        isValidThreadStateTransition s.threadState tr.newState then
      some ({ s with threadState := tr.newState }, goto { tr with stored := true } .onStateChange)
    else some (s, goto tr .unlock)
  -- A callback that throws does not keep the others from being called.
  | .onStateChange => some (s, goto { tr with failed := !ok } .getThreadState)
  | .getThreadState =>
    some (s, goto tr (if hasThreadEvent tr.newState ∧ s.threadState = tr.newState then .onThreadEvent
      else .notifyObservers))
  | .onThreadEvent => some (s, goto { tr with failed := tr.failed || !ok } .notifyObservers)
  | .notifyObservers =>
    let failed := tr.failed || !ok
    some (s, goto { tr with failed := failed } (if failed then .loadInProgress else .unlock))
  | .loadInProgress =>
    some (s, goto tr (if s.initializationInProgress then .loadInitializing else .unlock))
  -- Only the task that initializes the thread is told, by an exception.
  | .loadInitializing => some (s, goto { tr with throws := s.initializingTask = some p } .unlock)
  | .unlock =>
    let depth := s.transitionDepth - 1
    some ({ s with transitionDepth := depth, transitionOwner := if depth = 0 then none else some p },
      .done tr.stored tr.throws)

/-! ## The methods -/

/-- `_deleteTask`: `TaskRuntime::Delete` of what the exchange returned. -/
def Shared.kill (s : Shared) : Option Gen → Shared
  | none => s
  | some g => { s with killed := g :: s.killed }

/-- `_cleanupClaim.compare_exchange_strong(from, to)`. -/
def Shared.exchangeClaim (s : Shared) (expected claim : CleanupClaim) : Shared :=
  if s.cleanupClaim = expected then { s with cleanupClaim := claim } else s

/-- `PrecisionThread` signals its scheduler after `Terminate` and `Start`. -/
def TerminatePc.tail (s : Shared) : Next TerminatePc := if s.precision then .goto .signalScheduler else .ret false

def StartPc.tail (s : Shared) : Next StartPc := if s.precision then .goto .signalScheduler else .ret false

/-- The transition a program counter makes, with the expected state. -/
def TerminatePc.transition : TerminatePc → Option (Option ThreadState × ThreadState)
  | .fromUninitialized | .request => some (none, .terminating)
  | .setTerminated => some (none, .terminated)
  | .readState | .signalScheduler => none

def TerminatePc.resume (s : Shared) (threw : Bool) : TerminatePc → Next TerminatePc
  | .fromUninitialized => if threw then .ret true else .goto .setTerminated
  | _ => if threw then .ret true else TerminatePc.tail s

def execTerminate (s : Shared) : TerminatePc → Next TerminatePc
  | .readState =>
    match s.threadState with
    | .uninitialized => .goto .fromUninitialized
    | .initialized | .running | .paused => .goto .request
    | .terminating | .terminated | .destroyed => TerminatePc.tail s
  | _ => .ret false

def InitializePc.transition : InitializePc → Option (Option ThreadState × ThreadState)
  | .reset => some (some .terminated, .uninitialized)
  | .setInitialized _ => some (none, .initialized)
  | .setRunning _ => some (none, .running)
  | .stopTerminated _ | .catchTerminated _ => some (none, .terminated)
  | .catchTerminate _ pc => pc.transition
  | _ => none

/-- `Initialize` failed before it had a task to clean up. -/
def InitializePc.failed (status : ThreadInitializationStatus) : Next InitializePc :=
  .goto (.onInitializationFailed status)

/-- The handler of an exception: `Terminate`, `SetThreadState(Terminated)`. -/
def InitializePc.handle (g : Gen) : Next InitializePc := .goto (.catchTerminate g .readState)

def InitializePc.resume (s : Shared) (stored threw : Bool) : InitializePc → Next InitializePc
  | .reset =>
    if threw then .ret true
    else if stored then .goto .lockConfiguration
    else InitializePc.failed .invalidState
  | .setInitialized g => if threw then InitializePc.handle g else .goto (.readAfterInitialized g)
  | .setRunning g => if threw then InitializePc.handle g else .goto (.giveGate g)
  | .stopTerminated g =>
    if threw then InitializePc.handle g else .goto (.exchangeTask g .terminatedDuringInitialization)
  | .catchTerminate g pc =>
    (pc.resume s threw).inside (InitializePc.catchTerminate g) fun _ => .goto (.catchTerminated g)
  | .catchTerminated g => .goto (.exchangeTask g .initializationException)
  | _ => .ret false

/-- `Initialize`, but for its transitions. -/
def execInitialize (s : Shared) (p : TaskId) (pc : InitializePc) (ok : Bool) : Option (Shared × Next InitializePc) :=
  match pc with
  | .ensureRegistered => some (s, if ok then .goto .loadHandle else .ret true)
  | .loadHandle =>
    some (s, if s.taskHandle = none then .goto .loadPending else InitializePc.failed .alreadyInitialized)
  | .loadPending =>
    some (s, if s.terminationDispatchPending then InitializePc.failed .terminationDispatchPending
      else .goto .ensureDispatcher)
  | .ensureDispatcher =>
    some (s, if ok then .goto .readState else InitializePc.failed .terminationDispatcherUnavailable)
  | .readState =>
    some (s, match s.threadState with
      | .terminated => .goto .reset
      | .uninitialized => .goto .lockConfiguration
      | _ => InitializePc.failed .invalidState)
  | .lockConfiguration =>
    if s.configurationLocked then none else some ({ s with configurationLocked := true }, .goto .recheckHandle)
  -- The first check ran without the mutex: another call may have made a task since.
  | .recheckHandle =>
    if s.taskHandle = none then some (s, .goto .resetExited)
    else some ({ s with configurationLocked := false }, InitializePc.failed .alreadyInitialized)
  | .resetExited => some ({ s with taskExited := false }, .goto .resetGate)
  | .resetGate => some ({ s with taskStartGate := false }, .goto .resetFinalization)
  | .resetFinalization => some ({ s with taskExitFinalizationStarted := false }, .goto .create)
  | .create =>
    if ok then some ({ s with created := s.created + 1 }, .goto (.publish s.created))
    else some ({ s with configurationLocked := false }, InitializePc.failed .taskCreationFailed)
  -- A task that loses the exchange is deleted before its start gate opens.
  | .publish g =>
    if s.taskHandle = none then some ({ s with taskHandle := some g }, .goto (.unlockConfiguration g))
    else
      some ({ s with killed := g :: s.killed, configurationLocked := false },
        InitializePc.failed .concurrentInitializationLost)
  | .unlockConfiguration g => some ({ s with configurationLocked := false }, .goto (.storeInitializing g))
  | .storeInitializing g => some ({ s with initializingTask := some p }, .goto (.storeInProgress g))
  | .storeInProgress g => some ({ s with initializationInProgress := true }, .goto (.onInitialization g))
  | .onInitialization g =>
    some (s, if ok then .goto (.readAfterInitialization g) else InitializePc.handle g)
  -- `OnInitialization` may have called `Terminate`.
  | .readAfterInitialization g =>
    some (s, match s.threadState with
      | .terminating => .goto (.stopTerminated g)
      | .terminated => .goto (.exchangeTask g .terminatedDuringInitialization)
      | _ => .goto (.setInitialized g))
  | .readAfterInitialized g =>
    some (s, match s.threadState with
      | .terminating => .goto (.stopTerminated g)
      | .terminated => .goto (.exchangeTask g .terminatedDuringInitialization)
      | .initialized => .goto (.loadStartOnInitialize g)
      | _ => .goto (.giveGate g))
  | .loadStartOnInitialize g => some (s, .goto (if s.startOnInitialize then .setRunning g else .giveGate g))
  | .catchTerminate g pc =>
    some (s, (execTerminate s pc).inside (InitializePc.catchTerminate g) fun _ => .goto (.catchTerminated g))
  -- `_deleteTask` and `_finalizeStoppedTaskExit`: the worker never ran `_loop`.
  | .exchangeTask g status => some ({ s with taskHandle := none }, .goto (.deleteTask g status s.taskHandle))
  | .deleteTask g status handle => some (s.kill handle, .goto (.beginFinalization g status))
  | .beginFinalization g status =>
    if s.taskExitFinalizationStarted then some (s, .goto (.clearInProgress status))
    else some ({ s with taskExitFinalizationStarted := true }, .goto (.storePending g status))
  | .storePending g status => some ({ s with terminationDispatchPending := true }, .goto (.send g status))
  | .send g status =>
    if ok then some ({ s with queue := s.queue ++ [g] }, .goto (.clearInProgress status))
    else some (s, .goto (.clearPending status))
  | .clearPending status => some ({ s with terminationDispatchPending := false }, .goto (.clearInProgress status))
  | .giveGate g =>
    if ok then some ({ s with taskStartGate := true }, .goto (.clearInProgress .success))
    else some (s, .goto (.exchangeTask g .taskCreationFailed))
  -- The destructor of `InitializationContextGuard`.
  | .clearInProgress status =>
    some ({ s with initializationInProgress := false }, .goto (.clearInitializing status))
  | .clearInitializing status =>
    some ({ s with initializingTask := none },
      .goto (if status = .success then .finished status else .onInitializationFailed status))
  | .onInitializationFailed status => some (s, .goto (.notifyInitializationFailed status))
  | .notifyInitializationFailed status => some (s, .goto (.finished status))
  | .finished _ => some (s, .ret false)
  | .reset | .setInitialized _ | .setRunning _ | .stopTerminated _ | .catchTerminated _ => none

def StartPc.transition : StartPc → Option (Option ThreadState × ThreadState)
  | .initializeThread pc => pc.transition
  | .setRunning | .tryInitialized => some (some .initialized, .running)
  | .tryPaused => some (some .paused, .running)
  | .readState | .signalScheduler => none

def StartPc.resume (s : Shared) (stored threw : Bool) : StartPc → Next StartPc
  | .initializeThread pc => (pc.resume s stored threw).inside StartPc.initializeThread .ret
  | _ => if threw then .ret true else StartPc.tail s

def execStart (s : Shared) (p : TaskId) (pc : StartPc) (ok : Bool) : Option (Shared × Next StartPc) :=
  match pc with
  | .readState =>
    some (s, match s.threadState with
      | .uninitialized | .terminated => .goto (.initializeThread .ensureRegistered)
      | .initialized => .goto .tryInitialized
      | .paused => .goto .tryPaused
      | .running | .terminating | .destroyed => StartPc.tail s)
  | .initializeThread (.finished status) => some (s, if status = .success then .goto .setRunning else StartPc.tail s)
  | .initializeThread pc => (execInitialize s p pc ok).map fun r => (r.1, r.2.inside StartPc.initializeThread .ret)
  | .signalScheduler => some (s, .ret false)
  | .setRunning | .tryInitialized | .tryPaused => none

def ShutdownPc.transition : ShutdownPc → Option (Option ThreadState × ThreadState)
  | .terminate _ pc => pc.transition
  | .setTerminated => some (none, .terminated)
  | _ => none

/-- What `Shutdown` does after `Terminate` in a branch. -/
def ShutdownBranch.next : ShutdownBranch → Next ShutdownPc
  | .initializing | .ownTask => .ret false
  | .noTask => .goto .setTerminated
  | .wait => .goto .waitExited

def ShutdownBranch.after (branch : ShutdownBranch) (threw : Bool) : Next ShutdownPc :=
  if threw then .ret true else branch.next

def ShutdownPc.resume (s : Shared) (threw : Bool) : ShutdownPc → Next ShutdownPc
  | .terminate branch pc => (pc.resume s threw).inside (ShutdownPc.terminate branch) branch.after
  | _ => if threw then .ret true else .goto .loadPending

/-- The branch of `Shutdown` on a task that is not the initializing one. -/
def ShutdownPc.choose (p : TaskId) : Option Gen → ShutdownPc
  | none => .readState
  | some g => .terminate (if p = .worker g then .ownTask else .wait) .readState

def execShutdown (s : Shared) (p : TaskId) (pc : ShutdownPc) : Option (Shared × Next ShutdownPc) :=
  match pc with
  | .claimManual => some (s.exchangeClaim .available .manual, .goto .storeFree)
  | .storeFree => some ({ s with freeOnTerminate := false }, .goto .releaseClaim)
  | .releaseClaim => some (s.exchangeClaim .available .manual, .goto .loadHandle)
  | .loadHandle => some (s, .goto (.loadInProgress s.taskHandle))
  -- Called by user code of `Initialize`, `Shutdown` does not wait.
  | .loadInProgress handle =>
    some (s, .goto (if s.initializationInProgress then .loadInitializing handle else ShutdownPc.choose p handle))
  | .loadInitializing handle =>
    some (s, .goto (if s.initializingTask = some p then .terminate .initializing .readState
      else ShutdownPc.choose p handle))
  | .readState => some (s, .goto (if s.threadState = .terminated then .loadPending else .rereadState))
  | .rereadState =>
    some (s, .goto (if s.threadState = .destroyed then .loadPending else .terminate .noTask .readState))
  | .terminate branch pc => some (s, (execTerminate s pc).inside (ShutdownPc.terminate branch) branch.after)
  -- A successful wait consumes the signal.
  | .waitExited => if s.taskExited then some ({ s with taskExited := false }, .goto .loadPending) else none
  | .loadPending => some (s, .goto (if s.terminationDispatchPending then .isCurrentTask else .finish))
  -- The dispatcher would wait for itself.
  | .isCurrentTask => some (s, if p = .dispatcher then .ret false else .goto .poll)
  | .poll => some (s, .goto (if s.terminationDispatchPending then .poll else .finish))
  | .finish => some (s, .ret false)
  | .setTerminated => none

def WorkerPc.transition : WorkerPc → Option (Option ThreadState × ThreadState)
  | .terminate pc => pc.transition
  | .setTerminated => some (some .terminating, .terminated)
  | _ => none

def WorkerPc.resume (s : Shared) (threw : Bool) : WorkerPc → Next WorkerPc
  | .terminate pc => (pc.resume s threw).inside WorkerPc.terminate fun _ => .goto .beginFinalization
  | _ => .goto .storePending

/-- `_taskEntry`. -/
def execWorker (s : Shared) (g : Gen) (pc : WorkerPc) (ok : Bool) : Option (Shared × Next WorkerPc) :=
  match pc with
  | .waitGate => if s.taskStartGate then some ({ s with taskStartGate := false }, .goto .loop) else none
  | .loop =>
    some (s, match s.threadState with
      | .running => .goto .onLoop
      | .paused | .initialized | .uninitialized => .goto .loop
      | .terminating | .terminated | .destroyed => .goto .beginFinalization)
  | .onLoop => some (s, .goto (if ok then .loop else .onExecutionFailed))
  | .onExecutionFailed => some (s, .goto .notifyExecutionFailed)
  | .notifyExecutionFailed => some (s, .goto (.terminate .readState))
  | .terminate pc => some (s, (execTerminate s pc).inside WorkerPc.terminate fun _ => .goto .beginFinalization)
  -- `Initialize` may have begun it first; then it sends the record.
  | .beginFinalization =>
    if s.taskExitFinalizationStarted then some (s, .goto .suspended)
    else some ({ s with taskExitFinalizationStarted := true }, .goto .setTerminated)
  | .storePending => some ({ s with terminationDispatchPending := true }, .goto .send)
  | .send =>
    if ok then some ({ s with queue := s.queue ++ [g] }, .goto .suspended) else some (s, .goto .clearPending)
  | .clearPending => some ({ s with terminationDispatchPending := false }, .goto .suspended)
  | .suspended | .setTerminated => none

/-- The dispatcher task, as far as this thread goes. -/
def execDispatcher (s : Shared) (pc : DispatcherPc) : Option (Shared × Next DispatcherPc) :=
  match pc with
  | .receive =>
    match s.queue with
    | [] => none
    | g :: queue => some ({ s with queue := queue }, .goto (.exchangeTask g))
  | .exchangeTask g => some ({ s with taskHandle := none }, .goto (.deleteTask g s.taskHandle))
  | .deleteTask g handle => some (s.kill handle, .goto (.readState g))
  | .readState g => some (s, .goto (if s.threadState = .terminated then .onTerminated g else .giveExited g))
  | .onTerminated g => some (s, .goto (.onThreadTaskExited g))
  | .onThreadTaskExited g => some (s, .goto (.giveExited g))
  -- From here on a waiting `Shutdown` may go on.
  | .giveExited g => some ({ s with taskExited := true }, .goto (.clearPending g))
  | .clearPending _ => some ({ s with terminationDispatchPending := false }, .goto .cleanUp)
  | .cleanUp => some (s, .goto .receive)

/-- A manager cleanup pass over this thread. -/
def execCleanUp (s : Shared) (p : TaskId) (pc : CleanUpPc) (ok : Bool) : Option (Shared × Next CleanUpPc) :=
  match pc with
  -- `ok` is false when the pass is deferred.
  | .getThreadState => some (s, if ok ∧ s.threadState = .terminated then .goto .loadFree else .ret false)
  | .loadFree => some (s, if s.freeOnTerminate then .goto .loadState else .ret false)
  | .loadState => some (s, if s.threadState = .terminated then .goto .exchangeClaim else .ret false)
  | .exchangeClaim =>
    if s.cleanupClaim = .available then
      some ({ s with cleanupClaim := .automatic, reclaimed := true }, .goto .remove)
    else some (s, .ret false)
  -- `ok` is false when the thread was removed from the registry meanwhile.
  | .remove => some (s, if ok then .goto .storeFree else .ret false)
  | .storeFree => some ({ s with freeOnTerminate := false }, .goto .releaseClaim)
  | .releaseClaim => some (s.exchangeClaim .available .manual, .goto .loadPending)
  | .loadPending => some (s, .goto (if s.terminationDispatchPending then .isCurrentTask else .setDestroyed))
  | .isCurrentTask => some (s, .goto (if p = .dispatcher then .setDestroyed else .poll))
  | .poll => some (s, .goto (if s.terminationDispatchPending then .poll else .setDestroyed))
  | .onDestroy => some (s, .goto .exchangeTask)
  | .exchangeTask => some ({ s with taskHandle := none }, .goto (.deleteTask s.taskHandle))
  | .deleteTask handle => some (s.kill handle, .goto .free)
  | .free => some ({ s with freed := true }, .ret false)
  | .setDestroyed => none

/-! ## Calls -/

def Pc.transition : Pc → Option (Option ThreadState × ThreadState)
  | .pause => some (some .running, .paused)
  | .terminate pc => pc.transition
  | .initializeThread pc => pc.transition
  | .start pc => pc.transition
  | .shutdown pc => pc.transition
  | .worker _ pc => pc.transition
  | .cleanUp .setDestroyed => some (none, .destroyed)
  | .idle | .setFreeOnTerminate _ _ | .setStartOnInitialize _ | .dispatcher _ | .cleanUp _ => none

/-- How a call goes on after its transition. -/
def Pc.resume (s : Shared) (stored threw : Bool) : Pc → Next Pc
  | .terminate pc => (pc.resume s threw).inside Pc.terminate .ret
  | .initializeThread pc => (pc.resume s stored threw).inside Pc.initializeThread .ret
  | .start pc => (pc.resume s stored threw).inside Pc.start .ret
  | .shutdown pc => (pc.resume s threw).inside Pc.shutdown .ret
  | .worker g pc => (pc.resume s threw).inside (Pc.worker g) .ret
  | .cleanUp .setDestroyed => .goto (.cleanUp .onDestroy)
  | _ => .ret threw

/-- One step of a call that waits for no transition. -/
def exec (s : Shared) (p : TaskId) (pc : Pc) (ok : Bool) : Option (Shared × Next Pc) :=
  match pc with
  | .idle | .pause => none
  | .setFreeOnTerminate value false =>
    some ({ s with freeOnTerminate := value }, .goto (.setFreeOnTerminate value true))
  | .setFreeOnTerminate value true =>
    some (if value then s.exchangeClaim .manual .available else s.exchangeClaim .available .manual, .ret false)
  | .setStartOnInitialize value => some ({ s with startOnInitialize := value }, .ret false)
  | .terminate pc => some (s, (execTerminate s pc).inside Pc.terminate .ret)
  | .initializeThread pc => (execInitialize s p pc ok).map fun r => (r.1, r.2.inside Pc.initializeThread .ret)
  | .start pc => (execStart s p pc ok).map fun r => (r.1, r.2.inside Pc.start .ret)
  | .shutdown pc => (execShutdown s p pc).map fun r => (r.1, r.2.inside Pc.shutdown .ret)
  | .worker g pc => (execWorker s g pc ok).map fun r => (r.1, r.2.inside (Pc.worker g) .ret)
  | .dispatcher pc => (execDispatcher s pc).map fun r => (r.1, r.2.inside Pc.dispatcher .ret)
  | .cleanUp pc => (execCleanUp s p pc ok).map fun r => (r.1, r.2.inside Pc.cleanUp .ret)

/-- The program counters at which user code runs. -/
def InitializePc.userCode : InitializePc → Bool
  | .onInitialization _ | .onInitializationFailed _ | .notifyInitializationFailed _ => true
  | _ => false

def Pc.userCode : Pc → Bool
  | .initializeThread pc | .start (.initializeThread pc) => pc.userCode
  | .worker _ .onLoop | .worker _ .onExecutionFailed | .worker _ .notifyExecutionFailed => true
  -- While it waits for a record of this thread it may run callbacks of others.
  | .dispatcher .receive | .dispatcher (.onTerminated _) | .dispatcher (.onThreadTaskExited _)
  | .dispatcher .cleanUp => true
  | .cleanUp .onDestroy => true
  | _ => false

def Frame.userCode (f : Frame) : Bool :=
  match f.transition with
  | some tr => tr.pc = .onStateChange || tr.pc = .onThreadEvent || tr.pc = .notifyObservers
  | none => f.pc.userCode

/-- What a step of a call leaves: the call itself, or nothing. -/
def Frame.next (f : Frame) : Next Pc → Option Frame
  | .goto pc => some { f with pc := pc, transition := none }
  | .ret _ => none

/-- One step of the call `f` on the task `p`; no call is left when it returned. -/
def stepFrame (s : Shared) (p : TaskId) (f : Frame) (ok : Bool) : Option (Shared × Option Frame) :=
  match f.transition with
  | some tr =>
    (stepTransition s p tr ok).map fun r =>
      match r.2 with
      | .goto tr => (r.1, some { f with transition := some tr })
      -- The call goes on in the same step that releases the lock.
      | .done stored threw => (r.1, f.next (f.pc.resume r.1 stored threw))
  | none =>
    match f.pc.transition with
    | some (expected, newState) => some (s, some { f with transition := some (.start expected newState) })
    | none => (exec s p f.pc ok).map fun r => (r.1, f.next r.2)

/-! ## Runs -/

structure World where
  shared : Shared
  depth : TaskId → Nat
  frames : TaskId × Nat → Frame

inductive Action
  | call (p : TaskId) (request : Request)
  | step (p : TaskId) (ok : Bool)
  deriving DecidableEq, Repr

namespace World

/-- A worker runs from its creation to its deletion. -/
def runnable (w : World) : TaskId → Bool
  | .worker g => g < w.shared.created && !w.shared.killed.contains g
  | .app _ | .dispatcher => true

def setFrame (w : World) (a : TaskId × Nat) (f : Frame) : World := { w with frames := Function.update w.frames a f }

/-- User code runs on the task: above its last call, or instead of one. -/
def inUserCode (w : World) (p : TaskId) : Bool :=
  match w.depth p with
  | 0 => match p with | .app _ => true | .worker _ | .dispatcher => false
  | n + 1 => (w.frames (p, n)).userCode

/-- User code on `p` calls a public method. -/
def push (w : World) (p : TaskId) (request : Request) : World :=
  { w with
    depth := Function.update w.depth p (w.depth p + 1)
    frames := Function.update w.frames (p, w.depth p) ⟨request.entry, none, w.shared.reclaimed⟩ }

end World

def step (w : World) : Action → Option World
  | .call p request =>
    if w.runnable p ∧ w.inUserCode p ∧ (request = .cleanUp → w.shared.managed = true) then some (w.push p request)
    else none
  | .step p ok =>
    if w.runnable p then
      match w.depth p with
      | 0 => none
      | n + 1 =>
        match stepFrame w.shared p (w.frames (p, n)) ok with
        | none => none
        | some (s, some f) => some ({ w with shared := s }.setFrame (p, n) f)
        | some (s, none) =>
          some ({ w with shared := s, depth := Function.update w.depth p n }.setFrame (p, n) Frame.idle)
    else none

/-- A constructed thread: no task, state `Uninitialized`. -/
def Shared.start (freeOnTerminate startOnInitialize precision managed : Bool) : Shared :=
  { threadState := .uninitialized, freeOnTerminate := freeOnTerminate, startOnInitialize := startOnInitialize
    taskHandle := none, initializingTask := none, initializationInProgress := false
    terminationDispatchPending := false, taskExitFinalizationStarted := false, cleanupClaim := .available
    taskExited := false, taskStartGate := false, configurationLocked := false, transitionOwner := none
    transitionDepth := 0, queue := [], created := 0, killed := [], reclaimed := false, freed := false
    precision := precision, managed := managed }

/-- Every worker is at the start of `_taskEntry`, the dispatcher waits. -/
def World.start (s : Shared) : World where
  shared := s
  depth
    | .app _ => 0
    | .worker _ | .dispatcher => 1
  frames
    | (.worker g, 0) => ⟨.worker g .waitGate, none, false⟩
    | (.dispatcher, 0) => ⟨.dispatcher .receive, none, false⟩
    | _ => Frame.idle

/-- The lifecycle of a thread; `managed` when manager cleanup sees it. -/
def system (managed : Bool) : System World Action where
  init w := ∃ free start precision, w = .start (Shared.start free start precision managed)
  step := step

end ESPressio.Lifecycle
