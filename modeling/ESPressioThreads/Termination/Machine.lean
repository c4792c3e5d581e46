import ESPressioThreads.Manager.Machine
/-!
# Thread exits, the termination dispatcher and manager cleanup

Any number of threads whose workers run. A worker that leaves its loop stores
`Terminated`, sets `_terminationDispatchPending` and sends its record to a
bounded queue under `_initializationMutex`. The dispatcher task receives the
records one by one, runs `_dispatchTermination` and then a cleanup pass over
the whole registry. Other tasks run manager operations of their own.

The manager is the machine of `Manager.Machine`. Where a pass calls a thread,
the thread's atomics answer, one access a step: `TryClaimAutomaticCleanup`
reads twice before it exchanges, and `delete` waits for a pending dispatch. The
calls of `Initialize` are left to `Termination.Generations`.
-/

namespace ESPressio.Termination

open Transition ESPressio.Thread ESPressio.Manager

/-- The worker of a thread: `_loop`, then `_finalizeCurrentTaskExit`. -/
inductive WorkerPc
  | loop
  | beginExit
  | storeTerminated
  | onTerminate
  | storePending
  | ensureAvailable
  | lockQueue
  | send
  | unlockQueue
  | notifyQueued
  | suspended
  | deleted
  deriving DecidableEq, Repr

/-- The atomics of a thread, and its worker. `exited` and `dispatched` are
history: the worker stored `Terminated`, `_dispatchTermination` returned. -/
structure Cell where
  state : ThreadState
  freeOnTerminate : Bool
  cleanupClaim : CleanupClaim
  hasTask : Bool
  dispatchPending : Bool
  exitFinalizationStarted : Bool
  taskExited : Bool
  worker : WorkerPc
  exited : Bool
  dispatched : Bool
  deriving DecidableEq, Repr

/-- Tasks that take `_initializationMutex`. -/
inductive Task
  | worker (t : ThreadPtr)
  | dispatcher
  | op (i : OpId)
  deriving DecidableEq, Repr

/-- `Shutdown` of the thread under dispatch, called on the dispatcher task. -/
inductive ShutdownPc
  | claimManual
  | storeFree
  | releaseClaim
  | loadHandle
  | readState
  | loadPending
  | isCurrentTask
  deriving DecidableEq, Repr

/-- The user code `_dispatchTermination` calls. -/
inductive Callback
  | onTerminated
  | onThreadTaskExited
  deriving DecidableEq, Repr

/-- The dispatcher's `_loop`, with `_dispatchTermination` of the thread `t`. -/
inductive DispatcherPc
  | receive
  | notifyStarted (t : ThreadPtr)
  | deleteTask (t : ThreadPtr)
  | readState (t : ThreadPtr)
  | callback (t : ThreadPtr) (c : Callback)
  | shutdown (t : ThreadPtr) (c : Callback) (pc : ShutdownPc)
  | give (t : ThreadPtr)
  | clearPending (t : ThreadPtr)
  | callCleanUp (t : ThreadPtr)
  | cleaning (t : ThreadPtr) (i : OpId)
  | notifyCompleted (t : ThreadPtr)
  deriving DecidableEq, Repr

/-- `TryClaimAutomaticCleanup`. -/
inductive ClaimPc
  | loadFree
  | loadState
  | exchange
  deriving DecidableEq, Repr

/-- `delete`: the destructor up to the end of `_waitForTerminationDispatch`. -/
inductive DestroyPc
  | storeFree
  | releaseClaim
  | loadPending
  | isCurrentTask
  | poll
  | finish
  deriving DecidableEq, Repr

/-- Where a manager operation is inside its call of a thread, and whether the
dispatcher task runs it. -/
structure OpCell where
  onDispatcher : Bool
  claim : ClaimPc
  destroy : DestroyPc
  deriving DecidableEq, Repr

structure World where
  manager : Machine
  cells : ThreadPtr → Cell
  ops : OpId → OpCell
  queue : List ThreadPtr
  initializationMutex : Option Task
  dispatcher : DispatcherPc

/-- What a dispatcher callback does next. -/
inductive CallbackChoice
  | shutdown
  | returns
  deriving DecidableEq, Repr

inductive Action
  | terminate (t : ThreadPtr)
  | worker (t : ThreadPtr)
  | dispatcher
  | callback (choice : CallbackChoice)
  | dispatcherCleanUp (i : OpId)
  | call (i : OpId) (request : Request)
  | op (i : OpId) (answer : Answer)
  deriving DecidableEq, Repr

namespace World
variable (s : World)

def setCell (t : ThreadPtr) (c : Cell) : World := { s with cells := Function.update s.cells t c }

def setOp (i : OpId) (o : OpCell) : World := { s with ops := Function.update s.ops i o }

end World

/-- A call of a thread starts at its first access. -/
def freshOp (onDispatcher : Bool) : OpCell := ⟨onDispatcher, .loadFree, .storeFree⟩

/-- `_cleanupClaim.compare_exchange_strong(Available, claim)`. -/
def Cell.exchangeClaim (c : Cell) (claim : CleanupClaim) : Cell :=
  if c.cleanupClaim = .available then { c with cleanupClaim := claim } else c

/-- `_deleteTask`. -/
def Cell.deleteTask (c : Cell) : Cell :=
  if c.hasTask then { c with hasTask := false, worker := .deleted } else c

section
variable (capacity coreCount : Nat) (s : World)

/-- `Terminate` of a thread whose worker runs. -/
def stepTerminate (t : ThreadPtr) : Option World :=
  let c := s.cells t
  if isValidThreadStateTransition c.state .terminating then some (s.setCell t { c with state := .terminating })
  else none

/-- The worker of `t`. -/
def stepWorker (t : ThreadPtr) : Option World :=
  let c := s.cells t
  match c.worker with
  | .loop =>
    match c.state with
    | .terminating | .terminated | .destroyed => some (s.setCell t { c with worker := .beginExit })
    | .uninitialized | .initialized | .running | .paused => some s
  | .beginExit =>
    if c.exitFinalizationStarted then some (s.setCell t { c with worker := .suspended })
    else some (s.setCell t { c with exitFinalizationStarted := true, worker := .storeTerminated })
  | .storeTerminated =>
    if c.state = .terminating then
      some (s.setCell t { c with state := .terminated, exited := true, worker := .onTerminate })
    else some (s.setCell t { c with worker := .storePending })
  | .onTerminate => some (s.setCell t { c with worker := .storePending })
  | .storePending => some (s.setCell t { c with dispatchPending := true, worker := .ensureAvailable })
  -- `EnsureAvailable` takes the mutex and gives it back: the dispatcher exists.
  | .ensureAvailable =>
    if s.initializationMutex = none then some (s.setCell t { c with worker := .lockQueue }) else none
  | .lockQueue =>
    if s.initializationMutex = none then
      some ({ s with initializationMutex := some (.worker t) }.setCell t { c with worker := .send })
    else none
  -- `Send(WaitForever)` blocks while the queue is full.
  | .send =>
    if s.queue.length < capacity then
      some ({ s with queue := s.queue ++ [t] }.setCell t { c with worker := .unlockQueue })
    else none
  | .unlockQueue => some ({ s with initializationMutex := none }.setCell t { c with worker := .notifyQueued })
  | .notifyQueued => some (s.setCell t { c with worker := .suspended })
  | .suspended | .deleted => none

/-- `Shutdown` on the dispatcher task, where the thread's task is deleted. -/
def stepShutdown (t : ThreadPtr) (cb : Callback) (pc : ShutdownPc) : Option World :=
  let c := s.cells t
  let goto := fun (s : World) pc => { s with dispatcher := .shutdown t cb pc }
  let done := { s with dispatcher := .callback t cb }
  match pc with
  | .claimManual => some (goto (s.setCell t (c.exchangeClaim .manual)) .storeFree)
  | .storeFree => some (goto (s.setCell t { c with freeOnTerminate := false }) .releaseClaim)
  | .releaseClaim => some (goto (s.setCell t (c.exchangeClaim .manual)) .loadHandle)
  | .loadHandle => if c.hasTask then none else some (goto s .readState)
  | .readState =>
    if c.state = .terminated ∨ c.state = .destroyed then some (goto s .loadPending) else none
  | .loadPending => some (if c.dispatchPending then goto s .isCurrentTask else done)
  | .isCurrentTask => if s.initializationMutex = none then some done else none

/-- The dispatcher task, but for its callbacks' choices and its cleanup call. -/
def stepDispatcher : Option World :=
  let goto := fun (s : World) pc => { s with dispatcher := pc }
  match s.dispatcher with
  | .receive =>
    match s.queue with
    | [] => none
    | t :: queue => some (goto { s with queue := queue } (.notifyStarted t))
  | .notifyStarted t => some (goto s (.deleteTask t))
  | .deleteTask t => some (goto (s.setCell t (s.cells t).deleteTask) (.readState t))
  | .readState t =>
    if (s.cells t).state = .terminated then some (goto s (.callback t .onTerminated))
    else some (goto s (.give t))
  | .shutdown t cb pc => stepShutdown s t cb pc
  | .give t => some (goto (s.setCell t { s.cells t with taskExited := true }) (.clearPending t))
  | .clearPending t =>
    some (goto (s.setCell t { s.cells t with dispatchPending := false, dispatched := true }) (.callCleanUp t))
  | .cleaning t i =>
    match s.manager.ops i with
    | .returned _ => some (goto s (.notifyCompleted t))
    | _ => none
  | .notifyCompleted _ => some (goto s .receive)
  | .callback _ _ | .callCleanUp _ => none

/-- `OnTerminated` and the `OnThreadTaskExited` observers. -/
def stepCallback (choice : CallbackChoice) : Option World :=
  match s.dispatcher, choice with
  | .callback t cb, .shutdown => some { s with dispatcher := .shutdown t cb .claimManual }
  | .callback t .onTerminated, .returns => some { s with dispatcher := .callback t .onThreadTaskExited }
  | .callback t .onThreadTaskExited, .returns => some { s with dispatcher := .give t }
  | _, _ => none

/-- The manager's own step of operation `i`. -/
def stepManager (i : OpId) (answer : Answer) : Option World :=
  (Manager.step coreCount s.manager (.step i answer)).map fun manager => { s with manager := manager }

/-- `TryClaimAutomaticCleanup` of `t` by operation `i`. -/
def stepClaim (i : OpId) (t : ThreadPtr) : Option World :=
  let c := s.cells t
  let o := s.ops i
  let fail := stepManager coreCount (s.setOp i (freshOp o.onDispatcher)) i (.returnsBool false)
  match o.claim with
  | .loadFree => if c.freeOnTerminate then some (s.setOp i { o with claim := .loadState }) else fail
  | .loadState => if c.state = .terminated then some (s.setOp i { o with claim := .exchange }) else fail
  | .exchange =>
    if c.cleanupClaim = .available then
      stepManager coreCount ((s.setCell t (c.exchangeClaim .automatic)).setOp i (freshOp o.onDispatcher)) i
        (.returnsBool true)
    else fail

/-- `delete` of `t` by operation `i`: `finish` is the rest of the destructor. -/
def stepDestroy (i : OpId) (t : ThreadPtr) : Option World :=
  let c := s.cells t
  let o := s.ops i
  let goto := fun pc => { o with destroy := pc }
  match o.destroy with
  | .storeFree => some ((s.setCell t { c with freeOnTerminate := false }).setOp i (goto .releaseClaim))
  | .releaseClaim => some ((s.setCell t (c.exchangeClaim .manual)).setOp i (goto .loadPending))
  | .loadPending => some (s.setOp i (goto (if c.dispatchPending then .isCurrentTask else .finish)))
  | .isCurrentTask =>
    if s.initializationMutex = none then some (s.setOp i (goto (if o.onDispatcher then .finish else .poll)))
    else none
  | .poll => some (s.setOp i (goto (if c.dispatchPending then .poll else .finish)))
  | .finish =>
    stepManager coreCount
      ((s.setCell t { c.deleteTask with state := .destroyed }).setOp i (freshOp o.onDispatcher)) i .returns

/-- Operation `i`: its calls of a thread are answered by the thread. -/
def stepOperation (i : OpId) (answer : Answer) : Option World :=
  match s.manager.ops i with
  | .cleanUp _ (.getThreadState (record :: _) _ _) =>
    stepManager coreCount s i (.returnsBool ((s.cells record.thread).state = .terminated))
  | .cleanUp _ (.tryClaim record _ _ _) => stepClaim coreCount s i record.thread
  | .cleanUp _ (.deleteThread c _ _) => stepDestroy coreCount s i c.thread
  | _ => stepManager coreCount s i answer

def step : Action → Option World
  | .terminate t => stepTerminate s t
  | .worker t => stepWorker capacity s t
  | .dispatcher => stepDispatcher s
  | .callback choice => stepCallback s choice
  | .dispatcherCleanUp i =>
    match s.dispatcher with
    | .callCleanUp t =>
      (Manager.step coreCount s.manager (.call i .cleanUp)).map fun manager =>
        { { s with manager := manager, dispatcher := .cleaning t i }.setOp i (freshOp true) with }
    | _ => none
  | .call i request =>
    (Manager.step coreCount s.manager (.call i request)).map fun manager =>
      { s with manager := manager }.setOp i (freshOp false)
  | .op i answer => stepOperation coreCount s i answer

end

/-- A thread whose worker has been released and has not exited yet. -/
def Cell.live (state : ThreadState) (freeOnTerminate : Bool) : Cell :=
  { state := state, freeOnTerminate := freeOnTerminate, cleanupClaim := .available, hasTask := true
    dispatchPending := false, exitFinalizationStarted := false, taskExited := false, worker := .loop
    exited := false, dispatched := false }

def World.start (registry : Registry) (cells : ThreadPtr → Cell) : World :=
  { manager := .start registry, cells := cells, ops := fun _ => freshOp false, queue := []
    initializationMutex := none, dispatcher := .receive }

/-- Runs from any registry and live threads, with the queue's capacity. -/
def system (capacity coreCount : Nat) : System World Action where
  init s := ∃ registry cells, registry.WellFormed ∧
    (∀ t, ∃ state free, state ≠ .terminated ∧ cells t = Cell.live state free) ∧ s = .start registry cells
  step := step capacity coreCount

end ESPressio.Termination
