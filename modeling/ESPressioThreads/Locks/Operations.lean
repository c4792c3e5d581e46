import ESPressioThreads.Lib.Boundary
import ESPressioThreads.Thread.State
import ESPressioThreads.Manager.Machine
/-!
# The operations and their locks

Every operation of `ThreadManager` and of `ThreadTerminationDispatcher` as a
program, with each lock it takes and each call it makes of code that is not
its own: virtual `IThread` methods, callbacks and observer hooks. The platform
(allocation, queue and task creation, `Send`) may fail at any time.

`IterationGuard` and the lock guards are destructors. An exception that leaves
`~IterationGuard` ends the program; here it is passed on.
-/

namespace ESPressio.Locks

open Boundary ESPressio.Thread
open ESPressio.Manager (Registry ThreadRecord ThreadPtr nullptr ClaimedCleanupRecord RemoveBy RegistrationError)

/-- `registry` is the lock of `_threads`, taken for reading or for writing. -/
inductive Lock
  | registry
  | iteration
  | observable
  | initialization
  deriving DecidableEq, Repr

/-- The observer hooks. -/
inductive Hook
  | onThreadRegistered
  | onThreadRegistrationFailed
  | onThreadRemoved
  | onThreadCleanupClaimed
  | onThreadCleanupDeferred
  | onThreadCleanupStarted
  | onThreadCleanupCompleted
  | onThreadCleanupFailed
  | onThreadManagerInitializationCompleted
  | onThreadTerminationDispatcherInitialized
  | onThreadTerminationDispatchQueued
  | onThreadTerminationDispatchQueueFailed
  | onThreadTerminationDispatchStarted
  | onThreadTerminationDispatchCompleted
  deriving DecidableEq, Repr

/-- Foreign code. -/
inductive Call
  | getThreadID (t : ThreadPtr)
  | getCoreID (t : ThreadPtr)
  | getThreadState (t : ThreadPtr)
  | getFreeOnTerminate (t : ThreadPtr)
  | getStartOnInitialize (t : ThreadPtr)
  | tryClaimAutomaticCleanup (t : ThreadPtr)
  | initializeThread (t : ThreadPtr)
  | destructor (t : ThreadPtr)
  | callback (t : ThreadPtr)
  /-- `Thread::_dispatchTermination`, which runs the callbacks of the thread. -/
  | dispatchTermination (t : ThreadPtr)
  | observer (o : Nat) (hook : Hook)
  deriving DecidableEq, Repr

/-- What foreign code returns. -/
def Call.Ret : Call → Type
  | .getThreadID _ => UInt8
  | .getCoreID _ => Nat
  | .getThreadState _ => ThreadState
  | .getFreeOnTerminate _ | .getStartOnInitialize _ | .tryClaimAutomaticCleanup _ => Bool
  | .initializeThread _ => ThreadInitializationStatus
  | .destructor _ | .callback _ | .dispatchTermination _ | .observer _ _ => Unit

/-- The data of the two components. The observers of the manager are `none`
until `_observable` is made. -/
structure Shared where
  registry : Registry
  activeIterations : Nat
  cleanupPending : Bool
  observers : Option Nat
  queue : Bool
  taskHandle : Bool
  dispatcherObservers : Nat

/-- What an access is for. -/
inductive Access
  | registry
  /-- The registry as a cleanup pass copies it. -/
  | cleanupSnapshot
  | iterations
  /-- `_observable` of the manager, with the observers registered there. -/
  | observable
  | dispatcher
  | dispatcherObservers
  deriving DecidableEq, Repr

abbrev Code := Prog Shared Lock Access Call Call.Ret

def read {α : Type} (x : Access) (f : Shared → α) : Code α := .access x id fun m => .ret (f m)

/-- An update; what it returns is read before. -/
def modify {α : Type} (x : Access) (update : Shared → Shared) (f : Shared → α) : Code α :=
  .access x update fun m => .ret (f m)

def call (c : Call) : Code c.Ret :=
  .call c fun
    | some r => .ret r
    | none => .raise

/-- An allocation, which may throw. -/
def allocate : Code Unit := .choose fun ok => if ok then .ret () else .raise

/-- A request to the platform, which reports whether it was met. -/
def platform : Code Bool := .choose fun ok => .ret ok

/-- `try { p } catch (...) {}`. -/
def attempt {α : Type} (p : Code α) : Code Unit := (p.bind fun _ => .ret ()).rescue (.ret ())

/-! ## The manager -/

/-- `_snapshot`. -/
def threadSnapshot (record : ThreadRecord) : Code Unit :=
  if record.thread = nullptr then .ret ()
  else do
    attempt (call (.getThreadState record.thread))
    attempt (call (.getFreeOnTerminate record.thread))
    attempt (call (.getStartOnInitialize record.thread))

/-- `NotifyObservers`: no exception of a hook passes, but `ExecuteNotification`
may throw by itself. -/
def notifyObservers (hook : Hook) (observers : Nat) : Code Unit := do
  Prog.each (fun o => attempt (call (.observer o hook))) (List.range observers)
  allocate

/-- `ObservableSnapshot`. -/
def observableSnapshot : Code (Option Nat) := Prog.locked .observable (read .observable (·.observers))

/-- `NotifyIfObserved`; `argument` is what the notification evaluates first. -/
def notifyIfObserved (hook : Hook) (argument : Code Unit) : Code Unit := do
  match ← observableSnapshot with
  | none => pure ()
  | some observers =>
    argument
    notifyObservers hook observers

/-- `EnsureObservable`. -/
def ensureObservable : Code Bool :=
  Prog.locked .observable do
    if (← read .observable (·.observers)).isSome then pure true
    else if ← platform then modify .observable (fun m => { m with observers := some 0 }) fun _ => true
    else pure false

def getThreadCount : Code Nat := Prog.locked .registry (read .registry (·.registry.threads.length))

/-- The part of `CleanUpWithResult` that claims one record of the snapshot. -/
def claimRecord (record : ThreadRecord) : Code Bool := do
  if record.thread = nullptr then pure false
  else
    let state : ThreadState ← call (.getThreadState record.thread)
    if state ≠ .terminated then pure false
    else
      let claimed : Bool ← call (.tryClaimAutomaticCleanup record.thread)
      if claimed then
        threadSnapshot record
        notifyIfObserved .onThreadCleanupClaimed (pure ())
        pure true
      else pure false

def claimRecords : List ThreadRecord → Code (List ClaimedCleanupRecord)
  | [] => pure []
  | record :: rest => do
    let claimed ← claimRecord record
    let others ← claimRecords rest
    pure (if claimed then ⟨record.id, record.thread, false⟩ :: others else others)

/-- `CleanUpWithResult` from the decision to run to the release of `_iterationMutex`. -/
def claimAndRemove : Code (List ClaimedCleanupRecord) := do
  let snapshot ← Prog.locked .registry do
    allocate
    read .cleanupSnapshot (·.registry.threads)
  notifyIfObserved .onThreadCleanupStarted (pure ())
  allocate
  let claimed ← claimRecords snapshot
  Prog.locked .registry <|
    modify .registry (fun m => { m with registry := (m.registry.removeClaimed claimed).1 })
      fun m => (m.registry.removeClaimed claimed).2

def deleteClaimed (claimed : List ClaimedCleanupRecord) : Code Unit := do
  Prog.each (fun c =>
    if c.removed then do
      notifyIfObserved .onThreadRemoved (pure ())
      let _ ← call (.destructor c.thread)
    else pure ()) claimed
  notifyIfObserved .onThreadCleanupCompleted (pure ())

/-- The `catch` block of `CleanUpWithResult`. -/
def cleanupFailed : Code Unit := do
  notifyIfObserved .onThreadCleanupFailed (pure ())
  .raise

def cleanUpWithResult : Code Unit :=
  .acquire .iteration do
    if ← modify .iterations
        (fun m => if 0 < m.activeIterations then { m with cleanupPending := true } else m)
        (fun m => decide (0 < m.activeIterations)) then
      let _ ← getThreadCount
      .release .iteration (notifyIfObserved .onThreadCleanupDeferred (pure ()))
    else
      let claimed ← (claimAndRemove.bind fun claimed => pure (some claimed)).rescue (pure none)
      .release .iteration <|
        match claimed with
        | some claimed => (deleteClaimed claimed).rescue cleanupFailed
        | none => cleanupFailed

def beginIteration : Code Unit :=
  Prog.locked .iteration <|
    modify .iterations (fun m => { m with activeIterations := m.activeIterations + 1 }) fun _ => ()

def endIteration : Code Unit := do
  let runDeferredCleanup ← Prog.locked .iteration <|
    modify .iterations
      (fun m =>
        let m := { m with activeIterations := m.activeIterations - 1 }
        if m.activeIterations = 0 ∧ m.cleanupPending then { m with cleanupPending := false } else m)
      fun m => decide (m.activeIterations - 1 = 0) && m.cleanupPending
  if runDeferredCleanup then cleanUpWithResult else pure ()

/-- The scope of an `IterationGuard`. -/
def iterating {α : Type} (p : Code α) : Code α := do
  beginIteration
  p.afterwards endIteration

def forEachThread : Code Unit :=
  iterating do
    let snapshot ← Prog.locked .registry do
      allocate
      read .registry (·.registry.pointers)
    Prog.each (fun t => call (.callback t)) snapshot

def withThread (id : UInt8) : Code Unit :=
  iterating do
    let result ← Prog.locked .registry (read .registry (·.registry.findID id))
    match result with
    | none => pure ()
    | some record => if record.thread = nullptr then pure () else call (.callback record.thread)

def initializeWithResults : Code Unit :=
  iterating do
    let snapshot ← Prog.locked .registry do
      allocate
      read .registry (·.registry.pointers)
    allocate
    Prog.each (fun t => attempt (call (.initializeThread t))) snapshot
    notifyIfObserved .onThreadManagerInitializationCompleted (pure ())

/-- The write section of `AddThread`. -/
def insertThread (coreCount : Nat) (t : ThreadPtr) (assigned : Bool) (requested : UInt8) :
    Code (ThreadRecord × Bool) :=
  Prog.locked .registry do
    match ← read .registry (·.registry.insert coreCount t assigned requested) with
    | .ok (registry, record, true) =>
      allocate
      modify .registry (fun m => { m with registry := registry }) fun _ => (record, true)
    | .ok (_, record, false) => pure (record, false)
    | .error _ => .raise

/-- `requestedThreadID`. -/
def requestThreadID (t : ThreadPtr) (assigned : Bool) : Code UInt8 :=
  if assigned then pure 0 else call (.getThreadID t)

def addThread (coreCount : Nat) (t : ThreadPtr) (assigned : Bool) : Code Unit :=
  Prog.rescue
    (do
      if t = nullptr then .raise
      else
        match ← Prog.locked .registry (read .registry (·.registry.findThread t)) with
        | some _ => pure ()
        | none =>
          let requested ← requestThreadID t assigned
          let (record, inserted) ← insertThread coreCount t assigned requested
          if inserted then notifyIfObserved .onThreadRegistered (threadSnapshot record) else pure ())
    (do
      notifyIfObserved .onThreadRegistrationFailed (pure ())
      .raise)

def removeThread (key : RemoveBy) : Code Unit := do
  let removed ← Prog.locked .registry <|
    modify .registry
      (fun m => { m with registry :=
        match key with
        | .thread t => m.registry.removeThread t
        | .id id => m.registry.removeID id })
      fun m =>
        match key with
        | .thread t => m.registry.findThread t
        | .id id => m.registry.findID id
  match removed with
  | none => pure ()
  | some record => notifyIfObserved .onThreadRemoved (threadSnapshot record)

def getThread (id : UInt8) : Code Unit := do
  let _ ← Prog.locked .registry (read .registry (·.registry.findID id))

/-- `RegisterObserver` of the manager. -/
def registerObserver : Code Unit := do
  if ← ensureObservable then
    modify .observable (fun m => { m with observers := m.observers.map (· + 1) }) fun _ => ()
  else pure ()

def unregisterObserver : Code Unit := do
  match ← observableSnapshot with
  | none => pure ()
  | some _ => modify .observable (fun m => { m with observers := m.observers.map (· - 1) }) fun _ => ()

/-! ## The termination dispatcher -/

/-- The notifications of the dispatcher. -/
def notifyDispatcher (hook : Hook) : Code Unit := do
  notifyObservers hook (← read .dispatcherObservers (·.dispatcherObservers))

/-- `_initialize`. -/
def initializeDispatcher : Code Bool :=
  Prog.locked .initialization do
    if ← read .dispatcher (fun m => m.queue && m.taskHandle) then pure true
    else if ← platform then
      modify .dispatcher (fun m => { m with queue := true }) fun _ => ()
      if ← platform then
        modify .dispatcher (fun m => { m with taskHandle := true }) fun _ => ()
        notifyDispatcher .onThreadTerminationDispatcherInitialized
        pure true
      else
        modify .dispatcher (fun m => { m with queue := false }) fun _ => ()
        notifyDispatcher .onThreadTerminationDispatcherInitialized
        pure false
    else
      notifyDispatcher .onThreadTerminationDispatcherInitialized
      pure false

def ensureAvailable : Code Bool := initializeDispatcher

def isAvailable : Code Bool :=
  Prog.locked .initialization (read .dispatcher fun m => m.queue && m.taskHandle)

/-- `IsCurrentTask` and `GetMinimumFreeStackBytes`. -/
def readTaskHandle : Code Bool := Prog.locked .initialization (read .dispatcher (·.taskHandle))

/-- `SnapshotThread`. -/
def dispatchSnapshot (t : ThreadPtr) : Code Unit := do
  let _ ← call (.getThreadID t)
  let _ ← call (.getCoreID t)
  let _ ← call (.getThreadState t)
  let _ ← call (.getFreeOnTerminate t)
  let _ ← call (.getStartOnInitialize t)

def dispatch (t : ThreadPtr) : Code Unit := do
  if t = nullptr then pure ()
  else if ← ensureAvailable then
    dispatchSnapshot t
    let queued ← Prog.locked .initialization do
      if ← read .dispatcher (·.queue) then platform else pure false
    if queued then notifyDispatcher .onThreadTerminationDispatchQueued
    else notifyDispatcher .onThreadTerminationDispatchQueueFailed
  else pure ()

/-- `RegisterObserver` of the dispatcher; `observer` is the number of the new one. -/
def registerDispatcherObserver (observer : Nat) : Code Unit := do
  modify .dispatcherObservers (fun m => { m with dispatcherObservers := m.dispatcherObservers + 1 }) fun _ => ()
  if ← isAvailable then attempt (call (.observer observer .onThreadTerminationDispatcherInitialized))
  else pure ()

def unregisterDispatcherObserver : Code Unit :=
  modify .dispatcherObservers (fun m => { m with dispatcherObservers := m.dispatcherObservers - 1 }) fun _ => ()

/-- One round of `_loop`, for the record it received. -/
def loop (t : ThreadPtr) : Code Unit := do
  if t = nullptr then pure ()
  else
    notifyDispatcher .onThreadTerminationDispatchStarted
    let _ ← call (.dispatchTermination t)
    attempt cleanUpWithResult
    notifyDispatcher .onThreadTerminationDispatchCompleted

/-! ## Operations -/

inductive Op
  | addThread (t : ThreadPtr) (assigned : Bool)
  | removeThread (key : RemoveBy)
  | forEachThread
  | withThread (id : UInt8)
  | cleanUpWithResult
  | initializeWithResults
  | getThread (id : UInt8)
  | getThreadCount
  | registerObserver
  | unregisterObserver
  | ensureAvailable
  | isAvailable
  | readTaskHandle
  | dispatch (t : ThreadPtr)
  | registerDispatcherObserver (observer : Nat)
  | unregisterDispatcherObserver
  | loop (t : ThreadPtr)
  deriving DecidableEq, Repr

def Op.code (coreCount : Nat) : Op → Code Unit
  | .addThread t assigned => Locks.addThread coreCount t assigned
  | .removeThread key => Locks.removeThread key
  | .forEachThread => Locks.forEachThread
  | .withThread id => Locks.withThread id
  | .cleanUpWithResult => Locks.cleanUpWithResult
  | .initializeWithResults => Locks.initializeWithResults
  | .getThread id => Locks.getThread id
  | .getThreadCount => Locks.getThreadCount.bind fun _ => .ret ()
  | .registerObserver => Locks.registerObserver
  | .unregisterObserver => Locks.unregisterObserver
  | .ensureAvailable => Locks.ensureAvailable.bind fun _ => .ret ()
  | .isAvailable => Locks.isAvailable.bind fun _ => .ret ()
  | .readTaskHandle => Locks.readTaskHandle.bind fun _ => .ret ()
  | .dispatch t => Locks.dispatch t
  | .registerDispatcherObserver observer => Locks.registerDispatcherObserver observer
  | .unregisterDispatcherObserver => Locks.unregisterDispatcherObserver
  | .loop t => Locks.loop t

/-- A task over the two components. -/
abbrev LockTask := Task Shared Lock Access Call Call.Ret

/-- Tasks whose foreign code may begin any operation. -/
def tasks (coreCount : Nat) : Transition.System LockTask (Action Shared Call Op Call.Ret) :=
  Task.system (Op.code coreCount)

end ESPressio.Locks
