import ESPressioThreads.Thread.State
/-!
# Lifecycle calls in progress

The program counters of every lifecycle method of one thread, with one atomic
access, one locked section or one piece of user code between two of them. The
`n`-th task that `Initialize` created is the worker of generation `n`.
-/

namespace ESPressio.Lifecycle

open ESPressio.Thread

/-- A worker task, by the number of tasks created before it. -/
abbrev Gen := Nat

inductive TaskId
  | app (n : Nat)
  | worker (g : Gen)
  | dispatcher
  deriving DecidableEq, Repr

/-! ## State transitions -/

/-- `SetThreadState` and `TrySetThreadState` with `_dispatchThreadStateChange`. -/
inductive TransitionPc
  | lock
  | check
  | onStateChange
  | getThreadState
  | onThreadEvent
  | notifyObservers
  | loadInProgress
  | loadInitializing
  | unlock
  deriving DecidableEq, Repr

/-- A transition in progress: `expected` is the state `TrySetThreadState` asks
for, `failed` is `callbackFailed`, and `throws` whether an exception leaves. -/
structure StateTransition where
  expected : Option ThreadState
  newState : ThreadState
  pc : TransitionPc
  stored : Bool
  failed : Bool
  throws : Bool
  deriving DecidableEq, Repr

def StateTransition.start (expected : Option ThreadState) (newState : ThreadState) : StateTransition :=
  ⟨expected, newState, .lock, false, false, false⟩

/-! ## The methods -/

/-- `Terminate`, with the tail of `PrecisionThread::Terminate`. -/
inductive TerminatePc
  | readState
  | fromUninitialized
  | setTerminated
  | request
  | signalScheduler
  deriving DecidableEq, Repr

/-- `Initialize`: `_initialize` for the generation `g`, then the failure callbacks. -/
inductive InitializePc
  | ensureRegistered
  | loadHandle
  | loadPending
  | ensureDispatcher
  | readState
  | reset
  | lockConfiguration
  | recheckHandle
  | resetExited
  | resetGate
  | resetFinalization
  | create
  | publish (g : Gen)
  | unlockConfiguration (g : Gen)
  | storeInitializing (g : Gen)
  | storeInProgress (g : Gen)
  | onInitialization (g : Gen)
  | readAfterInitialization (g : Gen)
  | setInitialized (g : Gen)
  | readAfterInitialized (g : Gen)
  | loadStartOnInitialize (g : Gen)
  | setRunning (g : Gen)
  | stopTerminated (g : Gen)
  | catchTerminate (g : Gen) (pc : TerminatePc)
  | catchTerminated (g : Gen)
  | exchangeTask (g : Gen) (status : ThreadInitializationStatus)
  | deleteTask (g : Gen) (status : ThreadInitializationStatus) (handle : Option Gen)
  | beginFinalization (g : Gen) (status : ThreadInitializationStatus)
  | storePending (g : Gen) (status : ThreadInitializationStatus)
  | send (g : Gen) (status : ThreadInitializationStatus)
  | clearPending (status : ThreadInitializationStatus)
  | giveGate (g : Gen)
  | clearInProgress (status : ThreadInitializationStatus)
  | clearInitializing (status : ThreadInitializationStatus)
  | onInitializationFailed (status : ThreadInitializationStatus)
  | notifyInitializationFailed (status : ThreadInitializationStatus)
  | finished (status : ThreadInitializationStatus)
  deriving DecidableEq, Repr

/-- `Start`, with the tail of `PrecisionThread::Start`. -/
inductive StartPc
  | readState
  | initializeThread (pc : InitializePc)
  | setRunning
  | tryInitialized
  | tryPaused
  | signalScheduler
  deriving DecidableEq, Repr

/-- Which branch of `Shutdown` calls `Terminate`. -/
inductive ShutdownBranch
  | initializing
  | noTask
  | ownTask
  | wait
  deriving DecidableEq, Repr

inductive ShutdownPc
  | claimManual
  | storeFree
  | releaseClaim
  | loadHandle
  | loadInProgress (handle : Option Gen)
  | loadInitializing (handle : Option Gen)
  | readState
  | rereadState
  | terminate (branch : ShutdownBranch) (pc : TerminatePc)
  | setTerminated
  | waitExited
  | loadPending
  | isCurrentTask
  | poll
  | finish
  deriving DecidableEq, Repr

/-- `_taskEntry` of a worker, with `_loop` and `_finalizeCurrentTaskExit`. -/
inductive WorkerPc
  | waitGate
  | loop
  | onLoop
  | onExecutionFailed
  | notifyExecutionFailed
  | terminate (pc : TerminatePc)
  | beginFinalization
  | setTerminated
  | storePending
  | send
  | clearPending
  | suspended
  deriving DecidableEq, Repr

/-- The dispatcher's `_loop` with `_dispatchTermination` of this thread, for
the record of the generation `g`. -/
inductive DispatcherPc
  | receive
  | exchangeTask (g : Gen)
  | deleteTask (g : Gen) (handle : Option Gen)
  | readState (g : Gen)
  | onTerminated (g : Gen)
  | onThreadTaskExited (g : Gen)
  | giveExited (g : Gen)
  | clearPending (g : Gen)
  | cleanUp
  deriving DecidableEq, Repr

/-- What a manager cleanup pass does to this thread: the claim, the removal
from the registry and `delete`, which is the destructor. -/
inductive CleanUpPc
  | getThreadState
  | loadFree
  | loadState
  | exchangeClaim
  | remove
  | storeFree
  | releaseClaim
  | loadPending
  | isCurrentTask
  | poll
  | setDestroyed
  | onDestroy
  | exchangeTask
  | deleteTask (handle : Option Gen)
  | free
  deriving DecidableEq, Repr

inductive Pc
  | idle
  | setFreeOnTerminate (value stored : Bool)
  | setStartOnInitialize (value : Bool)
  | pause
  | terminate (pc : TerminatePc)
  | initializeThread (pc : InitializePc)
  | start (pc : StartPc)
  | shutdown (pc : ShutdownPc)
  | worker (g : Gen) (pc : WorkerPc)
  | dispatcher (pc : DispatcherPc)
  | cleanUp (pc : CleanUpPc)
  deriving DecidableEq, Repr

/-- A call on the stack of a task: its program counter, the state transition
it waits for, and whether it began after cleanup had claimed the thread. -/
structure Frame where
  pc : Pc
  transition : Option StateTransition
  afterClaim : Bool
  deriving DecidableEq, Repr

def Frame.idle : Frame := ⟨.idle, none, false⟩

/-- What comes after a step: the next program counter, or the return. -/
inductive Next (π : Type)
  | goto (pc : π)
  | ret (threw : Bool)
  deriving DecidableEq, Repr

/-- A callee's step inside its caller: `call` puts its program counter into the
caller's, and `after` continues the caller when the callee returned. -/
def Next.inside {π ρ : Type} (call : π → ρ) (after : Bool → Next ρ) : Next π → Next ρ
  | .goto pc => .goto (call pc)
  | .ret threw => after threw

/-- The public calls. -/
inductive Request
  | setFreeOnTerminate (value : Bool)
  | setStartOnInitialize (value : Bool)
  | pause
  | terminate
  | initializeThread
  | start
  | shutdown
  | cleanUp
  deriving DecidableEq, Repr

def Request.entry : Request → Pc
  | .setFreeOnTerminate value => .setFreeOnTerminate value false
  | .setStartOnInitialize value => .setStartOnInitialize value
  | .pause => .pause
  | .terminate => .terminate .readState
  | .initializeThread => .initializeThread .ensureRegistered
  | .start => .start .readState
  | .shutdown => .shutdown .claimManual
  | .cleanUp => .cleanUp .getThreadState

end ESPressio.Lifecycle
