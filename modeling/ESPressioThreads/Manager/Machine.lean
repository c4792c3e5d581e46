import Mathlib.Logic.Function.Basic
import ESPressioThreads.Lib.Transition
import ESPressioThreads.Thread.State
import ESPressioThreads.Manager.Registry
/-!
# Runs of the thread manager

Every call of `AddThread`, `RemoveThread`, `ForEachThread`, `WithThread`,
`InitializeWithResults` and `CleanUpWithResult` is an operation of its own,
with a program counter between its locked sections and its calls of foreign
code: virtual `IThread` methods, callbacks and notifications. Any task may have
any number of operations, and a nested call is an operation like any other.

Foreign code answers each call. It may also throw, and so may an allocation.

`condemned`, `deleted` and `notified` are history: the threads that passes
removed in order to delete them, the deleted ones, and the notifications.
-/

namespace ESPressio.Manager

open Transition ESPressio.Thread

abbrev OpId := Nat

/-- What foreign code, or an allocation, hands back. -/
inductive Answer
  | returns
  | returnsBool (b : Bool)
  | threadID (id : UInt8)
  | status (s : ThreadInitializationStatus)
  | throws
  deriving DecidableEq, Repr

/-- `ThreadManagerCleanupResult`. -/
structure CleanupResult where
  threadsExamined : Nat := 0
  threadsClaimed : Nat := 0
  threadsRemoved : Nat := 0
  threadsDeleted : Nat := 0
  wasDeferred : Bool := false
  activeIterationCount : Nat := 0
  threadCountBefore : Nat := 0
  threadCountAfter : Nat := 0
  deriving DecidableEq, Repr

inductive IterationKind
  | forEachThread
  | withThread (id : UInt8)
  | initializeWithResults
  deriving DecidableEq, Repr

/-- One thread of an iteration; `ForEachThread` keeps the pointer only. -/
structure Target where
  thread : ThreadPtr
  id : UInt8
  deriving DecidableEq, Repr

/-- An iteration with its snapshot, the part still to visit, and the results of
`InitializeWithResults`. -/
structure Visit where
  snapshot : List Target
  remaining : List Target
  results : List (UInt8 × ThreadInitializationStatus)
  deriving DecidableEq, Repr

inductive Outcome
  | core (coreID : Nat) (id : UInt8)
  | removed
  | iterated
  | found (b : Bool)
  | initialized (results : List (UInt8 × ThreadInitializationStatus))
  | cleanup (result : CleanupResult)
  | thrown
  /-- An exception left `~IterationGuard`: `std::terminate`. -/
  | stdTerminate
  deriving DecidableEq, Repr

inductive Notification
  | threadRegistered (record : ThreadRecord)
  | threadRegistrationFailed (thread : ThreadPtr) (error : RegistrationError)
  | threadRemoved (id : UInt8)
  | cleanupClaimed (thread : ThreadPtr)
  | cleanupDeferred (result : CleanupResult)
  | cleanupStarted (result : CleanupResult)
  | cleanupCompleted (result : CleanupResult)
  | cleanupFailed (result : CleanupResult)
  | initializationCompleted (examined successful failed : Nat)
  deriving DecidableEq, Repr

inductive AddPc
  | lookUp
  | getThreadID
  | insert (requestedThreadID : UInt8)
  | notifyRegistered (record : ThreadRecord)
  | notifyFailed (error : RegistrationError)
  deriving DecidableEq, Repr

inductive RemoveBy
  | thread (t : ThreadPtr)
  | id (id : UInt8)
  deriving DecidableEq, Repr

inductive IterationPc
  | beginIteration
  | takeSnapshot
  | visiting (v : Visit)
  | notifyCompleted (v : Visit)
  | endIteration (v : Visit) (outcome : Outcome)
  deriving DecidableEq, Repr

/-- `CleanUpWithResult`. From `deferring` to `notifyDeferred`, and from
`takeSnapshot` to `unlock` or `unlockFailed`, it holds `_iterationMutex`. -/
inductive PassPc
  | lockIteration
  | deferring
  | notifyDeferred (r : CleanupResult)
  | takeSnapshot
  | notifyStarted (snapshot : List ThreadRecord) (r : CleanupResult)
  | getThreadState (rest : List ThreadRecord) (claimed : List ClaimedCleanupRecord) (r : CleanupResult)
  | tryClaim (record : ThreadRecord) (rest : List ThreadRecord) (claimed : List ClaimedCleanupRecord)
      (r : CleanupResult)
  | notifyClaimed (record : ThreadRecord) (rest : List ThreadRecord) (claimed : List ClaimedCleanupRecord)
      (r : CleanupResult)
  | removeClaimed (claimed : List ClaimedCleanupRecord) (r : CleanupResult)
  | unlock (claimed : List ClaimedCleanupRecord) (r : CleanupResult)
  | notifyRemoved (rest : List ClaimedCleanupRecord) (r : CleanupResult)
  | deleteThread (c : ClaimedCleanupRecord) (rest : List ClaimedCleanupRecord) (r : CleanupResult)
  | notifyCompleted (r : CleanupResult)
  | unlockFailed (r : CleanupResult)
  | notifyFailed (r : CleanupResult)
  deriving DecidableEq, Repr

/-- Who called `CleanUpWithResult`: a task, or the last `IterationGuard` of an
operation with the outcome it is about to return. -/
inductive Caller
  | task
  | iterationGuard (outcome : Outcome)
  deriving DecidableEq, Repr

inductive Pc
  | idle
  | addThread (t : ThreadPtr) (assigned : Bool) (pc : AddPc)
  | removeThread (key : RemoveBy)
  | notifyRemoved (record : ThreadRecord)
  | iteration (kind : IterationKind) (pc : IterationPc)
  | cleanUp (caller : Caller) (pc : PassPc)
  | returned (outcome : Outcome)
  deriving DecidableEq, Repr

structure Machine where
  registry : Registry
  iterationMutex : Option OpId
  activeIterations : Nat
  cleanupPending : Bool
  ops : OpId → Pc
  condemned : List ThreadPtr
  deleted : List ThreadPtr
  notified : List Notification

/-- The public calls. -/
inductive Request
  | addThread (t : ThreadPtr) (assigned : Bool)
  | removeThread (key : RemoveBy)
  | iteration (kind : IterationKind)
  | cleanUp
  deriving DecidableEq, Repr

inductive Action
  | call (i : OpId) (request : Request)
  | step (i : OpId) (answer : Answer)
  deriving DecidableEq, Repr

namespace Machine

def goto (m : Machine) (i : OpId) (pc : Pc) : Machine := { m with ops := Function.update m.ops i pc }

def notify (m : Machine) (n : Notification) : Machine := { m with notified := m.notified ++ [n] }

end Machine

def Request.entry : Request → Pc
  | .addThread t assigned => .addThread t assigned .lookUp
  | .removeThread key => .removeThread key
  | .iteration kind => .iteration kind .beginIteration
  | .cleanUp => .cleanUp .task .lockIteration

/-! ## The operations -/

section
variable (coreCount : Nat) (m : Machine) (i : OpId)

/-- `AddThread`. -/
def stepAddThread (t : ThreadPtr) (assigned : Bool) (pc : AddPc) (answer : Answer) : Option Machine :=
  let goto := fun pc => m.goto i (.addThread t assigned pc)
  match pc with
  | .lookUp =>
    if t = nullptr then some (goto (.notifyFailed .invalidRegistration))
    else
      match m.registry.findThread t with
      | some record => some (m.goto i (.returned (.core record.coreID record.id)))
      | none => some (goto (if assigned then .insert 0 else .getThreadID))
  | .getThreadID =>
    match answer with
    | .threadID id => some (goto (.insert id))
    | .throws => some (goto (.notifyFailed .failed))
    | .returns | .returnsBool _ | .status _ => none
  -- The registry was not locked meanwhile, so the pointer is looked up again.
  | .insert requested =>
    match m.registry.insert coreCount t assigned requested with
    | .ok (registry, record, inserted) =>
      if inserted then
        -- `push_back` may fail to allocate.
        if answer = .throws then some (goto (.notifyFailed .failed))
        else some ({ m with registry := registry }.goto i (.addThread t assigned (.notifyRegistered record)))
      else some (m.goto i (.returned (.core record.coreID record.id)))
    | .error e => some (goto (.notifyFailed e))
  | .notifyRegistered record =>
    let m := m.notify (.threadRegistered record)
    if answer = .throws then some (m.goto i (.addThread t assigned (.notifyFailed .failed)))
    else some (m.goto i (.returned (.core record.coreID record.id)))
  | .notifyFailed e => some ((m.notify (.threadRegistrationFailed t e)).goto i (.returned .thrown))

/-- Both `RemoveThread`: the write section. -/
def stepRemoveThread (key : RemoveBy) : Machine :=
  let found := match key with
    | .thread t => m.registry.findThread t
    | .id id => m.registry.findID id
  match found with
  | none => m.goto i (.returned .removed)
  | some record =>
    let registry := match key with
      | .thread t => m.registry.removeThread t
      | .id id => m.registry.removeID id
    { m with registry := registry }.goto i (.notifyRemoved record)

/-- The snapshot of an iteration. -/
def snapshotOf (registry : Registry) : IterationKind → List Target
  | .forEachThread | .initializeWithResults => registry.threads.map fun record => ⟨record.thread, record.id⟩
  | .withThread id => ((registry.findID id).map fun record => ⟨record.thread, record.id⟩).toList

def outcomeOf (v : Visit) : IterationKind → Outcome
  | .forEachThread => .iterated
  | .withThread _ => .found !v.snapshot.isEmpty
  | .initializeWithResults => .initialized v.results

/-- The summary `InitializeWithResults` publishes. -/
def initializationSummary (results : List (UInt8 × ThreadInitializationStatus)) : Notification :=
  let successful := results.countP fun r => r.2 = .success
  .initializationCompleted results.length successful (results.length - successful)

/-- The locked section of `_endIteration`; the last iteration runs a deferred cleanup. -/
def endIteration (outcome : Outcome) : Machine :=
  let m := { m with activeIterations := m.activeIterations - 1 }
  if m.activeIterations = 0 ∧ m.cleanupPending then
    { m with cleanupPending := false }.goto i (.cleanUp (.iterationGuard outcome) .lockIteration)
  else m.goto i (.returned outcome)

/-- `ForEachThread`, `WithThread` and `InitializeWithResults`. -/
def stepIteration (kind : IterationKind) (pc : IterationPc) (answer : Answer) : Option Machine :=
  let goto := fun pc => m.goto i (.iteration kind pc)
  match pc, answer with
  | .beginIteration, .returns =>
    if m.iterationMutex = none then
      some ({ m with activeIterations := m.activeIterations + 1 }.goto i (.iteration kind .takeSnapshot))
    else none
  | .takeSnapshot, .returns =>
    let snapshot := snapshotOf m.registry kind
    some (goto (.visiting ⟨snapshot, snapshot, []⟩))
  -- Copying the records allocates.
  | .takeSnapshot, .throws => some (goto (.endIteration ⟨[], [], []⟩ .thrown))
  | .visiting v, answer =>
    match v.remaining, kind, answer with
    | [], .initializeWithResults, .returns => some (goto (.notifyCompleted v))
    | [], kind, .returns => some (goto (.endIteration v (outcomeOf v kind)))
    | target :: rest, .initializeWithResults, .status s =>
      some (goto (.visiting { v with remaining := rest, results := v.results ++ [(target.id, s)] }))
    -- An exception of `Initialize` is reported as `InitializationException`.
    | target :: rest, .initializeWithResults, .throws =>
      some (goto (.visiting
        { v with remaining := rest, results := v.results ++ [(target.id, .initializationException)] }))
    | _ :: rest, .forEachThread, .returns | _ :: rest, .withThread _, .returns =>
      some (goto (.visiting { v with remaining := rest }))
    | _ :: _, .forEachThread, .throws | _ :: _, .withThread _, .throws => some (goto (.endIteration v .thrown))
    | _, _, _ => none
  | .notifyCompleted v, .returns =>
    some ((m.notify (initializationSummary v.results)).goto i
      (.iteration kind (.endIteration v (outcomeOf v kind))))
  | .notifyCompleted v, .throws =>
    some ((m.notify (initializationSummary v.results)).goto i (.iteration kind (.endIteration v .thrown)))
  | .endIteration _ outcome, .returns =>
    if m.iterationMutex = none then some (endIteration m i outcome) else none
  | _, _ => none

/-- The threads a pass removed from the registry, which it will delete. -/
def doomed (claimed : List ClaimedCleanupRecord) : List ThreadPtr :=
  (claimed.filter fun c => c.removed).map fun c => c.thread

/-- How a pass that completed leaves `CleanUpWithResult`. -/
def Caller.onReturn (r : CleanupResult) : Caller → Outcome
  | .task => .cleanup r
  | .iterationGuard outcome => outcome

/-- How a pass that threw leaves it: `~IterationGuard` lets no exception out. -/
def Caller.onThrow : Caller → Outcome
  | .task => .thrown
  | .iterationGuard _ => .stdTerminate

/-- `CleanUpWithResult`. -/
def stepCleanUp (caller : Caller) (pc : PassPc) (answer : Answer) : Option Machine :=
  let goto := fun pc => m.goto i (.cleanUp caller pc)
  match pc, answer with
  | .lockIteration, .returns =>
    if m.iterationMutex = none then
      let m := { m with iterationMutex := some i }
      -- A pass does not wait for iterations: the last of them runs it.
      if 0 < m.activeIterations then
        some ({ m with cleanupPending := true }.goto i (.cleanUp caller .deferring))
      else some (m.goto i (.cleanUp caller .takeSnapshot))
    else none
  | .deferring, .returns =>
    let count := m.registry.threads.length
    some ({ m with iterationMutex := none }.goto i (.cleanUp caller (.notifyDeferred
      { wasDeferred := true, activeIterationCount := m.activeIterations
        threadCountBefore := count, threadCountAfter := count })))
  | .notifyDeferred r, .returns =>
    some ((m.notify (.cleanupDeferred r)).goto i (.returned (caller.onReturn r)))
  | .notifyDeferred r, .throws => some ((m.notify (.cleanupDeferred r)).goto i (.returned caller.onThrow))
  | .takeSnapshot, .returns =>
    let snapshot := m.registry.threads
    some (goto (.notifyStarted snapshot
      { threadsExamined := snapshot.length, threadCountBefore := snapshot.length }))
  | .takeSnapshot, .throws => some (goto (.unlockFailed {}))
  | .notifyStarted snapshot r, .returns =>
    some ((m.notify (.cleanupStarted r)).goto i (.cleanUp caller (.getThreadState snapshot [] r)))
  -- The notification, or the reservation for the claims.
  | .notifyStarted _ r, .throws =>
    some ((m.notify (.cleanupStarted r)).goto i (.cleanUp caller (.unlockFailed r)))
  | .getThreadState [] claimed r, .returns => some (goto (.removeClaimed claimed r))
  | .getThreadState (record :: rest) claimed r, answer =>
    if record.thread = nullptr then some (goto (.getThreadState rest claimed r))
    else
      match answer with
      | .returnsBool terminated =>
        some (goto (if terminated then .tryClaim record rest claimed r else .getThreadState rest claimed r))
      | .throws => some (goto (.unlockFailed r))
      | _ => none
  | .tryClaim record rest claimed r, .returnsBool won =>
    if won then
      some (goto (.notifyClaimed record rest (claimed ++ [⟨record.id, record.thread, false⟩])
        { r with threadsClaimed := r.threadsClaimed + 1 }))
    else some (goto (.getThreadState rest claimed r))
  | .tryClaim _ _ _ r, .throws => some (goto (.unlockFailed r))
  | .notifyClaimed record rest claimed r, .returns =>
    some ((m.notify (.cleanupClaimed record.thread)).goto i (.cleanUp caller (.getThreadState rest claimed r)))
  | .notifyClaimed record _ _ r, .throws =>
    some ((m.notify (.cleanupClaimed record.thread)).goto i (.cleanUp caller (.unlockFailed r)))
  | .removeClaimed claimed r, .returns =>
    let removal := m.registry.removeClaimed claimed
    let doomed := doomed removal.2
    some ({ m with registry := removal.1, condemned := m.condemned ++ doomed }.goto i
      (.cleanUp caller (.unlock removal.2
        { r with threadsRemoved := r.threadsRemoved + doomed.length
                 threadCountAfter := removal.1.threads.length })))
  -- From here on other operations run, with the claimed records out of the registry.
  | .unlock claimed r, .returns =>
    some ({ m with iterationMutex := none }.goto i (.cleanUp caller (.notifyRemoved claimed r)))
  | .notifyRemoved [] r, .returns => some (goto (.notifyCompleted r))
  | .notifyRemoved (c :: rest) r, answer =>
    if c.removed then
      match answer with
      | .returns =>
        some ((m.notify (.threadRemoved c.id)).goto i (.cleanUp caller (.deleteThread c rest r)))
      | .throws => some ((m.notify (.threadRemoved c.id)).goto i (.cleanUp caller (.notifyFailed r)))
      | _ => none
    else some (goto (.notifyRemoved rest r))
  | .deleteThread c rest r, .returns =>
    some ({ m with deleted := m.deleted ++ [c.thread] }.goto i
      (.cleanUp caller (.notifyRemoved rest { r with threadsDeleted := r.threadsDeleted + 1 })))
  | .notifyCompleted r, .returns =>
    some ((m.notify (.cleanupCompleted r)).goto i (.returned (caller.onReturn r)))
  | .notifyCompleted r, .throws =>
    some ((m.notify (.cleanupCompleted r)).goto i (.cleanUp caller (.notifyFailed r)))
  | .unlockFailed r, .returns =>
    some ({ m with iterationMutex := none }.goto i (.cleanUp caller (.notifyFailed r)))
  | .notifyFailed r, .returns | .notifyFailed r, .throws =>
    some ((m.notify (.cleanupFailed r)).goto i (.returned caller.onThrow))
  | _, _ => none

/-- One step of operation `i`. -/
def stepOp (answer : Answer) : Option Machine :=
  match m.ops i with
  | .idle | .returned _ => none
  | .addThread t assigned pc => stepAddThread coreCount m i t assigned pc answer
  | .removeThread key => if answer = .returns then some (stepRemoveThread m i key) else none
  | .notifyRemoved record =>
    match answer with
    | .returns => some ((m.notify (.threadRemoved record.id)).goto i (.returned .removed))
    | .throws => some ((m.notify (.threadRemoved record.id)).goto i (.returned .thrown))
    | _ => none
  | .iteration kind pc => stepIteration m i kind pc answer
  | .cleanUp caller pc => stepCleanUp m i caller pc answer

end

def step (coreCount : Nat) (m : Machine) : Action → Option Machine
  | .call i request => if m.ops i = .idle then some (m.goto i request.entry) else none
  | .step i answer => stepOp coreCount m i answer

/-- A manager with the records of `registry`, before any call. -/
def Machine.start (registry : Registry) : Machine :=
  { registry := registry, iterationMutex := none, activeIterations := 0, cleanupPending := false
    ops := fun _ => .idle, condemned := [], deleted := [], notified := [] }

/-- Runs from any well-formed registry. -/
def system (coreCount : Nat) : System Machine Action where
  init m := ∃ registry : Registry, registry.WellFormed ∧ m = .start registry
  step := step coreCount

end ESPressio.Manager
