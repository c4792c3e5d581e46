import Mathlib.Logic.Function.Basic
import ESPressioThreads.Lib.Transition
import ESPressioThreads.Manager.Registry
import ESPressioThreads.Thread.State
/-!
# Start-up of the termination dispatcher

`_initialize` creates the queue and then the task, under
`_initializationMutex`, and publishes the queue before the task exists: the
task runs `_loop` from then on, and reads `_queue` without the mutex. Any number
of calls of `EnsureAvailable`, `Dispatch` and `IsAvailable` interleave, one
access of a shared member a step. A queue or a task that is created gets a
number of its own.

What the dispatcher does with a record is foreign code here. A call that such
code makes is one of the calls.
-/

namespace ESPressio.Startup

open Transition ESPressio.Thread ESPressio.Manager

abbrev CallId := Nat
abbrev QueueId := Nat
abbrev TaskId := Nat

structure ThreadManagerThreadSnapshot where
  threadID : UInt8
  coreID : Int
  state : ThreadState
  freeOnTerminate : Bool
  startOnInitialize : Bool
  deriving DecidableEq, Repr

structure DispatchRecord where
  threadPointer : ThreadPtr
  snapshot : ThreadManagerThreadSnapshot
  deriving DecidableEq, Repr

/-- A record in the queue, with the call that sent it. -/
structure Message where
  sender : CallId
  record : DispatchRecord
  deriving DecidableEq, Repr

inductive Request
  | isAvailable
  | ensureAvailable
  | dispatch (thread : ThreadPtr)
  deriving DecidableEq, Repr

inductive AvailablePc
  | lock
  | testQueue
  | testTaskHandle
  | unlock (available : Bool)
  deriving DecidableEq, Repr

/-- `_initialize`. -/
inductive InitializePc
  | lock
  | testQueue
  | testTaskHandle
  | createQueue
  | publish (q : QueueId)
  | createTask
  | resetQueue
  | storeTaskHandle (t : TaskId)
  | notifyInitialized (available : Bool)
  | unlock (available : Bool)
  deriving DecidableEq, Repr

/-- `Dispatch`, after `EnsureAvailable`. -/
inductive DispatchPc
  | snapshotThread
  | lock (record : DispatchRecord)
  | testQueue (record : DispatchRecord)
  | send (record : DispatchRecord)
  | unlock (record : DispatchRecord) (queued : Bool)
  | notify (record : DispatchRecord) (queued : Bool)
  deriving DecidableEq, Repr

/-- `ensuring dispatched pc` is `_initialize`, for a `Dispatch` of a thread or
for `EnsureAvailable` alone. -/
inductive Pc
  | idle
  | available (pc : AvailablePc)
  | ensuring (dispatched : Option ThreadPtr) (pc : InitializePc)
  | dispatching (thread : ThreadPtr) (pc : DispatchPc)
  | returned (request : Request) (result : Bool)
  deriving DecidableEq, Repr

/-- The dispatcher's `_loop`. `crashed` has called `Receive` on a null queue. -/
inductive LoopPc
  | testQueue
  | loadQueue
  | crashed
  | receive (q : QueueId)
  | notifyStarted (record : DispatchRecord)
  | dispatchTermination (record : DispatchRecord)
  | cleanUp (record : DispatchRecord)
  | notifyCompleted (record : DispatchRecord)
  deriving DecidableEq, Repr

/-- `queues` counts the queues that were created. -/
structure Machine where
  queue : Option QueueId
  taskHandle : Option TaskId
  queues : Nat
  contents : QueueId → List Message
  tasks : List LoopPc
  initializationMutex : Option CallId
  calls : CallId → Pc

/-- The outcome of what a step calls. -/
inductive Answer
  | succeeds
  | fails
  | snapshot (s : ThreadManagerThreadSnapshot)
  deriving DecidableEq, Repr

inductive Action
  | call (i : CallId) (request : Request)
  | step (i : CallId) (answer : Answer)
  | run (t : TaskId) (answer : Answer)
  deriving DecidableEq, Repr

namespace Machine
variable (m : Machine)

def start : Machine := ⟨none, none, 0, fun _ => [], [], none, fun _ => .idle⟩

def goto (i : CallId) (pc : Pc) : Machine := { m with calls := Function.update m.calls i pc }

def lock (i : CallId) : Machine := { m with initializationMutex := some i }

def unlock : Machine := { m with initializationMutex := none }

/-- `_queue.reset()` deletes the queue with what is in it. -/
def resetQueue : Machine :=
  { m with queue := none, contents := m.queue.elim m.contents fun q => Function.update m.contents q [] }

/-- `_queue = std::move(queue)`. -/
def publish (q : QueueId) : Machine := { m.resetQueue with queue := some q }

def setContents (q : QueueId) (l : List Message) : Machine :=
  { m with contents := Function.update m.contents q l }

def setTask (t : TaskId) (pc : LoopPc) : Machine := { m with tasks := m.tasks.set t pc }

end Machine

/-- Where a call goes on when `EnsureAvailable` has returned. -/
def afterEnsure : Option ThreadPtr → Bool → Pc
  | none, available => .returned .ensureAvailable available
  | some thread, false => .returned (.dispatch thread) false
  | some thread, true => .dispatching thread .snapshotThread

section
variable (capacity : Nat) (m : Machine) (i : CallId)

def begin : Request → Machine
  | .isAvailable => m.goto i (.available .lock)
  | .ensureAvailable => m.goto i (.ensuring none .lock)
  | .dispatch thread =>
    if thread = nullptr then m.goto i (.returned (.dispatch thread) false)
    else m.goto i (.ensuring (some thread) .lock)

def stepAvailable : AvailablePc → Option Machine
  | .lock =>
    if m.initializationMutex = none then some ((m.lock i).goto i (.available .testQueue)) else none
  | .testQueue => some (m.goto i (.available (if m.queue = none then .unlock false else .testTaskHandle)))
  | .testTaskHandle => some (m.goto i (.available (.unlock m.taskHandle.isSome)))
  | .unlock available => some (m.unlock.goto i (.returned .isAvailable available))

def stepInitialize (dispatched : Option ThreadPtr) (pc : InitializePc) (answer : Answer) : Option Machine :=
  let goto (m : Machine) (pc : InitializePc) := some (m.goto i (.ensuring dispatched pc))
  match pc with
  | .lock => if m.initializationMutex = none then goto (m.lock i) .testQueue else none
  | .testQueue => goto m (if m.queue = none then .createQueue else .testTaskHandle)
  | .testTaskHandle => goto m (if m.taskHandle = none then .createQueue else .unlock true)
  | .createQueue =>
    if answer = .succeeds then goto { m with queues := m.queues + 1 } (.publish m.queues)
    else goto m (.notifyInitialized false)
  | .publish q => goto (m.publish q) .createTask
  -- The task that is created is runnable at once.
  | .createTask =>
    if answer = .succeeds then
      goto { m with tasks := m.tasks ++ [.testQueue] } (.storeTaskHandle m.tasks.length)
    else goto m .resetQueue
  | .resetQueue => goto m.resetQueue (.notifyInitialized false)
  | .storeTaskHandle t => goto { m with taskHandle := some t } (.notifyInitialized true)
  | .notifyInitialized available => goto m (.unlock available)
  | .unlock available => some (m.unlock.goto i (afterEnsure dispatched available))

def stepDispatch (thread : ThreadPtr) (pc : DispatchPc) (answer : Answer) : Option Machine :=
  let goto (m : Machine) (pc : DispatchPc) := some (m.goto i (.dispatching thread pc))
  match pc with
  | .snapshotThread =>
    match answer with
    | .snapshot s => goto m (.lock ⟨thread, s⟩)
    | .succeeds | .fails => none
  | .lock record => if m.initializationMutex = none then goto (m.lock i) (.testQueue record) else none
  | .testQueue record => goto m (if m.queue = none then .unlock record false else .send record)
  -- `Send(WaitForever)` blocks while the queue is full, or reports a failure.
  | .send record =>
    m.queue.bind fun q =>
      if answer = .succeeds then
        if (m.contents q).length < capacity then
          goto (m.setContents q (m.contents q ++ [⟨i, record⟩])) (.unlock record true)
        else none
      else goto m (.unlock record false)
  | .unlock record queued => goto m.unlock (.notify record queued)
  | .notify _ queued => some (m.goto i (.returned (.dispatch thread) queued))

def stepCall (answer : Answer) : Option Machine :=
  match m.calls i with
  | .idle | .returned _ _ => none
  | .available pc => stepAvailable m i pc
  | .ensuring dispatched pc => stepInitialize m i dispatched pc answer
  | .dispatching thread pc => stepDispatch capacity m i thread pc answer

/-- A step of the dispatcher task `t`. -/
def stepLoop (t : TaskId) (answer : Answer) : LoopPc → Option Machine
  | .testQueue => some (m.setTask t (if m.queue = none then .testQueue else .loadQueue))
  | .loadQueue => some (m.setTask t (m.queue.elim .crashed .receive))
  | .crashed => none
  | .receive q =>
    if answer = .succeeds then
      match m.contents q with
      | [] => none
      | message :: rest =>
        some ((m.setContents q rest).setTask t
          (if message.record.threadPointer = nullptr then .testQueue else .notifyStarted message.record))
    else some (m.setTask t .testQueue)
  | .notifyStarted record => some (m.setTask t (.dispatchTermination record))
  | .dispatchTermination record => some (m.setTask t (.cleanUp record))
  | .cleanUp record => some (m.setTask t (.notifyCompleted record))
  | .notifyCompleted _ => some (m.setTask t .testQueue)

def step : Action → Option Machine
  | .call i request => if m.calls i = .idle then some (begin m i request) else none
  | .step i answer => stepCall capacity m i answer
  | .run t answer => m.tasks[t]?.bind (stepLoop m t answer)

end

/-! ## The log -/

/-- What makes the dispatcher available: the queue, the handle and the tasks. -/
structure Resources where
  queue : Option QueueId
  taskHandle : Option TaskId
  tasks : Nat
  deriving DecidableEq, Repr

def Machine.resources (m : Machine) : Resources := ⟨m.queue, m.taskHandle, m.tasks.length⟩

section
variable (m : Machine) (i : CallId) (pc : Pc) (q : QueueId)

@[simp] theorem goto_calls : (m.goto i pc).calls = Function.update m.calls i pc := rfl
@[simp] theorem goto_resources : (m.goto i pc).resources = m.resources := rfl
@[simp] theorem goto_initializationMutex : (m.goto i pc).initializationMutex = m.initializationMutex := rfl
@[simp] theorem lock_calls : (m.lock i).calls = m.calls := rfl
@[simp] theorem lock_resources : (m.lock i).resources = m.resources := rfl
@[simp] theorem lock_initializationMutex : (m.lock i).initializationMutex = some i := rfl
@[simp] theorem unlock_calls : m.unlock.calls = m.calls := rfl
@[simp] theorem unlock_resources : m.unlock.resources = m.resources := rfl
@[simp] theorem unlock_initializationMutex : m.unlock.initializationMutex = none := rfl
@[simp] theorem setContents_calls (l : List Message) : (m.setContents q l).calls = m.calls := rfl
@[simp] theorem setContents_resources (l : List Message) : (m.setContents q l).resources = m.resources := rfl
@[simp] theorem setContents_initializationMutex (l : List Message) :
    (m.setContents q l).initializationMutex = m.initializationMutex := rfl

@[simp] theorem setTask_resources (t : TaskId) (pc : LoopPc) : (m.setTask t pc).resources = m.resources := by
  simp [Machine.setTask, Machine.resources]

end

/-- `attempt` and `attemptFailed` carry what an attempt finds and leaves. -/
inductive Event
  | attempt (i : CallId) (found : Resources)
  | attemptFailed (i : CallId) (left : Resources)
  | sent (q : QueueId) (message : Message)
  | observed (t : TaskId) (queue : Option QueueId)
  | received (t : TaskId) (q : QueueId) (message : Message)
  deriving DecidableEq, Repr

def callEvent (m : Machine) (i : CallId) (answer : Answer) : Option Event :=
  match m.calls i with
  | .ensuring _ .createQueue => some (.attempt i m.resources)
  | .ensuring _ (.unlock false) => some (.attemptFailed i m.resources)
  | .dispatching _ (.send record) =>
    if answer = .succeeds then m.queue.map fun q => .sent q ⟨i, record⟩ else none
  | _ => none

def loopEvent (m : Machine) (t : TaskId) (answer : Answer) : LoopPc → Option Event
  | .testQueue | .loadQueue => some (.observed t m.queue)
  | .receive q => if answer = .succeeds then (m.contents q).head?.map fun message => .received t q message else none
  | _ => none

def event (m : Machine) : Action → Option Event
  | .call _ _ => none
  | .step i answer => callEvent m i answer
  | .run t answer => m.tasks[t]?.bind (loopEvent m t answer)

/-- The dispatcher from before its first use. -/
def machine (capacity : Nat) : System Machine Action where
  init m := m = .start
  step := step capacity

/-- Its runs with the log. -/
def startup (capacity : Nat) : System (Machine × List Event) Action := (machine capacity).logged event

end ESPressio.Startup
