import ESPressioThreads.Manager.Registry
import ESPressioThreads.Lifecycle.Sequential
import ESPressioThreads.Lifecycle.Mutex
/-!
# Registration and reports of `Initialize`

The lifecycle of a thread with the registration that `Initialize` may have to
make, the mutex of the dispatcher, and the handlers that `Initialize` calls when
it fails. Other threads register and are removed at any time. A log shows where
each call of `Initialize` begins, what it reports and returns, and where an
exception leaves it or `Start`.
-/

namespace ESPressio.Initialization

open Transition ESPressio.Thread ESPressio.Lifecycle
open ESPressio.Manager (Registry ThreadPtr)

inductive ThreadRegistrationPolicy
  | immediate
  | deferredUntilInitialize
  deriving DecidableEq, Repr

abbrev Observer := Nat

/-- The thread's pointer, the number of cores, whether the constructor got both
signals, whether `OnInitializationFailed` is installed, and the registered
observers. -/
structure Setup where
  self : ThreadPtr
  coreCount : Nat
  signals : Bool
  onInitializationFailed : Bool
  observers : List Observer
  deriving DecidableEq, Repr

/-- `toNotify` are the observers that `NotifyInitializationFailed` has yet to
call, for each call of `Initialize`. -/
structure State where
  world : World
  mutex : Mutex
  registered : Bool
  registry : Registry
  toNotify : TaskId × Nat → List Observer

inductive Action
  | lifecycle (a : Lifecycle.Action)
  | mutex (b : MutexAction)
  | signalsMissing (p : TaskId)
  | notify (p : TaskId)
  | register (registry : Registry)

section
variable (setup : Setup) (c : State)

/-- `AddThread` for the thread, with an ID of its choice. -/
def State.addThread : Except Manager.RegistrationError (Registry × Manager.ThreadRecord × Bool) :=
  c.registry.insert setup.coreCount setup.self true 0

/-- `_ensureRegistered` returns `true` or throws; `ok` is false when it throws,
which it also does when an allocation fails. -/
def ensureRegistered (ok : Bool) : Option State :=
  if c.registered then if ok then some c else none
  else
    match c.addThread setup, ok with
    | .ok (registry, _, _), true => some { c with registry := registry, registered := true }
    | .error _, true => none
    | _, false => some c

/-- What the step of a call does besides the lifecycle. -/
def stepReport (a : TaskId × Nat) (ok : Bool) : Option State :=
  match (c.world.frames a).pc.initializePc with
  | some .ensureRegistered => ensureRegistered setup c ok
  -- Without its signals the call does not come to look at the handle.
  | some .loadHandle => if setup.signals then some c else none
  | some (.onInitializationFailed _) => some { c with toNotify := Function.update c.toNotify a setup.observers }
  | some (.notifyInitializationFailed _) => if c.toNotify a = [] then some c else none
  | _ => some c

def stepLifecycle (b : Lifecycle.Action) : Option State :=
  if c.mutex.admits c.world b then
    match b with
    | .call _ _ => (Lifecycle.step c.world b).map fun w => { c with world := w }
    | .step p ok =>
      match c.world.depth p with
      | 0 => none
      | n + 1 =>
        (stepReport setup c (p, n) ok).bind fun c' =>
          (Lifecycle.step c.world b).map fun w => { c' with world := w, mutex := c.mutex.after b }
  else none

/-- The call of `Initialize`, at another program counter. -/
def initializeAt (t : InitializePc) : Pc → Pc
  | .start _ => .start (.initializeThread t)
  | _ => .initializeThread t

/-- The first check of `Initialize` after it has registered the thread. -/
def stepSignalsMissing (p : TaskId) : Option State :=
  match c.world.depth p with
  | 0 => none
  | n + 1 =>
    let f := c.world.frames (p, n)
    if setup.signals = false ∧ c.world.runnable p ∧ c.mutex.phase p = .idle ∧
        f.pc.initializePc = some .loadHandle then
      let pc := initializeAt (.onInitializationFailed .exitSignalUnavailable) f.pc
      some { c with world := c.world.setFrame (p, n) { f with pc := pc } }
    else none

/-- The status that the last call of the task notifies the observers of. -/
def notifying (p : TaskId) : Option ((TaskId × Nat) × ThreadInitializationStatus) :=
  match c.world.depth p with
  | 0 => none
  | n + 1 =>
    match (c.world.frames (p, n)).pc.initializePc with
    | some (.notifyInitializationFailed status) => some ((p, n), status)
    | _ => none

def step : Action → Option State
  | .lifecycle b => stepLifecycle setup c b
  | .mutex b => (stepMutex c.world c.mutex b).map fun m => { c with mutex := m }
  | .signalsMissing p => stepSignalsMissing setup c p
  | .notify p =>
    if c.world.runnable p then
      (notifying c p).bind fun call =>
        match c.toNotify call.1 with
        | [] => none
        | _ :: rest => some { c with toNotify := Function.update c.toNotify call.1 rest }
    else none
  | .register registry => some { c with registry := registry }

end

/-! ## The log -/

/-- `call` is the slot of the call on the stack of its task. -/
inductive Event
  | called (call : TaskId × Nat)
  | onInitializationFailed (call : TaskId × Nat) (status : ThreadInitializationStatus)
  | onThreadInitializationFailed (call : TaskId × Nat) (o : Observer) (status : ThreadInitializationStatus)
  | returned (call : TaskId × Nat) (status : ThreadInitializationStatus)
  | threw (call : TaskId × Nat)
  deriving DecidableEq, Repr

def Event.call : Event → TaskId × Nat
  | .called a | .onInitializationFailed a _ | .onThreadInitializationFailed a _ _ | .returned a _ | .threw a => a

/-- The transitions of `Initialize` and `Start` that are outside of any handler. -/
def escapes : Pc → Bool
  | .initializeThread .reset | .start (.initializeThread .reset)
  | .start .setRunning | .start .tryInitialized | .start .tryPaused => true
  | _ => false

/-- What the next step of the call `a` shows. A handler shows when it returns. -/
def callEvent (setup : Setup) (s : Shared) (a : TaskId × Nat) (f : Frame) (ok : Bool) : Option Event :=
  match f.transition with
  | some tr => if escapes f.pc && tr.pc = .unlock && tr.throws then some (.threw a) else none
  | none =>
    match f.pc with
    | .start .readState =>
      if s.threadState = .uninitialized ∨ s.threadState = .terminated then some (.called a) else none
    | pc =>
      match pc.initializePc with
      | some .ensureRegistered => if ok then none else some (.threw a)
      | some (.onInitializationFailed status) =>
        if setup.onInitializationFailed then some (.onInitializationFailed a status) else none
      | some (.finished status) => some (.returned a status)
      | _ => none

def event (setup : Setup) (c : State) : Action → Option Event
  | .lifecycle (.call p request) => if request = .initializeThread then some (.called (p, c.world.depth p)) else none
  | .lifecycle (.step p ok) =>
    match c.world.depth p with
    | 0 => none
    | n + 1 => callEvent setup c.world.shared (p, n) (c.world.frames (p, n)) ok
  | .notify p =>
    (notifying c p).bind fun call => (c.toNotify call.1).head?.map fun o =>
      .onThreadInitializationFailed call.1 o call.2
  | .mutex _ | .signalsMissing _ | .register _ => none

/-- With an immediate policy the constructor has registered the thread. -/
def State.start (w : World) (policy : ThreadRegistrationPolicy) (registry : Registry) : State where
  world := w
  mutex := .free
  registered := policy = .immediate
  registry := registry
  toNotify := fun _ => []

/-- The lifecycle of a thread, with any registry, and its log. -/
def system (setup : Setup) (managed : Bool) : System (State × List Event) Action :=
  System.logged
    { init := fun c => ∃ w policy registry, (Lifecycle.system managed).init w ∧ c = .start w policy registry
      step := step setup }
    (event setup)

end ESPressio.Initialization
