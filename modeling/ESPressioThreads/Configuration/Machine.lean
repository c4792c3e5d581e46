import ESPressioThreads.Lifecycle.Steps
/-!
# The settings of a task

`SetCoreID`, `SetStackSize` and `SetPriority` with the lifecycle of the thread.
`Initialize` reads the three settings under the configuration mutex, one by
one, and creates the task with what it read. Any number of setters run at any
time; the core that a deferred registration sets is set by one of them, in no
order with the call of `Initialize` that registers the thread.
-/

namespace ESPressio.Configuration

open Transition
open ESPressio.Lifecycle (World TaskId Gen InitializePc Pc)

/-- What `TaskRuntime::Create` takes, but for the name. -/
structure TaskConfiguration where
  stackSize : UInt32
  priority : UInt32
  core : Int32
  deriving DecidableEq, Repr

/-- A call of a setter, with the value it sets. -/
inductive Setting
  | coreID (value : Int32)
  | stackSize (value : UInt32)
  | priority (value : UInt32)
  deriving DecidableEq, Repr

/-- A stack size of zero is ignored. -/
def Setting.accepted : Setting → Bool
  | .stackSize value => value > 0
  | .coreID _ | .priority _ => true

def TaskConfiguration.set (c : TaskConfiguration) : Setting → TaskConfiguration
  | .coreID value => { c with core := value }
  | .stackSize value => { c with stackSize := value }
  | .priority value => { c with priority := value }

inductive SetterPc
  | idle
  | lock (setting : Setting)
  | loadHandle (setting : Setting)
  | store (setting : Setting)
  | unlock
  deriving DecidableEq, Repr

/-- How far `Initialize` has filled in the configuration before `Create`. -/
inductive Reading
  | getStackSize
  | getPriority (stackSize : UInt32)
  | getCoreID (stackSize priority : UInt32)
  | done (configuration : TaskConfiguration)
  deriving DecidableEq, Repr

def Reading.next (settings : TaskConfiguration) : Reading → Option Reading
  | .getStackSize => some (.getPriority settings.stackSize)
  | .getPriority stackSize => some (.getCoreID stackSize settings.priority)
  | .getCoreID stackSize priority => some (.done ⟨stackSize, priority, settings.core⟩)
  | .done _ => none

/-- `passed` is what each task was created with. -/
structure State where
  world : World
  settings : TaskConfiguration
  setters : Nat → SetterPc
  reading : TaskId × Nat → Reading
  passed : Gen → Option TaskConfiguration

inductive Action
  | lifecycle (a : Lifecycle.Action)
  | read (p : TaskId)
  | set (i : Nat) (setting : Setting)
  | setter (i : Nat)

/-- The last call of the task, when it is about to create a task. -/
def creating (w : World) (p : TaskId) : Option (TaskId × Nat) :=
  match w.depth p with
  | 0 => none
  | n + 1 => if (w.frames (p, n)).pc.initializePc = some .create then some (p, n) else none

/-- One step of a setter, which waits for `_taskConfigurationMutex` first. -/
def stepSetter (c : State) (i : Nat) : Option State :=
  let goto := fun (c : State) pc => some { c with setters := Function.update c.setters i pc }
  let setLocked := fun (locked : Bool) =>
    { c with world := { c.world with shared := { c.world.shared with configurationLocked := locked } } }
  match c.setters i with
  | .idle => none
  | .lock setting => if c.world.shared.configurationLocked then none else goto (setLocked true) (.loadHandle setting)
  | .loadHandle setting =>
    goto c (if c.world.shared.taskHandle = none ∧ setting.accepted then .store setting else .unlock)
  | .store setting => goto { c with settings := c.settings.set setting } .unlock
  | .unlock => goto (setLocked false) .idle

/-- A step of the lifecycle; a call at `Create` has read every setting. -/
def stepLifecycle (c : State) (a : Lifecycle.Action) : Option State :=
  match a with
  | .call _ _ => (Lifecycle.step c.world a).map fun w => { c with world := w }
  | .step p ok =>
    match creating c.world p with
    | none => (Lifecycle.step c.world a).map fun w => { c with world := w }
    | some call =>
      match c.reading call with
      | .done configuration =>
        (Lifecycle.step c.world a).map fun w =>
          { c with
            world := w
            reading := Function.update c.reading call .getStackSize
            passed := if ok then Function.update c.passed c.world.shared.created (some configuration) else c.passed }
      | _ => none

def step (c : State) : Action → Option State
  | .lifecycle a => stepLifecycle c a
  | .read p =>
    (creating c.world p).bind fun call =>
      ((c.reading call).next c.settings).map fun r => { c with reading := Function.update c.reading call r }
  | .set i setting =>
    if c.setters i = .idle then some { c with setters := Function.update c.setters i (.lock setting) } else none
  | .setter i => stepSetter c i

/-- Constructed with the default settings; the default stack size is a build
option. -/
def State.start (w : World) (stackSize : UInt32) : State where
  world := w
  settings := ⟨stackSize, 2, 0⟩
  setters := fun _ => .idle
  reading := fun _ => .getStackSize
  passed := fun _ => none

/-- The lifecycle of a thread with its setters. -/
def system (managed : Bool) : System State Action where
  init c := ∃ w stackSize, (Lifecycle.system managed).init w ∧ c = .start w stackSize
  step := step

end ESPressio.Configuration
