import ESPressioThreads.Initialization.Retry
/-!
# Exceptions of callbacks during `Initialize`

The lifecycle with the exceptions that leave a call: the user code that called
gets one, and does not swallow it. An observer may throw as well, and its
channel goes on to the next one. A log shows the calls of `Initialize`, the
tasks they create, what they return, and every throw of `OnInitialization` and
of a callback, with the call of `Initialize` that its exception reaches.
-/

namespace ESPressio.Attribution

open Transition ESPressio.Thread ESPressio.Lifecycle

/-! ## Where an exception goes -/

/-- `Initialize` runs user code inside its `try` block or in the handler. -/
def attributes : InitializePc → Bool
  | .onInitialization _ | .setInitialized _ | .setRunning _ | .stopTerminated _ | .catchTerminate _ _
  | .catchTerminated _ => true
  | _ => false

def Frame.attributes (f : Frame) : Bool := f.pc.initializePc.any Attribution.attributes

/-- The call runs `OnInitialization` or a callback, which lets exceptions pass.
A channel of observers contains them. -/
def Frame.propagates (f : Frame) : Bool :=
  match f.transition with
  | some tr => tr.pc = .onStateChange || tr.pc = .onThreadEvent
  | none => f.pc.initializePc.any fun t => match t with | .onInitialization _ => true | _ => false

/-- The call of `Initialize` that an exception in the call `(p, n)` reaches. -/
def reaches (w : World) (p : TaskId) : Nat → Option Nat
  | 0 => if Frame.attributes (w.frames (p, 0)) then some 0 else none
  | n + 1 =>
    if Frame.attributes (w.frames (p, n + 1)) then some (n + 1)
    else if Frame.propagates (w.frames (p, n)) then reaches w p n
    else none

def threw {π : Type} : Next π → Bool
  | .ret threw => threw
  | .goto _ => false

/-- The step ends the call by an exception. -/
def Frame.escapes (f : Frame) (s : Shared) (p : TaskId) (ok : Bool) : Bool :=
  match f.transition with
  | some tr =>
    match stepTransition s p tr ok with
    | some (s', .done stored thrown) => threw (f.pc.resume s' stored thrown)
    | _ => false
  | none => f.pc.transition.isNone && (exec s p f.pc ok).any fun r => threw r.2

/-! ## The machine -/

/-- `escaping` are the calls whose user code has got an exception from a call it made. -/
structure State where
  world : World
  escaping : TaskId × Nat → Bool

inductive Action
  | lifecycle (a : Lifecycle.Action)
  | observerThrows (p : TaskId)
  deriving DecidableEq, Repr

/-- The exceptions after a step of the last call of a task. -/
def escapingAfter (c : State) (p : TaskId) (n : Nat) (ok : Bool) : TaskId × Nat → Bool :=
  let f := c.world.frames (p, n)
  if Frame.escapes f c.world.shared p ok then
    match n with
    | 0 => c.escaping
    | k + 1 => Function.update c.escaping (p, k) true
  -- The user code has returned.
  else if f.userCode then Function.update c.escaping (p, n) false
  else c.escaping

def stepLifecycle (c : State) (b : Lifecycle.Action) : Option State :=
  (Lifecycle.step c.world b).map fun w =>
    { world := w
      escaping :=
        match b with
        | .call p _ => Function.update c.escaping (p, c.world.depth p) false
        | .step p ok =>
          match c.world.depth p with
          | 0 => c.escaping
          | n + 1 => escapingAfter c p n ok }

/-- The observers of a state change run. -/
def notifies (f : Frame) : Bool := f.transition.any fun tr => tr.pc = .notifyObservers

def step (c : State) : Action → Option State
  | .lifecycle b => stepLifecycle c b
  | .observerThrows p =>
    if c.world.runnable p then
      match c.world.depth p with
      | 0 => none
      | n + 1 =>
        if notifies (c.world.frames (p, n)) then some { c with escaping := Function.update c.escaping (p, n) false }
        else none
    else none

/-! ## The log -/

/-- `call` is the slot of the call on the stack of its task. -/
inductive Event
  | called (call : TaskId × Nat)
  | created (call : TaskId × Nat)
  | threw (p : TaskId) (reached : Option Nat)
  | observerThrew (p : TaskId)
  | returned (call : TaskId × Nat) (status : ThreadInitializationStatus)
  deriving DecidableEq, Repr

def initializeEvent (w : World) (a : TaskId × Nat) (ok : Bool) : InitializePc → Option Event
  | .ensureRegistered => some (.called a)
  | .create => if ok then some (.created a) else none
  | .onInitialization _ => if ok then none else some (.threw a.1 (reaches w a.1 a.2))
  | .finished status => some (.returned a status)
  | _ => none

def callEvent (w : World) (a : TaskId × Nat) (f : Frame) (ok : Bool) : Option Event :=
  match f.transition with
  | some _ => if Frame.propagates f && !ok then some (.threw a.1 (reaches w a.1 a.2)) else none
  | none => f.pc.initializePc.bind (initializeEvent w a ok)

def event (c : State) : Action → Option Event
  | .lifecycle (.call _ _) => none
  | .lifecycle (.step p ok) =>
    match c.world.depth p with
    | 0 => none
    | n + 1 => callEvent c.world (p, n) (c.world.frames (p, n)) ok
  | .observerThrows p => some (.observerThrew p)

/-- The lifecycle of a thread that no manager cleans up, with its log. -/
def machine : System (State × List Event) Action :=
  System.logged
    { init := fun c => (Lifecycle.system false).init c.world ∧ c.escaping = fun _ => false
      step := step }
    event

/-! ## What is claimed -/

/-- `Initialize` stores or clears what says which task initializes the thread. -/
def writesWindow : InitializePc → Bool
  | .storeInitializing _ | .storeInProgress _ | .clearInProgress _ | .clearInitializing _ => true
  | _ => false

/-- User code lets an exception pass, and a channel of observers does not fail. -/
structure Passes (c : State) (a : TaskId × Nat) (f : Frame) (ok : Bool) : Prop where
  passes : Frame.propagates f = true → c.escaping a = true → ok = false
  notifies : notifies f = true → ok = true

/-- Nobody else is between its stores of the initializing task. -/
def Apart (c : State) (a : TaskId × Nat) (f : Frame) : Prop :=
  ∀ t, f.pc.initializePc = some t → writesWindow t = true →
    ∀ b f₁ t₁, c.world.call b = some f₁ → b ≠ a → f₁.pc.initializePc = some t₁ → t₁.initializing = false

/-- What is assumed of user code, and that two initializations do not overlap
between these stores. -/
def Admitted (x : State × List Event) : Action → Prop
  | .lifecycle (.step p ok) => ∀ n, x.1.world.depth p = n + 1 →
      Passes x.1 (p, n) (x.1.world.frames (p, n)) ok ∧ Apart x.1 (p, n) (x.1.world.frames (p, n))
  | .lifecycle (.call _ _) | .observerThrows _ => True

/-- What a call of `Initialize` that created its task returned, with its part of the log. -/
structure Ran (log : List Event) (a : TaskId × Nat) (l : List Event) (status : ThreadInitializationStatus) : Prop where
  log : ∃ l₀ l₂, log = l₀ ++ .called a :: (l ++ .returned a status :: l₂)
  called : .called a ∉ l
  created : .created a ∈ l

/-- `OnInitialization` or a callback threw on the task. -/
def Threw (l : List Event) (p : TaskId) : Prop := ∃ reached, .threw p reached ∈ l

/-- A throw came to the call of `Initialize`: from `OnInitialization` or a
callback inside its `try` block or handler, and not through an observer. -/
def Reached (l : List Event) (a : TaskId × Nat) : Prop := .threw a.1 (some a.2) ∈ l

/-- The status says whether user code threw on the initializing task. -/
def Attributed (log : List Event) : Prop :=
  ∀ a l status, Ran log a l status → (status = .initializationException ↔ Threw l a.1)

/-- A transition ends by an exception only on a task that initializes the thread. -/
def Contained (w : World) : Prop :=
  ∀ p m f tr, w.call (p, m) = some f → f.transition = some tr → tr.throws = true →
    ∃ n f₁ t, n ≤ m ∧ w.call (p, n) = some f₁ ∧ f₁.pc.initializePc = some t ∧ t.initializing = true

end ESPressio.Attribution
