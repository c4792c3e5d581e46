import ESPressioThreads.Lifecycle.Model
/-!
# The dispatch of state changes

`SetThreadState` and `TrySetThreadState` with every handler that
`_dispatchThreadStateChange` and `NotifyStateChanged` call. A handler may
throw, and may call both again on its task, to any depth; any other task may
call them at any time. What `Initialize` stores of the initializing task
changes freely.

An observer channel calls the registered observers synchronously, in the order
of their registration. The `n`-th stored transition has the number `n`; a log
shows what is stored and which handlers begin.
-/

namespace ESPressio.Dispatch

open Transition ESPressio.Thread
open ESPressio.Lifecycle (TaskId hasThreadEvent)

abbrev Observer := Nat

/-- The installed callbacks and the registered observers. -/
structure Handlers where
  onStateChange : Bool
  onThreadEvent : ThreadState → Bool
  observers : List Observer

/-- `onThreadEvent` is the callback for the new state, and `onThreadState` the
observer's hook for it. -/
inductive Handler
  | onStateChange
  | onThreadEvent
  | onThreadStateChanged (o : Observer)
  | onThreadState (o : Observer)
  deriving DecidableEq, Repr

/-- Called only while the thread is in the new state. -/
def Handler.stateSpecific : Handler → Bool
  | .onThreadEvent | .onThreadState _ => true
  | .onStateChange | .onThreadStateChanged _ => false

/-- The handlers whose exceptions set `callbackFailed`. -/
def Handler.isCallback : Handler → Bool
  | .onStateChange | .onThreadEvent => true
  | .onThreadStateChanged _ | .onThreadState _ => false

/-- What `_dispatchThreadStateChange` calls for a new state, in order. -/
def Handlers.calls (h : Handlers) (newState : ThreadState) : List Handler :=
  (if h.onStateChange then [.onStateChange] else []) ++
    (if hasThreadEvent newState && h.onThreadEvent newState then [.onThreadEvent] else []) ++
    h.observers.flatMap fun o => [.onThreadStateChanged o, .onThreadState o]

/-- A stored transition with the handlers it has yet to call. -/
structure Delivery where
  number : Nat
  oldState : ThreadState
  rest : List Handler
  callbackFailed : Bool
  deriving DecidableEq, Repr

inductive Pc
  | idle
  | lock
  | check
  | next (d : Delivery)
  | call (handler : Handler) (d : Delivery)
  | running (handler : Handler) (d : Delivery)
  | loadInProgress
  | loadInitializing
  | unlock (throws : Bool)
  deriving DecidableEq, Repr

/-- A call of `SetThreadState`, or of `TrySetThreadState` with an expected state. -/
structure Frame where
  expected : Option ThreadState
  newState : ThreadState
  pc : Pc
  deriving DecidableEq, Repr

def Frame.idle : Frame := ⟨none, .uninitialized, .idle⟩

/-- `height p` calls are on the stack of the task `p`, the last of which runs. -/
structure Machine where
  threadState : ThreadState
  transitionOwner : Option TaskId
  transitionDepth : Nat
  initializationInProgress : Bool
  initializingTask : Option TaskId
  transitions : Nat
  height : TaskId → Nat
  frames : TaskId × Nat → Frame

inductive Action
  | call (p : TaskId) (expected : Option ThreadState) (newState : ThreadState)
  | step (p : TaskId) (ok : Bool)
  | initializing (inProgress : Bool) (task : Option TaskId)
  deriving DecidableEq, Repr

namespace Machine

def setPc (m : Machine) (a : TaskId × Nat) (pc : Pc) : Machine :=
  { m with frames := Function.update m.frames a { m.frames a with pc := pc } }

def push (m : Machine) (p : TaskId) (expected : Option ThreadState) (newState : ThreadState) : Machine :=
  { m with
    height := Function.update m.height p (m.height p + 1)
    frames := Function.update m.frames (p, m.height p) ⟨expected, newState, .lock⟩ }

/-- The call at the top of the stack of `p` returns. -/
def pop (m : Machine) (p : TaskId) (k : Nat) : Machine :=
  { m with height := Function.update m.height p k, frames := Function.update m.frames (p, k) Frame.idle }

/-- The task runs code of its own, or a handler. -/
def inHandler (m : Machine) (p : TaskId) : Bool :=
  match m.height p with
  | 0 => true
  | k + 1 => match (m.frames (p, k)).pc with | .running _ _ => true | _ => false

end Machine

section
variable (h : Handlers) (m : Machine) (p : TaskId)

/-- One step of the call at position `k`, the top one. -/
def stepCall (k : Nat) (ok : Bool) : Option Machine :=
  let f := m.frames (p, k)
  let goto := fun pc => m.setPc (p, k) pc
  match f.pc with
  | .idle => none
  | .lock =>
    if m.transitionOwner = none ∨ m.transitionOwner = some p then
      some ({ m with transitionOwner := some p, transitionDepth := m.transitionDepth + 1 }.setPc (p, k) .check)
    else none
  | .check =>
    if (f.expected = none ∨ f.expected = some m.threadState) ∧
        isValidThreadStateTransition m.threadState f.newState then
      some ({ m with threadState := f.newState, transitions := m.transitions + 1 }.setPc (p, k)
        (.next ⟨m.transitions, m.threadState, h.calls f.newState, false⟩))
    else some (goto (.unlock false))
  | .next d =>
    match d.rest with
    | [] => some (goto (if d.callbackFailed then .loadInProgress else .unlock false))
    | handler :: rest =>
      -- A handler for a state that the thread has left is not called.
      some (goto (if handler.stateSpecific && m.threadState ≠ f.newState then .next { d with rest := rest }
        else .call handler { d with rest := rest }))
  | .call handler d => some (goto (.running handler d))
  | .running handler d =>
    some (goto (.next { d with callbackFailed := d.callbackFailed || (!ok && handler.isCallback) }))
  | .loadInProgress => some (goto (if m.initializationInProgress then .loadInitializing else .unlock false))
  | .loadInitializing => some (goto (.unlock (m.initializingTask = some p)))
  | .unlock _ =>
    let depth := m.transitionDepth - 1
    some ({ m with transitionDepth := depth, transitionOwner := if depth = 0 then none else some p }.pop p k)

def step : Action → Option Machine
  | .call p expected newState => if m.inHandler p then some (m.push p expected newState) else none
  | .step p ok =>
    match m.height p with
    | 0 => none
    | k + 1 => stepCall h m p k ok
  | .initializing inProgress task => some { m with initializationInProgress := inProgress, initializingTask := task }

end

/-! ## The log -/

/-- `current` is the state of the thread when a handler begins, or is passed
over. -/
inductive Event
  | stored (oldState newState : ThreadState)
  | started (number : Nat) (handler : Handler) (oldState newState current : ThreadState)
  | superseded (number : Nat) (handler : Handler) (newState current : ThreadState)
  deriving DecidableEq, Repr

def callEvent (m : Machine) (f : Frame) : Option Event :=
  match f.pc with
  | .check =>
    if (f.expected = none ∨ f.expected = some m.threadState) ∧
        isValidThreadStateTransition m.threadState f.newState then some (.stored m.threadState f.newState)
    else none
  | .next d =>
    match d.rest with
    | [] => none
    | handler :: _ =>
      if handler.stateSpecific && m.threadState ≠ f.newState then
        some (.superseded d.number handler f.newState m.threadState)
      else none
  | .call handler d => some (.started d.number handler d.oldState f.newState m.threadState)
  | _ => none

def event (m : Machine) : Action → Option Event
  | .step p _ =>
    match m.height p with
    | 0 => none
    | k + 1 => callEvent m (m.frames (p, k))
  | _ => none

/-- A constructed thread, in no call. -/
def Machine.start : Machine :=
  { threadState := .uninitialized, transitionOwner := none, transitionDepth := 0, initializationInProgress := false
    initializingTask := none, transitions := 0, height := fun _ => 0, frames := fun _ => Frame.idle }

/-- The transitions of one thread, with their log. -/
def system (h : Handlers) : System (Machine × List Event) Action :=
  System.logged { init := fun m => m = .start, step := step h } event

/-! ## One step -/

namespace Machine
variable (m : Machine) (a : TaskId × Nat) (p : TaskId)

theorem setPc_frames (pc : Pc) (b : TaskId × Nat) :
    (m.setPc a pc).frames b = if b = a then { m.frames a with pc := pc } else m.frames b := by
  simp [setPc, Function.update_apply]

theorem push_frames (expected : Option ThreadState) (newState : ThreadState) (b : TaskId × Nat) :
    (m.push p expected newState).frames b =
      if b = (p, m.height p) then ⟨expected, newState, .lock⟩ else m.frames b := by
  simp [push, Function.update_apply]

theorem pop_frames (k : Nat) (b : TaskId × Nat) :
    (m.pop p k).frames b = if b = (p, k) then Frame.idle else m.frames b := by
  simp [pop, Function.update_apply]

@[simp] theorem setPc_height (pc : Pc) : (m.setPc a pc).height = m.height := rfl
@[simp] theorem setPc_threadState (pc : Pc) : (m.setPc a pc).threadState = m.threadState := rfl
@[simp] theorem setPc_transitions (pc : Pc) : (m.setPc a pc).transitions = m.transitions := rfl

theorem push_height (expected : Option ThreadState) (newState : ThreadState) (q : TaskId) :
    (m.push p expected newState).height q = if q = p then m.height p + 1 else m.height q := by
  simp [push, Function.update_apply]

theorem pop_height (k : Nat) (q : TaskId) : (m.pop p k).height q = if q = p then k else m.height q := by
  simp [pop, Function.update_apply]

end Machine

/-- The transition that a check stores. -/
def Frame.stores (f : Frame) (current : ThreadState) : Prop :=
  (f.expected = none ∨ f.expected = some current) ∧ isValidThreadStateTransition current f.newState = true

instance (f : Frame) (current : ThreadState) : Decidable (f.stores current) := inferInstanceAs (Decidable (_ ∧ _))

/-- One step with what it shows. -/
inductive Moved (h : Handlers) (m : Machine) : Action → Machine → Option Event → Prop
  | call (p : TaskId) (expected : Option ThreadState) (newState : ThreadState) : m.inHandler p = true →
      Moved h m (.call p expected newState) (m.push p expected newState) none
  | initializing (inProgress : Bool) (task : Option TaskId) : Moved h m (.initializing inProgress task)
      { m with initializationInProgress := inProgress, initializingTask := task } none
  | locked (p : TaskId) (k : Nat) (ok : Bool) : m.height p = k + 1 → (m.frames (p, k)).pc = .lock →
      m.transitionOwner = none ∨ m.transitionOwner = some p →
      Moved h m (.step p ok)
        ({ m with transitionOwner := some p, transitionDepth := m.transitionDepth + 1 }.setPc (p, k) .check) none
  | stored (p : TaskId) (k : Nat) (ok : Bool) : m.height p = k + 1 → (m.frames (p, k)).pc = .check →
      (m.frames (p, k)).stores m.threadState →
      Moved h m (.step p ok)
        ({ m with threadState := (m.frames (p, k)).newState, transitions := m.transitions + 1 }.setPc (p, k)
          (.next ⟨m.transitions, m.threadState, h.calls (m.frames (p, k)).newState, false⟩))
        (some (.stored m.threadState (m.frames (p, k)).newState))
  | superseded (p : TaskId) (k : Nat) (ok : Bool) (d : Delivery) (handler : Handler) (rest : List Handler) :
      m.height p = k + 1 → (m.frames (p, k)).pc = .next d → d.rest = handler :: rest →
      handler.stateSpecific = true → m.threadState ≠ (m.frames (p, k)).newState →
      Moved h m (.step p ok) (m.setPc (p, k) (.next { d with rest := rest }))
        (some (.superseded d.number handler (m.frames (p, k)).newState m.threadState))
  | chosen (p : TaskId) (k : Nat) (ok : Bool) (d : Delivery) (handler : Handler) (rest : List Handler) :
      m.height p = k + 1 → (m.frames (p, k)).pc = .next d → d.rest = handler :: rest →
      (handler.stateSpecific = true → m.threadState = (m.frames (p, k)).newState) →
      Moved h m (.step p ok) (m.setPc (p, k) (.call handler { d with rest := rest })) none
  | started (p : TaskId) (k : Nat) (ok : Bool) (handler : Handler) (d : Delivery) :
      m.height p = k + 1 → (m.frames (p, k)).pc = .call handler d →
      Moved h m (.step p ok) (m.setPc (p, k) (.running handler d))
        (some (.started d.number handler d.oldState (m.frames (p, k)).newState m.threadState))
  | returned (p : TaskId) (k : Nat) (ok : Bool) (handler : Handler) (d : Delivery) (failed : Bool) :
      m.height p = k + 1 → (m.frames (p, k)).pc = .running handler d →
      Moved h m (.step p ok) (m.setPc (p, k) (.next { d with callbackFailed := failed })) none
  /-- A call that has called its handlers, or has stored nothing, ends. -/
  | ending (p : TaskId) (k : Nat) (ok : Bool) (pc : Pc) : m.height p = k + 1 →
      ((∃ d, (m.frames (p, k)).pc = .next d ∧ d.rest = []) ∨ (m.frames (p, k)).pc = .check ∨
        (m.frames (p, k)).pc = .loadInProgress ∨ (m.frames (p, k)).pc = .loadInitializing) →
      (pc = .loadInProgress ∨ pc = .loadInitializing ∨ ∃ throws, pc = .unlock throws) →
      Moved h m (.step p ok) (m.setPc (p, k) pc) none
  | unlocked (p : TaskId) (k : Nat) (ok throws : Bool) : m.height p = k + 1 →
      (m.frames (p, k)).pc = .unlock throws →
      Moved h m (.step p ok)
        ({ m with transitionDepth := m.transitionDepth - 1
                  transitionOwner := if m.transitionDepth - 1 = 0 then none else some p }.pop p k) none

variable {h : Handlers} {m m' : Machine} {a : Action}

theorem step_moved (hs : step h m a = some m') : Moved h m a m' (event m a) := by
  cases a with
  | call p expected newState =>
    simp only [step] at hs
    split at hs <;> cases hs
    exact .call p expected newState ‹_›
  | initializing inProgress task =>
    cases hs
    exact .initializing inProgress task
  | step p ok =>
    simp only [step] at hs
    split at hs
    · cases hs
    · rename_i k hk
      simp only [event, hk, callEvent]
      simp only [stepCall] at hs
      split at hs <;> rename_i hpc <;> simp only [hpc]
      · cases hs
      · split at hs <;> cases hs
        exact .locked p k ok hk hpc ‹_›
      · split at hs <;> rename_i hc <;> cases hs
        · rw [if_pos hc]
          exact .stored p k ok hk hpc hc
        · rw [if_neg hc]
          exact .ending p k ok _ hk (.inr (.inl hpc)) (.inr (.inr ⟨_, rfl⟩))
      · rename_i d
        split at hs <;> rename_i hrest <;> cases hs
        · refine .ending p k ok _ hk (.inl ⟨d, hpc, hrest⟩) ?_
          split
          · exact .inl rfl
          · exact .inr (.inr ⟨_, rfl⟩)
        · rename_i handler rest
          by_cases hc : (handler.stateSpecific && decide (m.threadState ≠ (m.frames (p, k)).newState)) = true
          · simp only [hc, if_true]
            rw [Bool.and_eq_true_iff, decide_eq_true_eq] at hc
            exact .superseded p k ok d handler rest hk hpc hrest hc.1 hc.2
          · simp only [hc]
            refine .chosen p k ok d handler rest hk hpc hrest fun hspec => ?_
            by_contra hne
            exact hc (by rw [hspec, decide_eq_true hne]; rfl)
      · cases hs
        exact .started p k ok _ _ hk hpc
      · cases hs
        exact .returned p k ok _ _ _ hk hpc
      · cases hs
        refine .ending p k ok _ hk (.inr (.inr (.inl hpc))) ?_
        split
        · exact .inr (.inl rfl)
        · exact .inr (.inr ⟨_, rfl⟩)
      · cases hs
        exact .ending p k ok _ hk (.inr (.inr (.inr hpc))) (.inr (.inr ⟨_, rfl⟩))
      · cases hs
        exact .unlocked p k ok _ hk hpc

end ESPressio.Dispatch
