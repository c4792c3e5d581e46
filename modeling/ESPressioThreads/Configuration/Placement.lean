import Mathlib.Data.List.Induction
import ESPressioThreads.Configuration.Machine
import ESPressioThreads.Initialization.Machine
/-!
# Where a task is placed

`_ensureRegistered` passes the core of the manager to `SetCoreID`, as a user
passes the core of a choice. With the `Immediate` policy it runs in the
constructor, before anybody can set a core. With `DeferredUntilInitialize` it
runs in the first `Initialize`, and replaces a core that was set before.

The machine is one thread: its settings, whether a task and a registration
exist, and the calls of `_ensureRegistered` and `_initialize` up to the creation
of the task, any number at a time. A setter and the creation of the task hold
the configuration mutex, and are one step each.
-/

namespace ESPressio.Configuration.Placement

open Transition
open ESPressio.Manager (Registry ThreadPtr RegistrationError ThreadRecord)
open ESPressio.Initialization (ThreadRegistrationPolicy)

/-! ## The machine -/

/-- Who calls `_ensureRegistered`. -/
inductive Party
  | constructor
  | call (i : Nat)
  deriving DecidableEq, Repr

inductive Pc
  | idle
  | loadRegistered
  | addThread
  | setCoreID (core : Int32)
  | storeRegistered
  | checks
  | create
  | returned
  | threw
  deriving DecidableEq, Repr

structure Thread where
  settings : TaskConfiguration
  hasTask : Bool
  registered : Bool
  registry : Registry
  pcs : Party → Pc

/-- The thread's pointer, the number of cores and the default settings. -/
structure Setup where
  self : ThreadPtr
  coreCount : Nat
  policy : ThreadRegistrationPolicy
  defaults : TaskConfiguration
  deriving DecidableEq, Repr

/-- `set` is a call of a setter, and `register` what other threads do to the
registry. -/
inductive Action
  | set (setting : Setting)
  | call (i : Nat)
  | step (p : Party) (ok : Bool)
  | deleteTask
  | register (registry : Registry)
  deriving DecidableEq, Repr

namespace Thread
variable (c : Thread)

/-- A setter does nothing while there is a task, or with a value it rejects. -/
def accepts (setting : Setting) : Bool := !c.hasTask && setting.accepted

def set (setting : Setting) : Thread :=
  if c.accepts setting then { c with settings := c.settings.set setting } else c

def goto (p : Party) (pc : Pc) : Thread := { c with pcs := Function.update c.pcs p pc }

end Thread

/-- Where `_ensureRegistered` returns to. -/
def Party.registered : Party → Pc
  | .constructor => .returned
  | .call _ => .checks

section
variable (setup : Setup) (c : Thread)

/-- The constructor registers with one policy and is done with the other. -/
def start (registry : Registry) : Thread where
  settings := setup.defaults
  hasTask := false
  registered := false
  registry := registry
  pcs
    | .constructor =>
      match setup.policy with
      | .immediate => .loadRegistered
      | .deferredUntilInitialize => .returned
    | .call _ => .idle

def stepParty (p : Party) (ok : Bool) : Option Thread :=
  match c.pcs p with
  | .idle | .returned | .threw => none
  | .loadRegistered => some (c.goto p (if c.registered then p.registered else .addThread))
  -- `AddThread` throws for a full registry, and when an allocation fails.
  | .addThread =>
    match c.registry.insert setup.coreCount setup.self true 0, ok with
    | .ok (registry, record, _), true =>
      some ({ c with registry := registry }.goto p (.setCoreID (Int32.ofNat record.coreID)))
    | .error _, true => none
    | _, false => some (c.goto p .threw)
  | .setCoreID core => some ((c.set (.coreID core)).goto p .storeRegistered)
  | .storeRegistered => some ({ c with registered := true }.goto p p.registered)
  -- The signals, the handle, the pending dispatch, the dispatcher and the state.
  | .checks => some (c.goto p (if c.hasTask || !ok then .returned else .create))
  | .create =>
    if c.hasTask || !ok then some (c.goto p .returned) else some ({ c with hasTask := true }.goto p .returned)

def step : Action → Option Thread
  | .set setting => if c.pcs .constructor = .returned then some (c.set setting) else none
  | .call i =>
    if c.pcs .constructor = .returned ∧ c.pcs (.call i) = .idle then some (c.goto (.call i) .loadRegistered) else none
  | .step p ok => stepParty setup c p ok
  | .deleteTask => some { c with hasTask := false }
  | .register registry => some { c with registry := registry }

end

/-! ## The log -/

/-- `requested` is a setter that was not ignored, `assigned` the same call by a
registration. -/
inductive Event
  | requested (setting : Setting)
  | assigned (core : Int32)
  | created (configuration : TaskConfiguration)
  deriving DecidableEq, Repr

def event (c : Thread) : Action → Option Event
  | .set setting => if c.accepts setting then some (.requested setting) else none
  | .step p ok =>
    match c.pcs p with
    | .setCoreID core => if c.accepts (.coreID core) then some (.assigned core) else none
    | .create => if c.hasTask || !ok then none else some (.created c.settings)
    | _ => none
  | .call _ | .deleteTask | .register _ => none

/-- A thread from before its construction, with any registry. -/
def placements (setup : Setup) : System (Thread × List Event) Action :=
  System.logged { init := fun c => ∃ registry, c = start setup registry, step := step setup } event

/-! ## What is claimed -/

def requestedCores (l : List Event) : List Int32 := l.filterMap fun
  | .requested (.coreID value) => some value
  | _ => none

def requestedStackSizes (l : List Event) : List UInt32 := l.filterMap fun
  | .requested (.stackSize value) => some value
  | _ => none

def requestedPriorities (l : List Event) : List UInt32 := l.filterMap fun
  | .requested (.priority value) => some value
  | _ => none

def assignedCores (l : List Event) : List Int32 := l.filterMap fun
  | .assigned core => some core
  | _ => none

/-- After `l` a task is created with the last value that was requested of each
setting, and with the manager's core only if none was. -/
structure Honours (defaults : TaskConfiguration) (l : List Event) (c : TaskConfiguration) : Prop where
  stackSize : c.stackSize = (requestedStackSizes l).getLast?.getD defaults.stackSize
  priority : c.priority = (requestedPriorities l).getLast?.getD defaults.priority
  core : (requestedCores l).getLast?.or (assignedCores l).getLast? = some c.core

inductive Source
  | request
  | registration
  deriving DecidableEq, Repr

/-- Who set the core last. -/
def coreSource (l : List Event) : Option Source := (l.filterMap fun
  | .requested (.coreID _) => some .request
  | .assigned _ => some .registration
  | _ => none).getLast?

/-- A core was requested, and later a registration assigned another. -/
def Overridden (l : List Event) : Prop :=
  coreSource l = some .registration ∧ ∃ core, (requestedCores l).getLast? = some core ∧
    (assignedCores l).getLast? ≠ some core

/-! ## The settings, from the log -/

def after (c : TaskConfiguration) : Event → TaskConfiguration
  | .requested setting => c.set setting
  | .assigned core => c.set (.coreID core)
  | .created _ => c

/-- The settings after `l`. -/
def settingsAfter (defaults : TaskConfiguration) (l : List Event) : TaskConfiguration :=
  l.foldl after defaults

variable {defaults : TaskConfiguration} {l : List Event} {e : Option Event}

theorem settingsAfter_snoc (l : List Event) (x : Event) :
    settingsAfter defaults (l ++ [x]) = after (settingsAfter defaults l) x := by
  simp [settingsAfter]

theorem settingsAfter_stackSize (l : List Event) :
    (settingsAfter defaults l).stackSize = (requestedStackSizes l).getLast?.getD defaults.stackSize := by
  induction l using List.reverseRecOn with
  | nil => rfl
  | append_singleton l x ih =>
    rw [settingsAfter_snoc]
    cases x with
    | requested setting =>
      cases setting <;> simp [after, TaskConfiguration.set, requestedStackSizes] at ih ⊢ <;> exact ih
    | assigned core => simpa [after, TaskConfiguration.set, requestedStackSizes] using ih
    | created c => simpa [after, requestedStackSizes] using ih

theorem settingsAfter_priority (l : List Event) :
    (settingsAfter defaults l).priority = (requestedPriorities l).getLast?.getD defaults.priority := by
  induction l using List.reverseRecOn with
  | nil => rfl
  | append_singleton l x ih =>
    rw [settingsAfter_snoc]
    cases x with
    | requested setting =>
      cases setting <;> simp [after, TaskConfiguration.set, requestedPriorities] at ih ⊢ <;> exact ih
    | assigned core => simpa [after, TaskConfiguration.set, requestedPriorities] using ih
    | created c => simpa [after, requestedPriorities] using ih

/-- The core is what its last source set. -/
theorem settingsAfter_core (defaults : TaskConfiguration) (l : List Event) :
    match coreSource l with
    | none => requestedCores l = [] ∧ assignedCores l = []
    | some .request => (requestedCores l).getLast? = some (settingsAfter defaults l).core
    | some .registration => (assignedCores l).getLast? = some (settingsAfter defaults l).core := by
  induction l using List.reverseRecOn with
  | nil => exact ⟨rfl, rfl⟩
  | append_singleton l x ih =>
    rw [settingsAfter_snoc]
    cases x with
    | requested setting =>
      cases setting <;>
        simp [after, TaskConfiguration.set, coreSource, requestedCores, assignedCores] at ih ⊢ <;> exact ih
    | assigned core => simp [after, TaskConfiguration.set, coreSource, assignedCores]
    | created c => simpa [after, coreSource, requestedCores, assignedCores] using ih

/-- With a core assigned, the settings honour what was requested exactly when
the last request was not overridden. -/
theorem honours_iff (ha : assignedCores l ≠ []) :
    Honours defaults l (settingsAfter defaults l) ↔ ¬ Overridden l := by
  have hcore := settingsAfter_core defaults l
  obtain ⟨assigned, hassigned⟩ := List.getLast?_isSome.2 ha |> Option.isSome_iff_exists.1
  have hiff : Honours defaults l (settingsAfter defaults l) ↔
      (requestedCores l).getLast?.or (assignedCores l).getLast? = some (settingsAfter defaults l).core :=
    ⟨fun h => h.core, fun h => ⟨settingsAfter_stackSize l, settingsAfter_priority l, h⟩⟩
  rw [hiff, Overridden]
  cases hs : coreSource l with
  | none =>
    rw [hs] at hcore
    exact absurd hcore.2 ha
  | some source =>
    rw [hs] at hcore
    cases source with
    | request => simp [show (requestedCores l).getLast? = _ from hcore]
    | registration =>
      have hcore : (assignedCores l).getLast? = some (settingsAfter defaults l).core := hcore
      cases hr : (requestedCores l).getLast? with
      | none => simp [hcore]
      | some core => simp [hcore, eq_comm]

/-! ## One step -/

variable {setup : Setup} {c c' : Thread}

/-- Past its registration a party has assigned a core, or another has. -/
def Pc.assigned : Pc → Bool
  | .storeRegistered | .checks | .create => true
  | _ => false

/-- The thread has had a core assigned. -/
def Thread.Assigned (c : Thread) : Prop :=
  c.hasTask = true ∨ c.registered = true ∨ ∃ p, (c.pcs p).assigned = true

/-- It is registering. -/
def Pc.registers : Pc → Bool
  | .addThread | .setCoreID _ | .storeRegistered => true
  | _ => false

/-- The settings are those of the log, and a core was assigned before there can
be a task. -/
structure Logged (setup : Setup) (c : Thread) (l : List Event) : Prop where
  settings : c.settings = settingsAfter setup.defaults l
  assigned : c.Assigned → assignedCores l ≠ []

/-- An immediate registration is over when the thread is constructed. -/
structure Immediate (c : Thread) (l : List Event) : Prop where
  done : c.pcs .constructor = .returned → c.registered = true
  before : c.pcs .constructor ≠ .returned → requestedCores l = [] ∧ ∀ i, c.pcs (.call i) = .idle
  constructor : c.pcs .constructor ≠ .checks ∧ c.pcs .constructor ≠ .create
  calls : ∀ i, (c.pcs (.call i)).registers = false
  kept : ¬ Overridden l

@[simp] theorem set_pcs (c : Thread) (setting : Setting) : (c.set setting).pcs = c.pcs := by
  unfold Thread.set; split <;> rfl

@[simp] theorem set_hasTask (c : Thread) (setting : Setting) : (c.set setting).hasTask = c.hasTask := by
  unfold Thread.set; split <;> rfl

@[simp] theorem set_registered (c : Thread) (setting : Setting) : (c.set setting).registered = c.registered := by
  unfold Thread.set; split <;> rfl

@[simp] theorem goto_settings (c : Thread) (p : Party) (pc : Pc) : (c.goto p pc).settings = c.settings := rfl
@[simp] theorem goto_hasTask (c : Thread) (p : Party) (pc : Pc) : (c.goto p pc).hasTask = c.hasTask := rfl
@[simp] theorem goto_registered (c : Thread) (p : Party) (pc : Pc) : (c.goto p pc).registered = c.registered := rfl
@[simp] theorem goto_pcs (c : Thread) (p : Party) (pc : Pc) : (c.goto p pc).pcs = Function.update c.pcs p pc := rfl

/-- A party that moves to `pc` has a core assigned there only if the thread had
one before. -/
theorem assigned_goto {p : Party} {pc : Pc} (h : (c.goto p pc).Assigned) (hpc : pc.assigned = true → c.Assigned) :
    c.Assigned := by
  rcases h with h | h | ⟨q, hq⟩
  · exact .inl h
  · exact .inr (.inl h)
  · rw [goto_pcs] at hq
    by_cases hqp : q = p
    · subst hqp
      rw [Function.update_self] at hq
      exact hpc hq
    · rw [Function.update_of_ne hqp] at hq
      exact .inr (.inr ⟨q, hq⟩)

/-- Steps to `pc` that neither set a core nor create a task: what may be
registered there, and how far the constructor goes. -/
structure Moves (c : Thread) (p : Party) (now : Bool) (pc : Pc) : Prop where
  registered : now = c.registered ∨ (c.pcs p).assigned = true ∧ now = true
  assigned : pc.assigned = true → c.Assigned
  registers : pc.registers = true → (c.pcs p).registers = true ∨ c.pcs p = .loadRegistered ∧ c.registered = false
  returned : pc = .returned → now = true ∨ c.pcs p = .checks ∨ c.pcs p = .create
  constructor : p = .constructor → pc = .checks ∨ pc = .create → c.pcs p = .checks

theorem stepParty_cases {p : Party} {ok : Bool} (h : stepParty setup c p ok = some c') :
    c.pcs p ≠ .returned ∧ c.pcs p ≠ .idle ∧
    ((∃ core, c.pcs p = .setCoreID core ∧ c' = (c.set (.coreID core)).goto p .storeRegistered) ∨
    (c.pcs p = .create ∧ event c (.step p ok) = some (.created c.settings) ∧
      c' = { c with hasTask := true }.goto p .returned) ∨
    (event c (.step p ok) = none ∧ ∃ registry registered pc,
      c' = { c with registry := registry, registered := registered }.goto p pc ∧ Moves c p registered pc)) := by
  unfold stepParty at h
  cases hpc : c.pcs p with
  | idle | returned | threw => simp [hpc] at h
  | loadRegistered =>
    rw [hpc] at h
    cases h
    refine ⟨nofun, nofun, .inr (.inr ⟨by simp [event, hpc], c.registry, c.registered, _, rfl, ?_⟩)⟩
    cases hr : c.registered with
    | true =>
      rw [if_pos rfl]
      refine ⟨.inl hr.symm, fun _ => .inr (.inl hr), fun hp => ?_, fun _ => .inl rfl, fun hp => ?_⟩
      · cases p <;> cases hp
      · subst hp
        rintro (hp | hp) <;> cases hp
    | false =>
      rw [if_neg nofun]
      exact ⟨.inl hr.symm, nofun, fun _ => .inr ⟨hpc, hr⟩, nofun, fun _ => by rintro (hp | hp) <;> cases hp⟩
  | addThread =>
    rw [hpc] at h
    refine ⟨nofun, nofun, .inr (.inr ⟨by simp [event, hpc], ?_⟩)⟩
    dsimp only at h
    split at h <;> cases h
    · refine ⟨_, c.registered, _, rfl, .inl rfl, nofun, fun _ => .inl (by rw [hpc]; rfl), nofun, fun _ => ?_⟩
      rintro (hp | hp) <;> cases hp
    · refine ⟨c.registry, c.registered, _, rfl, .inl rfl, nofun, nofun, nofun, fun _ => ?_⟩
      rintro (hp | hp) <;> cases hp
  | setCoreID core =>
    rw [hpc] at h
    cases h
    exact ⟨nofun, nofun, .inl ⟨core, rfl, rfl⟩⟩
  | storeRegistered =>
    rw [hpc] at h
    cases h
    refine ⟨nofun, nofun, .inr (.inr ⟨by simp [event, hpc], c.registry, true, _, rfl, .inr ⟨by rw [hpc]; rfl, rfl⟩,
      fun _ => .inr (.inr ⟨p, by rw [hpc]; rfl⟩), fun _ => .inl (by rw [hpc]; rfl), fun _ => .inl rfl, fun hp => ?_⟩)⟩
    subst hp
    rintro (hp | hp) <;> cases hp
  | checks =>
    rw [hpc] at h
    cases h
    refine ⟨nofun, nofun, .inr (.inr ⟨by simp [event, hpc], c.registry, c.registered, _, rfl, .inl rfl,
      fun _ => .inr (.inr ⟨p, by rw [hpc]; rfl⟩), fun hp => ?_, fun _ => .inr (.inl hpc), fun _ _ => hpc⟩)⟩
    split at hp <;> cases hp
  | create =>
    rw [hpc] at h
    dsimp only at h
    split at h <;> rename_i hok <;> cases h
    · refine ⟨nofun, nofun, .inr (.inr ⟨by simp [event, hpc, hok], c.registry, c.registered, _, rfl, .inl rfl, nofun, nofun,
        fun _ => .inr (.inr hpc), fun _ => ?_⟩)⟩
      rintro (hp | hp) <;> cases hp
    · exact ⟨nofun, nofun, .inr (.inl ⟨rfl, by simp only [event, hpc]; rw [if_neg hok], rfl⟩)⟩

theorem assignedCores_append (l l' : List Event) :
    assignedCores (l ++ l') = assignedCores l ++ assignedCores l' := List.filterMap_append

theorem assignedCores_mono (h : assignedCores l ≠ []) (l' : List Event) : assignedCores (l ++ l') ≠ [] := by
  rw [assignedCores_append]
  exact List.append_ne_nil_of_left_ne_nil h _

/-- A step that sets nothing. -/
theorem Logged.quiet (h : Logged setup c l) (c' : Thread) (hs : c'.settings = c.settings)
    (ha : c'.Assigned → c.Assigned) :
    Logged setup c' l := ⟨hs.trans h.settings, fun h' => h.assigned (ha h')⟩

theorem Logged.step {a : Action} (h : Logged setup c l) (hst : step setup c a = some c') :
    Logged setup c' (l ++ (event c a).toList) := by
  cases a with
  | set setting =>
    simp only [Placement.step] at hst
    split at hst <;> cases hst
    have ha : (c.set setting).Assigned → c.Assigned := by simp [Thread.Assigned]
    by_cases hacc : c.accepts setting
    · refine ⟨?_, fun h' => assignedCores_mono (h.assigned (ha h')) _⟩
      simp [event, hacc, Thread.set, settingsAfter_snoc, after, h.settings]
    · simpa [event, hacc] using h.quiet _ (by simp [Thread.set, hacc]) ha
  | call i =>
    simp only [Placement.step] at hst
    split at hst <;> cases hst
    simpa [event] using h.quiet (c.goto (.call i) .loadRegistered) rfl fun h' => assigned_goto h' nofun
  | deleteTask =>
    cases hst
    simpa [event] using h.quiet { c with hasTask := false } rfl fun h' => .inr (h'.resolve_left nofun)
  | register registry =>
    cases hst
    simpa [event] using h.quiet { c with registry := registry } rfl id
  | step p ok =>
    obtain ⟨-, -, ⟨core, hpc, rfl⟩ | ⟨hpc, he, rfl⟩ | ⟨he, registry, registered, pc, rfl, hmoves⟩⟩ := stepParty_cases hst
    · by_cases hacc : c.accepts (.coreID core)
      · have he : event c (.step p ok) = some (.assigned core) := by simp [event, hpc, hacc]
        rw [he]
        refine ⟨?_, fun _ => ?_⟩
        · simp [Thread.set, hacc, settingsAfter_snoc, after, h.settings]
        · rw [assignedCores_append]
          exact List.append_ne_nil_of_right_ne_nil _ nofun
      · have he : event c (.step p ok) = none := by simp [event, hpc, hacc]
        -- The core is ignored only where there is a task.
        have ht : c.hasTask = true := by simpa [Thread.accepts, Setting.accepted] using hacc
        rw [he]
        simpa using h.quiet _ (by simp [Thread.set, hacc]) fun _ => .inl ht
    · rw [he]
      have ha : c.Assigned := .inr (.inr ⟨p, by rw [hpc]; rfl⟩)
      refine ⟨?_, fun _ => assignedCores_mono (h.assigned ha) _⟩
      simp [settingsAfter_snoc, after, h.settings]
    · rw [he]
      have ha : (({ c with registry := registry, registered := registered } : Thread).goto p pc).Assigned →
          c.Assigned := by
        rintro (h' | h' | ⟨q, hq⟩)
        · exact .inl h'
        · rcases hmoves.registered with rfl | ⟨ha, -⟩
          · exact .inr (.inl h')
          · exact .inr (.inr ⟨p, ha⟩)
        · rw [goto_pcs] at hq
          by_cases hqp : q = p
          · subst hqp
            rw [Function.update_self] at hq
            exact hmoves.assigned hq
          · rw [Function.update_of_ne hqp] at hq
            exact .inr (.inr ⟨q, hq⟩)
      have hsame : (({ c with registry := registry, registered := registered } : Thread).goto p pc).settings =
          c.settings := rfl
      simpa using h.quiet _ hsame ha

/-! ## An immediate registration -/

/-- Only an assignment overrides. -/
theorem Overridden.snoc_requested {setting : Setting} (h : Overridden (l ++ [.requested setting])) : Overridden l := by
  cases setting with
  | coreID value => simp [Overridden, coreSource] at h
  | stackSize | priority => simpa [Overridden, coreSource, requestedCores, assignedCores] using h

theorem Overridden.snoc_created {configuration : TaskConfiguration} (h : Overridden (l ++ [.created configuration])) :
    Overridden l := by
  simpa [Overridden, coreSource, requestedCores, assignedCores] using h

theorem not_overridden_of_unrequested (h : requestedCores l = []) : ¬ Overridden l := by
  rintro ⟨-, core, hr, -⟩
  simp [h] at hr

/-- A party moves: the constructor, or a call that finds the thread registered. -/
theorem Immediate.goto {p : Party} {pc : Pc} (h : Immediate c l) (hp : c.pcs p ≠ .returned)
    (hd : p = .constructor → (pc = .returned → c.registered = true) ∧ pc ≠ .checks ∧ pc ≠ .create)
    (hcall : ∀ i, p = .call i → c.pcs .constructor = .returned ∧ pc.registers = false) :
    Immediate (c.goto p pc) l := by
  cases p with
  | constructor =>
    obtain ⟨hreq, hidle⟩ := h.before hp
    refine ⟨fun hd' => ?_, fun _ => ⟨hreq, fun i => ?_⟩, ?_, fun i => ?_, h.kept⟩
    · rw [goto_pcs, Function.update_self] at hd'
      exact (hd rfl).1 hd'
    · simpa using hidle i
    · rw [goto_pcs, Function.update_self]
      exact (hd rfl).2
    · simpa using h.calls i
  | call i =>
    obtain ⟨hdone, hpc⟩ := hcall i rfl
    refine ⟨fun _ => h.done hdone, fun hd' => ?_, ?_, fun j => ?_, h.kept⟩
    · simp [hdone] at hd'
    · simpa using h.constructor
    · rw [goto_pcs]
      by_cases hj : j = i
      · subst hj
        rw [Function.update_self]
        exact hpc
      · rw [Function.update_of_ne (by simpa using hj)]
        exact h.calls j

/-- While it constructs nobody else calls. -/
theorem Immediate.constructed (h : Immediate c l) {i : Nat} (hi : c.pcs (.call i) ≠ .idle) :
    c.pcs .constructor = .returned := by
  by_contra hc
  exact hi ((h.before hc).2 i)

theorem Immediate.step {a : Action} (h : Immediate c l) (hst : step setup c a = some c') :
    Immediate c' (l ++ (event c a).toList) := by
  cases a with
  | set setting =>
    simp only [Placement.step] at hst
    split at hst <;> cases hst
    rename_i hdone
    refine ⟨fun _ => by simpa using h.done hdone, fun h' => absurd hdone (by simpa using h'),
      by simpa using h.constructor, by simpa using h.calls, ?_⟩
    by_cases hacc : c.accepts setting
    · simp only [event, hacc]
      exact fun ho => h.kept ho.snoc_requested
    · simpa [event, hacc] using h.kept
  | call i =>
    simp only [Placement.step] at hst
    split at hst <;> cases hst
    rename_i hi
    have hgoto : Immediate (c.goto (.call i) .loadRegistered) l :=
      h.goto (by rw [hi.2]; nofun) nofun fun _ _ => ⟨hi.1, rfl⟩
    simpa [event] using hgoto
  | deleteTask =>
    cases hst
    simpa [event] using (⟨h.done, h.before, h.constructor, h.calls, h.kept⟩ : Immediate { c with hasTask := false } l)
  | register registry =>
    cases hst
    simpa [event] using (⟨h.done, h.before, h.constructor, h.calls, h.kept⟩ : Immediate { c with registry := registry } l)
  | step p ok =>
    obtain ⟨hp, hidle, ⟨core, hpc, rfl⟩ | ⟨hpc, he, rfl⟩ | ⟨he, registry, registered, pc, rfl, hmoves⟩⟩ :=
      stepParty_cases hst
    · cases p with
      | call i => exact absurd (h.calls i) (by rw [hpc]; nofun)
      | constructor =>
        obtain ⟨hreq, hcalls⟩ := h.before hp
        have hreq' : requestedCores (l ++ (event c (.step .constructor ok)).toList) = [] := by
          simp only [event, hpc]
          split <;> simpa [requestedCores] using hreq
        have hset : Immediate (c.set (.coreID core)) (l ++ (event c (.step .constructor ok)).toList) := by
          refine ⟨fun hd => absurd (by simpa using hd) hp, fun _ => ⟨hreq', by simpa using hcalls⟩,
            by simpa using h.constructor, by simpa using h.calls, not_overridden_of_unrequested hreq'⟩
        exact hset.goto (by simpa using hp) (fun _ => ⟨nofun, nofun, nofun⟩) nofun
    · rw [he]
      have hcreated : Immediate { c with hasTask := true } (l ++ (some (.created c.settings)).toList) := by
        refine ⟨h.done, fun hd => ⟨?_, (h.before hd).2⟩, h.constructor, h.calls, fun ho => h.kept ho.snoc_created⟩
        simpa [requestedCores] using (h.before hd).1
      refine hcreated.goto hp ?_ ?_
      · rintro rfl
        exact absurd hpc h.constructor.2
      · rintro i rfl
        exact ⟨h.constructed hidle, rfl⟩
    · rw [he]
      have hknown : Immediate { c with registry := registry, registered := registered } l := by
        refine ⟨fun hd => ?_, h.before, h.constructor, h.calls, h.kept⟩
        rcases hmoves.registered with rfl | ⟨-, hr⟩
        · exact h.done hd
        · exact hr
      have hgoto : Immediate (({ c with registry := registry, registered := registered } : Thread).goto p pc) l := by
        refine hknown.goto hp ?_ ?_
        · rintro rfl
          have hnot : ¬ (pc = .checks ∨ pc = .create) := fun hpc => h.constructor.1 (hmoves.constructor rfl hpc)
          refine ⟨fun hpc => ?_, fun hpc => hnot (.inl hpc), fun hpc => hnot (.inr hpc)⟩
          rcases hmoves.returned hpc with hr | hr | hr
          · exact hr
          · exact absurd hr h.constructor.1
          · exact absurd hr h.constructor.2
        · rintro i rfl
          have hdone := h.constructed hidle
          refine ⟨hdone, Bool.eq_false_iff.2 fun hpc => ?_⟩
          rcases hmoves.registers hpc with hr | ⟨-, hr⟩
          · rw [h.calls i] at hr
            cases hr
          · rw [h.done hdone] at hr
            cases hr
      simpa using hgoto

/-! ## Every run -/

theorem logged_start (registry : Registry) : Logged setup (start setup registry) [] := by
  refine ⟨rfl, ?_⟩
  rintro (h | h | ⟨p, h⟩)
  · cases h
  · cases h
  · cases p with
    | constructor =>
      simp only [start] at h
      split at h <;> cases h
    | call i => cases h

theorem immediate_start (hpolicy : setup.policy = .immediate) (registry : Registry) :
    Immediate (start setup registry) [] := by
  refine ⟨fun h => ?_, fun _ => ⟨rfl, fun _ => rfl⟩, ?_, fun _ => rfl, fun h => nomatch h.1⟩
  · simp [start, hpolicy] at h
  · simp [start, hpolicy]

/-- How the log grows. -/
theorem logged_reachable {x : Thread × List Event} (h : (placements setup).Reachable x) : Logged setup x.1 x.2 := by
  refine h.invariant (I := fun x => Logged setup x.1 x.2) ?_ ?_
  · rintro ⟨c, l⟩ ⟨⟨registry, hc⟩, hl⟩
    cases hc
    cases hl
    exact logged_start registry
  · intro x a y hI _ hs
    obtain ⟨hst, hl⟩ := System.logged_step.1 hs
    rw [hl]
    exact hI.step hst

theorem immediate_reachable (hpolicy : setup.policy = .immediate) {x : Thread × List Event}
    (h : (placements setup).Reachable x) : Immediate x.1 x.2 := by
  refine h.invariant (I := fun x => Immediate x.1 x.2) ?_ ?_
  · rintro ⟨c, l⟩ ⟨⟨registry, hc⟩, hl⟩
    cases hc
    cases hl
    exact immediate_start hpolicy registry
  · intro x a y hI _ hs
    obtain ⟨hst, hl⟩ := System.logged_step.1 hs
    rw [hl]
    exact hI.step hst

/-- What is created is created with the settings of the thread. -/
theorem event_created {a : Action} {configuration : TaskConfiguration} (hst : step setup c a = some c')
    (he : event c a = some (.created configuration)) : configuration = c.settings ∧ c.Assigned := by
  cases a with
  | set setting =>
    simp only [event] at he
    split at he <;> cases he
  | step p ok =>
    obtain ⟨-, -, ⟨core, hpc, -⟩ | ⟨hpc, he', -⟩ | ⟨he', -⟩⟩ := stepParty_cases hst
    · simp only [event, hpc] at he
      split at he <;> cases he
    · rw [he'] at he
      cases he
      exact ⟨rfl, .inr (.inr ⟨p, by rw [hpc]; rfl⟩)⟩
    · rw [he'] at he
      cases he
  | call | deleteTask | register => cases he

/-- In every run, each task is created with the stack size and the priority that
were requested last, and with the core that was requested last, or the
manager's if none was, exactly when no registration assigned another core since
that request; with the `Immediate` policy none does. -/
theorem placement_honoured_iff {x : Thread × List Event} (h : (placements setup).Reachable x) {l₁ l₂ : List Event}
    {configuration : TaskConfiguration} (hl : x.2 = l₁ ++ .created configuration :: l₂) :
    (Honours setup.defaults l₁ configuration ↔ ¬ Overridden l₁) ∧
    configuration.stackSize = (requestedStackSizes l₁).getLast?.getD setup.defaults.stackSize ∧
    configuration.priority = (requestedPriorities l₁).getLast?.getD setup.defaults.priority ∧
    (setup.policy = .immediate → ¬ Overridden l₁) := by
  have hcreated : configuration = settingsAfter setup.defaults l₁ ∧ assignedCores l₁ ≠ [] ∧
      (setup.policy = .immediate → ¬ Overridden l₁) := by
    refine h.invariant_with (J := fun x => Logged setup x.1 x.2 ∧ (setup.policy = .immediate → Immediate x.1 x.2))
      (I := fun x => ∀ l₁ configuration l₂, x.2 = l₁ ++ .created configuration :: l₂ →
        configuration = settingsAfter setup.defaults l₁ ∧ assignedCores l₁ ≠ [] ∧
        (setup.policy = .immediate → ¬ Overridden l₁))
      (fun x hx => ⟨logged_reachable hx, fun hp => immediate_reachable hp hx⟩) ?_ ?_ l₁ configuration l₂ hl
    · rintro ⟨c, l⟩ ⟨-, hl⟩ l₁ configuration l₂ hsplit
      cases hl
      simp at hsplit
    · intro x a y hJ _ hI _ hs l₁ configuration l₂ hsplit
      obtain ⟨hst, hgrown⟩ := System.logged_step.1 hs
      rw [hgrown] at hsplit
      rcases System.split_append hsplit with ⟨l₃, hsplit, -⟩ | ⟨he, rfl, -⟩
      · exact hI _ _ _ hsplit
      · obtain ⟨rfl, ha⟩ := event_created hst he
        exact ⟨hJ.1.settings, hJ.1.assigned ha, fun hp => (hJ.2 hp).kept⟩
  obtain ⟨rfl, hassigned, himmediate⟩ := hcreated
  exact ⟨honours_iff hassigned, settingsAfter_stackSize l₁, settingsAfter_priority l₁, himmediate⟩

/-- Two cores, and the default settings. -/
def deferred : Setup := ⟨1, 2, .deferredUntilInitialize, ⟨4000, 2, 0⟩⟩

def immediate : Setup := { deferred with policy := .immediate }

/-- `SetCoreID(1)`, and an `Initialize` that creates the task. -/
def pinnedToOne : List Action := .set (.coreID 1) :: .call 0 :: List.replicate 6 (.step (.call 0) true)

/-- The manager's first core replaces the core 1. -/
theorem deferred_core_replaced : ∃ x, (placements deferred).Reachable x ∧
    ∃ l₁ configuration l₂, x.2 = l₁ ++ .created configuration :: l₂ ∧
      ¬ Honours deferred.defaults l₁ configuration := by
  have hrun : ((placements deferred).replay (start deferred ⟨[], 0⟩, []) pinnedToOne).map
      (fun x => x.2) = some [.requested (.coreID 1), .assigned 0, .created ⟨4000, 2, 0⟩] := by
    decide
  obtain ⟨x, hs, hl⟩ := Option.map_eq_some_iff.1 hrun
  have hinit : (placements deferred).init (start deferred ⟨[], 0⟩, []) := ⟨⟨_, rfl⟩, rfl⟩
  refine ⟨x, System.reachable_of_replay hinit hs, [.requested (.coreID 1), .assigned 0], ⟨4000, 2, 0⟩, [], hl, ?_⟩
  intro h
  exact absurd h.core (by decide)

/-- A thread that registers in its constructor keeps it. -/
theorem immediate_core_kept : ∃ x, (placements immediate).Reachable x ∧
    ∃ l₁ configuration l₂, x.2 = l₁ ++ .created configuration :: l₂ ∧ configuration.core = 1 ∧
      Honours immediate.defaults l₁ configuration := by
  have hrun : ((placements immediate).replay (start immediate ⟨[], 0⟩, [])
      (List.replicate 4 (.step .constructor true) ++ .set (.coreID 1) :: .call 0 ::
        List.replicate 3 (.step (.call 0) true))).map (fun x => x.2) =
      some [.assigned 0, .requested (.coreID 1), .created ⟨4000, 2, 1⟩] := by
    decide
  obtain ⟨x, hs, hl⟩ := Option.map_eq_some_iff.1 hrun
  have hinit : (placements immediate).init (start immediate ⟨[], 0⟩, []) := ⟨⟨_, rfl⟩, rfl⟩
  have hr := System.reachable_of_replay hinit hs
  have hsplit : x.2 = [.assigned 0, .requested (.coreID 1)] ++ .created ⟨4000, 2, 1⟩ :: [] := hl
  obtain ⟨hiff, -, -, hkept⟩ := placement_honoured_iff hr hsplit
  exact ⟨x, hr, _, _, _, hsplit, rfl, hiff.2 (hkept rfl)⟩

end ESPressio.Configuration.Placement
