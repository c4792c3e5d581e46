import ESPressioThreads.Lifecycle.Rank
import ESPressioThreads.Manager.Registration
import ESPressioThreads.Initialization.Machine
/-!
# `Initialize` reports its failures

While registration succeeds, and no callback throws where no handler is, no
exception leaves `Initialize` or `Start`, and each call of `Initialize` that
returns a failure has told the callback and every observer once. A call waits
for three mutexes and for room in the queue only, and every step of it lowers
its rank.
-/

namespace ESPressio.Initialization

open Transition ESPressio.Thread ESPressio.Lifecycle
open ESPressio.Manager (Registry ThreadPtr)

/-! ## What is claimed -/

def Setup.callback (setup : Setup) (a : TaskId × Nat) (status : ThreadInitializationStatus) : List Event :=
  if setup.onInitializationFailed then [.onInitializationFailed a status] else []

def told (a : TaskId × Nat) (status : ThreadInitializationStatus) (observers : List Observer) : List Event :=
  observers.map fun o => .onThreadInitializationFailed a o status

/-- What a call reports that returns the status. -/
def Setup.report (setup : Setup) (a : TaskId × Nat) (status : ThreadInitializationStatus) : List Event :=
  if status = .success then [] else setup.callback a status ++ told a status setup.observers

/-- The manager has the thread, or has an ID for it. -/
def State.accepts (setup : Setup) (c : State) : Bool := c.registered || (c.addThread setup).isOk

/-- A registration that the step makes succeeds, and no callback has thrown, on
the task that initializes the thread, in a transition outside of any handler. -/
def Contained (setup : Setup) (c : State) : Action → Prop
  | .lifecycle (.step p ok) => ∀ f, c.world.top p = some f →
      (f.pc.initializePc = some .ensureRegistered → c.accepts setup = true ∧ ok = true) ∧
      (escapes f.pc = true → ∀ tr, f.transition = some tr → tr.pc = .loadInitializing →
        c.world.shared.initializingTask ≠ some p)
  | _ => True

/-- What keeps a call from its next step: its task is gone, another holds the
mutex of the state transitions, of the configuration or of the dispatcher, or
the queue is full. -/
inductive Waits (c : State) (p : TaskId) (f : Frame) : Prop
  | deleted : c.world.runnable p = false → Waits c p f
  | transition (q : TaskId) : f.transition ≠ none → q ≠ p → c.world.shared.transitionOwner = some q → Waits c p f
  | configuration : f.transition = none → f.pc.initializePc = some .lockConfiguration →
      c.world.shared.configurationLocked = true → Waits c p f
  | dispatcher (h : Holder) : f.pc.guard ≠ none → h ≠ .task p → c.mutex.holder = some h → Waits c p f
  | room : f.pc.guard = some .dispatch → c.mutex.phase p = .inside → c.mutex.full = true → Waits c p f

/-- A step of the task itself, not of user code that it runs. -/
def Action.runs (p : TaskId) : Action → Prop
  | .lifecycle (.step q _) | .notify q | .signalsMissing q | .mutex (.lock q) | .mutex (.unlock q) => q = p
  | _ => False

/-- A bound on the steps that a call of `Initialize` or `Start` still makes. -/
def work (setup : Setup) (c : State) (a : TaskId × Nat) : Nat :=
  6 * ((setup.observers.length + 1) * (c.world.frames a).rank + (c.toNotify a).length) + (c.mutex.phase a.1).rank

/-- `Initialize` and `Start` return without an exception, and a failure is
reported once. -/
structure Total (setup : Setup) (c : State) (log : List Event) : Prop where
  contained : ∀ a, .threw a ∉ log
  reports : ∀ a status l₁ l₂, log = l₁ ++ .returned a status :: l₂ →
    ∃ l₀ l, l₁ = l₀ ++ .called a :: l ∧ l.filter (·.call = a) = setup.report a status
  goesOn : ∀ p f, c.world.top p = some f → f.pc.initializes = true →
    Waits c p f ∨ ∃ b c', b.runs p ∧ step setup c b = some c'
  returns : ∀ p n b c', c.world.depth p = n + 1 → (c.world.frames (p, n)).pc.initializes = true → b.runs p →
    step setup c b = some c' → c'.world.call (p, n) = none ∨ work setup c' (p, n) < work setup c (p, n)

/-! ## One step -/

variable {setup : Setup} {c c' : State} {p : TaskId} {ok : Bool} {a : TaskId × Nat} {f : Frame} {s s' : Shared}
  {log : List Event}

/-- A step of the last call of a task. -/
structure Stepped (setup : Setup) (c : State) (p : TaskId) (ok : Bool) (c' : State) (n : Nat) (f : Frame)
    (f' : Option Frame) : Prop where
  depth : c.world.depth p = n + 1
  top : c.world.top p = some f
  call : c.world.call (p, n) = some f
  world : Lifecycle.step c.world (.step p ok) = some c'.world
  frame : FrameStep c.world.shared p f ok c'.world.shared f'
  calls : c'.world.call = Function.update c.world.call (p, n) f'
  report : ∃ c₁, stepReport setup c (p, n) ok = some c₁ ∧ c₁.toNotify = c'.toNotify
  admits : c.mutex.admits c.world (.step p ok) = true
  mutex : c'.mutex = c.mutex.after (.step p ok)
  event : event setup c (.lifecycle (.step p ok)) = callEvent setup c.world.shared (p, n) f ok

theorem step_stepped (h : step setup c (.lifecycle (.step p ok)) = some c') :
    ∃ n f f', Stepped setup c p ok c' n f f' := by
  simp only [step, stepLifecycle] at h
  split at h
  · rename_i hadmits
    split at h
    · cases h
    · rename_i n hd
      obtain ⟨c₁, hc₁, hmap⟩ := Option.bind_eq_some_iff.1 h
      obtain ⟨w, hw, rfl⟩ := Option.map_eq_some_iff.1 hmap
      obtain ⟨-, m, f, f', hd', htop, hf, hstep, hcall⟩ := step_last hw
      obtain rfl : m = n := by omega
      refine ⟨m, f, f', hd, htop, hf, hw, hstep, hcall, ⟨c₁, hc₁, rfl⟩, hadmits, rfl, ?_⟩
      obtain ⟨-, hfr⟩ := World.call_eq_some.1 hf
      simp only [event, hd, hfr]
  · cases h

theorem callEvent_call {e : Event} (h : callEvent setup s a f ok = some e) : e.call = a := by
  unfold callEvent at h
  split at h
  · split at h <;> cases h
    rfl
  · split at h
    · split at h <;> cases h
      rfl
    · split at h
      · split at h <;> cases h
        rfl
      · split at h <;> cases h
        rfl
      · cases h; rfl
      · cases h

/-! ## What a call has reported so far -/

/-- What the call at the program counter has reported, when `notify` are the
observers it has yet to tell. -/
def SoFar (setup : Setup) (a : TaskId × Nat) (notify : List Observer) : InitializePc → List Event → Prop
  | .onInitializationFailed status, l => status ≠ .success ∧ l = []
  | .notifyInitializationFailed status, l => status ≠ .success ∧
      ∃ before, before ++ notify = setup.observers ∧ l = setup.callback a status ++ told a status before
  | .finished status, l => l = setup.report a status
  | _, l => l = []

/-- The log ends with the call `a`, which has reported what `S` says. -/
def Reporting (log : List Event) (a : TaskId × Nat) (S : List Event → Prop) : Prop :=
  ∃ l₀ l, log = l₀ ++ .called a :: l ∧ S (l.filter (·.call = a))

theorem Reporting.mono {S T : List Event → Prop} (h : Reporting log a S) (hST : ∀ l, S l → T l) : Reporting log a T := by
  obtain ⟨l₀, l, hl, hS⟩ := h
  exact ⟨l₀, l, hl, hST _ hS⟩

/-- Another call shows something. -/
theorem Reporting.other {S : List Event → Prop} {e : Option Event} (h : Reporting log a S)
    (he : ∀ e₁, e = some e₁ → e₁.call ≠ a) : Reporting (log ++ e.toList) a S := by
  obtain ⟨l₀, l, rfl, hS⟩ := h
  refine ⟨l₀, l ++ e.toList, by simp, ?_⟩
  cases e with
  | none => simpa using hS
  | some e₁ => simpa [he e₁ rfl] using hS

/-- The call itself shows something. -/
theorem Reporting.shows {S T : List Event → Prop} {e : Event} (h : Reporting log a S) (he : e.call = a)
    (hST : ∀ l, S l → T (l ++ [e])) : Reporting (log ++ [e]) a T := by
  obtain ⟨l₀, l, rfl, hS⟩ := h
  refine ⟨l₀, l ++ [e], by simp, ?_⟩
  rw [List.filter_append]
  simpa [he] using hST _ hS

theorem SoFar.of_transition {t : InitializePc} {notify : List Observer} {l : List Event} (ht : t.transition ≠ none) :
    SoFar setup a notify t l ↔ l = [] := by
  cases t <;> first | exact absurd rfl ht | exact Iff.rfl

/-- After its transitions a call has still reported nothing. -/
theorem resume_soFar {t t' : InitializePc} {stored threw : Bool} {notify : List Observer}
    (h : t.resume s stored threw = .goto t') : SoFar setup a notify t' [] := by
  cases InitializePc.resume_goto h with
  | unreset => exact ⟨nofun, rfl⟩
  | _ => rfl

/-- The statements of `Initialize` before it reports. -/
theorem execInitialize_soFar {t t' : InitializePc} {notify notify' : List Observer} {l : List Event}
    (h : execInitialize s p t ok = some (s', .goto t')) (hl : SoFar setup a notify t l)
    (ht : ∀ status, t ≠ .onInitializationFailed status) (ht' : ∀ status, t ≠ .notifyInitializationFailed status) :
    SoFar setup a notify' t' l := by
  cases execInitialize_goto h
  case onInitializationFailed status => exact absurd rfl (ht status)
  case notifyInitializationFailed status => exact absurd rfl (ht' status)
  all_goals obtain rfl : l = [] := hl
  case clearInitializing status hs => exact ⟨hs, rfl⟩
  case alreadyInitialized | dispatchPending | dispatcherUnavailable | invalidState | hasTask | createFailed | lost =>
    exact ⟨nofun, rfl⟩
  all_goals rfl

/-! ## What a step shows -/

theorem callEvent_of_transition {tr : StateTransition} (htr : f.transition = some tr)
    (h : escapes f.pc = true → tr.throws = false) : callEvent setup s a f ok = none := by
  simp only [callEvent, htr]
  rw [if_neg]
  simp only [Bool.and_eq_true, not_and]
  intro he
  simp [h he.1]

/-- What a call in `Initialize` shows that waits for no transition. -/
def shows (setup : Setup) (a : TaskId × Nat) (ok : Bool) : InitializePc → Option Event
  | .ensureRegistered => if ok then none else some (.threw a)
  | .onInitializationFailed status =>
    if setup.onInitializationFailed then some (.onInitializationFailed a status) else none
  | .finished status => some (.returned a status)
  | _ => none

theorem callEvent_of_initializePc {t : InitializePc} (htr : f.transition = none) (ht : f.pc.initializePc = some t) :
    callEvent setup s a f ok = shows setup a ok t := by
  simp only [callEvent, htr]
  split
  · rename_i hpc
    rw [hpc] at ht
    cases ht
  · rw [ht]
    cases t <;> rfl

theorem callEvent_of_starts (h : StartsInitialize s f) : callEvent setup s a f ok = some (.called a) := by
  simp only [callEvent, h.transition, h.pc]
  rw [if_pos h.threadState]

/-- Where no call begins, and nothing is called or returned, a step shows nothing. -/
theorem callEvent_cases {e : Event} (h : callEvent setup s a f ok = some e)
    (hun : escapes f.pc = true → ∀ tr, f.transition = some tr → tr.throws = false) :
    e = .called a ∨ ∃ t, f.transition = none ∧ f.pc.initializePc = some t ∧ shows setup a ok t = some e := by
  cases htr : f.transition with
  | some tr =>
    rw [callEvent_of_transition htr fun he => hun he tr htr] at h
    cases h
  | none =>
    cases ht : f.pc.initializePc with
    | some t => exact .inr ⟨t, rfl, rfl, (callEvent_of_initializePc htr ht).symm.trans h⟩
    | none =>
      simp only [callEvent, htr] at h
      split at h
      · split at h <;> cases h
        exact .inl rfl
      · rw [ht] at h
        cases h

/-! ## Observers -/

variable {n : Nat} {f' : Option Frame}

theorem ensureRegistered_toNotify {c₁ : State} (h : ensureRegistered setup c ok = some c₁) :
    c₁.toNotify = c.toNotify := by
  unfold ensureRegistered at h
  split at h
  · split at h <;> cases h
    rfl
  · split at h <;> cases h <;> rfl

theorem Stepped.initializePc (h : Stepped setup c p ok c' n f f') :
    (c.world.frames (p, n)).pc.initializePc = f.pc.initializePc := by
  obtain ⟨-, rfl⟩ := World.call_eq_some.1 h.call
  rfl

/-- The observers are still to be told when the callback returns. -/
theorem Stepped.toNotify_of_callback {status : ThreadInitializationStatus} (h : Stepped setup c p ok c' n f f')
    (ht : f.pc.initializePc = some (.onInitializationFailed status)) :
    c'.toNotify = Function.update c.toNotify (p, n) setup.observers := by
  obtain ⟨c₁, hc₁, hn⟩ := h.report
  simp only [stepReport, h.initializePc, ht, Option.some.injEq] at hc₁
  rw [← hn, ← hc₁]

theorem Stepped.toNotify (h : Stepped setup c p ok c' n f f')
    (ht : ∀ status, f.pc.initializePc ≠ some (.onInitializationFailed status)) : c'.toNotify = c.toNotify := by
  obtain ⟨c₁, hc₁, hn⟩ := h.report
  rw [← hn]
  simp only [stepReport, h.initializePc] at hc₁
  split at hc₁
  · exact ensureRegistered_toNotify hc₁
  · split at hc₁ <;> cases hc₁
    rfl
  · exact absurd ‹_› (ht _)
  · split at hc₁ <;> cases hc₁
    rfl
  · cases hc₁; rfl

/-- All observers have been told when `NotifyInitializationFailed` returns. -/
theorem Stepped.told_all {status : ThreadInitializationStatus} (h : Stepped setup c p ok c' n f f')
    (ht : f.pc.initializePc = some (.notifyInitializationFailed status)) : c.toNotify (p, n) = [] := by
  obtain ⟨c₁, hc₁, -⟩ := h.report
  simp only [stepReport, h.initializePc, ht] at hc₁
  split at hc₁
  · assumption
  · cases hc₁

theorem Stepped.toNotify_other (h : Stepped setup c p ok c' n f f') (ha : a ≠ (p, n)) :
    c'.toNotify a = c.toNotify a := by
  by_cases ht : ∃ status, f.pc.initializePc = some (.onInitializationFailed status)
  · obtain ⟨status, ht⟩ := ht
    rw [h.toNotify_of_callback ht, Function.update_of_ne ha]
  · rw [h.toNotify fun status hs => ht ⟨status, hs⟩]

/-! ## Runs -/

/-- Every call that has returned has reported what it should. -/
def Reported (setup : Setup) (log : List Event) : Prop :=
  ∀ a status l₁ l₂, log = l₁ ++ .returned a status :: l₂ →
    ∃ l₀ l, l₁ = l₀ ++ .called a :: l ∧ l.filter (·.call = a) = setup.report a status

structure ReportInv (setup : Setup) (c : State) (log : List Event) : Prop where
  calls : CallsOk c.world
  mutex : MutexInv c.world c.mutex
  unthrown : ∀ a f, c.world.call a = some f → escapes f.pc = true → ∀ tr, f.transition = some tr → tr.throws = false
  contained : ∀ a, .threw a ∉ log
  reported : Reported setup log
  soFar : ∀ a f, c.world.call a = some f → ∀ t, f.pc.initializePc = some t →
    Reporting log a (SoFar setup a (c.toNotify a) t)

/-- The call that stepped has still reported what its program counter says. -/
theorem ReportInv.soFar_stepped {f₁ : Frame} {t' : InitializePc} (h : ReportInv setup c log)
    (hm : Stepped setup c p ok c' n f (some f₁)) (hc : Contained setup c (.lifecycle (.step p ok)))
    (ht' : f₁.pc.initializePc = some t') :
    Reporting (log ++ (callEvent setup c.world.shared (p, n) f ok).toList) (p, n)
      (SoFar setup (p, n) (c'.toNotify (p, n)) t') := by
  have hok := h.calls _ f hm.call
  rcases hm.frame.initialize_cases ht' with ⟨rfl, hstart⟩ | ⟨t, ht, hto⟩
  · rw [callEvent_of_starts hstart]
    exact ⟨log, [], rfl, rfl⟩
  · have hso := h.soFar _ f hm.call t ht
    have hun := fun he tr => h.unthrown _ f hm.call he tr
    generalize c.world.shared = s₀ at hto ⊢
    generalize c'.world.shared = s₁ at hto
    generalize hx : f.transition = x at hto
    generalize f₁.transition = y at hto
    have hpc : ∀ tr, f.transition = some tr → t.transition ≠ none := by
      intro tr htr
      rw [← Pc.transition_of_initializePc ht, hok.transition tr htr]
      exact Option.some_ne_none _
    -- Around a transition nothing has been reported.
    cases hto with
    | inTransition _ tr tr' _ hst =>
      rw [callEvent_of_transition hx fun he => hun he tr hx, Option.toList_none, List.append_nil]
      exact hso.mono fun l hl => (SoFar.of_transition (hpc tr hx)).2 ((SoFar.of_transition (hpc tr hx)).1 hl)
    | transitionDone _ _ tr _ stored threw hst hr =>
      rw [callEvent_of_transition hx fun he => hun he tr hx, Option.toList_none, List.append_nil]
      refine hso.mono fun l hl => ?_
      obtain rfl := (SoFar.of_transition (hpc tr hx)).1 hl
      exact resume_soFar hr
    | transitionStart _ expected newState ht₁ =>
      have ht₀ : t'.transition ≠ none := by rw [ht₁]; exact Option.some_ne_none _
      have hnone : shows setup (p, n) ok t' = none := by
        cases t' <;> first | rfl | cases ht₁
      rw [callEvent_of_initializePc hx ht, hnone, Option.toList_none, List.append_nil]
      exact hso.mono fun l hl => (SoFar.of_transition ht₀).2 ((SoFar.of_transition ht₀).1 hl)
    | exec _ _ _ hex =>
      rw [callEvent_of_initializePc hx ht]
      cases t
      case onInitializationFailed status =>
        cases hex
        rw [hm.toNotify_of_callback ht, Function.update_self]
        simp only [shows]
        split
        · rename_i hcallback
          refine hso.shows rfl fun l hl => ⟨hl.1, [], rfl, ?_⟩
          rw [hl.2, Setup.callback, if_pos hcallback]
          rfl
        · rename_i hcallback
          rw [Option.toList_none, List.append_nil]
          refine hso.mono fun l hl => ⟨hl.1, [], rfl, ?_⟩
          rw [hl.2, Setup.callback, if_neg hcallback]
          rfl
      case notifyInitializationFailed status =>
        cases hex
        simp only [shows, Option.toList_none, List.append_nil]
        refine hso.mono fun l hl => ?_
        obtain ⟨hs, before, hb, rfl⟩ := hl
        rw [hm.told_all ht, List.append_nil] at hb
        rw [SoFar, Setup.report, if_neg hs, hb]
      case finished status => cases hex
      case ensureRegistered =>
        obtain ⟨-, rfl⟩ := (hc f hm.top).1 ht
        cases hex
        simp only [shows, if_true, Option.toList_none, List.append_nil]
        exact hso
      all_goals
        simp only [shows, Option.toList_none, List.append_nil]
        exact hso.mono fun l hl => execInitialize_soFar hex hl nofun nofun

/-- No exception is on its way out of a transition that would let it escape. -/
theorem ReportInv.unthrown_stepped {f₁ : Frame} (h : ReportInv setup c log)
    (hm : Stepped setup c p ok c' n f (some f₁)) (hc : Contained setup c (.lifecycle (.step p ok)))
    (he : escapes f₁.pc = true) (tr : StateTransition) (htr : f₁.transition = some tr) : tr.throws = false := by
  have hfree := (hc f hm.top).2
  have hgoto := hm.frame.goto
  generalize c.world.shared = s at hgoto hfree
  generalize c'.world.shared = s' at hgoto
  cases hgoto with
  | inTransition tr₀ _ _ htr₀ hst =>
    cases htr
    exact stepTransition_throws hst (h.unthrown _ f hm.call he tr₀ htr₀) fun hpc => hfree he tr₀ htr₀ hpc
  | transitionStart => cases htr; rfl
  | transitionDone => cases htr
  | exec => cases htr

theorem Reported.append {e : Option Event} (h : Reported setup log)
    (he : ∀ a status, e = some (.returned a status) → Reporting log a (· = setup.report a status)) :
    Reported setup (log ++ e.toList) := by
  intro a status l₁ l₂ hl
  rcases Transition.System.split_append hl with ⟨l₃, rfl, -⟩ | ⟨hx, rfl, -⟩
  · exact h a status l₁ l₃ rfl
  · obtain ⟨l₀, l, hlog, hrep⟩ := he a status hx
    exact ⟨l₀, l, hlog, hrep⟩

theorem ReportInv.stepped (h : ReportInv setup c log) (hm : Stepped setup c p ok c' n f f')
    (hc : Contained setup c (.lifecycle (.step p ok))) :
    ReportInv setup c' (log ++ (event setup c (.lifecycle (.step p ok))).toList) := by
  have hshown : ∀ e, callEvent setup c.world.shared (p, n) f ok = some e → e = .called (p, n) ∨
      ∃ t, f.pc.initializePc = some t ∧ shows setup (p, n) ok t = some e := by
    intro e he
    rcases callEvent_cases he (h.unthrown _ f hm.call) with rfl | ⟨t, -, ht, hs⟩
    · exact .inl rfl
    · exact .inr ⟨t, ht, hs⟩
  rw [hm.event]
  refine ⟨h.calls.step hm.world, ?_, ?_, fun a ha => ?_, h.reported.append fun a status he => ?_, ?_⟩
  · rw [hm.mutex]
    exact h.mutex.step hm.admits hm.world
  · rw [hm.calls]
    refine forall_call_update (fun f₁ hf₁ he tr htr => ?_) fun b g _ hb => h.unthrown b g hb
    subst hf₁
    exact h.unthrown_stepped hm hc he tr htr
  · rcases List.mem_append.1 ha with ha | ha
    · exact h.contained a ha
    · rcases hshown _ (Option.mem_toList.1 ha) with he | ⟨t, ht, hs⟩
      · cases he
      · cases t
        case ensureRegistered =>
          obtain ⟨-, rfl⟩ := (hc f hm.top).1 ht
          cases hs
        case onInitializationFailed => simp only [shows] at hs; split at hs <;> cases hs
        all_goals cases hs
  · rcases hshown _ he with he | ⟨t, ht, hs⟩
    · cases he
    · cases t
      case finished =>
        cases hs
        exact h.soFar _ f hm.call _ ht
      case ensureRegistered | onInitializationFailed => simp only [shows] at hs; split at hs <;> cases hs
      all_goals cases hs
  · rw [hm.calls]
    refine forall_call_update (fun f₁ hf₁ t' ht' => ?_) fun b g hne hb t ht => ?_
    · subst hf₁
      exact h.soFar_stepped hm hc ht'
    · rw [hm.toNotify_other hne]
      exact (h.soFar b g hb t ht).other fun e he => callEvent_call he ▸ Ne.symm hne

theorem ReportInv.pushed {request : Request} {w : World} (h : ReportInv setup c log)
    (hadmits : c.mutex.admits c.world (.call p request) = true)
    (hw : Lifecycle.step c.world (.call p request) = some w) :
    ReportInv setup { c with world := w } (log ++ (event setup c (.lifecycle (.call p request))).toList) := by
  obtain ⟨-, hnone, hcall⟩ := call_last hw
  have hev : ∀ e, event setup c (.lifecycle (.call p request)) = some e → e = .called (p, c.world.depth p) := by
    intro e he
    simp only [event] at he
    split at he <;> cases he
    rfl
  refine ⟨h.calls.step hw, h.mutex.step hadmits hw, ?_, fun a ha => ?_,
    h.reported.append fun a status he => ?_, ?_⟩
  · rw [hcall]
    refine forall_call_update (fun f₁ hf₁ he => ?_) fun b g _ hb => h.unthrown b g hb
    cases hf₁
    exact fun tr htr => by cases htr
  · rcases List.mem_append.1 ha with ha | ha
    · exact h.contained a ha
    · cases hev _ (Option.mem_toList.1 ha)
  · cases hev _ he
  · rw [hcall]
    refine forall_call_update (fun f₁ hf₁ t ht => ?_) fun b g hne hb t ht => ?_
    · cases hf₁
      cases request <;> cases ht
      exact ⟨log, [], rfl, rfl⟩
    · exact (h.soFar b g hb t ht).other fun e he => by rw [hev e he]; exact Ne.symm hne

/-- A step that tells an observer. -/
structure Notified (setup : Setup) (c : State) (p : TaskId) (c' : State) (n : Nat) (f : Frame)
    (status : ThreadInitializationStatus) (o : Observer) (rest : List Observer) : Prop where
  depth : c.world.depth p = n + 1
  call : c.world.call (p, n) = some f
  pc : f.pc.initializePc = some (.notifyInitializationFailed status)
  toNotify : c.toNotify (p, n) = o :: rest
  state : c' = { c with toNotify := Function.update c.toNotify (p, n) rest }
  event : event setup c (.notify p) = some (.onThreadInitializationFailed (p, n) o status)

theorem step_notified (h : step setup c (.notify p) = some c') :
    ∃ n f status o rest, Notified setup c p c' n f status o rest := by
  simp only [step] at h
  split at h
  · obtain ⟨⟨call, status⟩, hn, hs⟩ := Option.bind_eq_some_iff.1 h
    have hnotifying := hn
    unfold notifying at hn
    split at hn
    · cases hn
    · rename_i n hd
      split at hn <;> cases hn
      rename_i hpc
      cases ho : c.toNotify (p, n) with
      | nil => simp only [ho] at hs; cases hs
      | cons o rest =>
        simp only [ho, Option.some.injEq] at hs
        exact ⟨n, _, status, o, rest, hd, World.call_eq_some.2 ⟨by simp [hd], rfl⟩, hpc, ho, hs.symm,
          by simp [Initialization.event, hnotifying, ho]⟩
  · cases h

theorem ReportInv.notify (h : ReportInv setup c log) (hs : step setup c (.notify p) = some c') :
    ReportInv setup c' (log ++ (event setup c (.notify p)).toList) := by
  obtain ⟨n, f, status, o, rest, hm⟩ := step_notified hs
  rw [hm.event]
  obtain ⟨-, hf, hpc, ho, rfl, -⟩ := hm
  refine ⟨h.calls, h.mutex, h.unthrown, fun a ha => ?_, h.reported.append ?_, fun a g hg t ht => ?_⟩
  · rcases List.mem_append.1 ha with ha | ha
    · exact h.contained a ha
    · cases Option.mem_toList.1 ha
  · exact fun a status he => by cases he
  · by_cases ha : a = (p, n)
    · subst ha
      obtain rfl : g = f := Option.some.inj (hg.symm.trans hf)
      obtain rfl : t = _ := Option.some.inj (ht.symm.trans hpc)
      simp only [Function.update_self, Option.toList_some]
      refine (h.soFar _ g hg _ hpc).shows rfl fun l hl => ?_
      obtain ⟨hs, before, hb, rfl⟩ := hl
      refine ⟨hs, before ++ [o], ?_, ?_⟩
      · rw [← hb, ho]
        simp
      · simp [told]
    · simp only [Function.update_of_ne ha]
      exact (h.soFar a g hg t ht).other fun e he => by cases he; exact Ne.symm ha

theorem initializeAt_initializePc {t u : InitializePc} {pc : Pc} (h : pc.initializePc = some t) :
    (initializeAt u pc).initializePc = some u := by
  cases pc with
  | initializeThread | start => rfl
  | _ => cases h

/-- A step that finds a signal missing. -/
structure Missed (setup : Setup) (c : State) (p : TaskId) (c' : State) (n : Nat) (f f₁ : Frame) : Prop where
  depth : c.world.depth p = n + 1
  call : c.world.call (p, n) = some f
  top : c.world.top p = some f
  pc : f.pc.initializePc = some .loadHandle
  after : f₁ = { f with pc := initializeAt (.onInitializationFailed .exitSignalUnavailable) f.pc }
  idle : c.mutex.phase p = .idle
  state : c' = { c with world := c.world.setFrame (p, n) f₁ }
  calls : c'.world.call = Function.update c.world.call (p, n) (some f₁)

theorem step_missed (h : step setup c (.signalsMissing p) = some c') : ∃ n f f₁, Missed setup c p c' n f f₁ := by
  simp only [step, stepSignalsMissing] at h
  split at h
  · cases h
  · rename_i n hd
    split at h <;> cases h
    rename_i hg
    obtain ⟨-, -, hidle, hpc⟩ := hg
    refine ⟨n, _, _, hd, World.call_eq_some.2 ⟨by simp [hd], rfl⟩, World.top_succ hd, hpc, rfl, hidle, rfl, ?_⟩
    funext b
    simp only [World.call, World.setFrame_depth, World.setFrame_frames, Function.update_apply]
    by_cases hb : b = (p, n)
    · simp [hb, hd]
    · simp [hb]

theorem ReportInv.missed (h : ReportInv setup c log) (hs : step setup c (.signalsMissing p) = some c') :
    ReportInv setup c' log := by
  obtain ⟨n, f, f₁, hm⟩ := step_missed hs
  have hok := h.calls _ f hm.call
  have hno : f.transition = none := hok.no_transition (Pc.transition_of_initializePc hm.pc)
  have hno₁ : f₁.transition = none := by rw [hm.after, hno]
  have hpc₁ : f₁.pc.initializePc = some (.onInitializationFailed .exitSignalUnavailable) := by
    rw [hm.after]
    exact initializeAt_initializePc hm.pc
  have htoNotify : c'.toNotify = c.toNotify := by rw [hm.state]
  refine ⟨?_, ?_, ?_, h.contained, h.reported, ?_⟩
  · rw [CallsOk, hm.calls]
    refine forall_call_update (fun f₂ hf₂ => ?_) fun b g _ hb => h.calls b g hb
    cases hf₂
    refine ⟨fun tr htr => absurd (hno₁.symm.trans htr) (by rintro ⟨⟩), fun g t ht => ?_, fun t ht => ?_⟩
    · rw [ht] at hpc₁
      cases hpc₁
    · rw [ht] at hpc₁
      cases hpc₁
  · have hothers : ∀ q, q ≠ p → c'.world.guard q = c.world.guard q := by
      intro q hq
      have hne : ∀ m, (q, m) ≠ (p, n) := fun m he => hq (Prod.mk.inj he).1
      simp only [hm.state, World.guard, World.top, World.setFrame_depth, World.setFrame_frames, if_neg (hne _)]
    have hmutex := h.mutex.others hothers (.inl hm.idle)
    rw [if_neg (by simp [hm.idle])] at hmutex
    rw [show c'.mutex = c.mutex by rw [hm.state]]
    exact hmutex
  · rw [hm.calls]
    refine forall_call_update (fun f₂ hf₂ _ tr htr => ?_) fun b g _ hb => h.unthrown b g hb
    cases hf₂
    cases hno₁.symm.trans htr
  · rw [hm.calls, htoNotify]
    refine forall_call_update (fun f₂ hf₂ t ht => ?_) fun b g _ hb => h.soFar b g hb
    cases hf₂
    cases hpc₁.symm.trans ht
    exact (h.soFar _ f hm.call _ hm.pc).mono fun l hl => ⟨by rintro ⟨⟩, hl⟩

theorem ReportInv.step {b : Action} (h : ReportInv setup c log) (hc : Contained setup c b)
    (hs : step setup c b = some c') : ReportInv setup c' (log ++ (event setup c b).toList) := by
  cases b with
  | lifecycle b =>
    cases b with
    | call p request =>
      simp only [Initialization.step, stepLifecycle] at hs
      split at hs
      · rename_i hadmits
        obtain ⟨w, hw, rfl⟩ := Option.map_eq_some_iff.1 hs
        exact h.pushed hadmits hw
      · cases hs
    | step p ok =>
      obtain ⟨n, f, f', hm⟩ := step_stepped hs
      exact h.stepped hm hc
  | mutex b =>
    obtain ⟨m, hm, rfl⟩ := Option.map_eq_some_iff.1 hs
    simp only [event, Option.toList_none, List.append_nil]
    exact ⟨h.calls, h.mutex.mutex hm, h.unthrown, h.contained, h.reported, h.soFar⟩
  | signalsMissing p =>
    simp only [event, Option.toList_none, List.append_nil]
    exact h.missed hs
  | notify p => exact h.notify hs
  | register registry =>
    cases hs
    simp only [event, Option.toList_none, List.append_nil]
    exact ⟨h.calls, h.mutex, h.unthrown, h.contained, h.reported, h.soFar⟩

theorem reportInv_reachable {managed : Bool} {x : State × List Event}
    (h : (system setup managed).ReachableWhen (fun x b => Contained setup x.1 b) x) : ReportInv setup x.1 x.2 := by
  refine h.invariant (I := fun x => ReportInv setup x.1 x.2) (fun x hx => ?_) fun x b y hi hc hs => ?_
  · obtain ⟨⟨w, policy, registry, hw, hx⟩, hl⟩ := hx
    rw [hx, hl]
    have hcalls := callsOk_reachable (.init hw : (Lifecycle.system managed).Reachable w)
    obtain ⟨free, start, precision, rfl⟩ := hw
    refine ⟨hcalls, mutexInv_free _, fun a f hf he => ?_, fun a => List.not_mem_nil, fun a status l₁ l₂ hl => ?_, ?_⟩
    · rcases start_call hf with ⟨g, -, rfl⟩ | ⟨-, rfl⟩ <;> cases he
    · simp at hl
    · intro a f hf t ht
      rcases start_call hf with ⟨g, -, rfl⟩ | ⟨-, rfl⟩ <;> cases ht
  · obtain ⟨hst, hl⟩ := System.logged_step.1 hs
    rw [hl]
    exact hi.step hc hst

/-! ## Calls go on -/

theorem execInitialize_rank {t t' : InitializePc} (h : execInitialize s p t ok = some (s', .goto t'))
    (ht : t.transition = none) : t'.rank < t.rank := by
  by_cases hl : t = .lockConfiguration
  · subst hl
    simp only [execInitialize] at h
    split at h <;> cases h
    decide
  · obtain ⟨s₁, next, hex, hlt⟩ := execInitialize_lowers (s := s) (p := p) (k := ok) t ht hl
    rw [hex] at h
    cases h
    exact hlt t' rfl

theorem execStart_rank {t t' : StartPc} (h : execStart s p t ok = some (s', .goto t')) (ht : t.transition = none) :
    t'.rank < t.rank := by
  by_cases hl : t = .initializeThread .lockConfiguration
  · subst hl
    simp only [execStart, execInitialize] at h
    split at h <;> cases h
    decide
  · obtain ⟨s₁, next, hex, hlt⟩ := execStart_lowers (s := s) (p := p) (k := ok) t ht hl
    rw [hex] at h
    cases h
    exact hlt t' rfl

/-- Every step of `Initialize` or `Start` lowers the rank of the call. -/
theorem initializes_rank {f₁ : Frame} (h : FrameStep s p f ok s' (some f₁)) (hok : f.Ok a)
    (hi : f.pc.initializes = true) : f₁.rank < f.rank := by
  have hclean : ∀ t, f.pc ≠ .cleanUp t := by
    intro t ht
    rw [ht] at hi
    cases hi
  have htransition : ∀ tr, f.transition = some tr → f.pc.transition ≠ none := fun tr htr => by
    rw [hok.transition tr htr]
    exact Option.some_ne_none _
  have hrank : ∀ {pc : Pc}, pc.rank < f.pc.rank → Frame.rank { f with pc := pc, transition := none } < f.rank := by
    intro pc hlt
    simp only [Frame.rank]
    omega
  cases h.goto with
  | inTransition tr tr' s' htr hst =>
    have := stepTransition_rank hst
    simp only [Frame.rank, htr]
    omega
  | transitionStart expected newState htr hpc =>
    simp only [Frame.rank, htr, StateTransition.start, TransitionPc.rank]
    omega
  | transitionDone tr s' stored threw pc htr hst hn => exact hrank (resume_rank hn (htransition tr htr) hclean)
  | exec s' pc htr hpc hex =>
    refine hrank ?_
    generalize f.pc = x at hex hi hpc
    cases exec_goto hex with
    | initializeThread t t' ht => exact execInitialize_rank ht hpc
    | start t t' ht => exact execStart_rank ht hpc
    | _ => cases hi

theorem initializeAt_rank {t u : InitializePc} {pc : Pc} (h : pc.initializePc = some t) :
    (initializeAt u pc).rank + t.rank = pc.rank + u.rank := by
  cases pc with
  | initializeThread t₁ => cases h; exact Nat.add_comm ..
  | start t₁ =>
    cases t₁ <;> cases h
    simp only [initializeAt, Pc.rank, StartPc.rank]
    omega
  | _ => cases h

theorem returns_or_lowers {n : Nat} {b : Action} (hcalls : CallsOk c.world) (hd : c.world.depth p = n + 1)
    (hi : (c.world.frames (p, n)).pc.initializes = true) (hb : b.runs p) (hs : step setup c b = some c') :
    c'.world.call (p, n) = none ∨ work setup c' (p, n) < work setup c (p, n) := by
  cases b with
  | register => exact absurd hb id
  | mutex b =>
    have hlocks : b = .lock p ∨ b = .unlock p := by
      cases b with
      | lock q => exact .inl (congrArg _ hb)
      | unlock q => exact .inr (congrArg _ hb)
      | _ => exact absurd hb id
    obtain ⟨m, hm, rfl⟩ := Option.map_eq_some_iff.1 hs
    have := stepMutex_rank hm hlocks
    right
    simp only [work]
    omega
  | signalsMissing q =>
    obtain rfl : q = p := hb
    obtain ⟨m, f, f₁, hm⟩ := step_missed hs
    obtain rfl : m = n := by have := hm.depth; omega
    obtain ⟨-, hf⟩ := World.call_eq_some.1 hm.call
    have hf₁ : c'.world.frames (q, m) = f₁ :=
      (World.call_eq_some.1 (by rw [hm.calls, Function.update_self])).2
    have hpc := initializeAt_rank (u := .onInitializationFailed .exitSignalUnavailable) hm.pc
    have hlt : f₁.rank + 1 ≤ f.rank := by
      rw [hm.after]
      simp only [InitializePc.rank] at hpc
      simp only [Frame.rank]
      omega
    have hmul := Nat.mul_le_mul_left (setup.observers.length + 1) hlt
    rw [Nat.mul_succ] at hmul
    have hsame : c'.toNotify = c.toNotify ∧ c'.mutex = c.mutex := by
      rw [hm.state]
      exact ⟨rfl, rfl⟩
    right
    simp only [work, hf, hf₁, hsame]
    omega
  | notify q =>
    obtain rfl : q = p := hb
    obtain ⟨m, f, status, o, rest, hd', -, -, ho, rfl, -⟩ := step_notified hs
    obtain rfl : m = n := by omega
    right
    simp only [work, ho, Function.update_self, List.length_cons]
    omega
  | lifecycle b =>
    cases b with
    | call => exact absurd hb id
    | step q ok =>
      obtain rfl : q = p := hb
      obtain ⟨m, f, f', hm⟩ := step_stepped hs
      obtain rfl : m = n := by have := hm.depth; omega
      obtain ⟨-, hf⟩ := World.call_eq_some.1 hm.call
      cases f' with
      | none => exact .inl (by rw [hm.calls, Function.update_self])
      | some f₁ =>
        right
        have hf₁ : c'.world.frames (q, m) = f₁ :=
          (World.call_eq_some.1 (by rw [hm.calls, Function.update_self])).2
        have hlt := initializes_rank hm.frame (hcalls _ f hm.call) (hf ▸ hi)
        -- The observers are counted in when they are yet to be told.
        have hlen : (c'.toNotify (q, m)).length ≤ setup.observers.length + (c.toNotify (q, m)).length := by
          by_cases ht : ∃ status, f.pc.initializePc = some (.onInitializationFailed status)
          · obtain ⟨status, ht⟩ := ht
            rw [hm.toNotify_of_callback ht, Function.update_self]
            omega
          · rw [hm.toNotify fun status hs => ht ⟨status, hs⟩]
            omega
        have hmul : (setup.observers.length + 1) * (f₁.rank + 1) ≤ (setup.observers.length + 1) * f.rank :=
          Nat.mul_le_mul_left _ hlt
        rw [Nat.mul_succ] at hmul
        have hphase := after_rank c.mutex (.step q ok) q
        simp only [work, hf, hf₁, hm.mutex]
        omega

/-! Where a call does not wait it has a step. -/

theorem stepFrame_ensureRegistered (hpc : f.pc.initializePc = some .ensureRegistered) (htr : f.transition = none) :
    ∃ r, stepFrame s p f ok = some r := by
  obtain ⟨pc, tr, after⟩ := f
  obtain rfl : tr = none := htr
  cases pc with
  | initializeThread t => cases hpc; exact ⟨_, rfl⟩
  | start t =>
    cases t with
    | initializeThread t => cases hpc; exact ⟨_, rfl⟩
    | _ => cases hpc
  | _ => cases hpc

theorem stepFrame_lockConfiguration (hpc : f.pc.initializePc = some .lockConfiguration) (htr : f.transition = none)
    (hl : s.configurationLocked = false) : ∃ r, stepFrame s p f ok = some r := by
  have hex : execInitialize s p .lockConfiguration ok =
      some ({ s with configurationLocked := true }, .goto .recheckHandle) := by
    simp [execInitialize, hl]
  obtain ⟨pc, tr, after⟩ := f
  obtain rfl : tr = none := htr
  cases pc with
  | initializeThread t =>
    cases hpc
    exact ⟨_, by simp only [stepFrame, Pc.transition, InitializePc.transition, exec, hex]; rfl⟩
  | start t =>
    cases t with
    | initializeThread t =>
      cases hpc
      exact ⟨_, by
        simp only [stepFrame, Pc.transition, StartPc.transition, InitializePc.transition, exec, execStart, hex]
        rfl⟩
    | _ => cases hpc
  | _ => cases hpc

theorem step_of_frame {w : World} {n : Nat} (hrun : w.runnable p = true) (hd : w.depth p = n + 1)
    (h : ∃ r, stepFrame w.shared p (w.frames (p, n)) ok = some r) : ∃ w', Lifecycle.step w (.step p ok) = some w' := by
  obtain ⟨⟨s', f'⟩, hs⟩ := h
  cases f' <;> simp [Lifecycle.step, hrun, hd, hs]

/-- A call that does not wait makes a step, whatever it is at. -/
theorem stepFrame_enabled (hok : f.Ok a) (hi : f.pc.initializes = true)
    (hl : f.transition ≠ none → s.transitionOwner = none ∨ s.transitionOwner = some p)
    (hc : f.transition = none → f.pc.initializePc = some .lockConfiguration → s.configurationLocked = false) :
    ∃ r, stepFrame s p f true = some r := by
  by_cases hlock : f.pc.initializePc = some .lockConfiguration
  · have htr : f.transition = none := hok.no_transition (Pc.transition_of_initializePc hlock)
    exact stepFrame_lockConfiguration hlock htr (hc htr hlock)
  · have hclean : ∀ t, f.pc ≠ .cleanUp t := by
      intro t ht
      rw [ht] at hi
      cases hi
    have hadvances : f.pc.advances s = true := by
      cases hpc : f.pc with
      | initializeThread t =>
        cases t
        case lockConfiguration => exact absurd (by rw [hpc]; rfl) hlock
        all_goals rfl
      | start t =>
        cases t with
        | initializeThread t =>
          cases t
          case lockConfiguration => exact absurd (by rw [hpc]; rfl) hlock
          all_goals rfl
        | _ => rfl
      | _ => rw [hpc] at hi; cases hi
    obtain ⟨s', f', hs, -⟩ := stepFrame_lowers hok hclean hl fun _ _ => hadvances
    exact ⟨_, hs⟩

/-- `_ensureRegistered` returns or throws. -/
theorem ensureRegistered_result (setup : Setup) (c : State) : ∃ k c₁, ensureRegistered setup c k = some c₁ := by
  unfold ensureRegistered
  by_cases hr : c.registered = true
  · exact ⟨true, c, by simp [hr]⟩
  · refine ⟨false, c, ?_⟩
    rw [if_neg hr]
    split <;> first | rfl | cases ‹_ = _›

/-- A call that waits for nothing has the mutex where it needs it, or takes or
leaves it. -/
theorem admitted (hm : MutexInv c.world c.mutex) (htop : c.world.top p = some f) (hrun : c.world.runnable p = true)
    (hw : ¬ Waits c p f) :
    (∃ b m, (b = .lock p ∨ b = .unlock p) ∧ stepMutex c.world c.mutex b = some m) ∨
      ((∀ k, c.mutex.admits c.world (.step p k) = true) ∧ (f.pc.guard = none → c.mutex.phase p = .idle)) := by
  have hguard : c.world.guard p = f.pc.guard := by simp [World.guard, htop]
  by_cases hheld : c.mutex.holder = some (.task p)
  · have hphase := (hm.holder p).2 hheld
    cases hp : c.mutex.phase p with
    | checking | leaving => exact .inl ⟨.unlock p, _, .inr rfl, by simp only [stepMutex, if_pos hrun, hp]; rfl⟩
    | inside =>
      have hne := hm.inside p hp
      refine .inr ⟨fun k => ?_, fun hno => absurd (hguard.trans hno) hne⟩
      cases hg : c.world.guard p with
      | none => exact absurd hg hne
      | some guard =>
        cases guard with
        | access => simp [Mutex.admits, hg, hp]
        | dispatch =>
          have hroom : c.mutex.full = false := by
            by_contra hfull
            exact hw (.room (hguard.symm.trans hg) hp (by simpa using hfull))
          simp [Mutex.admits, hg, hp, hroom]
    | idle | checked =>
      rw [hp] at hphase
      cases hphase
  · cases hg : c.world.guard p with
    | none =>
      have hidle := hm.idle hg hheld
      exact .inr ⟨fun k => by simp [Mutex.admits, hg, hidle], fun _ => hidle⟩
    | some k =>
      have hfree : c.mutex.holder = none := by
        by_contra hne
        obtain ⟨h, hh⟩ := Option.ne_none_iff_exists'.1 hne
        have hother : h ≠ .task p := by
          rintro rfl
          exact hheld hh
        exact hw (.dispatcher h (by rw [← hguard, hg]; exact Option.some_ne_none _) hother hh)
      obtain ⟨phase, -, hl⟩ := hm.locks hg hfree hrun
      exact .inl ⟨.lock p, _, .inl rfl, hl⟩

theorem goesOn (hcalls : CallsOk c.world) (hm : MutexInv c.world c.mutex) (htop : c.world.top p = some f)
    (hi : f.pc.initializes = true) : Waits c p f ∨ ∃ b c', b.runs p ∧ step setup c b = some c' := by
  by_cases hw : Waits c p f
  · exact .inl hw
  · right
    obtain ⟨n, hd, hf⟩ := World.call_of_top htop
    have hok := hcalls _ f hf
    obtain ⟨-, hfr⟩ := World.call_eq_some.1 hf
    have hrun : c.world.runnable p = true := by
      by_contra hne
      exact hw (.deleted (Bool.eq_false_iff.2 hne))
    have hlock : f.transition ≠ none → c.world.shared.transitionOwner = none ∨
        c.world.shared.transitionOwner = some p := by
      intro htr
      cases ho : c.world.shared.transitionOwner with
      | none => exact .inl rfl
      | some q =>
        by_cases hq : q = p
        · exact .inr (by rw [hq])
        · exact absurd (.transition q htr hq ho) hw
    have hconf : f.transition = none → f.pc.initializePc = some .lockConfiguration →
        c.world.shared.configurationLocked = false := by
      intro htr hpc
      by_contra hne
      exact hw (.configuration htr hpc (by simpa using hne))
    rcases admitted hm htop hrun hw with ⟨b, m, hb, hs⟩ | ⟨hadmits, hidle⟩
    · refine ⟨.mutex b, { c with mutex := m }, ?_, by simp [step, hs]⟩
      rcases hb with rfl | rfl <;> rfl
    -- The lifecycle has a step; the registration decides how it ends.
    have hlifecycle : ∀ {k : Bool} {c₁ : State}, stepReport setup c (p, n) k = some c₁ →
        (∃ w', Lifecycle.step c.world (.step p k) = some w') →
        ∃ b c', b.runs p ∧ step setup c b = some c' := by
      intro k c₁ hreport hstep
      obtain ⟨w', hw'⟩ := hstep
      exact ⟨.lifecycle (.step p k), { c₁ with world := w', mutex := c.mutex.after (.step p k) }, rfl, by
        simp [step, stepLifecycle, hadmits, hd, hreport, hw']⟩
    have henabled : ∃ w', Lifecycle.step c.world (.step p true) = some w' :=
      step_of_frame hrun hd (hfr ▸ stepFrame_enabled hok hi hlock hconf)
    have hframe : (c.world.frames (p, n)).pc.initializePc = f.pc.initializePc := by rw [hfr]
    cases hpc : f.pc.initializePc with
    | none =>
      have hreport : stepReport setup c (p, n) true = some c := by simp only [stepReport, hframe, hpc]
      exact hlifecycle hreport henabled
    | some t =>
      cases t
      case ensureRegistered =>
        obtain ⟨k, c₁, hk⟩ := ensureRegistered_result setup c
        have hreport : stepReport setup c (p, n) k = ensureRegistered setup c k := by
          simp only [stepReport, hframe, hpc]
        have htr := hok.no_transition (Pc.transition_of_initializePc hpc)
        exact hlifecycle (hreport.trans hk) (step_of_frame hrun hd (hfr ▸ stepFrame_ensureRegistered hpc htr))
      case loadHandle =>
        by_cases hsignals : setup.signals = true
        · have hreport : stepReport setup c (p, n) true = some c := by
            simp only [stepReport, hframe, hpc, if_pos hsignals]
          exact hlifecycle hreport henabled
        · have hphase := hidle (Pc.guard_of_initializePc hpc)
          exact ⟨.signalsMissing p, _, rfl, by
            simp only [step, stepSignalsMissing, hd]
            rw [if_pos ⟨by simpa using hsignals, hrun, hphase, by rw [hfr, hpc]⟩]⟩
      case notifyInitializationFailed status =>
        cases ho : c.toNotify (p, n) with
        | nil =>
          have hreport : stepReport setup c (p, n) true = some c := by simp only [stepReport, hframe, hpc, if_pos ho]
          exact hlifecycle hreport henabled
        | cons o rest =>
          have hn : notifying c p = some ((p, n), status) := by simp [notifying, hd, hfr, hpc]
          exact ⟨.notify p, _, rfl, by simp only [step, if_pos hrun, hn, Option.bind_some, ho]; rfl⟩
      all_goals
        exact hlifecycle (k := true) (by simp only [stepReport, hframe, hpc]; rfl) henabled

/-- Every call of `Initialize` and `Start` returns, and `Initialize` reports
its failures once, while registration succeeds and callbacks are contained. -/
theorem initialize_reports (setup : Setup) (managed : Bool) (x : State × List Event)
    (h : (system setup managed).ReachableWhen (fun x b => Contained setup x.1 b) x) : Total setup x.1 x.2 := by
  have hi := reportInv_reachable h
  exact ⟨hi.contained, hi.reported, fun p f htop hf => goesOn hi.calls hi.mutex htop hf,
    fun p n b c' hd hf hb hs => returns_or_lowers hi.calls hd hf hb hs⟩

/-! ## Two runs -/

instance (setup : Setup) (c : State) (b : Action) : Decidable (Contained setup c b) :=
  match b with
  | .lifecycle (.step p ok) =>
    inferInstanceAs (Decidable (∀ f ∈ c.world.top p,
      (f.pc.initializePc = some .ensureRegistered → c.accepts setup = true ∧ ok = true) ∧
      (escapes f.pc = true → ∀ tr ∈ f.transition, tr.pc = .loadInitializing →
        c.world.shared.initializingTask ≠ some p)))
  | .lifecycle (.call _ _) | .mutex _ | .signalsMissing _ | .notify _ | .register _ => isTrue trivial

/-- A thread with its signals, a callback and two observers, on two cores. -/
def observed : Setup := ⟨1, 2, true, true, [1, 2]⟩

/-- Steps of application task 0 that need no mutex. -/
def unguardedSteps (n : Nat) : List Action := (steps (.app 0) n).map .lifecycle

/-- A step of application task 0 under the mutex. -/
def guardedStep : List Action :=
  [.mutex (.lock (.app 0)), .lifecycle (.step (.app 0) true), .mutex (.unlock (.app 0))]

/-- Application task 0 initializes a thread that is not registered yet, and
`OnInitialization` throws. The record is sent in `Dispatch`. -/
def reportedFailure : List Action :=
  .lifecycle (.call (.app 0) .initializeThread) :: unguardedSteps 3 ++ guardedStep ++ unguardedSteps 11 ++
    .lifecycle (.step (.app 0) false) :: unguardedSteps 24 ++
    [.mutex (.lock (.app 0)), .mutex (.unlock (.app 0))] ++ guardedStep ++ unguardedSteps 3 ++
    [.notify (.app 0), .notify (.app 0)] ++ unguardedSteps 2

/-- The thread before it is registered, with a registry. -/
def deferred (registry : Registry) : State × List Event :=
  (State.start (newThread false false) .deferredUntilInitialize registry, [])

theorem deferred_init (registry : Registry) : (system observed false).init (deferred registry) :=
  ⟨⟨_, _, registry, newThread_init false false, rfl⟩, rfl⟩

theorem failure_reported : ∃ x, (system observed false).ReachableWhen (fun x b => Contained observed x.1 b) x ∧
    x.2 = [.called (.app 0, 0), .onInitializationFailed (.app 0, 0) .initializationException,
      .onThreadInitializationFailed (.app 0, 0) 1 .initializationException,
      .onThreadInitializationFailed (.app 0, 0) 2 .initializationException,
      .returned (.app 0, 0) .initializationException] ∧ Total observed x.1 x.2 := by
  have hrun : ((system observed false).replayWhen (fun x b => Contained observed x.1 b) (deferred ⟨[], 0⟩)
      reportedFailure).map (fun x => x.2) =
      some [.called (.app 0, 0), .onInitializationFailed (.app 0, 0) .initializationException,
        .onThreadInitializationFailed (.app 0, 0) 1 .initializationException,
        .onThreadInitializationFailed (.app 0, 0) 2 .initializationException,
        .returned (.app 0, 0) .initializationException] := by
    decide +kernel
  obtain ⟨x, hs, hx⟩ := Option.map_eq_some_iff.1 hrun
  have hr := Transition.System.reachableWhen_of_replayWhen (deferred_init ⟨[], 0⟩) hs
  exact ⟨x, hr, hx, initialize_reports observed false x hr⟩

/-- A registry in which every ID is taken. -/
def fullRegistry : Registry := ⟨(List.range 256).map fun i => ⟨UInt8.ofNat i, i + 2, 0⟩, 0⟩

theorem fullRegistry_idInUse (id : UInt8) : fullRegistry.idInUse id = true := by
  refine List.any_eq_true.2 ⟨⟨id, id.toNat + 2, 0⟩, List.mem_map.2 ⟨id.toNat, ?_, ?_⟩, ?_⟩
  · exact List.mem_range.2 id.toNat_lt
  · simp
  · simp

/-- `AddThread` throws `ThreadLimitExceededException`. -/
theorem fullRegistry_refuses :
    fullRegistry.insert observed.coreCount observed.self true 0 = .error .limitExceeded := by
  have hnew : fullRegistry.findThread observed.self = none := by
    refine List.find?_eq_none.2 fun record hr => ?_
    obtain ⟨i, -, rfl⟩ := List.mem_map.1 hr
    simp [observed]
  exact Registry.insert_refused hnew (Registry.recordID_assigned.1.2 ⟨rfl, fullRegistry_idInUse⟩)

/-- An exception of `AddThread` leaves `Initialize`, and nothing is reported. -/
theorem refusal_escapes {registry : Registry} {e : Manager.RegistrationError}
    (h : registry.insert observed.coreCount observed.self true 0 = .error e) :
    ∃ c, (system observed false).Reachable (c, [.called (.app 0, 0), .threw (.app 0, 0)]) := by
  let c : State := { (deferred registry).1 with world := (newThread false false).push (.app 0) .initializeThread }
  have hcalled : (system observed false).step (deferred registry) (.lifecycle (.call (.app 0) .initializeThread)) =
      some (c, [.called (.app 0, 0)]) := rfl
  have hregister : stepReport observed c (.app 0, 0) false = some c := by
    have hadd : c.addThread observed = .error e := h
    show ensureRegistered observed c false = some c
    simp only [ensureRegistered, hadd]
    rfl
  obtain ⟨c', hstep⟩ : ∃ c', step observed c (.lifecycle (.step (.app 0) false)) = some c' := by
    show ∃ c', (stepReport observed c (.app 0, 0) false).bind _ = some c'
    rw [hregister]
    exact ⟨_, rfl⟩
  have hthrew : (system observed false).step (c, [.called (.app 0, 0)]) (.lifecycle (.step (.app 0) false)) =
      some (c', [.called (.app 0, 0), .threw (.app 0, 0)]) := System.logged_step.2 ⟨hstep, rfl⟩
  exact ⟨c', .step (.step (.init (deferred_init registry)) trivial hcalled) trivial hthrew⟩

/-- With a full registry `ThreadLimitExceededException` leaves `Initialize`. -/
theorem limit_escapes : ¬ ∀ setup managed x, (system setup managed).Reachable x → Total setup x.1 x.2 := by
  intro hall
  obtain ⟨c, hr⟩ := refusal_escapes fullRegistry_refuses
  exact (hall observed false _ hr).contained (.app 0, 0) (by simp)

end ESPressio.Initialization
