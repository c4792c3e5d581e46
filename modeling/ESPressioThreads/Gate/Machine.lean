import ESPressioThreads.Lifecycle.Workers
import ESPressioThreads.Lifecycle.Sequential
/-!
# The start gate

The lifecycle of a thread whose unbounded waits may fail: a worker that fails
to wait for its gate goes to the end of `_taskEntry`, past `_loop`, and
`Shutdown` goes on without the exit signal. A log shows the cycles: the worker
that `Initialize` creates, the user code it calls until it gives the gate, the
`Give`, the worker past the gate, and the status that is returned.
-/

namespace ESPressio.Gate

open Transition ESPressio.Thread ESPressio.Lifecycle

/-! ## Waits that fail -/

inductive Action
  | lifecycle (a : Lifecycle.Action)
  | waitFails (p : TaskId)
  deriving DecidableEq, Repr

/-- Where a call goes on when its wait for a signal fails. -/
def waitFailed : Pc → Option Pc
  | .worker g .waitGate => some (.worker g .beginFinalization)
  | .shutdown .waitExited => some (.shutdown .loadPending)
  | _ => none

def stepWaitFails (w : World) (p : TaskId) : Option World :=
  if w.runnable p then
    match w.depth p with
    | 0 => none
    | n + 1 => (waitFailed (w.frames (p, n)).pc).map fun pc => w.setFrame (p, n) { w.frames (p, n) with pc := pc }
  else none

def step (w : World) : Action → Option World
  | .lifecycle a => Lifecycle.step w a
  | .waitFails p => stepWaitFails w p

/-- The lifecycle of a thread that no manager cleans up. -/
def lifecycle : System World Action where
  init := (Lifecycle.system false).init
  step := step

/-! ## The log -/

inductive Event
  | created (g : Gen)
  /-- `OnInitialization` or a callback of the initialization has returned. -/
  | called (g : Gen)
  | opened (g : Gen)
  /-- The worker has passed its gate, and enters `_loop`. -/
  | entered (g : Gen)
  | onLoop (g : Gen)
  | returned (status : ThreadInitializationStatus)
  deriving DecidableEq, Repr

/-- The worker that `Initialize` has created, until it has given the gate, or
has given the worker up and left its record. -/
def initializing : InitializePc → Option Gen
  | .publish g | .unlockConfiguration g | .storeInitializing g | .storeInProgress g | .onInitialization g
  | .readAfterInitialization g | .setInitialized g | .readAfterInitialized g | .loadStartOnInitialize g
  | .setRunning g | .giveGate g | .stopTerminated g | .catchTerminate g _ | .catchTerminated g | .exchangeTask g _
  | .deleteTask g _ _ | .beginFinalization g _ | .storePending g _ | .send g _ => some g
  | _ => none

def initializeEvent (s : Shared) (ok : Bool) : InitializePc → Option Event
  | .create => if ok then some (.created s.created) else none
  | .onInitialization g => some (.called g)
  | .giveGate g => if ok then some (.opened g) else none
  | .finished status => some (.returned status)
  | _ => none

def workerEvent (s : Shared) (g : Gen) : WorkerPc → Option Event
  | .waitGate => some (.entered g)
  | .loop => if s.threadState = .running then some (.onLoop g) else none
  | _ => none

/-- What the next step of a call shows. A callback shows when it returns. -/
def callEvent (s : Shared) (f : Frame) (ok : Bool) : Option Event :=
  match f.transition with
  | some _ => if f.userCode then (f.pc.initializePc.bind initializing).map .called else none
  | none =>
    match f.pc with
    | .initializeThread pc | .start (.initializeThread pc) => initializeEvent s ok pc
    | .worker g pc => workerEvent s g pc
    | _ => none

def event (w : World) : Action → Option Event
  | .lifecycle (.step p ok) => (w.top p).bind fun f => callEvent w.shared f ok
  | .lifecycle (.call _ _) | .waitFails _ => none

/-- The lifecycle of a thread with the log of its cycles. -/
def cycles : System (World × List Event) Action := lifecycle.logged event

/-- No call of `Initialize` or `Start` enters `_initialize` while another one is in it. -/
def Apart (x : World × List Event) : Action → Prop
  | .lifecycle a => EntersAlone x.1 a
  | .waitFails _ => True

/-! ## What is claimed -/

/-- A worker enters `_loop` once its own `Initialize` has given the gate, with
all user code of the initialization behind it, and never if that `Initialize`
fails; and a signal is never one of an earlier cycle. -/
structure GateHolds (w : World) (log : List Event) : Prop where
  entered : ∀ g l₁ l₂, log = l₁ ++ .entered g :: l₂ → .opened g ∈ l₁ ∧ .called g ∉ l₂
  opened : ∀ g l₁ l₂, log = l₁ ++ .opened g :: l₂ → .created g ∈ l₁ ∧ .called g ∉ l₂
  returned : ∀ g, .entered g ∈ log → ∀ a f t, w.call a = some f → f.pc.initializePc = some t → initializing t ≠ some g
  onLoop : ∀ g l₁ l₂, log = l₁ ++ .onLoop g :: l₂ → .entered g ∈ l₁
  failed : ∀ g l₀ l₁ status l₂, log = l₀ ++ .created g :: (l₁ ++ .returned status :: l₂) →
    (∀ status, .returned status ∉ l₁) → status ≠ .success → .entered g ∉ log
  signal : w.shared.taskStartGate = true → ∃ g, w.shared.created = g + 1 ∧ .opened g ∈ log

/-! ## Steps -/

variable {w w' : World} {p : TaskId} {b : Action}

/-- A failed wait moves the program counter of the last call of its task. -/
theorem waitFails_update (h : step w (.waitFails p) = some w') : w.runnable p = true ∧ w'.shared = w.shared ∧
    ∃ n f pc, w.call (p, n) = some f ∧ waitFailed f.pc = some pc ∧
      w'.call = Function.update w.call (p, n) (some { f with pc := pc }) := by
  simp only [step, stepWaitFails] at h
  split at h
  · rename_i hrun
    split at h
    · cases h
    · rename_i n hd
      obtain ⟨pc, hpc, rfl⟩ := Option.map_eq_some_iff.1 h
      refine ⟨hrun, rfl, n, w.frames (p, n), pc, by simp [World.call, hd], hpc, ?_⟩
      funext b
      simp only [World.call, World.setFrame_depth, World.setFrame_frames, Function.update_apply]
      by_cases hb : b = (p, n)
      · simp [hb, hd]
      · simp [hb]
  · cases h

/-- A failed wait is of a worker at its gate, or of `Shutdown`. -/
theorem waitFailed_cases {pc pc' : Pc} (h : waitFailed pc = some pc') :
    (∃ g, pc = .worker g .waitGate ∧ pc' = .worker g .beginFinalization) ∨
      (pc = .shutdown .waitExited ∧ pc' = .shutdown .loadPending) := by
  unfold waitFailed at h
  split at h <;> cases h
  · exact .inl ⟨_, rfl, rfl⟩
  · exact .inr ⟨rfl, rfl⟩

/-- What every step keeps holds in every state of a run. -/
theorem invariant_reachable {I : World → Prop} {x : World × List Event}
    (h0 : ∀ free start precision, I (.start (.start free start precision false)))
    (hs : ∀ w a w', I w → Lifecycle.step w a = some w' → I w')
    (hf : ∀ w p w', I w → step w (.waitFails p) = some w' → I w') (h : cycles.ReachableWhen Apart x) : I x.1 := by
  refine h.invariant (I := fun x => I x.1) (fun x hx => ?_) fun x b y hi _ hst => ?_
  · obtain ⟨⟨free, start, precision, hw⟩, -⟩ := hx
    rw [hw]
    exact h0 free start precision
  · obtain ⟨hst, -⟩ := System.logged_step.1 hst
    cases b with
    | lifecycle a => exact hs _ a _ hi hst
    | waitFails p => exact hf _ p _ hi hst

theorem callsOk_waitFails (h : CallsOk w) (hs : step w (.waitFails p) = some w') : CallsOk w' := by
  obtain ⟨-, -, n, f, pc, hf, hpc, hcall⟩ := waitFails_update hs
  have hok := h _ f hf
  rw [CallsOk, hcall]
  refine forall_call_update (fun f₁ hf₁ => ?_) fun b f₁ _ hb => h b f₁ hb
  cases hf₁
  rcases waitFailed_cases hpc with ⟨g, ht, rfl⟩ | ⟨ht, rfl⟩
  · have htr := hok.no_transition (by rw [ht]; rfl)
    refine ⟨fun tr h' => ?_, fun g' t' h' => ?_, (by rintro _ ⟨⟩)⟩
    · rw [htr] at h'
      cases h'
    · cases h'
      exact hok.worker g _ ht
  · have htr := hok.no_transition (by rw [ht]; rfl)
    refine ⟨fun tr h' => ?_, (by rintro _ _ ⟨⟩), (by rintro _ ⟨⟩)⟩
    rw [htr] at h'
    cases h'

theorem callsOk_reachable {x : World × List Event} (h : cycles.ReachableWhen Apart x) : CallsOk x.1 := by
  refine invariant_reachable (fun free start precision a f hf => ?_) (fun w a w' hi hs => hi.step hs)
    (fun w p w' hi hs => callsOk_waitFails hi hs) h
  rcases start_call hf with ⟨g, rfl, rfl⟩ | ⟨rfl, rfl⟩
  · exact ok_waitGate g
  · exact ok_receive

theorem unmanaged_reachable {x : World × List Event} (h : cycles.ReachableWhen Apart x) : Unmanaged x.1 := by
  refine invariant_reachable (fun free start precision => ⟨rfl, fun a f hf t ht => ?_⟩)
    (fun w a w' hi hs => hi.step hs) (fun w p w' hi hs => ?_) h
  · rcases start_call hf with ⟨g, -, rfl⟩ | ⟨-, rfl⟩ <;> cases ht
  · obtain ⟨-, hshared, n, f, pc, hf, hpc, hcall⟩ := waitFails_update hs
    refine ⟨by rw [hshared]; exact hi.managed, ?_⟩
    rw [hcall]
    refine forall_call_update (fun f₁ hf₁ t ht => ?_) fun b f₁ _ hb => hi.calls b f₁ hb
    cases hf₁
    rcases waitFailed_cases hpc with ⟨g, -, rfl⟩ | ⟨-, rfl⟩ <;> cases ht

/-- At most one call is in `Initialize`. -/
theorem alone_reachable {x : World × List Event} (h : cycles.ReachableWhen Apart x) : AloneInInitialize x.1 := by
  refine h.invariant (I := fun x => AloneInInitialize x.1) (fun x hx => ?_) fun x b y hi hc hst => ?_
  · obtain ⟨⟨free, start, precision, hw⟩, -⟩ := hx
    rw [hw]
    exact (oneInitializer_start _).alone
  · obtain ⟨hst, -⟩ := System.logged_step.1 hst
    cases b with
    | lifecycle a => exact hi.step hc hst
    | waitFails p =>
      obtain ⟨-, -, n, f, pc, hf, hpc, hcall⟩ := waitFails_update hst
      -- The call that failed to wait is not in `Initialize`.
      have hold : ∀ a f₁, y.1.call a = some f₁ → f₁.pc.initializePc ≠ none → x.1.call a = some f₁ := by
        rw [hcall]
        refine forall_call_update (fun f₁ hf₁ hne => ?_) fun a f₁ _ ha _ => ha
        cases hf₁
        rcases waitFailed_cases hpc with ⟨g, -, rfl⟩ | ⟨-, rfl⟩ <;> exact absurd rfl hne
      exact fun a c f₁ g hf₁ hg hfi hgi => hi a c f₁ g (hold a f₁ hf₁ hfi) (hold c g hg hgi) hfi hgi

end ESPressio.Gate
