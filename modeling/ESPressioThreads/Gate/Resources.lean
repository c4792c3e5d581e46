import ESPressioThreads.Gate.Machine
/-!
# The worker that may pass the gate

Of the workers that can still run, only the last one created is not suspended.
It has the task handle, or a call of `Initialize` that has just created or is
about to delete it. While a record is outstanding there is none, so the
dispatcher deletes no worker that could pass a gate, and `Initialize` finds
none under the configuration lock.
-/

namespace ESPressio.Gate

open Transition ESPressio.Thread ESPressio.Lifecycle

variable {w w' : World} {p : TaskId} {ok : Bool} {f : Frame} {f' : Option Frame} {g : Gen}
  {a : TaskId × Nat} {l l' : Option Stage} {r r' : Registers} {st : Stage}

/-! ## Stages and their tasks -/

/-- The worker that has the stage in hand. -/
def worker : Stage → Option Gen
  | .looping g | .claimed g (some _) | .sending g (some _) => some g
  | .unsent (some g) => some g
  | _ => none

/-- The stages of a record that is being dispatched. -/
def dispatched : Stage → Bool
  | .dispatching _ | .deleting _ _ | .delivering _ | .signalled _ => true
  | _ => false

/-- The stages that `Initialize` has in hand. -/
def initializes (st : Stage) : Bool := !dispatched st && (worker st).isNone && !st.rest

theorem initializePc_of_stage {pc : Pc} (h : pc.stage = some st) (hi : initializes st = true) :
    pc.initializePc ≠ none := by
  cases pc with
  | initializeThread t => exact Option.some_ne_none _
  | start t =>
    cases t with
    | initializeThread t => exact Option.some_ne_none _
    | _ => cases h
  | worker g t => cases t <;> cases h <;> cases hi
  | dispatcher t => cases t <;> cases h <;> cases hi
  | _ => cases h

theorem worker_of_stage {pc : Pc} (h : pc.stage = some st) (hw : worker st = some g) :
    ∃ t, pc = .worker g t ∧ t ≠ .suspended := by
  have hno : ∀ {t : InitializePc}, t.stage = some st → False := by
    intro t ht
    cases t <;> cases ht <;> cases hw
  cases pc with
  | initializeThread t => exact (hno h).elim
  | start t =>
    cases t with
    | initializeThread t => exact (hno h).elim
    | _ => cases h
  | worker g' t => cases t <;> cases h <;> cases hw <;> exact ⟨_, rfl, nofun⟩
  | dispatcher t => cases t <;> cases h <;> cases hw
  | _ => cases h

theorem dispatching_eq (pc : Pc) : pc.dispatching = pc.stage.any dispatched := by
  cases pc with
  | initializeThread t => cases t with | _ => rfl
  | start t =>
    cases t with
    | initializeThread t => cases t with | _ => rfl
    | _ => rfl
  | worker g t => cases t <;> rfl
  | dispatcher t => cases t <;> rfl
  | _ => rfl

theorem dispatcher_of_dispatching (pc : Pc) (h : pc.dispatching = true) : ∃ t, pc = .dispatcher t := by
  cases pc <;> first | exact ⟨_, rfl⟩ | cases h

/-! ## The invariant -/

/-- The worker can run, and is not suspended. -/
structure Live (w : World) (g : Gen) : Prop where
  created : g < w.shared.created
  killed : g ∉ w.shared.killed
  entry : ∃ t, w.entry g = some (.worker g t) ∧ t ≠ .suspended

/-- There is no worker to pass a gate, and no record. -/
structure Quiet (w : World) : Prop where
  live : ∀ g, ¬ Live w g
  outstanding : w.outstanding = 0

/-- What `Initialize` keeps a worker by, without its handle. -/
def keeps : Stage → Option Gen
  | .made g => some g
  | .failing _ task => task
  | _ => none

/-- What holds while a call has the stage in hand. -/
def Holds (w : World) : Stage → Prop
  | .checked | .exitedReset => w.shared.taskHandle = none ∧ Quiet w
  | .gateReset | .ready => w.shared.taskHandle = none ∧ Quiet w ∧ w.shared.taskStartGate = false
  | .made g => w.shared.taskHandle = none ∧ g + 1 = w.shared.created
  | .live g => g + 1 = w.shared.created
  | .failing _ _ => w.shared.taskHandle = none
  | .failed _ => ∀ g, ¬ Live w g
  | .claimed _ none => Quiet w ∧ w.shared.taskExitFinalizationStarted = true
  | .sending _ none =>
    Quiet w ∧ w.shared.taskExitFinalizationStarted = true ∧ w.shared.terminationDispatchPending = true
  | .unsent none => Quiet w
  | .claimed g (some _) => Live w g → w.shared.taskExitFinalizationStarted = true
  | .sending g (some _) => Live w g →
      w.shared.taskExitFinalizationStarted = true ∧ w.shared.terminationDispatchPending = true
  | _ => True

structure ResourceInv (w : World) : Prop where
  last : ∀ g, Live w g → g + 1 = w.shared.created
  task : ∀ g, Live w g → w.shared.taskHandle = some g ∨ ∃ a f st, w.call a = some f ∧ f.pc.stage = some st ∧
    keeps st = some g
  holds : ∀ a f, w.call a = some f → ∀ st, f.pc.stage = some st → Holds w st
  records : w.outstanding ≤ 1
  outstanding : 0 < w.outstanding → w.shared.terminationDispatchPending = true ∧
    w.shared.taskExitFinalizationStarted = true ∧ ∀ g, ¬ Live w g
  noTask : ∀ a f, w.call a = some f → f.pc.initializePc = some .loadPending → w.shared.taskHandle = none
  quiet : ∀ a f, w.call a = some f → ∀ t, f.pc.initializePc = some t → t.foundQuiet = true → Quiet w
  fresh : ∀ g, w.shared.created ≤ g → w.entry g = some (.worker g .waitGate)

/-! ## What the protocol leaves -/

theorem Move.created_cases (hm : Move l r l' r') : r'.created = r.created ∨
    (l = some .ready ∧ l' = some (.made r.created) ∧ r'.created = r.created + 1) := by
  cases hm with
  | create => exact .inr ⟨rfl, rfl, rfl⟩
  | _ => exact .inl rfl

theorem Move.handle_cases (hm : Move l r l' r') : r'.taskHandle = r.taskHandle ∨
    (∃ g, l = some (.made g) ∧ r.taskHandle = none ∧ r'.taskHandle = some g) ∨
    (r'.taskHandle = none ∧ ((∃ g, l' = some (.failing g r.taskHandle)) ∨ ∃ g, l = some (.dispatching g))) := by
  cases hm with
  | publish g _ hh => exact .inr (.inl ⟨g, rfl, hh, rfl⟩)
  | fail g => exact .inr (.inr ⟨rfl, .inl ⟨g, rfl⟩⟩)
  | exchange g => exact .inr (.inr ⟨rfl, .inr ⟨g, rfl⟩⟩)
  | _ => exact .inl rfl

theorem Move.started_cases (hm : Move l r l' r') (h : r.taskExitFinalizationStarted = true) :
    r'.taskExitFinalizationStarted = true ∨ l = some .gateReset := by
  cases hm with
  | resetFinalization => exact .inr rfl
  | finalize | exit => exact .inl rfl
  | _ => exact .inl h

theorem Move.pending_cases (hm : Move l r l' r') (h : r.terminationDispatchPending = true) :
    r'.terminationDispatchPending = true ∨ (∃ task, l = some (.unsent task)) ∨
      ∃ g, l = some (.signalled g) ∧ l' = none := by
  cases hm with
  | clearUnsent task => exact .inr (.inl ⟨task, rfl⟩)
  | clearPending g => exact .inr (.inr ⟨g, rfl, rfl⟩)
  | storePending => exact .inl rfl
  | _ => exact .inl h

theorem Move.gate_cases (hm : Move l r l' r') (h : r'.taskStartGate = true) :
    r.taskStartGate = true ∨ ∃ g, l = some (.live g) ∧ l' = none := by
  cases hm with
  | giveGate g => exact .inr ⟨g, rfl, rfl⟩
  | resetGate | enter => cases h
  | _ => exact .inl h

theorem Move.queue_cases (hm : Move l r l' r') : (r'.queue = r.queue ∧ l'.any dispatched = l.any dispatched) ∨
    (∃ g task, l = some (.sending g task) ∧ l' = none ∧ r'.queue = r.queue ++ [g]) ∨
    (∃ g, l = none ∧ l' = some (.dispatching g) ∧ r.queue = g :: r'.queue) ∨
    ∃ g, l = some (.signalled g) ∧ l' = none ∧ r'.queue = r.queue := by
  cases hm with
  | send g task => exact .inr (.inl ⟨g, task, rfl, rfl, rfl⟩)
  | receive g queue _ hq => exact .inr (.inr (.inl ⟨g, rfl, rfl, hq⟩))
  | clearPending g => exact .inr (.inr (.inr ⟨g, rfl, rfl, rfl⟩))
  | _ => exact .inl ⟨rfl, rfl⟩

/-! ## What a step leaves -/

/-- A step of a call, which may be a wait that fails. -/
structure Moved (w : World) (p : TaskId) (ok : Bool) (w' : World) (a : TaskId × Nat) (f : Frame)
    (f' : Option Frame) : Prop where
  task : a.1 = p
  runnable : w.runnable p = true
  call : w.call a = some f
  frame : FrameStep w.shared p f ok w'.shared f'
  calls : w'.call = Function.update w.call a f'
  move : Move f.pc.stage w.shared.registers (stageAfter f') w'.shared.registers

theorem moved (hok : CallsOk w) (hu : Unmanaged w) (hs : Lifecycle.step w (.step p ok) = some w') :
    ∃ a f f', w.top p = some f ∧ Moved w p ok w' a f f' := by
  obtain ⟨hrun, a, f, f', ha, htop, hf, hstep, hcall⟩ := step_update hs
  refine ⟨a, f, f', htop, ha, hrun, hf, hstep, hcall, ?_⟩
  refine hstep.move (hok a f hf) (hu.top f htop) fun g hg => ?_
  obtain rfl : p = .worker g := ha ▸ hg
  simpa [World.runnable] using hrun

theorem entry_update (h : w'.call = Function.update w.call a f') :
    w'.entry g = if a = (.worker g, 0) then f'.map (·.pc) else w.entry g := by
  simp only [World.entry, h, Function.update_apply, eq_comm (a := a)]
  split <;> rfl

/-- A worker that runs is live. -/
theorem live_of_call {t : WorkerPc} (hrun : w.runnable (.worker g) = true) (hf : w.call (.worker g, 0) = some f)
    (hpc : f.pc = .worker g t) (ht : t ≠ .suspended) : Live w g := by
  have hr : g < w.shared.created ∧ g ∉ w.shared.killed := by simpa [World.runnable] using hrun
  exact ⟨hr.1, hr.2, t, by simp [World.entry, hf, hpc], ht⟩

theorem Moved.live_worker (hm : Moved w p ok w' a f f') (hok : f.Ok a) {t : WorkerPc} (hpc : f.pc = .worker g t) :
    a = (.worker g, 0) ∧ Live w g := by
  have ha := hok.worker g t hpc
  have hp : p = .worker g := by rw [← hm.task, ha]
  refine ⟨ha, live_of_call (hp ▸ hm.runnable) (ha ▸ hm.call) hpc fun ht => ?_⟩
  exact hm.frame.not_suspended hok (g := g) (by rw [hpc, ht])

theorem Moved.live_stage (hm : Moved w p ok w' a f f') (hok : f.Ok a) (hst : f.pc.stage = some st)
    (hw : worker st = some g) : a = (.worker g, 0) ∧ Live w g := by
  obtain ⟨t, hpc, -⟩ := worker_of_stage hst hw
  exact hm.live_worker hok hpc

/-- No step makes a worker live but its creation. -/
theorem Moved.live (hm : Moved w p ok w' a f f') (hok : f.Ok a) (h : Live w' g) : Live w g ∨
    (f.pc.stage = some .ready ∧ stageAfter f' = some (.made g) ∧ g = w.shared.created) := by
  obtain ⟨t, ht, hne⟩ := h.entry
  by_cases ha : a = (.worker g, 0)
  · left
    rw [entry_update hm.calls, if_pos ha] at ht
    obtain ⟨f₁, rfl, hpc₁⟩ := Option.map_eq_some_iff.1 ht
    obtain ⟨t₀, hpc⟩ := hm.frame.method.1 g t hpc₁
    exact (hm.live_worker hok hpc).2
  · rw [entry_update hm.calls, if_neg ha] at ht
    have hkilled : g ∉ w.shared.killed := fun hk => h.killed (hm.move.killed hk)
    rcases Move.created_cases hm.move with hc | ⟨hl, hl', hc⟩
    · have hc : w'.shared.created = w.shared.created := hc
      exact .inl ⟨hc ▸ h.created, hkilled, t, ht, hne⟩
    · have hc : w'.shared.created = w.shared.created + 1 := hc
      have hlt := Nat.lt_of_lt_of_eq h.created hc
      by_cases hg : g < w.shared.created
      · exact .inl ⟨hg, hkilled, t, ht, hne⟩
      · have hg' : g = w.shared.created := Nat.le_antisymm (Nat.le_of_lt_succ hlt) (Nat.not_lt.1 hg)
        exact .inr ⟨hl, hg' ▸ hl', hg'⟩

/-- No step leads to the gate. -/
theorem not_waitGate {s s' : Shared} {f₁ : Frame} (h : FrameStep s p f ok s' (some f₁)) (hok : f.Ok a) :
    f₁.pc ≠ .worker g .waitGate := by
  intro hpc
  cases h.goto with
  | inTransition tr tr' s' htr =>
    have := hok.transition tr htr
    rw [show f.pc = .worker g .waitGate from hpc] at this
    cases this
  | transitionStart expected newState htr ht =>
    rw [show f.pc = .worker g .waitGate from hpc] at ht
    cases ht
  | transitionDone tr s' stored threw pc htr hst hn =>
    generalize f.pc = x at hn
    cases resume_goto hn with
    | worker g t t' ht =>
      cases hpc
      cases t with
      | terminate u =>
        obtain ⟨y, -, he⟩ | ⟨_, -, he⟩ := Next.inside_goto ht
        · cases he
        · cases he
      | _ => cases ht
    | _ => cases hpc
  | exec s' pc htr ht hex =>
    generalize f.pc = x at hex
    cases exec_goto hex with
    | worker g t t' hworker =>
      cases hpc
      cases t <;> simp only [execWorker] at hworker
      case terminate u =>
        obtain ⟨-, hn⟩ := Prod.mk.inj (Option.some.inj hworker)
        obtain ⟨y, -, he⟩ | ⟨_, -, he⟩ := Next.inside_goto hn
        · cases he
        · cases he
      case loop =>
        obtain ⟨-, hn⟩ := Prod.mk.inj (Option.some.inj hworker)
        split at hn <;> cases hn
      case onLoop =>
        obtain ⟨-, hn⟩ := Prod.mk.inj (Option.some.inj hworker)
        split at hn <;> cases hn
      all_goals first
        | cases hworker
        | (split at hworker <;> cases hworker)
    | _ => cases hpc

/-! ## Records -/

theorem outstanding_eq (w : World) : w.outstanding =
    w.shared.queue.length + if (w.stages (.dispatcher, 0)).any dispatched then 1 else 0 := by
  unfold World.outstanding World.stages
  cases w.call (.dispatcher, 0) with
  | none => rfl
  | some f => simp only [Option.any_some, dispatching_eq, Option.bind_some]

theorem Moved.stages (hm : Moved w p ok w' a f f') (b : TaskId × Nat) :
    w'.stages b = if b = a then stageAfter f' else w.stages b := by
  rw [World.stages_update hm.calls, Function.update_apply]

theorem Moved.stage (hm : Moved w p ok w' a f f') : w.stages a = f.pc.stage := by
  simp [World.stages, hm.call]

theorem dispatcher_of_stage (hok : f.Ok a) (h : f.pc.stage = some st) (hd : dispatched st = true) :
    a = (.dispatcher, 0) := by
  obtain ⟨t, ht⟩ := dispatcher_of_dispatching f.pc (by rw [dispatching_eq, h]; exact hd)
  exact hok.dispatcher t ht

/-- A record is sent, and its dispatch ends by the clearing of the flag. -/
theorem Moved.outstanding (hm : Moved w p ok w' a f f') (hok : f.Ok a) :
    (w'.outstanding = w.outstanding ∧ ∀ g, f.pc.stage = some (.signalled g) → stageAfter f' ≠ none) ∨
    (∃ g task, f.pc.stage = some (.sending g task) ∧ stageAfter f' = none ∧ w'.outstanding = w.outstanding + 1) ∨
    ∃ g, f.pc.stage = some (.signalled g) ∧ stageAfter f' = none ∧ w.outstanding = w'.outstanding + 1 := by
  have hstages := hm.stages (.dispatcher, 0)
  have hself := hm.stage
  rw [outstanding_eq w', outstanding_eq w, hstages]
  rcases Move.queue_cases hm.move with ⟨hq, hd⟩ | ⟨g, task, hl, hl', hq⟩ | ⟨g, hl, hl', hq⟩ | ⟨g, hl, hl', hq⟩
  · have hq : w'.shared.queue = w.shared.queue := hq
    refine .inl ⟨?_, fun g hl hl' => ?_⟩
    · rw [hq]
      split
      · rename_i ha
        rw [ha, hself, hd]
      · rfl
    · rw [hl, hl'] at hd
      cases hd
  · have hq : w'.shared.queue = w.shared.queue ++ [g] := hq
    refine .inr (.inl ⟨g, task, hl, hl', ?_⟩)
    rw [hq, List.length_append, List.length_singleton]
    split
    · rename_i ha
      rw [ha, hself, hl, hl']
      rfl
    · omega
  · have hq : w.shared.queue = g :: w'.shared.queue := hq
    have ha : a = (.dispatcher, 0) := by
      obtain ⟨f₁, rfl, hf₁⟩ := Option.bind_eq_some_iff.1 hl'
      obtain ⟨t, ht⟩ := dispatcher_of_dispatching f₁.pc (by rw [dispatching_eq, hf₁]; rfl)
      obtain ⟨t₀, ht₀⟩ := hm.frame.method.2.1 t ht
      exact hok.dispatcher t₀ ht₀
    refine .inl ⟨?_, fun x hs => absurd (hl.symm.trans hs) nofun⟩
    rw [if_pos ha.symm, ← ha, hself, hl, hl', hq]
    rfl
  · have hq : w'.shared.queue = w.shared.queue := hq
    have ha := dispatcher_of_stage hok hl rfl
    refine .inr (.inr ⟨g, hl, hl', ?_⟩)
    rw [if_pos ha.symm, ← ha, hself, hl, hl', hq]
    rfl

theorem outstanding_pos (hf : w.call a = some f) (hok : f.Ok a) (hst : f.pc.stage = some st)
    (hd : dispatched st = true) : 0 < w.outstanding := by
  have ha := dispatcher_of_stage hok hst hd
  have hstage : w.stages (.dispatcher, 0) = some st := by rw [← ha]; simp [World.stages, hf, hst]
  rw [outstanding_eq, hstage, Option.any_some, hd]
  exact Nat.succ_pos _

/-! ## What a stage keeps -/

/-- Nothing becomes live and no record is sent but by the two steps of `Initialize`. -/
theorem Quiet.moved (hq : Quiet w) (hm : Moved w p ok w' a f f') (hok : f.Ok a)
    (hcreate : ∀ g, f.pc.stage = some .ready → stageAfter f' ≠ some (.made g))
    (hsend : ∀ g, f.pc.stage = some (.sending g none) → stageAfter f' ≠ none) : Quiet w' := by
  refine ⟨fun g hg => ?_, ?_⟩
  · rcases hm.live hok hg with hg | ⟨hl, hl', -⟩
    · exact hq.live g hg
    · exact hcreate g hl hl'
  · have hzero := hq.outstanding
    rcases hm.outstanding hok with ⟨he, -⟩ | ⟨g, task, hl, hl', -⟩ | ⟨g, -, -, he⟩
    · rw [he, hzero]
    · cases task with
      | none => exact absurd hl' (hsend g hl)
      | some x => exact absurd (hm.live_stage hok hl rfl).2 (hq.live g)
    · omega

/-- The calls of `Initialize` are one. -/
theorem Moved.not_initializing (hm : Moved w p ok w' a f f') (hone : AloneInInitialize w) {b : TaskId × Nat}
    {f₁ : Frame} (hne : b ≠ a) (hb : w.call b = some f₁) (hi : f₁.pc.initializePc ≠ none) :
    f.pc.initializePc = none := by
  by_contra hc
  exact hne (hone b a f₁ f hb hm.call hi hc)

theorem not_initializes (hn : f.pc.initializePc = none) (hst : f.pc.stage = some st) : initializes st = false := by
  by_contra hi
  exact initializePc_of_stage hst (by simpa using hi) hn

theorem Quiet.moved_other (hq : Quiet w) (hm : Moved w p ok w' a f f') (hok : f.Ok a)
    (hn : f.pc.initializePc = none) : Quiet w' :=
  hq.moved hm hok (fun _ hl => absurd (not_initializes hn hl) nofun)
    fun _ hl => absurd (not_initializes hn hl) nofun

/-- A stage whose facts the step leaves as they were. -/
theorem Holds.keep (h : Holds w st) (hh : w.shared.taskHandle = none → w'.shared.taskHandle = none)
    (hq : Quiet w → Quiet w') (hlive : ∀ g, Live w' g → Live w g) (hc : w'.shared.created = w.shared.created)
    (hg : w.shared.taskStartGate = false → w'.shared.taskStartGate = false)
    (hs : w.shared.taskExitFinalizationStarted = true → w'.shared.taskExitFinalizationStarted = true)
    (hp : Quiet w ∨ (∃ g, worker st = some g ∧ Live w g) → w.shared.terminationDispatchPending = true →
      w'.shared.terminationDispatchPending = true) : Holds w' st := by
  cases st with
  | checked | exitedReset => exact ⟨hh h.1, hq h.2⟩
  | gateReset | ready => exact ⟨hh h.1, hq h.2.1, hg h.2.2⟩
  | made g => exact ⟨hh h.1, h.2.trans hc.symm⟩
  | live g => exact Eq.trans h hc.symm
  | failing g task => exact hh h
  | failed g => exact fun x hx => h x (hlive x hx)
  | claimed g task =>
    cases task with
    | none => exact ⟨hq h.1, hs h.2⟩
    | some x => exact fun hx => hs (h (hlive g hx))
  | sending g task =>
    cases task with
    | none => exact ⟨hq h.1, hs h.2.1, hp (.inl h.1) h.2.2⟩
    | some x =>
      intro hx
      have hx := hlive g hx
      exact ⟨hs (h hx).1, hp (.inr ⟨g, rfl, hx⟩) (h hx).2⟩
  | unsent task =>
    cases task with
    | none => exact hq h
    | some x => trivial
  | quiet | gated | looping | lost | queued | dispatching | deleting | delivering | signalled => trivial

/-- A live worker with a stage in hand was live, and the others leave the flags
of its exit. -/
theorem ResourceInv.live_other (h : ResourceInv w) (hm : Moved w p ok w' a f f') (hok : f.Ok a)
    {b : TaskId × Nat} {f₁ : Frame} (hne : b ≠ a) (hb : w.call b = some f₁) (hokb : f₁.Ok b)
    (hst : f₁.pc.stage = some st) (hw : worker st = some g) (hlive : Live w' g) : Live w g ∧
      (w.shared.taskExitFinalizationStarted = true → w'.shared.taskExitFinalizationStarted = true) ∧
      (w.shared.terminationDispatchPending = true → w'.shared.terminationDispatchPending = true) := by
  obtain ⟨t, hpc, -⟩ := worker_of_stage hst hw
  have hbw := hokb.worker g t hpc
  have hg : Live w g := by
    rcases hm.live hok hlive with hg | ⟨-, -, hg⟩
    · exact hg
    · -- A worker that is not created has no stage in hand.
      have hentry := h.fresh g (Nat.le_of_eq hg.symm)
      rw [World.entry, ← hbw, hb, Option.map_some, Option.some.injEq] at hentry
      rw [hentry] at hst
      cases hst
  refine ⟨hg, fun hs => ?_, fun hp => ?_⟩
  · rcases Move.started_cases hm.move hs with he | hl
    · exact he
    · exact absurd hg ((h.holds a f hm.call _ hl).2.1.live g)
  · rcases Move.pending_cases hm.move hp with he | ⟨task, hl⟩ | ⟨x, hl, -⟩
    · exact he
    · cases task with
      | none => exact absurd hg (Quiet.live (h.holds a f hm.call _ hl) g)
      | some x =>
        obtain ⟨ha, hx⟩ := hm.live_stage hok hl rfl
        obtain rfl : x = g := Nat.succ.inj ((h.last x hx).trans (h.last g hg).symm)
        exact absurd (hbw.trans ha.symm) hne
    · exact absurd hg ((h.outstanding (outstanding_pos hm.call hok hl rfl)).2.2 g)

/-- What another call has in hand holds on. -/
theorem ResourceInv.holds_other (h : ResourceInv w) (hm : Moved w p ok w' a f f') (hok : f.Ok a)
    (hone : AloneInInitialize w) {b : TaskId × Nat} {f₁ : Frame} (hne : b ≠ a) (hb : w.call b = some f₁)
    (hokb : f₁.Ok b) (hst : f₁.pc.stage = some st) : Holds w' st := by
  have hholds := h.holds b f₁ hb st hst
  by_cases hi : initializes st = true
  · have hnone := hm.not_initializing hone hne hb (initializePc_of_stage hst hi)
    have hno : ∀ {x}, initializes x = true → f.pc.stage ≠ some x :=
      fun hx hl => absurd (not_initializes hnone hl) (by rw [hx]; nofun)
    refine hholds.keep (fun hh => ?_) (fun hq => hq.moved_other hm hok hnone) (fun g hg => ?_) ?_ (fun hg => ?_)
      (fun hs => ?_) fun hq hp => ?_
    · rcases Move.handle_cases hm.move with he | ⟨g, hl, -⟩ | ⟨he, -⟩
      · exact Eq.trans he hh
      · exact absurd hl (hno rfl)
      · exact he
    · rcases hm.live hok hg with hg | ⟨hl, -⟩
      · exact hg
      · exact absurd hl (hno rfl)
    · rcases Move.created_cases hm.move with he | ⟨hl, -⟩
      · exact he
      · exact absurd hl (hno rfl)
    · by_contra hg'
      rcases Move.gate_cases hm.move (Bool.not_eq_false _ ▸ hg') with he | ⟨g, hl, -⟩
      · exact absurd (Eq.trans hg.symm he) nofun
      · exact hno rfl hl
    · rcases Move.started_cases hm.move hs with he | hl
      · exact he
      · exact absurd hl (hno rfl)
    · have hq : Quiet w := by
        rcases hq with hq | ⟨g, hw, -⟩
        · exact hq
        · rw [initializes, hw] at hi
          simp at hi
      rcases Move.pending_cases hm.move hp with he | ⟨task, hl⟩ | ⟨g, hl, -⟩
      · exact he
      · cases task with
        | none => exact absurd hl (hno rfl)
        | some g => exact absurd (hm.live_stage hok hl rfl).2 (hq.live g)
      · have := outstanding_pos hm.call hok hl rfl
        have := hq.outstanding
        omega
  · cases st with
    | claimed g task =>
      cases task with
      | none => exact absurd rfl hi
      | some x =>
        intro hlive
        obtain ⟨hg, hs, -⟩ := h.live_other hm hok hne hb hokb hst rfl hlive
        exact hs (hholds hg)
    | sending g task =>
      cases task with
      | none => exact absurd rfl hi
      | some x =>
        intro hlive
        obtain ⟨hg, hs, hp⟩ := h.live_other hm hok hne hb hokb hst rfl hlive
        exact ⟨hs (hholds hg).1, hp (hholds hg).2⟩
    | unsent task =>
      cases task with
      | none => exact absurd rfl hi
      | some x => trivial
    | quiet | gated | looping | lost | queued | dispatching | deleting | delivering | signalled => trivial
    | checked | exitedReset | gateReset | ready | made | live | failing | failed => exact absurd rfl hi

/-! ## The stage a call comes to -/

/-- A call of `Initialize` that has deleted the task it had exchanged leaves no worker. -/
theorem ResourceInv.deleted (h : ResourceInv w) (hm : Moved w p ok w' a f f') (hok : f.Ok a)
    (hone : AloneInInitialize w) (task : Option Gen) (hl : f.pc.stage = some (.failing g task))
    (hk : ∀ x, task = some x → x ∈ w'.shared.killed) : ∀ x, ¬ Live w' x := by
  intro x hx
  rcases hm.live hok hx with hw | ⟨hready, -⟩
  · rcases h.task x hw with hh | ⟨b, f₁, st, hb, hst, hkeep⟩
    · exact absurd ((h.holds a f hm.call _ hl).symm.trans hh) nofun
    · have hi : initializes st = true := by
        cases st <;> first | rfl | cases hkeep
      have hba : b = a := by
        by_contra hne
        exact absurd (not_initializes (hm.not_initializing hone hne hb (initializePc_of_stage hst hi)) hl) nofun
      subst hba
      rw [hm.call] at hb
      cases hb
      rw [hl] at hst
      cases hst
      exact hx.killed (hk x hkeep)
  · rw [hl] at hready
    cases hready

theorem ResourceInv.holds_self (h : ResourceInv w) (hm : Moved w p ok w' a f f') (hok : f.Ok a)
    (hone : AloneInInitialize w) (hl' : stageAfter f' = some st) : Holds w' st := by
  have hmove := hm.move
  have hholds := fun st => h.holds a f hm.call st
  have hquiet : ∀ x, f.pc.stage = some x → (∀ g, st ≠ .made g) → Quiet w → Quiet w' := fun x hx hmade hq =>
    hq.moved hm hok (fun g _ hg => hmade g (Option.some.inj (hl'.symm.trans hg)))
      fun g _ hg => absurd (hl'.symm.trans hg) nofun
  have hlive : (∀ g, st ≠ .made g) → ∀ g, Live w' g → Live w g := by
    intro hmade g hg
    rcases hm.live hok hg with hg | ⟨-, hg, -⟩
    · exact hg
    · exact absurd (Option.some.inj (hl'.symm.trans hg)) (hmade _)
  have hdeleted := fun g task => h.deleted (g := g) hm hok hone task
  have hchecked : f.pc.stage = none → st = .checked → Quiet w := by
    rintro hl rfl
    obtain ⟨f₁, rfl, hf₁⟩ := Option.bind_eq_some_iff.1 hl'
    exact h.quiet a f hm.call _ (hm.frame.recheckHandle hl hf₁) rfl
  -- The registers of the two states.
  have hhandle' : w'.shared.taskHandle = w'.shared.registers.taskHandle := rfl
  have hgate' : w'.shared.taskStartGate = w'.shared.registers.taskStartGate := rfl
  have hstarted' : w'.shared.taskExitFinalizationStarted = w'.shared.registers.taskExitFinalizationStarted := rfl
  have hpending' : w'.shared.terminationDispatchPending = w'.shared.registers.terminationDispatchPending := rfl
  have hcreated' : w'.shared.created = w'.shared.registers.created := rfl
  have hkilled' : w'.shared.killed = w'.shared.registers.killed := rfl
  rw [hl'] at hmove
  generalize hl : f.pc.stage = l at hmove hholds hquiet hchecked hdeleted
  generalize hr : w.shared.registers = r at hmove
  generalize w'.shared.registers = r' at hmove hhandle' hgate' hstarted' hpending' hcreated' hkilled'
  cases hmove with
  | skip =>
    subst hr
    have hst := hholds st rfl
    refine hst.keep (fun hh => Eq.trans hhandle' hh) (fun hq => ?_) (fun g hg => ?_) hcreated'
      (fun hg => Eq.trans hgate' hg) (fun hs => Eq.trans hstarted' hs) fun _ hp => Eq.trans hpending' hp
    · refine hq.moved hm hok (fun g hready hg => ?_) fun g _ hg => absurd (hl'.symm.trans hg) nofun
      exact absurd (hready.symm.trans (hl.trans (hl'.symm.trans hg))) nofun
    · rcases hm.live hok hg with hg | ⟨hready, hg, -⟩
      · exact hg
      · exact absurd (hready.symm.trans (hl.trans (hl'.symm.trans hg))) nofun
  | check _ hh =>
    subst hr
    refine ⟨Eq.trans hhandle' hh, (hchecked rfl rfl).moved hm hok (fun g hready => ?_) fun g hsend => ?_⟩
    · exact absurd (hl.symm.trans hready) nofun
    · exact absurd (hl.symm.trans hsend) nofun
  | resetExited =>
    subst hr
    obtain ⟨hh, hq⟩ := hholds _ rfl
    exact ⟨Eq.trans hhandle' hh, hquiet _ rfl nofun hq⟩
  | resetGate =>
    subst hr
    obtain ⟨hh, hq⟩ := hholds _ rfl
    exact ⟨Eq.trans hhandle' hh, hquiet _ rfl nofun hq, hgate'⟩
  | resetFinalization =>
    subst hr
    obtain ⟨hh, hq, hg⟩ := hholds _ rfl
    exact ⟨Eq.trans hhandle' hh, hquiet _ rfl nofun hq, Eq.trans hgate' hg⟩
  | create =>
    subst hr
    exact ⟨Eq.trans hhandle' (hholds _ rfl).1, hcreated'.symm⟩
  | publish g =>
    subst hr
    exact (hholds _ rfl).2.trans hcreated'.symm
  | fail g => exact hhandle'
  | killNone g => exact hdeleted g none rfl nofun
  | kill g x =>
    refine hdeleted g (some x) rfl fun y hy => ?_
    cases hy
    rw [hkilled']
    exact List.mem_cons_self
  | finalize g _ hs =>
    subst hr
    have hq : Quiet w := ⟨hholds _ rfl, by
      by_contra hne
      exact absurd (hs.symm.trans (h.outstanding (Nat.pos_of_ne_zero hne)).2.1) nofun⟩
    exact ⟨hquiet _ rfl nofun hq, hstarted'⟩
  | exit g => exact fun _ => hstarted'
  | storePending g task =>
    subst hr
    cases task with
    | none =>
      obtain ⟨hq, hs⟩ := hholds _ rfl
      exact ⟨hquiet _ rfl nofun hq, Eq.trans hstarted' hs, hpending'⟩
    | some x => exact fun hx => ⟨Eq.trans hstarted' (hholds _ rfl (hlive nofun g hx)), hpending'⟩
  | sendFailed g task =>
    cases task with
    | none => exact hquiet _ rfl nofun (hholds _ rfl).1
    | some x => trivial
  | enter | receive | exchange | deleteNone | delete | giveExited => trivial

/-! ## Steps keep the invariant -/

theorem ResourceInv.last_moved (h : ResourceInv w) (hm : Moved w p ok w' a f f') (hok : f.Ok a) (hg : Live w' g) :
    g + 1 = w'.shared.created := by
  rcases Move.created_cases hm.move with hc | ⟨hl, -, hc⟩
  · have hc : w'.shared.created = w.shared.created := hc
    rw [hc]
    rcases hm.live hok hg with hg | ⟨-, -, rfl⟩
    · exact h.last g hg
    · exact absurd hg.created (Nat.not_lt.2 (Nat.le_of_eq hc))
  · have hc : w'.shared.created = w.shared.created + 1 := hc
    rw [hc]
    rcases hm.live hok hg with hg | ⟨-, -, rfl⟩
    · exact absurd hg ((h.holds a f hm.call _ hl).2.1.live g)
    · rfl

/-- The task handle, or the call of `Initialize`, goes with the worker. -/
theorem ResourceInv.task_moved (h : ResourceInv w) (hm : Moved w p ok w' a f f') (hok : f.Ok a) (hg : Live w' g) :
    w'.shared.taskHandle = some g ∨ ∃ a f st, w'.call a = some f ∧ f.pc.stage = some st ∧ keeps st = some g := by
  -- What the call that stepped comes to have in hand.
  have hself : ∀ st, stageAfter f' = some st → keeps st = some g →
      ∃ a f st, w'.call a = some f ∧ f.pc.stage = some st ∧ keeps st = some g := by
    intro st hl' hk
    obtain ⟨f₁, rfl, hf₁⟩ := Option.bind_eq_some_iff.1 hl'
    exact ⟨a, f₁, st, by rw [hm.calls, Function.update_self], hf₁, hk⟩
  rcases hm.live hok hg with hw | ⟨-, hmade, rfl⟩
  · rcases h.task g hw with hh | ⟨b, f₁, st, hb, hst, hk⟩
    · rcases Move.handle_cases hm.move with he | ⟨x, -, hnone, -⟩ | ⟨-, ⟨x, hl'⟩ | ⟨x, hl⟩⟩
      · exact .inl (Eq.trans he hh)
      · exact absurd (Eq.trans hnone.symm hh) nofun
      · exact .inr (hself _ hl' hh)
      · exact absurd hw ((h.outstanding (outstanding_pos hm.call hok hl rfl)).2.2 g)
    · by_cases hba : b = a
      · subst hba
        rw [hm.call] at hb
        cases hb
        have hmove := hm.move
        have hhandle := (h.holds b f hm.call st hst)
        have hhandle' : w'.shared.taskHandle = w'.shared.registers.taskHandle := rfl
        have hkilled' : w'.shared.killed = w'.shared.registers.killed := rfl
        generalize hl' : stageAfter f' = l' at hmove hself
        generalize hr : w.shared.registers = r at hmove
        generalize w'.shared.registers = r' at hmove hhandle' hkilled'
        rw [hst] at hmove
        cases hmove with
        | skip => exact .inr (hself st rfl hk)
        | publish x =>
          cases hk
          exact .inl hhandle'
        | publishLost x _ hne =>
          subst hr
          exact absurd hhandle.1 hne
        | kill x y =>
          cases hk
          refine absurd ?_ hg.killed
          rw [hkilled']
          exact List.mem_cons_self
        | _ => cases hk
      · refine .inr ⟨b, f₁, st, ?_, hst, hk⟩
        rw [hm.calls, Function.update_of_ne hba, hb]
  · exact .inr (hself _ hmade rfl)

/-- The worker that has sent its record is suspended. -/
theorem Moved.suspended (hm : Moved w p ok w' a f f') (hok : f.Ok a) (ha : a = (.worker g, 0))
    (hl' : stageAfter f' = none) : ¬ Live w' g := by
  intro hg
  obtain ⟨t, ht, hne⟩ := hg.entry
  rw [entry_update hm.calls, if_pos ha] at ht
  obtain ⟨f₁, rfl, hpc⟩ := Option.map_eq_some_iff.1 ht
  have hstage : t.stage g = none := by
    have := hl'
    rw [stageAfter, Option.bind_some, hpc] at this
    exact this
  cases t with
  | waitGate => exact not_waitGate hm.frame hok hpc
  | suspended => exact hne rfl
  | _ => cases hstage

theorem ResourceInv.outstanding_moved (h : ResourceInv w) (hm : Moved w p ok w' a f f') (hok : f.Ok a) :
    w'.outstanding ≤ 1 ∧ (0 < w'.outstanding → w'.shared.terminationDispatchPending = true ∧
      w'.shared.taskExitFinalizationStarted = true ∧ ∀ g, ¬ Live w' g) := by
  rcases hm.outstanding hok with ⟨he, hclear⟩ | ⟨g, task, hl, hl', he⟩ | ⟨g, -, -, he⟩
  · refine ⟨he ▸ h.records, fun hpos => ?_⟩
    obtain ⟨hp, hs, hnone⟩ := h.outstanding (he ▸ hpos)
    refine ⟨?_, ?_, fun g hg => ?_⟩
    · rcases Move.pending_cases hm.move hp with hp' | ⟨task, hl⟩ | ⟨g, hl, hl'⟩
      · exact hp'
      · cases task with
        | none =>
          have hzero := Quiet.outstanding (h.holds a f hm.call _ hl)
          omega
        | some g => exact absurd (hm.live_stage hok hl rfl).2 (hnone g)
      · exact absurd hl' (hclear g hl)
    · rcases Move.started_cases hm.move hs with hs' | hl
      · exact hs'
      · have hzero := (h.holds a f hm.call _ hl).2.1.outstanding
        omega
    · rcases hm.live hok hg with hg | ⟨hl, -⟩
      · exact hnone g hg
      · have hzero := (h.holds a f hm.call _ hl).2.1.outstanding
        omega
  · -- The record that is sent is the only one.
    have hholds := h.holds a f hm.call _ hl
    obtain ⟨hzero, hs, hp, hnone⟩ : w.outstanding = 0 ∧ w.shared.taskExitFinalizationStarted = true ∧
        w.shared.terminationDispatchPending = true ∧ ∀ x, ¬ Live w' x := by
      cases task with
      | none =>
        obtain ⟨hq, hs, hp⟩ := hholds
        refine ⟨hq.outstanding, hs, hp, fun x hx => ?_⟩
        rcases hm.live hok hx with hx | ⟨hready, -⟩
        · exact hq.live x hx
        · exact absurd (hl.symm.trans hready) nofun
      | some y =>
        obtain ⟨ha, hg⟩ := hm.live_stage hok hl rfl
        refine ⟨?_, (hholds hg).1, (hholds hg).2, fun x hx => ?_⟩
        · by_contra hne
          exact (h.outstanding (Nat.pos_of_ne_zero hne)).2.2 g hg
        · rcases hm.live hok hx with hw | ⟨hready, -⟩
          · obtain rfl : x = g := Nat.succ.inj ((h.last x hw).trans (h.last g hg).symm)
            exact hm.suspended hok ha hl' hx
          · exact absurd (hl.symm.trans hready) nofun
    refine ⟨by omega, fun _ => ⟨?_, ?_, hnone⟩⟩
    · rcases Move.pending_cases hm.move hp with hp' | ⟨task', hl₂⟩ | ⟨x, hl₂, -⟩
      · exact hp'
      · exact absurd (hl.symm.trans hl₂) nofun
      · exact absurd (hl.symm.trans hl₂) nofun
    · rcases Move.started_cases hm.move hs with hs' | hl₂
      · exact hs'
      · exact absurd (hl.symm.trans hl₂) nofun
  · have := h.records
    exact ⟨by omega, fun hpos => by omega⟩

/-- What `Initialize` has found in its first checks. -/
theorem ResourceInv.quiet_of_checks (h : ResourceInv w) (hone : AloneInInitialize w) (hf : w.call a = some f)
    (hpc : f.pc.initializePc = some .loadPending) (hp : w.shared.terminationDispatchPending = false) : Quiet w := by
  refine ⟨fun g hg => ?_, ?_⟩
  · rcases h.task g hg with hh | ⟨b, f₁, st, hb, hst, hk⟩
    · exact absurd ((h.noTask a f hf hpc).symm.trans hh) nofun
    · have hi : initializes st = true := by
        cases st <;> first | rfl | cases hk
      obtain rfl : b = a := hone b a f₁ f hb hf (initializePc_of_stage hst hi) (by simp [hpc])
      rw [hf] at hb
      cases hb
      rw [Pc.stage_of_initializePc hpc] at hst
      cases hst
  · by_contra hne
    exact absurd (hp.symm.trans (h.outstanding (Nat.pos_of_ne_zero hne)).1) nofun

theorem ResourceInv.noTask_moved (h : ResourceInv w) (hm : Moved w p ok w' a f f') (hone : AloneInInitialize w) :
    ∀ b f, w'.call b = some f → f.pc.initializePc = some .loadPending → w'.shared.taskHandle = none := by
  rw [hm.calls]
  refine forall_call_update (fun f₁ hf₁ ht => ?_) fun b f₁ hne hb ht => ?_
  · have hstep := hm.frame
    rw [hf₁] at hstep
    rcases hstep.initializePc ht with ht' | ⟨t, hi, hto⟩
    · cases ht'
    · have hnone : w.shared.taskHandle = none := by
        rcases hto.loadPending with rfl | ⟨-, hh⟩
        · exact h.noTask a f hm.call hi
        · exact hh
      have hstage : f.pc.stage = none := by
        rw [Pc.stage_of_initializePc hi]
        rcases hto.loadPending with rfl | ⟨rfl, -⟩ <;> rfl
      rcases Move.handle_cases hm.move with he | ⟨g, hl, -⟩ | ⟨he, -⟩
      · exact Eq.trans he hnone
      · rw [hstage] at hl
        cases hl
      · exact he
  · have hn := hm.not_initializing hone hne hb (by simp [ht])
    rcases Move.handle_cases hm.move with he | ⟨g, hl, -⟩ | ⟨he, -⟩
    · exact Eq.trans he (h.noTask b f₁ hb ht)
    · exact absurd (not_initializes hn hl) nofun
    · exact he

theorem ResourceInv.quiet_moved (h : ResourceInv w) (hm : Moved w p ok w' a f f') (hok : f.Ok a)
    (hone : AloneInInitialize w) :
    ∀ b f, w'.call b = some f → ∀ t, f.pc.initializePc = some t → t.foundQuiet = true → Quiet w' := by
  rw [hm.calls]
  refine forall_call_update (fun f₁ hf₁ t' ht' hq => ?_) fun b f₁ hne hb t ht hq => ?_
  · have hstep := hm.frame
    rw [hf₁] at hstep
    rcases hstep.initializePc ht' with rfl | ⟨t, hi, hto⟩
    · cases hq
    · obtain ⟨hstage, hquiet⟩ : t.stage = none ∧ Quiet w := by
        rcases hto.foundQuiet hq with hq' | ⟨rfl, hp⟩
        · exact ⟨stage_foundQuiet hq', h.quiet a f hm.call t hi hq'⟩
        · exact ⟨rfl, h.quiet_of_checks hone hm.call hi hp⟩
      have hl : f.pc.stage = none := (Pc.stage_of_initializePc hi).trans hstage
      exact hquiet.moved hm hok (fun _ hready => absurd (hl.symm.trans hready) nofun)
        fun _ hsend => absurd (hl.symm.trans hsend) nofun
  · exact (h.quiet b f₁ hb t ht hq).moved_other hm hok (hm.not_initializing hone hne hb (by simp [ht]))

theorem ResourceInv.moved (h : ResourceInv w) (hm : Moved w p ok w' a f f') (hcalls : CallsOk w)
    (hone : AloneInInitialize w) : ResourceInv w' := by
  have hok := hcalls a f hm.call
  obtain ⟨hrecords, houtstanding⟩ := h.outstanding_moved hm hok
  refine ⟨fun g hg => h.last_moved hm hok hg, fun g hg => h.task_moved hm hok hg, ?_, hrecords, houtstanding,
    h.noTask_moved hm hone, h.quiet_moved hm hok hone, fun g hg => ?_⟩
  · rw [hm.calls]
    refine forall_call_update (fun f₁ hf₁ st hst => h.holds_self hm hok hone (by rw [hf₁]; exact hst))
      fun b f₁ hne hb st hst => h.holds_other hm hok hone hne hb (hcalls b f₁ hb) hst
  · have hcreated : w.shared.created ≤ w'.shared.created := hm.move.created_le
    rw [entry_update hm.calls, if_neg, h.fresh g (Nat.le_trans hcreated hg)]
    -- A worker that is not created does not run.
    rintro rfl
    have hr : g < w.shared.created ∧ g ∉ w.shared.killed := by
      have := hm.runnable
      rw [← hm.task] at this
      simpa [World.runnable] using this
    exact absurd hr.1 (Nat.not_lt.2 (Nat.le_trans hcreated hg))

/-! ## Public calls, and waits that fail -/

/-- A step that moves one call, and no register, stage or check. -/
theorem ResourceInv.aside (h : ResourceInv w) {f₁ : Frame} (hshared : w'.shared = w.shared)
    (hcall : w'.call = Function.update w.call a (some f₁)) (hstage : w.stages a = none)
    (hholds : ∀ st, f₁.pc.stage = some st → ∃ g, st = .looping g)
    (hchecks : ∀ t, f₁.pc.initializePc = some t → t ≠ .loadPending ∧ t.foundQuiet = false)
    (hlive : ∀ g, Live w' g → Live w g) (hfresh : ∀ g, w.shared.created ≤ g → a ≠ (.worker g, 0)) :
    ResourceInv w' := by
  have hout : w'.outstanding = w.outstanding := by
    rw [outstanding_eq, outstanding_eq, hshared, World.stages_update hcall, Function.update_apply]
    split
    · rename_i ha
      rw [ha, hstage]
      cases hst : stageAfter (some f₁) with
      | none => rfl
      | some st =>
        obtain ⟨g, rfl⟩ := hholds st hst
        rfl
    · rfl
  have hquiet : Quiet w → Quiet w' := fun hq => ⟨fun g hg => hq.live g (hlive g hg), hout.trans hq.outstanding⟩
  refine ⟨fun g hg => ?_, fun g hg => ?_, ?_, hout ▸ h.records, fun hpos => ?_, ?_, ?_, fun g hg => ?_⟩
  · rw [hshared]
    exact h.last g (hlive g hg)
  · rw [hshared]
    refine (h.task g (hlive g hg)).imp_right fun ⟨b, f, st, hb, hst, hk⟩ => ⟨b, f, st, ?_, hst, hk⟩
    rw [hcall, Function.update_of_ne, hb]
    rintro rfl
    simp [World.stages, hb, hst] at hstage
  · rw [hcall]
    refine forall_call_update (fun f hf st hst => ?_) fun b f _ hb st hst => ?_
    · cases hf
      obtain ⟨g, rfl⟩ := hholds st hst
      trivial
    · refine (h.holds b f hb st hst).keep ?_ hquiet hlive ?_ ?_ ?_ fun _ => ?_ <;> rw [hshared] <;> exact id
  · obtain ⟨hp, hs, hnone⟩ := h.outstanding (hout ▸ hpos)
    rw [hshared]
    exact ⟨hp, hs, fun g hg => hnone g (hlive g hg)⟩
  · rw [hcall, hshared]
    refine forall_call_update (fun f hf ht => ?_) fun b f _ hb => h.noTask b f hb
    cases hf
    exact absurd rfl (hchecks _ ht).1
  · rw [hcall]
    refine forall_call_update (fun f hf t ht hq => ?_) fun b f _ hb t ht hq => hquiet (h.quiet b f hb t ht hq)
    cases hf
    rw [(hchecks t ht).2] at hq
    cases hq
  · rw [hshared] at hg
    rw [entry_update hcall, if_neg (hfresh g hg)]
    exact h.fresh g hg

theorem ResourceInv.pushed {request : Request} (h : ResourceInv w)
    (hs : Lifecycle.step w (.call p request) = some w') : ResourceInv w' := by
  obtain ⟨hshared, -, a, -, hnone, hcall⟩ := call_update hs
  refine h.aside hshared hcall (by simp [World.stages, hnone]) (fun st hst => ?_) (fun t ht => ?_) (fun g hg => ?_)
    fun g hg => ?_
  · cases request <;> cases hst
  · cases request <;> cases ht
    exact ⟨(by rintro ⟨⟩), rfl⟩
  · obtain ⟨t, ht, hne⟩ := hg.entry
    rw [entry_update hcall] at ht
    split at ht
    · cases request <;> cases ht
    · exact ⟨hshared ▸ hg.created, hshared ▸ hg.killed, t, ht, hne⟩
  · rintro rfl
    have := h.fresh g hg
    simp [World.entry, hnone] at this

theorem ResourceInv.waitFails (h : ResourceInv w) (hcalls : CallsOk w) (hs : step w (.waitFails p) = some w') :
    ResourceInv w' := by
  obtain ⟨hrun, hshared, n, f, pc, hf, hpc, hcall⟩ := waitFails_update hs
  have hok := hcalls _ f hf
  refine h.aside hshared hcall ?_ (fun st hst => ?_) (fun t ht => ?_) (fun g hg => ?_) fun g hg => ?_
  · rcases waitFailed_cases hpc with ⟨g, ht, -⟩ | ⟨ht, -⟩ <;> simp [World.stages, hf, ht] <;> rfl
  · rcases waitFailed_cases hpc with ⟨g, -, rfl⟩ | ⟨-, rfl⟩ <;> cases hst
    exact ⟨g, rfl⟩
  · rcases waitFailed_cases hpc with ⟨g, -, rfl⟩ | ⟨-, rfl⟩ <;> cases ht
  · obtain ⟨t, ht, hne⟩ := hg.entry
    rw [entry_update hcall] at ht
    split at ht
    · rename_i ha
      rcases waitFailed_cases hpc with ⟨x, hx, rfl⟩ | ⟨-, rfl⟩
      · cases ht
        refine live_of_call (w := w) ?_ (ha ▸ hf) hx (by rintro ⟨⟩)
        rw [← (Prod.mk.inj ha).1]
        exact hrun
      · cases ht
    · exact ⟨hshared ▸ hg.created, hshared ▸ hg.killed, t, ht, hne⟩
  · intro ha
    have hr : g < w.shared.created ∧ g ∉ w.shared.killed := by
      rw [(Prod.mk.inj ha).1] at hrun
      simpa [World.runnable] using hrun
    exact absurd hr.1 (Nat.not_lt.2 hg)

theorem resourceInv_start (free start precision : Bool) :
    ResourceInv (.start (.start free start precision false)) := by
  have hlive : ∀ g, ¬ Live (.start (.start free start precision false)) g :=
    fun g hg => absurd hg.created (Nat.not_lt_zero g)
  refine ⟨fun g hg => absurd hg (hlive g), fun g hg => absurd hg (hlive g), fun a f hf st hst => ?_,
    Nat.zero_le _, fun hpos => absurd hpos (Nat.lt_irrefl 0), fun _ _ _ _ => rfl, fun a f hf t ht _ => ?_,
    fun g _ => rfl⟩
  · rcases start_call hf with ⟨g, -, rfl⟩ | ⟨-, rfl⟩ <;> cases hst
  · rcases start_call hf with ⟨g, -, rfl⟩ | ⟨-, rfl⟩ <;> cases ht

theorem resourceInv_reachable {x : World × List Event} (h : cycles.ReachableWhen Apart x) : ResourceInv x.1 := by
  refine h.invariant_with (I := fun x => ResourceInv x.1)
    (J := fun x => CallsOk x.1 ∧ Unmanaged x.1 ∧ AloneInInitialize x.1)
    (fun _ hr => ⟨callsOk_reachable hr, unmanaged_reachable hr, alone_reachable hr⟩) (fun x hx => ?_)
    fun x b y ⟨hcalls, hu, hone⟩ _ hi _ hst => ?_
  · obtain ⟨⟨free, start, precision, hw⟩, -⟩ := hx
    rw [hw]
    exact resourceInv_start free start precision
  · obtain ⟨hst, -⟩ := System.logged_step.1 hst
    cases b with
    | lifecycle b =>
      cases b with
      | call p request => exact hi.pushed hst
      | step p ok =>
        obtain ⟨a, f, f', -, hm⟩ := Gate.moved hcalls hu hst
        exact hi.moved hm hcalls hone
    | waitFails p => exact hi.waitFails hcalls hst

end ESPressio.Gate
