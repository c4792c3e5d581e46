import ESPressioThreads.Lifecycle.Captured
/-!
# Attempts of `Initialize`

An attempt begins when `Initialize` is past its checks, and ends when it
returns. A log shows the attempts, with the thread as each call leaves it, and
what the workers and the queue do. From it one reads what became of the worker
that a failed attempt created, and of its record.
-/

namespace ESPressio.Attempts

open Transition ESPressio.Thread ESPressio.Lifecycle

/-! ## The log -/

inductive Event
  | passedChecks
  | created (g : Gen)
  /-- The worker has passed its start gate. -/
  | released (g : Gen)
  | onLoop (g : Gen)
  | sent (g : Gen)
  /-- A transition has stored `Terminating`. -/
  | terminating
  | returned (status : ThreadInitializationStatus) (s : Shared)
  deriving DecidableEq, Repr

def initializeEvent (s : Shared) (ok : Bool) : InitializePc → Option Event
  | .recheckHandle => if s.taskHandle = none then some .passedChecks else none
  | .create => if ok then some (.created s.created) else none
  | .send g _ => if ok then some (.sent g) else none
  | .finished status => some (.returned status s)
  | _ => none

def workerEvent (s : Shared) (ok : Bool) (g : Gen) : WorkerPc → Option Event
  | .waitGate => some (.released g)
  | .loop => if s.threadState = .running then some (.onLoop g) else none
  | .send => if ok then some (.sent g) else none
  | _ => none

def callEvent (s : Shared) (f : Frame) (ok : Bool) : Option Event :=
  match f.transition with
  | some _ => if f.stores s = some .terminating then some .terminating else none
  | none =>
    match f.pc with
    | .initializeThread pc | .start (.initializeThread pc) => initializeEvent s ok pc
    | .worker g pc => workerEvent s ok g pc
    | _ => none

def event (w : World) : Action → Option Event
  | .call _ _ => none
  | .step p ok => (w.top p).bind fun f => callEvent w.shared f ok

/-- The lifecycle of a thread with the log of its attempts. -/
def attempts : System (World × List Event) Action := (system false).logged event

/-! ## What is claimed -/

/-- The statuses of an attempt that failed. -/
def failed : ThreadInitializationStatus → Bool
  | .taskCreationFailed | .terminatedDuringInitialization | .initializationException => true
  | _ => false

/-- The thread has no task. -/
structure Gone (s : Shared) : Prop where
  handle : s.taskHandle = none
  killed : ∀ g < s.created, g ∈ s.killed

/-- The worker never ran, and left one record. -/
structure Undone (log : List Event) (g : Gen) : Prop where
  released : .released g ∉ log
  onLoop : .onLoop g ∉ log
  record : log.count (.sent g) = 1

/-- The workers that were created. -/
def tasks (log : List Event) : List Gen :=
  log.filterMap fun
    | .created g => some g
    | _ => none

/-- The records that were queued. -/
def records (log : List Event) : List Gen :=
  log.filterMap fun
    | .sent g => some g
    | _ => none

/-- A failed attempt leaves no task. It leaves the thread `Terminated` and one
record if it created a worker, else `Uninitialized` and none; and until the next
attempt no `Initialize` is rejected with `InvalidState`, unless the thread that
never had a worker is terminated. -/
structure FailsCleanly (log : List Event) : Prop where
  clean : ∀ l₀ status s l₂, log = l₀ ++ .returned status s :: l₂ → failed status = true →
    Gone s ∧ ∃ l₁ l, l₀ = l₁ ++ .passedChecks :: l ∧ .passedChecks ∉ l ∧
      ((∃ g, tasks l = [g] ∧ records l = [g] ∧ s.threadState = .terminated ∧ Undone log g) ∨
        (tasks l = [] ∧ records l = [] ∧ s.threadState = .uninitialized))
  retry : ∀ l₀ status s l₁ s' l₂, log = l₀ ++ .returned status s :: (l₁ ++ .returned .invalidState s' :: l₂) →
    failed status = true → .passedChecks ∈ l₁ ∨ (s.threadState = .uninitialized ∧ .terminating ∈ l₁)

/-- The queue takes the record of an attempt; `Give` fails only for a thread
that is `Terminated`; and a thread for which `Create` fails is `Uninitialized`,
and is not terminated before the call returns. -/
def Orderly (w : World) : Action → Prop
  | .call _ _ => True
  | .step p ok => ∀ f, w.top p = some f →
      (∀ t, f.pc.initializePc = some t →
        (∀ g status, t = .send g status → ok = true) ∧
        (∀ g, t = .giveGate g → ok = true ∨ w.shared.threadState = .terminated) ∧
        (t = .create → ok = true ∨ w.shared.threadState = .uninitialized)) ∧
      (f.stores w.shared = some .terminating → w.shared.threadState = .uninitialized →
        ∀ a f₁, w.call a = some f₁ → ∀ t, f₁.pc.initializePc = some t → t.status ≠ some .taskCreationFailed)

/-! ## The events of a step -/

variable {w w' : World} {s s' : Shared} {p : TaskId} {ok : Bool} {f : Frame} {f' : Option Frame} {g : Gen}
  {st st' : Stage} {a : TaskId × Nat} {t : InitializePc} {log : List Event} {e : Event} {l l' : Option Stage}
  {r r' : Registers}

/-- A statement of `Initialize`, but for its last one. -/
theorem exec_initializePc (h : FrameStep s p f ok s' f') (hok : f.Ok a) (hf : f.pc.initializePc = some t)
    (ht : t.transition = none) (hn : ∀ status, t ≠ .finished status) :
    ∃ next, execInitialize s p t ok = some (s', next) ∧
      (∀ t', next = .goto t' → ∃ f₁, f' = some f₁ ∧ f₁.pc.initializePc = some t' ∧ f₁.transition = none) ∧
      ∀ threw, next = .ret threw → f' = none := by
  obtain ⟨next, hex, rfl⟩ := h.exec_of hok ((Pc.transition_of_initializePc hf).trans ht)
  cases hpc : f.pc with
  | initializeThread pc =>
    rw [hpc] at hex hf
    cases hf
    obtain ⟨⟨s₁, n⟩, hs, he⟩ := Option.map_eq_some_iff.1 hex
    cases he
    refine ⟨n, hs, ?_, ?_⟩
    · rintro t' rfl
      exact ⟨_, rfl, rfl, rfl⟩
    · rintro threw rfl
      rfl
  | start pc =>
    rw [hpc] at hex hf
    cases pc with
    | initializeThread pc =>
      cases hf
      obtain ⟨⟨s₁, n⟩, hs, he⟩ := Option.map_eq_some_iff.1 hex
      cases he
      -- Every other statement is the one of `_initialize`.
      have hs' : (execInitialize s p t ok).map (fun r => (r.1, r.2.inside StartPc.initializeThread .ret)) =
          some (s₁, n) := by
        cases t with
        | finished status => exact absurd rfl (hn status)
        | _ => exact hs
      obtain ⟨⟨s₂, m⟩, hx, he⟩ := Option.map_eq_some_iff.1 hs'
      cases he
      refine ⟨m, hx, ?_, ?_⟩
      · rintro t' rfl
        exact ⟨_, rfl, rfl, rfl⟩
      · rintro threw rfl
        rfl
    | _ => cases hf
  | _ => rw [hpc] at hf; cases hf

theorem callEvent_initializePc (htr : f.transition = none) (hf : f.pc.initializePc = some t) :
    callEvent s f ok = initializeEvent s ok t := by
  simp only [callEvent, htr]
  cases hpc : f.pc with
  | initializeThread pc => rw [hpc] at hf; cases hf; rfl
  | start pc =>
    rw [hpc] at hf
    cases pc with
    | initializeThread pc => cases hf; rfl
    | _ => cases hf
  | _ => rw [hpc] at hf; cases hf

/-- The step that an event is of. -/
inductive Shows (s : Shared) (f : Frame) (l' : Option Stage) : Event → Prop
  | passedChecks : f.pc.stage = none → l' = some .checked → Shows s f l' .passedChecks
  | created : f.pc.stage = some .ready → l' = some (.made s.created) → Shows s f l' (.created s.created)
  | released (g : Gen) : f.pc = .worker g .waitGate → l' = some (.looping g) → Shows s f l' (.released g)
  | onLoop (g : Gen) : f.pc = .worker g .loop → Shows s f l' (.onLoop g)
  | sent (g : Gen) (task : Option Gen) : f.pc.stage = some (.sending g task) → l' = none → Shows s f l' (.sent g)
  | terminating : f.stores s = some .terminating → Shows s f l' .terminating
  | returned (status : ThreadInitializationStatus) : f.transition = none →
      f.pc.initializePc = some (.finished status) → Shows s f l' (.returned status s)

theorem stageAfter_of_initializePc {t' : InitializePc} {f₁ : Frame} (h : f' = some f₁)
    (hf : f₁.pc.initializePc = some t') : stageAfter f' = t'.stage := by
  rw [h]
  exact Pc.stage_of_initializePc hf

theorem shows_of_initializePc (h : FrameStep s p f ok s' f') (hok : f.Ok a) (hf : f.pc.initializePc = some t)
    (htr : f.transition = none) (he : initializeEvent s ok t = some e) : Shows s f (stageAfter f') e := by
  have hstage := Pc.stage_of_initializePc hf
  cases t <;> simp only [initializeEvent] at he
  case finished status => cases he; exact .returned status htr hf
  case recheckHandle =>
    obtain ⟨hh, he⟩ := Option.ite_none_right_eq_some.1 he
    cases he
    obtain ⟨next, hex, hgoto, -⟩ := exec_initializePc h hok hf rfl (by rintro _ ⟨⟩)
    simp only [execInitialize, if_pos hh] at hex
    cases hex
    obtain ⟨f₁, rfl, hf₁, -⟩ := hgoto _ rfl
    exact .passedChecks hstage (stageAfter_of_initializePc rfl hf₁)
  case create =>
    obtain ⟨rfl, he⟩ := Option.ite_none_right_eq_some.1 he
    cases he
    obtain ⟨next, hex, hgoto, -⟩ := exec_initializePc h hok hf rfl (by rintro _ ⟨⟩)
    cases hex
    obtain ⟨f₁, rfl, hf₁, -⟩ := hgoto _ rfl
    exact .created hstage (stageAfter_of_initializePc rfl hf₁)
  case send g status =>
    obtain ⟨rfl, he⟩ := Option.ite_none_right_eq_some.1 he
    cases he
    obtain ⟨next, hex, hgoto, -⟩ := exec_initializePc h hok hf rfl (by rintro _ ⟨⟩)
    cases hex
    obtain ⟨f₁, rfl, hf₁, -⟩ := hgoto _ rfl
    exact .sent g none hstage (stageAfter_of_initializePc rfl hf₁)
  all_goals cases he

theorem shows_of_worker {t : WorkerPc} (h : FrameStep s p f ok s' f') (hok : f.Ok a) (hf : f.pc = .worker g t)
    (he : workerEvent s ok g t = some e) : Shows s f (stageAfter f') e := by
  cases t <;> simp only [workerEvent] at he
  case waitGate => cases he; exact .released g hf (h.waitGate hok hf)
  case loop =>
    obtain ⟨-, he⟩ := Option.ite_none_right_eq_some.1 he
    cases he
    exact .onLoop g hf
  case send =>
    obtain ⟨rfl, he⟩ := Option.ite_none_right_eq_some.1 he
    cases he
    obtain ⟨next, hex, rfl⟩ := h.exec_of hok (by rw [hf]; rfl)
    rw [hf] at hex
    cases hex
    exact .sent g (some g) (by rw [hf]; rfl) rfl
  all_goals cases he

theorem shows (h : FrameStep s p f ok s' f') (hok : f.Ok a) (he : callEvent s f ok = some e) :
    Shows s f (stageAfter f') e := by
  cases htr : f.transition with
  | some tr =>
    simp only [callEvent, htr] at he
    obtain ⟨hs, he⟩ := Option.ite_none_right_eq_some.1 he
    cases he
    exact .terminating hs
  | none =>
    simp only [callEvent, htr] at he
    split at he
    · exact shows_of_initializePc h hok (by rw [‹f.pc = _›]; rfl) htr he
    · exact shows_of_initializePc h hok (by rw [‹f.pc = _›]; rfl) htr he
    · exact shows_of_worker h hok ‹f.pc = _› he
    · cases he

/-! ## Stages of an attempt -/

/-- `Initialize` has passed its checks and has not created the worker. -/
def preparing : Stage → Bool
  | .checked | .exitedReset | .gateReset | .ready => true
  | _ => false

/-- The worker of an attempt that has not come to its end. -/
def attempted : Stage → Option Gen
  | .made g | .live g | .failing g _ | .failed g | .claimed g none | .sending g none => some g
  | _ => none

/-- The worker is not past its gate. -/
def unopened : Stage → Option Gen
  | .gated g => some g
  | st => attempted st

/-- The worker has left no record. -/
def unsent : Stage → Option Gen
  | .made g | .live g | .failing g _ | .failed g | .gated g | .looping g | .claimed g _ | .sending g _ => some g
  | _ => none

theorem preparing_passes (hp : Passes l st l' st') (hm : Move l r l' r') (h : preparing st' = true) :
    preparing st = true ∨ (l = none ∧ l' = some .checked) := by
  cases hp with
  | keep => exact .inl h
  | check => exact .inr ⟨rfl, rfl⟩
  | hold => cases hm <;> first | exact .inl h | exact .inl rfl
  | _ => cases h

theorem attempted_passes (hp : Passes l st l' st') (hm : Move l r l' r') (h : attempted st' = some g) :
    attempted st = some g ∨ (st = .ready ∧ l = some .ready ∧ l' = some (.made g) ∧ g = r.created) := by
  cases hp with
  | keep => exact .inl h
  | hold =>
    cases hm with
    | create => cases h; exact .inr ⟨rfl, rfl, rfl, rfl⟩
    | storePending g' task => cases task <;> exact .inl h
    | _ => first | exact .inl h | cases h
  | _ => cases h

theorem unopened_of_attempted (h : attempted st = some g) : unopened st = some g := by
  cases st <;> first | exact h | cases h

theorem unopened_passes (hp : Passes l st l' st') (hm : Move l r l' r') (h : unopened st' = some g) :
    unopened st = some g ∨ g = r.created := by
  by_cases ha : attempted st' = some g
  · rcases attempted_passes hp hm ha with ha | ⟨-, -, -, hg⟩
    · exact .inl (unopened_of_attempted ha)
    · exact .inr hg
  · -- The gate is open.
    cases st' with
    | gated g' =>
      cases hp with
      | keep => exact .inl h
      | hold _ _ _ hr => cases hr
      | giveGate => exact .inl h
    | _ => exact absurd h ha

theorem unsent_passes (hp : Passes l st l' st') (hm : Move l r l' r') (h : unsent st' = some g) :
    unsent st = some g ∨ (g = r.created ∧ r'.created = r.created + 1) := by
  cases hp with
  | keep => exact .inl h
  | hold =>
    cases hm with
    | create => cases h; exact .inr ⟨rfl, rfl⟩
    | _ => first | exact .inl h | cases h
  | giveGate | enter => exact .inl h
  | _ => cases h

theorem create_of_stage {pc : Pc} (h : pc.stage = some .ready) : pc.initializePc = some .create := by
  cases pc with
  | initializeThread t => cases t <;> cases h; rfl
  | start t =>
    cases t with
    | initializeThread t => cases t <;> cases h; rfl
    | _ => cases h
  | worker g t => cases t <;> cases h
  | dispatcher t => cases t <;> cases h
  | _ => cases h

/-- The check under the configuration lock shows. -/
theorem event_of_check (hm : Moved w p ok w' st st' a f f') (hok : f.Ok a) (h : f.pc.stage = none)
    (h' : stageAfter f' = some .checked) : callEvent w.shared f ok = some .passedChecks := by
  obtain ⟨f₁, rfl, hf₁⟩ := Option.bind_eq_some_iff.1 h'
  have hpc := hm.frame.recheckHandle h hf₁
  have hmove := hm.move
  rw [h, h'] at hmove
  rw [callEvent_initializePc (hok.no_transition (Pc.transition_of_initializePc hpc)) hpc]
  exact if_pos hmove.handle_of_check

/-- So does the creation of a task. -/
theorem event_of_create (hm : Moved w p ok w' st st' a f f') (hok : f.Ok a) (h : f.pc.stage = some .ready)
    (h' : stageAfter f' = some (.made g)) : callEvent w.shared f ok = some (.created w.shared.created) := by
  have hpc := create_of_stage h
  rw [callEvent_initializePc (hok.no_transition (Pc.transition_of_initializePc hpc)) hpc]
  cases ok with
  | true => rfl
  | false =>
    have hstep := hm.frame
    generalize w'.shared = s' at hstep
    obtain ⟨next, hex, hgoto, -⟩ := exec_initializePc hstep hok hpc rfl nofun
    cases hex
    obtain ⟨f₁, rfl, hf₁, -⟩ := hgoto _ rfl
    rw [stageAfter_of_initializePc rfl hf₁] at h'
    cases h'

/-! ## The log since the checks -/

/-- What the log shows since the last attempt began. -/
def Since (log : List Event) (S : List Event → Prop) : Prop :=
  ∃ l₀ l, log = l₀ ++ .passedChecks :: l ∧ .passedChecks ∉ l ∧ S l

theorem Since.append {S T : List Event → Prop} {e : Option Event} (h : Since log S) (he : e ≠ some .passedChecks)
    (hST : ∀ l, S l → T (l ++ e.toList)) : Since (log ++ e.toList) T := by
  obtain ⟨l₀, l, rfl, hn, hS⟩ := h
  refine ⟨l₀, l ++ e.toList, by simp, fun hm => ?_, hST l hS⟩
  rcases List.mem_append.1 hm with hm | hm
  · exact hn hm
  · exact he (by simpa using hm)

/-- The workers that were created, and the records that were queued. -/
def Shown (ts rs : List Gen) (l : List Event) : Prop := tasks l = ts ∧ records l = rs

theorem Shown.append {e : Option Event} {ts rs : List Gen} {l : List Event} (h : Shown ts rs l)
    (he : ∀ g, e ≠ some (.created g) ∧ e ≠ some (.sent g)) : Shown ts rs (l ++ e.toList) := by
  have htasks : tasks e.toList = [] := by
    rw [tasks, List.filterMap_eq_nil_iff]
    intro x hx
    cases x with
    | created g => exact absurd (by simpa using hx) (he g).1
    | _ => rfl
  have hrecords : records e.toList = [] := by
    rw [records, List.filterMap_eq_nil_iff]
    intro x hx
    cases x with
    | sent g => exact absurd (by simpa using hx) (he g).2
    | _ => rfl
  obtain ⟨ht, hr⟩ := h
  refine ⟨?_, ?_⟩
  · rw [tasks, List.filterMap_append]
    exact (congrArg₂ (· ++ ·) ht htasks).trans (List.append_nil _)
  · rw [records, List.filterMap_append]
    exact (congrArg₂ (· ++ ·) hr hrecords).trans (List.append_nil _)

theorem Shown.created {l : List Event} (h : Shown [] [] l) (g : Gen) : Shown [g] [] (l ++ [.created g]) := by
  obtain ⟨ht, hr⟩ := h
  refine ⟨?_, ?_⟩
  · rw [tasks, List.filterMap_append]
    exact congrArg (· ++ [g]) ht
  · rw [records, List.filterMap_append]
    exact congrArg (· ++ []) hr

theorem Shown.sent {l : List Event} (h : Shown [g] [] l) : Shown [g] [g] (l ++ [.sent g]) := by
  obtain ⟨ht, hr⟩ := h
  refine ⟨?_, ?_⟩
  · rw [tasks, List.filterMap_append]
    exact congrArg (· ++ []) ht
  · rw [records, List.filterMap_append]
    exact congrArg (· ++ [g]) hr

/-! ## Workers and records -/

/-- What the log says of the workers and of the attempt in progress. -/
structure AttemptInv (w : World) (log : List Event) (st : Stage) : Prop where
  fresh : ∀ g, w.shared.created ≤ g → .released g ∉ log ∧ .sent g ∉ log
  unsent : ∀ g, unsent st = some g → g < w.shared.created ∧ .sent g ∉ log
  unopened : ∀ g, unopened st = some g → .released g ∉ log
  once : ∀ g, log.count (.sent g) ≤ 1
  worker : ∀ a f, w.call a = some f → ∀ g t, f.pc = .worker g t → t = .waitGate ∨ .released g ∈ log
  onLoop : ∀ g, .onLoop g ∈ log → .released g ∈ log
  prepares : preparing st = true → Since log (Shown [] [])
  attempts : ∀ g, attempted st = some g → Since log (Shown [g] [])

/-- A worker is released from the stage at which its gate is open. -/
theorem gated_of_released (hm : Moved w p ok w' st st' a f f') (hok : f.Ok a)
    (he : callEvent w.shared f ok = some (.released g)) : st = .gated g ∧ st' = .looping g := by
  have hp := hm.passes
  cases shows hm.frame hok he with
  | released _ hpc hl' =>
    rw [hpc, hl'] at hp
    cases hp
    exact ⟨rfl, rfl⟩

theorem sending_of_sent (hst : AtStage w st) (hm : Moved w p ok w' st st' a f f') (hok : f.Ok a)
    (he : callEvent w.shared f ok = some (.sent g)) : (∃ task, st = .sending g task) ∧ st' = .queued g := by
  have hp := hm.passes
  cases shows hm.frame hok he with
  | sent _ task hl hl' =>
    have h := hst.token.eq_of_holds (a := a) (y := .sending g task) (by simp [World.stages, hm.call, hl])
    refine ⟨⟨task, h.symm⟩, ?_⟩
    rw [hl, hl'] at hp
    cases hp
    rfl

theorem quiet_of_passedChecks (hm : Moved w p ok w' st st' a f f') (hok : f.Ok a)
    (he : callEvent w.shared f ok = some .passedChecks) : st = .quiet ∧ st' = .checked := by
  have hp := hm.passes
  cases shows hm.frame hok he with
  | passedChecks hl hl' =>
    rw [hl, hl'] at hp
    cases hp
    exact ⟨rfl, rfl⟩

theorem made_of_created (hm : Moved w p ok w' st st' a f f') (hok : f.Ok a)
    (he : callEvent w.shared f ok = some (.created g)) : st = .ready ∧ st' = .made g := by
  have hp := hm.passes
  generalize hs : w.shared = s at he
  cases shows (hs ▸ hm.frame) hok he with
  | created hl hl' =>
    rw [hl, hl'] at hp
    cases hp
    exact ⟨rfl, rfl⟩

theorem mem_append_toList {e : Option Event} {x : Event} (h : x ∈ log ++ e.toList) : x ∈ log ∨ e = some x := by
  simpa using h

theorem AttemptInv.moved (h : AttemptInv w log st) (hst : AtStage w st) (hm : Moved w p ok w' st st' a f f')
    (hok : f.Ok a) : AttemptInv w' (log ++ (callEvent w.shared f ok).toList) st' := by
  have hcreated : w.shared.created ≤ w'.shared.created := hm.move.created_le
  have hreleased := fun g => gated_of_released (g := g) hm hok
  have hsent := fun g => sending_of_sent (g := g) hst hm hok
  have hchecks := quiet_of_passedChecks hm hok
  have hmade := fun g => made_of_created (g := g) hm hok
  have hshows := fun e => shows (e := e) hm.frame hok
  have hcheck := event_of_check hm hok
  have hcreate := fun g => event_of_create (g := g) hm hok
  have hwaits : ∀ g, f.pc = .worker g .waitGate → callEvent w.shared f ok = some (.released g) := by
    intro g hpc
    have htr : f.transition = none := hok.no_transition (by rw [hpc]; rfl)
    simp only [callEvent, htr, hpc]
    rfl
  generalize callEvent w.shared f ok = e at *
  -- The worker whose record is sent, or who is released, was created before.
  have hlt : ∀ g, e = some (.released g) ∨ e = some (.sent g) → g < w.shared.created := by
    rintro g (he | he)
    · exact (h.unsent g (by rw [(hreleased g he).1]; rfl)).1
    · obtain ⟨⟨task, rfl⟩, -⟩ := hsent g he
      exact (h.unsent g rfl).1
  refine ⟨fun g hg => ⟨fun hr => ?_, fun hr => ?_⟩, fun g hg => ?_, fun g hg hr => ?_, fun g => ?_, ?_, ?_, ?_, ?_⟩
  · rcases mem_append_toList hr with hr | he
    · exact (h.fresh g (Nat.le_trans hcreated hg)).1 hr
    · exact absurd (hlt g (.inl he)) (Nat.not_lt_of_le (Nat.le_trans hcreated hg))
  · rcases mem_append_toList hr with hr | he
    · exact (h.fresh g (Nat.le_trans hcreated hg)).2 hr
    · exact absurd (hlt g (.inr he)) (Nat.not_lt_of_le (Nat.le_trans hcreated hg))
  · have hnot : e ≠ some (.sent g) := by
      intro he
      rw [(hsent g he).2] at hg
      cases hg
    rcases unsent_passes hm.passes hm.move hg with hold | ⟨rfl, hnew⟩
    · obtain ⟨hc, hn⟩ := h.unsent g hold
      refine ⟨Nat.lt_of_lt_of_le hc hcreated, fun hr => ?_⟩
      exact (mem_append_toList hr).elim hn hnot
    · have hnew : w'.shared.created = w.shared.created + 1 := hnew
      refine ⟨Nat.lt_of_lt_of_eq (Nat.lt_succ_self _) hnew.symm, fun hr => ?_⟩
      exact (mem_append_toList hr).elim (h.fresh _ (Nat.le_refl _)).2 hnot
  · rcases mem_append_toList hr with hr | he
    · rcases unopened_passes hm.passes hm.move hg with hold | rfl
      · exact h.unopened g hold hr
      · exact (h.fresh _ (Nat.le_refl _)).1 hr
    · rw [(hreleased g he).2] at hg
      cases hg
  · rw [List.count_append]
    by_cases he : e = some (.sent g)
    · obtain ⟨⟨task, rfl⟩, -⟩ := hsent g he
      rw [List.count_eq_zero.2 (h.unsent g rfl).2, he]
      simp
    · have hzero : e.toList.count (.sent g) = 0 := List.count_eq_zero.2 (by simpa using he)
      rw [hzero]
      exact h.once g
  · rw [hm.calls]
    refine forall_call_update (fun f₁ hf g t hpc => ?_) fun b f₁ _ hb g t hpc =>
      (h.worker b f₁ hb g t hpc).imp_right (List.mem_append_left _)
    have hstep := hm.frame
    rw [hf] at hstep
    obtain ⟨t₀, hpc₀⟩ := hstep.method.1 g t hpc
    right
    rcases h.worker a f hm.call g t₀ hpc₀ with rfl | hr
    · simp [hwaits g hpc₀]
    · exact List.mem_append_left _ hr
  · intro g hl
    rcases mem_append_toList hl with hl | he
    · exact List.mem_append_left _ (h.onLoop g hl)
    · cases hshows _ he with
      | onLoop _ hpc =>
        rcases h.worker a f hm.call g _ hpc with ht | hr
        · cases ht
        · exact List.mem_append_left _ hr
  · intro hp
    rcases preparing_passes hm.passes hm.move hp with hold | ⟨hl, hl'⟩
    · refine (h.prepares hold).append (fun he => ?_) fun l hl => hl.append fun g => ⟨fun he => ?_, fun he => ?_⟩
      · rw [(hchecks he).1] at hold
        cases hold
      · rw [(hmade g he).2] at hp
        cases hp
      · rw [(hsent g he).2] at hp
        cases hp
    · rw [hcheck hl hl']
      exact ⟨log, [], rfl, nofun, rfl, rfl⟩
  · intro g hg
    rcases attempted_passes hm.passes hm.move hg with hold | ⟨rfl, hl, hl', rfl⟩
    · refine (h.attempts g hold).append (fun he => ?_) fun l hl => hl.append fun g' => ⟨fun he => ?_, fun he => ?_⟩
      · rw [(hchecks he).1] at hold
        cases hold
      · rw [(hmade g' he).1] at hold
        cases hold
      · rw [(hsent g' he).2] at hg
        cases hg
    · rw [hcreate _ hl hl']
      exact (h.prepares rfl).append nofun fun l hl => hl.created _

theorem AttemptInv.pushed {request : Request} (h : AttemptInv w log st) (hs : step w (.call p request) = some w') :
    AttemptInv w' log st := by
  obtain ⟨hshared, -, b, -, -, hcall⟩ := call_update hs
  refine ⟨by rw [hshared]; exact h.fresh, by rw [hshared]; exact h.unsent, h.unopened, h.once, ?_, h.onLoop,
    h.prepares, h.attempts⟩
  rw [hcall]
  refine forall_call_update (fun f hf g t hpc => ?_) fun b f _ hb => h.worker b f hb
  cases hf
  cases request <;> cases hpc

theorem attemptInv_start (s : Shared) : AttemptInv (.start s) [] .quiet := by
  refine ⟨fun _ _ => ⟨nofun, nofun⟩, nofun, nofun, fun _ => Nat.zero_le _, fun a f hf g t hpc => ?_, nofun, nofun,
    nofun⟩
  rcases start_call hf with ⟨g', -, rfl⟩ | ⟨-, rfl⟩
  · cases hpc
    exact .inl rfl
  · cases hpc

end ESPressio.Attempts
