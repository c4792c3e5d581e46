import ESPressioThreads.Termination.Deletion
/-!
# Threads that are initialized again

`Initialize` gives a thread a new worker once the record of the last one has
been dispatched, or stops the new worker and sends its record itself. Here it is
one step, and the calls for one thread do not overlap. `InitializeWithResults` is
then any number of such steps beside the manager's operation.

A thread still has one record at most on its way, which is that of its last
worker.
-/

namespace ESPressio.Termination

open Transition ESPressio.Thread ESPressio.Manager

/-- How `Initialize` ends after its checks. -/
inductive Outcome
  | success (start : Bool)
  | stopped (state : ThreadState)
  | taskCreationFailed
  deriving DecidableEq, Repr

/-- The checks of `Initialize`. The last one is that no other call of it for the
thread is still sending a record. -/
def Cell.initializable (c : Cell) : Bool :=
  !c.hasTask && !c.dispatchPending && (c.state = .terminated || c.state = .uninitialized) &&
    (c.worker = .deleted || c.worker = .suspended)

/-- `_initialize`. A worker that is stopped is deleted at its start gate, and
`_finalizeStoppedTaskExit` sends the record on the task of the call. The thread
is `Terminated` then, unless it was the gate that failed. -/
def Cell.initializeThread (c : Cell) : Outcome → Cell
  | .success start =>
    { c with
      state := if start then .running else .initialized
      hasTask := true, exitFinalizationStarted := false, taskExited := false
      worker := .loop, exited := false, dispatched := false }
  | .stopped state =>
    { c with
      state := state
      exitFinalizationStarted := true, taskExited := false
      worker := .storePending, exited := state = .terminated, dispatched := false }
  | .taskCreationFailed =>
    { c with state := .uninitialized, exitFinalizationStarted := false, taskExited := false }

/-- `generation` counts the calls of `Initialize` for a thread, and `hand` is the
generation of the record that the dispatcher has received last. -/
structure Generations where
  world : World
  generation : ThreadPtr → Nat
  hand : Nat

inductive GenerationsAction
  | termination (a : Action)
  | initializeThread (t : ThreadPtr) (outcome : Outcome)
  deriving DecidableEq, Repr

/-- The record that a step takes out of the queue. -/
def World.receives (s : World) : Action → Option ThreadPtr
  | .dispatcher =>
    match s.dispatcher with
    | .receive => s.queue.head?
    | _ => none
  | _ => none

def stepGenerations (capacity coreCount : Nat) (x : Generations) : GenerationsAction → Option Generations
  | .termination a => (step capacity coreCount x.world a).map fun world =>
      { x with world := world, hand := (x.world.receives a).elim x.hand x.generation }
  | .initializeThread t outcome =>
    if (x.world.cells t).initializable then
      some { x with
        world := x.world.setCell t ((x.world.cells t).initializeThread outcome)
        generation := Function.update x.generation t (x.generation t + 1) }
    else none

def generations (capacity coreCount : Nat) : System Generations GenerationsAction where
  init x := (system capacity coreCount).init x.world ∧ x.generation = (fun _ => 0) ∧ x.hand = 0
  step := stepGenerations capacity coreCount

/-! ## One record on its way -/

/-- The pending flag is set, and the record is not sent. -/
def WorkerPc.Sending : WorkerPc → Prop
  | .ensureAvailable | .lockQueue | .send => True
  | .loop | .beginExit | .storeTerminated | .onTerminate | .storePending | .unlockQueue | .notifyQueued
  | .suspended | .deleted => False

theorem WorkerPc.Sending.beforeSend {pc : WorkerPc} (h : pc.Sending) : pc.BeforeSend := by
  cases pc <;> first | exact h.elim | trivial

variable {s s' : World} {t u : ThreadPtr} {capacity coreCount : Nat} {x y : Generations}

/-- One cell changed, whose worker was not moved towards its `Send`. -/
theorem sending_setCell {c : Cell} (hs : s'.cells = Function.update s.cells t c)
    (hc : c.worker.Sending → (s.cells t).worker.Sending ∨ c.dispatchPending = true)
    (hu : (s'.cells u).worker.Sending) : (s.cells u).worker.Sending ∨ (s'.cells u).dispatchPending = true := by
  rw [hs, Function.update_apply] at hu ⊢
  split at hu
  · rename_i hut
    rw [if_pos hut, hut]
    exact hc hu
  · exact .inl hu

theorem sending_of_worker {c c' : Cell} (hw : c'.worker = c.worker ∨ c'.worker = .deleted) (h : c'.worker.Sending) :
    c.worker.Sending ∨ c'.dispatchPending = true := by
  rcases hw with hw | hw
  · exact .inl (hw ▸ h)
  · rw [hw] at h
    exact h.elim

theorem stepWorker_sending (h : stepWorker capacity s t = some s') (hu : (s'.cells u).worker.Sending) :
    (s.cells u).worker.Sending ∨ (s'.cells u).dispatchPending = true := by
  simp only [stepWorker] at h
  split at h <;> rename_i hw
  · split at h <;> cases h
    · exact sending_setCell rfl False.elim hu
    · exact sending_setCell rfl False.elim hu
    · exact sending_setCell rfl False.elim hu
    all_goals exact .inl hu
  · split at h <;> cases h <;> exact sending_setCell rfl False.elim hu
  · split at h <;> cases h <;> exact sending_setCell rfl False.elim hu
  · cases h; exact sending_setCell rfl False.elim hu
  · cases h; exact sending_setCell rfl (fun _ => .inr rfl) hu
  · split at h <;> cases h
    exact sending_setCell rfl (fun _ => .inl (by rw [hw]; trivial)) hu
  · split at h <;> cases h
    exact sending_setCell rfl (fun _ => .inl (by rw [hw]; trivial)) hu
  · split at h <;> cases h
    exact sending_setCell rfl False.elim hu
  · cases h; exact sending_setCell rfl False.elim hu
  · cases h; exact sending_setCell rfl False.elim hu
  · cases h
  · cases h

theorem stepShutdown_sending {cb : Callback} {pc : ShutdownPc} (h : stepShutdown s t cb pc = some s')
    (hu : (s'.cells u).worker.Sending) : (s.cells u).worker.Sending ∨ (s'.cells u).dispatchPending = true := by
  simp only [stepShutdown] at h
  split at h
  · cases h; exact sending_setCell rfl (sending_of_worker (.inl (by simp))) hu
  · cases h; exact sending_setCell rfl .inl hu
  · cases h; exact sending_setCell rfl (sending_of_worker (.inl (by simp))) hu
  · split at h <;> cases h
    exact .inl hu
  · split at h <;> cases h
    exact .inl hu
  · cases h
    split at hu <;> exact .inl hu
  · split at h <;> cases h
    exact .inl hu

theorem stepDispatcher_sending (h : stepDispatcher s = some s') (hu : (s'.cells u).worker.Sending) :
    (s.cells u).worker.Sending ∨ (s'.cells u).dispatchPending = true := by
  simp only [stepDispatcher] at h
  split at h
  · split at h <;> cases h
    exact .inl hu
  · cases h; exact .inl hu
  · cases h; exact sending_setCell rfl (sending_of_worker (Cell.deleteTask_worker _)) hu
  · split at h <;> cases h <;> exact .inl hu
  · exact stepShutdown_sending h hu
  · cases h; exact sending_setCell rfl .inl hu
  · cases h; exact sending_setCell rfl .inl hu
  · split at h <;> cases h
    exact .inl hu
  · cases h; exact .inl hu
  · cases h
  · cases h

/-- A worker comes to its `Send` by way of the pending flag. -/
theorem step_sending {a : Action} (h : step capacity coreCount s a = some s') (hu : (s'.cells u).worker.Sending) :
    (s.cells u).worker.Sending ∨ (s'.cells u).dispatchPending = true := by
  cases a with
  | terminate t =>
    simp only [step, stepTerminate] at h
    split at h <;> cases h
    exact sending_setCell rfl .inl hu
  | worker t => exact stepWorker_sending h hu
  | dispatcher => exact stepDispatcher_sending h hu
  | callback choice =>
    simp only [step, stepCallback] at h
    split at h <;> cases h <;> exact .inl hu
  | dispatcherCleanUp i =>
    simp only [step] at h
    split at h
    · obtain ⟨m, -, rfl⟩ := Option.map_eq_some_iff.1 h
      exact .inl hu
    · cases h
  | call i request =>
    obtain ⟨m, -, rfl⟩ := Option.map_eq_some_iff.1 h
    exact .inl hu
  | op i answer => exact sending_of_worker ((stepOperation_frame h).worker u) hu

theorem step_later {a : Action} (h : step capacity coreCount s a = some s') : s.Later s' := by
  cases a with
  | terminate t => exact (stepTerminate_quiet h).later
  | worker t =>
    rcases stepWorker_cases h with hq | ⟨hw, -, rfl⟩
    · exact hq.later
    · exact World.later_setCell rfl ⟨id, .inl, False.elim⟩
  | dispatcher =>
    rcases stepDispatcher_cases h with hq | ⟨t, queue, hq, rfl⟩ | ⟨t, hd, rfl⟩
    · exact hq.later
    · exact .refl s
    · exact World.later_setCell rfl ⟨fun _ => rfl, fun _ => .inr rfl, id⟩
  | callback choice => exact (stepCallback_quiet h).later
  | dispatcherCleanUp i =>
    simp only [Termination.step] at h
    split at h
    · obtain ⟨m, -, rfl⟩ := Option.map_eq_some_iff.1 h
      exact .refl s
    · cases h
  | call i request =>
    obtain ⟨m, -, rfl⟩ := Option.map_eq_some_iff.1 h
    exact .refl s
  | op i answer => exact (stepOperation_frame h).later

/-- A record comes onto its way by a `Send`. -/
theorem step_outstanding {a : Action} (h : step capacity coreCount s a = some s') (hu : s'.Outstanding u) :
    s.Outstanding u ∨ (s.cells u).worker = .send := by
  have hquiet : Quiet s s' → s.Outstanding u := fun hq => by rwa [World.Outstanding, hq.queue, hq.record] at hu
  cases a with
  | terminate t => exact .inl (hquiet (stepTerminate_quiet h))
  | worker t =>
    rcases stepWorker_cases h with hq | ⟨hw, -, rfl⟩
    · exact .inl (hquiet hq)
    · rcases hu with hu | hu
      · rcases List.mem_append.1 hu with hu | hu
        · exact .inl (.inl hu)
        · rw [List.mem_singleton.1 hu]
          exact .inr hw
      · exact .inl (.inr hu)
  | dispatcher =>
    left
    rcases stepDispatcher_cases h with hq | ⟨t, queue, hq, rfl⟩ | ⟨t, hd, rfl⟩
    · exact hquiet hq
    · left
      rw [hq, List.mem_cons]
      rcases hu with hu | hu
      · exact .inr hu
      · exact .inl (Option.some.inj hu).symm
    · rcases hu with hu | hu
      · exact .inl hu
      · cases hu
  | callback choice => exact .inl (hquiet (stepCallback_quiet h))
  | dispatcherCleanUp i =>
    simp only [Termination.step] at h
    split at h
    · obtain ⟨m, -, rfl⟩ := Option.map_eq_some_iff.1 h
      rcases hu with hu | hu
      · exact .inl (.inl hu)
      · cases hu
    · cases h
  | call i request =>
    obtain ⟨m, -, rfl⟩ := Option.map_eq_some_iff.1 h
    exact .inl hu
  | op i answer =>
    have hf := stepOperation_frame h
    rw [World.Outstanding, hf.queue, hf.dispatcher] at hu
    exact .inl hu

/-- While a record is on its way, or about to be, the pending flag is set. -/
structure OneRecord (s : World) : Prop where
  records : Records s
  outstanding : ∀ t, s.Outstanding t → (s.cells t).dispatchPending = true
  sending : ∀ t, (s.cells t).worker.Sending → (s.cells t).dispatchPending = true

theorem OneRecord.step {a : Action} (h : OneRecord s) (hs : step capacity coreCount s a = some s') : OneRecord s' := by
  have hrecords := h.records.step hs
  -- A flag that is cleared means that the dispatch is done.
  have hkept : ∀ u, (s.cells u).dispatchPending = true → (s'.cells u).dispatched = false →
      (s'.cells u).dispatchPending = true := by
    intro u hp hd
    refine ((step_later hs u).pending hp).resolve_right fun hdone => ?_
    rw [hd] at hdone
    cases hdone
  refine ⟨hrecords, fun u hu => ?_, fun u hu => ?_⟩
  · refine hkept u ?_ (hrecords.outstanding u hu)
    rcases step_outstanding hs hu with ho | hw
    · exact h.outstanding u ho
    · exact h.sending u (by rw [hw]; trivial)
  · rcases step_sending hs hu with hw | hp
    · exact hkept u (h.sending u hw) (hrecords.before u hu.beforeSend)
    · exact hp

theorem Cell.initializable_iff {c : Cell} : c.initializable = true ↔
    c.hasTask = false ∧ c.dispatchPending = false ∧ (c.state = .terminated ∨ c.state = .uninitialized) ∧
      (c.worker = .deleted ∨ c.worker = .suspended) := by
  simp [Cell.initializable, and_assoc]

/-- `Initialize` finds no record of the thread on its way. -/
theorem OneRecord.initializeThread {outcome : Outcome} (h : OneRecord s) (hc : (s.cells t).initializable = true) :
    OneRecord (s.setCell t ((s.cells t).initializeThread outcome)) := by
  obtain ⟨-, hpending, -, hworker⟩ := Cell.initializable_iff.1 hc
  have hnone : ∀ u, s.Outstanding u → u ≠ t := by
    rintro u hu rfl
    rw [h.outstanding u hu] at hpending
    cases hpending
  have hidle : ¬ (s.cells t).worker.BeforeSend := by
    rcases hworker with hw | hw <;> rw [hw] <;> exact id
  have hdispatched : ((s.cells t).initializeThread outcome).worker.BeforeSend →
      ((s.cells t).initializeThread outcome).dispatched = false := by
    cases outcome with
    | success | stopped => exact fun _ => rfl
    | taskCreationFailed => exact fun hw => absurd hw hidle
  have hsending : ¬ ((s.cells t).initializeThread outcome).worker.Sending := by
    cases outcome with
    | success | stopped => exact id
    | taskCreationFailed => exact fun hw => hidle hw.beforeSend
  refine ⟨⟨h.records.nodup, h.records.current, fun u hu => ?_, fun u hu => ?_, fun u hu => ?_⟩, fun u hu => ?_,
    fun u hu => ?_⟩
  · simpa [World.setCell, hnone u hu] using h.records.sent u hu
  · simpa [World.setCell, hnone u hu] using h.records.outstanding u hu
  · by_cases hut : u = t
    · subst hut
      simpa [World.setCell] using hdispatched (by simpa [World.setCell] using hu)
    · simpa [World.setCell, hut] using h.records.before u (by simpa [World.setCell, hut] using hu)
  · simpa [World.setCell, hnone u hu] using h.outstanding u hu
  · by_cases hut : u = t
    · subst hut
      exact absurd (by simpa [World.setCell] using hu) hsending
    · simpa [World.setCell, hut] using h.sending u (by simpa [World.setCell, hut] using hu)

theorem oneRecord_start {registry : Registry} {cells : ThreadPtr → Cell}
    (hc : ∀ t, ∃ state free, state ≠ .terminated ∧ cells t = Cell.live state free) :
    OneRecord (.start registry cells) := by
  refine ⟨(inv_start hc).records, fun t ht => ?_, fun t ht => ?_⟩
  · rcases ht with ht | ht <;> cases ht
  · obtain ⟨state, free, -, hl⟩ := hc t
    have ht : (cells t).worker.Sending := ht
    rw [hl] at ht
    exact ht.elim

end ESPressio.Termination
