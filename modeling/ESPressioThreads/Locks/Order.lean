import ESPressioThreads.Lib.LockOrder
import ESPressioThreads.Locks.Rule
/-!
# The order of the locks

Every operation takes `_iterationMutex` before the registry lock and
`_observableMutex`, and never two of the inner locks at once. So any number of
tasks may run operations of the manager and of the dispatcher at the same time:
as long as hooks that run under a lock begin no operation, no tasks wait for
each other's locks in a circle, and every lock that a task waits for becomes
free when its holders go on.

The readers of the registry are serialized: its read-write lock is taken as one
exclusive lock, which only adds waits.
-/

namespace ESPressio.Locks

open Boundary Transition ESPressio.Thread
open ESPressio.Manager (ThreadRecord ThreadPtr nullptr ClaimedCleanupRecord RemoveBy)

/-- `_iterationMutex` is the outer lock. -/
def Lock.rank : Lock → Nat
  | .iteration => 0
  | .registry | .observable | .initialization => 1

/-- The program takes its locks in order, from `base` and back. -/
abbrev Climbs {α : Type} (base : List Lock) (p : Code α) : Prop := p.Level Lock.rank base

/-- An inner lock can be taken from `base`. -/
abbrev Outer (base : List Lock) : Prop := ∀ m ∈ base, m.rank < 1

variable {α : Type} {base : List Lock} {hook : Hook}

theorem outer_nil : Outer [] := by
  rintro _ ⟨⟩

theorem outer_iteration : Outer [.iteration] := by
  intro m hm
  rw [List.mem_singleton.1 hm]
  exact Nat.one_pos

/-! ## Parts -/

theorem climbs_read {x : Access} {f : Shared → α} : Climbs base (read x f) := fun _ => rfl

theorem climbs_modify {x : Access} {u : Shared → Shared} {f : Shared → α} : Climbs base (modify x u f) := fun _ => rfl

theorem climbs_call (c : Call) : Climbs base (call c) := by
  intro a
  cases a <;> exact rfl

theorem climbs_allocate : Climbs base allocate := by
  intro b
  cases b <;> exact rfl

theorem climbs_platform : Climbs base platform := fun _ => rfl

theorem climbs_pure {a : α} : Climbs base (pure a : Code α) := rfl

theorem climbs_raise : Climbs base (.raise : Code α) := rfl

theorem climbs_ite {c : Prop} [Decidable c] {p q : Code α} (hp : Climbs base p) (hq : Climbs base q) :
    Climbs base (if c then p else q) := by
  split
  · exact hp
  · exact hq

theorem climbs_attempt {p : Code α} (h : Climbs base p) : Climbs base (attempt p) :=
  .rescue (.bind h fun _ => climbs_pure) climbs_pure

theorem climbs_threadSnapshot (record : ThreadRecord) : Climbs base (threadSnapshot record) := by
  refine climbs_ite climbs_pure (.bind (climbs_attempt (climbs_call _)) fun _ => ?_)
  exact .bind (climbs_attempt (climbs_call _)) fun _ => climbs_attempt (climbs_call _)

theorem climbs_notifyObservers (n : Nat) : Climbs base (notifyObservers hook n) :=
  .bind (.each fun _ _ => climbs_attempt (climbs_call _)) fun _ => climbs_allocate

theorem climbs_observableSnapshot (h : Outer base) : Climbs base observableSnapshot := .locked h climbs_read

theorem climbs_notifyIfObserved {argument : Code Unit} (h : Outer base) (ha : Climbs base argument) :
    Climbs base (notifyIfObserved hook argument) := by
  refine .bind (climbs_observableSnapshot h) fun o => ?_
  cases o with
  | none => exact climbs_pure
  | some n => exact .bind ha fun _ => climbs_notifyObservers n

theorem climbs_notify (h : Outer base) : Climbs base (notifyIfObserved hook (pure ())) :=
  climbs_notifyIfObserved h climbs_pure

theorem climbs_notifyDispatcher : Climbs base (notifyDispatcher hook) :=
  .bind climbs_read fun n => climbs_notifyObservers n

/-! ## The manager -/

theorem climbs_claimRecords (snapshot : List ThreadRecord) : Climbs [.iteration] (claimRecords snapshot) := by
  induction snapshot with
  | nil => exact climbs_pure
  | cons record rest ih =>
    have hnotify : Climbs [.iteration] (notifyIfObserved .onThreadCleanupClaimed (pure ())) :=
      climbs_notify outer_iteration
    have hfirst : Climbs [.iteration] (claimRecord record) := by
      refine climbs_ite climbs_pure (.bind (climbs_call _) fun state => climbs_ite climbs_pure ?_)
      refine .bind (climbs_call _) fun claimed => climbs_ite ?_ climbs_pure
      exact .bind (climbs_threadSnapshot record) fun _ => .bind hnotify fun _ => climbs_pure
    exact .bind hfirst fun _ => .bind ih fun _ => climbs_pure

theorem climbs_claimAndRemove : Climbs [.iteration] claimAndRemove := by
  refine .bind (.locked outer_iteration (.bind climbs_allocate fun _ => climbs_read)) fun snapshot => ?_
  refine .bind (climbs_notify outer_iteration) fun _ => .bind climbs_allocate fun _ => ?_
  exact .bind (climbs_claimRecords snapshot) fun _ => .locked outer_iteration climbs_modify

theorem climbs_deleteClaimed (claimed : List ClaimedCleanupRecord) : Climbs [] (deleteClaimed claimed) := by
  refine .bind (.each fun c _ => climbs_ite ?_ climbs_pure) fun _ => climbs_notify outer_nil
  exact .bind (climbs_notify outer_nil) fun _ => .bind (climbs_call _) fun _ => climbs_pure

theorem climbs_cleanupFailed : Climbs [] cleanupFailed :=
  .bind (climbs_notify outer_nil) fun _ => climbs_raise

theorem climbs_cleanUpWithResult : Climbs [] cleanUpWithResult := by
  have hdelete : ∀ claimed, Climbs [] ((deleteClaimed claimed).rescue cleanupFailed) :=
    fun claimed => Prog.Level.rescue (climbs_deleteClaimed claimed) climbs_cleanupFailed
  refine ⟨by simp, fun m => ?_⟩
  show Prog.Ascends _ _ _ (if decide (0 < m.activeIterations) = true then _ else _) _
  split
  · -- deferred: the count is read inside `_iterationMutex`
    exact ⟨outer_iteration, fun _ => ⟨_, rfl, _, rfl, climbs_notify outer_nil⟩⟩
  · -- `_iterationMutex` is given back before anything is deleted or the failure is published
    refine .bind (.rescue (.bind (Prog.Ascends.mono climbs_claimAndRemove ?_ ?_)))
    · rintro _ rfl _ o
      cases o with
      | some claimed => exact ⟨_, rfl, hdelete claimed⟩
      | none => exact ⟨_, rfl, climbs_cleanupFailed⟩
    · rintro _ rfl o
      cases o with
      | some claimed => exact ⟨_, rfl, hdelete claimed⟩
      | none => exact ⟨_, rfl, climbs_cleanupFailed⟩

theorem climbs_endIteration : Climbs [] endIteration :=
  .bind (.locked (by simp) climbs_modify) fun _ => climbs_ite climbs_cleanUpWithResult climbs_pure

theorem climbs_iterating {p : Code α} (h : Climbs [] p) : Climbs [] (iterating p) :=
  .bind (.locked (by simp) climbs_modify) fun _ => .afterwards h climbs_endIteration

theorem climbs_snapshot {f : Shared → α} : Climbs [] (Prog.locked Lock.registry do
    allocate
    read .registry f) :=
  .locked (by simp) (.bind climbs_allocate fun _ => climbs_read)

theorem climbs_forEachThread : Climbs [] forEachThread :=
  climbs_iterating (.bind climbs_snapshot fun _ => .each fun _ _ => climbs_call _)

theorem climbs_withThread (id : UInt8) : Climbs [] (withThread id) := by
  refine climbs_iterating (.bind (.locked (by simp) climbs_read) fun result => ?_)
  cases result with
  | none => exact climbs_pure
  | some record => exact climbs_ite climbs_pure (climbs_call _)

theorem climbs_initializeWithResults : Climbs [] initializeWithResults := by
  refine climbs_iterating (.bind climbs_snapshot fun _ => .bind climbs_allocate fun _ => ?_)
  exact .bind (.each fun _ _ => climbs_attempt (climbs_call _)) fun _ => climbs_notify outer_nil

theorem climbs_insertThread (n : Nat) (t : ThreadPtr) (assigned : Bool) (requested : UInt8) :
    Climbs [] (insertThread n t assigned requested) := by
  refine .locked (by simp) (.bind climbs_read fun inserted => ?_)
  split
  · exact .bind climbs_allocate fun _ => climbs_modify
  · exact climbs_pure
  · exact climbs_raise

theorem climbs_addThread (n : Nat) (t : ThreadPtr) (assigned : Bool) : Climbs [] (addThread n t assigned) := by
  have hrequested : Climbs [] (requestThreadID t assigned) := climbs_ite climbs_pure (climbs_call _)
  refine .rescue (climbs_ite climbs_raise ?_) (.bind (climbs_notify outer_nil) fun _ => climbs_raise)
  refine .bind (.locked (by simp) climbs_read) fun found => ?_
  cases found with
  | some record => exact climbs_pure
  | none =>
    refine .bind hrequested fun requested => .bind (climbs_insertThread n t assigned requested) fun record => ?_
    exact climbs_ite (climbs_notifyIfObserved outer_nil (climbs_threadSnapshot _)) climbs_pure

theorem climbs_removeThread (key : RemoveBy) : Climbs [] (removeThread key) := by
  refine .bind (.locked (by simp) climbs_modify) fun removed => ?_
  cases removed with
  | none => exact climbs_pure
  | some record => exact climbs_notifyIfObserved outer_nil (climbs_threadSnapshot record)

theorem climbs_registerObserver : Climbs [] registerObserver := by
  have hensure : Climbs [] ensureObservable := by
    refine .locked (by simp) (.bind climbs_read fun o => climbs_ite climbs_pure (.bind climbs_platform fun made => ?_))
    exact climbs_ite climbs_modify climbs_pure
  exact .bind hensure fun ensured => climbs_ite climbs_modify climbs_pure

theorem climbs_unregisterObserver : Climbs [] unregisterObserver := by
  refine .bind (climbs_observableSnapshot outer_nil) fun o => ?_
  cases o with
  | none => exact climbs_pure
  | some n => exact climbs_modify

/-! ## The termination dispatcher -/

theorem climbs_initializeDispatcher : Climbs [] initializeDispatcher := by
  have hnotify : ∀ available : Bool, Climbs [.initialization]
      (do notifyDispatcher .onThreadTerminationDispatcherInitialized; pure available) :=
    fun _ => .bind climbs_notifyDispatcher fun _ => climbs_pure
  refine .locked (by simp) (.bind climbs_read fun available => climbs_ite climbs_pure (.bind climbs_platform fun q => ?_))
  refine climbs_ite (.bind climbs_modify fun _ => .bind climbs_platform fun task => ?_) (hnotify false)
  exact climbs_ite (.bind climbs_modify fun _ => hnotify true) (.bind climbs_modify fun _ => hnotify false)

theorem climbs_dispatchSnapshot (t : ThreadPtr) : Climbs [] (dispatchSnapshot t) := by
  refine .bind (climbs_call _) fun _ => .bind (climbs_call _) fun _ => .bind (climbs_call _) fun _ => ?_
  exact .bind (climbs_call _) fun _ => .bind (climbs_call _) fun _ => climbs_pure

theorem climbs_dispatch (t : ThreadPtr) : Climbs [] (dispatch t) := by
  have hsend : Climbs [] (Prog.locked Lock.initialization do
      if ← read .dispatcher (·.queue) then platform else pure false) :=
    .locked (by simp) (.bind climbs_read fun queue => climbs_ite climbs_platform climbs_pure)
  refine climbs_ite climbs_pure (.bind climbs_initializeDispatcher fun available => ?_)
  refine climbs_ite (.bind (climbs_dispatchSnapshot t) fun _ => .bind hsend fun queued => ?_) climbs_pure
  exact climbs_ite climbs_notifyDispatcher climbs_notifyDispatcher

theorem climbs_registerDispatcherObserver (o : Nat) : Climbs [] (registerDispatcherObserver o) := by
  refine .bind climbs_modify fun _ => .bind (.locked (by simp) climbs_read) fun available => ?_
  exact climbs_ite (climbs_attempt (climbs_call _)) climbs_pure

theorem climbs_loop (t : ThreadPtr) : Climbs [] (loop t) := by
  refine climbs_ite climbs_pure (.bind climbs_notifyDispatcher fun _ => .bind (climbs_call _) fun _ => ?_)
  exact .bind (climbs_attempt climbs_cleanUpWithResult) fun _ => climbs_notifyDispatcher

/-! ## Every operation -/

theorem climbs_code (coreCount : Nat) (op : Op) : Climbs [] (op.code coreCount) := by
  have hskip : ∀ {α : Type} {p : Code α}, Climbs [] p → Climbs [] (p.bind fun _ => .ret ()) :=
    fun h => Prog.Level.bind h fun _ => climbs_pure
  cases op with
  | addThread t assigned => exact climbs_addThread coreCount t assigned
  | removeThread key => exact climbs_removeThread key
  | forEachThread => exact climbs_forEachThread
  | withThread id => exact climbs_withThread id
  | cleanUpWithResult => exact climbs_cleanUpWithResult
  | initializeWithResults => exact climbs_initializeWithResults
  | getThread id => exact .bind (.locked (by simp) climbs_read) fun _ => climbs_pure
  | getThreadCount => exact hskip (.locked (by simp) climbs_read)
  | registerObserver => exact climbs_registerObserver
  | unregisterObserver => exact climbs_unregisterObserver
  | ensureAvailable => exact hskip climbs_initializeDispatcher
  | isAvailable => exact hskip (.locked (by simp) climbs_read)
  | readTaskHandle => exact hskip (.locked (by simp) climbs_read)
  | dispatch t => exact climbs_dispatch t
  | registerDispatcherObserver o => exact climbs_registerDispatcherObserver o
  | unregisterDispatcherObserver => exact climbs_modify
  | loop t => exact climbs_loop t

/-- Tasks over the data and locks of the two components. -/
abbrev LockCrew (ι : Type) := Crew ι Shared Lock Access Call Call.Ret

def crew (ι : Type) [DecidableEq ι] (coreCount : Nat) : System (LockCrew ι) (ι × Action Shared Call Op Call.Ret) :=
  Crew.system ι (Op.code coreCount)

/-- With the readers of the registry serialized, no tasks wait for each other in
a circle, and for whoever waits the lock becomes free when the tasks that hold it
or an inner lock go on. -/
theorem locks_in_order (ι : Type) [DecidableEq ι] (coreCount : Nat) (s : LockCrew ι)
    (h : (crew ι coreCount).ReachableWhen Crew.BeginsUnlocked s) :
    (∀ i, ¬ Relation.TransGen s.Waits i i) ∧
      ∀ i l, (s.task i).acquiring = some l → ∃ s', (crew ι coreCount).Leads (Crew.GoesOn Lock.rank l.rank) s s' ∧
        s'.held i = s.held i ∧ s'.stack i = s.stack i ∧ s'.owner l = none := by
  have hcode : ∀ op, (Op.code coreCount op).Level Lock.rank [] := climbs_code coreCount
  have ho : Crew.Ordered Lock.rank s := Crew.ordered_reachable hcode h
  refine ⟨fun i => ho.no_circle, fun i l hl => ?_⟩
  have hbound : ∀ l : Lock, l.rank < 2 := by
    intro l
    cases l <;> decide
  obtain ⟨s', hleads, -, hfree⟩ := ho.released hbound hcode l
  obtain ⟨hheld, hstack⟩ := Crew.still hleads ((ho.ascending i).below hl)
  exact ⟨s', hleads, hheld, hstack, hfree⟩

def startCrew (m : Shared) : LockCrew Nat := ⟨m, fun _ => none, fun _ => [], fun _ => []⟩

/-- Task 0 is in a cleanup pass when task 1 begins an iteration. -/
def cleanUpAndIterate : List (Nat × Action Shared Call Op Call.Ret) :=
  [(0, .begin .cleanUpWithResult), (0, .run true), (1, .begin .forEachThread)]

theorem iteration_waits : ∃ s : LockCrew Nat, (crew Nat 1).ReachableWhen Crew.BeginsUnlocked s ∧ s.Waits 1 0 ∧
    (∀ i, ¬ Relation.TransGen s.Waits i i) ∧
      ∃ s', (crew Nat 1).Leads (Crew.GoesOn Lock.rank 0) s s' ∧ s'.owner .iteration = none := by
  have hrun : ((crew Nat 1).replayWhen Crew.BeginsUnlocked (startCrew oneObserver) cleanUpAndIterate).map
      (fun s => (s.owner .iteration, (s.task 1).acquiring)) = some (some 0, some .iteration) := by
    decide +kernel
  obtain ⟨s, hs, hp⟩ := Option.map_eq_some_iff.1 hrun
  have hr := System.reachableWhen_of_replayWhen (S := crew Nat 1) ⟨fun _ => rfl, fun _ => rfl, fun _ => rfl⟩ hs
  have hacquiring : (s.task 1).acquiring = some .iteration := congrArg Prod.snd hp
  obtain ⟨hcircle, hfree⟩ := locks_in_order Nat 1 s hr
  obtain ⟨s', hleads, -, -, howner⟩ := hfree 1 .iteration hacquiring
  exact ⟨s, hr, ⟨.iteration, hacquiring, congrArg Prod.fst hp⟩, hcircle, s', hleads, howner⟩

end ESPressio.Locks
