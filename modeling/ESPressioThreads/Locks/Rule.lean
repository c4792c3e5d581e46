import ESPressioThreads.Locks.Operations
/-!
# The lock-boundary rule

"Virtual/user callbacks must not execute while those locks are held." Two
places do not follow it: a cleanup pass that runs keeps `_iterationMutex` while
it asks the threads and notifies, and `_initialize` notifies inside
`_initializationMutex`. Where these find no thread and no observer, every
operation follows the rule, and foreign code may begin any other operation.
-/

namespace ESPressio.Locks

open Boundary Transition ESPressio.Thread
open ESPressio.Manager (Registry ThreadRecord ThreadPtr nullptr ClaimedCleanupRecord)

/-- A pass that runs copies no thread, and what is notified inside
`_iterationMutex` or `_initializationMutex` has no observer. -/
def Unobserved : Access → Shared → List Lock → Prop
  | .cleanupSnapshot, m, _ => ∀ record ∈ m.registry.threads, record.thread = nullptr
  | .observable, m, held => Lock.iteration ∈ held → m.observers = none ∨ m.observers = some 0
  | .dispatcherObservers, m, held => Lock.initialization ∈ held → m.dispatcherObservers = 0
  | .registry, _, _ | .iterations, _, _ | .dispatcher, _, _ => True

/-- The program respects the boundary from the locks `base`. -/
abbrev Keeps {α : Type} (base : List Lock) (Q : α → Prop) (p : Code α) : Prop := p.Tidy Unobserved base Q

instance : ∀ x m held, Decidable (Unobserved x m held)
  | .cleanupSnapshot, m, _ => inferInstanceAs (Decidable (∀ record ∈ m.registry.threads, record.thread = nullptr))
  | .observable, m, held =>
    inferInstanceAs (Decidable (Lock.iteration ∈ held → m.observers = none ∨ m.observers = some 0))
  | .dispatcherObservers, m, held =>
    inferInstanceAs (Decidable (Lock.initialization ∈ held → m.dispatcherObservers = 0))
  | .registry, _, _ | .iterations, _, _ | .dispatcher, _, _ => .isTrue trivial

variable {α β : Type} {base : List Lock} {Q : α → Prop} {hook : Hook}

/-! ## Parts -/

theorem keeps_read {x : Access} {f : Shared → α} (h : ∀ m, Unobserved x m base → Q (f m)) :
    Keeps base Q (read x f) :=
  fun m hm => ⟨rfl, h m hm⟩

theorem keeps_modify {x : Access} {u : Shared → Shared} {f : Shared → α} (h : ∀ m, Unobserved x m base → Q (f m)) :
    Keeps base Q (modify x u f) :=
  fun m hm => ⟨rfl, h m hm⟩

theorem keeps_call (c : Call) : Keeps [] (fun _ => True) (call c) := by
  refine ⟨rfl, fun a => ?_⟩
  cases a with
  | none => exact rfl
  | some r => exact ⟨rfl, trivial⟩

theorem keeps_allocate : Keeps base (fun _ => True) allocate := by
  intro b
  cases b with
  | true => exact ⟨rfl, trivial⟩
  | false => exact rfl

theorem keeps_platform : Keeps base (fun _ => True) platform := fun _ => ⟨rfl, trivial⟩

theorem keeps_pure {a : α} (h : Q a) : Keeps base Q (pure a) := ⟨rfl, h⟩

theorem keeps_ite {c : Prop} [Decidable c] {p q : Code α} (hp : Keeps base Q p) (hq : Keeps base Q q) :
    Keeps base Q (if c then p else q) := by
  split
  · exact hp
  · exact hq

theorem keeps_attempt {p : Code α} (h : Keeps base Q p) : Keeps base (fun _ => True) (attempt p) :=
  .rescue (.bind h fun _ _ => .ret trivial) (.ret trivial)

theorem keeps_threadSnapshot (record : ThreadRecord) : Keeps [] (fun _ => True) (threadSnapshot record) := by
  refine keeps_ite (.ret trivial) (.bind (keeps_attempt (keeps_call _)) fun _ _ => ?_)
  exact .bind (keeps_attempt (keeps_call _)) fun _ _ => keeps_attempt (keeps_call _)

/-- With nobody to notify there is no foreign call. -/
theorem keeps_notifyObservers {n : Nat} (h : base = [] ∨ n = 0) :
    Keeps base (fun _ => True) (notifyObservers hook n) := by
  refine .bind (Q := fun _ => True) ?_ fun _ _ => keeps_allocate
  rcases h with rfl | rfl
  · exact .each fun o _ => keeps_attempt (keeps_call _)
  · exact .each fun o ho => absurd ho (by simp)

theorem keeps_observableSnapshot (h : Lock.observable ∉ base) :
    Keeps base (fun o => Lock.iteration ∈ base → o = none ∨ o = some 0) observableSnapshot :=
  .locked h (keeps_read fun _ hm hi => hm (List.mem_cons_of_mem _ hi))

/-- A notification outside of the locks. -/
theorem keeps_notifyIfObserved {argument : Code Unit} (h : Keeps [] (fun _ => True) argument) :
    Keeps [] (fun _ => True) (notifyIfObserved hook argument) := by
  refine .bind (keeps_observableSnapshot (by simp)) fun o _ => ?_
  cases o with
  | none => exact keeps_pure trivial
  | some n => exact .bind h fun _ _ => keeps_notifyObservers (.inl rfl)

/-- A notification inside `_iterationMutex`. -/
theorem keeps_notifyIfObserved_iteration :
    Keeps [.iteration] (fun _ => True) (notifyIfObserved hook (pure ())) := by
  refine .bind (keeps_observableSnapshot (by simp)) fun o ho => ?_
  rcases ho (by simp) with rfl | rfl
  · exact keeps_pure trivial
  · exact .bind (Q := fun _ => True) (keeps_pure trivial) fun _ _ => keeps_notifyObservers (.inr rfl)

theorem keeps_notify : Keeps [] (fun _ => True) (notifyIfObserved hook (pure ())) :=
  keeps_notifyIfObserved (keeps_pure trivial)

theorem keeps_notifyDispatcher (h : base = [] ∨ Lock.initialization ∈ base) :
    Keeps base (fun _ => True) (notifyDispatcher hook) := by
  refine .bind (Q := fun n => base = [] ∨ n = 0) (keeps_read fun m hm => ?_) fun n hn => keeps_notifyObservers hn
  exact h.imp id hm

/-- A scope that only looks at the data. -/
theorem keeps_locked_read {l : Lock} {x : Access} {f : Shared → α} (h : l ∉ base) :
    Keeps base (fun _ => True) (Prog.locked l (read x f)) :=
  .locked h (keeps_read fun _ _ => trivial)

/-! ## The manager -/

theorem keeps_cleanupFailed : Keeps [] (fun _ => True) cleanupFailed :=
  .bind keeps_notify fun _ _ => .raise

theorem keeps_deleteClaimed (claimed : List ClaimedCleanupRecord) :
    Keeps [] (fun _ => True) (deleteClaimed claimed) := by
  refine .bind (Q := fun _ => True) (.each fun c _ => keeps_ite ?_ (keeps_pure trivial)) fun _ _ => keeps_notify
  exact .bind keeps_notify fun _ _ => .bind (keeps_call _) fun _ _ => keeps_pure trivial

/-- Without a thread in the snapshot nothing is asked. -/
theorem keeps_claimRecords {snapshot : List ThreadRecord} (h : ∀ record ∈ snapshot, record.thread = nullptr) :
    Keeps [.iteration] (fun _ => True) (claimRecords snapshot) := by
  induction snapshot with
  | nil => exact keeps_pure trivial
  | cons record rest ih =>
    have hrest := ih fun r hr => h r (List.mem_cons_of_mem _ hr)
    have hfirst : Keeps [.iteration] (fun _ => True) (claimRecord record) := by
      simp only [claimRecord, h record List.mem_cons_self, if_true]
      exact keeps_pure trivial
    exact .bind hfirst fun _ _ => .bind hrest fun _ _ => keeps_pure trivial

theorem keeps_claimAndRemove : Keeps [.iteration] (fun _ => True) claimAndRemove := by
  refine .bind (Q := fun snapshot => ∀ record ∈ snapshot, record.thread = nullptr) ?_ fun snapshot hsnapshot => ?_
  · exact .locked (by simp) (.bind keeps_allocate fun _ _ => keeps_read fun _ hm => hm)
  · refine .bind keeps_notifyIfObserved_iteration fun _ _ => .bind keeps_allocate fun _ _ => ?_
    exact .bind (keeps_claimRecords hsnapshot) fun _ _ => .locked (by simp) (keeps_modify fun _ _ => trivial)

/-- `_iterationMutex` is given back before anything is deleted or the failure is
published. -/
theorem keeps_cleanUpWithResult : Keeps [] (fun _ => True) cleanUpWithResult := by
  refine ⟨by simp, fun m _ => ?_⟩
  refine Prog.Respects.mono (Q := fun _ held => held = []) (E := fun held => held = []) ?_
    (fun _ _ h => ⟨h, trivial⟩) fun _ h => h
  show Prog.Respects _ _ _ (if decide (0 < m.activeIterations) = true then _ else _) _
  split
  · -- deferred
    refine ⟨by simp, fun m' _ => ⟨_, rfl, _, rfl, ?_⟩⟩
    exact keeps_notify.ends
  · refine .bind (.rescue (.bind (Prog.Respects.mono keeps_claimAndRemove ?_ ?_)))
    · rintro claimed _ ⟨rfl, -⟩
      exact ⟨_, rfl, (Prog.Tidy.rescue (keeps_deleteClaimed claimed) keeps_cleanupFailed).ends⟩
    · rintro _ rfl
      exact ⟨_, rfl, keeps_cleanupFailed.ends⟩

theorem keeps_endIteration : Keeps [] (fun _ => True) endIteration := by
  refine .bind (.locked (by simp) (keeps_modify (Q := fun _ => True) fun _ _ => trivial)) fun owed _ => ?_
  exact keeps_ite keeps_cleanUpWithResult (keeps_pure trivial)

theorem keeps_iterating {p : Code α} (h : Keeps [] Q p) : Keeps [] Q (iterating p) := by
  refine .bind (Q := fun _ => True) (.locked (by simp) (keeps_modify fun _ _ => trivial)) fun _ _ => ?_
  exact .afterwards h keeps_endIteration

/-- The snapshot of an iteration. -/
theorem keeps_snapshot {f : Shared → α} : Keeps [] (fun _ => True) (Prog.locked Lock.registry do
    allocate
    read .registry f) :=
  .locked (by simp) (.bind keeps_allocate fun _ _ => keeps_read fun _ _ => trivial)

theorem keeps_forEachThread : Keeps [] (fun _ => True) forEachThread :=
  keeps_iterating (.bind keeps_snapshot fun _ _ => .each fun _ _ => keeps_call _)

theorem keeps_withThread (id : UInt8) : Keeps [] (fun _ => True) (withThread id) := by
  refine keeps_iterating (.bind (keeps_locked_read (by simp)) fun result _ => ?_)
  cases result with
  | none => exact keeps_pure trivial
  | some record => exact keeps_ite (keeps_pure trivial) (keeps_call _)

theorem keeps_initializeWithResults : Keeps [] (fun _ => True) initializeWithResults := by
  refine keeps_iterating (.bind keeps_snapshot fun _ _ => .bind keeps_allocate fun _ _ => ?_)
  exact .bind (Q := fun _ => True) (.each fun _ _ => keeps_attempt (keeps_call _)) fun _ _ => keeps_notify

theorem keeps_insertThread (n : Nat) (t : ThreadPtr) (assigned : Bool) (requested : UInt8) :
    Keeps [] (fun _ => True) (insertThread n t assigned requested) := by
  refine .locked (by simp) (.bind (Q := fun _ => True) (keeps_read fun _ _ => trivial) fun inserted _ => ?_)
  split
  · exact .bind keeps_allocate fun _ _ => keeps_modify fun _ _ => trivial
  · exact keeps_pure trivial
  · exact .raise

theorem keeps_addThread (n : Nat) (t : ThreadPtr) (assigned : Bool) :
    Keeps [] (fun _ => True) (addThread n t assigned) := by
  refine .rescue (keeps_ite .raise ?_) (.bind keeps_notify fun _ _ => .raise)
  refine .bind (keeps_locked_read (by simp)) fun found _ => ?_
  cases found with
  | some record => exact keeps_pure trivial
  | none =>
    have hrequested : Keeps [] (fun _ => True) (requestThreadID t assigned) :=
      keeps_ite (keeps_pure trivial) (keeps_call _)
    refine .bind hrequested fun requested _ => .bind (keeps_insertThread n t assigned requested) fun record _ => ?_
    exact keeps_ite (keeps_notifyIfObserved (keeps_threadSnapshot _)) (keeps_pure trivial)

theorem keeps_removeThread (key : Manager.RemoveBy) : Keeps [] (fun _ => True) (removeThread key) := by
  refine .bind (.locked (by simp) (keeps_modify (Q := fun _ => True) fun _ _ => trivial)) fun removed _ => ?_
  cases removed with
  | none => exact keeps_pure trivial
  | some record => exact keeps_notifyIfObserved (keeps_threadSnapshot record)

theorem keeps_registerObserver : Keeps [] (fun _ => True) registerObserver := by
  have hensure : Keeps [] (fun _ => True) ensureObservable := by
    refine .locked (by simp) (.bind (Q := fun _ => True) (keeps_read fun _ _ => trivial) fun o _ => ?_)
    refine keeps_ite (keeps_pure trivial) (.bind keeps_platform fun made _ => ?_)
    exact keeps_ite (keeps_modify fun _ _ => trivial) (keeps_pure trivial)
  refine .bind hensure fun ensured _ => ?_
  exact keeps_ite (keeps_modify fun _ _ => trivial) (keeps_pure trivial)

theorem keeps_unregisterObserver : Keeps [] (fun _ => True) unregisterObserver := by
  refine .bind (keeps_observableSnapshot (by simp)) fun o _ => ?_
  cases o with
  | none => exact keeps_pure trivial
  | some n => exact keeps_modify fun _ _ => trivial

/-! ## The termination dispatcher -/

theorem keeps_initializeDispatcher : Keeps [] (fun _ => True) initializeDispatcher := by
  have hnotify : ∀ available : Bool, Keeps [.initialization] (fun _ => True)
      (do notifyDispatcher .onThreadTerminationDispatcherInitialized; pure available) :=
    fun _ => .bind (keeps_notifyDispatcher (.inr (by simp))) fun _ _ => keeps_pure trivial
  have hset : ∀ u : Shared → Shared, Keeps [.initialization] (fun _ => True) (modify .dispatcher u fun _ => ()) :=
    fun _ => keeps_modify fun _ _ => trivial
  refine .locked (by simp) (.bind (Q := fun _ => True) (keeps_read fun _ _ => trivial) fun available _ => ?_)
  refine keeps_ite (keeps_pure trivial) (.bind keeps_platform fun queue _ => ?_)
  refine keeps_ite (.bind (hset _) fun _ _ => .bind keeps_platform fun task _ => ?_) (hnotify false)
  exact keeps_ite (.bind (hset _) fun _ _ => hnotify true) (.bind (hset _) fun _ _ => hnotify false)

theorem keeps_dispatchSnapshot (t : ThreadPtr) : Keeps [] (fun _ => True) (dispatchSnapshot t) := by
  refine .bind (keeps_call _) fun _ _ => .bind (keeps_call _) fun _ _ => .bind (keeps_call _) fun _ _ => ?_
  exact .bind (keeps_call _) fun _ _ => .bind (keeps_call _) fun _ _ => keeps_pure trivial

theorem keeps_dispatch (t : ThreadPtr) : Keeps [] (fun _ => True) (dispatch t) := by
  have hsend : Keeps [] (fun _ => True) (Prog.locked Lock.initialization do
      if ← read .dispatcher (·.queue) then platform else pure false) := by
    refine .locked (by simp) (.bind (Q := fun _ => True) (keeps_read fun _ _ => trivial) fun queue _ => ?_)
    exact keeps_ite keeps_platform (keeps_pure trivial)
  refine keeps_ite (keeps_pure trivial) (.bind keeps_initializeDispatcher fun available _ => ?_)
  refine keeps_ite (.bind (keeps_dispatchSnapshot t) fun _ _ => .bind hsend fun queued _ => ?_) (keeps_pure trivial)
  exact keeps_ite (keeps_notifyDispatcher (.inl rfl)) (keeps_notifyDispatcher (.inl rfl))

theorem keeps_registerDispatcherObserver (o : Nat) :
    Keeps [] (fun _ => True) (registerDispatcherObserver o) := by
  refine .bind (Q := fun _ => True) (keeps_modify fun _ _ => trivial) fun _ _ => ?_
  refine .bind (keeps_locked_read (by simp)) fun available _ => ?_
  exact keeps_ite (keeps_attempt (keeps_call _)) (keeps_pure trivial)

theorem keeps_loop (t : ThreadPtr) : Keeps [] (fun _ => True) (loop t) := by
  refine keeps_ite (keeps_pure trivial) (.bind (keeps_notifyDispatcher (.inl rfl)) fun _ _ => ?_)
  refine .bind (keeps_call _) fun _ _ => .bind (keeps_attempt keeps_cleanUpWithResult) fun _ _ => ?_
  exact keeps_notifyDispatcher (.inl rfl)

/-! ## Every operation -/

theorem keeps_code (coreCount : Nat) (op : Op) : Keeps [] (fun _ => True) (op.code coreCount) := by
  have hskip : ∀ {α : Type} {p : Code α}, Keeps [] (fun _ => True) p →
      Keeps [] (fun _ => True) (p.bind fun _ => .ret ()) :=
    fun h => .bind h fun _ _ => .ret trivial
  cases op with
  | addThread t assigned => exact keeps_addThread coreCount t assigned
  | removeThread key => exact keeps_removeThread key
  | forEachThread => exact keeps_forEachThread
  | withThread id => exact keeps_withThread id
  | cleanUpWithResult => exact keeps_cleanUpWithResult
  | initializeWithResults => exact keeps_initializeWithResults
  | getThread id => exact .bind (keeps_locked_read (by simp)) fun _ _ => keeps_pure trivial
  | getThreadCount => exact hskip (keeps_locked_read (by simp))
  | registerObserver => exact keeps_registerObserver
  | unregisterObserver => exact keeps_unregisterObserver
  | ensureAvailable => exact hskip keeps_initializeDispatcher
  | isAvailable => exact hskip (keeps_locked_read (by simp))
  | readTaskHandle => exact hskip (keeps_locked_read (by simp))
  | dispatch t => exact keeps_dispatch t
  | registerDispatcherObserver o => exact keeps_registerDispatcherObserver o
  | unregisterDispatcherObserver => exact keeps_modify fun _ _ => trivial
  | loop t => exact keeps_loop t

/-- No foreign code runs under a lock, and no task waits for a lock of its own,
in every run whose passes and notifications inside the locks find nobody. -/
theorem lock_boundary (coreCount : Nat) (s : LockTask)
    (h : (tasks coreCount).ReachableWhen (Task.Granted Unobserved) s) : ¬ s.CallsLocked ∧ ¬ s.SelfDeadlocked := by
  have hbounded := Task.bounded_of_reachable (fun op => keeps_code coreCount op) h
  exact ⟨hbounded.not_callsLocked, hbounded.not_selfDeadlocked⟩

/-- An observer of the manager and of the dispatcher, and no thread. -/
def oneObserver : Shared := ⟨⟨[], 0⟩, 0, false, some 1, false, false, 1⟩

def startTask (m : Shared) : LockTask := ⟨m, [], []⟩

/-- `AddThread` up to the hook of its observer, which begins an iteration. -/
def registerAndIterate : List (Action Shared Call Op Call.Ret) :=
  .begin (.addThread 10 true) :: List.replicate 11 (.run true) ++
    List.replicate 3 (.answer fun | .getFreeOnTerminate _ | .getStartOnInitialize _ => some true | _ => none) ++
    [.begin .forEachThread, .run true]

theorem hook_may_iterate : ∃ s : LockTask, (tasks 1).ReachableWhen (Task.Granted Unobserved) s ∧
    (s.held = [.iteration] ∧ s.stack.length = 2) ∧ (¬ s.CallsLocked ∧ ¬ s.SelfDeadlocked) := by
  have hrun : ((tasks 1).replayWhen (Task.Granted Unobserved) (startTask oneObserver) registerAndIterate).map
      (fun s => (s.held, s.stack.length)) = some ([.iteration], 2) := by
    decide +kernel
  obtain ⟨s, hs, hp⟩ := Option.map_eq_some_iff.1 hrun
  have hr := System.reachableWhen_of_replayWhen (S := tasks 1) ⟨rfl, rfl⟩ hs
  exact ⟨s, hr, ⟨congrArg Prod.fst hp, congrArg Prod.snd hp⟩, lock_boundary 1 s hr⟩

/-- A pass up to the hook of `CleanupStarted`. -/
def startCleanup : List (Action Shared Call Op Call.Ret) :=
  .begin .cleanUpWithResult :: List.replicate 9 (.run true)

/-- The observer of a pass runs inside `_iterationMutex`, and deadlocks when it
begins an iteration. -/
theorem hook_under_iterationMutex :
    (¬ ∀ s : LockTask, (tasks 1).Reachable s → ¬ s.CallsLocked) ∧
    ¬ ∀ s : LockTask, (tasks 1).Reachable s → ¬ s.SelfDeadlocked := by
  constructor
  · intro hall
    have hrun : ((tasks 1).replay (startTask oneObserver) startCleanup).map (fun s => (s.held, s.calling)) =
        some ([.iteration], some (.observer 0 .onThreadCleanupStarted)) := by
      decide +kernel
    obtain ⟨s, hs, hp⟩ := Option.map_eq_some_iff.1 hrun
    have hr := System.reachable_of_replay (S := tasks 1) ⟨rfl, rfl⟩ hs
    have hheld : s.held = [.iteration] := congrArg Prod.fst hp
    exact hall s hr ⟨_, congrArg Prod.snd hp, by simp [hheld]⟩
  · intro hall
    have hrun : ((tasks 1).replay (startTask oneObserver) (startCleanup ++ [.begin .forEachThread])).map
        (fun s => (s.held, s.acquiring)) = some ([.iteration], some .iteration) := by
      decide +kernel
    obtain ⟨s, hs, hp⟩ := Option.map_eq_some_iff.1 hrun
    have hr := System.reachable_of_replay (S := tasks 1) ⟨rfl, rfl⟩ hs
    have hheld : s.held = [.iteration] := congrArg Prod.fst hp
    exact hall s hr ⟨.iteration, by simp [hheld], congrArg Prod.snd hp⟩

end ESPressio.Locks
