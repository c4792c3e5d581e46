import ESPressioThreads.Startup.Publication
/-!
# Attempts, observations and records

Over the log of a run: what an attempt finds is what a failed one leaves, the
task sees one queue and never a null one, and what is sent to a queue is what is
received from it and then what it holds. A call sends its record at one step, so
what it sent can be read off where it stands.
-/

namespace ESPressio.Startup

open Transition ESPressio.Thread ESPressio.Manager

variable {m m' : Machine} {i : CallId} {t : TaskId} {q : QueueId} {answer : Answer} {capacity : Nat}
  {l : List Event} {e : Option Event}

/-! ## What one step does -/

/-- A call adds a task at most, and that task has not run. -/
theorem stepCall_tasks (h : stepCall capacity m i answer = some m') :
    m'.tasks = m.tasks ∨ m'.tasks = m.tasks ++ [.testQueue] := by
  unfold stepCall stepAvailable stepInitialize stepDispatch at h
  split at h
  · cases h
  · cases h
  · split at h
    · split at h <;> cases h
      exact .inl rfl
    all_goals
      cases h
      exact .inl rfl
  · split at h
    · split at h <;> cases h
      exact .inl rfl
    · cases h
      exact .inl rfl
    · cases h
      exact .inl rfl
    · split at h <;> cases h <;> exact .inl rfl
    · cases h
      exact .inl rfl
    · split at h <;> cases h
      · exact .inr rfl
      · exact .inl rfl
    all_goals
      cases h
      exact .inl rfl
  · split at h
    · split at h <;> cases h
      exact .inl rfl
    · split at h <;> cases h
      exact .inl rfl
    · cases h
      exact .inl rfl
    · obtain ⟨q, -, h⟩ := Option.bind_eq_some_iff.1 h
      split at h
      · split at h <;> cases h
        exact .inl rfl
      · cases h
        exact .inl rfl
    all_goals
      cases h
      exact .inl rfl

/-- `_initialize` empties a queue only where the dispatcher is not available. -/
theorem stepInitialize_contents {dispatched : Option ThreadPtr} {pc : InitializePc}
    (hk : Knows m.resources (.ensuring dispatched pc)) (h : stepInitialize m i dispatched pc answer = some m') :
    m'.contents = m.contents ∨ ¬ m.resources.Available ∧ ∃ q, m'.contents = Function.update m.contents q [] := by
  have hreset : ∀ m'' : Machine, m''.contents = m.resetQueue.contents → ¬ m.resources.Available →
      m''.contents = m.contents ∨ ¬ m.resources.Available ∧ ∃ q, m''.contents = Function.update m.contents q [] := by
    intro m'' hc hno
    rw [hc]
    cases hq : m.queue with
    | none => exact .inl (by simp [Machine.resetQueue, hq])
    | some q => exact .inr ⟨hno, q, by simp [Machine.resetQueue, hq]⟩
  cases pc with
  | publish q =>
    cases h
    have hk : m.resources = .absent := hk
    exact hreset _ rfl (hk ▸ Resources.not_available_absent)
  | resetQueue =>
    cases h
    obtain ⟨q, hr⟩ := hk
    exact hreset _ rfl fun ha => absurd ha.taskHandle (by simp [hr])
  | lock | createQueue | createTask =>
    simp only [stepInitialize] at h
    split at h <;> cases h <;> exact .inl rfl
  | testQueue | testTaskHandle | storeTaskHandle | notifyInitialized | unlock =>
    cases h
    exact .inl rfl

/-- `Dispatch` sends its record, or it sends nothing. -/
theorem stepDispatch_contents {thread : ThreadPtr} {pc : DispatchPc} (hpc : m.calls i = .dispatching thread pc)
    (h : stepDispatch capacity m i thread pc answer = some m') :
    (∃ q record, callEvent m i answer = some (.sent q ⟨i, record⟩) ∧ m.queue = some q ∧
      m'.contents = Function.update m.contents q (m.contents q ++ [⟨i, record⟩])) ∨
    callEvent m i answer = none ∧ m'.contents = m.contents := by
  cases pc with
  | send record =>
    obtain ⟨q, hq, h⟩ := Option.bind_eq_some_iff.1 h
    split at h
    · rename_i ha
      split at h <;> cases h
      exact .inl ⟨q, record, by simp [callEvent, hpc, ha, hq], hq, rfl⟩
    · rename_i ha
      cases h
      exact .inr ⟨by simp [callEvent, hpc, ha], rfl⟩
  | snapshotThread =>
    cases answer <;> cases h
    exact .inr ⟨by simp [callEvent, hpc], rfl⟩
  | lock record =>
    simp only [stepDispatch] at h
    split at h <;> cases h
    exact .inr ⟨by simp [callEvent, hpc], rfl⟩
  | testQueue | unlock | notify =>
    cases h
    exact .inr ⟨by simp [callEvent, hpc], rfl⟩

/-- A call sends its record at the end of the queue, or it sends nothing, and
empties a queue only where the dispatcher is not available. -/
theorem stepCall_contents (hm : Sound m) (h : stepCall capacity m i answer = some m') :
    (∃ q record, callEvent m i answer = some (.sent q ⟨i, record⟩) ∧ m.queue = some q ∧ m.resources.Available ∧
      m'.contents = Function.update m.contents q (m.contents q ++ [⟨i, record⟩])) ∨
    ((∀ q message, callEvent m i answer ≠ some (.sent q message)) ∧
      (m'.contents = m.contents ∨
        ¬ m.resources.Available ∧ ∃ q, m'.contents = Function.update m.contents q [])) := by
  have hk := hm.knows i
  unfold stepCall at h
  cases hpc : m.calls i with
  | idle => simp [hpc] at h
  | returned request result => simp [hpc] at h
  | available pc =>
    simp only [hpc] at h
    refine .inr ⟨by simp [callEvent, hpc], .inl ?_⟩
    cases pc with
    | lock =>
      simp only [stepAvailable] at h
      split at h <;> cases h
      rfl
    | testQueue | testTaskHandle | unlock =>
      cases h
      rfl
  | ensuring dispatched pc =>
    simp only [hpc] at h hk
    refine .inr ⟨fun q message => ?_, stepInitialize_contents hk h⟩
    cases pc with
    | unlock available => cases available <;> simp [callEvent, hpc]
    | _ => simp [callEvent, hpc]
  | dispatching thread pc =>
    simp only [hpc] at h hk
    rcases stepDispatch_contents hpc h with ⟨q, record, he, hq, hc⟩ | ⟨he, hc⟩
    · exact .inl ⟨q, record, he, hq, hk, hc⟩
    · exact .inr ⟨by simp [he], .inl hc⟩

/-- Where a call of `IsAvailable` goes. -/
theorem stepAvailable_next {pc : AvailablePc} (h : stepAvailable m i pc = some m') :
    (∃ pc', m'.calls i = .available pc') ∨ ∃ available, m'.calls i = .returned .isAvailable available := by
  cases pc with
  | lock =>
    simp only [stepAvailable] at h
    split at h <;> cases h
    exact .inl ⟨.testQueue, by simp⟩
  | testQueue =>
    cases h
    exact .inl ⟨_, by rw [goto_calls, Function.update_self]⟩
  | testTaskHandle =>
    cases h
    exact .inl ⟨_, by rw [goto_calls, Function.update_self]⟩
  | unlock available =>
    cases h
    exact .inr ⟨available, by simp⟩

/-- Where `Dispatch` goes. -/
theorem stepDispatch_next {thread : ThreadPtr} {pc : DispatchPc}
    (h : stepDispatch capacity m i thread pc answer = some m') :
    (∃ pc', m'.calls i = .dispatching thread pc') ∨ ∃ queued, m'.calls i = .returned (.dispatch thread) queued := by
  cases pc with
  | snapshotThread =>
    cases answer <;> cases h
    exact .inl ⟨_, by rw [goto_calls, Function.update_self]⟩
  | lock record =>
    simp only [stepDispatch] at h
    split at h <;> cases h
    exact .inl ⟨_, by rw [goto_calls, Function.update_self]⟩
  | send record =>
    obtain ⟨q, -, h⟩ := Option.bind_eq_some_iff.1 h
    split at h
    · split at h <;> cases h
      exact .inl ⟨_, by rw [goto_calls, Function.update_self]⟩
    · cases h
      exact .inl ⟨_, by rw [goto_calls, Function.update_self]⟩
  | testQueue record | unlock record queued =>
    cases h
    exact .inl ⟨_, by rw [goto_calls, Function.update_self]⟩
  | notify record queued =>
    cases h
    exact .inr ⟨queued, by simp⟩

/-! ## The task and its queue -/

/-- An available dispatcher stays as it is. -/
theorem available_step {a : Action} (hm : Sound m) (ha : m.resources.Available) (h : step capacity m a = some m') :
    m'.resources = m.resources := by
  cases a with
  | call i request =>
    simp only [step] at h
    split at h <;> cases h
    rename_i hi
    obtain ⟨pc, hadv⟩ := advances_begin request hi
    exact hadv.resources.resolve_right fun hr => hr.2.1 ha
  | step i answer =>
    obtain ⟨pc, hadv⟩ := advances_call hm h
    exact hadv.resources.resolve_right fun hr => hr.2.1 ha
  | run t answer =>
    obtain ⟨pc, -, h⟩ := Option.bind_eq_some_iff.1 h
    exact (stepLoop_frame h).1

/-- While there is a task, its queue stays. -/
theorem stable_step {a : Action} (hm : Sound m) (ht : m.tasks ≠ []) (h : step capacity m a = some m') :
    m'.queue = m.queue ∧ m'.tasks ≠ [] := by
  have hsame : m'.resources = m.resources → m'.queue = m.queue ∧ m'.tasks ≠ [] := by
    intro hr
    have hlen : m'.tasks.length = m.tasks.length := congrArg Resources.tasks hr
    refine ⟨congrArg Resources.queue hr, List.ne_nil_of_length_pos ?_⟩
    rw [hlen]
    exact List.length_pos_of_ne_nil ht
  cases a with
  | call i request =>
    simp only [step] at h
    split at h <;> cases h
    rename_i hi
    obtain ⟨pc, ha⟩ := advances_begin request hi
    rcases ha.resources with hr | ⟨hh, -⟩
    · exact hsame hr
    · rw [hi] at hh; cases hh
  | step i answer =>
    obtain ⟨pc, ha⟩ := advances_call hm h
    rcases ha.resources with hr | ⟨-, -, hnil | ⟨hq, htasks⟩⟩
    · exact hsame hr
    · exact absurd hnil ht
    · exact ⟨hq, htasks ▸ ht⟩
  | run t answer =>
    obtain ⟨pc, -, h⟩ := Option.bind_eq_some_iff.1 h
    exact hsame (stepLoop_frame h).1

/-- There is no task yet, or there is one and a queue. -/
def Resources.Fed (r : Resources) : Prop := r.tasks = 0 ∨ r.tasks = 1 ∧ r.queue.isSome

theorem Resources.Available.fed {r : Resources} (h : r.Available) : r.Fed := .inr ⟨h.tasks, h.queue⟩

theorem Resources.Settled.fed {r : Resources} (h : r.Settled) : r.Fed := by
  rcases h with rfl | h
  · exact .inl rfl
  · exact h.fed

theorem Knows.fed {r : Resources} {pc : Pc} (hpc : pc.holds = true) (hk : Knows r pc) : r.Fed := by
  cases pc with
  | idle | returned => cases hpc
  | available pc =>
    cases pc with
    | lock => cases hpc
    | testQueue => exact Resources.Settled.fed hk
    | testTaskHandle => exact Resources.Available.fed hk
    | unlock available => exact (Resources.Result.settled hk).fed
  | ensuring dispatched pc =>
    cases pc with
    | lock => cases hpc
    | testQueue => exact Resources.Settled.fed hk
    | testTaskHandle => exact Resources.Available.fed hk
    | createQueue | publish => exact .inl (congrArg Resources.tasks hk)
    | createTask | resetQueue => obtain ⟨q, rfl⟩ := hk; exact .inl rfl
    | storeTaskHandle t => obtain ⟨q, rfl, -⟩ := hk; exact .inr ⟨rfl, rfl⟩
    | notifyInitialized available | unlock available => exact (Resources.Result.settled hk).fed
  | dispatching thread pc => exact Resources.Available.fed hk

theorem Sound.fed (hm : Sound m) : m.resources.Fed := by
  cases hmx : m.initializationMutex with
  | none => exact (hm.settled hmx).fed
  | some i => exact (hm.knows i).fed ((hm.mutex i).1 hmx)

/-- A task has a queue from its first step on. -/
theorem Sound.queue_of_task (hm : Sound m) (ht : m.tasks ≠ []) : ∃ q, m.queue = some q := by
  rcases hm.fed with h | h
  · exact absurd (List.length_eq_zero_iff.1 h) ht
  · exact Option.isSome_iff_exists.1 h.2

theorem Sound.tasks_le (hm : Sound m) : m.tasks.length ≤ 1 := by
  rcases hm.fed with h | h
  · exact Nat.le_trans (Nat.le_of_eq h) (Nat.zero_le 1)
  · exact Nat.le_of_eq h.1

/-- The queue that an event is about. -/
def Event.tells : Event → Option (Option QueueId)
  | .observed _ queue => some queue
  | .received _ q _ | .sent q _ => some (some q)
  | .attempt _ _ | .attemptFailed _ _ => none

/-- All that tasks observe, receive from and are sent records to is one queue. -/
structure Attached (m : Machine) (l : List Event) : Prop where
  receiving : ∀ q, LoopPc.receive q ∈ m.tasks → m.queue = some q
  running : LoopPc.crashed ∉ m.tasks
  tells : ∀ x ∈ l, ∀ queue, x.tells = some queue → queue = m.queue ∧ m.tasks ≠ []
  sent : ∀ q message, .sent q message ∈ l → m.resources.Available

/-- Where a task goes next. -/
theorem stepLoop_task {pc : LoopPc} (h : stepLoop m t answer pc = some m') : ∃ pc', m'.tasks = m.tasks.set t pc' ∧
    (∀ q, pc' = .receive q → m.queue = some q) ∧ (pc' = .crashed → m.queue = none) := by
  cases pc with
  | testQueue =>
    cases h
    exact ⟨_, rfl, by split <;> simp, by split <;> simp⟩
  | loadQueue =>
    cases h
    cases hq : m.queue with
    | none => exact ⟨.crashed, by simp [Machine.setTask, hq], (by rintro _ ⟨⟩), fun _ => rfl⟩
    | some q => exact ⟨.receive q, by simp [Machine.setTask, hq], fun q' h => by cases h; rfl, (by rintro ⟨⟩)⟩
  | crashed => cases h
  | receive q =>
    simp only [stepLoop] at h
    split at h
    · cases hc : m.contents q with
      | nil => simp [hc] at h
      | cons message rest =>
        rw [hc] at h
        cases h
        exact ⟨_, rfl, by split <;> simp, by split <;> simp⟩
    · cases h
      exact ⟨_, rfl, (by rintro _ ⟨⟩), (by rintro ⟨⟩)⟩
  | _ =>
    cases h
    exact ⟨_, rfl, (by rintro _ ⟨⟩), (by rintro ⟨⟩)⟩

/-- What a task's step reports. -/
theorem loopEvent_cases {pc : LoopPc} {x : Event} (hx : loopEvent m t answer pc = some x) :
    x = .observed t m.queue ∨ ∃ q message, pc = .receive q ∧ x = .received t q message := by
  cases pc with
  | testQueue | loadQueue =>
    cases hx
    exact .inl rfl
  | receive q =>
    simp only [loopEvent] at hx
    split at hx
    · obtain ⟨message, -, rfl⟩ := Option.map_eq_some_iff.1 hx
      exact .inr ⟨q, message, rfl, rfl⟩
    · cases hx
  | _ => cases hx

/-- What a call's step reports. -/
theorem callEvent_cases {x : Event} (hx : callEvent m i answer = some x) :
    (∃ dispatched, m.calls i = .ensuring dispatched .createQueue ∧ x = .attempt i m.resources) ∨
    (∃ dispatched, m.calls i = .ensuring dispatched (.unlock false) ∧ x = .attemptFailed i m.resources) ∨
    ∃ thread record q, m.calls i = .dispatching thread (.send record) ∧ m.queue = some q ∧ x = .sent q ⟨i, record⟩ := by
  unfold callEvent at hx
  split at hx
  · rename_i dispatched hpc
    cases hx
    exact .inl ⟨dispatched, hpc, rfl⟩
  · rename_i dispatched hpc
    cases hx
    exact .inr (.inl ⟨dispatched, hpc, rfl⟩)
  · rename_i thread record hpc
    split at hx
    · obtain ⟨q, hq, rfl⟩ := Option.map_eq_some_iff.1 hx
      exact .inr (.inr ⟨thread, record, q, hpc, hq, rfl⟩)
    · cases hx
  · cases hx

theorem callEvent_tells (hm : Sound m) {x : Event} (hx : callEvent m i answer = some x) {queue : Option QueueId}
    (hq : x.tells = some queue) : queue = m.queue ∧ m.resources.Available := by
  rcases callEvent_cases hx with ⟨_, -, rfl⟩ | ⟨_, -, rfl⟩ | ⟨thread, record, q, hpc, hqueue, rfl⟩
  · cases hq
  · cases hq
  · cases hq
    have hk := hm.knows i
    rw [hpc] at hk
    exact ⟨hqueue.symm, hk⟩

theorem Resources.Available.tasks_ne (ha : m.resources.Available) : m.tasks ≠ [] :=
  List.ne_nil_of_length_pos (ha.tasks.symm ▸ Nat.one_pos : 0 < m.resources.tasks)

/-- What a step tells, it tells of the queue there is. -/
theorem event_tells {a : Action} (hm : Sound m) (ha : Attached m l) {x : Event}
    (hx : event m a = some x) {queue : Option QueueId} (hq : x.tells = some queue) :
    queue = m.queue ∧ m.tasks ≠ [] := by
  cases a with
  | call i request => cases hx
  | step i answer =>
    obtain ⟨hqueue, hav⟩ := callEvent_tells hm hx hq
    exact ⟨hqueue, hav.tasks_ne⟩
  | run t answer =>
    obtain ⟨pc, hpc, hx⟩ := Option.bind_eq_some_iff.1 hx
    refine ⟨?_, List.ne_nil_of_mem (List.mem_of_getElem? hpc)⟩
    rcases loopEvent_cases hx with rfl | ⟨q, message, rfl, rfl⟩
    · cases hq
      rfl
    · cases hq
      exact (ha.receiving q (List.mem_of_getElem? hpc)).symm

/-- A step leaves each task where it was, or at a program counter that fits. -/
theorem tasks_step {a : Action} (hm : Sound m) (h : step capacity m a = some m') {pc : LoopPc}
    (hpc : pc ∈ m'.tasks) :
    pc ∈ m.tasks ∨ (∀ q, pc = .receive q → m.queue = some q ∧ m.tasks ≠ []) ∧ pc ≠ .crashed := by
  cases a with
  | call i request =>
    simp only [step] at h
    split at h <;> cases h
    left
    cases request with
    | isAvailable | ensureAvailable => exact hpc
    | dispatch thread =>
      simp only [begin] at hpc
      split at hpc <;> exact hpc
  | step i answer =>
    rcases stepCall_tasks h with ht | ht
    · exact .inl (ht ▸ hpc)
    · rw [ht, List.mem_append, List.mem_singleton] at hpc
      rcases hpc with hpc | rfl
      · exact .inl hpc
      · exact .inr ⟨(by rintro _ ⟨⟩), (by rintro ⟨⟩)⟩
  | run t answer =>
    obtain ⟨pc₀, hpc₀, h⟩ := Option.bind_eq_some_iff.1 h
    have hne : m.tasks ≠ [] := List.ne_nil_of_mem (List.mem_of_getElem? hpc₀)
    obtain ⟨pc', ht, hreceive, hcrash⟩ := stepLoop_task h
    rw [ht] at hpc
    rcases List.mem_or_eq_of_mem_set hpc with hpc | rfl
    · exact .inl hpc
    · refine .inr ⟨fun q hq => ⟨hreceive q hq, hne⟩, fun hc => ?_⟩
      obtain ⟨q, hq⟩ := hm.queue_of_task hne
      rw [hcrash hc] at hq
      cases hq

theorem attached_step {a : Action} (hm : Sound m) (ha : Attached m l) (h : step capacity m a = some m') :
    Attached m' (l ++ (event m a).toList) := by
  refine ⟨fun q hq => ?_, fun hc => ?_, fun x hx queue hqueue => ?_, fun q message hx => ?_⟩
  · have hold : m.queue = some q ∧ m.tasks ≠ [] := by
      rcases tasks_step hm h hq with hq | ⟨hq, -⟩
      · exact ⟨ha.receiving q hq, List.ne_nil_of_mem hq⟩
      · exact hq q rfl
    exact (stable_step hm hold.2 h).1.trans hold.1
  · rcases tasks_step hm h hc with hc | ⟨-, hc⟩
    · exact ha.running hc
    · exact hc rfl
  · have hold : queue = m.queue ∧ m.tasks ≠ [] := by
      rcases List.mem_append.1 hx with hx | hx
      · exact ha.tells x hx queue hqueue
      · exact event_tells hm ha (Option.mem_toList.1 hx) hqueue
    obtain ⟨hq, hne⟩ := stable_step hm hold.2 h
    exact ⟨hold.1.trans hq.symm, hne⟩
  · have hav : m.resources.Available := by
      rcases List.mem_append.1 hx with hx | hx
      · exact ha.sent q message hx
      · cases a with
        | call => cases hx
        | step i answer => exact (callEvent_tells hm (Option.mem_toList.1 hx) rfl).2
        | run t answer =>
          obtain ⟨pc, -, hx⟩ := Option.bind_eq_some_iff.1 (Option.mem_toList.1 hx)
          rcases loopEvent_cases hx with hx | ⟨_, _, -, hx⟩ <;> cases hx
    rw [available_step hm hav h]
    exact hav

/-! ## Nothing lost, nothing twice -/

def Event.sentTo (q : QueueId) : Event → Option Message
  | .sent q' message => if q' = q then some message else none
  | _ => none

def Event.receivedFrom (q : QueueId) : Event → Option Message
  | .received _ q' message => if q' = q then some message else none
  | _ => none

/-- What is sent to a queue was received from it, in order, or is in it. -/
def Conserved (m : Machine) (l : List Event) : Prop :=
  ∀ q, l.filterMap (Event.sentTo q) = l.filterMap (Event.receivedFrom q) ++ m.contents q

theorem filterMap_log {β : Type} (f : Event → Option β) :
    (l ++ e.toList).filterMap f = l.filterMap f ++ (e.bind f).toList := by
  cases e with
  | none => simp
  | some x => cases hx : f x <;> simp [hx]

theorem stepLoop_contents {pc : LoopPc} (h : stepLoop m t answer pc = some m') :
    (∃ q message rest, loopEvent m t answer pc = some (.received t q message) ∧ m.contents q = message :: rest ∧
      m'.contents = Function.update m.contents q rest) ∨
    ((∀ q message, loopEvent m t answer pc ≠ some (.received t q message)) ∧ m'.contents = m.contents) := by
  cases pc with
  | receive q =>
    simp only [stepLoop] at h
    simp only [loopEvent]
    split at h
    · rename_i hanswer
      cases hc : m.contents q with
      | nil => simp [hc] at h
      | cons message rest =>
        rw [hc] at h
        cases h
        exact .inl ⟨q, message, rest, by simp [hanswer], hc, rfl⟩
    · rename_i hanswer
      cases h
      exact .inr ⟨by simp [hanswer], rfl⟩
  | crashed => cases h
  | _ =>
    cases h
    exact .inr ⟨by simp [loopEvent], rfl⟩

theorem conserved_call (hm : Sound m) (ha : Attached m l) (hc : Conserved m l)
    (h : stepCall capacity m i answer = some m') : Conserved m' (l ++ (callEvent m i answer).toList) := by
  intro q
  have hq := hc q
  rw [filterMap_log, filterMap_log]
  rcases stepCall_contents hm h with ⟨q', record, he, -, -, hc'⟩ | ⟨hno, hc'⟩
  · rw [he, hc']
    by_cases hqq : q' = q
    · subst hqq
      simp [Event.sentTo, Event.receivedFrom, hq]
    · simp [Event.sentTo, Event.receivedFrom, hqq, Ne.symm hqq, hq]
  · have hquiet : (callEvent m i answer).bind (Event.sentTo q) = none ∧
        (callEvent m i answer).bind (Event.receivedFrom q) = none := by
      cases hx : callEvent m i answer with
      | none => exact ⟨rfl, rfl⟩
      | some x =>
        rcases callEvent_cases hx with ⟨_, -, rfl⟩ | ⟨_, -, rfl⟩ | ⟨_, record, q', -, -, rfl⟩
        · exact ⟨rfl, rfl⟩
        · exact ⟨rfl, rfl⟩
        · exact absurd hx (hno q' _)
    rw [hquiet.1, hquiet.2]
    rcases hc' with hc' | ⟨hav, q', hc'⟩
    · simpa [hc'] using hq
    · -- Nothing was sent, so the queue that is emptied is empty.
      have hsent : l.filterMap (Event.sentTo q) = [] := by
        refine List.filterMap_eq_nil_iff.2 fun x hx => ?_
        cases x with
        | sent q message => exact absurd (ha.sent q message hx) hav
        | _ => rfl
      have hempty : m.contents q = [] := (List.append_eq_nil_iff.1 (hq.symm.trans hsent)).2
      have hsame : m'.contents q = [] := by
        rw [hc']
        by_cases hqq : q = q'
        · rw [hqq, Function.update_self]
        · rw [Function.update_of_ne hqq, hempty]
      simpa [hsame, hempty] using hq

theorem conserved_step {a : Action} (hm : Sound m) (ha : Attached m l) (hc : Conserved m l)
    (h : step capacity m a = some m') : Conserved m' (l ++ (event m a).toList) := by
  cases a with
  | call i request =>
    simp only [step] at h
    split at h <;> cases h
    intro q
    have hsame : (begin m i request).contents = m.contents := by
      cases request with
      | isAvailable | ensureAvailable => rfl
      | dispatch thread => simp only [begin]; split <;> rfl
    simpa [event, hsame] using hc q
  | step i answer => exact conserved_call hm ha hc h
  | run t answer =>
    obtain ⟨pc, hpc, h⟩ := Option.bind_eq_some_iff.1 h
    have he : event m (.run t answer) = loopEvent m t answer pc := by simp [event, hpc]
    intro q
    have hq := hc q
    rw [filterMap_log, filterMap_log, he]
    have hsent : (loopEvent m t answer pc).bind (Event.sentTo q) = none := by
      cases hx : loopEvent m t answer pc with
      | none => rfl
      | some x => rcases loopEvent_cases hx with rfl | ⟨_, _, -, rfl⟩ <;> rfl
    rw [hsent]
    rcases stepLoop_contents h with ⟨q', message, rest, he, hcons, hc'⟩ | ⟨hno, hc'⟩
    · rw [he, hc']
      by_cases hqq : q' = q
      · subst hqq
        simp [Event.receivedFrom, hq, hcons]
      · simp [Event.receivedFrom, hqq, Ne.symm hqq, hq]
    · have hreceived : (loopEvent m t answer pc).bind (Event.receivedFrom q) = none := by
        cases hx : loopEvent m t answer pc with
        | none => rfl
        | some x =>
          rcases loopEvent_cases hx with rfl | ⟨q', message, -, rfl⟩
          · rfl
          · exact absurd hx (hno q' message)
      simpa [hreceived, hc'] using hq

/-! ## What a call has sent -/

def Event.sentBy (i : CallId) : Event → Option (QueueId × DispatchRecord)
  | .sent q message => if message.sender = i then some (q, message.record) else none
  | _ => none

/-- The records that call `i` sent, with their queues. -/
def sendsOf (i : CallId) (l : List Event) : List (QueueId × DispatchRecord) := l.filterMap (Event.sentBy i)

/-- One record of the thread was sent, or none. -/
def SentOne (thread : ThreadPtr) : Bool → List (QueueId × DispatchRecord) → Prop
  | false, sends => sends = []
  | true, sends => ∃ q record, sends = [(q, record)] ∧ record.threadPointer = thread

/-- What a call has sent where it stands. -/
def Sends : Pc → List (QueueId × DispatchRecord) → Prop
  | .dispatching thread (.lock record), sends | .dispatching thread (.testQueue record), sends
  | .dispatching thread (.send record), sends => sends = [] ∧ record.threadPointer = thread
  | .dispatching thread (.unlock _ queued), sends | .dispatching thread (.notify _ queued), sends =>
    SentOne thread queued sends
  | .returned (.dispatch thread) queued, sends => SentOne thread queued sends
  | _, sends => sends = []

theorem sends_afterEnsure {dispatched : Option ThreadPtr} {available : Bool} :
    Sends (afterEnsure dispatched available) [] := by
  cases dispatched <;> cases available <;> rfl

theorem sends_begin (request : Request) : Sends ((begin m i request).calls i) [] := by
  cases request with
  | isAvailable | ensureAvailable => simp [begin, Sends]
  | dispatch thread => simp only [begin]; split <;> simp [Sends, SentOne]

theorem sends_initialize {dispatched : Option ThreadPtr} {pc : InitializePc}
    (h : stepInitialize m i dispatched pc answer = some m') : Sends (m'.calls i) [] := by
  cases pc with
  | lock | createQueue | createTask =>
    simp only [stepInitialize] at h
    split at h <;> cases h <;> simp [Sends]
  | unlock available =>
    cases h
    rw [goto_calls, Function.update_self]
    exact sends_afterEnsure
  | testQueue | testTaskHandle | publish | resetQueue | storeTaskHandle | notifyInitialized =>
    cases h
    simp [Sends]

theorem sends_dispatch {thread : ThreadPtr} {pc : DispatchPc} {sends : List (QueueId × DispatchRecord)}
    (hpc : m.calls i = .dispatching thread pc) (hs : Sends (.dispatching thread pc) sends)
    (h : stepDispatch capacity m i thread pc answer = some m') :
    Sends (m'.calls i) (sends ++ ((callEvent m i answer).bind (Event.sentBy i)).toList) := by
  cases pc with
  | snapshotThread =>
    cases answer <;> cases h
    have hs : sends = [] := hs
    simp [callEvent, hpc, Sends, hs]
  | lock record =>
    simp only [stepDispatch] at h
    split at h <;> cases h
    simpa [callEvent, hpc, Sends] using hs
  | testQueue record =>
    cases h
    obtain ⟨rfl, hthread⟩ := hs
    rw [goto_calls, Function.update_self]
    split <;> simp [callEvent, hpc, Sends, SentOne, hthread]
  | send record =>
    obtain ⟨rfl, hthread⟩ := hs
    obtain ⟨q, hq, h⟩ := Option.bind_eq_some_iff.1 h
    split at h
    · rename_i ha
      split at h <;> cases h
      simp [callEvent, hpc, ha, hq, Sends, SentOne, Event.sentBy, hthread]
    · rename_i ha
      cases h
      simp [callEvent, hpc, ha, Sends, SentOne]
  | unlock record queued =>
    cases h
    simpa [callEvent, hpc, Sends] using hs
  | notify record queued =>
    cases h
    simpa [callEvent, hpc, Sends] using hs

theorem sends_call {sends : List (QueueId × DispatchRecord)} (hs : Sends (m.calls i) sends)
    (h : stepCall capacity m i answer = some m') :
    Sends (m'.calls i) (sends ++ ((callEvent m i answer).bind (Event.sentBy i)).toList) := by
  unfold stepCall at h
  cases hpc : m.calls i with
  | idle => simp [hpc] at h
  | returned request result => simp [hpc] at h
  | available pc =>
    simp only [hpc] at h hs
    have hs : sends = [] := by cases pc <;> exact hs
    have he : callEvent m i answer = none := by simp [callEvent, hpc]
    rcases stepAvailable_next h with ⟨pc', hc⟩ | ⟨available, hc⟩ <;> rw [hc, he, hs] <;> rfl
  | ensuring dispatched pc =>
    simp only [hpc] at h hs
    have hs : sends = [] := by cases pc <;> exact hs
    have he : (callEvent m i answer).bind (Event.sentBy i) = none := by
      cases hx : callEvent m i answer with
      | none => rfl
      | some x =>
        rcases callEvent_cases hx with ⟨_, -, rfl⟩ | ⟨_, -, rfl⟩ | ⟨_, _, _, hpc', -⟩
        · rfl
        · rfl
        · rw [hpc] at hpc'; cases hpc'
    simpa [he, hs] using sends_initialize h
  | dispatching thread pc =>
    simp only [hpc] at h hs
    exact sends_dispatch hpc hs h

/-- What a step of another party reports was not sent by `i`. -/
theorem sentBy_other {a : Action} (ha : ∀ answer, a ≠ .step i answer) :
    (event m a).bind (Event.sentBy i) = none := by
  cases hx : event m a with
  | none => rfl
  | some x =>
    cases a with
    | call => cases hx
    | step j answer =>
      have hj : j ≠ i := fun hj => ha answer (hj ▸ rfl)
      rcases callEvent_cases hx with ⟨_, -, rfl⟩ | ⟨_, -, rfl⟩ | ⟨_, _, _, -, -, rfl⟩
      · rfl
      · rfl
      · simp [Event.sentBy, hj]
    | run t answer =>
      obtain ⟨pc, -, hx⟩ := Option.bind_eq_some_iff.1 hx
      rcases loopEvent_cases hx with rfl | ⟨_, _, -, rfl⟩ <;> rfl

/-- The calls after a step: only the one that moves is elsewhere. -/
theorem calls_step {a : Action} (hm : Sound m) (h : step capacity m a = some m') :
    (∃ request, a = .call i request ∧ m.calls i = .idle ∧ m' = begin m i request) ∨
    (∃ answer, a = .step i answer ∧ stepCall capacity m i answer = some m') ∨
    (∀ answer, a ≠ .step i answer) ∧ m'.calls i = m.calls i := by
  cases a with
  | call j request =>
    simp only [step] at h
    split at h <;> cases h
    rename_i hidle
    by_cases hj : i = j
    · subst hj
      exact .inl ⟨request, rfl, hidle, rfl⟩
    · obtain ⟨pc, ha⟩ := advances_begin request hidle
      exact .inr (.inr ⟨(by rintro _ ⟨⟩), by rw [ha.calls, Function.update_of_ne hj]⟩)
  | step j answer =>
    by_cases hj : i = j
    · subst hj
      exact .inr (.inl ⟨answer, rfl, h⟩)
    · obtain ⟨pc, ha⟩ := advances_call hm h
      exact .inr (.inr ⟨fun answer he => hj (by cases he; rfl), by rw [ha.calls, Function.update_of_ne hj]⟩)
  | run t answer =>
    obtain ⟨pc, -, h⟩ := Option.bind_eq_some_iff.1 h
    exact .inr (.inr ⟨(by rintro _ ⟨⟩), by rw [(stepLoop_frame h).2.1]⟩)

theorem sends_step {a : Action} (hm : Sound m) (hs : ∀ i, Sends (m.calls i) (sendsOf i l))
    (h : step capacity m a = some m') (i : CallId) : Sends (m'.calls i) (sendsOf i (l ++ (event m a).toList)) := by
  have hs := hs i
  rw [sendsOf, filterMap_log]
  rcases calls_step (i := i) hm h with ⟨request, rfl, hidle, rfl⟩ | ⟨answer, rfl, h⟩ | ⟨ha, hc⟩
  · rw [hidle] at hs
    have hs : l.filterMap (Event.sentBy i) = [] := hs
    simpa [event, hs] using sends_begin request
  · exact sends_call hs h
  · rw [sentBy_other ha, hc]
    simpa [sendsOf] using hs

/-! ## Attempts -/

/-- An attempt of the call has begun and did not yet succeed. -/
def Pc.attempting : Pc → Bool
  | .ensuring _ (.publish _) | .ensuring _ .createTask | .ensuring _ .resetQueue
  | .ensuring _ (.notifyInitialized false) | .ensuring _ (.unlock false) => true
  | _ => false

/-- What an attempt finds is what it leaves when it fails: nothing. -/
structure Attempted (m : Machine) (l : List Event) : Prop where
  found : ∀ i found, .attempt i found ∈ l → found = .absent
  begun : ∀ i, (m.calls i).attempting = true → .attempt i .absent ∈ l
  failed : ∀ i left, .attemptFailed i left ∈ l → left = .absent ∧ .attempt i .absent ∈ l
  refused : ∀ i, m.calls i = .returned .ensureAvailable false → .attemptFailed i .absent ∈ l

theorem attempting_call (h : stepCall capacity m i answer = some m') (ha : (m'.calls i).attempting = true) :
    (m.calls i).attempting = true ∨ callEvent m i answer = some (.attempt i m.resources) := by
  unfold stepCall at h
  cases hpc : m.calls i with
  | idle => simp [hpc] at h
  | returned request result => simp [hpc] at h
  | available pc =>
    simp only [hpc] at h
    rcases stepAvailable_next h with ⟨pc', hc⟩ | ⟨available, hc⟩ <;> rw [hc] at ha <;> cases ha
  | ensuring dispatched pc =>
    simp only [hpc] at h
    cases pc with
    | lock =>
      simp only [stepInitialize] at h
      split at h <;> cases h
      simp [Pc.attempting] at ha
    | createQueue => exact .inr (by simp [callEvent, hpc])
    | publish | createTask | resetQueue => exact .inl rfl
    | testQueue | testTaskHandle =>
      cases h
      rw [goto_calls, Function.update_self] at ha
      split at ha <;> cases ha
    | storeTaskHandle t =>
      cases h
      simp [Pc.attempting] at ha
    | notifyInitialized available =>
      cases h
      cases available
      · exact .inl rfl
      · simp [Pc.attempting] at ha
    | unlock available =>
      cases h
      rw [goto_calls, Function.update_self] at ha
      cases dispatched <;> cases available <;> cases ha
  | dispatching thread pc =>
    simp only [hpc] at h
    rcases stepDispatch_next h with ⟨pc', hc⟩ | ⟨queued, hc⟩ <;> rw [hc] at ha <;> cases ha

/-- `EnsureAvailable` reports `false` at the end of a failed attempt only. -/
theorem refused_call (h : stepCall capacity m i answer = some m')
    (hr : m'.calls i = .returned .ensureAvailable false) :
    callEvent m i answer = some (.attemptFailed i m.resources) := by
  unfold stepCall at h
  cases hpc : m.calls i with
  | idle => simp [hpc] at h
  | returned request result => simp [hpc] at h
  | available pc =>
    simp only [hpc] at h
    rcases stepAvailable_next h with ⟨pc', hc⟩ | ⟨available, hc⟩ <;> rw [hc] at hr <;> cases hr
  | ensuring dispatched pc =>
    simp only [hpc] at h
    cases pc with
    | lock | createQueue | createTask =>
      simp only [stepInitialize] at h
      split at h <;> cases h <;> simp at hr
    | unlock available =>
      cases h
      rw [goto_calls, Function.update_self] at hr
      cases available with
      | false => simp [callEvent, hpc]
      | true => cases dispatched <;> cases hr
    | testQueue | testTaskHandle | publish | resetQueue | storeTaskHandle | notifyInitialized =>
      cases h
      simp at hr
  | dispatching thread pc =>
    simp only [hpc] at h
    rcases stepDispatch_next h with ⟨pc', hc⟩ | ⟨queued, hc⟩ <;> rw [hc] at hr <;> cases hr

/-- A call that begins is not there yet. -/
theorem begin_next (request : Request) : ((begin m i request).calls i).attempting = false ∧
    (begin m i request).calls i ≠ .returned .ensureAvailable false := by
  cases request with
  | isAvailable | ensureAvailable => simp [begin, Pc.attempting]
  | dispatch thread => simp only [begin]; split <;> simp [Pc.attempting]

theorem attempted_step {a : Action} (hm : Sound m) (ha : Attempted m l) (h : step capacity m a = some m') :
    Attempted m' (l ++ (event m a).toList) := by
  have hkeep : ∀ x ∈ l, x ∈ l ++ (event m a).toList := fun x hx => List.mem_append_left _ hx
  have hnew : ∀ x, event m a = some x → x ∈ l ++ (event m a).toList := fun x hx =>
    List.mem_append_right _ (Option.mem_toList.2 hx)
  -- What the event of the step can be, if it is about an attempt.
  have hevent : ∀ x, event m a = some x → (∀ i found, x = .attempt i found → found = .absent) ∧
      ∀ i left, x = .attemptFailed i left → left = .absent ∧ .attempt i .absent ∈ l := by
    intro x hx
    cases a with
    | call => cases hx
    | step j answer =>
      have hk := hm.knows j
      rcases callEvent_cases hx with ⟨_, hpc, rfl⟩ | ⟨_, hpc, rfl⟩ | ⟨_, _, _, -, -, rfl⟩
      · rw [hpc] at hk
        exact ⟨fun i found h => by cases h; exact hk, nofun⟩
      · rw [hpc] at hk
        refine ⟨nofun, fun i left h => ?_⟩
        cases h
        exact ⟨hk, ha.begun j (by rw [hpc]; rfl)⟩
      · exact ⟨nofun, nofun⟩
    | run t answer =>
      obtain ⟨pc, -, hx⟩ := Option.bind_eq_some_iff.1 hx
      rcases loopEvent_cases hx with rfl | ⟨_, _, -, rfl⟩ <;> exact ⟨nofun, nofun⟩
  refine ⟨fun i found hx => ?_, fun i hi => ?_, fun i left hx => ?_, fun i hi => ?_⟩
  · rcases List.mem_append.1 hx with hx | hx
    · exact ha.found i found hx
    · exact (hevent _ (Option.mem_toList.1 hx)).1 i found rfl
  · rcases calls_step (i := i) hm h with ⟨request, rfl, hidle, rfl⟩ | ⟨answer, rfl, h⟩ | ⟨-, hc⟩
    · exact absurd hi (Bool.eq_false_iff.1 (begin_next request).1)
    · rcases attempting_call h hi with hi | he
      · exact hkeep _ (ha.begun i hi)
      · have hr := (hevent _ he).1 i _ rfl
        exact hnew _ (hr ▸ he)
    · exact hkeep _ (ha.begun i (hc ▸ hi))
  · rcases List.mem_append.1 hx with hx | hx
    · exact (ha.failed i left hx).imp_right (hkeep _)
    · exact ((hevent _ (Option.mem_toList.1 hx)).2 i left rfl).imp_right (hkeep _)
  · rcases calls_step (i := i) hm h with ⟨request, rfl, hidle, rfl⟩ | ⟨answer, rfl, h⟩ | ⟨-, hc⟩
    · exact absurd hi (begin_next request).2
    · have he := refused_call h hi
      have hr := ((hevent _ he).2 i _ rfl).1
      exact hnew _ (hr ▸ he)
    · exact hkeep _ (ha.refused i (hc ▸ hi))

/-! ## Start-up -/

/-- The log of a run, with the state it ends in. -/
structure Recorded (m : Machine) (l : List Event) : Prop where
  attached : Attached m l
  conserved : Conserved m l
  sends : ∀ i, Sends (m.calls i) (sendsOf i l)
  attempted : Attempted m l

theorem recorded_start : Recorded .start [] where
  attached := ⟨by simp [Machine.start], by simp [Machine.start], by simp, by simp⟩
  conserved _ := rfl
  sends _ := rfl
  attempted := ⟨by simp, by simp [Machine.start, Pc.attempting], by simp, by simp [Machine.start]⟩

theorem recorded_step {a : Action} (hm : Sound m) (hr : Recorded m l) (h : step capacity m a = some m') :
    Recorded m' (l ++ (event m a).toList) where
  attached := attached_step hm hr.attached h
  conserved := conserved_step hm hr.attached hr.conserved h
  sends := sends_step hm hr.sends h
  attempted := attempted_step hm hr.attempted h

theorem recorded_of_reachable {x : Machine × List Event} (h : (startup capacity).Reachable x) :
    Sound x.1 ∧ Recorded x.1 x.2 := by
  refine ⟨sound_of_reachable (System.reachable_of_logged h), ?_⟩
  refine h.invariant_with (J := fun x => Sound x.1) (I := fun x => Recorded x.1 x.2)
    (fun x hx => sound_of_reachable (System.reachable_of_logged hx)) ?_ ?_
  · rintro ⟨m, l⟩ ⟨hm, hl⟩
    obtain rfl : m = .start := hm
    obtain rfl : l = [] := hl
    exact recorded_start
  · rintro ⟨m, l⟩ a ⟨m', l'⟩ hm - hr - hs
    obtain ⟨hst, hl⟩ := System.logged_step.1 hs
    obtain rfl : l' = l ++ (event m a).toList := hl
    exact recorded_step hm hr hst

/-- From where nothing is there an `EnsureAvailable` succeeds, if both
creations do. -/
theorem ensureAvailable_succeeds (hr : m.resources = .absent) (hfree : m.initializationMutex = none)
    (hi : m.calls i = .idle) :
    ∃ m', (machine capacity).Leads (fun _ _ => True) m m' ∧ m'.calls i = .returned .ensureAvailable true := by
  have hq : m.queue = none := congrArg Resources.queue hr
  obtain ⟨m', hm', hc⟩ : ∃ m', (machine capacity).replay m
      (.call i .ensureAvailable :: List.replicate 8 (.step i .succeeds)) = some m' ∧
      m'.calls i = .returned .ensureAvailable true := by
    simp [System.replay, machine, step, hi, begin, stepCall, stepInitialize, Machine.goto, Machine.lock, hfree, hq,
      Machine.publish, Machine.resetQueue, Machine.unlock, afterEnsure, List.replicate]
  exact ⟨m', System.leads_of_replay hm', hc⟩

/-- The dispatcher as its users rely on it. -/
structure Published (capacity : Nat) (m : Machine) (l : List Event) : Prop where
  oneTask : m.tasks.length ≤ 1
  neverNull : (∀ t, .observed t none ∉ l) ∧ LoopPc.crashed ∉ m.tasks
  /-- A call that returned `true`, of `IsAvailable` or another. -/
  available : ∀ i request, m.calls i = .returned request true →
    m.queue.isSome ∧ ∃ t < m.tasks.length, m.taskHandle = some t
  /-- A failed attempt leaves what it found, and that is nothing. -/
  failed : ∀ i left, .attemptFailed i left ∈ l → .attempt i left ∈ l ∧ left = ⟨none, none, 0⟩
  refused : ∀ i, m.calls i = .returned .ensureAvailable false → .attemptFailed i ⟨none, none, 0⟩ ∈ l
  retryable : m.initializationMutex = none → m.taskHandle = none → ∀ i, m.calls i = .idle →
    ∃ m', (machine capacity).Leads (fun _ _ => True) m m' ∧ m'.calls i = .returned .ensureAvailable true
  /-- The record of a `Dispatch` that returned `true` was sent once, to the queue
  that the task observes and receives from. -/
  sentOnce : ∀ i thread, m.calls i = .returned (.dispatch thread) true → ∃ q record,
    sendsOf i l = [(q, record)] ∧ record.threadPointer = thread ∧ m.queue = some q ∧
    ∀ x ∈ l, ∀ queue, x.tells = some queue → queue = some q
  notSent : ∀ i thread, m.calls i = .returned (.dispatch thread) false → sendsOf i l = []
  conserved : ∀ q, l.filterMap (Event.sentTo q) = l.filterMap (Event.receivedFrom q) ++ m.contents q

theorem startup_publication {x : Machine × List Event} (h : (startup capacity).Reachable x) :
    Published capacity x.1 x.2 := by
  obtain ⟨m, l⟩ := x
  obtain ⟨hm, hr⟩ : Sound m ∧ Recorded m l := recorded_of_reachable h
  have htells : ∀ x ∈ l, ∀ queue, x.tells = some queue → queue = m.queue := fun x hx queue hq =>
    (hr.attached.tells x hx queue hq).1
  refine ⟨hm.tasks_le, ⟨fun t ht => ?_, hr.attached.running⟩, fun i request hi => ?_, fun i left hx => ?_,
    hr.attempted.refused, fun hfree hh i hi => ?_, fun i thread hi => ?_, fun i thread hi => ?_, hr.conserved⟩
  · obtain ⟨hq, hne⟩ := hr.attached.tells _ ht none rfl
    obtain ⟨q, hq'⟩ := hm.queue_of_task hne
    rw [hq'] at hq
    cases hq
  · have hk := hm.knows i
    rw [hi] at hk
    have ha : m.resources.Available := hk rfl
    have ht : m.tasks.length = 1 := ha.tasks
    exact ⟨ha.queue, 0, Nat.lt_of_lt_of_eq Nat.one_pos ht.symm, ha.taskHandle⟩
  · obtain ⟨rfl, hb⟩ := hr.attempted.failed i left hx
    exact ⟨hb, rfl⟩
  · refine ensureAvailable_succeeds ?_ hfree hi
    rcases hm.settled hfree with hs | hs
    · exact hs
    · exact absurd (hs.taskHandle.symm.trans hh) nofun
  · have hs := hr.sends i
    rw [hi] at hs
    obtain ⟨q, record, hsends, hthread⟩ := hs
    have hsent : (q, record) ∈ sendsOf i l := hsends ▸ List.mem_singleton_self _
    obtain ⟨x, hx, hxs⟩ := List.mem_filterMap.1 hsent
    have hq : some q = m.queue := by
      refine htells x hx _ ?_
      cases x <;> simp [Event.sentBy] at hxs
      simp [Event.tells, hxs]
    exact ⟨q, record, hsends, hthread, hq.symm, fun x hx queue hqueue => (htells x hx queue hqueue).trans hq.symm⟩
  · have hs := hr.sends i
    rw [hi] at hs
    exact hs

/-- The task cannot be created at first. Call 1 fails, and call 2 tries again:
the task observes its queue before call 2 has stored the handle, and receives
the record of call 3. -/
def secondAttempt : List Action := List.flatten [
  [.call 1 .ensureAvailable], List.replicate 4 (.step 1 .succeeds), List.replicate 4 (.step 1 .fails),
  [.call 2 .ensureAvailable], List.replicate 5 (.step 2 .succeeds), [.run 0 .succeeds],
  List.replicate 3 (.step 2 .succeeds),
  [.call 3 (.dispatch 7)], List.replicate 4 (.step 3 .succeeds),
  [.step 3 (.snapshot ⟨1, 0, .terminated, true, true⟩)], List.replicate 5 (.step 3 .succeeds),
  [.run 0 .succeeds, .run 0 .succeeds]]

theorem secondAttempt_published : ∃ x, (startup 32).Reachable x ∧ Published 32 x.1 x.2 ∧
    x.1.calls 1 = .returned .ensureAvailable false ∧ x.1.calls 3 = .returned (.dispatch 7) true ∧
    x.1.tasks.length = 1 ∧ .observed 0 (some 1) ∈ x.2 := by
  have hrun : ((startup 32).replay (.start, []) secondAttempt).map (fun x =>
      (x.1.calls 1, x.1.calls 3, x.1.tasks.length, x.2[3]?)) =
      some (.returned .ensureAvailable false, .returned (.dispatch 7) true, 1, some (.observed 0 (some 1))) := by
    decide +kernel
  obtain ⟨x, hs, hx⟩ := Option.map_eq_some_iff.1 hrun
  have hinit : (startup 32).init (.start, []) := ⟨rfl, rfl⟩
  have hr : (startup 32).Reachable x := System.reachable_of_replay hinit hs
  simp only [Prod.mk.injEq] at hx
  exact ⟨x, hr, startup_publication hr, hx.1, hx.2.1, hx.2.2.1, List.mem_of_getElem? hx.2.2.2⟩

end ESPressio.Startup
