import ESPressioThreads.Startup.Machine
/-!
# What is published, and when

`Knows` is what each call knows of the queue, the handle and the tasks where it
stands. A call that holds the mutex knows them exactly, and any other call at
most that the dispatcher is available, which it stays. The task itself needs no
lock: when it exists the queue does, and no step takes it away.
-/

namespace ESPressio.Startup

open Transition ESPressio.Thread ESPressio.Manager

/-- Nothing is there. -/
def Resources.absent : Resources := ⟨none, none, 0⟩

/-- The queue and the one task exist, and the handle is the task's. -/
structure Resources.Available (r : Resources) : Prop where
  queue : r.queue.isSome
  taskHandle : r.taskHandle = some 0
  tasks : r.tasks = 1

def Resources.Settled (r : Resources) : Prop := r = .absent ∨ r.Available

/-- What an attempt that ends with `available` leaves. -/
def Resources.Result (r : Resources) : Bool → Prop
  | false => r = .absent
  | true => r.Available

/-- The call holds `_initializationMutex`. -/
def Pc.holds : Pc → Bool
  | .idle | .returned _ _ | .available .lock | .ensuring _ .lock => false
  | .dispatching _ (.snapshotThread) | .dispatching _ (.lock _) | .dispatching _ (.notify _ _) => false
  | .available _ | .ensuring _ _ | .dispatching _ _ => true

/-- What a call knows at its program counter. -/
def Knows (r : Resources) : Pc → Prop
  | .idle | .available .lock | .ensuring _ .lock => True
  | .available .testQueue | .ensuring _ .testQueue => r.Settled
  | .available .testTaskHandle | .ensuring _ .testTaskHandle => r.Available
  | .available (.unlock available) => r.Result available
  | .ensuring _ .createQueue | .ensuring _ (.publish _) => r = .absent
  | .ensuring _ .createTask | .ensuring _ .resetQueue => ∃ q, r = ⟨some q, none, 0⟩
  | .ensuring _ (.storeTaskHandle t) => ∃ q, r = ⟨some q, none, 1⟩ ∧ t = 0
  | .ensuring _ (.notifyInitialized available) | .ensuring _ (.unlock available) => r.Result available
  | .dispatching _ _ => r.Available
  | .returned _ result => result = true → r.Available

/-- `_initializationMutex` and what the calls know. -/
structure Sound (m : Machine) : Prop where
  mutex : ∀ i, m.initializationMutex = some i ↔ (m.calls i).holds = true
  settled : m.initializationMutex = none → m.resources.Settled
  knows : ∀ i, Knows m.resources (m.calls i)

/-- A step of call `i` to `pc`. It changes what is published only under the
mutex, not where the dispatcher is available, and then the queue and the tasks
only where there is no task. -/
structure Advances (m : Machine) (i : CallId) (pc : Pc) (m' : Machine) : Prop where
  calls : m'.calls = Function.update m.calls i pc
  knows : Knows m'.resources pc
  mutex : m'.initializationMutex =
    if pc.holds then some i else if (m.calls i).holds then none else m.initializationMutex
  free : pc.holds = true → (m.calls i).holds = false → m.initializationMutex = none
  settled : (m.calls i).holds = true → pc.holds = false → m'.resources.Settled
  resources : m'.resources = m.resources ∨ (m.calls i).holds = true ∧ ¬ m.resources.Available ∧
    (m.tasks = [] ∨ m'.queue = m.queue ∧ m'.tasks = m.tasks)

/-! ## One step of a call -/

variable {m m' : Machine} {i : CallId} {answer : Answer} {capacity : Nat}

theorem Resources.not_available_absent : ¬ Resources.absent.Available := fun h => nomatch h.queue

theorem Resources.Settled.result {r : Resources} (h : r.Settled) (hq : r.queue = none) : r = .absent := by
  rcases h with h | h
  · exact h
  · exact absurd h.queue (by simp [hq])

theorem Resources.Settled.available {r : Resources} (h : r.Settled) (hq : r.queue ≠ none) : r.Available := by
  rcases h with rfl | h
  · exact absurd rfl hq
  · exact h

theorem Resources.Result.settled {r : Resources} {available : Bool} (h : r.Result available) : r.Settled := by
  cases available with
  | false => exact .inl h
  | true => exact .inr h

namespace Advances
variable {pc pc' : Pc}

/-- The call takes the mutex. -/
theorem acquire (hpc : pc'.holds = true) (hfree : m.initializationMutex = none) (hk : Knows m.resources pc') :
    Advances m i pc' ((m.lock i).goto i pc') where
  calls := rfl
  knows := hk
  mutex := by simp [hpc]
  free _ _ := hfree
  settled _ h := absurd (hpc.symm.trans h) (by decide)
  resources := .inl rfl

/-- It goes on with the mutex. -/
theorem within (hm : Sound m) (hpc : (m.calls i).holds = true) (hpc' : pc'.holds = true)
    (hc : m'.calls = Function.update m.calls i pc') (hmx : m'.initializationMutex = m.initializationMutex)
    (hk : Knows m'.resources pc')
    (hr : m'.resources = m.resources ∨ ¬ m.resources.Available ∧
      (m.tasks = [] ∨ m'.queue = m.queue ∧ m'.tasks = m.tasks)) :
    Advances m i pc' m' where
  calls := hc
  knows := hk
  mutex := by rw [hmx, (hm.mutex i).2 hpc, if_pos hpc']
  free _ h := absurd (hpc.symm.trans h) (by decide)
  settled _ h := absurd (hpc'.symm.trans h) (by decide)
  resources := hr.imp_right fun h => ⟨hpc, h⟩

/-- It gives the mutex back. -/
theorem release (hpc : (m.calls i).holds = true) (hpc' : pc'.holds = false) (hs : m.resources.Settled)
    (hk : Knows m.resources pc') : Advances m i pc' (m.unlock.goto i pc') where
  calls := rfl
  knows := hk
  mutex := by simp [hpc, hpc']
  free h _ := absurd (hpc'.symm.trans h) (by decide)
  settled _ _ := hs
  resources := .inl rfl

/-- It goes on without the mutex. -/
theorem outside (hpc : (m.calls i).holds = false) (hpc' : pc'.holds = false) (hk : Knows m.resources pc') :
    Advances m i pc' (m.goto i pc') where
  calls := rfl
  knows := hk
  mutex := by simp [hpc, hpc']
  free h _ := absurd (hpc'.symm.trans h) (by decide)
  settled h _ := absurd (hpc.symm.trans h) (by decide)
  resources := .inl rfl

/-- It goes on with the mutex, and changes nothing. -/
theorem goto (hm : Sound m) (hpc : (m.calls i).holds = true) (hpc' : pc'.holds = true)
    (hk : Knows m.resources pc') : Advances m i pc' (m.goto i pc') :=
  within hm hpc hpc' rfl rfl hk (.inl rfl)

end Advances

theorem advances_begin (request : Request) (hpc : m.calls i = .idle) : ∃ pc, Advances m i pc (begin m i request) := by
  have hfree : (m.calls i).holds = false := by rw [hpc]; rfl
  cases request with
  | isAvailable => exact ⟨.available .lock, .outside hfree rfl trivial⟩
  | ensureAvailable => exact ⟨.ensuring none .lock, .outside hfree rfl trivial⟩
  | dispatch thread =>
    simp only [begin]
    split
    · exact ⟨.returned (.dispatch thread) false, .outside hfree rfl nofun⟩
    · exact ⟨.ensuring (some thread) .lock, .outside hfree rfl trivial⟩

theorem advances_available {pc : AvailablePc} (hm : Sound m) (hpc : m.calls i = .available pc)
    (h : stepAvailable m i pc = some m') : ∃ pc', Advances m i pc' m' := by
  have hk : Knows m.resources (.available pc) := hpc ▸ hm.knows i
  cases pc with
  | lock =>
    simp only [stepAvailable] at h
    split at h <;> cases h
    rename_i hfree
    exact ⟨_, .acquire rfl hfree (hm.settled hfree)⟩
  | testQueue =>
    cases h
    by_cases hq : m.queue = none
    · rw [if_pos hq]
      exact ⟨_, .goto hm (by rw [hpc]; rfl) rfl (Resources.Settled.result hk hq)⟩
    · rw [if_neg hq]
      exact ⟨_, .goto hm (by rw [hpc]; rfl) rfl (Resources.Settled.available hk hq)⟩
  | testTaskHandle =>
    cases h
    have hh : m.taskHandle.isSome = true := by rw [show m.taskHandle = some 0 from hk.taskHandle]; rfl
    rw [hh]
    exact ⟨_, .goto hm (by rw [hpc]; rfl) rfl hk⟩
  | unlock available =>
    cases h
    refine ⟨_, .release (by rw [hpc]; rfl) rfl (Resources.Result.settled hk) fun ht => ?_⟩
    subst ht
    exact hk

theorem knows_afterEnsure {r : Resources} {dispatched : Option ThreadPtr} {available : Bool}
    (h : r.Result available) : Knows r (afterEnsure dispatched available) := by
  cases dispatched <;> cases available <;> simp only [afterEnsure, Knows, Bool.false_eq_true, false_imp_iff] <;>
    first | exact h | exact fun _ => h

theorem holds_afterEnsure (dispatched : Option ThreadPtr) (available : Bool) :
    (afterEnsure dispatched available).holds = false := by
  cases dispatched <;> cases available <;> rfl

theorem advances_initialize {dispatched : Option ThreadPtr} {pc : InitializePc} (hm : Sound m)
    (hpc : m.calls i = .ensuring dispatched pc) (h : stepInitialize m i dispatched pc answer = some m') :
    ∃ pc', Advances m i pc' m' := by
  have hk : Knows m.resources (.ensuring dispatched pc) := hpc ▸ hm.knows i
  cases pc with
  | lock =>
    simp only [stepInitialize] at h
    split at h <;> cases h
    rename_i hfree
    exact ⟨_, .acquire rfl hfree (hm.settled hfree)⟩
  | testQueue =>
    cases h
    by_cases hq : m.queue = none
    · rw [if_pos hq]
      exact ⟨_, .goto hm (by rw [hpc]; rfl) rfl (Resources.Settled.result hk hq)⟩
    · rw [if_neg hq]
      exact ⟨_, .goto hm (by rw [hpc]; rfl) rfl (Resources.Settled.available hk hq)⟩
  | testTaskHandle =>
    cases h
    have hh : m.taskHandle ≠ none := by rw [show m.taskHandle = some 0 from hk.taskHandle]; nofun
    rw [if_neg hh]
    exact ⟨_, .goto hm (by rw [hpc]; rfl) rfl hk⟩
  | createQueue =>
    simp only [stepInitialize] at h
    split at h <;> cases h
    · exact ⟨_, .within hm (by rw [hpc]; rfl) rfl rfl rfl hk (.inl rfl)⟩
    · exact ⟨_, .goto hm (by rw [hpc]; rfl) rfl hk⟩
  | publish q =>
    cases h
    have hr : m.resources = ⟨none, none, 0⟩ := hk
    have ht : m.tasks = [] := List.length_eq_zero_iff.1 (congrArg Resources.tasks hr)
    have hh : m.taskHandle = none := congrArg Resources.taskHandle hr
    refine ⟨_, .within hm (by rw [hpc]; rfl) rfl rfl rfl ⟨q, ?_⟩ (.inr ⟨fun h => ?_, .inl ht⟩)⟩
    · simp [Machine.goto, Machine.publish, Machine.resetQueue, Machine.resources, ht, hh]
    · exact absurd h.taskHandle (by simp [hr])
  | createTask =>
    obtain ⟨q, hr⟩ := hk
    have ht : m.tasks = [] := List.length_eq_zero_iff.1 (congrArg Resources.tasks hr)
    have hno : ¬ m.resources.Available := fun h => absurd h.taskHandle (by simp [hr])
    have hq : m.queue = some q := congrArg Resources.queue hr
    have hh : m.taskHandle = none := congrArg Resources.taskHandle hr
    simp only [stepInitialize] at h
    split at h <;> cases h
    · refine ⟨_, .within hm (by rw [hpc]; rfl) rfl rfl rfl ⟨q, ?_, ?_⟩ (.inr ⟨hno, .inl ht⟩)⟩
      · simp [Machine.goto, Machine.resources, ht, hh, hq]
      · simp [ht]
    · exact ⟨_, .goto hm (by rw [hpc]; rfl) rfl ⟨q, hr⟩⟩
  | resetQueue =>
    cases h
    obtain ⟨q, hr⟩ := hk
    have ht : m.tasks = [] := List.length_eq_zero_iff.1 (congrArg Resources.tasks hr)
    have hh : m.taskHandle = none := congrArg Resources.taskHandle hr
    refine ⟨_, .within hm (by rw [hpc]; rfl) rfl rfl rfl ?_ (.inr ⟨fun h => ?_, .inl ht⟩)⟩
    · simp [Machine.goto, Machine.resetQueue, Machine.resources, ht, hh, Knows, Resources.Result, Resources.absent]
    · exact absurd h.taskHandle (by simp [hr])
  | storeTaskHandle t =>
    cases h
    obtain ⟨q, hr, rfl⟩ := hk
    have ht : m.tasks.length = 1 := congrArg Resources.tasks hr
    have hq : m.queue = some q := congrArg Resources.queue hr
    refine ⟨_, .within hm (by rw [hpc]; rfl) rfl rfl rfl ⟨?_, rfl, ht⟩ (.inr ⟨fun h => ?_, .inr ⟨rfl, rfl⟩⟩)⟩
    · simp [Machine.goto, Machine.resources, hq]
    · exact absurd h.taskHandle (by simp [hr])
  | notifyInitialized available =>
    cases h
    exact ⟨_, .goto hm (by rw [hpc]; rfl) rfl hk⟩
  | unlock available =>
    cases h
    exact ⟨_, .release (by rw [hpc]; rfl) (holds_afterEnsure _ _) (Resources.Result.settled hk) (knows_afterEnsure hk)⟩

theorem advances_dispatch {thread : ThreadPtr} {pc : DispatchPc} (hm : Sound m)
    (hpc : m.calls i = .dispatching thread pc) (h : stepDispatch capacity m i thread pc answer = some m') :
    ∃ pc', Advances m i pc' m' := by
  have hk : m.resources.Available := by simpa [hpc, Knows] using hm.knows i
  cases pc with
  | snapshotThread =>
    cases answer <;> cases h
    exact ⟨_, .outside (by rw [hpc]; rfl) rfl hk⟩
  | lock record =>
    simp only [stepDispatch] at h
    split at h <;> cases h
    rename_i hfree
    exact ⟨_, .acquire rfl hfree hk⟩
  | testQueue record =>
    cases h
    split
    · exact ⟨_, .goto hm (by rw [hpc]; rfl) rfl hk⟩
    · exact ⟨_, .goto hm (by rw [hpc]; rfl) rfl hk⟩
  | send record =>
    obtain ⟨q, hq, h⟩ := Option.bind_eq_some_iff.1 h
    split at h
    · split at h <;> cases h
      exact ⟨_, .within hm (by rw [hpc]; rfl) rfl rfl rfl hk (.inl rfl)⟩
    · cases h
      exact ⟨_, .goto hm (by rw [hpc]; rfl) rfl hk⟩
  | unlock record queued =>
    cases h
    exact ⟨_, .release (by rw [hpc]; rfl) rfl (.inr hk) hk⟩
  | notify record queued =>
    cases h
    exact ⟨_, .outside (by rw [hpc]; rfl) rfl fun _ => hk⟩

theorem advances_call (hm : Sound m) (h : stepCall capacity m i answer = some m') : ∃ pc, Advances m i pc m' := by
  unfold stepCall at h
  cases hpc : m.calls i with
  | idle => simp [hpc] at h
  | returned request result => simp [hpc] at h
  | available pc => exact advances_available hm hpc (by simpa only [hpc] using h)
  | ensuring dispatched pc => exact advances_initialize hm hpc (by simpa only [hpc] using h)
  | dispatching thread pc => exact advances_dispatch hm hpc (by simpa only [hpc] using h)

/-! ## Every run -/

/-- What a call knows without the mutex is kept while the dispatcher stays
available. -/
theorem Knows.of_free {r r' : Resources} {pc : Pc} (hpc : pc.holds = false) (hr : r.Available → r'.Available)
    (hk : Knows r pc) : Knows r' pc := by
  cases pc with
  | idle => trivial
  | returned request result => exact fun h => hr (hk h)
  | available pc => cases pc <;> trivial
  | ensuring dispatched pc => cases pc <;> trivial
  | dispatching thread pc => exact hr hk

theorem Advances.sound {pc : Pc} (hm : Sound m) (h : Advances m i pc m') : Sound m' := by
  have hself : m'.calls i = pc := by rw [h.calls, Function.update_self]
  have hother : ∀ j, j ≠ i → m'.calls j = m.calls j := fun j hj => by rw [h.calls, Function.update_of_ne hj]
  have hmutex := h.mutex
  refine ⟨fun j => ?_, fun hfree => ?_, fun j => ?_⟩
  · have hi := hm.mutex i
    have hj := hm.mutex j
    by_cases hji : j = i
    · subst hji
      rw [hself, hmutex]
      cases hp : pc.holds <;> cases hc : (m.calls j).holds <;> simp_all
    · rw [hother j hji, ← hj, hmutex]
      cases hp : pc.holds <;> cases hc : (m.calls i).holds
      · simp
      · simp only [hc, iff_true] at hi
        simp [hi, Ne.symm hji]
      · simp [h.free hp hc, Ne.symm hji]
      · simp only [hc, iff_true] at hi
        simp [hi]
  · cases hp : pc.holds with
    | true => rw [hmutex, if_pos hp] at hfree; cases hfree
    | false =>
      cases hc : (m.calls i).holds with
      | true => exact h.settled hc hp
      | false =>
        have hfree' : m.initializationMutex = none := by simpa [hp, hc] using hmutex.symm.trans hfree
        rcases h.resources with hr | ⟨hr, -⟩
        · rw [hr]; exact hm.settled hfree'
        · rw [hc] at hr; cases hr
  · by_cases hji : j = i
    · subst hji; rw [hself]; exact h.knows
    · rw [hother j hji]
      rcases h.resources with hr | ⟨hheld, hno, -⟩
      · rw [hr]; exact hm.knows j
      · refine Knows.of_free ?_ (fun ha => absurd ha hno) (hm.knows j)
        have hi := (hm.mutex i).2 hheld
        refine Bool.eq_false_iff.2 fun hj => hji ?_
        exact Option.some.inj (((hm.mutex j).2 hj).symm.trans hi)

theorem sound_start : Sound .start := by
  refine ⟨fun i => ?_, fun _ => .inl rfl, fun i => trivial⟩
  constructor
  · intro h; cases h
  · intro h; cases h

/-- A step of a task leaves all that is published, and the calls. -/
theorem stepLoop_frame {t : TaskId} {pc : LoopPc} (h : stepLoop m t answer pc = some m') :
    m'.resources = m.resources ∧ m'.calls = m.calls ∧ m'.initializationMutex = m.initializationMutex := by
  cases pc with
  | receive q =>
    simp only [stepLoop] at h
    split at h
    · cases hc : m.contents q with
      | nil => simp [hc] at h
      | cons message rest =>
        rw [hc] at h
        cases h
        exact ⟨by simp, rfl, rfl⟩
    · cases h
      exact ⟨by simp, rfl, rfl⟩
  | crashed => cases h
  | _ =>
    cases h
    exact ⟨by simp, rfl, rfl⟩

theorem sound_step {a : Action} (hm : Sound m) (h : step capacity m a = some m') : Sound m' := by
  cases a with
  | call i request =>
    simp only [step] at h
    split at h <;> cases h
    rename_i hi
    obtain ⟨pc, ha⟩ := advances_begin request hi
    exact ha.sound hm
  | step i answer =>
    obtain ⟨pc, ha⟩ := advances_call hm h
    exact ha.sound hm
  | run t answer =>
    obtain ⟨pc, -, h⟩ := Option.bind_eq_some_iff.1 h
    obtain ⟨hr, hc, hmx⟩ := stepLoop_frame h
    refine ⟨fun i => ?_, fun hf => ?_, fun i => ?_⟩
    · rw [hmx, hc]; exact hm.mutex i
    · rw [hr]; exact hm.settled (hmx ▸ hf)
    · rw [hr, hc]; exact hm.knows i

theorem sound_of_reachable (h : (machine capacity).Reachable m) : Sound m :=
  h.invariant (fun _ hi => hi ▸ sound_start) fun _ _ _ hm _ hs => sound_step hm hs

end ESPressio.Startup
