import ESPressioThreads.Lifecycle.Model
/-!
# One step of a task

A step moves the last call of one task, or user code pushes a call. Every
invariant of the lifecycle is a case analysis over `Moves` and `FrameStep`, and
`step` is not looked at again.
-/

namespace ESPressio.Lifecycle

open Transition ESPressio.Thread

def Action.task : Action → TaskId
  | .call p _ | .step p _ => p

/-- A step of the last call of `p`, which goes on or returns. -/
inductive Moves (w : World) (p : TaskId) (ok : Bool) : World → Prop
  | stay (n : Nat) (s : Shared) (f : Frame) : w.depth p = n + 1 →
      stepFrame w.shared p (w.frames (p, n)) ok = some (s, some f) →
      Moves w p ok ({ w with shared := s }.setFrame (p, n) f)
  | ret (n : Nat) (s : Shared) : w.depth p = n + 1 →
      stepFrame w.shared p (w.frames (p, n)) ok = some (s, none) →
      Moves w p ok ({ w with shared := s, depth := Function.update w.depth p n }.setFrame (p, n) Frame.idle)

variable {w w' : World} {p : TaskId} {ok : Bool} {request : Request}

theorem step_moves (h : step w (.step p ok) = some w') : w.runnable p = true ∧ Moves w p ok w' := by
  simp only [step] at h
  split at h
  · rename_i hrun
    refine ⟨hrun, ?_⟩
    split at h
    · cases h
    · rename_i n hdepth
      split at h
      · cases h
      · rename_i hs; cases h; exact .stay n _ _ hdepth hs
      · rename_i hs; cases h; exact .ret n _ hdepth hs
  · cases h

theorem step_push (h : step w (.call p request) = some w') :
    w.runnable p = true ∧ w.inUserCode p = true ∧ w' = w.push p request := by
  simp only [step] at h
  split at h <;> cases h
  rename_i hg
  exact ⟨hg.1, hg.2.1, rfl⟩

/-- A step of the call `f` on the task `p`. -/
inductive FrameStep (s : Shared) (p : TaskId) (f : Frame) (ok : Bool) : Shared → Option Frame → Prop
  | inTransition (tr tr' : StateTransition) (s' : Shared) : f.transition = some tr →
      stepTransition s p tr ok = some (s', .goto tr') → FrameStep s p f ok s' (some { f with transition := some tr' })
  | transitionDone (tr : StateTransition) (s' : Shared) (stored threw : Bool) : f.transition = some tr →
      stepTransition s p tr ok = some (s', .done stored threw) →
      FrameStep s p f ok s' (f.next (f.pc.resume s' stored threw))
  | transitionStart (expected : Option ThreadState) (newState : ThreadState) : f.transition = none →
      f.pc.transition = some (expected, newState) →
      FrameStep s p f ok s (some { f with transition := some (.start expected newState) })
  | exec (s' : Shared) (next : Next Pc) : f.transition = none → f.pc.transition = none →
      exec s p f.pc ok = some (s', next) → FrameStep s p f ok s' (f.next next)

theorem stepFrame_cases {s s' : Shared} {f : Frame} {f' : Option Frame} (h : stepFrame s p f ok = some (s', f')) :
    FrameStep s p f ok s' f' := by
  unfold stepFrame at h
  split at h
  · rename_i tr htr
    obtain ⟨⟨s₁, next⟩, hs, he⟩ := Option.map_eq_some_iff.1 h
    cases next with
    | goto tr' => cases he; exact .inTransition tr tr' _ htr hs
    | done stored threw => cases he; exact .transitionDone tr _ stored threw htr hs
  · rename_i htr
    split at h
    · rename_i hpc; cases h; exact .transitionStart _ _ htr hpc
    · rename_i hpc
      obtain ⟨⟨s₁, next⟩, hs, he⟩ := Option.map_eq_some_iff.1 h
      cases he
      exact .exec _ _ htr hpc hs

/-! ## Frames -/

@[simp] theorem World.setFrame_shared (a : TaskId × Nat) (f : Frame) : (w.setFrame a f).shared = w.shared := rfl
@[simp] theorem World.setFrame_depth (a : TaskId × Nat) (f : Frame) : (w.setFrame a f).depth = w.depth := rfl
@[simp] theorem World.push_shared : (w.push p request).shared = w.shared := rfl

theorem World.setFrame_frames (a b : TaskId × Nat) (f : Frame) :
    (w.setFrame a f).frames b = if b = a then f else w.frames b := by
  simp [World.setFrame, Function.update_apply]

theorem World.push_frames (b : TaskId × Nat) : (w.push p request).frames b =
    if b = (p, w.depth p) then ⟨request.entry, none, w.shared.reclaimed⟩ else w.frames b := by
  simp [World.push, Function.update_apply]

theorem World.push_depth (q : TaskId) : (w.push p request).depth q =
    if q = p then w.depth p + 1 else w.depth q := by
  simp [World.push, Function.update_apply]

@[simp] theorem Frame.next_goto (f : Frame) (pc : Pc) :
    f.next (.goto pc) = some { f with pc := pc, transition := none } := rfl

@[simp] theorem Frame.next_ret (f : Frame) (threw : Bool) : f.next (.ret threw) = none := rfl

theorem Frame.next_transition {f f' : Frame} {next : Next Pc} (h : f.next next = some f') : f'.transition = none := by
  cases next with
  | goto pc => cases h; rfl
  | ret threw => cases h

/-- A step that leaves the call on the stack, with the program counter and the
transition it goes on with. -/
inductive FrameGoto (s : Shared) (p : TaskId) (f : Frame) (ok : Bool) : Shared → Frame → Prop
  | inTransition (tr tr' : StateTransition) (s' : Shared) : f.transition = some tr →
      stepTransition s p tr ok = some (s', .goto tr') → FrameGoto s p f ok s' { f with transition := some tr' }
  | transitionDone (tr : StateTransition) (s' : Shared) (stored threw : Bool) (pc : Pc) : f.transition = some tr →
      stepTransition s p tr ok = some (s', .done stored threw) → f.pc.resume s' stored threw = .goto pc →
      FrameGoto s p f ok s' { f with pc := pc, transition := none }
  | transitionStart (expected : Option ThreadState) (newState : ThreadState) : f.transition = none →
      f.pc.transition = some (expected, newState) →
      FrameGoto s p f ok s { f with transition := some (.start expected newState) }
  | exec (s' : Shared) (pc : Pc) : f.transition = none → f.pc.transition = none →
      exec s p f.pc ok = some (s', .goto pc) → FrameGoto s p f ok s' { f with pc := pc, transition := none }

theorem FrameStep.goto {s s' : Shared} {f f' : Frame} {ok : Bool} (h : FrameStep s p f ok s' (some f')) :
    FrameGoto s p f ok s' f' := by
  generalize ho : some f' = o at h
  cases h with
  | inTransition tr tr' s' htr hst => cases ho; exact .inTransition tr tr' _ htr hst
  | transitionStart expected newState htr hpc => cases ho; exact .transitionStart expected newState htr hpc
  | transitionDone tr s' stored threw htr hst =>
    cases hn : f.pc.resume s' stored threw with
    | ret threw => rw [hn] at ho; cases ho
    | goto pc => rw [hn] at ho; cases ho; exact .transitionDone tr _ stored _ pc htr hst hn
  | exec s' next htr hpc hex =>
    cases next with
    | ret threw => cases ho
    | goto pc => cases ho; exact .exec _ pc htr hpc hex

/-! ## The calls of a world -/

/-- The call in a slot of a task's stack. -/
def World.call (w : World) (a : TaskId × Nat) : Option Frame :=
  if a.2 < w.depth a.1 then some (w.frames a) else none

/-- The last call of a task, which is the one that runs. -/
def World.top (w : World) (p : TaskId) : Option Frame :=
  match w.depth p with
  | 0 => none
  | n + 1 => some (w.frames (p, n))

theorem World.call_eq_some {a : TaskId × Nat} {f : Frame} :
    w.call a = some f ↔ a.2 < w.depth a.1 ∧ w.frames a = f := by
  simp [World.call]

theorem World.top_succ {n : Nat} (h : w.depth p = n + 1) : w.top p = some (w.frames (p, n)) := by
  simp [World.top, h]

theorem World.call_of_top {f : Frame} (h : w.top p = some f) : ∃ n, w.depth p = n + 1 ∧ w.call (p, n) = some f := by
  unfold World.top at h
  split at h
  · cases h
  · rename_i n hd
    exact ⟨n, hd, World.call_eq_some.2 ⟨by simp [hd], Option.some.inj h⟩⟩

/-- A public call adds a call. -/
theorem call_last (h : step w (.call p request) = some w') :
    w'.shared = w.shared ∧ w.call (p, w.depth p) = none ∧
      w'.call = Function.update w.call (p, w.depth p) (some ⟨request.entry, none, w.shared.reclaimed⟩) := by
  obtain ⟨-, -, rfl⟩ := step_push h
  refine ⟨rfl, by simp [World.call], ?_⟩
  funext b
  simp only [World.call, World.push_depth, World.push_frames, Function.update_apply]
  by_cases hb : b = (p, w.depth p)
  · simp [hb]
  · obtain ⟨q, m⟩ := b
    by_cases hq : q = p
    · subst hq
      have hm : m ≠ w.depth q := fun he => hb (by rw [he])
      have : m < w.depth q + 1 ↔ m < w.depth q := by omega
      simp [hm, this]
    · simp [hq]

theorem call_update (h : step w (.call p request) = some w') :
    w'.shared = w.shared ∧ (request = .cleanUp → w.shared.managed = true) ∧
      ∃ a, a.1 = p ∧ w.call a = none ∧
        w'.call = Function.update w.call a (some ⟨request.entry, none, w.shared.reclaimed⟩) := by
  have hmanaged : request = .cleanUp → w.shared.managed = true := by
    simp only [step] at h
    split at h <;> cases h
    rename_i hg
    exact hg.2.2
  obtain ⟨hshared, hnone, hcall⟩ := call_last h
  exact ⟨hshared, hmanaged, (p, w.depth p), rfl, hnone, hcall⟩

/-- A step of a task moves its last call. -/
theorem step_last (h : step w (.step p ok) = some w') : w.runnable p = true ∧
    ∃ n f f', w.depth p = n + 1 ∧ w.top p = some f ∧ w.call (p, n) = some f ∧ FrameStep w.shared p f ok w'.shared f' ∧
      w'.call = Function.update w.call (p, n) f' := by
  obtain ⟨hrun, hm⟩ := step_moves h
  refine ⟨hrun, ?_⟩
  cases hm with
  | stay n s f hd hs =>
    refine ⟨n, _, some f, hd, World.top_succ hd, by simp [World.call, hd], stepFrame_cases hs, ?_⟩
    funext b
    simp only [World.call, World.setFrame_depth, World.setFrame_frames, Function.update_apply]
    by_cases hb : b = (p, n)
    · simp [hb, hd]
    · simp [hb]
  | ret n s hd hs =>
    refine ⟨n, _, none, hd, World.top_succ hd, by simp [World.call, hd], stepFrame_cases hs, ?_⟩
    funext b
    simp only [World.call, World.setFrame_depth, World.setFrame_frames, Function.update_apply]
    obtain ⟨q, m⟩ := b
    by_cases hq : q = p
    · subst hq
      by_cases hm : m = n
      · simp [hm]
      · have : m < n + 1 ↔ m < n := by omega
        simp [hm, hd, this]
    · simp [hq]

theorem step_update (h : step w (.step p ok) = some w') : w.runnable p = true ∧
    ∃ a f f', a.1 = p ∧ w.top p = some f ∧ w.call a = some f ∧ FrameStep w.shared p f ok w'.shared f' ∧
      w'.call = Function.update w.call a f' := by
  obtain ⟨hrun, n, f, f', -, hstep⟩ := step_last h
  exact ⟨hrun, (p, n), f, f', rfl, hstep⟩

/-- What a task does leaves the stacks of the others. -/
theorem step_others {b : Action} {q : TaskId} (h : step w b = some w')
    (hq : q ≠ b.task) : w'.depth q = w.depth q ∧ ∀ n, w'.frames (q, n) = w.frames (q, n) := by
  cases b with
  | call p request =>
    have hq : q ≠ p := hq
    obtain ⟨-, -, rfl⟩ := step_push h
    refine ⟨by rw [World.push_depth, if_neg hq], fun n => ?_⟩
    rw [World.push_frames, if_neg fun he => hq (Prod.mk.inj he).1]
  | step p ok =>
    have hq : q ≠ p := hq
    have hframe : ∀ n m : Nat, (q, m) ≠ (p, n) := fun n m he => hq (Prod.mk.inj he).1
    cases (step_moves h).2 with
    | stay n s f _ _ => exact ⟨rfl, fun m => by rw [World.setFrame_frames, if_neg (hframe n m)]⟩
    | ret n s _ _ => exact ⟨by simp [hq], fun m => by rw [World.setFrame_frames, if_neg (hframe n m)]⟩

theorem calls_others {b : Action} {q : TaskId} (h : step w b = some w') (hq : q ≠ b.task) :
    w'.top q = w.top q ∧ ∀ n, w'.call (q, n) = w.call (q, n) := by
  obtain ⟨hd, hf⟩ := step_others h hq
  exact ⟨by simp only [World.top, hd, hf], fun n => by simp only [World.call, hd, hf]⟩

/-- What holds of every call holds of every call after one of them changed. -/
theorem forall_call_update {Q : TaskId × Nat → Frame → Prop} {c : TaskId × Nat → Option Frame} {a : TaskId × Nat}
    {x : Option Frame} (hx : ∀ f, x = some f → Q a f) (hc : ∀ b f, b ≠ a → c b = some f → Q b f) :
    ∀ b f, Function.update c a x b = some f → Q b f := by
  intro b f hf
  by_cases hb : b = a
  · subst hb
    rw [Function.update_self] at hf
    exact hx f hf
  · rw [Function.update_of_ne hb] at hf
    exact hc b f hb hf

/-! ## Methods -/

variable {s s' : Shared} {stored threw : Bool}

theorem Next.inside_goto {π ρ : Type} {n : Next π} {call : π → ρ} {after : Bool → Next ρ} {x : ρ}
    (h : n.inside call after = .goto x) :
    (∃ y, n = .goto y ∧ x = call y) ∨ ∃ threw, n = .ret threw ∧ after threw = .goto x := by
  cases n with
  | goto y => cases h; exact .inl ⟨y, rfl, rfl⟩
  | ret threw => exact .inr ⟨threw, rfl, h⟩

/-- A call that goes on after a transition stays in its method. -/
inductive ResumeTo (s : Shared) (stored threw : Bool) : Pc → Pc → Prop
  | terminate (t t' : TerminatePc) : t.resume s threw = .goto t' →
      ResumeTo s stored threw (.terminate t) (.terminate t')
  | initializeThread (t t' : InitializePc) : t.resume s stored threw = .goto t' →
      ResumeTo s stored threw (.initializeThread t) (.initializeThread t')
  | start (t t' : StartPc) : t.resume s stored threw = .goto t' → ResumeTo s stored threw (.start t) (.start t')
  | shutdown (t t' : ShutdownPc) : t.resume s threw = .goto t' → ResumeTo s stored threw (.shutdown t) (.shutdown t')
  | worker (g : Gen) (t t' : WorkerPc) : t.resume s threw = .goto t' →
      ResumeTo s stored threw (.worker g t) (.worker g t')
  | cleanUp : ResumeTo s stored threw (.cleanUp .setDestroyed) (.cleanUp .onDestroy)

theorem resume_goto {pc pc' : Pc} (h : pc.resume s stored threw = .goto pc') : ResumeTo s stored threw pc pc' := by
  unfold Pc.resume at h
  split at h
  case h_6 => cases h; exact .cleanUp
  case h_7 => cases h
  all_goals
    obtain ⟨y, hy, rfl⟩ | ⟨_, -, hr⟩ := Next.inside_goto h
  · exact .terminate _ _ hy
  · cases hr
  · exact .initializeThread _ _ hy
  · cases hr
  · exact .start _ _ hy
  · cases hr
  · exact .shutdown _ _ hy
  · cases hr
  · exact .worker _ _ _ hy
  · cases hr

/-- A call that goes on stays in its method. -/
inductive ExecTo (s : Shared) (p : TaskId) (ok : Bool) (s' : Shared) : Pc → Pc → Prop
  | setFreeOnTerminate (value : Bool) : s' = { s with freeOnTerminate := value } →
      ExecTo s p ok s' (.setFreeOnTerminate value false) (.setFreeOnTerminate value true)
  | terminate (t t' : TerminatePc) : s' = s → execTerminate s t = .goto t' →
      ExecTo s p ok s' (.terminate t) (.terminate t')
  | initializeThread (t t' : InitializePc) : execInitialize s p t ok = some (s', .goto t') →
      ExecTo s p ok s' (.initializeThread t) (.initializeThread t')
  | start (t t' : StartPc) : execStart s p t ok = some (s', .goto t') → ExecTo s p ok s' (.start t) (.start t')
  | shutdown (t t' : ShutdownPc) : execShutdown s p t = some (s', .goto t') →
      ExecTo s p ok s' (.shutdown t) (.shutdown t')
  | worker (g : Gen) (t t' : WorkerPc) : execWorker s g t ok = some (s', .goto t') →
      ExecTo s p ok s' (.worker g t) (.worker g t')
  | dispatcher (t t' : DispatcherPc) : execDispatcher s t = some (s', .goto t') →
      ExecTo s p ok s' (.dispatcher t) (.dispatcher t')
  | cleanUp (t t' : CleanUpPc) : execCleanUp s p t ok = some (s', .goto t') →
      ExecTo s p ok s' (.cleanUp t) (.cleanUp t')

theorem map_inside_goto {π ρ : Type} {r : Option (Shared × Next π)} {call : π → ρ} {x : ρ}
    (h : (r.map fun r => (r.1, r.2.inside call .ret)) = some (s', .goto x)) :
    ∃ y, r = some (s', .goto y) ∧ x = call y := by
  obtain ⟨⟨s₁, n⟩, hr, he⟩ := Option.map_eq_some_iff.1 h
  simp only [Prod.mk.injEq] at he
  obtain ⟨rfl, he⟩ := he
  obtain ⟨y, rfl, rfl⟩ | ⟨_, -, hr'⟩ := Next.inside_goto he
  · exact ⟨y, hr, rfl⟩
  · cases hr'

theorem exec_goto {pc pc' : Pc} (h : exec s p pc ok = some (s', .goto pc')) : ExecTo s p ok s' pc pc' := by
  unfold exec at h
  split at h
  · cases h
  · cases h
  · cases h; exact .setFreeOnTerminate _ rfl
  · cases h
  · cases h
  · rename_i t
    simp only [Option.some.injEq, Prod.mk.injEq] at h
    obtain ⟨rfl, h⟩ := h
    obtain ⟨y, hy, rfl⟩ | ⟨_, -, hr⟩ := Next.inside_goto h
    · exact .terminate _ _ rfl hy
    · cases hr
  all_goals obtain ⟨y, hy, rfl⟩ := map_inside_goto h
  · exact .initializeThread _ _ hy
  · exact .start _ _ hy
  · exact .shutdown _ _ hy
  · exact .worker _ _ _ hy
  · exact .dispatcher _ _ hy
  · exact .cleanUp _ _ hy

/-- The program counter of `Initialize`, called by itself or from `Start`. -/
def Pc.initializePc : Pc → Option InitializePc
  | .initializeThread pc | .start (.initializeThread pc) => some pc
  | _ => none

theorem Pc.transition_of_initializePc {pc : Pc} {t : InitializePc} (hp : pc.initializePc = some t) :
    pc.transition = t.transition := by
  cases pc with
  | initializeThread t => cases hp; rfl
  | start t =>
    cases t with
    | initializeThread t => cases hp; rfl
    | _ => cases hp
  | _ => cases hp

/-- The status that `Initialize` has decided on. -/
def InitializePc.status : InitializePc → Option ThreadInitializationStatus
  | .exchangeTask _ status | .deleteTask _ status _ | .beginFinalization _ status | .storePending _ status
  | .send _ status | .clearPending status | .clearInProgress status | .clearInitializing status
  | .onInitializationFailed status | .notifyInitializationFailed status | .finished status => some status
  | _ => none

/-- Where `Initialize` goes on after a transition. -/
inductive InitializeResume (s : Shared) (stored threw : Bool) : InitializePc → InitializePc → Prop
  | reset : threw = false → stored = true → InitializeResume s stored threw .reset .lockConfiguration
  | unreset : threw = false → stored = false →
      InitializeResume s stored threw .reset (.onInitializationFailed .invalidState)
  | setInitialized (g : Gen) : threw = false →
      InitializeResume s stored threw (.setInitialized g) (.readAfterInitialized g)
  | initializedThrew (g : Gen) : threw = true →
      InitializeResume s stored threw (.setInitialized g) (.catchTerminate g .readState)
  | setRunning (g : Gen) : threw = false → InitializeResume s stored threw (.setRunning g) (.giveGate g)
  | runningThrew (g : Gen) : threw = true →
      InitializeResume s stored threw (.setRunning g) (.catchTerminate g .readState)
  | stopTerminated (g : Gen) : threw = false →
      InitializeResume s stored threw (.stopTerminated g) (.exchangeTask g .terminatedDuringInitialization)
  | stopThrew (g : Gen) : threw = true →
      InitializeResume s stored threw (.stopTerminated g) (.catchTerminate g .readState)
  | terminate (g : Gen) (u u' : TerminatePc) : u.resume s threw = .goto u' →
      InitializeResume s stored threw (.catchTerminate g u) (.catchTerminate g u')
  | terminated (g : Gen) (u : TerminatePc) (threw' : Bool) : u.resume s threw = .ret threw' →
      InitializeResume s stored threw (.catchTerminate g u) (.catchTerminated g)
  | catchTerminated (g : Gen) :
      InitializeResume s stored threw (.catchTerminated g) (.exchangeTask g .initializationException)

theorem InitializePc.resume_goto {t t' : InitializePc} (h : t.resume s stored threw = .goto t') :
    InitializeResume s stored threw t t' := by
  cases t with
  | reset =>
    simp only [InitializePc.resume] at h
    split at h
    · cases h
    · split at h <;> cases h
      · exact .reset (Bool.eq_false_iff.2 ‹_›) ‹_›
      · exact .unreset (Bool.eq_false_iff.2 ‹_›) (Bool.eq_false_iff.2 ‹_›)
  | setInitialized g =>
    simp only [InitializePc.resume] at h
    split at h <;> cases h
    · exact .initializedThrew g ‹_›
    · exact .setInitialized g (Bool.eq_false_iff.2 ‹_›)
  | setRunning g =>
    simp only [InitializePc.resume] at h
    split at h <;> cases h
    · exact .runningThrew g ‹_›
    · exact .setRunning g (Bool.eq_false_iff.2 ‹_›)
  | stopTerminated g =>
    simp only [InitializePc.resume] at h
    split at h <;> cases h
    · exact .stopThrew g ‹_›
    · exact .stopTerminated g (Bool.eq_false_iff.2 ‹_›)
  | catchTerminate g u =>
    obtain ⟨u', hu, rfl⟩ | ⟨threw', hu, hr⟩ := Next.inside_goto h
    · exact .terminate g u u' hu
    · cases hr
      exact .terminated g u threw' hu
  | catchTerminated g => cases h; exact .catchTerminated g
  | _ => cases h

/-- Where a statement of `Initialize` goes on, with what it has read. -/
inductive InitializeGoto (s : Shared) (ok : Bool) : InitializePc → InitializePc → Prop
  | ensureRegistered : ok = true → InitializeGoto s ok .ensureRegistered .loadHandle
  | loadHandle : s.taskHandle = none → InitializeGoto s ok .loadHandle .loadPending
  | alreadyInitialized : s.taskHandle ≠ none →
      InitializeGoto s ok .loadHandle (.onInitializationFailed .alreadyInitialized)
  | loadPending : s.terminationDispatchPending = false → InitializeGoto s ok .loadPending .ensureDispatcher
  | dispatchPending : s.terminationDispatchPending = true →
      InitializeGoto s ok .loadPending (.onInitializationFailed .terminationDispatchPending)
  | ensureDispatcher : ok = true → InitializeGoto s ok .ensureDispatcher .readState
  | dispatcherUnavailable : ok = false →
      InitializeGoto s ok .ensureDispatcher (.onInitializationFailed .terminationDispatcherUnavailable)
  | readTerminated : s.threadState = .terminated → InitializeGoto s ok .readState .reset
  | readUninitialized : s.threadState = .uninitialized → InitializeGoto s ok .readState .lockConfiguration
  | invalidState : s.threadState ≠ .terminated → s.threadState ≠ .uninitialized →
      InitializeGoto s ok .readState (.onInitializationFailed .invalidState)
  | lockConfiguration : s.configurationLocked = false → InitializeGoto s ok .lockConfiguration .recheckHandle
  | recheckHandle : s.taskHandle = none → InitializeGoto s ok .recheckHandle .resetExited
  | hasTask : s.taskHandle ≠ none →
      InitializeGoto s ok .recheckHandle (.onInitializationFailed .alreadyInitialized)
  | resetExited : InitializeGoto s ok .resetExited .resetGate
  | resetGate : InitializeGoto s ok .resetGate .resetFinalization
  | resetFinalization : InitializeGoto s ok .resetFinalization .create
  | create : ok = true → InitializeGoto s ok .create (.publish s.created)
  | createFailed : ok = false → InitializeGoto s ok .create (.onInitializationFailed .taskCreationFailed)
  | publish (g : Gen) : s.taskHandle = none → InitializeGoto s ok (.publish g) (.unlockConfiguration g)
  | lost (g : Gen) : s.taskHandle ≠ none →
      InitializeGoto s ok (.publish g) (.onInitializationFailed .concurrentInitializationLost)
  | unlockConfiguration (g : Gen) : InitializeGoto s ok (.unlockConfiguration g) (.storeInitializing g)
  | storeInitializing (g : Gen) : InitializeGoto s ok (.storeInitializing g) (.storeInProgress g)
  | storeInProgress (g : Gen) : InitializeGoto s ok (.storeInProgress g) (.onInitialization g)
  | onInitialization (g : Gen) : ok = true → InitializeGoto s ok (.onInitialization g) (.readAfterInitialization g)
  | initializationThrew (g : Gen) : ok = false →
      InitializeGoto s ok (.onInitialization g) (.catchTerminate g .readState)
  | initializationTerminating (g : Gen) : s.threadState = .terminating →
      InitializeGoto s ok (.readAfterInitialization g) (.stopTerminated g)
  | initializationTerminated (g : Gen) : s.threadState = .terminated →
      InitializeGoto s ok (.readAfterInitialization g) (.exchangeTask g .terminatedDuringInitialization)
  | readAfterInitialization (g : Gen) : s.threadState ≠ .terminating → s.threadState ≠ .terminated →
      InitializeGoto s ok (.readAfterInitialization g) (.setInitialized g)
  | initializedTerminating (g : Gen) : s.threadState = .terminating →
      InitializeGoto s ok (.readAfterInitialized g) (.stopTerminated g)
  | initializedTerminated (g : Gen) : s.threadState = .terminated →
      InitializeGoto s ok (.readAfterInitialized g) (.exchangeTask g .terminatedDuringInitialization)
  | readAfterInitialized (g : Gen) : s.threadState = .initialized →
      InitializeGoto s ok (.readAfterInitialized g) (.loadStartOnInitialize g)
  | readOther (g : Gen) : s.threadState ≠ .terminating → s.threadState ≠ .terminated →
      InitializeGoto s ok (.readAfterInitialized g) (.giveGate g)
  | startOnInitialize (g : Gen) : InitializeGoto s ok (.loadStartOnInitialize g) (.setRunning g)
  | noStart (g : Gen) : InitializeGoto s ok (.loadStartOnInitialize g) (.giveGate g)
  | terminate (g : Gen) (u u' : TerminatePc) : execTerminate s u = .goto u' →
      InitializeGoto s ok (.catchTerminate g u) (.catchTerminate g u')
  | terminated (g : Gen) (u : TerminatePc) (threw : Bool) : execTerminate s u = .ret threw →
      InitializeGoto s ok (.catchTerminate g u) (.catchTerminated g)
  | exchangeTask (g : Gen) (status : ThreadInitializationStatus) :
      InitializeGoto s ok (.exchangeTask g status) (.deleteTask g status s.taskHandle)
  | deleteTask (g : Gen) (status : ThreadInitializationStatus) (handle : Option Gen) :
      InitializeGoto s ok (.deleteTask g status handle) (.beginFinalization g status)
  | finalized (g : Gen) (status : ThreadInitializationStatus) : s.taskExitFinalizationStarted = true →
      InitializeGoto s ok (.beginFinalization g status) (.clearInProgress status)
  | beginFinalization (g : Gen) (status : ThreadInitializationStatus) : s.taskExitFinalizationStarted = false →
      InitializeGoto s ok (.beginFinalization g status) (.storePending g status)
  | storePending (g : Gen) (status : ThreadInitializationStatus) :
      InitializeGoto s ok (.storePending g status) (.send g status)
  | send (g : Gen) (status : ThreadInitializationStatus) : ok = true →
      InitializeGoto s ok (.send g status) (.clearInProgress status)
  | unsent (g : Gen) (status : ThreadInitializationStatus) : ok = false →
      InitializeGoto s ok (.send g status) (.clearPending status)
  | clearPending (status : ThreadInitializationStatus) :
      InitializeGoto s ok (.clearPending status) (.clearInProgress status)
  | giveGate (g : Gen) : ok = true → InitializeGoto s ok (.giveGate g) (.clearInProgress .success)
  | notGiven (g : Gen) : ok = false → InitializeGoto s ok (.giveGate g) (.exchangeTask g .taskCreationFailed)
  | clearInProgress (status : ThreadInitializationStatus) :
      InitializeGoto s ok (.clearInProgress status) (.clearInitializing status)
  | succeeded : InitializeGoto s ok (.clearInitializing .success) (.finished .success)
  | clearInitializing (status : ThreadInitializationStatus) : status ≠ .success →
      InitializeGoto s ok (.clearInitializing status) (.onInitializationFailed status)
  | onInitializationFailed (status : ThreadInitializationStatus) :
      InitializeGoto s ok (.onInitializationFailed status) (.notifyInitializationFailed status)
  | notifyInitializationFailed (status : ThreadInitializationStatus) :
      InitializeGoto s ok (.notifyInitializationFailed status) (.finished status)

theorem execInitialize_goto {t t' : InitializePc} (h : execInitialize s p t ok = some (s', .goto t')) :
    InitializeGoto s ok t t' := by
  cases t <;> simp only [execInitialize] at h
  case ensureRegistered =>
    split at h <;> cases h
    exact .ensureRegistered ‹_›
  case loadHandle =>
    split at h <;> cases h
    · exact .loadHandle ‹_›
    · exact .alreadyInitialized ‹_›
  case loadPending =>
    split at h <;> cases h
    · exact .dispatchPending ‹_›
    · exact .loadPending (Bool.eq_false_iff.2 ‹_›)
  case ensureDispatcher =>
    split at h <;> cases h
    · exact .ensureDispatcher ‹_›
    · exact .dispatcherUnavailable (Bool.eq_false_iff.2 ‹_›)
  case readState =>
    simp only [Option.some.injEq, Prod.mk.injEq] at h
    obtain ⟨-, h⟩ := h
    split at h <;> cases h
    · exact .readTerminated ‹_›
    · exact .readUninitialized ‹_›
    · exact .invalidState ‹_› ‹_›
  case lockConfiguration =>
    split at h <;> cases h
    exact .lockConfiguration (Bool.eq_false_iff.2 ‹_›)
  case recheckHandle =>
    split at h <;> cases h
    · exact .recheckHandle ‹_›
    · exact .hasTask ‹_›
  case resetExited => cases h; exact .resetExited
  case resetGate => cases h; exact .resetGate
  case resetFinalization => cases h; exact .resetFinalization
  case create =>
    split at h <;> cases h
    · exact .create ‹_›
    · exact .createFailed (Bool.eq_false_iff.2 ‹_›)
  case publish g =>
    split at h <;> cases h
    · exact .publish g ‹_›
    · exact .lost g ‹_›
  case unlockConfiguration g => cases h; exact .unlockConfiguration g
  case storeInitializing g => cases h; exact .storeInitializing g
  case storeInProgress g => cases h; exact .storeInProgress g
  case onInitialization g =>
    split at h <;> cases h
    · exact .onInitialization g ‹_›
    · exact .initializationThrew g (Bool.eq_false_iff.2 ‹_›)
  case readAfterInitialization g =>
    simp only [Option.some.injEq, Prod.mk.injEq] at h
    obtain ⟨-, h⟩ := h
    split at h <;> cases h
    · exact .initializationTerminating g ‹_›
    · exact .initializationTerminated g ‹_›
    · exact .readAfterInitialization g ‹_› ‹_›
  case readAfterInitialized g =>
    simp only [Option.some.injEq, Prod.mk.injEq] at h
    obtain ⟨-, h⟩ := h
    split at h <;> cases h
    · exact .initializedTerminating g ‹_›
    · exact .initializedTerminated g ‹_›
    · exact .readAfterInitialized g ‹_›
    · exact .readOther g ‹_› ‹_›
  case loadStartOnInitialize g =>
    cases h
    split
    · exact .startOnInitialize g
    · exact .noStart g
  case catchTerminate g u =>
    simp only [Option.some.injEq, Prod.mk.injEq] at h
    obtain ⟨u', hu, rfl⟩ | ⟨threw, hu, hr⟩ := Next.inside_goto h.2
    · exact .terminate g u u' hu
    · cases hr
      exact .terminated g u threw hu
  case exchangeTask g status => cases h; exact .exchangeTask g status
  case deleteTask g status handle => cases h; exact .deleteTask g status handle
  case beginFinalization g status =>
    split at h <;> cases h
    · exact .finalized g status ‹_›
    · exact .beginFinalization g status (Bool.eq_false_iff.2 ‹_›)
  case storePending g status => cases h; exact .storePending g status
  case send g status =>
    split at h <;> cases h
    · exact .send g status ‹_›
    · exact .unsent g status (Bool.eq_false_iff.2 ‹_›)
  case clearPending status => cases h; exact .clearPending status
  case giveGate g =>
    split at h <;> cases h
    · exact .giveGate g ‹_›
    · exact .notGiven g (Bool.eq_false_iff.2 ‹_›)
  case clearInProgress status => cases h; exact .clearInProgress status
  case clearInitializing status =>
    simp only [Option.some.injEq, Prod.mk.injEq, Next.goto.injEq] at h
    obtain ⟨-, rfl⟩ := h
    split
    · subst status
      exact .succeeded
    · exact .clearInitializing status ‹_›
  case onInitializationFailed status => cases h; exact .onInitializationFailed status
  case notifyInitializationFailed status => cases h; exact .notifyInitializationFailed status
  all_goals cases h

/-- A step of `Initialize` that does not leave it. -/
inductive InitializeTo (s : Shared) (p : TaskId) (ok : Bool) : Option StateTransition → InitializePc → Shared →
    Option StateTransition → InitializePc → Prop
  | inTransition (t : InitializePc) (tr tr' : StateTransition) (s' : Shared) :
      stepTransition s p tr ok = some (s', .goto tr') → InitializeTo s p ok (some tr) t s' (some tr') t
  | transitionDone (t t' : InitializePc) (tr : StateTransition) (s' : Shared) (stored threw : Bool) :
      stepTransition s p tr ok = some (s', .done stored threw) → t.resume s' stored threw = .goto t' →
      InitializeTo s p ok (some tr) t s' none t'
  | transitionStart (t : InitializePc) (expected : Option ThreadState) (newState : ThreadState) :
      t.transition = some (expected, newState) → InitializeTo s p ok none t s (some (.start expected newState)) t
  | exec (t t' : InitializePc) (s' : Shared) : execInitialize s p t ok = some (s', .goto t') →
      InitializeTo s p ok none t s' none t'

theorem StartPc.tail_goto {t : StartPc} (h : StartPc.tail s = .goto t) : t = .signalScheduler := by
  unfold StartPc.tail at h
  split at h <;> cases h
  rfl

/-- `Start` calls `Initialize`. -/
structure StartsInitialize (s : Shared) (f : Frame) : Prop where
  transition : f.transition = none
  pc : f.pc = .start .readState
  threadState : s.threadState = .uninitialized ∨ s.threadState = .terminated

/-- A call in `Initialize` was there before the step, unless `Start` has just
called it. -/
theorem FrameStep.initialize_cases {f f' : Frame} {t' : InitializePc} (h : FrameStep s p f ok s' (some f'))
    (hf : f'.pc.initializePc = some t') : (t' = .ensureRegistered ∧ StartsInitialize s f) ∨
      ∃ t, f.pc.initializePc = some t ∧ InitializeTo s p ok f.transition t s' f'.transition t' := by
  obtain ⟨pc, tr, after⟩ := f
  cases h.goto with
  | inTransition tr tr' s' htr hst =>
    obtain rfl : _ = some tr := htr
    exact .inr ⟨t', hf, .inTransition t' tr tr' s' hst⟩
  | transitionStart expected newState htr hpc =>
    obtain rfl : _ = none := htr
    refine .inr ⟨t', hf, .transitionStart t' expected newState ?_⟩
    cases pc with
    | initializeThread t => cases hf; exact hpc
    | start t =>
      cases t with
      | initializeThread t => cases hf; exact hpc
      | _ => cases hf
    | _ => cases hf
  | transitionDone tr s' stored threw pc' htr hst hn =>
    obtain rfl : _ = some tr := htr
    cases resume_goto hn with
    | initializeThread t t₁ ht => cases hf; exact .inr ⟨t, rfl, .transitionDone t t' tr s' stored threw hst ht⟩
    | start t t₁ ht =>
      cases t with
      | initializeThread t =>
        obtain ⟨y, hy, rfl⟩ | ⟨_, -, hr⟩ := Next.inside_goto ht
        · cases hf; exact .inr ⟨t, rfl, .transitionDone t t' tr s' stored threw hst hy⟩
        · cases hr
      | _ =>
        simp only [StartPc.resume] at ht
        split at ht
        · cases ht
        · rw [StartPc.tail_goto ht] at hf; cases hf
    | terminate | shutdown | worker | cleanUp => cases hf
  | exec s' pc' htr hpc hex =>
    obtain rfl : _ = none := htr
    cases exec_goto hex with
    | initializeThread t t₁ ht => cases hf; exact .inr ⟨t, rfl, .exec t t' s' ht⟩
    | start t t₁ ht =>
      unfold execStart at ht
      split at ht
      · simp only [Option.some.injEq, Prod.mk.injEq] at ht
        obtain ⟨-, ht⟩ := ht
        split at ht
        case h_5 | h_6 | h_7 => rw [StartPc.tail_goto ht] at hf; cases hf
        case h_1 hstate => cases ht; cases hf; exact .inl ⟨rfl, rfl, rfl, .inl hstate⟩
        case h_2 hstate => cases ht; cases hf; exact .inl ⟨rfl, rfl, rfl, .inr hstate⟩
        all_goals cases ht; cases hf
      · simp only [Option.some.injEq, Prod.mk.injEq] at ht
        obtain ⟨-, ht⟩ := ht
        split at ht
        · cases ht; cases hf
        · rw [StartPc.tail_goto ht] at hf; cases hf
      · obtain ⟨y, hy, rfl⟩ := map_inside_goto ht
        cases hf
        exact .inr ⟨_, rfl, .exec _ t' s' hy⟩
      · cases ht
      · cases ht
      · cases ht
      · cases ht
    | setFreeOnTerminate | terminate | shutdown | worker | dispatcher | cleanUp => cases hf

theorem FrameStep.initializePc {f f' : Frame} {t' : InitializePc} (h : FrameStep s p f ok s' (some f'))
    (hf : f'.pc.initializePc = some t') : t' = .ensureRegistered ∨
      ∃ t, f.pc.initializePc = some t ∧ InitializeTo s p ok f.transition t s' f'.transition t' :=
  (h.initialize_cases hf).imp_left And.left

/-! ## What steps leave alone -/

/-- A transition writes the state and the lock. -/
theorem stepTransition_shared {tr : StateTransition} {next : TransitionNext}
    (h : stepTransition s p tr ok = some (s', next)) :
    ∃ state owner depth,
      s' = { s with threadState := state, transitionOwner := owner, transitionDepth := depth } := by
  unfold stepTransition at h
  split at h
  · split at h <;> cases h
    exact ⟨_, _, _, rfl⟩
  · split at h <;> cases h <;> exact ⟨_, _, _, rfl⟩
  all_goals cases h; exact ⟨_, _, _, rfl⟩

/-- A step in a transition writes the state and the lock; any other executes
the call's statement. -/
theorem FrameStep.shared_cases {f : Frame} {f' : Option Frame} (h : FrameStep s p f ok s' f') :
    (∃ state owner depth,
      s' = { s with threadState := state, transitionOwner := owner, transitionDepth := depth }) ∨
    ∃ next, Lifecycle.exec s p f.pc ok = some (s', next) := by
  cases h with
  | inTransition tr tr' s' _ hst => exact .inl (stepTransition_shared hst)
  | transitionDone tr s' stored threw _ hst => exact .inl (stepTransition_shared hst)
  | transitionStart => exact .inl ⟨_, _, _, rfl⟩
  | exec s' next _ _ hex => exact .inr ⟨next, hex⟩

theorem stepTransition_unlock {tr : StateTransition} {stored threw : Bool}
    (h : stepTransition s p tr ok = some (s', .done stored threw)) : tr.pc = .unlock := by
  unfold stepTransition at h
  split at h <;> rename_i hpc
  · split at h <;> cases h
  · split at h <;> cases h
  all_goals first
    | (cases h; done)
    | exact hpc

/-- Only the task that initializes the thread takes an exception out of a
transition. -/
theorem stepTransition_throws {tr tr' : StateTransition} (h : stepTransition s p tr ok = some (s', .goto tr'))
    (htr : tr.throws = false) (hi : tr.pc = .loadInitializing → s.initializingTask ≠ some p) : tr'.throws = false := by
  unfold stepTransition at h
  split at h <;> rename_i hpc
  · split at h <;> cases h
    exact htr
  · split at h <;> cases h <;> exact htr
  case h_8 =>
    cases h
    simp [hi hpc]
  all_goals cases h
  all_goals exact htr

/-- What only transitions and cleanup write: the lock, the state, the
constants, and how far the reclamation is. -/
def Shared.aside (s : Shared) : (Option TaskId × Nat) × ThreadState × (Bool × Bool) × (Bool × Bool) :=
  ((s.transitionOwner, s.transitionDepth), s.threadState, (s.precision, s.managed), (s.reclaimed, s.freed))

@[simp] theorem Shared.aside_kill (s : Shared) (h : Option Gen) : (s.kill h).aside = s.aside := by
  cases h <;> rfl

@[simp] theorem Shared.aside_exchangeClaim (s : Shared) (a b : CleanupClaim) :
    (s.exchangeClaim a b).aside = s.aside := by
  unfold Shared.exchangeClaim; split <;> rfl

theorem execInitialize_aside {pc : InitializePc} {next : Next InitializePc}
    (h : execInitialize s p pc ok = some (s', next)) : s'.aside = s.aside := by
  cases pc <;> simp only [execInitialize] at h
  all_goals first
    | (cases h; first | rfl | exact Shared.aside_kill _ _)
    | (split at h <;> cases h <;> rfl)
    | cases h

theorem execStart_aside {pc : StartPc} {next : Next StartPc} (h : execStart s p pc ok = some (s', next)) :
    s'.aside = s.aside := by
  unfold execStart at h
  split at h
  · cases h; rfl
  · cases h; rfl
  · obtain ⟨⟨s₁, n⟩, hs, he⟩ := Option.map_eq_some_iff.1 h
    cases he
    exact execInitialize_aside hs
  · cases h; rfl
  · cases h
  · cases h
  · cases h

theorem execShutdown_aside {pc : ShutdownPc} {next : Next ShutdownPc} (h : execShutdown s p pc = some (s', next)) :
    s'.aside = s.aside := by
  cases pc <;> simp only [execShutdown] at h
  all_goals first
    | (cases h; first | rfl | exact Shared.aside_exchangeClaim _ _ _)
    | (split at h <;> cases h <;> rfl)
    | cases h

theorem execWorker_aside {g : Gen} {pc : WorkerPc} {next : Next WorkerPc} (h : execWorker s g pc ok = some (s', next)) :
    s'.aside = s.aside := by
  cases pc <;> simp only [execWorker] at h
  all_goals first
    | (cases h; rfl)
    | (split at h <;> cases h <;> rfl)
    | cases h

theorem execDispatcher_aside {pc : DispatcherPc} {next : Next DispatcherPc}
    (h : execDispatcher s pc = some (s', next)) : s'.aside = s.aside := by
  cases pc <;> simp only [execDispatcher] at h
  all_goals first
    | (cases h; first | rfl | exact Shared.aside_kill _ _)
    | (split at h <;> cases h; rfl)

theorem exec_aside {pc : Pc} {next : Next Pc} (h : exec s p pc ok = some (s', next)) :
    ((∀ t, pc ≠ .cleanUp t) ∧ s'.aside = s.aside) ∨
      ∃ t n, pc = .cleanUp t ∧ next = n.inside Pc.cleanUp .ret ∧ execCleanUp s p t ok = some (s', n) := by
  unfold exec at h
  split at h
  · cases h
  · cases h
  · cases h; exact .inl ⟨nofun, rfl⟩
  · cases h; exact .inl ⟨nofun, by split <;> exact Shared.aside_exchangeClaim _ _ _⟩
  · cases h; exact .inl ⟨nofun, rfl⟩
  · cases h; exact .inl ⟨nofun, rfl⟩
  all_goals
    obtain ⟨⟨s₁, n⟩, hs, he⟩ := Option.map_eq_some_iff.1 h
    cases he
  · exact .inl ⟨nofun, execInitialize_aside hs⟩
  · exact .inl ⟨nofun, execStart_aside hs⟩
  · exact .inl ⟨nofun, execShutdown_aside hs⟩
  · exact .inl ⟨nofun, execWorker_aside hs⟩
  · exact .inl ⟨nofun, execDispatcher_aside hs⟩
  · exact .inr ⟨_, _, rfl, rfl, hs⟩

/-! ## Calls on their tasks -/

/-- The transition is the one its call waits for, and the calls of `_taskEntry`
and of the dispatcher's loop are the first ones of their tasks. -/
structure Frame.Ok (a : TaskId × Nat) (f : Frame) : Prop where
  transition : ∀ tr, f.transition = some tr → f.pc.transition = some (tr.expected, tr.newState)
  worker : ∀ g t, f.pc = .worker g t → a = (.worker g, 0)
  dispatcher : ∀ t, f.pc = .dispatcher t → a = (.dispatcher, 0)

theorem Frame.Ok.no_transition {a : TaskId × Nat} {f : Frame} (h : f.Ok a) (hpc : f.pc.transition = none) :
    f.transition = none := by
  cases htr : f.transition with
  | none => rfl
  | some tr =>
    have := h.transition tr htr
    rw [hpc] at this
    cases this

/-- A step of a call that is at no transition. -/
theorem FrameStep.exec_of {a : TaskId × Nat} {f : Frame} {f' : Option Frame} (h : FrameStep s p f ok s' f')
    (hok : f.Ok a) (hpc : f.pc.transition = none) :
    ∃ next, Lifecycle.exec s p f.pc ok = some (s', next) ∧ f' = f.next next := by
  have hno := hok.no_transition hpc
  cases h with
  | inTransition tr tr' s' htr => rw [hno] at htr; cases htr
  | transitionDone tr s' stored threw htr => rw [hno] at htr; cases htr
  | transitionStart expected newState _ ht => rw [hpc] at ht; cases ht
  | exec s' next _ _ hex => exact ⟨next, hex, rfl⟩

theorem stepTransition_goto {tr tr' : StateTransition} (h : stepTransition s p tr ok = some (s', .goto tr')) :
    tr'.expected = tr.expected ∧ tr'.newState = tr.newState := by
  unfold stepTransition at h
  split at h
  · split at h <;> cases h
    exact ⟨rfl, rfl⟩
  · split at h <;> cases h <;> exact ⟨rfl, rfl⟩
  all_goals cases h
  all_goals exact ⟨rfl, rfl⟩

/-- A call stays in its method. -/
theorem FrameStep.method {f f' : Frame} (h : FrameStep s p f ok s' (some f')) :
    (∀ g t', f'.pc = .worker g t' → ∃ t, f.pc = .worker g t) ∧
    (∀ t', f'.pc = .dispatcher t' → ∃ t, f.pc = .dispatcher t) ∧
    (∀ t', f'.pc = .cleanUp t' → ∃ t, f.pc = .cleanUp t) ∧
    (∀ t', f'.pc = .shutdown t' → ∃ t, f.pc = .shutdown t) := by
  have hrefl : ∀ pc : Pc, (∀ g t', pc = .worker g t' → ∃ t, pc = .worker g t) ∧
      (∀ t', pc = .dispatcher t' → ∃ t, pc = .dispatcher t) ∧ (∀ t', pc = .cleanUp t' → ∃ t, pc = .cleanUp t) ∧
      (∀ t', pc = .shutdown t' → ∃ t, pc = .shutdown t) :=
    fun pc => ⟨fun _ t ht => ⟨t, ht⟩, fun t ht => ⟨t, ht⟩, fun t ht => ⟨t, ht⟩, fun t ht => ⟨t, ht⟩⟩
  cases h.goto with
  | inTransition => exact hrefl _
  | transitionStart => exact hrefl _
  | transitionDone tr s' stored threw pc htr hst hn =>
    generalize f.pc = x at hn
    cases resume_goto hn with
    | terminate | initializeThread | start => exact ⟨nofun, nofun, nofun, nofun⟩
    | shutdown => exact ⟨nofun, nofun, nofun, fun _ _ => ⟨_, rfl⟩⟩
    | worker g t => exact ⟨fun g' t' ht => by cases ht; exact ⟨_, rfl⟩, nofun, nofun, nofun⟩
    | cleanUp => exact ⟨nofun, nofun, fun _ _ => ⟨_, rfl⟩, nofun⟩
  | exec s' pc htr hpc hex =>
    generalize f.pc = x at hex
    cases exec_goto hex with
    | setFreeOnTerminate | terminate | initializeThread | start => exact ⟨nofun, nofun, nofun, nofun⟩
    | shutdown => exact ⟨nofun, nofun, nofun, fun _ _ => ⟨_, rfl⟩⟩
    | worker g t => exact ⟨fun g' t' ht => by cases ht; exact ⟨_, rfl⟩, nofun, nofun, nofun⟩
    | dispatcher t => exact ⟨nofun, fun _ _ => ⟨_, rfl⟩, nofun, nofun⟩
    | cleanUp t => exact ⟨nofun, nofun, fun _ _ => ⟨_, rfl⟩, nofun⟩

theorem Frame.Ok.step {a : TaskId × Nat} {f f' : Frame} (h : f.Ok a) (hs : FrameStep s p f ok s' (some f')) :
    f'.Ok a := by
  obtain ⟨hw, hd, -⟩ := hs.method
  refine ⟨?_, fun g t ht => ?_, fun t ht => ?_⟩
  · cases hs.goto with
    | inTransition tr tr' s' htr hst =>
      rintro _ ⟨⟩
      obtain ⟨he, hn⟩ := stepTransition_goto hst
      rw [he, hn]
      exact h.transition tr htr
    | transitionStart expected newState htr hpc =>
      rintro _ ⟨⟩
      exact hpc
    | transitionDone | exec =>
      intro tr ht
      cases ht
  · obtain ⟨t', ht'⟩ := hw g t ht
    exact h.worker g t' ht'
  · obtain ⟨t', ht'⟩ := hd t ht
    exact h.dispatcher t' ht'

theorem ok_entry (a : TaskId × Nat) (request : Request) (afterClaim : Bool) :
    Frame.Ok a ⟨request.entry, none, afterClaim⟩ := by
  refine ⟨fun tr h => ?_, fun g t h => ?_, fun t h => ?_⟩
  · cases h
  · cases request <;> cases h
  · cases request <;> cases h

/-- Every call is on its task. -/
def CallsOk (w : World) : Prop := ∀ a f, w.call a = some f → f.Ok a

theorem CallsOk.step {a : Action} (h : CallsOk w) (hs : step w a = some w') : CallsOk w' := by
  cases a with
  | call p request =>
    obtain ⟨-, -, b, -, -, hcall⟩ := call_update hs
    rw [CallsOk, hcall]
    refine forall_call_update (fun f hf => ?_) fun b f _ hb => h b f hb
    cases hf
    exact ok_entry b request _
  | step p ok =>
    obtain ⟨-, b, f, f', -, -, hf, hstep, hcall⟩ := step_update hs
    rw [CallsOk, hcall]
    refine forall_call_update (fun g hg => ?_) fun b g _ hb => h b g hb
    rw [hg] at hstep
    exact (h b f hf).step hstep

/-- A call that every step of it keeps stays in its slot. -/
theorem call_stays {Q : Pc → Prop} {a : TaskId × Nat} {b : Action}
    (hQ : ∀ {s s' : Shared} {q : TaskId} {ok : Bool} {f : Frame} {f' : Option Frame}, FrameStep s q f ok s' f' →
      f.Ok a → Q f.pc → ∃ f₁, f' = some f₁ ∧ Q f₁.pc)
    (h : ∃ f, w.call a = some f ∧ Q f.pc) (hcalls : CallsOk w) (hs : step w b = some w') :
    ∃ f, w'.call a = some f ∧ Q f.pc := by
  obtain ⟨f, hf, hpc⟩ := h
  cases b with
  | call p request =>
    obtain ⟨-, -, c, -, hc, hcall⟩ := call_update hs
    have hne : a ≠ c := by
      rintro rfl
      rw [hc] at hf
      cases hf
    exact ⟨f, by rw [hcall, Function.update_of_ne hne, hf], hpc⟩
  | step p ok =>
    obtain ⟨-, c, g, g', -, -, hg, hstep, hcall⟩ := step_update hs
    by_cases ha : a = c
    · subst ha
      obtain rfl : f = g := Option.some.inj (hf.symm.trans hg)
      obtain ⟨f₁, hf₁, hpc₁⟩ := hQ hstep (hcalls _ f hf) hpc
      exact ⟨f₁, by rw [hcall, Function.update_self, hf₁], hpc₁⟩
    · exact ⟨f, by rw [hcall, Function.update_of_ne ha, hf], hpc⟩

theorem start_call {a : TaskId × Nat} {f : Frame} (h : (World.start s).call a = some f) :
    (∃ g, a = (.worker g, 0) ∧ f = ⟨.worker g .waitGate, none, false⟩) ∨
      (a = (.dispatcher, 0) ∧ f = ⟨.dispatcher .receive, none, false⟩) := by
  obtain ⟨p, n⟩ := a
  obtain ⟨hn, rfl⟩ := World.call_eq_some.1 h
  cases p with
  | app m => exact absurd hn (Nat.not_lt_zero n)
  | worker g =>
    obtain rfl : n = 0 := Nat.lt_one_iff.1 hn
    exact .inl ⟨g, rfl, rfl⟩
  | dispatcher =>
    obtain rfl : n = 0 := Nat.lt_one_iff.1 hn
    exact .inr ⟨rfl, rfl⟩

theorem ok_waitGate (g : Gen) : Frame.Ok (.worker g, 0) ⟨.worker g .waitGate, none, false⟩ := by
  refine ⟨fun tr h => ?_, fun g' t h => ?_, fun t h => ?_⟩ <;> cases h
  rfl

theorem ok_receive : Frame.Ok (.dispatcher, 0) ⟨.dispatcher .receive, none, false⟩ := by
  refine ⟨fun tr h => ?_, fun g' t h => ?_, fun t h => ?_⟩ <;> cases h
  rfl

theorem callsOk_reachable {managed : Bool} {C : World → Action → Prop} (h : (system managed).ReachableWhen C w) :
    CallsOk w := by
  refine h.invariant (I := CallsOk) (fun w hw a f hf => ?_) fun w a w' hi _ hs => hi.step hs
  obtain ⟨free, start, precision, rfl⟩ := hw
  rcases start_call hf with ⟨g, rfl, rfl⟩ | ⟨rfl, rfl⟩
  · exact ok_waitGate g
  · exact ok_receive

/-! ## Stacks -/

/-- Only user code calls. -/
def Stacked (w : World) : Prop := ∀ p n, n + 1 < w.depth p → (w.frames (p, n)).userCode = true

theorem Stacked.step {b : Action} (h : Stacked w) (hs : step w b = some w') : Stacked w' := by
  cases b with
  | call p request =>
    obtain ⟨-, huser, rfl⟩ := step_push hs
    intro q n hn
    rw [World.push_depth] at hn
    rw [World.push_frames]
    by_cases hq : q = p
    · subst hq
      rw [if_pos rfl] at hn
      rw [if_neg (by intro he; cases he; omega)]
      -- The call that was last is in user code, which makes the new call.
      by_cases hlast : n + 1 = w.depth q
      · simp only [World.inUserCode, ← hlast] at huser
        exact huser
      · exact h q n (by omega)
    · rw [if_neg hq] at hn
      rw [if_neg (by intro he; cases he; exact hq rfl)]
      exact h q n hn
  | step p ok =>
    obtain ⟨-, hm⟩ := step_moves hs
    cases hm with
    | stay m s f hd _ =>
      intro q n hn
      rw [World.setFrame_frames, if_neg (by intro he; cases he; simp only [World.setFrame_depth] at hn; omega)]
      exact h q n hn
    | ret m s hd _ =>
      intro q n hn
      simp only [World.setFrame_depth, Function.update_apply] at hn
      rw [World.setFrame_frames]
      by_cases hq : q = p
      · subst hq
        rw [if_pos rfl] at hn
        rw [if_neg (by intro he; cases he; omega)]
        exact h q n (by omega)
      · rw [if_neg hq] at hn
        rw [if_neg (by intro he; cases he; exact hq rfl)]
        exact h q n hn

theorem stacked_start (s : Shared) : Stacked (.start s) := by
  intro p n hn
  cases p <;> simp [World.start] at hn

theorem stacked_reachable {managed : Bool} {C : World → Action → Prop} (h : (system managed).ReachableWhen C w) :
    Stacked w := by
  refine h.invariant (I := Stacked) (fun w hw => ?_) fun w a w' hi _ hs => hi.step hs
  obtain ⟨free, start, precision, rfl⟩ := hw
  exact stacked_start _

/-- Nothing is called above a call that is not in user code. -/
theorem Stacked.no_call {n : Nat} {f : Frame} (h : Stacked w) (hf : w.call (p, n) = some f)
    (hu : f.userCode = false) (k : Nat) : w.call (p, n + k + 1) = none := by
  obtain ⟨-, rfl⟩ := World.call_eq_some.1 hf
  simp only [World.call, ite_eq_right_iff]
  intro hn
  have := h p n (by omega)
  rw [hu] at this
  cases this

/-! ## Schedules -/

/-- `n` steps of `p`, in which nothing throws or fails. -/
def steps (p : TaskId) (n : Nat) : List Action := List.replicate n (.step p true)

/-- A thread that starts on initialization. -/
def newThread (freeOnTerminate managed : Bool) : World := .start (.start freeOnTerminate true false managed)

theorem newThread_init (freeOnTerminate managed : Bool) :
    (system managed).init (newThread freeOnTerminate managed) :=
  ⟨freeOnTerminate, true, false, rfl⟩

/-- Application task 0 initializes the thread, which is then running. -/
def initialized : List Action := .call (.app 0) .initializeThread :: steps (.app 0) 39

/-- Application task 0 asks the thread to terminate. -/
def terminating : List Action := .call (.app 0) .terminate :: steps (.app 0) 8

/-- Application task 0 initializes the thread, and `OnInitialization` throws. -/
def initializationThrows : List Action :=
  .call (.app 0) .initializeThread :: steps (.app 0) 15 ++ [.step (.app 0) false]

/-- The dispatcher puts a record through `_dispatchTermination`. -/
def dispatched : List Action := steps .dispatcher 8

/-- A call that has not run yet: a worker at its gate, or the dispatcher. -/
def Frame.Untouched (f : Frame) : Prop :=
  (∃ g, f = ⟨.worker g .waitGate, none, false⟩) ∨ f = ⟨.dispatcher .receive, none, false⟩

/-- Only the tasks of a list have done anything. -/
def World.IdleBut (ts : List TaskId) (w : World) : Prop :=
  ∀ a f, w.call a = some f → a.1 ∈ ts ∨ f.Untouched

theorem idleBut_start (ts : List TaskId) (s : Shared) : (World.start s).IdleBut ts := by
  intro a f hf
  rcases start_call hf with ⟨g, -, rfl⟩ | ⟨-, rfl⟩
  · exact .inr (.inl ⟨g, rfl⟩)
  · exact .inr (.inr rfl)

theorem World.IdleBut.step {ts : List TaskId} {a : Action} (h : w.IdleBut ts) (ha : a.task ∈ ts)
    (hs : step w a = some w') : w'.IdleBut ts := by
  cases a with
  | call p request =>
    obtain ⟨-, -, b, rfl, -, hcall⟩ := call_update hs
    rw [World.IdleBut, hcall]
    exact forall_call_update (fun f _ => .inl ha) fun b f _ hb => h b f hb
  | step p ok =>
    obtain ⟨-, b, f, f', rfl, -, -, -, hcall⟩ := step_update hs
    rw [World.IdleBut, hcall]
    exact forall_call_update (fun f _ => .inl ha) fun b f _ hb => h b f hb

/-- A check of every call of the tasks of a list. -/
def World.callsOn (ts : List TaskId) (w : World) (P : Frame → Bool) : Bool :=
  ts.all fun q => (List.range (w.depth q)).all fun n => P (w.frames (q, n))

theorem World.IdleBut.forall_call {ts : List TaskId} {P : Frame → Bool} (h : w.IdleBut ts)
    (hP : ∀ f, f.Untouched → P f = true) (hts : w.callsOn ts P = true) :
    ∀ a f, w.call a = some f → P f = true := by
  intro a f hf
  rcases h a f hf with ha | hu
  · obtain ⟨hn, rfl⟩ := World.call_eq_some.1 hf
    exact List.all_eq_true.1 (List.all_eq_true.1 hts a.1 ha) a.2 (List.mem_range.2 hn)
  · exact hP f hu

end ESPressio.Lifecycle
