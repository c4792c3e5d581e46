import ESPressioThreads.Lifecycle.Generations
/-!
# Who changes the state

The state changes where a transition stores it, by the call that waits for the
transition. `Terminate` and `Shutdown` decide on what they read, and store
`Terminated` later: between the two they are armed.
-/

namespace ESPressio.Lifecycle

open Transition ESPressio.Thread

variable {w w' : World} {s s' : Shared} {p : TaskId} {ok : Bool} {f : Frame}

/-! ## Stores of the state -/

/-- A transition that has not come to its store, if there is one at all. -/
def unstored (tr : Option StateTransition) : Bool := tr.all fun tr => tr.pc = .lock || tr.pc = .check

/-- The state that the next step of the call stores. -/
def Frame.stores (f : Frame) (s : Shared) : Option ThreadState :=
  match f.transition with
  | some tr =>
    if tr.pc = .check ∧ (tr.expected = none ∨ tr.expected = some s.threadState) ∧
      isValidThreadStateTransition s.threadState tr.newState then some tr.newState else none
  | none => none

theorem Frame.stores_eq_some {state : ThreadState} : f.stores s = some state ↔
    ∃ tr, f.transition = some tr ∧ tr.pc = .check ∧ tr.newState = state ∧
      (tr.expected = none ∨ tr.expected = some s.threadState) ∧
      isValidThreadStateTransition s.threadState state = true := by
  unfold Frame.stores
  cases htr : f.transition with
  | none => simp
  | some tr =>
    simp only [Option.ite_none_right_eq_some, Option.some.injEq, exists_eq_left']
    constructor
    · rintro ⟨⟨hc, he, hv⟩, rfl⟩
      exact ⟨hc, rfl, he, hv⟩
    · rintro ⟨hc, rfl, he, hv⟩
      exact ⟨⟨hc, he, hv⟩, rfl⟩

theorem stepTransition_threadState {tr : StateTransition} {next : TransitionNext}
    (h : stepTransition s p tr ok = some (s', next)) (htr : f.transition = some tr) :
    s'.threadState = (f.stores s).getD s.threadState := by
  unfold stepTransition at h
  simp only [Frame.stores, htr]
  split at h <;> rename_i hpc <;> simp only [hpc]
  case h_1 => split at h <;> cases h; rfl
  case h_2 =>
    simp only [true_and]
    split at h <;> rename_i hc
    · cases h
      rw [if_pos hc]
      rfl
    · cases h
      rw [if_neg hc]
      rfl
  all_goals cases h; rfl

theorem FrameStep.threadState {f' : Option Frame} (h : FrameStep s p f ok s' f') (hc : ∀ t, f.pc ≠ .cleanUp t) :
    s'.threadState = (f.stores s).getD s.threadState := by
  cases h with
  | inTransition tr tr' s' htr hst => exact stepTransition_threadState hst htr
  | transitionDone tr s' stored threw htr hst => exact stepTransition_threadState hst htr
  | transitionStart expected newState htr hpc => simp [Frame.stores, htr]
  | exec s' next htr hpc hex =>
    rcases exec_aside hex with ⟨-, ha⟩ | ⟨t, n, ht, -, -⟩
    · simp only [Frame.stores, htr]
      exact congrArg (fun x => x.2.1) ha
    · exact absurd ht (hc t)

/-! ## Armed calls -/

/-- `Terminate` has read `Uninitialized` and not yet stored `Terminated`. -/
def TerminatePc.armed (unstored : Bool) : TerminatePc → Bool
  | .fromUninitialized => true
  | .setTerminated => unstored
  | .readState | .request | .signalScheduler => false

/-- `Shutdown` has found no task and not yet stored `Terminated`. -/
def ShutdownPc.armed (unstored : Bool) : ShutdownPc → Bool
  | .loadInProgress none | .loadInitializing none | .readState | .rereadState | .terminate .noTask _ => true
  | .terminate _ pc => pc.armed unstored
  | .setTerminated => unstored
  | _ => false

def Pc.armed (unstored : Bool) : Pc → Bool
  | .terminate pc | .worker _ (.terminate pc) => pc.armed unstored
  | .shutdown pc => pc.armed unstored
  | _ => false

def Frame.armed (f : Frame) : Bool := f.pc.armed (unstored f.transition)

theorem TerminatePc.armed_resume {t t' : TerminatePc} {threw : Bool} (h : t.resume s threw = .goto t')
    (ha : t'.armed true = true) (b : Bool) : t.armed b = true := by
  cases t <;> simp only [TerminatePc.resume, TerminatePc.tail] at h
  case fromUninitialized => rfl
  all_goals
    split at h
    · cases h
    · split at h <;> cases h
      cases ha

theorem execTerminate_armed {t t' : TerminatePc} (h : execTerminate s t = .goto t') (ha : t'.armed true = true) :
    s.threadState = .uninitialized := by
  cases t <;> simp only [execTerminate] at h
  case readState =>
    split at h
    case h_1 hs => exact hs
    case h_2 | h_3 | h_4 => cases h; cases ha
    all_goals
      unfold TerminatePc.tail at h
      split at h <;> cases h
      cases ha
  all_goals cases h

theorem ShutdownPc.armed_resume {t t' : ShutdownPc} {threw : Bool} (h : t.resume s threw = .goto t')
    (ha : t'.armed true = true) (b : Bool) : t.armed b = true := by
  cases t with
  | terminate branch u =>
    simp only [ShutdownPc.resume] at h
    obtain ⟨y, hy, rfl⟩ | ⟨threw', -, hr⟩ := Next.inside_goto h
    · cases branch
      case noTask => rfl
      all_goals exact TerminatePc.armed_resume hy ha b
    · unfold ShutdownBranch.after at hr
      split at hr
      · cases hr
      · cases branch <;> cases hr
        · rfl
        · cases ha
  | _ =>
    simp only [ShutdownPc.resume] at h
    split at h <;> cases h
    cases ha

theorem execShutdown_armed {t t' : ShutdownPc} (h : execShutdown s p t = some (s', .goto t'))
    (ha : t'.armed true = true) (b : Bool) :
    t.armed b = true ∨ s.threadState = .uninitialized ∨ s.taskHandle = none := by
  -- A branch that was chosen for a task is not armed.
  have hchoose : ∀ {handle : Option Gen}, (ShutdownPc.choose p handle).armed true = true → handle = none := by
    intro handle hh
    cases handle with
    | none => rfl
    | some g =>
      by_cases hp : p = .worker g <;> simp [ShutdownPc.choose, hp, ShutdownPc.armed, TerminatePc.armed] at hh
  cases t <;> simp only [execShutdown] at h
  case loadHandle =>
    cases h
    refine .inr (.inr ?_)
    cases hh : s.taskHandle with
    | none => rfl
    | some g => rw [hh] at ha; cases ha
  case loadInProgress handle =>
    cases h
    left
    split at ha
    · cases handle
      · rfl
      · cases ha
    · rw [hchoose ha]; rfl
  case loadInitializing handle =>
    cases h
    left
    split at ha
    · cases ha
    · rw [hchoose ha]; rfl
  case readState | rereadState => exact .inl rfl
  case terminate branch u =>
    simp only [Option.some.injEq, Prod.mk.injEq] at h
    obtain ⟨-, h⟩ := h
    obtain ⟨y, hy, rfl⟩ | ⟨threw', -, hr⟩ := Next.inside_goto h
    · cases branch
      case noTask => exact .inl rfl
      all_goals exact .inr (.inl (execTerminate_armed hy ha))
    · unfold ShutdownBranch.after at hr
      split at hr
      · cases hr
      · cases branch <;> cases hr
        · exact .inl rfl
        · cases ha
  all_goals first
    | (cases h; done)
    | (cases h; cases ha)
    | (cases h; split at ha <;> cases ha)
    | (split at h <;> cases h; cases ha)

/-- A transition does not come back to its store. -/
theorem stepTransition_unstored {tr tr' : StateTransition} (h : stepTransition s p tr ok = some (s', .goto tr'))
    (hpc : tr'.pc = .lock ∨ tr'.pc = .check) : tr.pc = .lock := by
  unfold stepTransition at h
  split at h <;> rename_i hl
  · exact hl
  · split at h <;> cases h <;> simp at hpc
  · cases h; simp at hpc
  · cases h; dsimp only at hpc; split at hpc <;> simp at hpc
  · cases h; simp at hpc
  · cases h; dsimp only at hpc; split at hpc <;> simp at hpc
  · cases h; dsimp only at hpc; split at hpc <;> simp at hpc
  · cases h; simp at hpc
  · cases h

theorem Pc.armed_mono {pc : Pc} (h : pc.armed false = true) : pc.armed true = true := by
  cases pc with
  | terminate t => cases t <;> first | rfl | cases h
  | worker g t =>
    cases t with
    | terminate t => cases t <;> first | rfl | cases h
    | _ => cases h
  | shutdown t =>
    cases t with
    | terminate branch t => cases branch <;> cases t <;> first | rfl | cases h
    | loadInProgress handle | loadInitializing handle => cases handle <;> first | rfl | cases h
    | readState | rereadState | setTerminated => rfl
    | _ => cases h
  | _ => cases h

/-- A call is armed when it reads `Uninitialized` or finds no task. -/
theorem FrameStep.armed {f' : Frame} (h : FrameStep s p f ok s' (some f')) (ha : f'.armed = true) :
    f.armed = true ∨ s.threadState = .uninitialized ∨ s.taskHandle = none := by
  cases h.goto with
  | inTransition tr tr' s' htr hst =>
    left
    simp only [Frame.armed, unstored, htr, Option.all_some] at ha ⊢
    cases hb : tr.pc = .lock || tr.pc = .check with
    | true =>
      cases hb' : tr'.pc = .lock || tr'.pc = .check with
      | true => rwa [hb'] at ha
      | false => rw [hb'] at ha; exact Pc.armed_mono ha
    | false =>
      have hb' : (tr'.pc = .lock || tr'.pc = .check) = false := by
        by_contra hne
        have hl := stepTransition_unstored hst (by simpa [or_iff_not_imp_left] using hne)
        simp [hl] at hb
      rwa [hb'] at ha
  | transitionStart expected newState htr hpc =>
    left
    simpa [Frame.armed, unstored, htr, StateTransition.start] using ha
  | transitionDone tr s' stored threw pc htr hst hn =>
    left
    unfold Frame.armed at ha ⊢
    generalize unstored f.transition = b
    generalize f.pc = x at hn
    cases resume_goto hn with
    | terminate t t' ht => exact TerminatePc.armed_resume ht ha b
    | shutdown t t' ht => exact ShutdownPc.armed_resume ht ha b
    | worker g t t' ht =>
      cases t with
      | terminate t =>
        simp only [WorkerPc.resume] at ht
        obtain ⟨y, hy, rfl⟩ | ⟨threw', -, hr⟩ := Next.inside_goto ht
        · exact TerminatePc.armed_resume hy ha b
        · cases hr; cases ha
      | _ => cases ht; cases ha
    | initializeThread | start | cleanUp => cases ha
  | exec s' pc htr hpc hex =>
    unfold Frame.armed at ha ⊢
    generalize unstored f.transition = b
    generalize f.pc = x at hex
    cases exec_goto hex with
    | terminate t t' hs ht => exact .inr (.inl (execTerminate_armed ht ha))
    | shutdown t t' ht => exact execShutdown_armed ht ha b
    | worker g t t' ht =>
      cases t <;> simp only [execWorker] at ht
      case terminate u =>
        simp only [Option.some.injEq, Prod.mk.injEq] at ht
        obtain ⟨-, ht⟩ := ht
        obtain ⟨y, hy, rfl⟩ | ⟨threw', -, hr⟩ := Next.inside_goto ht
        · exact .inr (.inl (execTerminate_armed hy ha))
        · cases hr; cases ha
      case loop =>
        simp only [Option.some.injEq, Prod.mk.injEq] at ht
        obtain ⟨-, ht⟩ := ht
        split at ht <;> cases ht <;> cases ha
      all_goals first
        | (cases ht; done)
        | (cases ht; cases ha)
        | (cases ht; split at ha <;> cases ha)
        | (split at ht <;> cases ht <;> cases ha)
    | setFreeOnTerminate | initializeThread | start | dispatcher | cleanUp => cases ha

/-! ## Who stores what -/

/-- The calls that make a transition to a state, outside cleanup. -/
def Pc.Makes (pc : Pc) : ThreadState → Prop
  | .initialized => ∃ g, pc.initializePc = some (.setInitialized g)
  | .uninitialized => pc.initializePc = some .reset
  | .terminated => pc.armed true = true ∨ (∃ g, pc = .worker g .setTerminated) ∨
      (∃ g, pc.initializePc = some (.stopTerminated g)) ∨ (∃ g, pc.initializePc = some (.catchTerminated g)) ∨
      ∃ g, pc.initializePc = some (.catchTerminate g .setTerminated)
  | .running | .paused | .terminating => True
  | .destroyed => False

variable {expected : Option ThreadState} {state : ThreadState}

theorem InitializePc.makes {pc : Pc} {t : InitializePc} (hp : pc.initializePc = some t)
    (h : t.transition = some (expected, state)) : pc.Makes state := by
  cases t with
  | catchTerminate g u => cases u <;> cases h <;> first | trivial | exact .inr (.inr (.inr (.inr ⟨g, hp⟩)))
  | reset => cases h; exact hp
  | setInitialized g => cases h; exact ⟨g, hp⟩
  | stopTerminated g => cases h; exact .inr (.inr (.inl ⟨g, hp⟩))
  | catchTerminated g => cases h; exact .inr (.inr (.inr (.inl ⟨g, hp⟩)))
  | setRunning g => cases h; trivial
  | _ => cases h

theorem Pc.makes {pc : Pc} (h : pc.transition = some (expected, state)) (hc : ∀ t, pc ≠ .cleanUp t) :
    pc.Makes state := by
  cases pc with
  | pause => cases h; trivial
  | terminate t => cases t <;> cases h <;> first | trivial | exact .inl rfl
  | initializeThread t => exact InitializePc.makes rfl h
  | start t =>
    cases t with
    | initializeThread t => exact InitializePc.makes rfl h
    | _ => cases h <;> trivial
  | shutdown t =>
    cases t with
    | terminate branch t => cases t <;> cases h <;> first | trivial | (cases branch <;> exact .inl rfl)
    | setTerminated => cases h; exact .inl rfl
    | _ => cases h
  | worker g t =>
    cases t with
    | terminate t => cases t <;> cases h <;> first | trivial | exact .inl rfl
    | setTerminated => cases h; exact .inr (.inl ⟨g, rfl⟩)
    | _ => cases h
  | cleanUp t => exact absurd rfl (hc t)
  | _ => cases h

/-- The state changes by a valid transition of the call that stepped, or not
at all. -/
theorem FrameStep.state_cases {a : TaskId × Nat} {f' : Option Frame} (h : FrameStep s p f ok s' f') (hok : f.Ok a)
    (hc : ∀ t, f.pc ≠ .cleanUp t) : s'.threadState = s.threadState ∨
      ∃ state, f.stores s = some state ∧ s'.threadState = state ∧ f.pc.Makes state ∧
        isValidThreadStateTransition s.threadState state = true := by
  have hstate := h.threadState hc
  cases hs : f.stores s with
  | none => left; rw [hstate, hs]; rfl
  | some state =>
    obtain ⟨tr, htr, -, rfl, -, hvalid⟩ := Frame.stores_eq_some.1 hs
    exact .inr ⟨_, rfl, by rw [hstate, hs]; rfl, Pc.makes (hok.transition tr htr) hc, hvalid⟩

/-- Only cleanup destroys a thread. -/
theorem FrameStep.not_destroyed {a : TaskId × Nat} {f' : Option Frame} (h : FrameStep s p f ok s' f') (hok : f.Ok a)
    (hc : ∀ t, f.pc ≠ .cleanUp t) (hs : s.threadState ≠ .destroyed) : s'.threadState ≠ .destroyed := by
  rcases h.state_cases hok hc with hsame | ⟨state, -, hstate, hmakes, -⟩
  · rw [hsame]
    exact hs
  · rw [hstate]
    rintro rfl
    exact hmakes.elim

/-! ## The phases of `Initialize` -/

/-- `Initialize` is past its check and has not stored `Initialized`. -/
def InitializePc.before (unstored : Bool) : InitializePc → Bool
  | .resetExited | .resetGate | .resetFinalization | .create | .publish _ | .unlockConfiguration _
  | .storeInitializing _ | .storeInProgress _ | .onInitialization _ | .readAfterInitialization _ => true
  | .setInitialized _ => unstored
  | _ => false

/-- `Initialize` made the transition to `Initialized`, and has to look whether
the state is one to go on in. -/
def InitializePc.after (unstored : Bool) : InitializePc → Bool
  | .setInitialized _ => !unstored
  | .readAfterInitialized _ => true
  | _ => false

/-- `Initialize` is going to open the gate. -/
def InitializePc.opens : InitializePc → Bool
  | .loadStartOnInitialize _ | .setRunning _ | .giveGate _ => true
  | _ => false

variable {tr tr' : Option StateTransition} {t t' : InitializePc}

theorem InitializeTo.before (h : InitializeTo s p ok tr t s' tr' t') (hb : t'.before (unstored tr') = true) :
    t.before (unstored tr) = true ∨ (t = .recheckHandle ∧ tr = none ∧ s.taskHandle = none) := by
  cases h with
  | inTransition _ tr tr' s' hst =>
    left
    cases t
    case setInitialized g =>
      simp only [InitializePc.before, unstored, Option.all_some, Bool.or_eq_true, decide_eq_true_eq] at hb ⊢
      exact .inl (stepTransition_unstored hst hb)
    all_goals exact hb
  | transitionStart => exact .inl (by cases t <;> exact hb)
  | transitionDone _ _ tr s' stored threw hst hr => cases InitializePc.resume_goto hr <;> cases hb
  | exec _ _ s' hex =>
    cases execInitialize_goto hex with
    -- The phase begins once the handle is found empty under the mutex.
    | recheckHandle hh => exact .inr ⟨rfl, rfl, hh⟩
    | _ =>
      first
      | exact .inl rfl
      | cases hb

/-- A transition goes past its store. -/
theorem InitializeTo.stored {x : StateTransition} (h : InitializeTo s p ok (some x) t s' tr' t') (hx : x.pc = .check) :
    t' = t ∧ unstored tr' = false := by
  cases h with
  | inTransition _ _ x' s' hst =>
    refine ⟨rfl, ?_⟩
    by_contra hne
    have hl := stepTransition_unstored hst (by simpa [unstored, or_iff_not_imp_left] using hne)
    rw [hx] at hl
    cases hl
  | transitionDone _ _ _ s' stored threw hst hr =>
    rw [stepTransition_unlock hst] at hx
    cases hx

theorem InitializeTo.after (h : InitializeTo s p ok tr t s' tr' t') (ha : t'.after (unstored tr') = true) :
    t.after (unstored tr) = true ∨
      ∃ g x, t = .setInitialized g ∧ tr = some x ∧ x.pc = .check := by
  cases h with
  | inTransition _ tr tr' s' hst =>
    cases t
    case setInitialized g =>
      -- The transition to `Initialized` is past its store, or stores now.
      by_cases hc : tr.pc = .check
      · exact .inr ⟨g, tr, rfl, rfl, hc⟩
      · left
        by_cases hl : tr.pc = .lock
        · simp only [stepTransition, hl] at hst
          split at hst <;> cases hst
          cases ha
        · simp [InitializePc.after, unstored, hc, hl]
    all_goals exact .inl ha
  | transitionStart => exact .inl (by cases t <;> exact ha)
  | transitionDone _ _ tr s' stored threw hst hr =>
    left
    have hpc := stepTransition_unlock hst
    cases InitializePc.resume_goto hr
    case setInitialized g _ => simp [InitializePc.after, unstored, hpc]
    all_goals cases ha
  | exec _ _ s' hex =>
    left
    cases execInitialize_goto hex <;>
      first
      | rfl
      | cases ha

theorem InitializeTo.opens (h : InitializeTo s p ok tr t s' tr' t') (ho : t'.opens = true) :
    t.opens = true ∨ ((∃ g, t = .readAfterInitialized g) ∧ s' = s ∧ s.threadState ≠ .terminating ∧
      s.threadState ≠ .terminated) := by
  cases h with
  | inTransition => exact .inl ho
  | transitionStart => exact .inl ho
  | transitionDone _ _ tr s' stored threw hst hr =>
    cases InitializePc.resume_goto hr
    case setRunning => exact .inl rfl
    all_goals cases ho
  | exec _ _ s' hex =>
    cases execInitialize_goto hex with
    -- The last read of the state before the gate opens.
    | readAfterInitialized g hs =>
      have hsame := (Prod.mk.inj (Option.some.inj hex)).1
      exact .inr ⟨⟨g, rfl⟩, hsame.symm, by rw [hs]; nofun, by rw [hs]; nofun⟩
    | readOther g hne hne' =>
      have hsame := (Prod.mk.inj (Option.some.inj hex)).1
      exact .inr ⟨⟨g, rfl⟩, hsame.symm, hne, hne'⟩
    | _ =>
      first
      | exact .inl rfl
      | cases ho

theorem execInitialize_gate {g : Gen} {next : Next InitializePc} (h : execInitialize s p t ok = some (s', next))
    (ht : t.stage = some (.live g)) (hn : next.stage InitializePc.stage = none) : t = .giveGate g := by
  cases t <;> cases ht <;> simp only [execInitialize] at h
  case giveGate => rfl
  case catchTerminate u =>
    simp only [Option.some.injEq, Prod.mk.injEq] at h
    obtain ⟨-, rfl⟩ := h
    cases hx : execTerminate s u <;> rw [hx] at hn <;> cases hn
  case readAfterInitialization | readAfterInitialized =>
    simp only [Option.some.injEq, Prod.mk.injEq] at h
    obtain ⟨-, rfl⟩ := h
    split at hn <;> cases hn
  all_goals first
    | (cases h; done)
    | (cases h; cases hn)
    | (cases h; split at hn <;> cases hn)

end ESPressio.Lifecycle
