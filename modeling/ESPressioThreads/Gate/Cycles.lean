import ESPressioThreads.Gate.Resources
import ESPressioThreads.Initialization.Retry
/-!
# Cycles

What the log of a run shows of each cycle. While `Initialize` has a worker in
hand its gate has not been given and nothing has returned since it was created,
so the `Give` of a worker's own cycle is the last thing of its initialization.
A signal in the gate is the one of the last worker that was created, and that
worker is the only one that can wait for it.
-/

namespace ESPressio.Gate

open Transition ESPressio.Thread ESPressio.Lifecycle
open ESPressio.Attempts (exec_initializePc next_resume finished_step)

variable {w w' : World} {s s' : Shared} {p : TaskId} {ok : Bool} {f : Frame} {f' : Option Frame} {g : Gen}
  {a : TaskId × Nat} {t t' : InitializePc} {log : List Event} {e : Event} {status : ThreadInitializationStatus}

/-! ## The events of a step -/

/-- The step that an event is of. -/
inductive Shows (s : Shared) (f : Frame) (f' : Option Frame) : Event → Prop
  | created (f₁ : Frame) : f.pc.initializePc = some .create → f' = some f₁ →
      f₁.pc.initializePc = some (.publish s.created) → Shows s f f' (.created s.created)
  | called (g : Gen) (t : InitializePc) : f.pc.initializePc = some t → initializing t = some g →
      Shows s f f' (.called g)
  | opened (g : Gen) (f₁ : Frame) : f.pc.initializePc = some (.giveGate g) → f' = some f₁ →
      f₁.pc.initializePc = some (.clearInProgress .success) → Shows s f f' (.opened g)
  | entered (g : Gen) : f.pc = .worker g .waitGate → Shows s f f' (.entered g)
  | onLoop (g : Gen) : f.pc = .worker g .loop → Shows s f f' (.onLoop g)
  | returned (status : ThreadInitializationStatus) : f.pc.initializePc = some (.finished status) →
      (∀ f₁, f' = some f₁ → f₁.pc.initializePc = none) → Shows s f f' (.returned status)

theorem callEvent_initializePc (htr : f.transition = none) (hf : f.pc.initializePc = some t) :
    callEvent s f ok = initializeEvent s ok t := by
  simp only [callEvent, htr]
  cases hpc : f.pc with
  | initializeThread pc => rw [hpc] at hf; cases hf; rfl
  | start pc =>
    rw [hpc] at hf
    cases pc with
    | initializeThread pc => cases hf; rfl
    | _ => cases hf
  | _ => rw [hpc] at hf; cases hf

theorem shows_of_initializePc (h : FrameStep s p f ok s' f') (hok : f.Ok a) (hf : f.pc.initializePc = some t)
    (he : initializeEvent s ok t = some e) : Shows s f f' e := by
  cases t <;> simp only [initializeEvent] at he
  case create =>
    obtain ⟨rfl, he⟩ := Option.ite_none_right_eq_some.1 he
    cases he
    obtain ⟨next, hex, hgoto, -⟩ := exec_initializePc h hok hf rfl nofun
    cases hex
    obtain ⟨f₁, hf₁, ht₁, -⟩ := hgoto _ rfl
    exact .created f₁ hf hf₁ ht₁
  case onInitialization g => cases he; exact .called g _ hf rfl
  case giveGate g =>
    obtain ⟨rfl, he⟩ := Option.ite_none_right_eq_some.1 he
    cases he
    obtain ⟨next, hex, hgoto, -⟩ := exec_initializePc h hok hf rfl nofun
    cases hex
    obtain ⟨f₁, hf₁, ht₁, -⟩ := hgoto _ rfl
    exact .opened g f₁ hf hf₁ ht₁
  case finished status => cases he; exact .returned status hf (finished_step h hok hf).2
  all_goals cases he

theorem shows (h : FrameStep s p f ok s' f') (hok : f.Ok a) (he : callEvent s f ok = some e) : Shows s f f' e := by
  cases htr : f.transition with
  | some tr =>
    simp only [callEvent, htr] at he
    split at he
    · obtain ⟨g, hg, rfl⟩ := Option.map_eq_some_iff.1 he
      obtain ⟨t, ht, hi⟩ := Option.bind_eq_some_iff.1 hg
      exact .called g t ht hi
    · cases he
  | none =>
    simp only [callEvent, htr] at he
    split at he
    · exact shows_of_initializePc h hok (by rw [‹f.pc = _›]; rfl) he
    · exact shows_of_initializePc h hok (by rw [‹f.pc = _›]; rfl) he
    · rename_i g t hpc
      cases t <;> simp only [workerEvent] at he
      case waitGate => cases he; exact .entered g hpc
      case loop =>
        obtain ⟨-, he⟩ := Option.ite_none_right_eq_some.1 he
        cases he
        exact .onLoop g hpc
      all_goals cases he
    · cases he

/-- A worker that leaves its gate shows. -/
theorem callEvent_waitGate (hok : f.Ok a) (hpc : f.pc = .worker g .waitGate) :
    callEvent s f ok = some (.entered g) := by
  have htr : f.transition = none := hok.no_transition (by rw [hpc]; rfl)
  simp only [callEvent, htr, hpc, workerEvent]

/-! ## A cycle step by step -/

/-- `Initialize` is going to return the status. -/
def reporting : InitializePc → Option ThreadInitializationStatus
  | .clearPending status | .clearInProgress status | .clearInitializing status | .onInitializationFailed status
  | .notifyInitializationFailed status | .finished status => some status
  | _ => none

/-- `Initialize` has the worker in hand, or is about to return. -/
def underway (t : InitializePc) : Bool := (initializing t).isSome || (reporting t).isSome

theorem resume_underway (stored threw : Bool) (ht : t.transition ≠ none) (hu : underway t = true) :
    ∃ t', t.resume s stored threw = .goto t' := by
  cases t <;> simp only [InitializePc.resume]
  case catchTerminate g u => cases u.resume s threw <;> exact ⟨_, rfl⟩
  case catchTerminated g => exact ⟨_, rfl⟩
  case setInitialized | setRunning | stopTerminated => split <;> exact ⟨_, rfl⟩
  case reset => cases hu
  all_goals exact absurd rfl ht

theorem execInitialize_underway {next : Next InitializePc} (ht : t.transition = none) (hu : underway t = true)
    (hn : ∀ status, t ≠ .finished status) (hex : execInitialize s p t ok = some (s', next)) :
    ∃ t', next = .goto t' := by
  cases t <;> simp only [execInitialize] at hex
  case catchTerminate g u => cases hex; cases execTerminate s u <;> exact ⟨_, rfl⟩
  case finished status => exact absurd rfl (hn status)
  all_goals first
    | (cases hu; done)
    | (cases hex; exact ⟨_, rfl⟩)
    | (split at hex <;> cases hex <;> exact ⟨_, rfl⟩)
    | cases hex

/-- `Initialize` goes on until it returns. -/
theorem initialize_underway (h : FrameStep s p f ok s' f') (hok : f.Ok a) (ht : f.pc.initializePc = some t)
    (hu : underway t = true) (hn : ∀ status, t ≠ .finished status) :
    ∃ f₁ t', f' = some f₁ ∧ f₁.pc.initializePc = some t' ∧ InitializeTo s p ok f.transition t s' f₁.transition t' := by
  obtain ⟨f₁, t', hf₁, ht'⟩ : ∃ f₁ t', f' = some f₁ ∧ f₁.pc.initializePc = some t' := by
    have htransition := Pc.transition_of_initializePc ht
    cases h with
    | inTransition tr tr' s' => exact ⟨_, t, rfl, ht⟩
    | transitionStart => exact ⟨_, t, rfl, ht⟩
    | transitionDone tr s' stored threw htr hst =>
      have hne : t.transition ≠ none := by
        rw [← htransition, hok.transition tr htr]
        exact Option.some_ne_none _
      obtain ⟨t', hr⟩ := resume_underway (s := s') stored threw hne hu
      obtain ⟨f₁, hf₁, ht', -⟩ := next_resume ht hr
      exact ⟨f₁, t', hf₁, ht'⟩
    | exec s' next htr hpc hex =>
      have hnone : t.transition = none := htransition ▸ hpc
      obtain ⟨next', hex', hgoto, -⟩ := exec_initializePc (.exec s' next htr hpc hex) hok ht hnone hn
      obtain ⟨t', rfl⟩ := execInitialize_underway hnone hu hn hex'
      obtain ⟨f₁, hf₁, ht', -⟩ := hgoto t' rfl
      exact ⟨f₁, t', hf₁, ht'⟩
  subst hf₁
  rcases h.initialize_cases ht' with ⟨-, hstart⟩ | ⟨t₀, ht₀, hto⟩
  · rw [hstart.pc] at ht
    cases ht
  · rw [ht] at ht₀
    cases ht₀
    exact ⟨f₁, t', rfl, ht', hto⟩

/-- A worker comes into hand by its creation. -/
theorem initializing_to {tr tr' : Option StateTransition} (h : InitializeTo s p ok tr t s' tr' t')
    (hi : initializing t' = some g) : initializing t = some g ∨ (t = .create ∧ ok = true ∧ g = s.created) := by
  cases h with
  | inTransition => exact .inl hi
  | transitionStart => exact .inl hi
  | transitionDone _ _ tr s' stored threw hst hr =>
    cases InitializePc.resume_goto hr <;> exact .inl hi
  | exec _ _ s' hex =>
    cases execInitialize_goto hex with
    | create hok =>
      cases hi
      exact .inr ⟨rfl, hok, rfl⟩
    | _ => first | exact .inl hi | cases hi

/-- What `Initialize` has in hand stays so until it is about to return. -/
theorem initializing_from {tr tr' : Option StateTransition} (h : InitializeTo s p ok tr t s' tr' t')
    (hi : initializing t = some g) : initializing t' = some g ∨ (reporting t').isSome = true := by
  cases h with
  | inTransition => exact .inl hi
  | transitionStart => exact .inl hi
  | transitionDone _ _ tr s' stored threw hst hr =>
    cases InitializePc.resume_goto hr <;> exact .inl hi
  | exec _ _ s' hex => cases execInitialize_goto hex <;> first | exact .inl hi | exact .inr rfl | cases hi

theorem reporting_from {tr tr' : Option StateTransition} (h : InitializeTo s p ok tr t s' tr' t')
    (hr : reporting t = some status) : reporting t' = some status := by
  cases h with
  | inTransition => exact hr
  | transitionStart => exact hr
  | transitionDone _ _ tr s' stored threw hst hres => cases InitializePc.resume_goto hres <;> cases hr
  | exec _ _ s' hex => cases execInitialize_goto hex <;> first | exact hr | cases hr

/-! ## What the log shows -/

/-- The worker was created, and no `Initialize` has returned since. -/
def InProgress (log : List Event) (g : Gen) : Prop :=
  ∃ l₀ l₁, log = l₀ ++ .created g :: l₁ ∧ .created g ∉ l₀ ∧ ∀ status, .returned status ∉ l₁

/-- `Initialize` has the worker in hand, or is about to return what became of it. -/
def Underway (log : List Event) (g : Gen) (t : InitializePc) : Prop :=
  initializing t = some g ∨ ∃ status, reporting t = some status ∧ (status ≠ .success → .opened g ∉ log)

/-- A worker in `_loop`. -/
def looping : WorkerPc → Bool
  | .loop | .onLoop => true
  | _ => false

structure CycleInv (w : World) (log : List Event) : Prop where
  fresh : ∀ g, w.shared.created ≤ g → .created g ∉ log ∧ .opened g ∉ log
  inHand : ∀ a f, w.call a = some f → ∀ t, f.pc.initializePc = some t → ∀ g, initializing t = some g →
    .opened g ∉ log ∧ InProgress log g
  entered : ∀ g, .entered g ∈ log → .opened g ∈ log
  looping : ∀ a f, w.call a = some f → ∀ g t, f.pc = .worker g t → looping t = true → .entered g ∈ log
  signal : w.shared.taskStartGate = true → ∃ g, w.shared.created = g + 1 ∧ .opened g ∈ log
  underway : ∀ g l₀ l₁, log = l₀ ++ .created g :: l₁ → (∀ status, .returned status ∉ l₁) →
    ∃ a f t, w.call a = some f ∧ f.pc.initializePc = some t ∧ Underway log g t

theorem mem_append_toList {e : Option Event} {x : Event} (h : x ∈ log ++ e.toList) : x ∈ log ∨ e = some x := by
  simpa using h

theorem InProgress.append {e : Option Event} (h : InProgress log g) (he : ∀ status, e ≠ some (.returned status)) :
    InProgress (log ++ e.toList) g := by
  obtain ⟨l₀, l₁, rfl, hn, hret⟩ := h
  refine ⟨l₀, l₁ ++ e.toList, by simp, hn, fun status hm => ?_⟩
  exact (mem_append_toList hm).elim (hret status) (he status)

/-- Nothing has returned since the worker in hand was created. -/
theorem InProgress.not_returned {l₀ l₁ l₂ : List Event} (h : InProgress log g)
    (hl : log = l₀ ++ .created g :: (l₁ ++ .returned status :: l₂)) : False := by
  obtain ⟨k₀, k₁, hk, hn, hret⟩ := h
  rw [hk] at hl
  rcases List.append_eq_append_iff.1 hl with ⟨m, hm, hrest⟩ | ⟨m, hm, hrest⟩
  · cases m with
    | nil =>
      obtain rfl := (List.cons.inj hrest).2
      exact hret status (by simp)
    | cons x m =>
      obtain ⟨-, rfl⟩ := List.cons.inj hrest
      exact hret status (by simp)
  · cases m with
    | nil =>
      obtain rfl := (List.cons.inj hrest).2
      exact hret status (by simp)
    | cons x m =>
      obtain ⟨rfl, -⟩ := List.cons.inj hrest
      exact hn (by simp [hm])

/-! ## Steps -/

/-- What an event of a cycle says of the calls that did not step. -/
theorem Moved.no_event (hm : Moved w p ok w' a f f') (hok : f.Ok a) (hone : AloneInInitialize w) {b : TaskId × Nat}
    {f₁ : Frame} (hne : b ≠ a) (hb : w.call b = some f₁) (hi : f₁.pc.initializePc ≠ none) :
    (∀ g, callEvent w.shared f ok ≠ some (.opened g)) ∧
      ∀ status, callEvent w.shared f ok ≠ some (.returned status) := by
  have hn := hm.not_initializing hone hne hb hi
  refine ⟨fun g he => ?_, fun status he => ?_⟩
  · cases shows hm.frame hok he with
    | opened _ f₁ ht => exact absurd (hn.symm.trans ht) nofun
  · cases shows hm.frame hok he with
    | returned _ ht => exact absurd (hn.symm.trans ht) nofun

/-- The gate of a worker that stays in hand is not given, and nothing returns. -/
theorem Moved.keeps_hand (hm : Moved w p ok w' a f f') (hok : f.Ok a) {f₁ : Frame} (hf' : f' = some f₁)
    (ht : f.pc.initializePc = some t) (hi : initializing t = some g) (ht' : f₁.pc.initializePc = some t')
    (hi' : initializing t' = some g) : (∀ x, callEvent w.shared f ok ≠ some (.opened x)) ∧
      ∀ status, callEvent w.shared f ok ≠ some (.returned status) := by
  refine ⟨fun x he => ?_, fun status he => ?_⟩
  · cases shows hm.frame hok he with
    | opened _ f₂ _ hf₂ ht₂ =>
      rw [hf'] at hf₂
      cases hf₂
      rw [ht'] at ht₂
      cases ht₂
      cases hi'
  · cases shows hm.frame hok he with
    | returned _ ht₂ =>
      rw [ht] at ht₂
      cases ht₂
      cases hi

theorem CycleInv.inHand_moved (h : CycleInv w log) (hm : Moved w p ok w' a f f') (hok : f.Ok a)
    (hone : AloneInInitialize w) : ∀ b f₁, w'.call b = some f₁ → ∀ t, f₁.pc.initializePc = some t →
      ∀ g, initializing t = some g → .opened g ∉ log ++ (callEvent w.shared f ok).toList ∧
        InProgress (log ++ (callEvent w.shared f ok).toList) g := by
  have hkeep : ∀ g, .opened g ∉ log ∧ InProgress log g → (∀ x, callEvent w.shared f ok ≠ some (.opened x)) ∧
      (∀ status, callEvent w.shared f ok ≠ some (.returned status)) →
      .opened g ∉ log ++ (callEvent w.shared f ok).toList ∧
        InProgress (log ++ (callEvent w.shared f ok).toList) g := by
    rintro g ⟨ho, hp⟩ ⟨hno, hnr⟩
    exact ⟨fun hmem => (mem_append_toList hmem).elim ho (hno g), hp.append hnr⟩
  rw [hm.calls]
  refine forall_call_update (fun f₁ hf₁ t' ht' g hi' => ?_) fun b f₁ hne hb t ht g hi => ?_
  · have hstep := hm.frame
    rw [hf₁] at hstep
    rcases hstep.initializePc ht' with rfl | ⟨t, ht, hto⟩
    · cases hi'
    · rcases initializing_to hto hi' with hi | ⟨rfl, hcreated, rfl⟩
      · exact hkeep g (h.inHand a f hm.call t ht g hi) (hm.keeps_hand hok hf₁ ht hi ht' hi')
      · have htr := hok.no_transition (Pc.transition_of_initializePc ht)
        have he : callEvent w.shared f ok = some (.created w.shared.created) := by
          rw [callEvent_initializePc htr ht, hcreated]
          rfl
        obtain ⟨hc, ho⟩ := h.fresh _ (Nat.le_refl _)
        rw [he]
        refine ⟨fun hmem => (mem_append_toList hmem).elim ho nofun, log, [], rfl, hc, nofun⟩
  · exact hkeep g (h.inHand b f₁ hb t ht g hi) (hm.no_event hok hone hne hb (by simp [ht]))

theorem CycleInv.underway_moved (h : CycleInv w log) (hm : Moved w p ok w' a f f') (hok : f.Ok a)
    (hone : AloneInInitialize w) {l₀ l₁ : List Event}
    (hl : log ++ (callEvent w.shared f ok).toList = l₀ ++ .created g :: l₁) (hret : ∀ status, .returned status ∉ l₁) :
    ∃ b f₁ t, w'.call b = some f₁ ∧ f₁.pc.initializePc = some t ∧
      Underway (log ++ (callEvent w.shared f ok).toList) g t := by
  rcases System.split_append hl with ⟨l₃, hlog, rfl⟩ | ⟨he, -, -⟩
  · have hnr : ∀ status, callEvent w.shared f ok ≠ some (.returned status) := by
      intro status he
      exact hret status (by simp [he])
    obtain ⟨b, f₁, t, hb, ht, hu⟩ := h.underway g l₀ l₃ hlog fun status hmem =>
      hret status (List.mem_append_left _ hmem)
    by_cases hba : b = a
    · subst hba
      rw [hm.call] at hb
      cases hb
      have hunder : Gate.underway t = true := by
        rcases hu with hi | ⟨status, hr, -⟩ <;> simp [Gate.underway, *]
      have hn : ∀ status, t ≠ .finished status := by
        rintro status rfl
        refine hnr status ?_
        rw [callEvent_initializePc (hok.no_transition (Pc.transition_of_initializePc ht)) ht]
        rfl
      obtain ⟨f₁, t', hf₁, ht', hto⟩ := initialize_underway hm.frame hok ht hunder hn
      refine ⟨b, f₁, t', by rw [hm.calls, Function.update_self, hf₁], ht', ?_⟩
      -- The gate is given by the step after which `Initialize` returns `Success`.
      have hgiven : ∀ status, reporting t' = some status → status ≠ .success →
          callEvent w.shared f ok ≠ some (.opened g) := by
        intro status hr hne he
        cases shows hm.frame hok he with
        | opened _ f₂ _ hf₂ ht₂ =>
          rw [hf₁] at hf₂
          cases hf₂
          rw [ht'] at ht₂
          cases ht₂
          cases hr
          exact hne rfl
      rcases hu with hi | ⟨status, hr, hno⟩
      · rcases initializing_from hto hi with hi' | hr'
        · exact .inl hi'
        · obtain ⟨status, hr'⟩ := Option.isSome_iff_exists.1 hr'
          refine .inr ⟨status, hr', fun hne hmem => ?_⟩
          exact (mem_append_toList hmem).elim (h.inHand b f hm.call t ht g hi).1 (hgiven status hr' hne)
      · have hr' := reporting_from hto hr
        refine .inr ⟨status, hr', fun hne hmem => ?_⟩
        exact (mem_append_toList hmem).elim (hno hne) (hgiven status hr' hne)
    · refine ⟨b, f₁, t, by rw [hm.calls, Function.update_of_ne hba, hb], ht, hu.imp_right ?_⟩
      rintro ⟨status, hr, hno⟩
      refine ⟨status, hr, fun hne hmem => (mem_append_toList hmem).elim (hno hne) ?_⟩
      exact (hm.no_event hok hone hba hb (by simp [ht])).1 g
  · cases shows hm.frame hok he with
    | created f₁ _ hf₁ ht₁ => exact ⟨a, f₁, _, by rw [hm.calls, Function.update_self, hf₁], ht₁, .inl rfl⟩

/-- The signal is given to the worker in hand, and shows. -/
theorem Moved.gives (hm : Moved w p ok w' a f f') (hok : f.Ok a) (hl : f.pc.stage = some (.live g))
    (hl' : stageAfter f' = none) : callEvent w.shared f ok = some (.opened g) := by
  obtain ⟨t, ht⟩ := Option.ne_none_iff_exists'.1 (initializePc_of_stage hl rfl)
  have hstage : t.stage = some (.live g) := (Pc.stage_of_initializePc ht).symm.trans hl
  have hunder : Gate.underway t = true := by
    cases t <;> first | rfl | cases hstage
  obtain ⟨f₁, t', rfl, ht', hto⟩ := initialize_underway hm.frame hok ht hunder (by rintro status rfl; cases hstage)
  have hstage' : t'.stage = none := (Pc.stage_of_initializePc ht').symm.trans hl'
  generalize f.transition = x at hto
  generalize f₁.transition = x' at hto
  generalize w'.shared = s' at hto
  cases hto with
  | inTransition => exact absurd (hstage.symm.trans hstage') nofun
  | transitionStart => exact absurd (hstage.symm.trans hstage') nofun
  | transitionDone _ _ tr s' stored threw hst hr =>
    cases InitializePc.resume_goto hr <;> cases hstage <;> cases hstage'
  | exec _ _ s' hex =>
    cases execInitialize_goto hex with
    | giveGate x hgiven =>
      cases hstage
      rw [callEvent_initializePc (hok.no_transition (Pc.transition_of_initializePc ht)) ht, hgiven]
      rfl
    | _ => cases hstage <;> cases hstage'

theorem CycleInv.signal_moved (h : CycleInv w log) (hr : ResourceInv w) (hm : Moved w p ok w' a f f')
    (hok : f.Ok a) (hg : w'.shared.taskStartGate = true) :
    ∃ g, w'.shared.created = g + 1 ∧ .opened g ∈ log ++ (callEvent w.shared f ok).toList := by
  rcases Move.gate_cases hm.move hg with hold | ⟨g, hl, hl'⟩
  · obtain ⟨g, hc, ho⟩ := h.signal hold
    refine ⟨g, ?_, List.mem_append_left _ ho⟩
    rcases Move.created_cases hm.move with he | ⟨hl, -⟩
    · exact Eq.trans he hc
    · exact absurd (Eq.trans hold.symm (hr.holds a f hm.call _ hl).2.2) nofun
  · refine ⟨g, ?_, by rw [hm.gives hok hl hl']; simp⟩
    rcases Move.created_cases hm.move with he | ⟨hl₂, -⟩
    · exact Eq.trans he (hr.holds a f hm.call _ hl).symm
    · exact absurd (hl.symm.trans hl₂) nofun

/-- A worker leaves its gate with the signal of its own cycle. -/
theorem CycleInv.entered_moved (h : CycleInv w log) (hr : ResourceInv w) (hm : Moved w p ok w' a f f')
    (hok : f.Ok a) (he : callEvent w.shared f ok = some (.entered g)) : .opened g ∈ log := by
  cases shows hm.frame hok he with
  | entered _ hpc =>
    have hgate : w.shared.taskStartGate = true := by
      have hmove := hm.move
      rw [hm.frame.waitGate hok hpc, hpc] at hmove
      generalize hs : w.shared.registers = r at hmove
      generalize w'.shared.registers = r' at hmove
      cases hmove with
      | enter _ _ hg =>
        rw [← hs] at hg
        exact hg
    obtain ⟨x, hc, ho⟩ := h.signal hgate
    obtain rfl : x = g := Nat.succ.inj (hc.symm.trans (hr.last g (hm.live_worker hok hpc).2).symm)
    exact ho

/-- A worker comes to its loop through its gate. -/
theorem looping_step {u' : WorkerPc} {f₁ : Frame} (h : FrameStep s p f ok s' (some f₁))
    (hpc : f₁.pc = .worker g u') (hu : looping u' = true) :
    ∃ u, f.pc = .worker g u ∧ (u = .waitGate ∨ looping u = true) := by
  obtain ⟨u, hf⟩ := h.method.1 g u' hpc
  refine ⟨u, hf, ?_⟩
  cases h.goto with
  | inTransition tr tr' s' htr =>
    obtain rfl : u = u' := (Pc.worker.inj (hf.symm.trans hpc)).2
    exact .inr hu
  | transitionStart =>
    obtain rfl : u = u' := (Pc.worker.inj (hf.symm.trans hpc)).2
    exact .inr hu
  | transitionDone tr s' stored threw pc htr hst hn =>
    rw [hf] at hn
    cases resume_goto hn with
    | worker _ _ t' ht =>
      cases hpc
      cases u with
      | terminate v =>
        obtain ⟨y, -, rfl⟩ | ⟨_, -, he⟩ := Next.inside_goto ht
        · cases hu
        · cases he
          cases hu
      | _ => cases ht; cases hu
  | exec s' pc htr hne hex =>
    rw [hf] at hex
    cases exec_goto hex with
    | worker _ _ t' hworker =>
      cases hpc
      cases u with
      | waitGate => exact .inl rfl
      | loop | onLoop => exact .inr rfl
      | terminate v =>
        obtain ⟨-, hn⟩ := Prod.mk.inj (Option.some.inj hworker)
        obtain ⟨y, -, rfl⟩ | ⟨_, -, he⟩ := Next.inside_goto hn
        · cases hu
        · cases he
          cases hu
      | beginFinalization | send =>
        simp only [execWorker] at hworker
        split at hworker <;> cases hworker <;> cases hu
      | onExecutionFailed | notifyExecutionFailed | storePending | clearPending => cases hworker; cases hu
      | setTerminated | suspended => cases hworker

theorem CycleInv.looping_moved (h : CycleInv w log) (hm : Moved w p ok w' a f f') (hok : f.Ok a) :
    ∀ b f₁, w'.call b = some f₁ → ∀ g u, f₁.pc = .worker g u → Gate.looping u = true →
      .entered g ∈ log ++ (callEvent w.shared f ok).toList := by
  rw [hm.calls]
  refine forall_call_update (fun f₁ hf₁ g u' hpc hu => ?_) fun b f₁ _ hb g u hpc hu =>
    List.mem_append_left _ (h.looping b f₁ hb g u hpc hu)
  have hstep := hm.frame
  rw [hf₁] at hstep
  obtain ⟨u, hf, rfl | hlooping⟩ := looping_step hstep hpc hu
  · rw [callEvent_waitGate hok hf]
    simp
  · exact List.mem_append_left _ (h.looping a f hm.call g u hf hlooping)

theorem CycleInv.fresh_moved (h : CycleInv w log) (hr : ResourceInv w) (hm : Moved w p ok w' a f f') (hok : f.Ok a)
    (hg : w'.shared.created ≤ g) : .created g ∉ log ++ (callEvent w.shared f ok).toList ∧
      .opened g ∉ log ++ (callEvent w.shared f ok).toList := by
  have hcreated : w.shared.created ≤ w'.shared.created := hm.move.created_le
  obtain ⟨hc, ho⟩ := h.fresh g (Nat.le_trans hcreated hg)
  refine ⟨fun hmem => ?_, fun hmem => ?_⟩
  · rcases mem_append_toList hmem with hmem | he
    · exact hc hmem
    · generalize hs : w.shared = s at he
      cases shows (hs ▸ hm.frame) hok he with
      | created f₁ ht hf₁ ht₁ =>
        have hl' : stageAfter f' = some (.made s.created) := by rw [hf₁]; exact Pc.stage_of_initializePc ht₁
        have hmove := hm.move
        rw [hl', Pc.stage_of_initializePc ht] at hmove
        have hlt : s.created < w'.shared.created := by
          have hnew : w'.shared.created = w'.shared.registers.created := rfl
          generalize w'.shared.registers = r' at hmove hnew
          rw [hs] at hmove
          cases hmove with
          | create => exact Nat.lt_of_lt_of_eq (Nat.lt_succ_self _) hnew.symm
        exact absurd hg (Nat.not_le.2 hlt)
  · rcases mem_append_toList hmem with hmem | he
    · exact ho hmem
    · cases shows hm.frame hok he with
      | opened _ f₁ ht =>
        have hholds : g + 1 = w.shared.created := hr.holds a f hm.call _ (Pc.stage_of_initializePc ht)
        exact absurd (Nat.le_trans (Nat.le_of_eq hholds) (Nat.le_trans hcreated hg)) (Nat.not_succ_le_self g)

theorem CycleInv.moved (h : CycleInv w log) (hr : ResourceInv w) (hm : Moved w p ok w' a f f') (hok : f.Ok a)
    (hone : AloneInInitialize w) : CycleInv w' (log ++ (callEvent w.shared f ok).toList) := by
  refine ⟨fun g hg => h.fresh_moved hr hm hok hg, h.inHand_moved hm hok hone, fun g hmem => ?_,
    h.looping_moved hm hok, fun hg => h.signal_moved hr hm hok hg,
    fun g l₀ l₁ hl hret => h.underway_moved hm hok hone hl hret⟩
  rcases mem_append_toList hmem with hmem | he
  · exact List.mem_append_left _ (h.entered g hmem)
  · exact List.mem_append_left _ (h.entered_moved hr hm hok he)

/-- A step that moves one call, and neither enters nor leaves `Initialize` or `_loop`. -/
theorem CycleInv.aside (h : CycleInv w log) {f₁ : Frame} (hshared : w'.shared = w.shared)
    (hcall : w'.call = Function.update w.call a (some f₁))
    (hout : ∀ f, w.call a = some f → f.pc.initializePc = none)
    (hin : ∀ t, f₁.pc.initializePc = some t → initializing t = none)
    (hloop : ∀ g u, f₁.pc = .worker g u → Gate.looping u = false) : CycleInv w' log := by
  refine ⟨by rw [hshared]; exact h.fresh, ?_, h.entered, ?_, by rw [hshared]; exact h.signal, ?_⟩
  · rw [hcall]
    refine forall_call_update (fun f hf t ht g hi => ?_) fun b f _ hb => h.inHand b f hb
    cases hf
    exact absurd ((hin t ht).symm.trans hi) nofun
  · rw [hcall]
    refine forall_call_update (fun f hf g u hpc hu => ?_) fun b f _ hb => h.looping b f hb
    cases hf
    exact absurd ((hloop g u hpc).symm.trans hu) nofun
  · intro g l₀ l₁ hl hret
    obtain ⟨b, f, t, hb, ht, hu⟩ := h.underway g l₀ l₁ hl hret
    refine ⟨b, f, t, ?_, ht, hu⟩
    rw [hcall, Function.update_of_ne, hb]
    rintro rfl
    exact absurd ((hout f hb).symm.trans ht) nofun

theorem CycleInv.pushed {request : Request} (h : CycleInv w log)
    (hs : Lifecycle.step w (.call p request) = some w') : CycleInv w' log := by
  obtain ⟨hshared, -, a, -, hnone, hcall⟩ := call_update hs
  refine h.aside hshared hcall (fun f hf => absurd (hnone.symm.trans hf) nofun) (fun t ht => ?_) fun g u hu => ?_
  · cases request <;> cases ht
    rfl
  · cases request <;> cases hu

theorem CycleInv.waitFails (h : CycleInv w log) (hs : step w (.waitFails p) = some w') : CycleInv w' log := by
  obtain ⟨-, hshared, n, f, pc, hf, hpc, hcall⟩ := waitFails_update hs
  refine h.aside hshared hcall (fun f₁ hf₁ => ?_) (fun t ht => ?_) fun g u hu => ?_
  · rw [hf] at hf₁
    cases hf₁
    rcases waitFailed_cases hpc with ⟨g, ht, -⟩ | ⟨ht, -⟩ <;> rw [ht] <;> rfl
  · rcases waitFailed_cases hpc with ⟨g, -, rfl⟩ | ⟨-, rfl⟩ <;> cases ht
  · rcases waitFailed_cases hpc with ⟨g, -, rfl⟩ | ⟨-, rfl⟩ <;> cases hu
    rfl

theorem cycleInv_start (s : Shared) (hs : s.taskStartGate = false) : CycleInv (.start s) [] := by
  refine ⟨fun _ _ => ⟨nofun, nofun⟩, fun a f hf t ht => ?_, nofun, fun a f hf g u hpc hu => ?_, fun hg => ?_, ?_⟩
  · rcases start_call hf with ⟨g, -, rfl⟩ | ⟨-, rfl⟩ <;> cases ht
  · rcases start_call hf with ⟨g, -, rfl⟩ | ⟨-, rfl⟩ <;> cases hpc
    cases hu
  · exact absurd (hs.symm.trans hg) nofun
  · intro g l₀ l₁ hl
    cases l₀ <;> cases hl

/-! ## The order of a cycle -/

/-- What a log shows of the gates, in the order of its events. -/
structure Ordered (log : List Event) : Prop where
  entered : ∀ g l₁ l₂, log = l₁ ++ .entered g :: l₂ → .opened g ∈ l₁ ∧ .called g ∉ l₂
  opened : ∀ g l₁ l₂, log = l₁ ++ .opened g :: l₂ → .created g ∈ l₁ ∧ .called g ∉ l₂
  onLoop : ∀ g l₁ l₂, log = l₁ ++ .onLoop g :: l₂ → .entered g ∈ l₁
  failed : ∀ g l₀ l₁ status l₂, log = l₀ ++ .created g :: (l₁ ++ .returned status :: l₂) →
    (∀ status, .returned status ∉ l₁) → status ≠ .success → .opened g ∉ log

/-- The user code of an initialization comes before the `Give`. -/
theorem CycleInv.not_called (h : CycleInv w log) (hm : Moved w p ok w' a f f') (hok : f.Ok a)
    (ho : .opened g ∈ log) : callEvent w.shared f ok ≠ some (.called g) := by
  intro he
  cases shows hm.frame hok he with
  | called _ t ht hi => exact (h.inHand a f hm.call t ht g hi).1 ho

theorem Ordered.failed_moved (h : Ordered log) (hc : CycleInv w log) (hm : Moved w p ok w' a f f') (hok : f.Ok a)
    (hone : AloneInInitialize w) {l₀ l₁ l₂ : List Event}
    (hl : log ++ (callEvent w.shared f ok).toList = l₀ ++ .created g :: (l₁ ++ .returned status :: l₂))
    (hret : ∀ status, .returned status ∉ l₁) (hne : status ≠ .success) :
    .opened g ∉ log ++ (callEvent w.shared f ok).toList := by
  intro hmem
  rw [← List.cons_append, ← List.append_assoc] at hl
  rcases System.split_append hl with ⟨l₃, hlog, -⟩ | ⟨he, hlog, -⟩
  · have hlog : log = l₀ ++ .created g :: (l₁ ++ .returned status :: l₃) := by rw [hlog]; simp
    rcases mem_append_toList hmem with hmem | he
    · exact h.failed g l₀ l₁ status l₃ hlog hret hne hmem
    · cases shows hm.frame hok he with
      | opened _ f₁ ht => exact (hc.inHand a f hm.call _ ht g rfl).2.not_returned hlog
  · -- The call that returns is the one that created the worker.
    obtain ⟨b, f₁, t, hb, ht, hu⟩ := hc.underway g l₀ l₁ hlog.symm hret
    rcases mem_append_toList hmem with hmem | he'
    · cases shows hm.frame hok he with
      | returned _ htf =>
        obtain rfl := hone.eq hb hm.call ht htf
        rw [hm.call] at hb
        cases hb
        rw [htf] at ht
        cases ht
        rcases hu with hi | ⟨status', hr, hno⟩
        · cases hi
        · cases hr
          exact hno hne hmem
    · rw [he] at he'
      cases he'

theorem Ordered.moved (h : Ordered log) (hc : CycleInv w log) (hr : ResourceInv w) (hm : Moved w p ok w' a f f')
    (hok : f.Ok a) (hone : AloneInInitialize w) : Ordered (log ++ (callEvent w.shared f ok).toList) := by
  refine ⟨fun g l₁ l₂ hl => ?_, fun g l₁ l₂ hl => ?_, fun g l₁ l₂ hl => ?_,
    fun g l₀ l₁ status l₂ hl hret hne => h.failed_moved hc hm hok hone hl hret hne⟩
  · rcases System.split_append hl with ⟨l₃, rfl, rfl⟩ | ⟨he, rfl, rfl⟩
    · obtain ⟨ho, hno⟩ := h.entered g l₁ l₃ rfl
      refine ⟨ho, fun hmem => (mem_append_toList hmem).elim hno ?_⟩
      exact hc.not_called hm hok (List.mem_append_left _ ho)
    · exact ⟨hc.entered_moved hr hm hok he, nofun⟩
  · rcases System.split_append hl with ⟨l₃, rfl, rfl⟩ | ⟨he, rfl, rfl⟩
    · obtain ⟨hcreated, hno⟩ := h.opened g l₁ l₃ rfl
      exact ⟨hcreated, fun hmem => (mem_append_toList hmem).elim hno (hc.not_called hm hok (by simp))⟩
    · cases shows hm.frame hok he with
      | opened _ f₁ ht =>
        obtain ⟨l₀, l₁, rfl, -⟩ := (hc.inHand a f hm.call _ ht g rfl).2
        exact ⟨by simp, nofun⟩
  · rcases System.split_append hl with ⟨l₃, rfl, rfl⟩ | ⟨he, rfl, rfl⟩
    · exact h.onLoop g l₁ l₃ rfl
    · cases shows hm.frame hok he with
      | onLoop _ hpc => exact hc.looping a f hm.call g _ hpc rfl

theorem ordered_nil : Ordered [] := by
  refine ⟨fun g l₁ l₂ hl => ?_, fun g l₁ l₂ hl => ?_, fun g l₁ l₂ hl => ?_, fun g l₁ l₂ status l₃ hl => ?_⟩ <;>
    cases l₁ <;> cases hl

/-! ## Runs -/

theorem cycles_reachable {x : World × List Event} (h : cycles.ReachableWhen Apart x) :
    CycleInv x.1 x.2 ∧ Ordered x.2 := by
  refine h.invariant_with (I := fun x => CycleInv x.1 x.2 ∧ Ordered x.2)
    (J := fun x => CallsOk x.1 ∧ Unmanaged x.1 ∧ AloneInInitialize x.1 ∧ ResourceInv x.1)
    (fun _ hr => ⟨callsOk_reachable hr, unmanaged_reachable hr, alone_reachable hr, resourceInv_reachable hr⟩)
    (fun x hx => ?_) fun x b y ⟨hcalls, hu, hone, hr⟩ _ ⟨hc, ho⟩ _ hst => ?_
  · obtain ⟨⟨free, start, precision, hw⟩, hlog⟩ := hx
    rw [hw, hlog]
    exact ⟨cycleInv_start _ rfl, ordered_nil⟩
  · obtain ⟨hst, hlog⟩ := System.logged_step.1 hst
    rw [hlog]
    cases b with
    | lifecycle b =>
      cases b with
      | call p request =>
        rw [show event x.1 (.lifecycle (.call p request)) = none from rfl, Option.toList_none, List.append_nil]
        exact ⟨hc.pushed hst, ho⟩
      | step p ok =>
        obtain ⟨a, f, f', htop, hm⟩ := Gate.moved hcalls hu hst
        have hok := hcalls a f hm.call
        have he : event x.1 (.lifecycle (.step p ok)) = callEvent x.1.shared f ok := by
          simp only [event, htop, Option.bind_some]
        rw [he]
        exact ⟨hc.moved hr hm hok hone, ho.moved hc hr hm hok hone⟩
    | waitFails p =>
      rw [show event x.1 (.waitFails p) = none from rfl, Option.toList_none, List.append_nil]
      exact ⟨hc.waitFails hst, ho⟩

/-- The start gate holds in every run whose calls of `Initialize` do not overlap. -/
theorem start_gate_holds (x : World × List Event) (h : cycles.ReachableWhen Apart x) : GateHolds x.1 x.2 := by
  obtain ⟨hc, ho⟩ := cycles_reachable h
  refine ⟨ho.entered, ho.opened, fun g hmem a f t hf ht hi => ?_, ho.onLoop, ?_, hc.signal⟩
  · exact (hc.inHand a f hf t ht g hi).1 (hc.entered g hmem)
  · exact fun g l₀ l₁ status l₂ hl hret hne hmem => ho.failed g l₀ l₁ status l₂ hl hret hne (hc.entered g hmem)

/-! ## A signal that is left over -/

def Action.task : Action → TaskId
  | .lifecycle a => a.task
  | .waitFails p => p

/-- The tasks that run. -/
def running : List TaskId := [.app 0, .worker 1, .worker 2, .dispatcher]

/-- `Apart` of these tasks, without `Start`. -/
def ApartOn (x : World × List Event) (b : Action) : Prop :=
  b.task ∈ running ∧
    match b with
    | .lifecycle (.call _ _) => x.1.callsOn running (fun f => f.pc.initializePc.isNone) = true
    | .lifecycle (.step p _) => ∀ f ∈ x.1.top p, f.pc ≠ .start .readState
    | .waitFails _ => True

instance (x : World × List Event) (b : Action) : Decidable (ApartOn x b) := by
  unfold ApartOn
  rcases b with (_ | _) | _ <;> exact inferInstance

theorem apart_of_on {x : World × List Event} {b : Action} (hi : x.1.IdleBut running) (h : ApartOn x b) :
    Apart x b := by
  rcases b with (⟨p, request⟩ | ⟨p, ok⟩) | p
  · intro _ a f hf
    have := hi.forall_call (by rintro f (⟨g, rfl⟩ | rfl) <;> rfl) h.2 a f hf
    simpa using this
  · intro f hf hstart
    exact absurd hstart.pc (h.2 f hf)
  · trivial

theorem idleBut_step {x y : World × List Event} {b : Action} (hi : x.1.IdleBut running) (h : ApartOn x b)
    (hs : cycles.step x b = some y) : y.1.IdleBut running := by
  obtain ⟨hst, -⟩ := System.logged_step.1 hs
  cases b with
  | lifecycle b => exact hi.step h.1 hst
  | waitFails p =>
    obtain ⟨-, -, n, f, pc, -, -, hcall⟩ := waitFails_update hst
    rw [World.IdleBut, hcall]
    exact forall_call_update (fun f _ => .inl h.1) fun b f _ hb => hi b f hb

/-- The first initialization fails. The worker of the second one exits without
its signal, which is still there when the thread is initialized again. -/
def threeCycles : List Action :=
  (initializationThrows ++ steps (.app 0) 30 ++ steps .dispatcher 8 ++ .call (.app 0) .initializeThread ::
    steps (.app 0) 46 ++ terminating).map .lifecycle ++
  .waitFails (.worker 1) :: (steps (.worker 1) 11 ++ steps .dispatcher 9 ++ .call (.app 0) .initializeThread ::
    steps (.app 0) 46 ++ steps (.worker 2) 2).map .lifecycle

/-- The log without the user code. -/
def milestones (log : List Event) : List Event :=
  log.filter fun
    | .called _ => false
    | _ => true

theorem left_over_signal : ∃ x, cycles.ReachableWhen Apart x ∧ milestones x.2 =
    [.created 0, .returned .initializationException, .created 1, .opened 1, .returned .success,
      .created 2, .opened 2, .returned .success, .entered 2, .onLoop 2] ∧ GateHolds x.1 x.2 := by
  have hrun : (cycles.replayWhen ApartOn (newThread false false, []) threeCycles).map (fun x => milestones x.2) =
      some [.created 0, .returned .initializationException, .created 1, .opened 1, .returned .success,
        .created 2, .opened 2, .returned .success, .entered 2, .onLoop 2] := by
    decide +kernel
  obtain ⟨x, hs, hx⟩ := Option.map_eq_some_iff.1 hrun
  have hl := (System.leads_of_replayWhen hs).mono_with (I := fun x => x.1.IdleBut running) (idleBut_start _ _)
    (fun _ _ _ hi hd hst => idleBut_step hi hd hst) fun _ _ hi hd => apart_of_on hi hd
  have hinit : cycles.init (newThread false false, []) := ⟨newThread_init false false, rfl⟩
  have hr := System.ReachableWhen.leads (.init hinit) hl
  exact ⟨x, hr, hx, start_gate_holds x hr⟩

end ESPressio.Gate
