import ESPressioThreads.Initialization.Failures
/-!
# Retries

From the return of a failed attempt to the next one, the thread stays as the
attempt has left it until an `Initialize` resets it, and that `Initialize` comes
to the attempt. So none is rejected for the state of the thread.
-/

namespace ESPressio.Attempts

open Transition ESPressio.Thread ESPressio.Lifecycle

variable {w w' : World} {s s' : Shared} {p : TaskId} {ok : Bool} {f : Frame} {f' : Option Frame} {g : Gen}
  {st st' : Stage} {a : TaskId × Nat} {t t' : InitializePc} {log : List Event} {e : Option Event}
  {tr tr' : Option StateTransition} {status : ThreadInitializationStatus} {σ : ThreadState}

/-! ## The reset throws no exception -/

theorem resume_initializing {stored threw : Bool} {next : Next InitializePc} (ht : t.transition ≠ none)
    (hi : t.initializing = true) (hr : t.resume s stored threw = next) :
    ∃ t', next = .goto t' ∧ t'.initializing = true := by
  subst hr
  cases t <;> simp only [InitializePc.resume]
  case catchTerminate g u => cases u.resume s threw <;> exact ⟨_, rfl, rfl⟩
  case catchTerminated g => exact ⟨_, rfl, rfl⟩
  case setInitialized | setRunning | stopTerminated => split <;> exact ⟨_, rfl, rfl⟩
  case reset => cases hi
  all_goals exact absurd rfl ht

theorem execInitialize_initializing {next : Next InitializePc} (ht : t.transition = none)
    (hi : t.initializing = true) (hex : execInitialize s p t ok = some (s', next)) :
    (∃ t', next = .goto t' ∧ t'.initializing = true) ∨ s'.initializingTask = none := by
  cases t <;> simp only [execInitialize] at hex
  case clearInitializing => cases hex; exact .inr rfl
  case catchTerminate g u =>
    cases hex
    left
    cases execTerminate s u <;> exact ⟨_, rfl, rfl⟩
  case readAfterInitialization | readAfterInitialized | loadStartOnInitialize | onInitialization =>
    cases hex
    left
    split <;> exact ⟨_, rfl, rfl⟩
  case beginFinalization | send | giveGate => split at hex <;> cases hex <;> exact .inl ⟨_, rfl, rfl⟩
  all_goals first
    | (cases hi; done)
    | (cases hex; exact .inl ⟨_, rfl, rfl⟩)
    | cases hex

/-- The call goes on in `Initialize` after its transition. -/
theorem next_resume {stored threw : Bool} (hf : f.pc.initializePc = some t) (hr : t.resume s stored threw = .goto t') :
    ∃ f₁, f.next (f.pc.resume s stored threw) = some f₁ ∧ f₁.pc.initializePc = some t' ∧ f₁.transition = none := by
  cases hpc : f.pc with
  | initializeThread pc =>
    rw [hpc] at hf
    cases hf
    simp only [Pc.resume, hr]
    exact ⟨_, rfl, rfl, rfl⟩
  | start pc =>
    rw [hpc] at hf
    cases pc with
    | initializeThread pc =>
      cases hf
      simp only [Pc.resume, StartPc.resume, hr]
      exact ⟨_, rfl, rfl, rfl⟩
    | _ => cases hf
  | _ => rw [hpc] at hf; cases hf

/-- A call between the two stores of the initializing task stays there, or
clears it. -/
theorem initializing_step (h : FrameStep s p f ok s' f') (hok : f.Ok a) (ht : f.pc.initializePc = some t)
    (hi : t.initializing = true) :
    (∃ f₁ t', f' = some f₁ ∧ f₁.pc.initializePc = some t' ∧ t'.initializing = true) ∨ s'.initializingTask = none := by
  have htransition := Pc.transition_of_initializePc ht
  cases h with
  | inTransition tr tr' s' => exact .inl ⟨_, t, rfl, ht, hi⟩
  | transitionStart => exact .inl ⟨_, t, rfl, ht, hi⟩
  | transitionDone tr s' stored threw htr hst =>
    have hne : t.transition ≠ none := by
      rw [← htransition, hok.transition tr htr]
      exact Option.some_ne_none _
    obtain ⟨t', hr, hi'⟩ := resume_initializing hne hi rfl
    obtain ⟨f₁, hf₁, ht', -⟩ := next_resume ht hr
    exact .inl ⟨f₁, t', hf₁, ht', hi'⟩
  | exec s' next htr hpc hex =>
    rw [htransition] at hpc
    obtain ⟨next', hex', hgoto, -⟩ := exec_initializePc (.exec s' next htr (htransition.trans hpc) hex) hok ht hpc (by
      rintro status rfl
      cases hi)
    rcases execInitialize_initializing hpc hi hex' with ⟨t', rfl, hi'⟩ | hnone
    · obtain ⟨f₁, hf₁, ht', -⟩ := hgoto t' rfl
      exact .inl ⟨f₁, t', hf₁, ht', hi'⟩
    · exact .inr hnone

/-- A call that begins to initialize stores its task first. -/
theorem free_step (h : FrameStep s p f ok s' f') (hok : f.Ok a) (hm : ∀ t, f.pc ≠ .cleanUp t)
    (hn : ∀ t, f.pc.initializePc = some t → t.initializing = false) :
    s'.initializingTask = s.initializingTask ∨
      ∃ f₁ t', f' = some f₁ ∧ f₁.pc.initializePc = some t' ∧ t'.initializing = true := by
  by_cases hlive : ∃ g, f.pc.stage = some (.live g)
  · obtain ⟨g, hlive⟩ := hlive
    obtain ⟨t, ht, hstage⟩ := initializePc_of_stage hlive rfl
    have hnot := hn t ht
    have hbefore : t = .unlockConfiguration g ∨ t = .storeInitializing g := by
      cases t <;> cases hstage <;> first | exact .inl rfl | exact .inr rfl | cases hnot
    rcases hbefore with rfl | rfl
    · obtain ⟨next, hex, -, -⟩ := exec_initializePc h hok ht rfl nofun
      cases hex
      exact .inl rfl
    · obtain ⟨next, hex, hgoto, -⟩ := exec_initializePc h hok ht rfl nofun
      cases hex
      obtain ⟨f₁, hf₁, ht', -⟩ := hgoto _ rfl
      exact .inr ⟨f₁, _, hf₁, ht', rfl⟩
  · refine .inl (congrArg Prod.fst (h.initialization hm (fun t ht => ?_) fun g hg => hlive ⟨g, hg⟩))
    have hnot := hn t ht
    cases t <;> first | rfl | cases hnot

structure ResetInv (w : World) : Prop where
  free : ∀ q, w.shared.initializingTask = some q →
    ∃ a f t, w.call a = some f ∧ f.pc.initializePc = some t ∧ t.initializing = true
  unthrown : ∀ a f, w.call a = some f → f.pc.initializePc = some .reset → ∀ tr, f.transition = some tr →
    tr.throws = false

theorem ResetInv.moved (h : ResetInv w) (hone : AloneInInitialize w) (hu : Unmanaged w)
    (hm : Moved w p ok w' st st' a f f') (hok : f.Ok a) : ResetInv w' := by
  refine ⟨fun q hq => ?_, ?_⟩
  · have hself : ∀ {f₁}, f' = some f₁ → w'.call a = some f₁ := fun hf => by rw [hm.calls, Function.update_self, hf]
    by_cases hw : ∃ b f₁ t, w.call b = some f₁ ∧ f₁.pc.initializePc = some t ∧ t.initializing = true
    · obtain ⟨b, f₁, t, hb, ht, hi⟩ := hw
      by_cases hba : b = a
      · subst hba
        obtain rfl := Option.some.inj (hm.call.symm.trans hb)
        rcases initializing_step hm.frame hok ht hi with ⟨f₂, t', hf₂, ht', hi'⟩ | hnone
        · exact ⟨b, f₂, t', hself hf₂, ht', hi'⟩
        · exact absurd (hnone.symm.trans hq) nofun
      · exact ⟨b, f₁, t, by rw [hm.calls, Function.update_of_ne hba]; exact hb, ht, hi⟩
    · have hnot : ∀ t, f.pc.initializePc = some t → t.initializing = false := by
        intro t ht
        by_contra hi
        exact hw ⟨a, f, t, hm.call, ht, by simpa using hi⟩
      rcases free_step hm.frame hok (hu.calls a f hm.call) hnot with hs | ⟨f₁, t', hf₁, ht', hi'⟩
      · exact absurd (h.free q (hs.symm.trans hq)) hw
      · exact ⟨a, f₁, t', hself hf₁, ht', hi'⟩
  · rw [hm.calls]
    refine forall_call_update (fun f₁ hf ht' tr' htr' => ?_) fun b f₁ _ hb => h.unthrown b f₁ hb
    have hstep := hm.frame
    rw [hf] at hstep
    -- While a call resets the thread, nobody initializes it.
    have hfree : f.pc.initializePc = some .reset → w.shared.initializingTask = none := by
      intro hpc
      cases hs : w.shared.initializingTask with
      | none => rfl
      | some q =>
        obtain ⟨b, f₂, t, hb, ht, hi⟩ := h.free q hs
        obtain rfl := hone.eq hb hm.call ht hpc
        obtain rfl := Option.some.inj (hm.call.symm.trans hb)
        rw [hpc] at ht
        cases ht
        cases hi
    have hgoto := hstep.goto
    have hold := h.unthrown a f hm.call
    generalize w.shared = s at hgoto hfree
    generalize w'.shared = s' at hgoto
    cases hgoto with
    | inTransition tr tr₁ s' htr hst =>
      cases htr'
      exact stepTransition_throws hst (hold ht' tr htr) fun _ => by rw [hfree ht']; nofun
    | transitionStart => cases htr'; rfl
    | transitionDone => cases htr'
    | exec => cases htr'

theorem ResetInv.pushed {request : Request} (h : ResetInv w) (hs : step w (.call p request) = some w') :
    ResetInv w' := by
  obtain ⟨hshared, -, b, -, hnone, hcall⟩ := call_update hs
  refine ⟨fun q hq => ?_, ?_⟩
  · rw [hshared] at hq
    obtain ⟨c, f, t, hc, ht, hi⟩ := h.free q hq
    refine ⟨c, f, t, ?_, ht, hi⟩
    rw [hcall, Function.update_of_ne]
    · exact hc
    · rintro rfl
      rw [hnone] at hc
      cases hc
  · rw [hcall]
    refine forall_call_update (fun f hf _ tr htr => ?_) fun b f _ hb => h.unthrown b f hb
    cases hf
    cases htr

/-! ## From a reset to the attempt -/

/-- The call has reset the thread, or found it `Uninitialized`, and is on its
way to the attempt. -/
def PastReset (f : Frame) : Prop :=
  f.pc.initializePc = some .lockConfiguration ∨ f.pc.initializePc = some .recheckHandle ∨
    (f.pc.initializePc = some .reset ∧ ∃ tr, f.transition = some tr ∧ tr.stored = true ∧ unstored (some tr) = false)

theorem PastReset.initializePc (h : PastReset f) : ∃ t, f.pc.initializePc = some t := by
  rcases h with h | h | ⟨h, -⟩ <;> exact ⟨_, h⟩

theorem stepTransition_stored {x x' : StateTransition} (h : stepTransition s p x ok = some (s', .goto x'))
    (hu : unstored (some x) = false) : x'.stored = x.stored ∧ unstored (some x') = false := by
  obtain ⟨hl, hc⟩ := unstored_false hu
  unfold stepTransition at h
  split at h
  · exact absurd ‹x.pc = _› hl
  · exact absurd ‹x.pc = _› hc
  all_goals cases h
  all_goals first
    | exact ⟨rfl, rfl⟩
    | (refine ⟨rfl, ?_⟩; simp only [unstored, Option.all_some]; split <;> rfl)

theorem stepTransition_unlock_done {x : StateTransition} {stored threw : Bool}
    (h : stepTransition s p x ok = some (s', .done stored threw)) : stored = x.stored ∧ threw = x.throws := by
  simp only [stepTransition, stepTransition_unlock h, Option.some.injEq, Prod.mk.injEq, TransitionNext.done.injEq] at h
  exact ⟨h.2.1.symm, h.2.2.symm⟩

/-- A call that stores a state goes past its store. -/
theorem stores_step {state : ThreadState} (h : FrameStep s p f ok s' f') (hs : f.stores s = some state) :
    ∃ tr, f' = some { f with transition := some tr } ∧ tr.stored = true ∧ unstored (some tr) = false := by
  obtain ⟨tr, htr, hpc, rfl, hexpected, hvalid⟩ := Frame.stores_eq_some.1 hs
  cases h with
  | inTransition tr₀ tr' s' htr₀ hst =>
    obtain rfl := Option.some.inj (htr.symm.trans htr₀)
    simp only [stepTransition, hpc, if_pos (And.intro hexpected hvalid)] at hst
    cases hst
    exact ⟨_, rfl, rfl, rfl⟩
  | transitionDone tr₀ s' stored threw htr₀ hst =>
    obtain rfl := Option.some.inj (htr.symm.trans htr₀)
    rw [stepTransition_unlock hst] at hpc
    cases hpc
  | transitionStart expected newState htr₀ => rw [htr] at htr₀; cases htr₀
  | exec s' next htr₀ => rw [htr] at htr₀; cases htr₀

/-- It stays on its way, or comes to the attempt. -/
theorem PastReset.step (h : PastReset f) (hm : Moved w p ok w' st st' a f f') (hok : f.Ok a) (hr : ResetInv w)
    (hc : ChecksInv w st) (hst : AtStage w st) :
    (∃ f₁, f' = some f₁ ∧ PastReset f₁) ∨ callEvent w.shared f ok = some .passedChecks := by
  rcases h with ht | ht | ⟨ht, tr, htr, hstored, hu⟩
  · obtain ⟨next, hex, hgoto, -⟩ := exec_initializePc hm.frame hok ht rfl nofun
    generalize w'.shared = s' at hex
    simp only [execInitialize] at hex
    split at hex <;> cases hex
    obtain ⟨f₁, hf₁, ht₁, -⟩ := hgoto _ rfl
    exact .inl ⟨f₁, hf₁, .inr (.inl ht₁)⟩
  · -- The checks still hold, so the handle is free.
    obtain rfl := hc.quiet a f hm.call _ ht rfl
    right
    rw [callEvent_initializePc (hok.no_transition (Pc.transition_of_initializePc ht)) ht]
    exact if_pos hst.fits.handle
  · left
    have hstep := hm.frame
    have hthrows := hr.unthrown a f hm.call ht tr htr
    generalize w.shared = s at hstep
    generalize w'.shared = s' at hstep
    cases hstep with
    | inTransition tr₀ tr' s' htr₀ hst =>
      obtain rfl := Option.some.inj (htr.symm.trans htr₀)
      obtain ⟨hs, hu'⟩ := stepTransition_stored hst hu
      exact ⟨_, rfl, .inr (.inr ⟨ht, tr', rfl, hs.trans hstored, hu'⟩)⟩
    | transitionDone tr₀ s' stored threw htr₀ hst =>
      obtain rfl := Option.some.inj (htr.symm.trans htr₀)
      obtain ⟨rfl, rfl⟩ := stepTransition_unlock_done hst
      have hres : InitializePc.resume s' tr.stored tr.throws .reset = .goto .lockConfiguration := by
        rw [hstored, hthrows]
        rfl
      obtain ⟨f₁, hf₁, ht₁, -⟩ := next_resume ht hres
      exact ⟨f₁, hf₁, .inl ht₁⟩
    | transitionStart expected newState htr₀ => rw [htr] at htr₀; cases htr₀
    | exec s' next htr₀ => rw [htr] at htr₀; cases htr₀

/-! ## What was returned -/

/-- What holds of every failed attempt from its return on. -/
def Returned (w : World) (log : List Event) : Prop :=
  ∀ l₀ status s l₂, log = l₀ ++ .returned status s :: l₂ → failed status = true →
    Gone s ∧ ∃ l₁ l, l₀ = l₁ ++ .passedChecks :: l ∧ .passedChecks ∉ l ∧
      ((∃ g, Shown [g] [g] l ∧ s.threadState = .terminated ∧ GaveUp w log g) ∨
        (Shown [] [] l ∧ s.threadState = .uninitialized))

theorem Returned.moved (h : Returned w log) (hr : Reports w log st) (hm : Moved w p ok w' st st' a f f')
    (hok : f.Ok a) (hrun : w.runnable p = true) : Returned w' (log ++ (callEvent w.shared f ok).toList) := by
  intro l₀ status s l₂ hlog hfail
  have hstep := hm.frame
  rcases System.split_append hlog with ⟨l₃, hl, -⟩ | ⟨he, rfl, -⟩
  · obtain ⟨hgone, l₁, l, hl₀, hn, hor⟩ := h l₀ status s l₃ hl hfail
    exact ⟨hgone, l₁, l, hl₀, hn, hor.imp_left fun ⟨g, hg, hs, hgave⟩ => ⟨g, hg, hs, hgave.moved hm hok hrun⟩⟩
  · generalize hw : w.shared = s₀ at he hstep
    cases shows hstep hok he with
    | returned _ htr ht =>
      subst hw
      obtain ⟨hgone, -, l₁, l, rfl, hn, hor⟩ := hr a f hm.call _ ht status rfl hfail
      refine ⟨hgone, l₁, l, rfl, hn, ?_⟩
      rcases hor with ⟨g, hg, hgave, hs⟩ | ⟨hl, hs, -⟩
      · exact .inl ⟨g, hg, hs, hgave.moved hm hok hrun⟩
      · exact .inr ⟨hl, hs⟩

theorem Returned.pushed {request : Request} (h : Returned w log) (hs : step w (.call p request) = some w') :
    Returned w' log := by
  obtain ⟨hshared, -⟩ := call_update hs
  intro l₀ status s l₂ hlog hfail
  obtain ⟨hgone, l₁, l, hl₀, hn, hor⟩ := h l₀ status s l₂ hlog hfail
  refine ⟨hgone, l₁, l, hl₀, hn, hor.imp_left fun ⟨g, hg, hs, hgave⟩ => ⟨g, hg, hs, ?_, hgave.released, hgave.sent⟩⟩
  rw [hshared]
  exact hgave.killed

/-! ## Between a failed attempt and the next one -/

/-- A failed attempt has left the thread in the state `σ`, the next one has not
begun, and a thread that had no worker was not terminated since. -/
def Standing (log : List Event) (σ : ThreadState) : Prop :=
  ∃ l₀ status s l₁, log = l₀ ++ .returned status s :: l₁ ∧ failed status = true ∧ s.threadState = σ ∧
    .passedChecks ∉ l₁ ∧ (σ = .uninitialized → .terminating ∉ l₁)

theorem Standing.cases (h : Standing (log ++ e.toList) σ) :
    (Standing log σ ∧ e ≠ some .passedChecks ∧ (σ = .uninitialized → e ≠ some .terminating)) ∨
      ∃ status s, e = some (.returned status s) ∧ s.threadState = σ := by
  obtain ⟨l₀, status, s, l₁, hl, hfail, hs, hn, ht⟩ := h
  rcases System.split_append hl with ⟨l₂, rfl, rfl⟩ | ⟨he, -⟩
  · refine .inl ⟨⟨l₀, status, s, l₂, rfl, hfail, hs, fun hm => hn (List.mem_append_left _ hm),
      fun hσ hm => ht hσ (List.mem_append_left _ hm)⟩, ?_, ?_⟩
    · rintro rfl
      exact hn (List.mem_append_right _ (List.mem_singleton.2 rfl))
    · rintro hσ rfl
      exact ht hσ (List.mem_append_right _ (List.mem_singleton.2 rfl))
  · exact .inr ⟨status, s, he, hs⟩

theorem Returned.standing (h : Returned w log) (hσ : Standing log σ) : σ = .terminated ∨ σ = .uninitialized := by
  obtain ⟨l₀, status, s, l₁, hl, hfail, rfl, -, -⟩ := hσ
  obtain ⟨_, _, _, _, _, hor⟩ := h l₀ status s l₁ hl hfail
  exact hor.imp (fun ⟨_, _, hs, _⟩ => hs) fun hs => hs.2

/-- A call at this place is not rejected for the state that it reads. -/
def Retries (σ : ThreadState) (f : Frame) : InitializePc → Prop
  | .ensureRegistered | .loadHandle | .loadPending | .ensureDispatcher | .readState | .lockConfiguration
  | .recheckHandle => True
  | .reset => σ = .terminated ∧ (unstored f.transition = true ∨ PastReset f)
  | t => ∃ status, reporting t = some status ∧ status ≠ .invalidState

structure RetryInv (w : World) (log : List Event) : Prop where
  state : ∀ σ, Standing log σ → (∀ a f, w.call a = some f → ¬ PastReset f) → w.shared.threadState = σ
  calls : ∀ σ, Standing log σ → ∀ a f, w.call a = some f → ∀ t, f.pc.initializePc = some t → Retries σ f t

/-- The statement that returns the status. -/
theorem finished_step (h : FrameStep s p f ok s' f') (hok : f.Ok a) (ht : f.pc.initializePc = some (.finished status)) :
    s' = s ∧ ∀ f₁, f' = some f₁ → f₁.pc.initializePc = none := by
  obtain ⟨next, hex, rfl⟩ := h.exec_of hok ((Pc.transition_of_initializePc ht).trans rfl)
  cases hpc : f.pc with
  | initializeThread pc =>
    rw [hpc] at hex ht
    cases ht
    simp only [Lifecycle.exec, execInitialize, Option.map_some, Option.some.injEq, Prod.mk.injEq] at hex
    obtain ⟨hs, rfl⟩ := hex
    exact ⟨hs.symm, fun _ hf₁ => by cases hf₁⟩
  | start pc =>
    rw [hpc] at hex ht
    cases pc with
    | initializeThread pc =>
      cases ht
      simp only [Lifecycle.exec, execStart, Option.map_some, Option.some.injEq, Prod.mk.injEq] at hex
      obtain ⟨hs, rfl⟩ := hex
      refine ⟨hs.symm, fun f₁ hf₁ => ?_⟩
      split at hf₁
      · cases hf₁; rfl
      · unfold StartPc.tail at hf₁
        split at hf₁ <;> cases hf₁
        rfl
    | _ => cases ht
  | _ => rw [hpc] at ht; cases ht

/-- Until an `Initialize` resets it, the thread stays as the attempt has left it. -/
theorem RetryInv.state_moved (h : RetryInv w log) (hret : Returned w log) (hu : Unmanaged w) (hr : ResetInv w)
    (hc : ChecksInv w st) (hst : AtStage w st) (hm : Moved w p ok w' st st' a f f') (hok : f.Ok a)
    (hσ : Standing (log ++ (callEvent w.shared f ok).toList) σ)
    (hno : ∀ b f₁, w'.call b = some f₁ → ¬ PastReset f₁) : w'.shared.threadState = σ := by
  have hself : ∀ {f₁}, f' = some f₁ → ¬ PastReset f₁ :=
    fun hf => hno a _ (by rw [hm.calls, Function.update_self, hf])
  rcases hσ.cases with ⟨hold, hne, hterminating⟩ | ⟨status, s, he, hs⟩
  · -- No call was past the reset before.
    have hnone : ∀ b f₁, w.call b = some f₁ → ¬ PastReset f₁ := by
      intro b f₁ hb hpast
      by_cases hba : b = a
      · subst hba
        obtain rfl := Option.some.inj (hm.call.symm.trans hb)
        rcases hpast.step hm hok hr hc hst with ⟨f₂, hf₂, hpast⟩ | he
        · exact hself hf₂ hpast
        · exact hne he
      · exact hno b f₁ (by rw [hm.calls, Function.update_of_ne hba]; exact hb) hpast
    have hstate := h.state σ hold hnone
    rcases hm.frame.state_cases hok (hu.calls a f hm.call) with hs | ⟨state, hstores, hs, hmakes, hvalid⟩
    · rw [hs, hstate]
    · rcases hret.standing hold with rfl | rfl
      · rw [hstate] at hvalid
        rcases terminated_valid hvalid with rfl | rfl
        · obtain ⟨tr, hf', hstored, hunstored⟩ := stores_step hm.frame hstores
          exact absurd (.inr (.inr ⟨hmakes, tr, rfl, hstored, hunstored⟩)) (hself hf')
        · exact hmakes.elim
      · rw [hstate] at hvalid
        cases state with
        | initialized =>
          obtain ⟨g, hg⟩ := hmakes
          obtain ⟨status, hreporting, -⟩ := h.calls _ hold a f hm.call _ hg
          cases hreporting
        | terminating => exact absurd (event_of_stores hstores) (hterminating rfl)
        | destroyed => exact hmakes.elim
        | _ => simp [isValidThreadStateTransition] at hvalid
  · have hstep := hm.frame
    generalize hw : w.shared = s₀ at he hstep
    cases shows hstep hok he with
    | returned _ htr ht => rw [(finished_step hstep hok ht).1, hs]

theorem pastReset_reset (ht : f.pc.initializePc = some .reset) :
    PastReset f ↔ ∃ tr, f.transition = some tr ∧ tr.stored = true ∧ unstored (some tr) = false := by
  simp [PastReset, ht]

/-- A call that retries comes to no rejection, while the thread is in the state
`σ` until the call has reset it. -/
theorem Retries.step {f₁ : Frame} (h : Retries σ f t) (ht : f.pc.initializePc = some t)
    (hstep : FrameStep s p f ok s' (some f₁)) (hok : f.Ok a) (ht' : f₁.pc.initializePc = some t')
    (hσ : σ = .terminated ∨ σ = .uninitialized) (hstate : ¬ PastReset f → s.threadState = σ)
    (hhandle : t = .recheckHandle → s.taskHandle ≠ none) : Retries σ f₁ t' := by
  rcases hstep.initializePc ht' with rfl | ⟨t₀, ht₀, hto⟩
  · trivial
  obtain rfl := Option.some.inj (ht.symm.trans ht₀)
  have hx := hok.transition
  rw [Pc.transition_of_initializePc ht] at hx
  generalize htr : f.transition = x at hto hx
  generalize htr' : f₁.transition = x' at hto
  cases hto with
  | inTransition _ tr tr' _ hst =>
    cases t
    case reset =>
      obtain ⟨hσ, hreset⟩ := h
      refine ⟨hσ, or_iff_not_imp_left.2 fun hu' => (pastReset_reset ht').2 ⟨tr', htr', ?_⟩⟩
      have hu' : unstored (some tr') = false := by simpa [htr'] using hu'
      by_cases hpast : PastReset f
      · obtain ⟨tr₀, htr₀, hstored, hu⟩ := (pastReset_reset ht).1 hpast
        obtain rfl := Option.some.inj (htr.symm.trans htr₀)
        obtain ⟨hs, hu'⟩ := stepTransition_stored hst hu
        exact ⟨hs.trans hstored, hu'⟩
      · -- The thread is still `Terminated`, so the reset is made.
        have hu : unstored (some tr) = true := by simpa [htr, hpast] using hreset
        obtain ⟨hpc, -⟩ := stepTransition_check hst hu hu'
        have hterminated := (hstate hpast).trans hσ
        obtain ⟨hexpected, hnew⟩ := Prod.mk.inj (Option.some.inj (hx tr rfl))
        have hstores : f.stores s = some .uninitialized :=
          Frame.stores_eq_some.2 ⟨tr, htr, hpc, hnew.symm, .inr (by rw [← hexpected, hterminated]),
            by rw [hterminated]; rfl⟩
        obtain ⟨tr₁, hf₁, hstored, hu₁⟩ := stores_step hstep hstores
        obtain rfl := Option.some.inj hf₁
        cases htr'
        exact ⟨hstored, hu₁⟩
    all_goals exact h
  | transitionStart =>
    cases t
    case reset => exact ⟨h.1, .inl (by rw [htr']; rfl)⟩
    all_goals exact h
  | transitionDone _ _ tr _ stored threw hst hr =>
    have hunlock := stepTransition_unlock hst
    obtain ⟨rfl, rfl⟩ := stepTransition_unlock_done hst
    cases InitializePc.resume_goto hr
    case reset => trivial
    case unreset hstored =>
      have hpast : PastReset f := h.2.resolve_left (by simp [htr, unstored, hunlock])
      obtain ⟨tr₀, htr₀, hstored₀, -⟩ := (pastReset_reset ht).1 hpast
      obtain rfl := Option.some.inj (htr.symm.trans htr₀)
      rw [hstored] at hstored₀
      cases hstored₀
    all_goals
      obtain ⟨_, hreporting, -⟩ := h
      cases hreporting
  | exec _ _ _ hex =>
    cases execInitialize_goto hex
    case readTerminated hs =>
      exact ⟨(hstate (by simp [PastReset, ht])).symm.trans hs, .inl (by rw [htr']; rfl)⟩
    case invalidState hterminated huninitialized =>
      have hs := hstate (by simp [PastReset, ht])
      rcases hσ with rfl | rfl
      · exact absurd hs hterminated
      · exact absurd hs huninitialized
    case recheckHandle hh => exact absurd hh (hhandle rfl)
    -- A call that leaves its checks otherwise is rejected for another reason.
    case alreadyInitialized | dispatchPending | dispatcherUnavailable | hasTask => exact ⟨_, rfl, (by rintro ⟨⟩)⟩
    case ensureRegistered | loadHandle | loadPending | ensureDispatcher | readUninitialized | lockConfiguration =>
      trivial
    case clearInProgress | succeeded | clearInitializing | onInitializationFailed | notifyInitializationFailed =>
      exact h
    all_goals
      obtain ⟨_, hreporting, -⟩ := h
      cases hreporting

theorem RetryInv.calls_moved (h : RetryInv w log) (hret : Returned w log) (hone : AloneInInitialize w)
    (hm : Moved w p ok w' st st' a f f') (hok : f.Ok a)
    (hσ : Standing (log ++ (callEvent w.shared f ok).toList) σ) {b : TaskId × Nat} {f₁ : Frame}
    (hb : w'.call b = some f₁) (ht' : f₁.pc.initializePc = some t') : Retries σ f₁ t' := by
  have hother : b ≠ a → w.call b = some f₁ := fun hba => by
    rw [hm.calls, Function.update_of_ne hba] at hb
    exact hb
  have hself : b = a → f' = some f₁ := by
    rintro rfl
    rw [hm.calls, Function.update_self] at hb
    exact hb
  rcases hσ.cases with ⟨hold, hne, -⟩ | ⟨status, s, he, -⟩
  · by_cases hba : b = a
    · have hstep := hm.frame
      rw [hself hba] at hstep
      rcases hstep.initializePc ht' with rfl | ⟨t, ht, -⟩
      · trivial
      · refine (h.calls σ hold a f hm.call t ht).step ht hstep hok ht' (hret.standing hold) (fun hpast => ?_) ?_
        · -- There is no other call in `Initialize`.
          refine h.state σ hold fun c f₂ hc hpast₂ => ?_
          obtain ⟨t₂, ht₂⟩ := hpast₂.initializePc
          obtain rfl := hone.eq hc hm.call ht₂ ht
          obtain rfl := Option.some.inj (hm.call.symm.trans hc)
          exact hpast hpast₂
        · rintro rfl hh
          rw [callEvent_initializePc (hok.no_transition (Pc.transition_of_initializePc ht)) ht] at hne
          exact hne (if_pos hh)
    · exact h.calls σ hold b f₁ (hother hba) t' ht'
  · -- The call that returns was the only one.
    have hstep := hm.frame
    generalize w.shared = s₀ at he hstep
    cases shows hstep hok he with
    | returned _ _ ht =>
      by_cases hba : b = a
      · rw [(finished_step hstep hok ht).2 f₁ (hself hba)] at ht'
        cases ht'
      · exact absurd (hone.eq (hother hba) hm.call ht' ht) hba

theorem RetryInv.moved (h : RetryInv w log) (hret : Returned w log) (hone : AloneInInitialize w) (hu : Unmanaged w)
    (hr : ResetInv w) (hc : ChecksInv w st) (hst : AtStage w st) (hm : Moved w p ok w' st st' a f f') (hok : f.Ok a) :
    RetryInv w' (log ++ (callEvent w.shared f ok).toList) where
  state _ hσ := h.state_moved hret hu hr hc hst hm hok hσ
  calls _ hσ _ _ hb _ ht := h.calls_moved hret hone hm hok hσ hb ht

theorem RetryInv.pushed {request : Request} (h : RetryInv w log) (hs : step w (.call p request) = some w') :
    RetryInv w' log := by
  obtain ⟨hshared, -, b, -, hnone, hcall⟩ := call_update hs
  refine ⟨fun σ hσ hno => ?_, fun σ hσ => ?_⟩
  · rw [hshared]
    refine h.state σ hσ fun c f hc => hno c f ?_
    rw [hcall, Function.update_of_ne]
    · exact hc
    · rintro rfl
      rw [hnone] at hc
      cases hc
  · rw [hcall]
    refine forall_call_update (fun f hf t ht => ?_) fun c f _ hc => h.calls σ hσ c f hc
    cases hf
    cases request <;> cases ht
    trivial

/-- No `Initialize` was rejected for the state between a failed attempt and the
next one. -/
def Unrejected (log : List Event) : Prop :=
  ∀ l₀ status s l₁ s' l₂, log = l₀ ++ .returned status s :: (l₁ ++ .returned .invalidState s' :: l₂) →
    failed status = true → .passedChecks ∈ l₁ ∨ (s.threadState = .uninitialized ∧ .terminating ∈ l₁)

theorem Unrejected.moved (h : Unrejected log) (hi : RetryInv w log) (hm : Moved w p ok w' st st' a f f')
    (hok : f.Ok a) : Unrejected (log ++ (callEvent w.shared f ok).toList) := by
  intro l₀ status s l₁ s' l₂ hl hfail
  have hl : log ++ (callEvent w.shared f ok).toList = (l₀ ++ .returned status s :: l₁) ++
      .returned .invalidState s' :: l₂ := by simpa using hl
  rcases System.split_append hl with ⟨l₃, hold, -⟩ | ⟨he, hlog, -⟩
  · exact h l₀ status s l₁ s' l₃ (by simpa using hold) hfail
  · by_contra hn
    obtain ⟨hn, ht⟩ := not_or.1 hn
    have hσ : Standing log s.threadState := ⟨l₀, status, s, l₁, hlog.symm, hfail, rfl, hn, fun hs hm => ht ⟨hs, hm⟩⟩
    have hstep := hm.frame
    generalize w.shared = s₀ at he hstep
    cases shows hstep hok he with
    | returned _ _ hpc =>
      obtain ⟨_, hreporting, hne⟩ := hi.calls _ hσ a f hm.call _ hpc
      cases hreporting
      exact hne rfl

end ESPressio.Attempts
