import ESPressioThreads.Initialization.Attempts
/-!
# Failed attempts

An `Initialize` that fails makes the thread `Terminated` before it deletes the
worker that it has created, and no other call takes it out of `Terminated` until
the next attempt resets it. While the failing paths of `Orderly` are the only
ones taken, a failed attempt leaves nothing behind but its record.
-/

namespace ESPressio.Attempts

open Transition ESPressio.Thread ESPressio.Lifecycle

variable {w w' : World} {s s' : Shared} {p : TaskId} {ok : Bool} {f : Frame} {f' : Option Frame} {g : Gen}
  {st st' : Stage} {a : TaskId × Nat} {t t' : InitializePc} {log : List Event} {e : Option Event}
  {tr tr' : Option StateTransition} {status : ThreadInitializationStatus} {σ : ThreadState}

/-! ## On the way to `Terminated` -/

/-- `Initialize` has found or left the thread `Terminating` or `Terminated`. -/
def settled (unstored : Bool) : InitializePc → Bool
  | .catchTerminate _ pc => pc.settled unstored
  | .stopTerminated _ | .catchTerminated _ => true
  | _ => false

/-- `Initialize` gives up the worker, of a thread that is `Terminated`. -/
def final (unstored : Bool) : InitializePc → Bool
  | .stopTerminated _ | .catchTerminated _ => !unstored
  | .exchangeTask _ _ | .deleteTask _ _ _ | .beginFinalization _ _ | .storePending _ _ | .send _ _ => true
  | _ => false

/-- `Initialize` is going to return the status. -/
def reporting : InitializePc → Option ThreadInitializationStatus
  | .clearInProgress status | .clearInitializing status | .onInitializationFailed status
  | .notifyInitializationFailed status | .finished status => some status
  | _ => none

/-- The transition of a call that has made its store, or is going to. -/
theorem settled_inTransition {x x' : StateTransition} (hx : t.transition = some (x.expected, x.newState))
    (hst : stepTransition s p x ok = some (s', .goto x')) (h : settled (unstored (some x')) t = true) :
    settled (unstored (some x)) t = true ∨ ending s'.threadState = true := by
  rcases stepTransition_unstored_eq hst with he | ⟨hu, hu'⟩
  · rw [he] at h
    exact .inl h
  · obtain ⟨-, hstate⟩ := stepTransition_check hst hu hu'
    -- A transition to `Terminating` is not made if the thread is ending.
    have hstore : (x.expected, x.newState) = (none, .terminating) → ending s'.threadState = true := by
      intro hn
      obtain ⟨he, hn⟩ := Prod.mk.inj hn
      rw [hstate, he, hn]
      split
      · rfl
      · rename_i hvalid
        exact not_valid_terminating (by simpa using hvalid)
    cases t with
    | catchTerminate g u =>
      cases u with
      | fromUninitialized | request => exact .inr (hstore (Option.some.inj hx).symm)
      | setTerminated | signalScheduler => exact .inl rfl
      | readState => cases h
    | stopTerminated | catchTerminated => exact .inl rfl
    | _ => cases h

theorem settled_resume {stored threw : Bool} (ht : t.transition ≠ none) (hr : t.resume s stored threw = .goto t')
    (h : settled true t' = true) : settled false t = true := by
  cases InitializePc.resume_goto hr with
  | terminate g u | terminated g u => cases u <;> first | rfl | exact absurd rfl ht
  | _ =>
    first
    | rfl
    | cases h

theorem execInitialize_settled (hex : execInitialize s p t ok = some (s', .goto t')) (ht : t.transition = none)
    (h : settled true t' = true) : settled true t = true ∨ ending s'.threadState = true := by
  have hstate : s'.threadState = s.threadState := congrArg (fun s => s.2.1) (execInitialize_aside hex)
  rw [hstate]
  cases execInitialize_goto hex with
  | terminate g u u' hu =>
    refine (execTerminate_settled ht fun u₁ hu₁ => ?_).symm
    rw [hu] at hu₁
    cases hu₁
    exact h
  | terminated g u threw hu =>
    refine (execTerminate_settled ht fun u₁ hu₁ => ?_).symm
    rw [hu] at hu₁
    cases hu₁
  | initializationTerminating g hs => exact .inr (by rw [hs]; rfl)
  | initializedTerminating g hs => exact .inr (by rw [hs]; rfl)
  | _ => cases h

/-- A statement of a call, not a transition it begins. -/
theorem transition_of_exec {f₁ : Frame} (h : FrameStep s p f ok s' (some f₁)) (htr : f.transition = none)
    (htr₁ : f₁.transition = none) : f.pc.transition = none := by
  cases h.goto with
  | inTransition x x' s' hx => rw [htr] at hx; cases hx
  | transitionStart => cases htr₁
  | transitionDone x s' stored threw pc hx => rw [htr] at hx; cases hx
  | exec s' pc hx hpc => exact hpc

/-- The call comes to `settled` by a step that leaves the thread ending. -/
theorem settled_step {f₁ : Frame} (h : FrameStep s p f ok s' (some f₁)) (hok : f.Ok a)
    (ht' : f₁.pc.initializePc = some t') (hs : settled (unstored f₁.transition) t' = true) :
    (∃ t, f.pc.initializePc = some t ∧ settled (unstored f.transition) t = true) ∨ ending s'.threadState = true := by
  rcases h.initializePc ht' with rfl | ⟨t, ht, hto⟩
  · cases hs
  · have hx := hok.transition
    have hexec := transition_of_exec h
    rw [Pc.transition_of_initializePc ht] at hx hexec
    generalize f.transition = x at hto hx hexec ⊢
    generalize f₁.transition = x' at hto hs hexec
    cases hto with
    | inTransition _ tr tr' _ hst =>
      exact (settled_inTransition (hx tr rfl) hst hs).imp_left fun hs => ⟨t', ht, hs⟩
    | transitionStart => exact .inl ⟨t', ht, hs⟩
    | transitionDone _ _ tr _ stored threw hst hr =>
      refine .inl ⟨t, ht, ?_⟩
      rw [show unstored (some tr) = false by simp [unstored, stepTransition_unlock hst]]
      exact settled_resume (by rw [hx tr rfl]; exact Option.some_ne_none _) hr hs
    | exec _ _ _ hex => exact (execInitialize_settled hex (hexec rfl rfl) hs).imp_left fun hs => ⟨t, ht, hs⟩

/-- The last transition of a failing attempt makes the thread `Terminated`. -/
theorem final_inTransition {x x' : StateTransition} (hx : t.transition = some (x.expected, x.newState))
    (hst : stepTransition s p x ok = some (s', .goto x')) (h : final (unstored (some x')) t = true) :
    final (unstored (some x)) t = true ∨ (settled (unstored (some x)) t = true ∧
      (s.threadState = .terminating ∨ s.threadState = .terminated → s'.threadState = .terminated)) := by
  rcases stepTransition_unstored_eq hst with he | ⟨hu, hu'⟩
  · rw [he] at h
    exact .inl h
  · obtain ⟨-, hstate⟩ := stepTransition_check hst hu hu'
    have hstore : (x.expected, x.newState) = (none, .terminated) →
        s.threadState = .terminating ∨ s.threadState = .terminated → s'.threadState = .terminated := by
      intro hn hs
      obtain ⟨he, hn⟩ := Prod.mk.inj hn
      rw [hstate, he, hn]
      rcases hs with hs | hs <;> simp [hs, isValidThreadStateTransition]
    cases t with
    | stopTerminated | catchTerminated => exact .inr ⟨rfl, hstore (Option.some.inj hx).symm⟩
    | exchangeTask | deleteTask | beginFinalization | storePending | send => cases hx
    | _ => cases h

theorem final_resume {stored threw : Bool} (hr : t.resume s stored threw = .goto t') (h : final true t' = true) :
    final false t = true := by
  cases InitializePc.resume_goto hr <;>
    first
    | rfl
    | cases h

theorem execInitialize_final (hex : execInitialize s p t ok = some (s', .goto t')) (h : final true t' = true)
    (hgive : ∀ g, t = .giveGate g → ok = true ∨ s.threadState = .terminated) :
    final true t = true ∨ s'.threadState = .terminated := by
  have hstate : s'.threadState = s.threadState := congrArg (fun s => s.2.1) (execInitialize_aside hex)
  rw [hstate]
  cases execInitialize_goto hex with
  | initializationTerminated g hs => exact .inr hs
  | initializedTerminated g hs => exact .inr hs
  -- The gate is not given, and the thread has no exit to be `Terminated` by.
  | notGiven g hok =>
    rcases hgive g rfl with hgiven | hs
    · rw [hok] at hgiven
      cases hgiven
    · exact .inr hs
  | _ =>
    first
    | exact .inl rfl
    | cases h

theorem final_step {f₁ : Frame} (h : FrameStep s p f ok s' (some f₁)) (hok : f.Ok a)
    (hgive : ∀ t, f.pc.initializePc = some t → ∀ g, t = .giveGate g → ok = true ∨ s.threadState = .terminated)
    (ht' : f₁.pc.initializePc = some t') (hs : final (unstored f₁.transition) t' = true) :
    (∃ t, f.pc.initializePc = some t ∧ (final (unstored f.transition) t = true ∨
      (settled (unstored f.transition) t = true ∧
        (s.threadState = .terminating ∨ s.threadState = .terminated → s'.threadState = .terminated)))) ∨
      s'.threadState = .terminated := by
  rcases h.initializePc ht' with rfl | ⟨t, ht, hto⟩
  · cases hs
  · have hx := hok.transition
    have hg := hgive t ht
    rw [Pc.transition_of_initializePc ht] at hx
    generalize f.transition = x at hto hx ⊢
    generalize f₁.transition = x' at hto hs
    cases hto with
    | inTransition _ tr tr' _ hst => exact .inl ⟨t', ht, final_inTransition (hx tr rfl) hst hs⟩
    | transitionStart => exact .inl ⟨t', ht, .inl hs⟩
    | transitionDone _ _ tr _ stored threw hst hr =>
      refine .inl ⟨t, ht, .inl ?_⟩
      rw [show unstored (some tr) = false by simp [unstored, stepTransition_unlock hst]]
      exact final_resume hr hs
    | exec _ _ _ hex => exact (execInitialize_final hex hs hg).imp_left fun hs => ⟨t, ht, .inl hs⟩

theorem settled_stage {u : Bool} (h : settled u t = true) : t.stage ≠ none := by
  cases t <;> first | exact Option.some_ne_none _ | cases h

theorem final_stage {u : Bool} (h : final u t = true) : t.stage ≠ none := by
  cases t <;> first | exact Option.some_ne_none _ | cases h

theorem refused_step {f₁ : Frame} (h : FrameStep s p f ok s' (some f₁))
    (hsend : ∀ t, f.pc.initializePc = some t → ∀ g status, t = .send g status → ok = true)
    (ht' : f₁.pc.initializePc = some (.clearPending status)) : f.pc.initializePc = some (.clearPending status) := by
  rcases h.initializePc ht' with ht | ⟨t, ht, hto⟩
  · cases ht
  · generalize f.transition = x at hto
    generalize f₁.transition = x' at hto
    cases hto with
    | inTransition => exact ht
    | transitionStart => exact ht
    | transitionDone _ _ tr _ stored threw hst hr => cases InitializePc.resume_goto hr
    | exec _ _ _ hex =>
      cases execInitialize_goto hex with
      | unsent g status hok =>
        have hsent := hsend _ ht g status rfl
        rw [hok] at hsent
        cases hsent

/-- What a failing attempt has made of the state, and that its record was taken. -/
structure EndInv (w : World) : Prop where
  exists_state : w.shared.threadState ≠ .destroyed
  settled : ∀ a f, w.call a = some f → ∀ t, f.pc.initializePc = some t → settled (unstored f.transition) t = true →
    w.shared.threadState = .terminating ∨ w.shared.threadState = .terminated
  final : ∀ a f, w.call a = some f → ∀ t, f.pc.initializePc = some t → final (unstored f.transition) t = true →
    w.shared.threadState = .terminated
  unrefused : ∀ a f, w.call a = some f → ∀ status, f.pc.initializePc ≠ some (.clearPending status)

theorem EndInv.moved (h : EndInv w) (hst : AtStage w st) (hc : ChecksInv w st) (hoks : CallsOk w) (hu : Unmanaged w)
    (hm : Moved w p ok w' st st' a f f') (ho : Orderly w (.step p ok)) : EndInv w' := by
  have hok := hoks a f hm.call
  have hcalls := (ho f hm.top).1
  -- While an attempt is on, the thread does not leave `Terminated`.
  have hkept : ∀ b f₁, w.call b = some f₁ → ∀ t, f₁.pc.initializePc = some t → t.stage ≠ none →
      (w.shared.threadState = .terminated → w'.shared.threadState = .terminated) ∧
        (w.shared.threadState = .terminating ∨ w.shared.threadState = .terminated →
          w'.shared.threadState = .terminating ∨ w'.shared.threadState = .terminated) := by
    intro b f₁ hb t ht hstage
    exact hc.state_moved hm hok hu (hst.ne_quiet hb (by rwa [Pc.stage_of_initializePc ht]))
  have hexists := hm.frame.not_destroyed hok (hu.calls a f hm.call) h.exists_state
  refine ⟨hexists, ?_, ?_, ?_⟩
  · rw [hm.calls]
    refine forall_call_update (fun f₁ hf t' ht' hs => ?_) fun b f₁ _ hb t ht hs =>
      (hkept b f₁ hb t ht (settled_stage hs)).2 (h.settled b f₁ hb t ht hs)
    have hstep := hm.frame
    rw [hf] at hstep
    rcases settled_step hstep hok ht' hs with ⟨t, ht, hs⟩ | hend
    · exact (hkept a f hm.call t ht (settled_stage hs)).2 (h.settled a f hm.call t ht hs)
    · exact ending_cases hend hexists
  · rw [hm.calls]
    refine forall_call_update (fun f₁ hf t' ht' hs => ?_) fun b f₁ _ hb t ht hs =>
      (hkept b f₁ hb t ht (final_stage hs)).1 (h.final b f₁ hb t ht hs)
    have hstep := hm.frame
    rw [hf] at hstep
    rcases final_step hstep hok (fun t ht => (hcalls t ht).2.1) ht' hs with ⟨t, ht, hs | ⟨hs, hstore⟩⟩ | hs
    · exact (hkept a f hm.call t ht (final_stage hs)).1 (h.final a f hm.call t ht hs)
    · exact hstore (h.settled a f hm.call t ht hs)
    · exact hs
  · rw [hm.calls]
    refine forall_call_update (fun f₁ hf status ht' => ?_) fun b f₁ _ hb => h.unrefused b f₁ hb
    have hstep := hm.frame
    rw [hf] at hstep
    exact h.unrefused a f hm.call status (refused_step hstep (fun t ht => (hcalls t ht).1) ht')

theorem EndInv.pushed {request : Request} (h : EndInv w) (hs : step w (.call p request) = some w') : EndInv w' := by
  obtain ⟨hshared, -, b, -, -, hcall⟩ := call_update hs
  have hnew : ∀ {t}, request.entry.initializePc = some t → t = .ensureRegistered := by
    intro t ht
    cases request <;> cases ht
    rfl
  refine ⟨by rw [hshared]; exact h.exists_state, ?_, ?_, ?_⟩
  · rw [hcall, hshared]
    refine forall_call_update (fun f hf t ht hs => ?_) fun b f _ hb => h.settled b f hb
    cases hf
    rw [hnew ht] at hs
    cases hs
  · rw [hcall, hshared]
    refine forall_call_update (fun f hf t ht hs => ?_) fun b f _ hb => h.final b f hb
    cases hf
    rw [hnew ht] at hs
    cases hs
  · rw [hcall]
    refine forall_call_update (fun f hf status ht => ?_) fun b f _ hb => h.unrefused b f hb
    cases hf
    cases hnew ht

/-! ## Calls that make no attempt -/

/-- The call is in no attempt, and is not at the two steps before one. -/
def Aside (f : Frame) : Prop :=
  ∀ t, f.pc.initializePc = some t → t.stage = none ∧ t ≠ .recheckHandle ∧ t ≠ .reset

/-- A stage that only `Initialize` has in hand. -/
def initializes : Stage → Bool
  | .made _ | .live _ => true
  | st => preparing st

theorem initializePc_of_stage {pc : Pc} {x : Stage} (h : pc.stage = some x) (hx : initializes x = true) :
    ∃ t, pc.initializePc = some t ∧ t.stage = some x := by
  cases pc with
  | initializeThread t => exact ⟨t, rfl, h⟩
  | start t =>
    cases t with
    | initializeThread t => exact ⟨t, rfl, h⟩
    | _ => cases h
  | worker g t => cases t <;> cases h <;> cases hx
  | dispatcher t => cases t <;> cases h <;> cases hx
  | _ => cases h

theorem Aside.not_stage {x : Stage} (h : Aside f) (hx : initializes x = true) : f.pc.stage ≠ some x := by
  intro hs
  obtain ⟨t, ht, hstage⟩ := initializePc_of_stage hs hx
  rw [(h t ht).1] at hstage
  cases hstage

theorem Aside.not_checked (h : Aside f) (hm : Moved w p ok w' st st' a f f') : stageAfter f' ≠ some .checked := by
  intro hc
  obtain ⟨f₁, rfl, hf₁⟩ := Option.bind_eq_some_iff.1 hc
  cases hl : f.pc.stage with
  | none => exact (h _ (hm.frame.recheckHandle hl hf₁)).2.1 rfl
  | some x =>
    have hmove := hm.move
    rw [hl, hc] at hmove
    obtain rfl := hmove.checked
    exact h.not_stage rfl hl

theorem created_eq {l l' : Option Stage} {r r' : Registers} (h : Move l r l' r') (hl : l ≠ some .ready) :
    r'.created = r.created := by
  cases h <;> first | rfl | exact absurd rfl hl

/-- The thread still has no task. -/
theorem Gone.moved (h : Gone w.shared) (hm : Moved w p ok w' st st' a f f') (ha : Aside f) : Gone w'.shared := by
  have hcreated : w'.shared.created = w.shared.created := created_eq hm.move (ha.not_stage rfl)
  have hkilled : ∀ {g}, g ∈ w.shared.killed → g ∈ w'.shared.killed := fun hg => hm.move.killed hg
  refine ⟨?_, fun g hg => hkilled (h.killed g (hcreated ▸ hg))⟩
  rcases hm.move.handle fun g => ha.not_stage rfl with hh | hh
  · exact Eq.trans hh h.handle
  · exact hh

theorem event_of_stores {s : Shared} (h : f.stores s = some .terminating) :
    callEvent s f ok = some .terminating := by
  obtain ⟨tr, htr, -⟩ := Frame.stores_eq_some.1 h
  simp only [callEvent, htr]
  exact if_pos h

/-- It leaves `Terminated` alone, and `Uninitialized` unless it terminates the thread. -/
theorem Aside.threadState (h : Aside f) (hm : Moved w p ok w' st st' a f f') (hok : f.Ok a)
    (hu : ∀ t, f.pc ≠ .cleanUp t) :
    (w.shared.threadState = .terminated → w'.shared.threadState = .terminated) ∧
      (w.shared.threadState = .uninitialized → f.stores w.shared ≠ some .terminating →
        w'.shared.threadState = .uninitialized) := by
  rcases hm.frame.state_cases hok hu with hs | ⟨state, hstores, hs, hmakes, hvalid⟩
  · rw [hs]
    exact ⟨id, fun hs _ => hs⟩
  · have hreset : state ≠ .uninitialized := by
      rintro rfl
      exact (h _ hmakes).2.2 rfl
    refine ⟨fun ht => ?_, fun ht hn => ?_⟩
    · rw [ht] at hvalid
      rcases terminated_valid hvalid with rfl | rfl
      · exact absurd rfl hreset
      · exact hmakes.elim
    · rw [ht] at hvalid
      rw [hstores] at hn
      cases state with
      | initialized =>
        obtain ⟨g, hg⟩ := hmakes
        cases (h _ hg).1
      | terminating => exact absurd rfl hn
      | destroyed => exact hmakes.elim
      | _ => simp [isValidThreadStateTransition] at hvalid

/-! ## What a failing attempt has left -/

/-- The worker of a failed attempt is deleted, was not released, and left its record. -/
structure GaveUp (w : World) (log : List Event) (g : Gen) : Prop where
  killed : g ∈ w.shared.killed
  released : .released g ∉ log
  sent : .sent g ∈ log

theorem GaveUp.moved (h : GaveUp w log g) (hm : Moved w p ok w' st st' a f f') (hok : f.Ok a)
    (hrun : w.runnable p = true) : GaveUp w' (log ++ (callEvent w.shared f ok).toList) g := by
  refine ⟨hm.move.killed h.killed, fun hr => ?_, List.mem_append_left _ h.sent⟩
  rcases mem_append_toList hr with hr | he
  · exact h.released hr
  · -- A deleted worker takes no step.
    cases shows hm.frame hok he with
    | released _ hpc =>
      obtain rfl := hok.worker g _ hpc
      obtain rfl := hm.task
      have hk := h.killed
      simp [World.runnable, hk] at hrun

/-- What holds when `Initialize` is going to return the status of a failed attempt. -/
structure Outcome (w : World) (log : List Event) (st : Stage) (status : ThreadInitializationStatus) : Prop where
  gone : Gone w.shared
  tail : st.tail = true
  since : Since log fun l => (∃ g, Shown [g] [g] l ∧ GaveUp w log g ∧ w.shared.threadState = .terminated) ∨
    (Shown [] [] l ∧ w.shared.threadState = .uninitialized ∧ status = .taskCreationFailed)

theorem Aside.not_passedChecks (h : Aside f) (hm : Moved w p ok w' st st' a f f') (hok : f.Ok a) :
    callEvent w.shared f ok ≠ some .passedChecks := by
  intro he
  cases shows hm.frame hok he with
  | passedChecks _ hl' => exact h.not_checked hm hl'

theorem Aside.not_created (h : Aside f) (hm : Moved w p ok w' st st' a f f') (hok : f.Ok a) :
    callEvent w.shared f ok ≠ some (.created g) := by
  intro he
  generalize hs : w.shared = s at he
  cases shows (hs ▸ hm.frame) hok he with
  | created hl => exact h.not_stage rfl hl

theorem Outcome.moved (h : Outcome w log st status) (hst : AtStage w st) (hm : Moved w p ok w' st st' a f f')
    (hok : f.Ok a) (hu : ∀ t, f.pc ≠ .cleanUp t) (hrun : w.runnable p = true) (ha : Aside f)
    (hstores : w.shared.threadState = .uninitialized → status = .taskCreationFailed →
      f.stores w.shared ≠ some .terminating) :
    Outcome w' (log ++ (callEvent w.shared f ok).toList) st' status := by
  obtain ⟨hterminated, huninitialized⟩ := ha.threadState hm hok hu
  have hchecked : st' ≠ .checked := by
    rintro rfl
    have hpass := hm.passes
    have hne := ha.not_checked hm
    have htail := h.tail
    generalize f.pc.stage = l at hpass
    generalize stageAfter f' = l' at hpass hne
    cases hpass with
    | keep => cases htail
    | hold => exact hne rfl
    | check => exact hne rfl
  have hquiet : ∀ g, callEvent w.shared f ok ≠ some (.created g) ∧ callEvent w.shared f ok ≠ some (.sent g) := by
    refine fun g => ⟨ha.not_created hm hok, fun he => ?_⟩
    obtain ⟨⟨task, rfl⟩, -⟩ := sending_of_sent hst hm hok he
    cases h.tail
  refine ⟨h.gone.moved hm ha, hm.passes.tail hm.move h.tail hchecked, h.since.append (ha.not_passedChecks hm hok) ?_⟩
  rintro l (⟨g, hl, hgave, hs⟩ | ⟨hl, hs, rfl⟩)
  · exact .inl ⟨g, hl.append hquiet, hgave.moved hm hok hrun, hterminated hs⟩
  · exact .inr ⟨hl.append hquiet, huninitialized hs (hstores hs rfl), rfl⟩

/-- Where a call comes from that is going to return the status of a failed attempt. -/
theorem reporting_step (h : InitializeTo s p ok tr t s' tr' t') (hr : reporting t' = some status)
    (hf : failed status = true) : reporting t = some status ∨
      (tr = none ∧ ((∃ g, t = .send g status) ∨ (t = .create ∧ ok = false ∧ status = .taskCreationFailed) ∨
        (∃ g, t = .beginFinalization g status ∧ s.taskExitFinalizationStarted = true) ∨ t = .clearPending status)) := by
  cases h with
  | inTransition => exact .inl hr
  | transitionStart => exact .inl hr
  | transitionDone _ _ x _ stored threw hst hres =>
    cases InitializePc.resume_goto hres with
    -- The reset that is not made is no attempt.
    | unreset => cases hr; cases hf
    | _ => cases hr
  | exec _ _ _ hex =>
    cases execInitialize_goto hex with
    | send g status' => cases hr; exact .inr ⟨rfl, .inl ⟨g, rfl⟩⟩
    | createFailed hok => cases hr; exact .inr ⟨rfl, .inr (.inl ⟨rfl, hok, rfl⟩)⟩
    | finalized g status' hstarted => cases hr; exact .inr ⟨rfl, .inr (.inr (.inl ⟨g, rfl, hstarted⟩))⟩
    | clearPending status' => cases hr; exact .inr ⟨rfl, .inr (.inr (.inr rfl))⟩
    | _ =>
      first
      | exact .inl hr
      | (cases hr; cases hf)

theorem status_of_reporting (h : reporting t = some status) : t.status = some status ∧ t.stage = none := by
  cases t <;> cases h <;> exact ⟨rfl, rfl⟩

theorem aside_of_reporting (ht : f.pc.initializePc = some t) (h : reporting t = some status) : Aside f := by
  intro t' ht'
  obtain rfl := Option.some.inj (ht.symm.trans ht')
  refine ⟨(status_of_reporting h).2, fun he => ?_, fun he => ?_⟩
  all_goals
    rw [he] at h
    cases h

theorem aside_of_other (h : f.pc.initializePc = none) : Aside f := by
  intro t ht
  rw [ht] at h
  cases h

/-- A failed attempt has sent the record of its worker. -/
theorem outcome_of_send (h : AttemptInv w log st) (he : EndInv w) (hst : AtStage w st)
    (hm : Moved w p ok w' st st' a f f') (hok : f.Ok a) (ht : f.pc.initializePc = some (.send g status))
    (hsend : ok = true) : Outcome w' (log ++ (callEvent w.shared f ok).toList) st' status := by
  subst hsend
  have htr := hok.no_transition (Pc.transition_of_initializePc ht)
  have hs := hst.token.eq_of_holds (a := a) (y := .sending g none)
    (by simp [World.stages, hm.call, Pc.stage_of_initializePc ht]; rfl)
  subst hs
  have hfits := hst.fits.2.1
  have hterminated := he.final a f hm.call _ ht rfl
  obtain ⟨next, hex, -, -⟩ := exec_initializePc hm.frame hok ht rfl (by rintro _ ⟨⟩)
  have hqueued : st' = .queued g := by
    refine (sending_of_sent hst hm hok ?_).2
    rw [callEvent_initializePc htr ht]
    rfl
  rw [callEvent_initializePc htr ht]
  simp only [execInitialize, if_true, Option.some.injEq, Prod.mk.injEq] at hex
  have hgone : Gone w.shared := by
    refine ⟨hfits.handle, fun x hx => ?_⟩
    by_contra hk
    cases hfits.alive x hx hk
  have hg := (h.unsent g rfl).1
  refine ⟨⟨by rw [← hex.1]; exact hgone.handle, by rw [← hex.1]; exact hgone.killed⟩, by rw [hqueued]; rfl,
    (h.attempts g rfl).append (by rintro ⟨⟩) fun l hl => .inl ⟨g, hl.sent, ?_, ?_⟩⟩
  · refine ⟨by rw [← hex.1]; exact hgone.killed g hg, fun hr => ?_, List.mem_append_right _ (List.mem_singleton.2 rfl)⟩
    rcases mem_append_toList hr with hr | hr
    · exact h.unopened g rfl hr
    · cases hr
  · rw [← hex.1]
    exact hterminated

/-- `Create` has failed. -/
theorem outcome_of_create (h : AttemptInv w log st) (hst : AtStage w st) (hm : Moved w p false w' st st' a f f')
    (hok : f.Ok a) (ht : f.pc.initializePc = some .create) (hstate : w.shared.threadState = .uninitialized) :
    Outcome w' (log ++ (callEvent w.shared f false).toList) st' .taskCreationFailed := by
  have htr := hok.no_transition (Pc.transition_of_initializePc ht)
  have hs := hst.token.eq_of_holds (a := a) (y := .ready)
    (by simp [World.stages, hm.call, Pc.stage_of_initializePc ht]; rfl)
  subst hs
  have hfits := hst.fits.1
  obtain ⟨next, hex, hgoto, -⟩ := exec_initializePc hm.frame hok ht rfl (by rintro _ ⟨⟩)
  rw [callEvent_initializePc htr ht]
  simp only [execInitialize, Bool.false_eq_true, if_false, Option.some.injEq, Prod.mk.injEq] at hex
  obtain ⟨hshared, rfl⟩ := hex
  have hquiet : st' = .quiet := by
    obtain ⟨f₁, rfl, hf₁, -⟩ := hgoto _ rfl
    have hp := hm.passes
    rw [Pc.stage_of_initializePc ht, stageAfter_of_initializePc rfl hf₁] at hp
    cases hp
    rfl
  have hgone : Gone w.shared := by
    refine ⟨hfits.handle, fun x hx => ?_⟩
    by_contra hk
    cases hfits.alive x hx hk
  refine ⟨⟨by rw [← hshared]; exact hgone.handle, by rw [← hshared]; exact hgone.killed⟩, by rw [hquiet]; rfl,
    (h.prepares rfl).append (by rintro ⟨⟩) fun l hl => .inr ⟨?_, by rw [← hshared]; exact hstate, rfl⟩⟩
  simpa [initializeEvent] using hl

/-- Every call that is going to return a failure has cleaned up. -/
def Reports (w : World) (log : List Event) (st : Stage) : Prop :=
  ∀ a f, w.call a = some f → ∀ t, f.pc.initializePc = some t → ∀ status, reporting t = some status →
    failed status = true → Outcome w log st status

theorem Reports.moved (h : Reports w log st) (hi : AttemptInv w log st) (he : EndInv w) (hst : AtStage w st)
    (hone : AloneInInitialize w) (hu : Unmanaged w) (hm : Moved w p ok w' st st' a f f') (hok : f.Ok a)
    (hrun : w.runnable p = true) (ho : Orderly w (.step p ok)) :
    Reports w' (log ++ (callEvent w.shared f ok).toList) st' := by
  obtain ⟨hcalls, hstores⟩ := ho f hm.top
  have hclean := hu.calls a f hm.call
  have hnot : ∀ b f₁ t status, w.call b = some f₁ → f₁.pc.initializePc = some t → reporting t = some status →
      w.shared.threadState = .uninitialized → status = .taskCreationFailed →
      f.stores w.shared ≠ some .terminating := by
    rintro b f₁ t status hb ht hr hs rfl hst
    exact hstores hst hs b f₁ hb t ht (status_of_reporting hr).1
  rw [Reports, hm.calls]
  refine forall_call_update (fun f₁ hf t' ht' status hr hfail => ?_) fun b f₁ hne hb t ht status hr hfail => ?_
  · have hstep := hm.frame
    rw [hf] at hstep
    rcases hstep.initializePc ht' with rfl | ⟨t, ht, hto⟩
    · cases hr
    · rcases reporting_step hto hr hfail with hr | ⟨-, ⟨g, rfl⟩ | ⟨rfl, rfl, rfl⟩ | ⟨g, rfl, hstarted⟩ | rfl⟩
      · exact (h a f hm.call t ht status hr hfail).moved hst hm hok hclean hrun (aside_of_reporting ht hr)
          (hnot a f t status hm.call ht hr)
      · exact outcome_of_send hi he hst hm hok ht ((hcalls _ ht).1 g status rfl)
      · refine outcome_of_create hi hst hm hok ht (((hcalls _ ht).2.2 rfl).resolve_left nofun)
      -- The worker did not claim its exit, since its gate is closed.
      · have hs := hst.token.eq_of_holds (a := a) (y := .failed g)
          (by simp [World.stages, hm.call, Pc.stage_of_initializePc ht]; rfl)
        subst hs
        exact absurd (hst.fits.2.2.symm.trans hstarted) nofun
      · exact absurd ht (he.unrefused a f hm.call status)
  · have hother : f.pc.initializePc = none := by
      by_contra hi
      exact hne (hone b a f₁ f hb hm.call (by simp [ht]) hi)
    exact (h b f₁ hb t ht status hr hfail).moved hst hm hok hclean hrun (aside_of_other hother)
      (hnot b f₁ t status hb ht hr)

theorem Reports.pushed {request : Request} (h : Reports w log st) (hs : step w (.call p request) = some w') :
    Reports w' log st := by
  obtain ⟨hshared, -, b, -, -, hcall⟩ := call_update hs
  rw [Reports, hcall]
  refine forall_call_update (fun f hf t ht status hr _ => ?_) fun b f _ hb t ht status hr hfail => ?_
  · cases hf
    cases request <;> cases ht
    cases hr
  · obtain ⟨hgone, htail, l₀, l, hl, hn, hor⟩ := h b f hb t ht status hr hfail
    refine ⟨by rw [hshared]; exact hgone, htail, l₀, l, hl, hn, ?_⟩
    rw [hshared]
    exact hor.imp_left fun ⟨g, hg, hgave, hs⟩ => ⟨g, hg, ⟨by rw [hshared]; exact hgave.killed, hgave.released,
      hgave.sent⟩, hs⟩

end ESPressio.Attempts
