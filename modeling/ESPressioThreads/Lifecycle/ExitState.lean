import ESPressioThreads.Lifecycle.ExitLog
/-!
# The state during an exit

A worker that has left its loop finds the thread `Terminating` or `Terminated`
once it has asked for it, and makes it `Terminated` before it sends its record.
From then on no transition stores anything, and no callback runs in one.
-/

namespace ESPressio.Lifecycle

open Transition ESPressio.Thread

variable {w w' : World} {s s' : Shared} {p : TaskId} {ok : Bool} {f : Frame} {g : Gen} {st st' : Stage}
  {a : TaskId × Nat} {f' : Option Frame} {log : List Event}

/-- `Terminate` of a worker has left the thread `Terminating` or `Terminated`. -/
def TerminatePc.settled (unstored : Bool) : TerminatePc → Bool
  | .readState => false
  | .fromUninitialized | .request => !unstored
  | .setTerminated | .signalScheduler => true

/-- The worker has found or left the thread `Terminating` or `Terminated`. -/
def WorkerPc.settled (unstored : Bool) : WorkerPc → Bool
  | .terminate pc => pc.settled unstored
  | .beginFinalization | .setTerminated | .storePending | .send => true
  | _ => false

/-- The worker has made its last transition. -/
def WorkerPc.final (unstored : Bool) : WorkerPc → Bool
  | .setTerminated => !unstored
  | .storePending | .send => true
  | _ => false

/-- The worker of a stage has left only its record. -/
def Stage.recorded : Stage → Option Gen
  | .queued g | .dispatching g | .deleting g _ | .delivering g | .signalled g => some g
  | _ => none

/-- Ending: `Terminating`, `Terminated` or `Destroyed`. -/
def ending : ThreadState → Bool
  | .terminating | .terminated | .destroyed => true
  | _ => false

theorem ending_cases {state : ThreadState} (h : ending state = true) (hd : state ≠ .destroyed) :
    state = .terminating ∨ state = .terminated := by
  cases state <;> simp_all [ending]

/-! ## Steps of a worker -/

theorem unstored_false {tr : StateTransition} (h : unstored (some tr) = false) : tr.pc ≠ .lock ∧ tr.pc ≠ .check := by
  simpa [unstored] using h

/-- A transition goes past its store at its check only. -/
theorem stepTransition_check {tr tr' : StateTransition} (h : stepTransition s p tr ok = some (s', .goto tr'))
    (hu : unstored (some tr) = true) (hu' : unstored (some tr') = false) :
    tr.pc = .check ∧ s'.threadState = (if (tr.expected = none ∨ tr.expected = some s.threadState) ∧
      isValidThreadStateTransition s.threadState tr.newState then tr.newState else s.threadState) := by
  obtain ⟨hl, hc⟩ := unstored_false hu'
  unfold stepTransition at h
  split at h <;> rename_i hpc
  · split at h <;> cases h
    exact absurd rfl hc
  · refine ⟨hpc, ?_⟩
    split at h <;> rename_i hcond
    · cases h; rw [if_pos hcond]
    · cases h; rw [if_neg hcond]
  all_goals simp [unstored, hpc] at hu

theorem not_valid_terminating {state : ThreadState} (h : isValidThreadStateTransition state .terminating = false) :
    ending state = true := by
  cases state <;> simp_all [isValidThreadStateTransition, ending]

theorem stepTransition_unstored_eq {tr tr' : StateTransition} (h : stepTransition s p tr ok = some (s', .goto tr')) :
    unstored (some tr') = unstored (some tr) ∨ (unstored (some tr) = true ∧ unstored (some tr') = false) := by
  cases hu' : unstored (some tr') with
  | true =>
    left
    have hl := stepTransition_unstored h (by simpa [unstored] using hu')
    simp [unstored, hl]
  | false =>
    cases hu : unstored (some tr) with
    | true => exact .inr ⟨rfl, rfl⟩
    | false => exact .inl rfl

theorem execTerminate_settled {t : TerminatePc} (ht : t.transition = none)
    (hn : ∀ t', execTerminate s t = .goto t' → t'.settled true = true) :
    ending s.threadState = true ∨ t.settled true = true := by
  cases t with
  | readState =>
    left
    cases hs : s.threadState <;> simp only [execTerminate, hs] at hn <;>
      first | rfl | exact absurd (hn _ rfl) (by rintro ⟨⟩)
  | signalScheduler => exact .inr rfl
  | _ => cases ht

theorem execWorker_settled {t t' : WorkerPc} (h : execWorker s g t ok = some (s', .goto t')) (ht : t.transition = none)
    (hs : t'.settled true = true) : t.settled true = true ∨ ending s'.threadState = true := by
  cases t <;> simp only [execWorker] at h
  case loop =>
    simp only [Option.some.injEq, Prod.mk.injEq] at h
    obtain ⟨rfl, h⟩ := h
    right
    cases hst : s.threadState <;> rw [hst] at h <;> cases h <;> first | rfl | cases hs
  case terminate u =>
    simp only [Option.some.injEq, Prod.mk.injEq] at h
    obtain ⟨rfl, h⟩ := h
    refine (execTerminate_settled ht fun u' hu => ?_).symm
    rw [hu] at h
    cases h
    exact hs
  case beginFinalization | storePending | send => exact .inl rfl
  case waitGate => split at h <;> cases h; cases hs
  case onLoop => cases h; split at hs <;> cases hs
  all_goals cases h <;> cases hs

/-- A step of a worker, as far as its program counter and whether its
transition has stored tell. -/
inductive WorkerGoto (s : Shared) (p : TaskId) (g : Gen) (s' : Shared) (t : WorkerPc) : Bool → WorkerPc → Bool → Prop
  | same (u : Bool) : WorkerGoto s p g s' t u t u
  | stores (expected : Option ThreadState) (newState : ThreadState) :
      t.transition = some (expected, newState) →
      s'.threadState = (if (expected = none ∨ expected = some s.threadState) ∧
        isValidThreadStateTransition s.threadState newState then newState else s.threadState) →
      WorkerGoto s p g s' t true t false
  | resume (t' : WorkerPc) (threw : Bool) : t.transition ≠ none → t.resume s' threw = .goto t' →
      WorkerGoto s p g s' t false t' true
  | exec (t' : WorkerPc) (ok : Bool) : t.transition = none → execWorker s g t ok = some (s', .goto t') →
      WorkerGoto s p g s' t true t' true

theorem FrameStep.workerGoto {t t' : WorkerPc} {f' : Frame} (h : FrameStep s p f ok s' (some f')) (hok : f.Ok a)
    (hf : f.pc = .worker g t) (hf' : f'.pc = .worker g t') :
    WorkerGoto s p g s' t (unstored f.transition) t' (unstored f'.transition) := by
  have hsame : f'.pc = f.pc → t = t' := by
    intro he
    rw [he, hf] at hf'
    cases hf'
    rfl
  have htransition : ∀ tr, f.transition = some tr → t.transition = some (tr.expected, tr.newState) := by
    intro tr htr
    have hok := hok.transition tr htr
    rwa [hf] at hok
  cases h.goto with
  | inTransition tr tr' s' htr hst =>
    obtain rfl := hsame rfl
    rw [htr]
    rcases stepTransition_unstored_eq hst with he | ⟨hu, hu'⟩
    · rw [he]
      exact .same _
    · rw [hu, hu']
      exact .stores tr.expected tr.newState (htransition tr htr) (stepTransition_check hst hu hu').2
  | transitionStart expected newState htr hpc =>
    obtain rfl := hsame rfl
    rw [htr]
    exact .same true
  | transitionDone tr s' stored threw pc htr hst hn =>
    have hu : unstored (some tr) = false := by simp [unstored, stepTransition_unlock hst]
    rw [htr, hu]
    rw [hf] at hn
    cases resume_goto hn with
    | worker _ _ t₁ ht =>
      cases hf'
      exact .resume t' threw (by rw [htransition tr htr]; exact Option.some_ne_none _) ht
  | exec s' pc htr hpc hex =>
    rw [htr]
    rw [hf] at hex hpc
    cases exec_goto hex with
    | worker _ _ t₁ ht =>
      cases hf'
      exact .exec t' ok hpc ht

theorem FrameStep.settled {t t' : WorkerPc} {f' : Frame} (h : FrameStep s p f ok s' (some f')) (hok : f.Ok a)
    (hf : f.pc = .worker g t) (hf' : f'.pc = .worker g t') (hs : t'.settled (unstored f'.transition) = true) :
    t.settled (unstored f.transition) = true ∨ ending s'.threadState = true := by
  have hgoto := h.workerGoto hok hf hf'
  generalize unstored f.transition = u at hgoto ⊢
  generalize unstored f'.transition = u' at hgoto hs
  cases hgoto with
  | same => exact .inl hs
  | stores expected newState htransition hstate =>
    cases t with
    | terminate pc =>
      -- The transition is to `Terminating`, and is not made if the thread is ending.
      have hstore : (expected, newState) = (none, .terminating) → ending s'.threadState = true := by
        rintro ⟨rfl, rfl⟩
        rw [hstate]
        split
        · rfl
        · rename_i hvalid
          exact not_valid_terminating (by simpa using hvalid)
      cases pc with
      | fromUninitialized | request => exact .inr (hstore (Option.some.inj htransition).symm)
      | setTerminated | signalScheduler => exact .inl rfl
      | readState => cases hs
    | beginFinalization | setTerminated | storePending | send => exact .inl rfl
    | _ => cases hs
  | resume t' threw htransition hr =>
    left
    cases t with
    | terminate pc => cases pc <;> first | rfl | exact absurd rfl htransition
    | setTerminated => rfl
    | _ => exact absurd rfl htransition
  | exec t' ok htransition ht => exact execWorker_settled ht htransition hs

theorem execWorker_final {t t' : WorkerPc} (h : execWorker s g t ok = some (s', .goto t'))
    (hs : t'.final true = true) : t.final true = true := by
  cases t <;> simp only [execWorker] at h
  case storePending | send => rfl
  case setTerminated => cases h
  case loop =>
    simp only [Option.some.injEq, Prod.mk.injEq] at h
    obtain ⟨-, h⟩ := h
    split at h <;> cases h <;> cases hs
  case terminate u =>
    simp only [Option.some.injEq, Prod.mk.injEq] at h
    obtain ⟨-, h⟩ := h
    cases hn : execTerminate s u <;> rw [hn] at h <;> cases h <;> cases hs
  case onLoop => cases h; split at hs <;> cases hs
  case waitGate | beginFinalization => split at h <;> cases h <;> cases hs
  all_goals cases h <;> cases hs

/-- The worker makes the thread `Terminated` by its last transition. -/
theorem FrameStep.final {t t' : WorkerPc} {f' : Frame} (h : FrameStep s p f ok s' (some f')) (hok : f.Ok a)
    (hf : f.pc = .worker g t) (hf' : f'.pc = .worker g t') (hs : t'.final (unstored f'.transition) = true) :
    t.final (unstored f.transition) = true ∨ (t = .setTerminated ∧
      s'.threadState = if s.threadState = .terminating then .terminated else s.threadState) := by
  have hgoto := h.workerGoto hok hf hf'
  generalize unstored f.transition = u at hgoto ⊢
  generalize unstored f'.transition = u' at hgoto hs
  cases hgoto with
  | same => exact .inl hs
  | stores expected newState htransition hstate =>
    cases t with
    | setTerminated =>
      cases htransition
      refine .inr ⟨rfl, ?_⟩
      rw [hstate]
      by_cases hterminating : s.threadState = .terminating
      · simp [hterminating, isValidThreadStateTransition]
      · have hne : ¬ ThreadState.terminating = s.threadState := fun h => hterminating h.symm
        simp [hterminating, hne]
    | storePending | send => exact .inl rfl
    | _ => cases hs
  | resume t' threw htransition hr =>
    left
    cases t with
    | terminate u =>
      simp only [WorkerPc.resume] at hr
      cases hu : u.resume s' threw <;> rw [hu] at hr <;> cases hr <;> cases hs
    | setTerminated => rfl
    | _ => exact absurd rfl htransition
  | exec t' ok _ ht => exact .inl (execWorker_final ht hs)

theorem execWorker_past {t t' : WorkerPc} (h : execWorker s g t ok = some (s', .goto t'))
    (ht : t' = .storePending ∨ t' = .send) : t = .storePending := by
  have hnot : ∀ {x : WorkerPc}, x ≠ .storePending → x ≠ .send → t' ≠ x := by
    rintro x hx hx' rfl
    exact ht.elim hx hx'
  cases t <;> simp only [execWorker] at h
  case storePending => rfl
  case loop =>
    simp only [Option.some.injEq, Prod.mk.injEq] at h
    obtain ⟨-, h⟩ := h
    split at h <;> cases h <;> exact absurd rfl (hnot (by rintro ⟨⟩) (by rintro ⟨⟩))
  case terminate u =>
    simp only [Option.some.injEq, Prod.mk.injEq] at h
    obtain ⟨y, -, rfl⟩ | ⟨_, -, hr⟩ := Next.inside_goto h.2
    · exact absurd rfl (hnot (by rintro ⟨⟩) (by rintro ⟨⟩))
    · cases hr; exact absurd rfl (hnot (by rintro ⟨⟩) (by rintro ⟨⟩))
  case onLoop =>
    cases h
    split at hnot <;> exact absurd rfl (hnot (by rintro ⟨⟩) (by rintro ⟨⟩))
  case waitGate | beginFinalization | send =>
    split at h <;> cases h <;> exact absurd rfl (hnot (by rintro ⟨⟩) (by rintro ⟨⟩))
  case onExecutionFailed | notifyExecutionFailed | clearPending =>
    cases h
    exact absurd rfl (hnot (by rintro ⟨⟩) (by rintro ⟨⟩))
  all_goals cases h

/-- The worker comes out of its last transition. -/
theorem FrameStep.to_past {f₁ : Frame} (h : FrameStep s p f ok s' (some f₁)) (hok : f.Ok a)
    (hf : f₁.pc = .worker g .storePending ∨ f₁.pc = .worker g .send) :
    (f.pc = .worker g .storePending ∨ f.pc = .worker g .send) ∨
      (f.pc = .worker g .setTerminated ∧ ∃ tr, f.transition = some tr ∧ tr.pc = .unlock ∧ f₁.transition = none) := by
  cases h.goto with
  | inTransition => exact .inl hf
  | transitionStart => exact .inl hf
  | transitionDone tr s' stored threw pc htr hst hn =>
    right
    -- The worker comes out of the transition to `Terminated`.
    have htransition := hok.transition tr htr
    generalize f.pc = x at hn htransition
    cases resume_goto hn with
    | worker g' t t' ht =>
      cases t with
      | setTerminated =>
        cases ht
        rcases hf with hf | hf <;> cases hf
        exact ⟨rfl, tr, htr, stepTransition_unlock hst, rfl⟩
      | terminate u =>
        obtain ⟨y, -, rfl⟩ | ⟨_, -, hr⟩ := Next.inside_goto ht
        · rcases hf with hf | hf <;> cases hf
        · cases hr
          rcases hf with hf | hf <;> cases hf
      | _ => cases htransition
    | terminate | initializeThread | start | shutdown | cleanUp => rcases hf with hf | hf <;> cases hf
  | exec s' pc htr hpc hex =>
    left
    generalize f.pc = x at hex hpc
    cases exec_goto hex with
    | worker g' t t' ht =>
      have ht' : t' = .storePending ∨ t' = .send := by
        rcases hf with hf | hf <;> cases hf
        · exact .inl rfl
        · exact .inr rfl
      obtain rfl := execWorker_past ht ht'
      rcases hf with hf | hf <;> cases hf <;> exact .inl rfl
    | setFreeOnTerminate | terminate | initializeThread | start | shutdown | dispatcher | cleanUp =>
      rcases hf with hf | hf <;> cases hf

/-! ## Steps of all calls -/

/-- No call is between the store of a transition and its end. -/
def Calm (w : World) : Prop :=
  ∀ a f, w.call a = some f → ∀ tr, f.transition = some tr → tr.pc = .lock ∨ tr.pc = .check ∨ tr.pc = .unlock

/-- While a generation is there, the thread does not leave `Terminated`, and
`Terminating` only for it. -/
theorem ChecksInv.state_moved (h : ChecksInv w st) (hm : Moved w p ok w' st st' a f f') (hok : f.Ok a)
    (hu : Unmanaged w) (hne : st ≠ .quiet) :
    (w.shared.threadState = .terminated → w'.shared.threadState = .terminated) ∧
      (w.shared.threadState = .terminating ∨ w.shared.threadState = .terminated →
        w'.shared.threadState = .terminating ∨ w'.shared.threadState = .terminated) := by
  rcases hm.frame.state_cases hok (hu.calls a f hm.call) with hs | ⟨state, -, hs, hmakes, hvalid⟩
  · rw [hs]
    exact ⟨id, id⟩
  · -- `Uninitialized` is stored by `Initialize` after its first checks, `Destroyed` by cleanup.
    have hreset : state ≠ .uninitialized := by
      rintro rfl
      exact hne (h.quiet a f hm.call _ hmakes rfl)
    have hdestroyed : state ≠ .destroyed := by
      rintro rfl
      exact hmakes
    have hterminated : w.shared.threadState ≠ .terminated := by
      intro ht
      rw [ht] at hvalid
      rcases terminated_valid hvalid with rfl | rfl
      · exact hreset rfl
      · exact hdestroyed rfl
    refine ⟨fun ht => absurd ht hterminated, ?_⟩
    rintro (ht | ht)
    · rw [ht] at hvalid
      rw [hs]
      revert hvalid hdestroyed
      cases state <;> simp [isValidThreadStateTransition]
    · exact absurd ht hterminated

theorem WorkerPc.stage_of_settled {t : WorkerPc} {u : Bool} (h : t.settled u = true) : t.stage g ≠ none := by
  cases t <;> first | exact Option.some_ne_none _ | cases h

theorem WorkerPc.settled_of_final {t : WorkerPc} {u : Bool} (h : t.final u = true) : t.settled u = true := by
  cases t <;> first | rfl | cases h

theorem AtStage.ne_quiet (h : AtStage w st) (hf : w.call a = some f) (hs : f.pc.stage ≠ none) : st ≠ .quiet := by
  rintro rfl
  refine hs ?_
  simpa [World.stages, hf] using h.token.none_of_rest rfl a

/-- Nothing but `lock`, `check` and `unlock` follows on `lock` and `check`
where no store is made. -/
theorem Calm.moved (h : Calm w) (hm : Moved w p ok w' st st' a f f') (hs : w.shared.threadState = .terminated)
    (hs' : w'.shared.threadState = .terminated) : Calm w' := by
  rw [Calm, hm.calls]
  refine forall_call_update (fun f₁ hf tr htr => ?_) fun b f₁ _ hb => h b f₁ hb
  have hstep := hm.frame
  rw [hf] at hstep
  generalize w'.shared = s' at hstep hs'
  cases hstep.goto with
  | inTransition x x' s' hx hst =>
    cases htr
    unfold stepTransition at hst
    rcases h a f hm.call x hx with hpc | hpc | hpc <;> simp only [hpc] at hst
    · split at hst <;> cases hst
      exact .inr (.inl rfl)
    · split at hst <;> cases hst
      · rename_i hvalid
        dsimp only at hs'
        rw [hs, hs'] at hvalid
        exact absurd hvalid.2 (by decide)
      · exact .inr (.inr rfl)
    · cases hst
  | transitionStart expected newState hx hpc =>
    cases htr
    exact .inl rfl
  | transitionDone | exec => cases htr

end ESPressio.Lifecycle
