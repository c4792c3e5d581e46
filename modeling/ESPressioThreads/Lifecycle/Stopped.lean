import ESPressioThreads.Lifecycle.States
/-!
# `Terminated` means stopped

A thread that is initialized while no call is armed is not `Terminated` before
its worker has left the loop.
-/

namespace ESPressio.Lifecycle

open Transition ESPressio.Thread

variable {w w' : World} {s s' : Shared} {p : TaskId} {ok : Bool} {f : Frame} {t t' : InitializePc}

/-! ## The invariant -/

/-- `Initialized`, `Running` or `Paused`. -/
def started : ThreadState → Bool
  | .initialized | .running | .paused => true
  | .uninitialized | .terminating | .terminated | .destroyed => false

/-- No call is armed. -/
def Unarmed (w : World) : Prop := ∀ a f, w.call a = some f → f.armed = false

/-- `Terminated` is out of reach of every call but the worker's last one. -/
structure Safe (w : World) : Prop where
  state : started w.shared.threadState = true ∨ w.shared.threadState = .terminating
  unarmed : Unarmed w

structure StopInv (w : World) (st : Stage) : Prop where
  exists_state : w.shared.threadState ≠ .destroyed
  before : ∀ a f, w.call a = some f → ∀ t, f.pc.initializePc = some t → t.before (unstored f.transition) = true →
    w.shared.threadState = .uninitialized ∨ w.shared.threadState = .terminating ∨ w.shared.threadState = .terminated
  after : ∀ a f, w.call a = some f → ∀ t, f.pc.initializePc = some t → t.after (unstored f.transition) = true →
    (w.shared.threadState = .terminating ∨ w.shared.threadState = .terminated) ∨ Safe w
  opens : ∀ a f, w.call a = some f → ∀ t, f.pc.initializePc = some t → t.opens = true → Safe w
  released : ∀ g, st = .gated g ∨ st = .looping g → Safe w

/-- `Initialize` makes its two stores while the checks that came before still
hold, and stores `Initialized` while no call is armed. -/
def InitializesAlone (w : World) : Action → Prop
  | .call _ _ => True
  | .step p ok => ChecksHold w (.step p ok) ∧ ∀ f, w.top p = some f →
      (f.pc.initializePc = some .recheckHandle → w.shared.taskHandle = none →
        started w.shared.threadState = false) ∧
      (f.stores w.shared = some .uninitialized → ∀ a g, w.call a = some g → g.pc.committed = false) ∧
      (f.stores w.shared = some .initialized → Unarmed w)

theorem valid_safe {s s' : ThreadState} (h : isValidThreadStateTransition s s' = true)
    (hs : started s = true ∨ s = .terminating) :
    (started s' = true ∨ s' = .terminating) ∨ s' = .terminated ∨ s' = .destroyed := by
  cases s' <;> cases s <;> simp_all [isValidThreadStateTransition, started]

theorem Safe.moved {st st' : Stage} {a : TaskId × Nat} {f' : Option Frame} (h : Safe w)
    (hm : Moved w p ok w' st st' a f f') (hok : f.Ok a) (hu : Unmanaged w) (hh : w.shared.taskHandle ≠ none)
    (hf : f.pc.Makes .terminated → f.pc.armed true = true) : Safe w' := by
  have hnot : f.armed = false := h.unarmed a f hm.call
  refine ⟨?_, ?_⟩
  · rcases hm.frame.state_cases hok (hu.calls a f hm.call) with hs | ⟨state, hstores, hs, hmakes, hvalid⟩
    · rw [hs]; exact h.state
    · rw [hs]
      rcases valid_safe hvalid h.state with hsafe | rfl | rfl
      · exact hsafe
      · obtain ⟨tr, htr, hpc, -⟩ := Frame.stores_eq_some.1 hstores
        have harmed : f.armed = true := by
          rw [Frame.armed, show unstored f.transition = true by simp [unstored, htr, hpc]]
          exact hf hmakes
        rw [hnot] at harmed
        cases harmed
      · exact hmakes.elim
  · rw [Unarmed, hm.calls]
    refine forall_call_update (fun g hg => ?_) fun b g _ hb => h.unarmed b g hb
    have hstep := hm.frame
    rw [hg] at hstep
    by_contra hne
    rcases hstep.armed (by simpa using hne) with ha | hs | hn
    · rw [hnot] at ha; cases ha
    · have hstate := h.state
      rw [hs] at hstate
      simp [started] at hstate
    · exact hh hn

theorem stage_before {u : Bool} (h : t.before u = true) : t.stage ≠ none := by
  cases t <;> first | exact Option.some_ne_none _ | cases h

theorem stage_after {u : Bool} (h : t.after u = true) : ∃ g, t.stage = some (.live g) := by
  cases t <;> first | exact ⟨_, rfl⟩ | cases h

theorem stage_opens (h : t.opens = true) : ∃ g, t.stage = some (.live g) := by
  cases t <;> first | exact ⟨_, rfl⟩ | cases h

/-- A call that has no generation in hand stores `Terminated` only when it is
armed, and does not store `Initialized`. -/
theorem Pc.makes_of_stage {pc : Pc} (h : pc.stage = none) :
    (pc.Makes .terminated → pc.armed true = true) ∧ ¬ pc.Makes .initialized := by
  have hno : ∀ t, pc.initializePc = some t → t.stage = none := fun t ht => by
    rw [← Pc.stage_of_initializePc ht, h]
  refine ⟨?_, ?_⟩
  · rintro (ha | ⟨g, rfl⟩ | ⟨g, hp⟩ | ⟨g, hp⟩ | ⟨g, hp⟩)
    · exact ha
    · cases h
    all_goals cases hno _ hp
  · rintro ⟨g, hp⟩
    cases hno _ hp

theorem AtStage.handle_of_live {st : Stage} (h : AtStage w st) {a : TaskId × Nat} {g : Gen} (hf : w.call a = some f)
    (hs : f.pc.stage = some (.live g)) : st = .live g ∧ w.shared.taskHandle = some g := by
  have he := h.token.eq_of_holds (a := a) (y := .live g) (by simp [World.stages, hf, hs])
  subst he
  exact ⟨rfl, h.fits.1.handle⟩

theorem valid_before {s s' : ThreadState} (h : isValidThreadStateTransition s s' = true)
    (hs : s = .uninitialized ∨ s = .terminating ∨ s = .terminated) :
    (s' = .uninitialized ∨ s' = .terminating ∨ s' = .terminated) ∨ s' = .initialized ∨ s' = .destroyed := by
  cases s' <;> cases s <;> simp_all [isValidThreadStateTransition]

theorem valid_after {s s' : ThreadState} (h : isValidThreadStateTransition s s' = true)
    (hs : s = .terminating ∨ s = .terminated) : s' = .terminated ∨ s' = .uninitialized ∨ s' = .destroyed := by
  cases s' <;> cases s <;> simp_all [isValidThreadStateTransition]

/-- Another call stepped while `Initialize` is before its store. -/
theorem StopInv.moved_before {st st' : Stage} {a : TaskId × Nat} {f' : Option Frame} (h : StopInv w st)
    (hst : AtStage w st) (hm : Moved w p ok w' st st' a f f') (hok : f.Ok a) (hu : Unmanaged w) {b : TaskId × Nat}
    {g : Frame} (hne : b ≠ a) (hg : w.call b = some g) (hi : g.pc.initializePc = some t)
    (hb : t.before (unstored g.transition) = true) :
    w'.shared.threadState = .uninitialized ∨ w'.shared.threadState = .terminating ∨
      w'.shared.threadState = .terminated := by
  have hold := h.before b g hg t hi hb
  have hnone : f.pc.stage = none :=
    hst.stage_none hm.call hg (by rw [Pc.stage_of_initializePc hi]; exact stage_before hb) hne
  rcases hm.frame.state_cases hok (hu.calls a f hm.call) with hs | ⟨state, -, hs, hmakes, hvalid⟩
  · rwa [hs]
  · rw [hs]
    rcases valid_before hvalid hold with hn | rfl | rfl
    · exact hn
    · exact absurd hmakes (Pc.makes_of_stage hnone).2
    · exact hmakes.elim

/-- `Initialize` on its way to the gate makes no transition to `Terminated`. -/
theorem Pc.makes_of_phase {pc : Pc} (hp : pc.initializePc = some t) (ht : (∃ u, t.after u = true) ∨ t.opens = true) :
    pc.Makes .terminated → pc.armed true = true := by
  have hno : ∀ t', pc.initializePc = some t' → (∃ u, t'.after u = true) ∨ t'.opens = true := fun t' ht' => by
    rw [hp] at ht'
    cases ht'
    exact ht
  rintro (ha | ⟨g, rfl⟩ | ⟨g, hp'⟩ | ⟨g, hp'⟩ | ⟨g, hp'⟩)
  · exact ha
  · cases hp
  all_goals
    rcases hno _ hp' with ⟨u, hu⟩ | hu <;> cases hu

theorem Pc.makes_of_looping {pc : Pc} {g : Gen} (h : pc.stage = some (.looping g)) :
    pc.Makes .terminated → pc.armed true = true := by
  have hno : ∀ t, pc.initializePc = some t → t.stage = some (.looping g) := fun t ht => by
    rw [← Pc.stage_of_initializePc ht, h]
  rintro (ha | ⟨g', rfl⟩ | ⟨g', hp⟩ | ⟨g', hp⟩ | ⟨g', hp⟩)
  · exact ha
  · cases h
  all_goals cases hno _ hp

theorem Frame.armed_of_initializePc (hp : f.pc.initializePc = some t) : f.armed = false := by
  unfold Frame.armed
  cases hpc : f.pc with
  | initializeThread | start => rfl
  | _ => rw [hpc] at hp; cases hp

/-- The call that opened the gate. -/
theorem FrameStep.giveGate {f' : Option Frame} {g : Gen} (h : FrameStep s p f ok s' f')
    (hok : ∀ tr, f.transition = some tr → f.pc.transition = some (tr.expected, tr.newState))
    (hs : f.pc.stage = some (.live g)) (hs' : stageAfter f' = none) : f.pc.initializePc = some (.giveGate g) := by
  cases h with
  | inTransition => exact absurd (hs.symm.trans hs') nofun
  | transitionStart => exact absurd (hs.symm.trans hs') nofun
  | transitionDone tr s' stored threw htr hst =>
    rw [stageAfter_next, resume_stage (by rw [hok tr htr]; exact Option.some_ne_none _), hs] at hs'
    cases hs'
  -- `Initialize` gives the stage away only by opening the gate.
  | exec s' next htr hpc hex =>
    rw [stageAfter_next] at hs'
    cases hx : f.pc with
    | initializeThread t =>
      rw [hx] at hex hs
      obtain ⟨⟨s₁, n⟩, hi, he⟩ := Option.map_eq_some_iff.1 hex
      cases he
      rw [Next.stage_inside] at hs'
      rw [execInitialize_gate hi hs hs']
      rfl
    | start t =>
      rw [hx] at hex hs
      obtain ⟨⟨s₁, n⟩, hi, he⟩ := Option.map_eq_some_iff.1 hex
      cases he
      rw [Next.stage_inside] at hs'
      unfold execStart at hi
      split at hi
      case h_3 =>
        obtain ⟨⟨s₂, m⟩, hi₂, he⟩ := Option.map_eq_some_iff.1 hi
        cases he
        rw [Next.stage_inside] at hs'
        rw [execInitialize_gate hi₂ hs hs']
        rfl
      all_goals cases hs
    | worker g' t => rw [hx] at hs; cases t <;> cases hs
    | dispatcher t => rw [hx] at hs; cases t <;> cases hs
    | _ => rw [hx] at hs; cases hs

section Step

variable {st st' : Stage} {a : TaskId × Nat} {f' : Option Frame}

theorem StopInv.before_moved (h : StopInv w st) (hst : AtStage w st) (hm : Moved w p ok w' st st' a f f')
    (hok : f.Ok a) (hu : Unmanaged w) (hc : InitializesAlone w (.step p ok)) :
    ∀ b g, w'.call b = some g → ∀ t, g.pc.initializePc = some t → t.before (unstored g.transition) = true →
      w'.shared.threadState = .uninitialized ∨ w'.shared.threadState = .terminating ∨
        w'.shared.threadState = .terminated := by
  rw [hm.calls]
  refine forall_call_update (fun g hg t' hi' hb => ?_) fun b g hne hg t hi hb =>
    h.moved_before hst hm hok hu hne hg hi hb
  have hstep := hm.frame
  rw [hg] at hstep
  rcases hstep.initializePc hi' with rfl | ⟨t, hi, hto⟩
  · cases hb
  · rcases hto.before hb with hbt | ⟨rfl, htr, hh⟩
    · have hold := h.before a f hm.call t hi hbt
      rcases hm.frame.state_cases hok (hu.calls a f hm.call) with hs | ⟨state, hstores, hs, hmakes, hvalid⟩
      · rwa [hs]
      · rw [hs]
        rcases valid_before hvalid hold with hn | rfl | rfl
        · exact hn
        · -- The store of `Initialized` ends this phase.
          obtain ⟨x, hx, hpc, -⟩ := Frame.stores_eq_some.1 hstores
          obtain ⟨g', hg'⟩ := hmakes
          rw [hx] at hto
          obtain ⟨rfl, hun⟩ := hto.stored hpc
          rw [hun] at hb
          rw [hi] at hg'
          cases hg'
          cases hb
        · exact hmakes.elim
    · have hnot := (hc.2 f hm.top).1 hi hh
      have hsame : w'.shared.threadState = w.shared.threadState := by
        rw [hm.frame.threadState (hu.calls a f hm.call), Frame.stores, htr]
        rfl
      have hex := h.exists_state
      rw [hsame]
      cases hs : w.shared.threadState <;> simp_all [started]

theorem StopInv.after_moved (h : StopInv w st) (hst : AtStage w st) (hm : Moved w p ok w' st st' a f f')
    (hok : f.Ok a) (hu : Unmanaged w) (hc : InitializesAlone w (.step p ok)) :
    ∀ b g, w'.call b = some g → ∀ t, g.pc.initializePc = some t → t.after (unstored g.transition) = true →
      (w'.shared.threadState = .terminating ∨ w'.shared.threadState = .terminated) ∨ Safe w' := by
  have hcases := hm.frame.state_cases hok (hu.calls a f hm.call)
  obtain ⟨-, hreset, hinit⟩ := hc.2 f hm.top
  have hne : ∀ {b g}, w.call b = some g → ∀ {t u}, g.pc.initializePc = some t → t.after u = true →
      w.shared.taskHandle ≠ none := by
    intro b g hg t u hi ha
    obtain ⟨g', hg'⟩ := stage_after ha
    rw [(hst.handle_of_live hg (by rw [Pc.stage_of_initializePc hi, hg'])).2]
    exact Option.some_ne_none _
  rw [hm.calls]
  refine forall_call_update (fun g hg t' hi' ha => ?_) fun b g hba hg t hi ha => ?_
  -- The call that moves is in the phase already, or enters it by the store of `Initialized`.
  · have hstep := hm.frame
    rw [hg] at hstep
    rcases hstep.initializePc hi' with rfl | ⟨t, hi, hto⟩
    · cases ha
    · rcases hto.after ha with hat | ⟨g', x, rfl, hx, hpc⟩
      · have hsame : w'.shared.threadState = w.shared.threadState := by
          rcases hcases with hs | ⟨state, hstores, -⟩
          · exact hs
          · obtain ⟨x, hx, hpc, -⟩ := Frame.stores_eq_some.1 hstores
            have htr := hok.transition x hx
            rw [Pc.transition_of_initializePc hi] at htr
            have hun : unstored f.transition = true := by simp [unstored, hx, hpc]
            rw [hun] at hat
            cases t
            case readAfterInitialized => cases htr
            all_goals cases hat
        rcases h.after a f hm.call t hi hat with hold | hsafe
        · exact .inl (by rwa [hsame])
        · exact .inr (hsafe.moved hm hok hu (hne hm.call hi hat) (Pc.makes_of_phase hi (.inl ⟨_, hat⟩)))
      · have htr := hok.transition x hx
        rw [Pc.transition_of_initializePc hi] at htr
        obtain ⟨he, hn⟩ := Prod.mk.inj (Option.some.inj htr)
        have hstate := hm.frame.threadState (hu.calls a f hm.call)
        by_cases hs : f.stores w.shared = some .initialized
        · refine .inr ⟨?_, ?_⟩
          · rw [hstate, hs]; exact .inl rfl
          · rw [Unarmed, hm.calls]
            refine forall_call_update (fun g₁ hg₁ => ?_) fun b g₁ _ hb => hinit hs b g₁ hb
            rw [hg] at hg₁
            cases hg₁
            exact Frame.armed_of_initializePc hi'
        · left
          have hnone : f.stores w.shared = none := by
            cases hs' : f.stores w.shared with
            | none => rfl
            | some state =>
              obtain ⟨y, hy, -, hst', -⟩ := Frame.stores_eq_some.1 hs'
              rw [hx] at hy
              cases hy
              rw [hs', ← hst', ← hn] at hs
              exact absurd rfl hs
          rw [hstate, hnone]
          have hun : unstored f.transition = true := by simp [unstored, hx, hpc]
          rcases h.before a f hm.call _ hi hun with hu' | hold
          · exact absurd (Frame.stores_eq_some.2 ⟨x, hx, hpc, hn.symm, .inl he.symm, by rw [hu']; rfl⟩) hs
          · exact hold
  · -- Another call stepped, which has no generation in hand.
    obtain ⟨g', hg'⟩ := stage_after ha
    have hnone : f.pc.stage = none :=
      hst.stage_none hm.call hg (by rw [Pc.stage_of_initializePc hi, hg']; exact Option.some_ne_none _) hba
    rcases h.after b g hg t hi ha with hold | hsafe
    · left
      rcases hcases with hs | ⟨state, hstores, hs, hmakes, hvalid⟩
      · rwa [hs]
      · rw [hs]
        rcases valid_after hvalid hold with rfl | rfl | rfl
        · exact .inr rfl
        · have hcommitted := hreset hstores b g hg
          rw [Pc.committed, hi, Option.bind_some, hg'] at hcommitted
          cases hcommitted
        · exact hmakes.elim
    · exact .inr (hsafe.moved hm hok hu (hne hg hi ha) (Pc.makes_of_stage hnone).1)

theorem StopInv.opens_moved (h : StopInv w st) (hst : AtStage w st) (hm : Moved w p ok w' st st' a f f')
    (hok : f.Ok a) (hu : Unmanaged w) :
    ∀ b g, w'.call b = some g → ∀ t, g.pc.initializePc = some t → t.opens = true → Safe w' := by
  have hne : ∀ {b g}, w.call b = some g → ∀ {t}, g.pc.initializePc = some t →
      (∃ g', t.stage = some (.live g')) → w.shared.taskHandle ≠ none := by
    rintro b g hg t hi ⟨g', hg'⟩
    rw [(hst.handle_of_live hg (by rw [Pc.stage_of_initializePc hi, hg'])).2]
    exact Option.some_ne_none _
  rw [hm.calls]
  refine forall_call_update (fun g hg t' hi' ho => ?_) fun b g hba hg t hi ho => ?_
  · have hstep := hm.frame
    rw [hg] at hstep
    rcases hstep.initializePc hi' with rfl | ⟨t, hi, hto⟩
    · cases ho
    · rcases hto.opens ho with hot | ⟨⟨g', rfl⟩, -, hterminating, hterminated⟩
      · exact (h.opens a f hm.call t hi hot).moved hm hok hu (hne hm.call hi (stage_opens hot))
          (Pc.makes_of_phase hi (.inr hot))
      · -- The state that `Initialize` read lets it go on.
        rcases h.after a f hm.call _ hi rfl with (hs | hs) | hsafe
        · exact absurd hs hterminating
        · exact absurd hs hterminated
        · exact hsafe.moved hm hok hu (hne hm.call hi ⟨g', rfl⟩) (Pc.makes_of_phase hi (.inl ⟨true, rfl⟩))
  · obtain ⟨g', hg'⟩ := stage_opens ho
    have hnone : f.pc.stage = none :=
      hst.stage_none hm.call hg (by rw [Pc.stage_of_initializePc hi, hg']; exact Option.some_ne_none _) hba
    exact (h.opens b g hg t hi ho).moved hm hok hu (hne hg hi ⟨g', hg'⟩) (Pc.makes_of_stage hnone).1

theorem StopInv.released_moved (h : StopInv w st) (hst : AtStage w st) (hm : Moved w p ok w' st st' a f f')
    (hok : f.Ok a) (hu : Unmanaged w) : ∀ g, st' = .gated g ∨ st' = .looping g → Safe w' := by
  have hne : ∀ g, st = .gated g ∨ st = .looping g → w.shared.taskHandle ≠ none := by
    rintro g (rfl | rfl)
    all_goals
      have hh : w.shared.taskHandle = some g := hst.fits.1.handle
      rw [hh]
      exact Option.some_ne_none _
  intro g hg
  have hpass := hm.passes
  have hmove := hm.move
  generalize hl : f.pc.stage = l at hpass hmove
  generalize hl' : stageAfter f' = l' at hpass hmove
  cases hpass with
  | keep => exact (h.released g hg).moved hm hok hu (hne g hg) (Pc.makes_of_stage hl).1
  | hold _ _ hr hr' =>
    rcases hg with rfl | rfl
    · cases hr'
    · obtain rfl := hmove.looping
      exact (h.released g (.inr rfl)).moved hm hok hu (hne g (.inr rfl)) (Pc.makes_of_looping hl)
  | giveGate g' =>
    have hi := hm.frame.giveGate hok.transition hl hl'
    have hh := (hst.handle_of_live hm.call hl).2
    exact (h.opens a f hm.call _ hi rfl).moved hm hok hu (by rw [hh]; exact Option.some_ne_none _)
      (Pc.makes_of_phase hi (.inr rfl))
  | enter g' =>
    exact (h.released g' (.inl rfl)).moved hm hok hu (hne g' (.inl rfl)) (Pc.makes_of_stage hl).1
  | check | createFailed | send | unsent | lost | receive | dispatched => rcases hg with hg | hg <;> cases hg

theorem StopInv.moved (h : StopInv w st) (hst : AtStage w st) (hm : Moved w p ok w' st st' a f f') (hok : f.Ok a)
    (hu : Unmanaged w) (hc : InitializesAlone w (.step p ok)) : StopInv w' st' where
  exists_state := hm.frame.not_destroyed hok (hu.calls a f hm.call) h.exists_state
  before := h.before_moved hst hm hok hu hc
  after := h.after_moved hst hm hok hu hc
  opens := h.opens_moved hst hm hok hu
  released := h.released_moved hst hm hok hu

end Step

/-! ## Runs -/

theorem StopInv.pushed {st : Stage} {request : Request} (h : StopInv w st)
    (hs : step w (.call p request) = some w') : StopInv w' st := by
  obtain ⟨hshared, -, a, -, -, hcall⟩ := call_update hs
  have hnew : ∀ {t}, (request.entry).initializePc = some t → t = .ensureRegistered := by
    intro t ht
    cases request <;> cases ht
    rfl
  have hsafe : Safe w → Safe w' := by
    intro hsafe
    refine ⟨by rw [hshared]; exact hsafe.state, ?_⟩
    rw [Unarmed, hcall]
    refine forall_call_update (fun g hg => ?_) fun b g _ hb => hsafe.unarmed b g hb
    cases hg
    cases request <;> rfl
  refine ⟨by rw [hshared]; exact h.exists_state, ?_, ?_, ?_, fun g hg => hsafe (h.released g hg)⟩
  · rw [hcall, hshared]
    refine forall_call_update (fun g hg t ht hb => ?_) fun b g _ hb => h.before b g hb
    cases hg
    rw [hnew ht] at hb
    cases hb
  · rw [hcall, hshared]
    refine forall_call_update (fun g hg t ht hb => ?_) fun b g _ hb t ht ha => (h.after b g hb t ht ha).imp_right hsafe
    cases hg
    rw [hnew ht] at hb
    cases hb
  · rw [hcall]
    refine forall_call_update (fun g hg t ht hb => ?_) fun b g _ hb t ht ho => hsafe (h.opens b g hb t ht ho)
    cases hg
    rw [hnew ht] at hb
    cases hb

theorem stopInv_start (s : Shared) (hs : s.threadState = .uninitialized) : StopInv (.start s) .quiet := by
  have hnone : ∀ a f, (World.start s).call a = some f → f.pc.initializePc = none := by
    intro a f hf
    rcases start_call hf with ⟨g, -, rfl⟩ | ⟨-, rfl⟩ <;> rfl
  refine ⟨?_, fun a f hf t ht => ?_, fun a f hf t ht => ?_, fun a f hf t ht => ?_, fun g hg => ?_⟩
  · exact fun h => absurd (hs.symm.trans h) nofun
  · rw [hnone a f hf] at ht; cases ht
  · rw [hnone a f hf] at ht; cases ht
  · rw [hnone a f hf] at ht; cases ht
  · rcases hg with hg | hg <;> cases hg

/-- The worker has passed its gate and has not left `_loop`. -/
def Pc.inLoop : Pc → Bool
  | .worker _ .loop | .worker _ .onLoop => true
  | _ => false

/-- The thread is not `Terminated` while its worker is in `_loop`. -/
def TerminatedStopped (w : World) : Prop :=
  ∀ a f, w.call a = some f → f.pc.inLoop = true → w.shared.threadState ≠ .terminated

/-- `Terminated` means stopped, while `Initialize` runs alone. -/
theorem terminated_stopped (w : World) (h : (system false).ReachableWhen InitializesAlone w) :
    TerminatedStopped w := by
  have hinv : ∃ st, AtStage w st ∧ StopInv w st := by
    refine h.invariant_with (I := fun w => ∃ st, AtStage w st ∧ StopInv w st) (J := fun w => CallsOk w ∧ Unmanaged w)
      (fun _ hr => ⟨callsOk_reachable hr, unmanaged_reachable hr⟩) (fun w hw => ?_) ?_
    · obtain ⟨free, start, precision, rfl⟩ := hw
      exact ⟨.quiet, atStage_start _ ⟨rfl, rfl, rfl, rfl, fun g hg => absurd hg (Nat.not_lt_zero g)⟩,
        stopInv_start _ rfl⟩
    · rintro w a w' ⟨hok, hu⟩ - ⟨st, hst, hstop⟩ hc hs
      cases a with
      | call p request => exact ⟨st, hst.pushed hs, hstop.pushed hs⟩
      | step p ok =>
        obtain ⟨st', a, f, f', hm, hst'⟩ := hst.moved hok hu hc.1 hs
        exact ⟨st', hst', hstop.moved hst hm (hok a f hm.call) hu hc⟩
  obtain ⟨st, hst, hstop⟩ := hinv
  intro a f hf hl hs
  have hstage : ∃ g, f.pc.stage = some (.looping g) := by
    cases hpc : f.pc with
    | worker g t =>
      rw [hpc] at hl
      cases t <;> first | exact ⟨g, rfl⟩ | cases hl
    | _ => rw [hpc] at hl; cases hl
  obtain ⟨g, hg⟩ := hstage
  have he := hst.token.eq_of_holds (a := a) (y := .looping g) (by simp [World.stages, hf, hg])
  have hsafe := (hstop.released g (.inr he.symm)).state
  rw [hs] at hsafe
  rcases hsafe with hsafe | hsafe <;> cases hsafe

/-! ## A `Terminate` that read `Uninitialized` -/

/-- `InitializesAlone` of the tasks that run. -/
def InitializesAloneOn (w : World) (a : Action) : Prop :=
  a.task ∈ [TaskId.app 0, .worker 0] ∧ ∀ f ∈ w.top a.task,
    (f.pc.initializePc = some .recheckHandle → w.shared.terminationDispatchPending = false ∧
      w.callsOn [.app 0, .worker 0] (fun f => !f.pc.committed) = true ∧ started w.shared.threadState = false) ∧
    (f.stores w.shared = some .uninitialized → w.callsOn [.app 0, .worker 0] (fun f => !f.pc.committed) = true) ∧
    (f.stores w.shared = some .initialized → w.callsOn [.app 0, .worker 0] (fun f => !f.armed) = true)

instance (w : World) (a : Action) : Decidable (InitializesAloneOn w a) := by
  unfold InitializesAloneOn
  exact inferInstance

theorem initializesAlone_of_on {a : Action} (hi : w.IdleBut [.app 0, .worker 0]) (h : InitializesAloneOn w a) :
    InitializesAlone w a := by
  cases a with
  | call => trivial
  | step p ok =>
    have hcommitted : w.callsOn [.app 0, .worker 0] (fun f => !f.pc.committed) = true →
        ∀ a g, w.call a = some g → g.pc.committed = false := fun hon a g hg => by
      have := hi.forall_call (P := fun f => !f.pc.committed) (by rintro f (⟨g, rfl⟩ | rfl) <;> rfl) hon a g hg
      simpa using this
    have harmed : w.callsOn [.app 0, .worker 0] (fun f => !f.armed) = true → Unarmed w := fun hon a g hg => by
      have := hi.forall_call (P := fun f => !f.armed) (by rintro f (⟨g, rfl⟩ | rfl) <;> rfl) hon a g hg
      simpa using this
    refine ⟨fun f htop hpc _ => ?_, fun f htop => ?_⟩
    · obtain ⟨hp, hon, -⟩ := (h.2 f htop).1 hpc
      exact ⟨hp, hcommitted hon⟩
    · obtain ⟨hrecheck, hreset, hinit⟩ := h.2 f htop
      exact ⟨fun hpc _ => (hrecheck hpc).2.2, fun hs => hcommitted (hreset hs), fun hs => harmed (hinit hs)⟩

/-- The worker runs `OnLoop`. -/
theorem running_not_terminated : ∃ w, (system false).ReachableWhen InitializesAlone w ∧
    (∃ f, w.call (.worker 0, 0) = some f ∧ f.pc = .worker 0 .onLoop) ∧ TerminatedStopped w := by
  have hrun : ((system false).replayWhen InitializesAloneOn (newThread false false)
      (initialized ++ steps (.worker 0) 2)).map (fun w => w.call (.worker 0, 0)) =
      some (some ⟨.worker 0 .onLoop, none, false⟩) := by
    decide +kernel
  obtain ⟨w, hs, hp⟩ := Option.map_eq_some_iff.1 hrun
  have hl := (Transition.System.leads_of_replayWhen hs).mono_with (idleBut_start _ _)
    (fun _ _ _ hi hd hst => hi.step hd.1 hst) fun _ _ hi hd => initializesAlone_of_on hi hd
  have hr := (Transition.System.ReachableWhen.init (newThread_init false false)).leads hl
  exact ⟨w, hr, ⟨_, hp, rfl⟩, terminated_stopped w hr⟩

/-- `Terminate` of task 1 reads `Uninitialized`; task 0 then initializes the
thread, and `Terminate` stores `Terminated` while the worker runs `OnLoop`. -/
theorem terminated_in_loop : ¬ ∀ w, (system false).Reachable w → TerminatedStopped w := by
  intro hall
  have hrun : ((system false).replay (newThread false false)
      ([.call (.app 1) .terminate] ++ steps (.app 1) 1 ++ initialized ++ steps (.worker 0) 2 ++
        steps (.app 1) 10)).map (fun w => (w.shared.threadState, w.call (.worker 0, 0))) =
      some (.terminated, some ⟨.worker 0 .onLoop, none, false⟩) := by
    decide +kernel
  obtain ⟨w, hs, hp⟩ := Option.map_eq_some_iff.1 hrun
  simp only [Prod.mk.injEq] at hp
  exact hall w (Transition.System.reachable_of_replay (newThread_init false false) hs) _ _ hp.2 rfl hp.1

end ESPressio.Lifecycle
