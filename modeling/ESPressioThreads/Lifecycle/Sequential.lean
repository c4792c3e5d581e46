import ESPressioThreads.Lifecycle.Generations
/-!
# One initializer at a time

While no call of `Initialize` or `Start` begins before the last one returned,
what `Initialize` found in its first checks still holds under the
configuration lock: the current generation is gone, and stays gone.
-/

namespace ESPressio.Lifecycle

open Transition ESPressio.Thread

variable {w w' : World} {s s' : Shared} {p : TaskId} {ok : Bool}

/-- A call of `Initialize` or `Start`. -/
def Pc.initializes : Pc → Bool
  | .initializeThread _ | .start _ => true
  | _ => false

/-- No call of `Initialize` or `Start` begins while another one is in progress. -/
def NeverOverlap (w : World) : Action → Prop
  | .call _ request => request.entry.initializes = true → ∀ a f, w.call a = some f → f.pc.initializes = false
  | .step _ _ => True

/-- At most one call of `Initialize` or `Start` is in progress. -/
def OneInitializer (w : World) : Prop :=
  ∀ a b f g, w.call a = some f → w.call b = some g → f.pc.initializes = true → g.pc.initializes = true → a = b

theorem FrameStep.initializes {f f' : Frame} (h : FrameStep s p f ok s' (some f')) :
    f'.pc.initializes = f.pc.initializes := by
  cases h.goto with
  | inTransition => rfl
  | transitionStart => rfl
  | transitionDone tr s' stored threw pc htr hst hn =>
    generalize f.pc = x at hn
    cases resume_goto hn <;> rfl
  | exec s' pc htr hpc hex =>
    generalize f.pc = x at hex
    cases exec_goto hex <;> rfl

theorem OneInitializer.step {a : Action} (h : OneInitializer w) (hc : NeverOverlap w a)
    (hs : step w a = some w') : OneInitializer w' := by
  cases a with
  | call p request =>
    obtain ⟨-, -, c, -, hnone, hcall⟩ := call_update hs
    intro a b f g hf hg hfi hgi
    rw [hcall, Function.update_apply] at hf hg
    split at hf <;> split at hg
    · rename_i ha hb
      rw [ha, hb]
    · cases hf
      rw [hc hfi b g hg] at hgi
      cases hgi
    · cases hg
      rw [hc hgi a f hf] at hfi
      cases hfi
    · exact h a b f g hf hg hfi hgi
  | step p ok =>
    obtain ⟨-, c, f₀, f₁, -, -, hf₀, hstep, hcall⟩ := step_update hs
    -- The call that stepped was one of them before if it is one now.
    have hold : ∀ b g, w'.call b = some g → g.pc.initializes = true →
        ∃ g', w.call b = some g' ∧ g'.pc.initializes = true := by
      rw [hcall]
      refine forall_call_update (fun g hg hi => ⟨f₀, hf₀, ?_⟩) fun b g _ hb hi => ⟨g, hb, hi⟩
      rw [hg] at hstep
      rwa [← hstep.initializes]
    intro a b f g hf hg hfi hgi
    obtain ⟨f', hf', hfi'⟩ := hold a f hf hfi
    obtain ⟨g', hg', hgi'⟩ := hold b g hg hgi
    exact h a b f' g' hf' hg' hfi' hgi'

theorem oneInitializer_start (s : Shared) : OneInitializer (.start s) := by
  intro a b f g hf hg hfi
  rcases start_call hf with ⟨n, -, rfl⟩ | ⟨-, rfl⟩ <;> cases hfi

theorem Pc.initializes_of_initializePc {pc : Pc} {t : InitializePc} (h : pc.initializePc = some t) :
    pc.initializes = true := by
  cases pc <;> first | rfl | cases h

/-- No call enters `Initialize`, by itself or from `Start`, while another one is in it. -/
def EntersAlone (w : World) : Action → Prop
  | .call _ request => request.entry.initializePc ≠ none → ∀ a f, w.call a = some f → f.pc.initializePc = none
  | .step p _ => ∀ f, w.top p = some f → StartsInitialize w.shared f →
      ∀ a f₁, w.call a = some f₁ → f₁.pc.initializePc = none

/-- At most one call is in `Initialize`. -/
def AloneInInitialize (w : World) : Prop :=
  ∀ a b f g, w.call a = some f → w.call b = some g → f.pc.initializePc ≠ none → g.pc.initializePc ≠ none → a = b

theorem Pc.initializes_of_initializePc_ne {pc : Pc} (h : pc.initializePc ≠ none) : pc.initializes = true := by
  obtain ⟨t, ht⟩ := Option.ne_none_iff_exists'.1 h
  exact Pc.initializes_of_initializePc ht

theorem OneInitializer.alone (h : OneInitializer w) : AloneInInitialize w :=
  fun a b f g hf hg hfi hgi =>
    h a b f g hf hg (Pc.initializes_of_initializePc_ne hfi) (Pc.initializes_of_initializePc_ne hgi)

theorem AloneInInitialize.eq {a b : TaskId × Nat} {f g : Frame} {t t' : InitializePc} (h : AloneInInitialize w)
    (hf : w.call a = some f) (hg : w.call b = some g) (ht : f.pc.initializePc = some t)
    (ht' : g.pc.initializePc = some t') : a = b :=
  h a b f g hf hg (by simp [ht]) (by simp [ht'])

theorem AloneInInitialize.step {a : Action} (h : AloneInInitialize w) (hc : EntersAlone w a)
    (hs : step w a = some w') : AloneInInitialize w' := by
  cases a with
  | call p request =>
    obtain ⟨-, -, c, -, -, hcall⟩ := call_update hs
    intro a b f g hf hg hfi hgi
    rw [hcall, Function.update_apply] at hf hg
    split at hf <;> split at hg
    · rename_i ha hb
      rw [ha, hb]
    · cases hf
      exact absurd (hc hfi b g hg) hgi
    · cases hg
      exact absurd (hc hgi a f hf) hfi
    · exact h a b f g hf hg hfi hgi
  | step p ok =>
    obtain ⟨-, c, f₀, f₁, -, htop, hf₀, hstep, hcall⟩ := step_update hs
    -- The call that stepped was in `Initialize`, or it enters alone.
    have hself : ∀ f, f₁ = some f → f.pc.initializePc ≠ none →
        f₀.pc.initializePc ≠ none ∨ ∀ b g, w.call b = some g → g.pc.initializePc = none := by
      rintro f rfl hf
      obtain ⟨t, ht⟩ := Option.ne_none_iff_exists'.1 hf
      rcases hstep.initialize_cases ht with ⟨-, hstart⟩ | ⟨t₀, ht₀, -⟩
      · exact .inr (hc f₀ htop hstart)
      · exact .inl (by simp [ht₀])
    intro a b f g hf hg hfi hgi
    rw [hcall, Function.update_apply] at hf hg
    split at hf <;> split at hg
    · rename_i ha hb
      rw [ha, hb]
    · rename_i ha hb
      rcases hself f hf hfi with hi | hno
      · exact absurd (h b c g f₀ hg hf₀ hgi hi) hb
      · exact absurd (hno b g hg) hgi
    · rename_i ha hb
      rcases hself g hg hgi with hi | hno
      · exact absurd (h a c f f₀ hf hf₀ hfi hi) ha
      · exact absurd (hno a f hf) hfi
    · exact h a b f g hf hg hfi hgi

theorem Pc.initializePc_of_committed {pc : Pc} (h : pc.committed = true) : ∃ t, pc.initializePc = some t := by
  obtain ⟨st, hst⟩ := Option.isSome_iff_exists.1 h
  obtain ⟨t, ht, -⟩ := Option.bind_eq_some_iff.1 hst
  exact ⟨t, ht⟩

/-! ## The first checks -/

/-- `Initialize` has found no task and no pending record, and has not come to
the check under the configuration lock. -/
def InitializePc.foundQuiet : InitializePc → Bool
  | .ensureDispatcher | .readState | .reset | .lockConfiguration | .recheckHandle => true
  | _ => false

theorem stage_foundQuiet {t : InitializePc} (h : t.foundQuiet = true) : t.stage = none := by
  cases t <;> first | rfl | cases h

section Steps

variable {tr tr' : Option StateTransition} {t t' : InitializePc}

theorem InitializeTo.loadPending (h : InitializeTo s p ok tr t s' tr' .loadPending) :
    t = .loadPending ∨ (t = .loadHandle ∧ s.taskHandle = none) := by
  generalize hx : InitializePc.loadPending = x at h
  cases h with
  | inTransition => exact .inl rfl
  | transitionStart => exact .inl rfl
  | transitionDone _ _ tr s' stored threw hst hr =>
    subst hx
    cases InitializePc.resume_goto hr
  | exec _ _ s' hex =>
    subst hx
    cases execInitialize_goto hex with
    | loadHandle hh => exact .inr ⟨rfl, hh⟩

theorem InitializeTo.foundQuiet (h : InitializeTo s p ok tr t s' tr' t') (hq : t'.foundQuiet = true) :
    t.foundQuiet = true ∨ (t = .loadPending ∧ s.terminationDispatchPending = false) := by
  cases h with
  | inTransition => exact .inl hq
  | transitionStart => exact .inl hq
  | transitionDone _ _ tr s' stored threw hst hr =>
    cases InitializePc.resume_goto hr
    case reset => exact .inl rfl
    all_goals cases hq
  | exec _ _ s' hex =>
    cases execInitialize_goto hex with
    -- The flag is read once, before the dispatcher is made available.
    | loadPending hp => exact .inr ⟨rfl, hp⟩
    | _ =>
      first
      | exact .inl rfl
      | cases hq

end Steps

/-! ## Runs -/

/-- What `Initialize` found holds until it takes the configuration lock. -/
structure ChecksInv (w : World) (st : Stage) : Prop where
  noTask : ∀ a f, w.call a = some f → f.pc.initializePc = some .loadPending → st.tail = true
  quiet : ∀ a f, w.call a = some f → ∀ t, f.pc.initializePc = some t → t.foundQuiet = true → st = .quiet

/-- The checks of `Initialize` hold under the configuration lock. -/
theorem ChecksInv.checksHold {st : Stage} (h : ChecksInv w st) (hst : AtStage w st) (a : Action) :
    ChecksHold w a := by
  cases a with
  | call => trivial
  | step p ok =>
    intro f htop hpc _
    obtain ⟨n, -, hf⟩ := World.call_of_top htop
    obtain rfl := h.quiet _ f hf _ hpc rfl
    refine ⟨hst.fits.pending, fun b g hg => ?_⟩
    have hnone : g.pc.stage = none := by
      simpa [World.stages, hg] using hst.token.none_of_rest rfl b
    by_contra hne
    obtain ⟨x, hx⟩ := Option.isSome_iff_exists.1 (by simpa using hne : g.pc.committed = true)
    obtain ⟨t, ht, hstage⟩ := Option.bind_eq_some_iff.1 hx
    rw [Pc.stage_of_initializePc ht, hstage] at hnone
    cases hnone

theorem Passes.eq_of_none {st st' : Stage} (h : Passes none st none st') : st' = st := by
  cases h
  rfl

/-- Nothing but `Initialize` takes a thread out of `quiet`. -/
theorem Passes.quiet {l l' : Option Stage} {st' : Stage} (h : Passes l .quiet l' st') (hne : l' ≠ some .checked) :
    st' = .quiet := by
  cases h with
  | keep => rfl
  | hold _ _ hr => cases hr
  | check => exact absurd rfl hne

theorem ChecksInv.moved {st st' : Stage} {a : TaskId × Nat} {f : Frame} {f' : Option Frame} (h : ChecksInv w st)
    (hst : AtStage w st) (ho : AloneInInitialize w) (hm : Moved w p ok w' st st' a f f') : ChecksInv w' st' := by
  -- A call that does not initialize leaves what `Initialize` found.
  have hother : ∀ b g t, b ≠ a → w.call b = some g → g.pc.initializePc = some t →
      stageAfter f' ≠ some .checked := by
    intro b g t hne hb ht hch
    cases f' with
    | none => cases hch
    | some f₁ =>
      obtain ⟨t', ht', hstage⟩ := Pc.initializePc_of_checked (show f₁.pc.stage = some .checked from hch)
      rcases hm.frame.initializePc ht' with rfl | ⟨t₀, ht₀, -⟩
      · cases hstage
      · exact hne (ho.eq hb hm.call ht ht₀)
  refine ⟨?_, ?_⟩
  · rw [hm.calls]
    refine forall_call_update (fun g hg ht => ?_) fun b g hne hb ht => ?_
    · have hstep := hm.frame
      rw [hg] at hstep
      rcases hstep.initializePc ht with ht' | ⟨t, hi, hto⟩
      · cases ht'
      · have hn' : stageAfter f' = none := by rw [hg]; exact Pc.stage_of_initializePc ht
        have hpass := hm.passes
        have hstage := Pc.stage_of_initializePc hi
        rcases hto.loadPending with rfl | ⟨rfl, hh⟩
        · rw [hstage, hn'] at hpass
          rw [Passes.eq_of_none hpass]
          exact h.noTask a f hm.call hi
        · rw [hstage, hn'] at hpass
          rw [Passes.eq_of_none hpass]
          refine hst.tail_of hh fun b g hb => ?_
          by_contra hne
          have hc : g.pc.committed = true := by simpa using hne
          obtain ⟨t', ht'⟩ := Pc.initializePc_of_committed hc
          obtain rfl := ho.eq hb hm.call ht' hi
          rw [hm.call] at hb
          cases hb
          rw [Pc.committed, hi] at hc
          cases hc
    · refine hm.passes.tail hm.move (h.noTask b g hb ht) fun hch => ?_
      subst hch
      have hne' := hother b g _ hne hb ht
      have hpass := hm.passes
      generalize hl : f.pc.stage = l at hpass
      generalize stageAfter f' = l' at hpass hne'
      cases hpass with
      | keep => exact absurd (h.noTask b g hb ht) nofun
      | hold => exact hne' rfl
      | check => exact hne' rfl
  · rw [hm.calls]
    refine forall_call_update (fun g hg t' ht' hq => ?_) fun b g hne hb t ht hq => ?_
    · have hstep := hm.frame
      rw [hg] at hstep
      rcases hstep.initializePc ht' with rfl | ⟨t, hi, hto⟩
      · cases hq
      · have hn' : stageAfter f' = none := by
          rw [hg]
          exact (Pc.stage_of_initializePc ht').trans (stage_foundQuiet hq)
        have hpass := hm.passes
        have hstage := Pc.stage_of_initializePc hi
        rcases hto.foundQuiet hq with hq' | ⟨rfl, hp⟩
        · rw [hstage, stage_foundQuiet hq', hn'] at hpass
          rw [Passes.eq_of_none hpass]
          exact h.quiet a f hm.call t hi hq'
        · rw [hstage, hn'] at hpass
          rw [Passes.eq_of_none hpass]
          exact hst.fits.quiet_of_pending hp (h.noTask a f hm.call hi)
    · have hpass := hm.passes
      rw [h.quiet b g hb t ht hq] at hpass
      exact hpass.quiet (hother b g t hne hb ht)

theorem ChecksInv.pushed {st : Stage} {request : Request} (h : ChecksInv w st)
    (hs : step w (.call p request) = some w') : ChecksInv w' st := by
  obtain ⟨-, -, a, -, -, hcall⟩ := call_update hs
  refine ⟨?_, ?_⟩
  · rw [hcall]
    refine forall_call_update (fun g hg ht => ?_) fun b g _ hb => h.noTask b g hb
    cases hg
    cases request <;> cases ht
  · rw [hcall]
    refine forall_call_update (fun g hg t ht hq => ?_) fun b g _ hb => h.quiet b g hb
    cases hg
    cases request <;> cases ht
    cases hq

theorem checksInv_start (s : Shared) : ChecksInv (.start s) .quiet := by
  refine ⟨fun a f hf ht => ?_, fun _ _ _ _ _ _ => rfl⟩
  rcases start_call hf with ⟨g, -, rfl⟩ | ⟨-, rfl⟩ <;> cases ht

end ESPressio.Lifecycle
