import ESPressioThreads.Lib.Transition
/-!
# Runs that cannot be told apart

Two states of a system are compared by what a schedule shows when it is run
from each of them: its events, and a view of the state it ends in. States that
a bisimulation relates show the same for every schedule.
-/

namespace Transition.System

variable {σ α ε β : Type*}

/-- What the schedule shows from `s`; `none` when it cannot run there. -/
def observe (S : System σ α) (event : σ → α → Option ε) (view : σ → β) (s : σ) (as : List α) :
    Option (List ε × β) :=
  ((S.logged event).replay (s, []) as).map fun x => (x.2, view x.1)

/-- No schedule shows a difference between `s` and `t`. -/
def Indistinguishable (S : System σ α) (event : σ → α → Option ε) (view : σ → β) (s t : σ) : Prop :=
  ∀ as, S.observe event view s as = S.observe event view t as

/-- Related states do the same actions, with the same events, and end in related
states that look the same. -/
structure Bisimulation (S : System σ α) (event : σ → α → Option ε) (view : σ → β) (R : σ → σ → Prop) : Prop where
  symm : ∀ s t, R s t → R t s
  step : ∀ s t a s', R s t → S.step s a = some s' →
    event s a = event t a ∧ ∃ t', S.step t a = some t' ∧ R s' t'
  view : ∀ s t, R s t → view s = view t

variable {S : System σ α} {event : σ → α → Option ε} {view : σ → β} {R : σ → σ → Prop}

theorem Bisimulation.replay (h : Bisimulation S event view R) {as : List α} {l : List ε} {s t : σ} {x : σ × List ε}
    (hR : R s t) (hs : (S.logged event).replay (s, l) as = some x) :
    ∃ t', (S.logged event).replay (t, l) as = some (t', x.2) ∧ R x.1 t' := by
  induction as generalizing s t l with
  | nil =>
    cases hs
    exact ⟨t, rfl, hR⟩
  | cons a as ih =>
    obtain ⟨⟨s', l'⟩, hstep, hrest⟩ := Option.bind_eq_some_iff.1 hs
    obtain ⟨hst, hl⟩ := logged_step.1 hstep
    obtain ⟨hevent, t', ht, hR'⟩ := h.step s t a s' hR hst
    obtain ⟨t'', hreplay, hR''⟩ := ih hR' hrest
    have hstep' : (S.logged event).step (t, l) a = some (t', l') := logged_step.2 ⟨ht, by rw [hl, hevent]⟩
    exact ⟨t'', Option.bind_eq_some_iff.2 ⟨_, hstep', hreplay⟩, hR''⟩

theorem Bisimulation.observe_some (h : Bisimulation S event view R) {s t : σ} (hR : R s t) {as : List α}
    {o : List ε × β} (ho : S.observe event view s as = some o) : S.observe event view t as = some o := by
  obtain ⟨x, hs, rfl⟩ := Option.map_eq_some_iff.1 ho
  obtain ⟨t', ht, hR'⟩ := h.replay hR hs
  exact Option.map_eq_some_iff.2 ⟨_, ht, by rw [h.view _ _ hR']⟩

/-- Related states are indistinguishable. -/
theorem Bisimulation.indistinguishable (h : Bisimulation S event view R) {s t : σ} (hR : R s t) :
    S.Indistinguishable event view s t := by
  intro as
  cases hs : S.observe event view s as with
  | some o => exact (h.observe_some hR hs).symm
  | none =>
    cases ht : S.observe event view t as with
    | some o => rw [h.observe_some (h.symm _ _ hR) ht] at hs; cases hs
    | none => rfl

theorem Indistinguishable.refl (s : σ) : S.Indistinguishable event view s s := fun _ => rfl

theorem Indistinguishable.same_view {s t : σ} (h : S.Indistinguishable event view s t) : view s = view t := by
  have := h []
  simpa [observe, System.replay] using this

end Transition.System
