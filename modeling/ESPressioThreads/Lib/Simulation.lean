import ESPressioThreads.Lib.Transition
/-!
# Forward simulation

An abstract system follows a concrete one when it answers each concrete step by
any number of its own steps that together show the same. What the concrete
system shows in a run, the abstract one then shows in a run of its own.
-/

namespace Transition.System

variable {σ τ α β ε : Type*}

/-- `A` can go from `t` to `t'` and show `l` on the way. -/
def Shows (A : System τ β) (event : τ → β → Option ε) (t : τ) (l : List ε) (t' : τ) : Prop :=
  ∀ before, (A.logged event).Leads (fun _ _ => True) (t, before) (t', before ++ l)

/-- `R` relates the states of `S` to the states of `A` that stand for them, in
runs of `S` whose steps meet `C`. -/
structure Simulation (S : System σ α) (event : σ → α → Option ε) (C : σ → α → Prop) (A : System τ β)
    (shown : τ → β → Option ε) (R : σ → τ → Prop) : Prop where
  init : ∀ s, S.init s → ∃ t, A.init t ∧ R s t
  step : ∀ s t a s', R s t → C s a → S.step s a = some s' →
    ∃ t', A.Shows shown t (event s a).toList t' ∧ R s' t'

section
variable {S : System σ α} {event : σ → α → Option ε} {C : σ → α → Prop} {A : System τ β} {shown : τ → β → Option ε}
  {R : σ → τ → Prop} {t t' u : τ} {l l' : List ε}

/-- The abstract system may stay where it is. -/
theorem Shows.stay (t : τ) : A.Shows shown t [] t := by
  intro before
  rw [List.append_nil]
  exact Leads.refl _

theorem Shows.one {b : β} (h : A.step t b = some t') : A.Shows shown t (shown t b).toList t' :=
  fun _ => Leads.step trivial (logged_step.2 ⟨h, rfl⟩)

theorem Shows.trans (h : A.Shows shown t l t') (h' : A.Shows shown t' l' u) : A.Shows shown t (l ++ l') u := by
  intro before
  have := (h before).trans (h' (before ++ l))
  rwa [List.append_assoc] at this

/-- Each run has an abstract run with the same log. -/
theorem Simulation.reachable (h : Simulation S event C A shown R) {x : σ × List ε}
    (hx : (S.logged event).ReachableWhen (fun x a => C x.1 a) x) :
    ∃ t, (A.logged shown).Reachable (t, x.2) ∧ R x.1 t := by
  induction hx with
  | init hi =>
    obtain ⟨hs, hl⟩ := hi
    obtain ⟨t, ht, hR⟩ := h.init _ hs
    exact ⟨t, .init ⟨ht, hl⟩, hR⟩
  | step _ hc hst ih =>
    obtain ⟨t, ht, hR⟩ := ih
    obtain ⟨hs, hl⟩ := logged_step.1 hst
    obtain ⟨t', hshows, hR'⟩ := h.step _ t _ _ hR hc hs
    rw [hl]
    exact ⟨t', ht.leads (hshows _), hR'⟩

/-- A simulation by a function: each step of `S` is one of `A`, or is not seen
there at all. -/
theorem Simulation.of_map {f : σ → τ} (h0 : ∀ s, S.init s → A.init (f s))
    (hs : ∀ s a s', C s a → S.step s a = some s' →
      (event s a = none ∧ f s' = f s) ∨ ∃ b, A.step (f s) b = some (f s') ∧ shown (f s) b = event s a) :
    Simulation S event C A shown (fun s t => t = f s) where
  init s hi := ⟨f s, h0 s hi, rfl⟩
  step := by
    rintro s _ a s' rfl hc hst
    refine ⟨f s', ?_, rfl⟩
    rcases hs s a s' hc hst with ⟨he, hf⟩ | ⟨b, hb, he⟩
    · rw [he, hf]
      exact .stay _
    · rw [← he]
      exact .one hb

/-- Where `P` is lost for good once a step misses `C`, a run that ends with `P`
met `C` all along. -/
theorem ReachableWhen.of_end {P : σ → Prop} {s : σ} (h : S.Reachable s) (hP : P s)
    (hback : ∀ s a s', S.step s a = some s' → P s' → P s ∧ C s a) : S.ReachableWhen C s := by
  induction h with
  | init hi => exact .init hi
  | step _ _ hst ih =>
    obtain ⟨hP, hc⟩ := hback _ _ _ hst hP
    exact .step (ih hP) hc hst

end

end Transition.System
