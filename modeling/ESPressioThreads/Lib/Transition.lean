import Mathlib.Logic.Relation
/-!
# Transition systems

A model is a guarded, executable step function: `step s a` is the state after
the action `a`, or `none` where `a` cannot happen in `s`. The same definition
replays a concrete schedule and gives the induction principle for every run.

Runs come with a condition on their steps. `ReachableWhen C` are the states of
runs all of whose steps meet `C`, judged on the state before the step, and
`Reachable` is the case without a condition. `logged` adds a log of events to
the state.
-/

namespace Transition

/-- Initial states and a guarded step function. -/
structure System (σ α : Type*) where
  init : σ → Prop
  step : σ → α → Option σ

namespace System
variable {σ α : Type*} (S : System σ α)

/-- States reached by runs all of whose steps meet `C`. -/
inductive ReachableWhen (C : σ → α → Prop) : σ → Prop
  | init {s : σ} : S.init s → ReachableWhen C s
  | step {s s' : σ} {a : α} : ReachableWhen C s → C s a → S.step s a = some s' → ReachableWhen C s'

/-- States reached by any run. -/
abbrev Reachable : σ → Prop := S.ReachableWhen fun _ _ => True

/-- `s'` is reached from `s` by steps that meet `C`. -/
def Leads (C : σ → α → Prop) : σ → σ → Prop :=
  Relation.ReflTransGen fun s s' => ∃ a, C s a ∧ S.step s a = some s'

/-- Runs a schedule; `none` when one of its actions cannot happen. -/
def replay (s : σ) : List α → Option σ
  | [] => some s
  | a :: as => (S.step s a).bind fun s' => replay s' as

variable {S} {C D : σ → α → Prop} {s s' : σ}

/-! ## Invariants -/

/-- What holds at first and is kept by every step that meets `C` holds in
every state of such runs. -/
theorem ReachableWhen.invariant {I : σ → Prop} (h : S.ReachableWhen C s) (h0 : ∀ s, S.init s → I s)
    (hs : ∀ s a s', I s → C s a → S.step s a = some s' → I s') : I s := by
  induction h with
  | init hi => exact h0 _ hi
  | step _ hc hst ih => exact hs _ _ _ ih hc hst

/-- The step may also use facts known of all states of such runs. -/
theorem ReachableWhen.invariant_with {I J : σ → Prop} (hJ : ∀ s, S.ReachableWhen C s → J s)
    (h : S.ReachableWhen C s) (h0 : ∀ s, S.init s → I s)
    (hs : ∀ s a s', J s → J s' → I s → C s a → S.step s a = some s' → I s') : I s := by
  induction h with
  | init hi => exact h0 _ hi
  | step hr hc hst ih => exact hs _ _ _ (hJ _ hr) (hJ _ (.step hr hc hst)) ih hc hst

theorem ReachableWhen.mono (hCD : ∀ s a, C s a → D s a) (h : S.ReachableWhen C s) : S.ReachableWhen D s := by
  induction h with
  | init hi => exact .init hi
  | step _ hc hst ih => exact .step ih (hCD _ _ hc) hst

/-- A condition that follows in every state of the run. -/
theorem ReachableWhen.strengthen (hD : ∀ s a s', S.ReachableWhen C s → C s a → S.step s a = some s' → D s a)
    (h : S.ReachableWhen C s) : S.ReachableWhen D s := by
  induction h with
  | init hi => exact .init hi
  | step hr hc hst ih => exact .step ih (hD _ _ _ hr hc hst) hst

theorem ReachableWhen.reachable (h : S.ReachableWhen C s) : S.Reachable s :=
  h.mono fun _ _ _ => trivial

/-! ## Continuations -/

theorem Leads.refl (s : σ) : S.Leads C s s := Relation.ReflTransGen.refl

theorem Leads.trans {t : σ} (h : S.Leads C s t) (h' : S.Leads C t s') : S.Leads C s s' :=
  Relation.ReflTransGen.trans h h'

theorem Leads.step {a : α} (hc : C s a) (h : S.step s a = some s') : S.Leads C s s' :=
  Relation.ReflTransGen.single ⟨a, hc, h⟩

theorem ReachableWhen.leads (h : S.ReachableWhen C s) (hl : S.Leads C s s') : S.ReachableWhen C s' := by
  induction hl with
  | refl => exact h
  | tail _ hst ih => obtain ⟨a, hc, ha⟩ := hst; exact .step ih hc ha

/-- What every step from a state with `I` keeps holds in every continuation. -/
theorem Leads.invariant {I : σ → Prop} (hl : S.Leads C s s') (h : I s)
    (hs : ∀ s a s', I s → C s a → S.step s a = some s' → I s') : I s' := by
  induction hl with
  | refl => exact h
  | tail _ hst ih => obtain ⟨a, hc, ha⟩ := hst; exact hs _ _ _ ih hc ha

/-- Steps that meet `D` meet `C` where an invariant of `D`'s steps holds. -/
theorem Leads.mono_with {I : σ → Prop} (hl : S.Leads D s s') (h : I s)
    (hs : ∀ s a s', I s → D s a → S.step s a = some s' → I s') (hC : ∀ s a, I s → D s a → C s a) :
    S.Leads C s s' := by
  have hboth : I s' ∧ S.Leads C s s' := by
    induction hl with
    | refl => exact ⟨h, .refl _⟩
    | tail _ hst ih =>
      obtain ⟨a, hd, ha⟩ := hst
      exact ⟨hs _ _ _ ih.1 hd ha, ih.2.trans (.step (hC _ _ ih.1 hd) ha)⟩
  exact hboth.2

section Map
variable {τ β : Type*} {A : System τ β} {B : τ → β → Prop} {f : σ → τ} {I : σ → Prop}

/-- A run of `S` seen through `f`, where each step is one of `A` that meets `B`,
or is not seen. -/
theorem Leads.map (hl : S.Leads C s s') (h : I s)
    (hs : ∀ s a s', I s → C s a → S.step s a = some s' →
      I s' ∧ (f s' = f s ∨ ∃ b, B (f s) b ∧ A.step (f s) b = some (f s'))) : I s' ∧ A.Leads B (f s) (f s') := by
  induction hl with
  | refl => exact ⟨h, .refl _⟩
  | tail _ hst ih =>
    obtain ⟨a, hc, ha⟩ := hst
    obtain ⟨hI, hleads⟩ := ih
    obtain ⟨hI', he | ⟨b, hb, hstep⟩⟩ := hs _ _ _ hI hc ha
    · exact ⟨hI', by rwa [he]⟩
    · exact ⟨hI', hleads.trans (.step hb hstep)⟩

theorem ReachableWhen.map (h : S.ReachableWhen C s) (h0 : ∀ s, S.init s → A.init (f s) ∧ I s)
    (hs : ∀ s a s', I s → C s a → S.step s a = some s' →
      I s' ∧ (f s' = f s ∨ ∃ b, B (f s) b ∧ A.step (f s) b = some (f s'))) : A.ReachableWhen B (f s) ∧ I s := by
  induction h with
  | init hi => exact ⟨.init (h0 _ hi).1, (h0 _ hi).2⟩
  | step _ hc hst ih =>
    obtain ⟨hr, hI⟩ := ih
    obtain ⟨hI', he | ⟨b, hb, hstep⟩⟩ := hs _ _ _ hI hc hst
    · exact ⟨by rwa [he], hI'⟩
    · exact ⟨.step hr hb hstep, hI'⟩

end Map

/-- `S` with a log: `event s a` is what happens when `a` is done in `s`. -/
def logged {ε : Type*} (S : System σ α) (event : σ → α → Option ε) : System (σ × List ε) α where
  init x := S.init x.1 ∧ x.2 = []
  step x a := (S.step x.1 a).map fun s' => (s', x.2 ++ (event x.1 a).toList)

section Logged
variable {ε : Type*} {event : σ → α → Option ε} {x y : σ × List ε}

theorem logged_step {a : α} : (S.logged event).step x a = some y ↔
    S.step x.1 a = some y.1 ∧ y.2 = x.2 ++ (event x.1 a).toList := by
  obtain ⟨s', l⟩ := y
  simp only [logged, Option.map_eq_some_iff, Prod.mk.injEq]
  constructor
  · rintro ⟨t, ht, rfl, rfl⟩
    exact ⟨ht, rfl⟩
  · rintro ⟨ht, rfl⟩
    exact ⟨s', ht, rfl, rfl⟩

/-- A run with a log is a run. -/
theorem reachable_of_logged (h : (S.logged event).Reachable x) : S.Reachable x.1 := by
  refine h.invariant (I := fun x => S.Reachable x.1) (fun x hx => .init hx.1) fun x a y hr _ hs => ?_
  exact .step hr trivial (logged_step.1 hs).1

theorem mem_append {l : List ε} {e : Option ε} {x : ε} (h : x ∈ l ++ e.toList) : x ∈ l ∨ e = some x := by
  simpa using h

/-- Where an event of a log that has grown stands. -/
theorem split_append {l l₁ l₂ : List ε} {e : Option ε} {x : ε} (h : l ++ e.toList = l₁ ++ x :: l₂) :
    (∃ l₃, l = l₁ ++ x :: l₃ ∧ l₂ = l₃ ++ e.toList) ∨ (e = some x ∧ l₁ = l ∧ l₂ = []) := by
  cases e with
  | none =>
    left
    exact ⟨l₂, by simpa using h, by simp⟩
  | some y =>
    rcases List.eq_nil_or_concat l₂ with rfl | ⟨l₃, z, rfl⟩
    · right
      obtain ⟨rfl, hx⟩ := List.append_inj' h rfl
      cases hx
      exact ⟨rfl, rfl, rfl⟩
    · left
      have h' : l ++ [y] = (l₁ ++ x :: l₃) ++ [z] := by simpa using h
      obtain ⟨rfl, hx⟩ := List.append_inj' h' rfl
      cases hx
      exact ⟨l₃, rfl, by simp⟩

end Logged

/-! ## Schedules -/

theorem leads_of_replay {as : List α} (h : S.replay s as = some s') : S.Leads (fun _ _ => True) s s' := by
  induction as generalizing s with
  | nil => cases h; exact .refl _
  | cons a as ih =>
    obtain ⟨t, ht, hr⟩ := Option.bind_eq_some_iff.1 h
    exact (Leads.step trivial ht).trans (ih hr)

/-- A schedule that runs from an initial state ends in a reachable state. -/
theorem reachable_of_replay {as : List α} (hi : S.init s) (h : S.replay s as = some s') : S.Reachable s' :=
  ReachableWhen.leads (.init hi) (leads_of_replay h)

/-- Runs a schedule whose steps are checked to meet `C`. -/
def replayWhen (S : System σ α) (C : σ → α → Prop) [∀ s a, Decidable (C s a)] (s : σ) : List α → Option σ
  | [] => some s
  | a :: as => if C s a then (S.step s a).bind fun s' => replayWhen S C s' as else none

theorem replay_of_replayWhen [∀ s a, Decidable (C s a)] {as : List α} (h : S.replayWhen C s as = some s') :
    S.replay s as = some s' := by
  induction as generalizing s with
  | nil => exact h
  | cons a as ih =>
    simp only [replayWhen] at h
    split at h
    · obtain ⟨t, ht, hr⟩ := Option.bind_eq_some_iff.1 h
      exact Option.bind_eq_some_iff.2 ⟨t, ht, ih hr⟩
    · cases h

theorem leads_of_replayWhen [∀ s a, Decidable (C s a)] {as : List α} (h : S.replayWhen C s as = some s') :
    S.Leads C s s' := by
  induction as generalizing s with
  | nil => cases h; exact .refl _
  | cons a as ih =>
    simp only [replayWhen] at h
    split at h
    · rename_i hc
      obtain ⟨t, ht, hr⟩ := Option.bind_eq_some_iff.1 h
      exact (Leads.step hc ht).trans (ih hr)
    · cases h

theorem reachableWhen_of_replayWhen [∀ s a, Decidable (C s a)] {as : List α} (hi : S.init s)
    (h : S.replayWhen C s as = some s') : S.ReachableWhen C s' :=
  ReachableWhen.leads (.init hi) (leads_of_replayWhen h)

end System
end Transition
