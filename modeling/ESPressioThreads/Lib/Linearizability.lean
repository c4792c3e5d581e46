import Mathlib.Logic.Function.Basic
import ESPressioThreads.Lib.Simulation
/-!
# Linearizability

A history of calls and returns is linearizable when its calls can be put in one
order that a sequential object allows, in which every call that returned stands
with its result, and a call that returned before another one began stands
before it.

The atomic object of a specification commits each call in one step between its
call and its return. All its histories are linearizable, by the order of the
commits, so an implementation is linearizable when the atomic object can follow
it.
-/

namespace Linearizability

open Transition

variable {ι σ γ ρ : Type*}

/-- The calls and returns that the callers see. -/
inductive Visible (ι γ ρ : Type*)
  | call (i : ι) (c : γ)
  | ret (i : ι) (r : ρ)
  deriving DecidableEq

/-- A sequential object: the results a call may have in a state, and the state
after it. -/
abbrev Spec (σ γ ρ : Type*) := σ → γ → ρ → σ → Prop

/-- The object allows the calls, with their results, one after the other. -/
inductive Legal (spec : Spec σ γ ρ) (v₀ : σ) : List (ι × γ × ρ) → σ → Prop
  | nil : Legal spec v₀ [] v₀
  | snoc {order : List (ι × γ × ρ)} {v v' : σ} {i : ι} {c : γ} {r : ρ} : Legal spec v₀ order v → spec v c r v' →
      Legal spec v₀ (order ++ [(i, c, r)]) v'

structure Linearization (spec : Spec σ γ ρ) (v₀ : σ) (h : List (Visible ι γ ρ)) (order : List (ι × γ × ρ)) :
    Prop where
  legal : ∃ v, Legal spec v₀ order v
  distinct : (order.map Prod.fst).Nodup
  called : ∀ i c r, (i, c, r) ∈ order → .call i c ∈ h
  returned : ∀ i r, .ret i r ∈ h → ∃ c, (i, c, r) ∈ order
  /-- A call that had returned when `j` was called stands before `j`. -/
  realTime : ∀ h₁ h₂ i r j c, h = h₁ ++ .call j c :: h₂ → .ret i r ∈ h₁ →
    ∀ o₁ o₂ d s, order = o₁ ++ (j, d, s) :: o₂ → i ∈ o₁.map Prod.fst

def Linearizable (spec : Spec σ γ ρ) (v₀ : σ) (h : List (Visible ι γ ρ)) : Prop :=
  ∃ order, Linearization spec v₀ h order

/-! ## The atomic object -/

inductive Status (γ ρ : Type*)
  | idle
  | pending (c : γ)
  | committed (c : γ) (r : ρ)
  | returned (c : γ) (r : ρ)

/-- What was called. -/
def Status.method : Status γ ρ → Option γ
  | .idle => none
  | .pending c | .committed c _ | .returned c _ => some c

/-- `order` are the calls that have taken effect. -/
structure Object (ι σ γ ρ : Type*) where
  value : σ
  calls : ι → Status γ ρ
  order : List (ι × γ × ρ)

inductive Act (ι σ γ ρ : Type*)
  | call (i : ι) (c : γ)
  | commit (i : ι) (r : ρ) (v : σ)
  | ret (i : ι)

def shown (o : Object ι σ γ ρ) : Act ι σ γ ρ → Option (Visible ι γ ρ)
  | .call i c => some (.call i c)
  | .commit _ _ _ => none
  | .ret i =>
    match o.calls i with
    | .committed _ r => some (.ret i r)
    | _ => none

section
variable [DecidableEq ι]

def Object.goto (o : Object ι σ γ ρ) (i : ι) (s : Status γ ρ) : Object ι σ γ ρ :=
  { o with calls := Function.update o.calls i s }

open Classical in
noncomputable def stepObject (spec : Spec σ γ ρ) (o : Object ι σ γ ρ) : Act ι σ γ ρ → Option (Object ι σ γ ρ)
  | .call i c =>
    match o.calls i with
    | .idle => some (o.goto i (.pending c))
    | _ => none
  | .commit i r v =>
    match o.calls i with
    | .pending c =>
      if spec o.value c r v then
        some ({ o with value := v, order := o.order ++ [(i, c, r)] }.goto i (.committed c r))
      else none
    | _ => none
  | .ret i =>
    match o.calls i with
    | .committed c r => some (o.goto i (.returned c r))
    | _ => none

/-- The object, on which every call takes effect at once. -/
noncomputable def atomic (ι : Type*) [DecidableEq ι] (spec : Spec σ γ ρ) (v₀ : σ) :
    System (Object ι σ γ ρ) (Act ι σ γ ρ) where
  init o := o = ⟨v₀, fun _ => .idle, []⟩
  step := stepObject spec

variable {spec : Spec σ γ ρ} {v₀ v : σ} {o o' : Object ι σ γ ρ} {i : ι} {c : γ} {r : ρ}

theorem Object.goto_calls (i j : ι) (s : Status γ ρ) :
    (o.goto i s).calls j = if j = i then s else o.calls j := by
  simp [Object.goto, Function.update_apply]

theorem shows_call (h : o.calls i = .idle) :
    (atomic ι spec v₀).Shows shown o [.call i c] (o.goto i (.pending c)) := by
  have hs : (atomic ι spec v₀).step o (.call i c) = some (o.goto i (.pending c)) := by
    simp [atomic, stepObject, h]
  exact System.Shows.one hs

theorem shows_commit (h : o.calls i = .pending c) (hs : spec o.value c r v) :
    (atomic ι spec v₀).Shows shown o []
      ({ o with value := v, order := o.order ++ [(i, c, r)] }.goto i (.committed c r)) := by
  have hs : (atomic ι spec v₀).step o (.commit i r v) =
      some ({ o with value := v, order := o.order ++ [(i, c, r)] }.goto i (.committed c r)) := by
    simp [atomic, stepObject, h, hs]
  exact System.Shows.one hs

theorem shows_ret (h : o.calls i = .committed c r) :
    (atomic ι spec v₀).Shows shown o [.ret i r] (o.goto i (.returned c r)) := by
  have hs : (atomic ι spec v₀).step o (.ret i) = some (o.goto i (.returned c r)) := by
    simp [atomic, stepObject, h]
  have hshown : shown o (.ret i : Act ι σ γ ρ) = some (.ret i r) := by simp [shown, h]
  have hone : (atomic ι spec v₀).Shows shown o (shown o (.ret i)).toList _ := System.Shows.one hs
  rwa [hshown] at hone

/-- A call that takes effect as it returns. -/
theorem shows_commit_ret (h : o.calls i = .pending c) (hs : spec o.value c r v) :
    (atomic ι spec v₀).Shows shown o [.ret i r]
      ({ o with value := v, order := o.order ++ [(i, c, r)] }.goto i (.returned c r)) := by
  have hcommit : (atomic ι spec v₀).Shows shown o [] _ := shows_commit h hs
  generalize ho : ({ o with value := v, order := o.order ++ [(i, c, r)] } : Object ι σ γ ρ) = p at hcommit ⊢
  have hret : (atomic ι spec v₀).Shows shown (p.goto i (.committed c r)) [.ret i r]
      ((p.goto i (.committed c r)).goto i (.returned c r)) := shows_ret (by rw [Object.goto_calls, if_pos rfl])
  have hgoto : (p.goto i (.committed c r)).goto i (.returned c r) = p.goto i (.returned c r) := by
    simp [Object.goto]
  rw [hgoto] at hret
  exact hcommit.trans hret

/-- One step of the object with what it shows. -/
inductive Stepped (spec : Spec σ γ ρ) (o : Object ι σ γ ρ) : Object ι σ γ ρ → Option (Visible ι γ ρ) → Prop
  | call (i : ι) (c : γ) : o.calls i = .idle → Stepped spec o (o.goto i (.pending c)) (some (.call i c))
  | commit (i : ι) (c : γ) (r : ρ) (v : σ) : o.calls i = .pending c → spec o.value c r v →
      Stepped spec o ({ o with value := v, order := o.order ++ [(i, c, r)] }.goto i (.committed c r)) none
  | ret (i : ι) (c : γ) (r : ρ) : o.calls i = .committed c r →
      Stepped spec o (o.goto i (.returned c r)) (some (.ret i r))

theorem step_stepped {a : Act ι σ γ ρ} (h : (atomic ι spec v₀).step o a = some o') :
    Stepped spec o o' (shown o a) := by
  cases a with
  | call i c =>
    simp only [atomic, stepObject] at h
    split at h <;> cases h
    exact .call i c ‹_›
  | commit i r v =>
    simp only [atomic, stepObject] at h
    split at h
    · split at h <;> cases h
      exact .commit i _ r v ‹_› ‹_›
    · cases h
  | ret i =>
    simp only [atomic, stepObject] at h
    split at h <;> cases h
    rename_i c r hi
    simpa [shown, hi] using Stepped.ret i c r hi

/-! ## The order of the commits -/

structure Ordered (spec : Spec σ γ ρ) (v₀ : σ) (x : Object ι σ γ ρ × List (Visible ι γ ρ)) : Prop where
  legal : Legal spec v₀ x.1.order x.1.value
  distinct : (x.1.order.map Prod.fst).Nodup
  entry : ∀ i c r, (i, c, r) ∈ x.1.order ↔ x.1.calls i = .committed c r ∨ x.1.calls i = .returned c r
  called : ∀ i c, (x.1.calls i).method = some c → .call i c ∈ x.2
  returned : ∀ i r, .ret i r ∈ x.2 → ∃ c, x.1.calls i = .returned c r
  realTime : ∀ h₁ h₂ i r j c, x.2 = h₁ ++ .call j c :: h₂ → .ret i r ∈ h₁ →
    ∀ o₁ o₂ d s, x.1.order = o₁ ++ (j, d, s) :: o₂ → i ∈ o₁.map Prod.fst

theorem Ordered.step {h : List (Visible ι γ ρ)} {e : Option (Visible ι γ ρ)} (hi : Ordered spec v₀ (o, h))
    (hs : Stepped spec o o' e) : Ordered spec v₀ (o', h ++ e.toList) := by
  cases hs with
  | call i c hidle =>
    have hnot : ∀ d s, (i, d, s) ∉ o.order := by
      intro d s hmem
      rcases (hi.entry i d s).1 hmem with hc | hc
      · rw [hidle] at hc
        cases hc
      · rw [hidle] at hc
        cases hc
    refine ⟨hi.legal, hi.distinct, ?_, ?_, ?_, ?_⟩
    · intro j d s
      rw [Object.goto_calls]
      split
      · rename_i hj
        subst hj
        refine ⟨fun hmem => absurd hmem (hnot d s), fun hc => ?_⟩
        rcases hc with hc | hc <;> cases hc
      · exact hi.entry j d s
    · intro j d hd
      rw [Object.goto_calls] at hd
      split at hd
      · rename_i hj
        cases hd
        simp [hj]
      · exact List.mem_append_left _ (hi.called j d hd)
    · intro j s hs
      have hs : Visible.ret j s ∈ h := by simpa using hs
      obtain ⟨d, hd⟩ := hi.returned j s hs
      have hj : j ≠ i := by
        rintro rfl
        rw [hidle] at hd
        cases hd
      exact ⟨d, by rw [Object.goto_calls, if_neg hj]; exact hd⟩
    · intro h₁ h₂ j s k d hsplit hret o₁ o₂ f g horder
      rcases System.split_append hsplit with ⟨h₃, hh, -⟩ | ⟨hk, -, -⟩
      · exact hi.realTime h₁ h₃ j s k d hh hret o₁ o₂ f g horder
      · cases hk
        exact absurd (horder ▸ List.mem_append_right _ List.mem_cons_self) (hnot f g)
  | commit i c r v hpend hspec =>
    have hnot : i ∉ o.order.map Prod.fst := by
      intro hmem
      obtain ⟨⟨j, d, s⟩, hj, rfl⟩ := List.mem_map.1 hmem
      rcases (hi.entry j d s).1 hj with hc | hc
      · rw [hpend] at hc
        cases hc
      · rw [hpend] at hc
        cases hc
    simp only [Option.toList_none, List.append_nil]
    refine ⟨.snoc hi.legal hspec, ?_, ?_, ?_, ?_, ?_⟩
    · simpa [Object.goto, List.nodup_append] using ⟨hi.distinct, fun j d s hj he => hnot (he ▸ List.mem_map_of_mem hj)⟩
    · intro j d s
      have hmem : (j, d, s) ∈ o.order ++ [(i, c, r)] ↔ (j, d, s) ∈ o.order ∨ (j = i ∧ d = c ∧ s = r) := by simp
      rw [Object.goto_calls]
      refine hmem.trans ?_
      split
      · rename_i hj
        subst hj
        refine ⟨?_, ?_⟩
        · rintro (hj | ⟨-, rfl, rfl⟩)
          · exact absurd (List.mem_map_of_mem (f := Prod.fst) hj) hnot
          · exact .inl rfl
        · rintro (hc | hc) <;> cases hc
          exact .inr ⟨rfl, rfl, rfl⟩
      · rename_i hj
        simpa [hj] using hi.entry j d s
    · intro j d hd
      rw [Object.goto_calls] at hd
      split at hd
      · rename_i hj
        cases hd
        subst hj
        exact hi.called j c (by rw [hpend]; rfl)
      · exact hi.called j d hd
    · intro j s hs
      obtain ⟨d, hd⟩ := hi.returned j s hs
      have hj : j ≠ i := by
        rintro rfl
        rw [hpend] at hd
        cases hd
      exact ⟨d, by rw [Object.goto_calls, if_neg hj]; exact hd⟩
    · intro h₁ h₂ j s k d hsplit hret o₁ o₂ f g horder
      have horder : o.order ++ (some (i, c, r)).toList = o₁ ++ (k, f, g) :: o₂ := horder
      rcases System.split_append horder with ⟨o₃, ho, -⟩ | ⟨-, rfl, -⟩
      · exact hi.realTime h₁ h₂ j s k d hsplit hret o₁ o₃ f g ho
      · -- Whatever has returned has been committed before.
        obtain ⟨e, he⟩ := hi.returned j s (hsplit ▸ List.mem_append_left _ hret)
        exact List.mem_map_of_mem (f := Prod.fst) ((hi.entry j e s).2 (.inr he))
  | ret i c r hcom =>
    refine ⟨hi.legal, hi.distinct, ?_, ?_, ?_, ?_⟩
    · intro j d s
      rw [Object.goto_calls]
      refine (hi.entry j d s).trans ?_
      split
      · rename_i hj
        subst hj
        rw [hcom]
        simp
      · rfl
    · intro j d hd
      rw [Object.goto_calls] at hd
      split at hd
      · rename_i hj
        cases hd
        subst hj
        exact List.mem_append_left _ (hi.called j c (by rw [hcom]; rfl))
      · exact List.mem_append_left _ (hi.called j d hd)
    · intro j s hs
      rw [Object.goto_calls]
      rcases System.mem_append hs with hs | hs
      · obtain ⟨d, hd⟩ := hi.returned j s hs
        have hj : j ≠ i := by
          rintro rfl
          rw [hcom] at hd
          cases hd
        exact ⟨d, by rw [if_neg hj]; exact hd⟩
      · cases hs
        exact ⟨c, if_pos rfl⟩
    · intro h₁ h₂ j s k d hsplit hret
      rcases System.split_append hsplit with ⟨h₃, hh, -⟩ | ⟨hk, -, -⟩
      · exact hi.realTime h₁ h₃ j s k d hh hret
      · cases hk

theorem ordered_reachable {x : Object ι σ γ ρ × List (Visible ι γ ρ)}
    (h : ((atomic ι spec v₀).logged shown).Reachable x) : Ordered spec v₀ x := by
  refine h.invariant (fun x hx => ?_) fun x a y hi _ hs => ?_
  · obtain ⟨o, l⟩ := x
    obtain ⟨ho, hl⟩ := hx
    cases ho
    cases hl
    refine ⟨.nil, List.nodup_nil, ?_, ?_, ?_, ?_⟩
    · intro i c r
      simp
    · intro i c hc
      cases hc
    · intro i r hr
      cases hr
    · intro h₁ h₂ i r j c hsplit
      simp at hsplit
  · obtain ⟨o, l⟩ := x
    obtain ⟨o', l'⟩ := y
    obtain ⟨hst, hl⟩ := System.logged_step.1 hs
    cases hl
    exact hi.step (step_stepped hst)

/-- Every history of the atomic object is linearizable. -/
theorem atomic_linearizable {x : Object ι σ γ ρ × List (Visible ι γ ρ)}
    (h : ((atomic ι spec v₀).logged shown).Reachable x) : Linearizable spec v₀ x.2 := by
  have ho := ordered_reachable h
  refine ⟨x.1.order, ⟨_, ho.legal⟩, ho.distinct, ?_, ?_, ho.realTime⟩
  · intro i c r hmem
    refine ho.called i c ?_
    rcases (ho.entry i c r).1 hmem with hc | hc <;> rw [hc] <;> rfl
  · intro i r hret
    obtain ⟨c, hc⟩ := ho.returned i r hret
    exact ⟨c, (ho.entry i c r).2 (.inr hc)⟩

end

end Linearizability
