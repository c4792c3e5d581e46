import Mathlib.Logic.Relation
import Mathlib.Data.Set.Lattice
import Mathlib.Order.CompletePartialOrder
import Mathlib.Data.Finset.Card
/-!
# Deferred reclamation by pin counting

Agents take elements from a shared structure and use them while they are
pinned. Other agents unlink elements and free them later, outside the lock. A
sweep needs the lock and a pin count of zero, and a pin cannot be taken or
dropped while the lock is held.

No element that a pinned agent took is ever freed, although freeing happens
after the lock is released.
-/

namespace Reclamation

/-- What an agent is doing. -/
inductive Role (α : Type*)
  | idle
  | pinning (taken : Set α)
  | deferring
  | scanning
  | sweeping (unlinked : Set α)
  | freeing (unlinked : Set α)

/-- `condemned` are the elements ever unlinked for freeing. -/
structure State (ι α : Type*) where
  shared : Set α
  lock : Option ι
  pins : Nat
  role : ι → Role α
  condemned : Set α
  freed : Set α

namespace Role
variable {α : Type*}

def Pinned : Role α → Prop
  | pinning _ => True
  | _ => False

/-- Roles that hold the lock. -/
def Locked : Role α → Prop
  | deferring | scanning | sweeping _ => True
  | _ => False

/-- Roles that hold the lock and found no pin. -/
def Sweeps : Role α → Prop
  | scanning | sweeping _ => True
  | _ => False

def taken : Role α → Set α
  | pinning a => a
  | _ => ∅

def unlinked : Role α → Set α
  | sweeping d | freeing d => d
  | _ => ∅

end Role

namespace State
variable {ι α : Type*}

/-- What the role of agent `i` says about the rest of the state. -/
structure Fits (s : State ι α) (i : ι) (r : Role α) : Prop where
  locked : r.Locked → s.lock = some i
  quiet : r.Sweeps → s.pins = 0
  taken_live : ∀ x ∈ r.taken, x ∉ s.condemned
  unlinked_condemned : r.unlinked ⊆ s.condemned

def Counted (s : State ι α) : Prop :=
  ∃ pinned : Finset ι, (∀ i, i ∈ pinned ↔ (s.role i).Pinned) ∧ pinned.card = s.pins

/-- The invariant of the protocol. -/
structure Inv (s : State ι α) : Prop where
  counted : s.Counted
  fits : ∀ i, s.Fits i (s.role i)
  shared_live : ∀ x ∈ s.shared, x ∉ s.condemned
  freed_condemned : s.freed ⊆ s.condemned

variable {s s' : State ι α} {i : ι} {r : Role α}

theorem Sweeps.locked (h : r.Sweeps) : r.Locked := by
  cases r <;> trivial

/-- While somebody sweeps, nobody is pinned. -/
theorem Inv.no_pin (h : s.Inv) (hi : (s.role i).Sweeps) (j : ι) : ¬ (s.role j).Pinned := by
  obtain ⟨pinned, hp, hc⟩ := h.counted
  rw [(h.fits i).quiet hi, Finset.card_eq_zero] at hc
  simp [← hp, hc]

/-- The lock has one holder. -/
theorem Inv.holder (h : s.Inv) (hi : (s.role i).Locked) {j : ι} (hj : (s.role j).Locked) : j = i :=
  Option.some.inj (((h.fits j).locked hj).symm.trans ((h.fits i).locked hi))

theorem Inv.unlocked (h : s.Inv) (hl : s.lock = none) (j : ι) : ¬ (s.role j).Locked := by
  intro hj
  have := (h.fits j).locked hj
  rw [hl] at this
  cases this

/-- What an agent took is not freed while it stays pinned. -/
theorem Inv.taken_not_freed (h : s.Inv) {x : α} (hx : x ∈ (s.role i).taken) : x ∉ s.freed :=
  fun hf => (h.fits i).taken_live x hx (h.freed_condemned hf)

theorem Counted.congr (h : s.Counted) (hp : s'.pins = s.pins)
    (hr : ∀ j, (s'.role j).Pinned ↔ (s.role j).Pinned) : s'.Counted := by
  obtain ⟨pinned, hm, hc⟩ := h
  exact ⟨pinned, fun j => (hm j).trans (hr j).symm, hc.trans hp.symm⟩

/-- A role still fits when the lock, the count and the condemned elements
changed in ways it does not speak about. -/
theorem Fits.frame (h : s.Fits i r) (hl : r.Locked → s'.lock = s.lock) (hp : r.Sweeps → s'.pins = s.pins)
    (hc : s.condemned ⊆ s'.condemned) (ht : ∀ x ∈ r.taken, x ∈ s'.condemned → x ∈ s.condemned) :
    s'.Fits i r where
  locked hr := (hl hr).trans (h.locked hr)
  quiet hr := (hp hr).trans (h.quiet hr)
  taken_live x hx hx' := h.taken_live x hx (ht x hx hx')
  unlinked_condemned := h.unlinked_condemned.trans hc

/-- A role without claims fits every state. -/
theorem fits_idle : s.Fits i .idle :=
  ⟨False.elim, False.elim, fun _ h => h.elim, Set.empty_subset _⟩

/-! ## Steps -/

variable [DecidableEq ι]

def setRole (s : State ι α) (i : ι) (r : Role α) : State ι α := { s with role := Function.update s.role i r }

/-- One step of the protocol. -/
inductive Step (s : State ι α) : State ι α → Prop
  | link (x : α) : x ∉ s.condemned → Step s { s with shared := insert x s.shared }
  | unlink (t : Set α) : t ⊆ s.shared → Step s { s with shared := t }
  | pin (i : ι) : s.role i = .idle → s.lock = none →
      Step s ({ s with pins := s.pins + 1 }.setRole i (.pinning ∅))
  | take (i : ι) (a b : Set α) : s.role i = .pinning a → b ⊆ s.shared → Step s (s.setRole i (.pinning b))
  | unpin (i : ι) (a : Set α) : s.role i = .pinning a → s.lock = none →
      Step s ({ s with pins := s.pins - 1 }.setRole i .idle)
  | defer (i : ι) : s.role i = .idle → s.lock = none → Step s ({ s with lock := some i }.setRole i .deferring)
  | scan (i : ι) : s.role i = .idle → s.lock = none → s.pins = 0 →
      Step s ({ s with lock := some i }.setRole i .scanning)
  | unlock (i : ι) : s.role i = .deferring ∨ s.role i = .scanning →
      Step s ({ s with lock := none }.setRole i .idle)
  | sweep (i : ι) (t d : Set α) : s.role i = .scanning → t ⊆ s.shared → Disjoint t d →
      Step s ({ s with shared := t, condemned := s.condemned ∪ d }.setRole i (.sweeping d))
  | release (i : ι) (d : Set α) : s.role i = .sweeping d →
      Step s ({ s with lock := none }.setRole i (.freeing d))
  | free (i : ι) (d d' : Set α) (x : α) : s.role i = .freeing d → x ∈ d → d' ⊆ d →
      Step s ({ s with freed := insert x s.freed }.setRole i (.freeing d'))
  | done (i : ι) (d : Set α) : s.role i = .freeing d → Step s (s.setRole i .idle)

theorem setRole_role (j : ι) : (s.setRole i r).role j = if j = i then r else s.role j := by
  simp [setRole, Function.update_apply]

theorem Counted.pin (h : s.Counted) (hi : ¬ (s.role i).Pinned) (hr : r.Pinned) :
    ({ s with pins := s.pins + 1 }.setRole i r : State ι α).Counted := by
  obtain ⟨pinned, hm, hc⟩ := h
  have hni : i ∉ pinned := fun h => hi ((hm i).1 h)
  refine ⟨insert i pinned, fun j => ?_, ?_⟩
  · rw [Finset.mem_insert, hm, setRole_role]
    by_cases hj : j = i <;> simp [hj, hr]
  · rw [Finset.card_insert_of_notMem hni, hc]; rfl

theorem Counted.unpin (h : s.Counted) (hi : (s.role i).Pinned) (hr : ¬ r.Pinned) :
    ({ s with pins := s.pins - 1 }.setRole i r : State ι α).Counted := by
  obtain ⟨pinned, hm, hc⟩ := h
  refine ⟨pinned.erase i, fun j => ?_, ?_⟩
  · rw [Finset.mem_erase, hm, setRole_role]
    by_cases hj : j = i <;> simp [hj, hr]
  · rw [Finset.card_erase_of_mem ((hm i).2 hi), hc]; rfl

theorem Counted.setRole (h : s.Counted) (hp : s'.pins = s.pins) (hs : s'.role = s.role)
    (hr : r.Pinned ↔ (s.role i).Pinned) : (s'.setRole i r).Counted := by
  refine h.congr hp fun j => ?_
  rw [setRole_role, hs]
  split
  · rename_i hj; rw [hj, hr]
  · exact Iff.rfl

/-! ## The invariant is kept -/

/-- One agent changes its role in a state that suits the other agents. -/
theorem fits_setRole (hi : s'.Fits i r) (hj : ∀ j, j ≠ i → s'.Fits j (s'.role j)) (j : ι) :
    (s'.setRole i r).Fits j ((s'.setRole i r).role j) := by
  rw [setRole_role]
  split
  · rename_i h; subst h; exact ⟨hi.locked, hi.quiet, hi.taken_live, hi.unlinked_condemned⟩
  · rename_i h; exact ⟨(hj j h).locked, (hj j h).quiet, (hj j h).taken_live, (hj j h).unlinked_condemned⟩

theorem Inv.step (h : s.Inv) (hs : Step s s') : s'.Inv := by
  cases hs with
  | link x hx =>
    refine ⟨h.counted, fun j => ?_, ?_, h.freed_condemned⟩
    · exact (h.fits j).frame (fun _ => rfl) (fun _ => rfl) (fun _ hc => hc) fun _ _ hc => hc
    · rintro y (rfl | hy)
      · exact hx
      · exact h.shared_live y hy
  | unlink t ht =>
    refine ⟨h.counted, fun j => ?_, fun x hx => h.shared_live x (ht hx), h.freed_condemned⟩
    exact (h.fits j).frame (fun _ => rfl) (fun _ => rfl) (fun _ hc => hc) fun _ _ hc => hc
  | pin i hi hl =>
    refine ⟨h.counted.pin (by simp [hi, Role.Pinned]) trivial, fits_setRole ?_ fun j _ => ?_,
      h.shared_live, h.freed_condemned⟩
    · exact ⟨False.elim, False.elim, fun _ hx => hx.elim, Set.empty_subset _⟩
    · exact (h.fits j).frame (fun _ => rfl) (fun hj => absurd (Sweeps.locked hj) (h.unlocked hl j))
        (fun _ hc => hc) fun _ _ hc => hc
  | take i a b hi hb =>
    refine ⟨h.counted.setRole rfl rfl (by simp [hi, Role.Pinned]), fits_setRole ?_ fun j _ => h.fits j,
      h.shared_live, h.freed_condemned⟩
    exact ⟨False.elim, False.elim, fun x hx => h.shared_live x (hb hx), Set.empty_subset _⟩
  | unpin i a hi hl =>
    refine ⟨h.counted.unpin (by simp [hi, Role.Pinned]) id, fits_setRole fits_idle fun j _ => ?_,
      h.shared_live, h.freed_condemned⟩
    exact (h.fits j).frame (fun _ => rfl) (fun hj => absurd (Sweeps.locked hj) (h.unlocked hl j))
      (fun _ hc => hc) fun _ _ hc => hc
  | defer i hi hl =>
    refine ⟨h.counted.setRole rfl rfl (by simp [hi, Role.Pinned]), fits_setRole ?_ fun j _ => ?_,
      h.shared_live, h.freed_condemned⟩
    · exact ⟨fun _ => rfl, False.elim, fun _ hx => hx.elim, Set.empty_subset _⟩
    · exact (h.fits j).frame (fun hj => absurd hj (h.unlocked hl j)) (fun _ => rfl)
        (fun _ hc => hc) fun _ _ hc => hc
  | scan i hi hl hp =>
    refine ⟨h.counted.setRole rfl rfl (by simp [hi, Role.Pinned]), fits_setRole ?_ fun j _ => ?_,
      h.shared_live, h.freed_condemned⟩
    · exact ⟨fun _ => rfl, fun _ => hp, fun _ hx => hx.elim, Set.empty_subset _⟩
    · exact (h.fits j).frame (fun hj => absurd hj (h.unlocked hl j)) (fun _ => rfl)
        (fun _ hc => hc) fun _ _ hc => hc
  | unlock i hi =>
    have hlocked : (s.role i).Locked := by rcases hi with hi | hi <;> simp [hi, Role.Locked]
    have hpinned : ¬ (s.role i).Pinned := by rcases hi with hi | hi <;> simp [hi, Role.Pinned]
    refine ⟨h.counted.setRole rfl rfl (iff_of_false id hpinned), fits_setRole fits_idle fun j hj => ?_,
      h.shared_live, h.freed_condemned⟩
    exact (h.fits j).frame (fun hl => absurd (h.holder hlocked hl) hj) (fun _ => rfl)
      (fun _ hc => hc) fun _ _ hc => hc
  | sweep i t d hi ht hd =>
    have hsweeps : (s.role i).Sweeps := by simp [hi, Role.Sweeps]
    refine ⟨h.counted.setRole rfl rfl (by simp [hi, Role.Pinned]), fits_setRole ?_ fun j hj => ?_, ?_, ?_⟩
    · exact ⟨fun _ => (h.fits i).locked (Sweeps.locked hsweeps), fun _ => (h.fits i).quiet hsweeps,
        fun _ hx => hx.elim, Set.subset_union_right⟩
    · -- No iteration is active, so no other agent holds a taken element.
      refine (h.fits j).frame (fun _ => rfl) (fun _ => rfl) Set.subset_union_left fun x hx => ?_
      have hn := h.no_pin hsweeps j
      cases hr : s.role j <;> simp_all [Role.taken, Role.Pinned]
    · rintro x hx (hc | hc)
      · exact h.shared_live x (ht hx) hc
      · exact Set.disjoint_left.1 hd hx hc
    · exact h.freed_condemned.trans Set.subset_union_left
  | release i d hi =>
    have hlocked : (s.role i).Locked := by simp [hi, Role.Locked]
    refine ⟨h.counted.setRole rfl rfl (by simp [hi, Role.Pinned]), fits_setRole ?_ fun j hj => ?_,
      h.shared_live, h.freed_condemned⟩
    · refine ⟨False.elim, False.elim, fun _ hx => hx.elim, ?_⟩
      have := (h.fits i).unlinked_condemned
      rwa [hi] at this
    · exact (h.fits j).frame (fun hl => absurd (h.holder hlocked hl) hj) (fun _ => rfl)
        (fun _ hc => hc) fun _ _ hc => hc
  | free i d d' x hi hx hd =>
    have hsub : d ⊆ s.condemned := by have := (h.fits i).unlinked_condemned; rwa [hi] at this
    refine ⟨h.counted.setRole rfl rfl (by simp [hi, Role.Pinned]), fits_setRole ?_ fun j _ => ?_,
      h.shared_live, Set.insert_subset (hsub hx) h.freed_condemned⟩
    · exact ⟨False.elim, False.elim, fun _ hx => hx.elim, hd.trans hsub⟩
    · exact (h.fits j).frame (fun _ => rfl) (fun _ => rfl) (fun _ hc => hc) fun _ _ hc => hc
  | done i d hi =>
    exact ⟨h.counted.setRole rfl rfl (by simp [hi, Role.Pinned]),
      fits_setRole fits_idle fun j _ => h.fits j, h.shared_live, h.freed_condemned⟩

/-- The invariant holds after any number of steps. -/
theorem Inv.steps (h : s.Inv) (hs : Relation.ReflTransGen Step s s') : s'.Inv := by
  induction hs with
  | refl => exact h
  | tail _ hst ih => exact ih.step hst

end State
end Reclamation
