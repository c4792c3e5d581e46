import Mathlib.Logic.Function.Basic
import ESPressioThreads.Lib.Boundary
/-!
# Locks in a fixed order

Any number of tasks over the same data and locks. Every program takes its locks
in the order of a rank, and foreign code that was called under a lock begins no
operation. Then no tasks wait for each other in a circle, and a lock becomes
free when those who hold it or a higher one go on.
-/

namespace Boundary

open Transition

namespace Prog
variable {M L X C : Type} {Ret : C → Type} {α β : Type}

/-- From `held`, the program takes each lock above all that it holds, and gives
back the last one first. It returns with `Q` and throws with `E`. -/
def Ascends (rank : L → Nat) (Q E : List L → Prop) : Prog M L X C Ret α → List L → Prop
  | ret _, held => Q held
  | raise, held => E held
  | acquire l k, held => (∀ m ∈ held, rank m < rank l) ∧ Ascends rank Q E k (l :: held)
  | release l k, held => ∃ rest, held = l :: rest ∧ Ascends rank Q E k rest
  | access _ _ k, held => ∀ m, Ascends rank Q E (k m) held
  | choose k, held => ∀ b, Ascends rank Q E (k b) held
  | call _ k, held => ∀ a, Ascends rank Q E (k a) held

/-- From the locks `base`, back to them. -/
abbrev Level (rank : L → Nat) (base : List L) (p : Prog M L X C Ret α) : Prop :=
  p.Ascends rank (fun held => held = base) (fun held => held = base) base

variable {rank : L → Nat} {base held : List L} {Q Q' E E' : List L → Prop} {l : L} {p : Prog M L X C Ret α}

theorem Ascends.mono (h : p.Ascends rank Q E held) (hQ : ∀ held, Q held → Q' held)
    (hE : ∀ held, E held → E' held) : p.Ascends rank Q' E' held := by
  induction p generalizing held with
  | ret a => exact hQ _ h
  | raise => exact hE _ h
  | acquire l k ih => exact ⟨h.1, ih h.2⟩
  | release l k ih => obtain ⟨rest, he, hk⟩ := h; exact ⟨rest, he, ih hk⟩
  | access x u k ih => exact fun m => ih m (h m)
  | choose k ih => exact fun b => ih b (h b)
  | call c k ih => exact fun a => ih a (h a)

theorem Ascends.bind {f : α → Prog M L X C Ret β}
    (h : p.Ascends rank (fun held => ∀ a, (f a).Ascends rank Q E held) E held) : (p.bind f).Ascends rank Q E held := by
  induction p generalizing held with
  | ret a => exact h a
  | raise => exact h
  | acquire l k ih => exact ⟨h.1, ih h.2⟩
  | release l k ih => obtain ⟨rest, he, hk⟩ := h; exact ⟨rest, he, ih hk⟩
  | access x u k ih => exact fun m => ih m (h m)
  | choose k ih => exact fun b => ih b (h b)
  | call c k ih => exact fun a => ih a (h a)

theorem Ascends.rescue {handler : Prog M L X C Ret α}
    (h : p.Ascends rank Q (fun held => handler.Ascends rank Q E held) held) :
    (p.rescue handler).Ascends rank Q E held := by
  induction p generalizing held with
  | ret a => exact h
  | raise => exact h
  | acquire l k ih => exact ⟨h.1, ih h.2⟩
  | release l k ih => obtain ⟨rest, he, hk⟩ := h; exact ⟨rest, he, ih hk⟩
  | access x u k ih => exact fun m => ih m (h m)
  | choose k ih => exact fun b => ih b (h b)
  | call c k ih => exact fun a => ih a (h a)

theorem Ascends.afterwards {last : Prog M L X C Ret Unit}
    (h : p.Ascends rank (fun held => last.Ascends rank Q E held) (fun held => last.Ascends rank E E held) held) :
    (p.afterwards last).Ascends rank Q E held := by
  induction p generalizing held with
  | ret a => exact .bind (.mono h (fun _ hq _ => hq) fun _ he => he)
  | raise => exact .bind (.mono h (fun _ hq _ => hq) fun _ he => he)
  | acquire l k ih => exact ⟨h.1, ih h.2⟩
  | release l k ih => obtain ⟨rest, he, hk⟩ := h; exact ⟨rest, he, ih hk⟩
  | access x u k ih => exact fun m => ih m (h m)
  | choose k ih => exact fun b => ih b (h b)
  | call c k ih => exact fun a => ih a (h a)

theorem Level.bind {f : α → Prog M L X C Ret β} (hp : p.Level rank base) (hf : ∀ a, (f a).Level rank base) :
    (p >>= f).Level rank base := by
  refine Ascends.bind (Ascends.mono hp ?_ fun _ h => h)
  rintro _ rfl a
  exact hf a

theorem Level.rescue {handler : Prog M L X C Ret α} (hp : p.Level rank base) (hh : handler.Level rank base) :
    (p.rescue handler).Level rank base := by
  refine Ascends.rescue (Ascends.mono hp (fun _ h => h) ?_)
  rintro _ rfl
  exact hh

theorem Level.afterwards {last : Prog M L X C Ret Unit} (hp : p.Level rank base) (hl : last.Level rank base) :
    (p.afterwards last).Level rank base := by
  refine Ascends.afterwards (Ascends.mono hp ?_ ?_) <;> (rintro _ rfl; exact hl)

theorem Level.locked (hl : ∀ m ∈ base, rank m < rank l) (hp : p.Level rank (l :: base)) :
    (Prog.locked l p).Level rank base := by
  refine ⟨hl, Ascends.afterwards (Ascends.mono hp ?_ ?_)⟩ <;> (rintro _ rfl; exact ⟨base, rfl, rfl⟩)

theorem Level.each {f : β → Prog M L X C Ret Unit} {xs : List β} (hf : ∀ x ∈ xs, (f x).Level rank base) :
    (Prog.each f xs).Level rank base := by
  induction xs with
  | nil => exact rfl
  | cons x xs ih =>
    have hrest := ih fun y hy => hf y (List.mem_cons_of_mem _ hy)
    exact .bind (hf x List.mem_cons_self) fun _ => hrest

end Prog

/-! ## One task -/

namespace Task
variable {M L X C Op : Type} {Ret : C → Type} {t t' : Task M L X C Ret} {rank : L → Nat} {l : L}

/-- The innermost operation takes its locks in order, and the ones around it
wait in foreign code without a lock. -/
structure Ascending (rank : L → Nat) (t : Task M L X C Ret) : Prop where
  top : ∀ p rest, t.stack = p :: rest → p.Ascends rank (fun held => held = []) (fun held => held = []) t.held
  outside : t.stack = [] → t.held = []
  waiting : ∀ p rest, t.stack = p :: rest → ∀ q ∈ rest,
    q.Ascends rank (fun held => held = []) (fun held => held = []) []

theorem Ascending.congr (h : Ascending rank t) (hheld : t'.held = t.held) (hstack : t'.stack = t.stack) :
    Ascending rank t' := by
  refine ⟨?_, ?_, ?_⟩ <;> rw [hstack]
  · rw [hheld]
    exact h.top
  · rw [hheld]
    exact h.outside
  · exact h.waiting

theorem Ascending.goto {p p' : Prog M L X C Ret Unit} {rest : List (Prog M L X C Ret Unit)} {m : M} {held : List L}
    (h : Ascending rank t) (hs : t.stack = p :: rest)
    (hp : p'.Ascends rank (fun held => held = []) (fun held => held = []) held) :
    Ascending rank ⟨m, held, p' :: rest⟩ where
  top q r he := by cases he; exact hp
  outside he := by cases he
  waiting q r he := by cases he; exact h.waiting p rest hs

/-- Whoever waits holds lower locks only. -/
theorem Ascending.below (h : Ascending rank t) (hl : t.acquiring = some l) : ∀ m ∈ t.held, rank m < rank l := by
  unfold acquiring at hl
  split at hl
  · rename_i hst
    cases hl
    exact (h.top _ _ hst).1
  · cases hl

section
variable [DecidableEq L] {code : Op → Prog M L X C Ret Unit}

theorem Ascending.step (hcode : ∀ op, (code op).Level rank []) {a : Action M C Op Ret} (h : Ascending rank t)
    (ha : ∀ op, a = .begin op → t.held = []) (hs : Task.step code t a = some t') : Ascending rank t' := by
  cases a with
  | begin op =>
    have hheld := ha op rfl
    simp only [Task.step] at hs
    split at hs
    · rename_i hnil
      cases hs
      rw [hnil]
      refine ⟨?_, ?_, ?_⟩
      · rintro q r ⟨⟩
        rw [hheld]
        exact hcode op
      · rintro ⟨⟩
      · rintro q r ⟨⟩ p hp
        cases hp
    · rename_i c k rest hcall
      cases hs
      refine ⟨?_, ?_, ?_⟩
      · rintro q r ⟨⟩
        rw [hheld]
        exact hcode op
      · rintro ⟨⟩
      · rintro q r ⟨⟩ p hp
        rw [hcall] at hp
        rcases List.mem_cons.1 hp with rfl | hp
        · have htop := h.top _ _ hcall
          rwa [hheld] at htop
        · exact h.waiting _ _ hcall p hp
    · cases hs
  | finish =>
    have hpop : ∀ p rest, t.stack = p :: rest → t.held = [] → Ascending rank { t with stack := rest } := by
      intro p rest hst hheld
      refine ⟨?_, fun _ => hheld, ?_⟩
      · intro q r he
        have hrest : rest = q :: r := he
        rw [hheld]
        exact h.waiting p rest hst q (by rw [hrest]; exact List.mem_cons_self)
      · intro q r he u hu
        have hrest : rest = q :: r := he
        exact h.waiting p rest hst u (by rw [hrest]; exact List.mem_cons_of_mem _ hu)
    simp only [Task.step] at hs
    split at hs
    · rename_i hst; cases hs; exact hpop _ _ hst (h.top _ _ hst)
    · rename_i hst; cases hs; exact hpop _ _ hst (h.top _ _ hst)
    · cases hs
  | answer f =>
    simp only [Task.step] at hs
    split at hs
    · rename_i hst; cases hs; exact h.goto hst (h.top _ _ hst _)
    · cases hs
  | run b =>
    simp only [Task.step] at hs
    split at hs
    · rename_i hst
      split at hs <;> cases hs
      exact h.goto hst (h.top _ _ hst).2
    · rename_i l k rest hst
      obtain ⟨below, hheld, hk⟩ := h.top _ _ hst
      cases hs
      rw [hheld, List.erase_cons_head]
      exact h.goto hst hk
    · rename_i hst; cases hs; exact h.goto hst (h.top _ _ hst _)
    · rename_i hst; cases hs; exact h.goto hst (h.top _ _ hst b)
    · cases hs
  | others m =>
    cases hs
    exact ⟨h.top, h.outside, h.waiting⟩

/-- A step takes the lock that the task asked for, or none. -/
theorem held_step {a : Action M C Op Ret} (hs : Task.step code t a = some t') (hl : l ∈ t'.held) :
    l ∈ t.held ∨ (t.acquiring = some l ∧ ∃ b, a = .run b) := by
  cases a with
  | begin op =>
    simp only [Task.step] at hs
    split at hs <;> cases hs <;> exact .inl hl
  | finish =>
    simp only [Task.step] at hs
    split at hs <;> cases hs <;> exact .inl hl
  | answer f =>
    simp only [Task.step] at hs
    split at hs <;> cases hs
    exact .inl hl
  | run b =>
    simp only [Task.step] at hs
    split at hs
    · rename_i hst
      split at hs <;> cases hs
      rcases List.mem_cons.1 hl with rfl | hl
      · exact .inr ⟨by simp only [acquiring, hst], b, rfl⟩
      · exact .inl hl
    · cases hs
      exact .inl (List.mem_of_mem_erase hl)
    · cases hs
      exact .inl hl
    · cases hs
      exact .inl hl
    · cases hs
  | others m =>
    cases hs
    exact .inl hl

end

end Task

/-! ## Many tasks -/

/-- Tasks over the same data. `owner` is who holds a lock, one task at most. -/
structure Crew (ι M L X C : Type) (Ret : C → Type) where
  data : M
  owner : L → Option ι
  held : ι → List L
  stack : ι → List (Prog M L X C Ret Unit)

namespace Crew
variable {ι M L X C Op : Type} {Ret : C → Type} {s s' : Crew ι M L X C Ret} {i j : ι} {rank : L → Nat} {l : L}

def task (s : Crew ι M L X C Ret) (i : ι) : Task M L X C Ret := ⟨s.data, s.held i, s.stack i⟩

/-- `i` asks for a lock that `j` holds. -/
def Waits (s : Crew ι M L X C Ret) (i j : ι) : Prop := ∃ l, (s.task i).acquiring = some l ∧ s.owner l = some j

/-- The lock that `i` asks for is taken. -/
def blocked (s : Crew ι M L X C Ret) (i : ι) : Bool :=
  match (s.task i).acquiring with
  | some l => (s.owner l).isSome
  | none => false

/-- Foreign code begins an operation only while its task holds no lock. -/
def BeginsUnlocked (s : Crew ι M L X C Ret) : ι × Action M C Op Ret → Prop
  | (i, .begin _) => s.held i = []
  | (_, .finish) | (_, .answer _) | (_, .run _) | (_, .others _) => True

instance [DecidableEq L] (s : Crew ι M L X C Ret) : ∀ a : ι × Action M C Op Ret, Decidable (BeginsUnlocked s a)
  | (i, .begin _) => inferInstanceAs (Decidable (s.held i = []))
  | (_, .finish) | (_, .answer _) | (_, .run _) | (_, .others _) => .isTrue trivial

/-- An operation goes on, or its foreign call answers, in a task that holds a
lock of rank `r` or more. -/
def GoesOn (rank : L → Nat) (r : Nat) (s : Crew ι M L X C Ret) : ι × Action M C Op Ret → Prop
  | (i, .run _) | (i, .answer _) => ∃ l ∈ s.held i, r ≤ rank l
  | (_, .begin _) | (_, .finish) | (_, .others _) => False

/-- Every task takes its locks in order, and a lock has the owner that holds it. -/
structure Ordered (rank : L → Nat) (s : Crew ι M L X C Ret) : Prop where
  owned : ∀ l i, s.owner l = some i ↔ l ∈ s.held i
  ascending : ∀ i, (s.task i).Ascending rank

/-! ### No circle -/

/-- Along a chain of waiting tasks the wanted locks get higher. -/
theorem Ordered.chain (h : Ordered rank s) (hij : Relation.TransGen s.Waits i j) {m : L}
    (hi : (s.task i).acquiring = some l) (hj : (s.task j).acquiring = some m) : rank l < rank m := by
  have hone : ∀ {i k : ι} {l m : L}, s.Waits i k → (s.task i).acquiring = some l →
      (s.task k).acquiring = some m → rank l < rank m := by
    rintro i k l m ⟨l', hl', howner⟩ hi hk
    rw [hl'] at hi
    cases hi
    exact (h.ascending k).below hk l ((h.owned l k).1 howner)
  induction hij generalizing m with
  | single hw => exact hone hw hi hj
  | tail hchain hw ih =>
    obtain ⟨l', hl', howner⟩ := hw
    exact Nat.lt_trans (ih hl') (hone ⟨l', hl', howner⟩ hl' hj)

theorem Ordered.no_circle (h : Ordered rank s) : ¬ Relation.TransGen s.Waits i i := by
  intro hii
  obtain ⟨j, ⟨l, hl, -⟩, -⟩ := Relation.TransGen.head'_iff.1 hii
  exact absurd (h.chain hii hl hl) (Nat.lt_irrefl _)

/-! ### Steps -/

variable [DecidableEq ι] [DecidableEq L]

/-- After a step of `i`. -/
def put (s : Crew ι M L X C Ret) (i : ι) (t : Task M L X C Ret) : Crew ι M L X C Ret where
  data := t.data
  owner l := if l ∈ t.held then some i else if s.owner l = some i then none else s.owner l
  held := Function.update s.held i t.held
  stack := Function.update s.stack i t.stack

/-- The data change by steps of the tasks only. -/
def step (code : Op → Prog M L X C Ret Unit) (s : Crew ι M L X C Ret) :
    ι × Action M C Op Ret → Option (Crew ι M L X C Ret)
  | (_, .others _) => none
  | (i, .run b) => if s.blocked i then none else (Task.step code (s.task i) (.run b)).map (s.put i)
  | (i, a) => (Task.step code (s.task i) a).map (s.put i)

/-- Tasks that begin in foreign code, over any data. -/
def system (ι : Type) [DecidableEq ι] (code : Op → Prog M L X C Ret Unit) :
    System (Crew ι M L X C Ret) (ι × Action M C Op Ret) where
  init s := (∀ l, s.owner l = none) ∧ (∀ i, s.held i = []) ∧ ∀ i, s.stack i = []
  step := step code

variable {code : Op → Prog M L X C Ret Unit}

theorem task_put (t : Task M L X C Ret) :
    (s.put i t).held j = (if j = i then t.held else s.held j) ∧
      (s.put i t).stack j = if j = i then t.stack else s.stack j := by
  simp [put, Function.update_apply]

/-- A step of the tasks is a step of one of them. -/
theorem step_inv {a : ι × Action M C Op Ret} (h : step code s a = some s') :
    ∃ t, Task.step code (s.task a.1) a.2 = some t ∧ s' = s.put a.1 t ∧
      (∀ l, (s.task a.1).acquiring = some l → (∃ b, a.2 = .run b) → s.owner l = none) := by
  obtain ⟨i, a⟩ := a
  cases a with
  | others m => cases h
  | run b =>
    simp only [step] at h
    split at h
    · cases h
    · rename_i hfree
      obtain ⟨t, ht, rfl⟩ := Option.map_eq_some_iff.1 h
      refine ⟨t, ht, rfl, ?_⟩
      intro l hl _
      simp only [blocked, hl] at hfree
      simpa using hfree
  | begin op =>
    obtain ⟨t, ht, rfl⟩ := Option.map_eq_some_iff.1 h
    refine ⟨t, ht, rfl, ?_⟩
    rintro _ _ ⟨b, ⟨⟩⟩
  | finish =>
    obtain ⟨t, ht, rfl⟩ := Option.map_eq_some_iff.1 h
    refine ⟨t, ht, rfl, ?_⟩
    rintro _ _ ⟨b, ⟨⟩⟩
  | answer f =>
    obtain ⟨t, ht, rfl⟩ := Option.map_eq_some_iff.1 h
    refine ⟨t, ht, rfl, ?_⟩
    rintro _ _ ⟨b, ⟨⟩⟩

theorem Ordered.step (hcode : ∀ op, (code op).Level rank []) {a : ι × Action M C Op Ret} (h : Ordered rank s)
    (ha : BeginsUnlocked s a) (hs : step code s a = some s') : Ordered rank s' := by
  obtain ⟨t, ht, rfl, hfree⟩ := step_inv hs
  obtain ⟨i, a⟩ := a
  refine ⟨?_, ?_⟩
  · intro l j
    have hheld := (task_put (s := s) (i := i) (j := j) t).1
    rw [hheld]
    simp only [put]
    by_cases hj : j = i
    · subst hj
      rw [if_pos rfl]
      split
      · simp_all
      · split <;> simp_all
    · rw [if_neg hj]
      split
      · rename_i hl
        refine ⟨fun hi => absurd (Option.some.inj hi).symm hj, fun hlj => ?_⟩
        -- A lock that `i` has taken was free, so `j` does not hold it.
        have howner := (h.owned l j).2 hlj
        rcases Task.held_step ht hl with hli | ⟨hli, hrun⟩
        · have := (h.owned l i).2 hli
          rw [howner] at this
          exact this.symm ▸ rfl
        · have := hfree l hli hrun
          rw [howner] at this
          cases this
      · split
        · rename_i howner
          refine ⟨fun hi => (by cases hi), fun hlj => ?_⟩
          have := (h.owned l j).2 hlj
          rw [howner] at this
          exact absurd (Option.some.inj this).symm hj
        · exact h.owned l j
  · intro j
    by_cases hj : j = i
    · subst hj
      have hasc : Task.Ascending rank t := by
        refine (h.ascending j).step hcode (fun op hop => ?_) ht
        subst hop
        exact ha
      have htask : (s.put j t).task j = t := by simp [task, put]
      rwa [htask]
    · refine (h.ascending j).congr ?_ ?_
      · simp [task, put, hj]
      · simp [task, put, hj]

theorem ordered_reachable (hcode : ∀ op, (code op).Level rank [])
    (h : (system ι code).ReachableWhen BeginsUnlocked s) : Ordered rank s := by
  refine h.invariant (fun s hs => ?_) fun s a s' ho ha hst => ho.step hcode ha hst
  obtain ⟨howner, hheld, hstack⟩ := hs
  refine ⟨?_, ?_⟩
  · intro l i
    simp [howner, hheld]
  · intro i
    refine ⟨?_, fun _ => hheld i, ?_⟩
    · intro p rest hp
      have hp : s.stack i = p :: rest := hp
      rw [hstack] at hp
      cases hp
    · intro p rest hp
      have hp : s.stack i = p :: rest := hp
      rw [hstack] at hp
      cases hp

/-! ### Progress -/

/-- Tasks that hold lower locks only do not move. -/
theorem still {r : Nat} (hl : (system ι code).Leads (GoesOn rank r) s s') (hi : ∀ l ∈ s.held i, rank l < r) :
    s'.held i = s.held i ∧ s'.stack i = s.stack i := by
  refine hl.invariant (I := fun u => u.held i = s.held i ∧ u.stack i = s.stack i) ⟨rfl, rfl⟩ ?_
  rintro u ⟨j, a⟩ u' ⟨hheld, hstack⟩ ha hs
  obtain ⟨t, -, rfl, -⟩ := step_inv hs
  have hji : i ≠ j := by
    rintro rfl
    have hholds : ∃ l ∈ u.held i, r ≤ rank l := by
      cases a <;> first | exact ha | exact ha.elim
    obtain ⟨l, hl, hr⟩ := hholds
    rw [hheld] at hl
    exact absurd (hi l hl) (Nat.not_lt.2 hr)
  obtain ⟨hh, hst⟩ := task_put (s := u) (i := j) (j := i) t
  rw [hh, hst, if_neg hji, if_neg hji]
  exact ⟨hheld, hstack⟩

theorem step_run {b : Bool} {t : Task M L X C Ret} (hfree : ∀ l, (s.task i).acquiring = some l → s.owner l = none)
    (ht : Task.step code (s.task i) (.run b) = some t) : step code s (i, .run b) = some (s.put i t) := by
  have hb : s.blocked i = false := by
    unfold blocked
    split
    · rename_i l hl
      rw [hfree l hl]
      rfl
    · rfl
  simp [step, hb, ht]

theorem step_answer {f : ∀ c, Option (Ret c)} {t : Task M L X C Ret}
    (ht : Task.step code (s.task i) (.answer f) = some t) : step code s (i, .answer f) = some (s.put i t) := by
  simp [step, ht]

/-- A holder of `l` goes on. -/
theorem Ordered.goes (hcode : ∀ op, (code op).Level rank []) {a : Action M C Op Ret} (h : Ordered rank s)
    (hl : l ∈ s.held j) (ha : (∃ b, a = .run b) ∨ ∃ f, a = .answer f) (hs : Crew.step code s (j, a) = some s') :
    (system ι code).Leads (GoesOn rank (rank l)) s s' ∧ Ordered rank s' := by
  have hgoes : GoesOn rank (rank l) s (j, a) := by
    rcases ha with ⟨b, rfl⟩ | ⟨f, rfl⟩ <;> exact ⟨l, hl, Nat.le_refl _⟩
  have hbegins : BeginsUnlocked s (j, a) := by
    rcases ha with ⟨b, rfl⟩ | ⟨f, rfl⟩ <;> trivial
  exact ⟨.step hgoes hs, h.step hcode hbegins hs⟩

/-- Whoever holds `l` gives it back in the end; what it waits for on the way is
given back before. -/
theorem Ordered.released {bound : Nat} (hbound : ∀ l, rank l < bound) (hcode : ∀ op, (code op).Level rank []) (l : L)
    (h : Ordered rank s) :
    ∃ s', (system ι code).Leads (GoesOn rank (rank l)) s s' ∧ Ordered rank s' ∧ s'.owner l = none := by
  induction hn : bound - rank l using Nat.strongRecOn generalizing l s with
  | ind n ih =>
    cases howner : s.owner l with
    | none => exact ⟨s, .refl _, h, howner⟩
    | some j =>
      -- The holder goes on to the end of its innermost operation.
      have hrest : ∀ (p : Prog M L X C Ret Unit) (s : Crew ι M L X C Ret) (rest : List (Prog M L X C Ret Unit)),
          Ordered rank s → s.stack j = p :: rest → l ∈ s.held j →
          ∃ s', (system ι code).Leads (GoesOn rank (rank l)) s s' ∧ Ordered rank s' ∧ s'.owner l = none := by
        intro p
        induction p with
        | ret a =>
          intro s rest h hst hl
          have hheld : s.held j = [] := (h.ascending j).top _ _ hst
          rw [hheld] at hl
          cases hl
        | raise =>
          intro s rest h hst hl
          have hheld : s.held j = [] := (h.ascending j).top _ _ hst
          rw [hheld] at hl
          cases hl
        | acquire m k ihk =>
          intro s rest h hst hl
          have hbelow : ∀ l ∈ s.held j, rank l < rank m := ((h.ascending j).top _ _ hst).1
          have hlm := hbelow l hl
          have hm := hbound m
          obtain ⟨s₁, hleads, h₁, hfree⟩ := ih (bound - rank m) (by omega) m h rfl
          obtain ⟨hheld, hstack⟩ := still hleads hbelow
          have hst₁ : s₁.stack j = .acquire m k :: rest := hstack.trans hst
          have hmono : (system ι code).Leads (GoesOn rank (rank l)) s s₁ := by
            refine hleads.mono_with (I := fun _ => True) trivial (fun _ _ _ _ _ _ => trivial) ?_
            rintro u ⟨i, a⟩ - hgoes
            cases a <;> first | exact hgoes.elim | skip
            all_goals
              obtain ⟨l', hl', hr⟩ := hgoes
              exact ⟨l', hl', Nat.le_trans (Nat.le_of_lt hlm) hr⟩
          have hm₁ : m ∉ s₁.held j := by
            intro hmem
            rw [hheld] at hmem
            exact absurd (hbelow m hmem) (Nat.lt_irrefl _)
          have ht : Task.step code (s₁.task j) (.run true) = some ⟨s₁.data, m :: s₁.held j, k :: rest⟩ := by
            simp [Task.step, task, hst₁, hm₁]
          have hrun := step_run (fun l' hl' => by
            simp only [Task.acquiring, task, hst₁, Option.some.injEq] at hl'
            rw [← hl', hfree]) ht
          have hl₁ : l ∈ s₁.held j := by rwa [hheld]
          obtain ⟨hone, h₂⟩ := h₁.goes hcode hl₁ (.inl ⟨_, rfl⟩) hrun
          obtain ⟨s', hleads', hs'⟩ := ihk _ rest h₂ (by simp [put]) (by simp [put, hl₁])
          exact ⟨s', (hmono.trans hone).trans hleads', hs'⟩
        | release m k ihk =>
          intro s rest h hst hl
          obtain ⟨below, hheld, -⟩ := (h.ascending j).top _ _ hst
          have hheld : s.held j = m :: below := hheld
          have ht : Task.step code (s.task j) (.run true) = some ⟨s.data, below, k :: rest⟩ := by
            simp [Task.step, task, hst, hheld]
          have hrun := step_run (fun l' hl' => by simp [Task.acquiring, task, hst] at hl') ht
          obtain ⟨hone, h'⟩ := h.goes hcode hl (.inl ⟨_, rfl⟩) hrun
          by_cases hbelow : l ∈ below
          · obtain ⟨s', hleads', hs'⟩ := ihk _ rest h' (by simp [put]) (by simp [put, hbelow])
            exact ⟨s', hone.trans hleads', hs'⟩
          · refine ⟨_, hone, h', ?_⟩
            have howner := (h.owned l j).2 hl
            simp [put, hbelow, howner]
        | access x u k ihk =>
          intro s rest h hst hl
          have ht : Task.step code (s.task j) (.run true) = some ⟨u s.data, s.held j, k s.data :: rest⟩ := by
            simp [Task.step, task, hst]
          have hrun := step_run (fun l' hl' => by simp [Task.acquiring, task, hst] at hl') ht
          obtain ⟨hone, h'⟩ := h.goes hcode hl (.inl ⟨_, rfl⟩) hrun
          obtain ⟨s', hleads', hs'⟩ := ihk s.data _ rest h' (by simp [put]) (by simp [put, hl])
          exact ⟨s', hone.trans hleads', hs'⟩
        | choose k ihk =>
          intro s rest h hst hl
          have ht : Task.step code (s.task j) (.run true) = some ⟨s.data, s.held j, k true :: rest⟩ := by
            simp [Task.step, task, hst]
          have hrun := step_run (fun l' hl' => by simp [Task.acquiring, task, hst] at hl') ht
          obtain ⟨hone, h'⟩ := h.goes hcode hl (.inl ⟨_, rfl⟩) hrun
          obtain ⟨s', hleads', hs'⟩ := ihk true _ rest h' (by simp [put]) (by simp [put, hl])
          exact ⟨s', hone.trans hleads', hs'⟩
        | call c k ihk =>
          intro s rest h hst hl
          have ht : Task.step code (s.task j) (.answer fun _ => none) =
              some ⟨s.data, s.held j, k none :: rest⟩ := by
            simp [Task.step, task, hst]
          have hrun := step_answer ht
          obtain ⟨hone, h'⟩ := h.goes hcode hl (.inr ⟨_, rfl⟩) hrun
          obtain ⟨s', hleads', hs'⟩ := ihk none _ rest h' (by simp [put]) (by simp [put, hl])
          exact ⟨s', hone.trans hleads', hs'⟩
      have hl := (h.owned l j).1 howner
      cases hst : s.stack j with
      | nil =>
        have hheld : s.held j = [] := (h.ascending j).outside hst
        rw [hheld] at hl
        cases hl
      | cons p rest => exact hrest p s rest h hst hl

end Crew
end Boundary
