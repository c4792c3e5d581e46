import ESPressioThreads.Lib.Transition
/-!
# The lock boundary

Programs that lock, read and write shared data, and call foreign code. Foreign
code may begin another operation of the component before it answers, to any
depth, so that a task is a stack of programs; the locks it holds are not
recursive. Between its steps other tasks may change the data.

A program respects the boundary when it holds no lock at a call, takes no lock
that it holds, and gives back what it took whether it returns or throws. A task
whose operations all respect it never calls out under a lock, and never waits
for a lock of its own.
-/

namespace Boundary

open Transition

/-- A program over the data `M`, with the locks `L` and the foreign calls `C`.
`access` reads the data and updates it, `x : X` telling what it looks at;
`choose` is decided outside, by an allocation or the platform; a foreign call
answers with a value of its type, or throws. -/
inductive Prog (M L X C : Type) (Ret : C → Type) (α : Type) : Type
  | ret (a : α)
  | raise
  | acquire (l : L) (k : Prog M L X C Ret α)
  | release (l : L) (k : Prog M L X C Ret α)
  | access (x : X) (update : M → M) (k : M → Prog M L X C Ret α)
  | choose (k : Bool → Prog M L X C Ret α)
  | call (c : C) (k : Option (Ret c) → Prog M L X C Ret α)

namespace Prog
variable {M L X C : Type} {Ret : C → Type} {α β : Type}

def bind : Prog M L X C Ret α → (α → Prog M L X C Ret β) → Prog M L X C Ret β
  | ret a, f => f a
  | raise, _ => raise
  | acquire l k, f => acquire l (k.bind f)
  | release l k, f => release l (k.bind f)
  | access x u k, f => access x u fun m => (k m).bind f
  | choose k, f => choose fun b => (k b).bind f
  | call c k, f => call c fun a => (k a).bind f

instance : Monad (Prog M L X C Ret) where
  pure := ret
  bind := bind

/-- `catch (...)`. -/
def rescue : Prog M L X C Ret α → Prog M L X C Ret α → Prog M L X C Ret α
  | ret a, _ => ret a
  | raise, h => h
  | acquire l k, h => acquire l (k.rescue h)
  | release l k, h => release l (k.rescue h)
  | access x u k, h => access x u fun m => (k m).rescue h
  | choose k, h => choose fun b => (k b).rescue h
  | call c k, h => call c fun a => (k a).rescue h

/-- A destructor: `last` is run however `p` ends. -/
def afterwards (p : Prog M L X C Ret α) (last : Prog M L X C Ret Unit) : Prog M L X C Ret α :=
  match p with
  | ret a => last.bind fun _ => ret a
  | raise => last.bind fun _ => raise
  | acquire l k => acquire l (k.afterwards last)
  | release l k => release l (k.afterwards last)
  | access x u k => access x u fun m => (k m).afterwards last
  | choose k => choose fun b => (k b).afterwards last
  | call c k => call c fun a => (k a).afterwards last

/-- A scope with a lock guard. -/
def locked (l : L) (p : Prog M L X C Ret α) : Prog M L X C Ret α :=
  acquire l (p.afterwards (release l (ret ())))

/-- A `for` loop over a list. -/
def each (f : β → Prog M L X C Ret Unit) : List β → Prog M L X C Ret Unit
  | [] => ret ()
  | x :: xs => (f x).bind fun _ => each f xs

/-! ## Programs that respect the boundary -/

/-- From `held`, the program respects the boundary; it returns with `Q` and
throws with `E`. `P` is assumed of the data at each access. -/
def Respects (P : X → M → List L → Prop) (Q : α → List L → Prop) (E : List L → Prop) :
    Prog M L X C Ret α → List L → Prop
  | ret a, held => Q a held
  | raise, held => E held
  | acquire l k, held => l ∉ held ∧ Respects P Q E k (l :: held)
  | release l k, held => ∃ rest, held = l :: rest ∧ Respects P Q E k rest
  | access x _ k, held => ∀ m, P x m held → Respects P Q E (k m) held
  | choose k, held => ∀ b, Respects P Q E (k b) held
  | call _ k, held => held = [] ∧ ∀ a, Respects P Q E (k a) held

/-- From the locks `base`, back to them. -/
abbrev Tidy (P : X → M → List L → Prop) (base : List L) (Q : α → Prop) (p : Prog M L X C Ret α) : Prop :=
  p.Respects P (fun a held => held = base ∧ Q a) (fun held => held = base) base

variable {P : X → M → List L → Prop} {base held : List L} {Q Q' : α → List L → Prop} {R : β → List L → Prop}
  {E E' : List L → Prop} {l : L} {p : Prog M L X C Ret α}

theorem Respects.mono (h : p.Respects P Q E held) (hQ : ∀ a held, Q a held → Q' a held)
    (hE : ∀ held, E held → E' held) : p.Respects P Q' E' held := by
  induction p generalizing held with
  | ret a => exact hQ a _ h
  | raise => exact hE _ h
  | acquire l k ih => exact ⟨h.1, ih h.2⟩
  | release l k ih => obtain ⟨rest, he, hk⟩ := h; exact ⟨rest, he, ih hk⟩
  | access x u k ih => exact fun m hm => ih m (h m hm)
  | choose k ih => exact fun b => ih b (h b)
  | call c k ih => exact ⟨h.1, fun a => ih a (h.2 a)⟩

theorem Respects.bind {f : α → Prog M L X C Ret β}
    (h : p.Respects P (fun a held => (f a).Respects P R E held) E held) : (p.bind f).Respects P R E held := by
  induction p generalizing held with
  | ret a => exact h
  | raise => exact h
  | acquire l k ih => exact ⟨h.1, ih h.2⟩
  | release l k ih => obtain ⟨rest, he, hk⟩ := h; exact ⟨rest, he, ih hk⟩
  | access x u k ih => exact fun m hm => ih m (h m hm)
  | choose k ih => exact fun b => ih b (h b)
  | call c k ih => exact ⟨h.1, fun a => ih a (h.2 a)⟩

theorem Respects.rescue {handler : Prog M L X C Ret α}
    (h : p.Respects P Q (fun held => handler.Respects P Q E held) held) :
    (p.rescue handler).Respects P Q E held := by
  induction p generalizing held with
  | ret a => exact h
  | raise => exact h
  | acquire l k ih => exact ⟨h.1, ih h.2⟩
  | release l k ih => obtain ⟨rest, he, hk⟩ := h; exact ⟨rest, he, ih hk⟩
  | access x u k ih => exact fun m hm => ih m (h m hm)
  | choose k ih => exact fun b => ih b (h b)
  | call c k ih => exact ⟨h.1, fun a => ih a (h.2 a)⟩

theorem Respects.afterwards {last : Prog M L X C Ret Unit}
    (h : p.Respects P (fun a held => last.Respects P (fun _ held => Q a held) E held)
      (fun held => last.Respects P (fun _ held => E held) E held) held) :
    (p.afterwards last).Respects P Q E held := by
  induction p generalizing held with
  | ret a => exact h.bind
  | raise => exact h.bind
  | acquire l k ih => exact ⟨h.1, ih h.2⟩
  | release l k ih => obtain ⟨rest, he, hk⟩ := h; exact ⟨rest, he, ih hk⟩
  | access x u k ih => exact fun m hm => ih m (h m hm)
  | choose k ih => exact fun b => ih b (h b)
  | call c k ih => exact ⟨h.1, fun a => ih a (h.2 a)⟩

theorem Respects.locked (hl : l ∉ held)
    (h : p.Respects P (fun a held => ∃ rest, held = l :: rest ∧ Q a rest)
      (fun held => ∃ rest, held = l :: rest ∧ E rest) (l :: held)) : (locked l p).Respects P Q E held :=
  ⟨hl, .afterwards h⟩

section Tidy
variable {Q : α → Prop} {R : β → Prop}

theorem Tidy.ret {a : α} (ha : Q a) : (Prog.ret a : Prog M L X C Ret α).Tidy P base Q := ⟨rfl, ha⟩

theorem Tidy.raise : (Prog.raise : Prog M L X C Ret α).Tidy P base Q := rfl

theorem Tidy.bind {f : α → Prog M L X C Ret β} (hp : p.Tidy P base Q) (hf : ∀ a, Q a → (f a).Tidy P base R) :
    (p >>= f).Tidy P base R := by
  refine Respects.bind (Respects.mono hp ?_ fun _ h => h)
  rintro a _ ⟨rfl, ha⟩
  exact hf a ha

theorem Tidy.rescue {handler : Prog M L X C Ret α} (hp : p.Tidy P base Q) (hh : handler.Tidy P base Q) :
    (p.rescue handler).Tidy P base Q := by
  refine Respects.rescue (Respects.mono hp (fun _ _ h => h) ?_)
  rintro _ rfl
  exact hh

theorem Tidy.afterwards {last : Prog M L X C Ret Unit} (hp : p.Tidy P base Q)
    (hl : last.Tidy P base fun _ => True) : (p.afterwards last).Tidy P base Q := by
  refine Respects.afterwards (Respects.mono hp ?_ ?_)
  · rintro a _ ⟨rfl, ha⟩
    exact Respects.mono hl (fun _ _ h => ⟨h.1, ha⟩) fun _ h => h
  · rintro _ rfl
    exact Respects.mono hl (fun _ _ h => h.1) fun _ h => h

theorem Tidy.locked (hl : l ∉ base) (hp : p.Tidy P (l :: base) Q) : (Prog.locked l p).Tidy P base Q := by
  refine Respects.locked hl (Respects.mono hp ?_ ?_)
  · rintro a _ ⟨rfl, ha⟩
    exact ⟨base, rfl, rfl, ha⟩
  · rintro _ rfl
    exact ⟨base, rfl, rfl⟩

theorem Tidy.each {f : β → Prog M L X C Ret Unit} {xs : List β} (hf : ∀ x ∈ xs, (f x).Tidy P base fun _ => True) :
    (Prog.each f xs).Tidy P base fun _ => True := by
  induction xs with
  | nil => exact .ret trivial
  | cons x xs ih =>
    have hrest := ih fun y hy => hf y (List.mem_cons_of_mem _ hy)
    exact .bind (hf x List.mem_cons_self) fun _ _ => hrest

end Tidy

/-- The rest of an operation that began without a lock. -/
abbrev Ends (P : X → M → List L → Prop) (p : Prog M L X C Ret Unit) (held : List L) : Prop :=
  p.Respects P (fun _ held => held = []) (fun held => held = []) held

theorem Tidy.ends {p : Prog M L X C Ret Unit} (h : p.Tidy P [] fun _ => True) : p.Ends P [] :=
  h.mono (fun _ _ h => h.1) fun _ h => h

end Prog

/-! ## Tasks -/

/-- A task: the locks it holds and the operations it is inside of, the last one
begun first. -/
structure Task (M L X C : Type) (Ret : C → Type) where
  data : M
  held : List L
  stack : List (Prog M L X C Ret Unit)

/-- What a task does next: `begin op` from foreign code; `finish` leaves an
operation; `answer f` returns from foreign code with `f`; `run` goes on to the
next step, `b` being what is decided outside; `others m` are the other tasks. -/
inductive Action (M C Op : Type) (Ret : C → Type)
  | begin (op : Op)
  | finish
  | answer (f : ∀ c, Option (Ret c))
  | run (b : Bool)
  | others (m : M)

namespace Task
variable {M L X C Op : Type} {Ret : C → Type} {P : X → M → List L → Prop} {s s' : Task M L X C Ret}

/-- The foreign call that the task is in. -/
def calling (s : Task M L X C Ret) : Option C :=
  match s.stack with
  | .call c _ :: _ => some c
  | _ => none

/-- The lock that the task asks for. -/
def acquiring (s : Task M L X C Ret) : Option L :=
  match s.stack with
  | .acquire l _ :: _ => some l
  | _ => none

/-- What the task is about to look at. -/
def accessing (s : Task M L X C Ret) : Option X :=
  match s.stack with
  | .access x _ _ :: _ => some x
  | _ => none

/-- Foreign code runs while the task holds a lock. -/
def CallsLocked (s : Task M L X C Ret) : Prop := ∃ c, s.calling = some c ∧ s.held ≠ []

/-- The task waits for a lock that it holds. -/
def SelfDeadlocked (s : Task M L X C Ret) : Prop := ∃ l ∈ s.held, s.acquiring = some l

/-- The innermost operation respects the boundary, and the ones around it wait
in foreign code without a lock. -/
structure Bounded (P : X → M → List L → Prop) (s : Task M L X C Ret) : Prop where
  top : ∀ p rest, s.stack = p :: rest → p.Ends P s.held
  outside : s.stack = [] → s.held = []
  waiting : ∀ p rest, s.stack = p :: rest → ∀ q ∈ rest, (∃ c k, q = .call c k) ∧ q.Ends P []

theorem Bounded.goto {p p' : Prog M L X C Ret Unit} {rest : List (Prog M L X C Ret Unit)} {m : M} {held : List L}
    (h : Bounded P s) (hs : s.stack = p :: rest) (hp : p'.Ends P held) :
    Bounded P ⟨m, held, p' :: rest⟩ where
  top q r he := by cases he; exact hp
  outside he := by cases he
  waiting q r he := by cases he; exact h.waiting p rest hs

theorem Bounded.not_callsLocked (h : Bounded P s) : ¬ s.CallsLocked := by
  rintro ⟨c, hc, hheld⟩
  unfold calling at hc
  split at hc
  · rename_i hst
    exact hheld (h.top _ _ hst).1
  · cases hc

theorem Bounded.not_selfDeadlocked (h : Bounded P s) : ¬ s.SelfDeadlocked := by
  rintro ⟨l, hheld, hl⟩
  unfold acquiring at hl
  split at hl
  · rename_i hst
    cases hl
    exact (h.top _ _ hst).1 hheld
  · cases hl

/-! ### Steps -/

section
variable [DecidableEq L] (code : Op → Prog M L X C Ret Unit)

def step (s : Task M L X C Ret) : Action M C Op Ret → Option (Task M L X C Ret)
  | .begin op =>
    match s.stack with
    | [] | .call _ _ :: _ => some { s with stack := code op :: s.stack }
    | _ => none
  | .finish =>
    match s.stack with
    | .ret _ :: rest | .raise :: rest => some { s with stack := rest }
    | _ => none
  | .answer f =>
    match s.stack with
    | .call c k :: rest => some { s with stack := k (f c) :: rest }
    | _ => none
  | .run b =>
    match s.stack with
    | .acquire l k :: rest => if l ∈ s.held then none else some { s with held := l :: s.held, stack := k :: rest }
    | .release l k :: rest => some { s with held := s.held.erase l, stack := k :: rest }
    | .access _ u k :: rest => some { s with data := u s.data, stack := k s.data :: rest }
    | .choose k :: rest => some { s with stack := k b :: rest }
    | _ => none
  | .others m => some { s with data := m }

/-- Tasks that begin in foreign code, over any data. -/
def system : System (Task M L X C Ret) (Action M C Op Ret) where
  init s := s.held = [] ∧ s.stack = []
  step := step code

/-- The data meet `P` at an access. -/
def Granted (P : X → M → List L → Prop) (s : Task M L X C Ret) : Action M C Op Ret → Prop
  | .run _ => ∀ x, s.accessing = some x → P x s.data s.held
  | _ => True

instance {P : X → M → List L → Prop} [∀ x m held, Decidable (P x m held)] (s : Task M L X C Ret) :
    ∀ a : Action M C Op Ret, Decidable (Granted P s a)
  | .run _ =>
    match h : s.accessing with
    | none => .isTrue fun x hx => by rw [h] at hx; cases hx
    | some x => decidable_of_iff (P x s.data s.held) (by simp [Granted, h])
  | .begin _ | .finish | .answer _ | .others _ => .isTrue trivial

variable {code}

theorem Bounded.step (hcode : ∀ op, (code op).Tidy P [] fun _ => True) {a : Action M C Op Ret} (h : Bounded P s)
    (ha : Granted P s a) (hs : Task.step code s a = some s') : Bounded P s' := by
  cases a with
  | begin op =>
    simp only [Task.step] at hs
    split at hs
    · rename_i hnil
      cases hs
      rw [hnil]
      refine ⟨fun q r he => ?_, nofun, fun q r he => ?_⟩
      · cases he
        rw [h.outside hnil]
        exact (hcode op).ends
      · cases he; nofun
    · rename_i c k rest hcall
      cases hs
      have htop := h.top _ _ hcall
      refine ⟨fun q r he => ?_, nofun, fun q r he => ?_⟩
      · cases he
        rw [htop.1]
        exact (hcode op).ends
      · cases he
        rw [hcall]
        intro p hp
        rcases List.mem_cons.1 hp with rfl | hp
        · exact ⟨⟨c, k, rfl⟩, htop.1 ▸ htop⟩
        · exact h.waiting _ _ hcall p hp
    · cases hs
  | finish =>
    -- The call under the one that ends waits with no lock of its task held.
    have hpop : ∀ p rest, s.stack = p :: rest → s.held = [] → Bounded P { s with stack := rest } := by
      intro p rest hst hheld
      refine ⟨fun q r he => ?_, fun _ => hheld, fun q r he t ht => ?_⟩
      · rw [hheld]
        have hrest : rest = q :: r := he
        exact (h.waiting p rest hst q (by rw [hrest]; exact List.mem_cons_self)).2
      · have hrest : rest = q :: r := he
        exact h.waiting p rest hst t (by rw [hrest]; exact List.mem_cons_of_mem _ ht)
    simp only [Task.step] at hs
    split at hs
    · rename_i hst; cases hs; exact hpop _ _ hst (h.top _ _ hst)
    · rename_i hst; cases hs; exact hpop _ _ hst (h.top _ _ hst)
    · cases hs
  | answer f =>
    simp only [Task.step] at hs
    split at hs
    · rename_i hst; cases hs; exact h.goto hst ((h.top _ _ hst).2 _)
    · cases hs
  | run b =>
    simp only [Task.step] at hs
    split at hs
    · rename_i hst
      split at hs <;> cases hs
      exact h.goto hst (h.top _ _ hst).2
    · rename_i l k rest hst
      obtain ⟨below, hheld, hk⟩ := h.top _ _ hst
      cases hs
      rw [hheld, List.erase_cons_head]
      exact h.goto hst hk
    · rename_i x u k rest hst
      cases hs
      have hgranted := ha x (by simp only [accessing, hst])
      exact h.goto hst (h.top _ _ hst _ hgranted)
    · rename_i hst; cases hs; exact h.goto hst (h.top _ _ hst b)
    · cases hs
  | others m =>
    cases hs
    exact ⟨h.top, h.outside, h.waiting⟩

/-- Operations that respect the boundary keep every task within it. -/
theorem bounded_of_reachable (hcode : ∀ op, (code op).Tidy P [] fun _ => True)
    (h : (system code).ReachableWhen (Granted P) s) : Bounded P s := by
  refine h.invariant (fun s hs => ?_) fun s a s' hb ha hst => hb.step hcode ha hst
  obtain ⟨hheld, hstack⟩ := hs
  refine ⟨fun p r he => ?_, fun _ => hheld, fun p r he => ?_⟩ <;> (rw [hstack] at he; cases he)

end

end Task
end Boundary
