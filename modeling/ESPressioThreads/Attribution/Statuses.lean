import ESPressioThreads.Attribution.Escaping
/-!
# What `Initialize` returns when user code throws

A call of `Initialize` returns `InitializationException` exactly when a throw
came to it. So it says whether `OnInitialization` or a callback threw on its
task, as long as these throws come to it.
-/

namespace ESPressio.Attribution

open Transition ESPressio.Thread ESPressio.Lifecycle
open ESPressio.Attempts (exec_initializePc finished_step initializing_step free_step)

variable {c c' : State} {w w' : World} {s s' : Shared} {p q : TaskId} {ok : Bool} {f : Frame} {f' : Option Frame}
  {f₀ : Frame} {a : TaskId × Nat}
  {m n k : Nat} {t t' : InitializePc} {log l : List Event} {e : Option Event}

/-! ## The call that an exception reaches -/

/-- It runs user code that takes exceptions, and the calls above it pass them on. -/
theorem reaches_some (h : reaches w p n = some k) : k ≤ n ∧ Frame.attributes (w.frames (p, k)) = true ∧
    ∀ j, k ≤ j → j < n → Frame.propagates (w.frames (p, j)) = true := by
  induction n with
  | zero =>
    obtain ⟨ha, hk⟩ := Option.ite_none_right_eq_some.1 h
    cases hk
    exact ⟨Nat.le_refl _, ha, fun j _ hj => absurd hj (Nat.not_lt_zero j)⟩
  | succ n ih =>
    simp only [reaches] at h
    split at h
    · cases h
      exact ⟨Nat.le_refl _, ‹_›, fun j hj hlt => absurd hlt (Nat.not_lt_of_le hj)⟩
    · obtain ⟨hp, h⟩ := Option.ite_none_right_eq_some.1 h
      obtain ⟨hle, ha, hchain⟩ := ih h
      refine ⟨Nat.le_succ_of_le hle, ha, fun j hj hlt => ?_⟩
      rcases Nat.lt_or_eq_of_le (Nat.le_of_lt_succ hlt) with hlt | rfl
      · exact hchain j hj hlt
      · exact hp

theorem reaches_self (h : Frame.attributes (w.frames (p, n)) = true) : reaches w p n = some n := by
  cases n <;> exact if_pos h

/-! ## Callbacks that have failed -/

/-- A callback of the transition has failed. -/
def suspect (tr : StateTransition) : Bool :=
  tr.failed || tr.throws || tr.pc = .loadInProgress || tr.pc = .loadInitializing

theorem suspect_step {tr tr' : StateTransition} (h : stepTransition s p tr ok = some (s', .goto tr'))
    (hs : suspect tr' = true) : suspect tr = true ∨
      (ok = false ∧ (tr.pc = .onStateChange ∨ tr.pc = .onThreadEvent ∨ tr.pc = .notifyObservers)) := by
  cases hpc : tr.pc with
  | lock =>
    simp only [stepTransition, hpc] at h
    split at h <;> cases h
    exact .inl (by simpa [suspect, hpc] using hs)
  | check =>
    simp only [stepTransition, hpc] at h
    split at h <;> cases h <;> exact .inl (by simpa [suspect, hpc] using hs)
  | onStateChange =>
    simp only [stepTransition, hpc, Option.some.injEq, Prod.mk.injEq, TransitionNext.goto.injEq] at h
    obtain ⟨-, rfl⟩ := h
    cases ok with
    | false => exact .inr ⟨rfl, .inl rfl⟩
    | true => exact .inl (by simp only [suspect] at hs ⊢; simp_all)
  | getThreadState =>
    simp only [stepTransition, hpc, Option.some.injEq, Prod.mk.injEq, TransitionNext.goto.injEq] at h
    obtain ⟨-, rfl⟩ := h
    left
    simp only [suspect] at hs
    split at hs <;> simpa [suspect, hpc] using hs
  | onThreadEvent =>
    simp only [stepTransition, hpc, Option.some.injEq, Prod.mk.injEq, TransitionNext.goto.injEq] at h
    obtain ⟨-, rfl⟩ := h
    cases ok with
    | false => exact .inr ⟨rfl, .inr (.inl rfl)⟩
    | true => exact .inl (by simpa [suspect, hpc] using hs)
  | notifyObservers =>
    simp only [stepTransition, hpc, Option.some.injEq, Prod.mk.injEq, TransitionNext.goto.injEq] at h
    obtain ⟨-, rfl⟩ := h
    cases ok with
    | false => exact .inr ⟨rfl, .inr (.inr rfl)⟩
    | true =>
      left
      cases hfailed : tr.failed <;> simp_all [suspect]
  | loadInProgress | loadInitializing => exact .inl (by simp [suspect, hpc])
  | unlock =>
    simp only [stepTransition, hpc, Option.some.injEq, Prod.mk.injEq] at h
    exact absurd h.2 (by rintro ⟨⟩)

/-! ## The log of a call -/

/-- A call of `Initialize` at `t`, and the part of the log since it began. -/
structure Underway (c : State) (a : TaskId × Nat) (f : Frame) (t : InitializePc) (l : List Event) : Prop where
  called : .called a ∉ l
  reached : Reached l a → caught t = true ∨ (attributes t = true ∧ Owes c a)
  caught : caught t = true → Reached l a
  failed : attributes t = true → ∀ tr, f.transition = some tr → suspect tr = true → Reached l a

/-- The log shows where a call of `Initialize` began. -/
def Told (c : State) (log : List Event) (a : TaskId × Nat) (f : Frame) : Prop :=
  ∀ t, f.pc.initializePc = some t → t ≠ .ensureRegistered →
    ∃ l₀ l, log = l₀ ++ .called a :: l ∧ Underway c a f t l

structure LogInv (c : State) (log : List Event) : Prop where
  underway : ∀ a f, c.world.call a = some f → Told c log a f
  ran : ∀ a l₀ l status l₂, log = l₀ ++ .called a :: (l ++ .returned a status :: l₂) → .called a ∉ l →
    (status = .initializationException ↔ Reached l a)

/-- The step that an event is of. -/
inductive Shows (w : World) (a : TaskId × Nat) (f : Frame) (ok : Bool) : Event → Prop
  | called : f.transition = none → f.pc.initializePc = some .ensureRegistered → Shows w a f ok (.called a)
  | created : f.pc.initializePc = some .create → ok = true → Shows w a f ok (.created a)
  | threw : Frame.propagates f = true → ok = false → Shows w a f ok (.threw a.1 (reaches w a.1 a.2))
  | returned (status : ThreadInitializationStatus) : f.transition = none →
      f.pc.initializePc = some (.finished status) → Shows w a f ok (.returned a status)

theorem shows {x : Event} (h : callEvent w a f ok = some x) : Shows w a f ok x := by
  cases htr : f.transition with
  | some tr =>
    simp only [callEvent, htr] at h
    obtain ⟨hp, he⟩ := Option.ite_none_right_eq_some.1 h
    obtain ⟨hprop, hok⟩ : Frame.propagates f = true ∧ ok = false := by simpa using hp
    cases he
    exact .threw hprop hok
  | none =>
    simp only [callEvent, htr] at h
    obtain ⟨t, ht, h⟩ := Option.bind_eq_some_iff.1 h
    cases t <;> simp only [initializeEvent] at h
    case ensureRegistered => cases h; exact .called htr ht
    case create =>
      obtain ⟨hok, he⟩ := Option.ite_none_right_eq_some.1 h
      cases he
      exact .created ht hok
    case onInitialization g =>
      obtain ⟨hok, he⟩ := Option.ite_none_left_eq_some.1 h
      cases he
      exact .threw (by simp [Frame.propagates, htr, ht]) (by simpa using hok)
    case finished status => cases h; exact .returned status htr ht
    all_goals cases h

theorem event_of_throw (hp : Frame.propagates f = true) (hok : ok = false) :
    callEvent w a f ok = some (.threw a.1 (reaches w a.1 a.2)) := by
  subst hok
  cases htr : f.transition with
  | some tr => simp only [callEvent, htr, hp, Bool.not_false, Bool.and_self, if_true]
  | none =>
    simp only [Frame.propagates, htr, Option.any_eq_true] at hp
    obtain ⟨t, ht, hon⟩ := hp
    cases t <;> first | (simp only [callEvent, htr, ht]; rfl) | cases hon

/-! ## Steps of `Initialize` -/

/-- A call that has caught an exception will say so. -/
theorem caught_to {tr tr' : Option StateTransition} (h : InitializeTo s p ok tr t s' tr' t') :
    (caught t = true → caught t' = true) ∧ (caught t' = true → caught t = true ∨ (attributes t = true ∧
      ((∃ x, tr = some x ∧ suspect x = true) ∨ (tr = none ∧ ok = false ∧ ∃ g, t = .onInitialization g)))) := by
  cases h with
  | inTransition | transitionStart => exact ⟨id, .inl⟩
  | transitionDone _ _ tr s' stored thrown hst hr =>
    obtain ⟨-, rfl⟩ := unlock_done hst
    cases InitializePc.resume_goto hr with
    | reset | unreset | setInitialized | setRunning | stopTerminated => exact ⟨nofun, nofun⟩
    | initializedThrew g h | runningThrew g h | stopThrew g h =>
      exact ⟨nofun, fun _ => .inr ⟨rfl, .inl ⟨tr, rfl, by simp [suspect, h]⟩⟩⟩
    | terminate | terminated | catchTerminated => exact ⟨fun _ => rfl, fun _ => .inl rfl⟩
  | exec _ _ s' hex =>
    cases execInitialize_goto hex with
    | initializationThrew g hok => exact ⟨nofun, fun _ => .inr ⟨rfl, .inr ⟨rfl, hok, g, rfl⟩⟩⟩
    | terminate | terminated => exact ⟨fun _ => rfl, fun _ => .inl rfl⟩
    | _ => exact ⟨id, .inl⟩

/-- The callback of the call that fails shows. -/
theorem suspect_to {f₁ : Frame} {x : StateTransition} (h : FrameStep s p f ok s' (some f₁))
    (hn : notifies f = true → ok = true) (hx : f₁.transition = some x) (hs : suspect x = true) :
    f₁.pc = f.pc ∧ ((∃ y, f.transition = some y ∧ suspect y = true) ∨ (Frame.propagates f = true ∧ ok = false)) := by
  cases h.goto with
  | inTransition tr tr' s' htr hst =>
    cases hx
    refine ⟨rfl, ?_⟩
    rcases suspect_step hst hs with hold | ⟨hok, hpc | hpc | hpc⟩
    · exact .inl ⟨tr, htr, hold⟩
    · exact .inr ⟨by simp [Frame.propagates, htr, hpc], hok⟩
    · exact .inr ⟨by simp [Frame.propagates, htr, hpc], hok⟩
    · rw [hn (by simp [notifies, htr, hpc])] at hok
      cases hok
  | transitionStart => cases hx; cases hs
  | transitionDone | exec => cases hx

theorem attributes_of_frame {w : World} (hf : w.call a = some f) (ht : f.pc.initializePc = some t)
    (h : Frame.attributes (w.frames a) = true) : attributes t = true := by
  obtain ⟨-, rfl⟩ := World.call_eq_some.1 hf
  simpa [Frame.attributes, ht] using h

/-- A throw that comes to a call is on its way to it, or the call has caught it. -/
theorem owes_of_threw {fa : Frame} (hs : Stepped c p ok c' n f f') (hinv : WindowInv c.world)
    (hcalls : CallsOk c.world) (ha : c.world.call a = some fa) (ht : fa.pc.initializePc = some t)
    (he : callEvent c.world (p, n) f ok = some (.threw a.1 (some a.2))) :
    attributes t = true ∧ (OwesAt c' a t ∨ (a = (p, n) ∧ Caught f')) := by
  generalize hx : Event.threw a.1 (some a.2) = x at he
  cases shows he with
  | threw hprop hok =>
    obtain ⟨hp, hr⟩ := Event.threw.inj hx
    obtain ⟨hle, hatt, hchain⟩ := reaches_some hr.symm
    simp only at hp hle hchain hatt
    rw [← hp] at hatt
    have hatt := attributes_of_frame ha ht hatt
    refine ⟨hatt, owes_of_throw hs ha ht hp hle (fun k hk hkn => ⟨_, ?_, hchain k hk hkn⟩) hinv hatt hcalls hprop hok⟩
    exact World.call_eq_some.2 ⟨by rw [hs.depth]; exact Nat.lt_succ_of_lt hkn, rfl⟩
  | called | created | returned => cases hx

theorem Reached.mono (h : Reached l a) (l₁ : List Event) : Reached (l ++ l₁) a := List.mem_append_left _ h

theorem reached_append (h : Reached (l ++ e.toList) a) : Reached l a ∨ e = some (.threw a.1 (some a.2)) :=
  System.mem_append h

/-- Another call steps. -/
theorem Underway.aside {fa : Frame} (h : Underway c a fa t l) (hs : Stepped c p ok c' n f f')
    (hinv : WindowInv c.world) (hcalls : CallsOk c.world) (hu : Unmanaged c.world) (hpass : Passes c (p, n) f ok)
    (ha : c.world.call a = some fa) (ht : fa.pc.initializePc = some t) (hne : a ≠ (p, n)) :
    Underway c' a fa t (l ++ (callEvent c.world (p, n) f ok).toList) := by
  refine ⟨fun hmem => ?_, fun hr => ?_, fun hc => (h.caught hc).mono _, fun hatt tr htr hx =>
    (h.failed hatt tr htr hx).mono _⟩
  · rcases System.mem_append hmem with hmem | he
    · exact h.called hmem
    · cases shows he with
      | called => exact hne rfl
  · have hdone : ∀ {u}, OwesAt c' a u ∨ (a = (p, n) ∧ Caught f') → Owes c' a := by
      rintro u (⟨ho, -⟩ | ⟨he, -⟩)
      · exact ho
      · exact absurd he hne
    rcases reached_append hr with hr | he
    · rcases h.reached hr with hc | ⟨hatt, ho⟩
      · exact .inl hc
      · exact .inr ⟨hatt, hdone (ho.stepped hs hinv hcalls hu hpass ha ht hatt)⟩
    · obtain ⟨hatt, ho⟩ := owes_of_threw hs hinv hcalls ha ht he
      exact .inr ⟨hatt, hdone ho⟩

/-- The call itself steps. -/
theorem Underway.stepped {f₁ : Frame} (h : Underway c (p, n) f t l) (hs : Stepped c p ok c' n f (some f₁))
    (hinv : WindowInv c.world) (hcalls : CallsOk c.world) (hu : Unmanaged c.world) (hpass : Passes c (p, n) f ok)
    (ht : f.pc.initializePc = some t) (ht' : f₁.pc.initializePc = some t') (hne : t ≠ .ensureRegistered)
    (hto : InitializeTo c.world.shared p ok f.transition t c'.world.shared f₁.transition t') :
    Underway c' (p, n) f₁ t' (l ++ (callEvent c.world (p, n) f ok).toList) := by
  obtain ⟨hkeep, hback⟩ := caught_to hto
  -- A throw of this call's own user code comes to it.
  have hself : attributes t = true → Frame.propagates f = true → ok = false →
      Reached (l ++ (callEvent c.world (p, n) f ok).toList) (p, n) := by
    intro hatt hprop hok
    have hframe : Frame.attributes (c.world.frames (p, n)) = true := by
      rw [hs.frame, Frame.attributes, ht]
      exact hatt
    rw [event_of_throw hprop hok, reaches_self hframe]
    exact List.mem_append_right _ (List.mem_singleton_self _)
  refine ⟨fun hmem => ?_, fun hr => ?_, fun hc => ?_, fun hatt' x hx hsus => ?_⟩
  · rcases System.mem_append hmem with hmem | he
    · exact h.called hmem
    · generalize hev : callEvent c.world (p, n) f ok = e at he
      subst he
      cases shows hev with
      | called _ htf => exact hne (Option.some.inj (ht.symm.trans htf))
  · have hdone : OwesAt c' (p, n) t ∨ ((p, n) = (p, n) ∧ Caught (some f₁)) →
        attributes t = true → Attribution.caught t' = true ∨ (attributes t' = true ∧ Owes c' (p, n)) := by
      rintro (⟨ho, g, hg, htg⟩ | ⟨-, f₂, t₂, hf₂, ht₂, hc⟩) hatt
      · rw [hs.calls, Function.update_self] at hg
        cases hg
        obtain rfl := Option.some.inj (htg.symm.trans ht')
        exact .inr ⟨hatt, ho⟩
      · cases hf₂
        obtain rfl := Option.some.inj (ht₂.symm.trans ht')
        exact .inl hc
    rcases reached_append hr with hr | he
    · rcases h.reached hr with hc | ⟨hatt, ho⟩
      · exact .inl (hkeep hc)
      · exact hdone (ho.stepped hs hinv hcalls hu hpass hs.call ht hatt) hatt
    · obtain ⟨hatt, ho⟩ := owes_of_threw hs hinv hcalls hs.call ht he
      exact hdone ho hatt
  · rcases hback hc with hc | ⟨hatt, ⟨x, hx, hsus⟩ | ⟨htr, hok, g, rfl⟩⟩
    · exact (h.caught hc).mono _
    · exact (h.failed hatt x hx hsus).mono _
    · exact hself hatt (by simp [Frame.propagates, htr, ht]) hok
  · obtain ⟨hpc, ⟨y, hy, hsus⟩ | ⟨hprop, hok⟩⟩ := suspect_to hs.step hpass.notifies hx hsus
    · rw [hpc] at ht'
      obtain rfl := Option.some.inj (ht.symm.trans ht')
      exact (h.failed hatt' y hy hsus).mono _
    · rw [hpc] at ht'
      obtain rfl := Option.some.inj (ht.symm.trans ht')
      exact hself hatt' hprop hok

/-! ## Runs -/

theorem tail_unique {α : Type*} {x : α} {l₀ l l₁ l₂ : List α} (h : l₀ ++ x :: l = l₁ ++ x :: l₂) (hl : x ∉ l)
    (hl₂ : x ∉ l₂) : l = l₂ := by
  rcases List.append_eq_append_iff.1 h with ⟨d, rfl, hd⟩ | ⟨d, rfl, hd⟩
  · cases d with
    | nil => exact (List.cons.inj hd).2
    | cons y d =>
      obtain ⟨-, rfl⟩ := List.cons.inj hd
      exact absurd (by simp) hl
  · cases d with
    | nil => exact (List.cons.inj hd).2.symm
    | cons y d =>
      obtain ⟨-, rfl⟩ := List.cons.inj hd
      exact absurd (by simp) hl₂

theorem LogInv.stepped (h : LogInv c log) (hs : Stepped c p ok c' n f f') (hinv : WindowInv c.world)
    (hcalls : CallsOk c.world) (hu : Unmanaged c.world) (hpass : Passes c (p, n) f ok) :
    LogInv c' (log ++ (callEvent c.world (p, n) f ok).toList) := by
  refine ⟨?_, fun a l₀ l status l₂ hlog hno => ?_⟩
  · rw [hs.calls]
    refine forall_call_update (Q := Told c' _) (fun f₁ hf₁ t' ht' hne' => ?_) fun a fa hne ha t ht hne' => ?_
    · have hs' := hs
      rw [hf₁] at hs'
      rcases hs'.step.initializePc ht' with rfl | ⟨t, ht, hto⟩
      · exact absurd rfl hne'
      · by_cases hstart : t = .ensureRegistered
        · subst hstart
          -- The call begins.
          have htr : f.transition = none :=
            (hcalls _ f hs.call).no_transition (Pc.transition_of_initializePc ht)
          have he : callEvent c.world (p, n) f ok = some (.called (p, n)) := by
            simp only [callEvent, htr, ht]
            rfl
          rw [htr] at hto
          generalize hs₁ : c'.world.shared = s₁ at hto
          generalize htr₁ : f₁.transition = tr₁ at hto
          cases hto with
          | transitionStart _ _ _ hnone => cases hnone
          | exec _ _ _ hex =>
            cases execInitialize_goto hex with
            | ensureRegistered hok => exact ⟨log, [], by rw [he]; rfl, nofun, nofun, nofun, nofun⟩
        · obtain ⟨l₀, l, hl, hunder⟩ := h.underway _ f hs.call t ht hstart
          exact ⟨l₀, _, by rw [hl]; simp, hunder.stepped hs' hinv hcalls hu hpass ht ht' hstart hto⟩
    · obtain ⟨l₀, l, hl, hunder⟩ := h.underway a fa ha t ht hne'
      exact ⟨l₀, _, by rw [hl]; simp, hunder.aside hs hinv hcalls hu hpass ha ht hne⟩
  · have hlog' : log ++ (callEvent c.world (p, n) f ok).toList =
        (l₀ ++ .called a :: l) ++ .returned a status :: l₂ := by
      rw [hlog]
      simp
    rcases System.split_append hlog' with ⟨l₃, hl, -⟩ | ⟨he, hl, -⟩
    · exact h.ran a l₀ l status l₃ (by rw [hl]; simp) hno
    · cases shows he with
      | returned _ htr ht =>
        obtain ⟨l₁, l₂, hl₁, hunder⟩ := h.underway _ f hs.call _ ht nofun
        obtain rfl := tail_unique (hl.trans hl₁) hno hunder.called
        constructor
        · rintro rfl
          exact hunder.caught rfl
        · intro hr
          rcases hunder.reached hr with hc | ⟨hatt, -⟩
          · simpa [caught, InitializePc.status] using hc
          · cases hatt

theorem Underway.kept {c' : State} (h : Underway c a f t l) (ho : Owes c a → Owes c' a) : Underway c' a f t l :=
  ⟨h.called, fun hr => (h.reached hr).imp_right (And.imp_right ho), h.caught, h.failed⟩

theorem LogInv.pushed {request : Request} (h : LogInv c log)
    (hs : step c (.lifecycle (.call p request)) = some c') : LogInv c' log := by
  obtain ⟨hw, -⟩ := step_pushed hs
  obtain ⟨-, -, hcall⟩ := call_last hw
  refine ⟨?_, h.ran⟩
  rw [hcall]
  refine forall_call_update (Q := Told c' _) (fun f₁ hf₁ t' ht' hne' => ?_) fun a fa _ ha t ht hne' => ?_
  · cases hf₁
    cases request <;> cases ht'
    exact absurd rfl hne'
  · obtain ⟨l₀, l, hl, hunder⟩ := h.underway a fa ha t ht hne'
    exact ⟨l₀, l, hl, hunder.kept fun ho => ho.pushed hs⟩

theorem LogInv.observerThrows (h : LogInv c log) (hs : step c (.observerThrows p) = some c') :
    LogInv c' (log ++ [.observerThrew p]) := by
  have hworld : c'.world = c.world := by
    obtain ⟨n, -, -, rfl⟩ := step_observerThrows hs
    rfl
  refine ⟨fun a fa ha t ht hne' => ?_, fun a l₀ l status l₂ hlog hno => ?_⟩
  · rw [hworld] at ha
    obtain ⟨l₀, l, hl, hunder⟩ := h.underway a fa ha t ht hne'
    refine ⟨l₀, l ++ [.observerThrew p], by rw [hl]; simp, fun hmem => ?_, fun hr => ?_, fun hc => ?_,
      fun hatt x hx hsus => ?_⟩
    · exact hunder.called (by simpa using hmem)
    · exact (hunder.kept fun ho => ho.observerThrows hs).reached (by simpa [Reached] using hr)
    · exact (hunder.caught hc).mono _
    · exact (hunder.failed hatt x hx hsus).mono _
  · have hlog' : log ++ (some (Event.observerThrew p)).toList = (l₀ ++ .called a :: l) ++ .returned a status :: l₂ := by
      rw [Option.toList_some, hlog]
      simp
    rcases System.split_append hlog' with ⟨l₃, hl, -⟩ | ⟨he, -⟩
    · exact h.ran a l₀ l status l₃ (by rw [hl]; simp) hno
    · cases he

/-! ## Other tasks -/

/-- The initializing task initializes the thread, and only there a transition
ends by an exception. -/
structure OwnTask (w : World) : Prop where
  initializing : ∀ q, w.shared.initializingTask = some q →
    ∃ n f t, w.call (q, n) = some f ∧ f.pc.initializePc = some t ∧ t.initializing = true
  contained : Contained w

theorem OwnTask.initializing_stepped (h : OwnTask c.world) (hs : Stepped c p ok c' n f f')
    (hcalls : CallsOk c.world) (hu : Unmanaged c.world) (hinv : WindowInv c'.world)
    (hq : c'.world.shared.initializingTask = some q) :
    ∃ n f t, c'.world.call (q, n) = some f ∧ f.pc.initializePc = some t ∧ t.initializing = true := by
  have hok := hcalls _ f hs.call
  -- The call that steps is the one, if it initializes the thread.
  have hself : ∀ f₁ t', f' = some f₁ → f₁.pc.initializePc = some t' → t'.initializing = true →
      ∃ n f t, c'.world.call (q, n) = some f ∧ f.pc.initializePc = some t ∧ t.initializing = true := by
    intro f₁ t' hf₁ ht' hi'
    have hcall : c'.world.call (p, n) = some f₁ := by rw [hs.calls, Function.update_self, hf₁]
    obtain rfl := Option.some.inj (hq.symm.trans (hinv.task _ f₁ t' hcall ht' hi'))
    exact ⟨n, f₁, t', hcall, ht', hi'⟩
  by_cases hi : ∃ t, f.pc.initializePc = some t ∧ t.initializing = true
  · obtain ⟨t, ht, hi⟩ := hi
    rcases initializing_step hs.step hok ht hi with ⟨f₁, t', hf₁, ht', hi'⟩ | hnone
    · exact hself f₁ t' hf₁ ht' hi'
    · exact absurd (hnone.symm.trans hq) nofun
  · have hnot : ∀ t, f.pc.initializePc = some t → t.initializing = false := by
      intro t ht
      by_contra hi'
      exact hi ⟨t, ht, by simpa using hi'⟩
    rcases free_step hs.step hok (hu.calls _ f hs.call) hnot with hsame | ⟨f₁, t', hf₁, ht', hi'⟩
    · obtain ⟨m, g, t, hg, ht, hit⟩ := h.initializing q (hsame.symm.trans hq)
      refine ⟨m, g, t, ?_, ht, hit⟩
      rw [hs.calls, Function.update_of_ne, hg]
      intro he
      rw [he] at hg
      obtain rfl := Option.some.inj (hs.call.symm.trans hg)
      exact hi ⟨t, ht, hit⟩
    · exact hself f₁ t' hf₁ ht' hi'

/-- What a call below one that does not step knows. -/
theorem call_kept {g : Frame} (hs : Stepped c p ok c' n f f') (hm : c.world.call (q, m) = some f₀)
    (hne : (q, m) ≠ (p, n)) (hle : k ≤ m) (hg : c.world.call (q, k) = some g) : c'.world.call (q, k) = some g := by
  rw [hs.calls, Function.update_of_ne, hg]
  intro he
  obtain ⟨rfl, rfl⟩ := Prod.mk.inj he
  have hd := (World.call_eq_some.1 hm).1
  rw [hs.depth] at hd
  exact hne (congrArg (Prod.mk q) (Nat.le_antisymm (Nat.le_of_lt_succ hd) hle))

theorem OwnTask.contained_stepped (h : OwnTask c.world) (hs : Stepped c p ok c' n f f') : Contained c'.world := by
  intro q m g tr hg htr hthrows
  by_cases hne : (q, m) = (p, n)
  · obtain ⟨rfl, rfl⟩ := Prod.mk.inj hne
    rw [hs.calls, Function.update_self] at hg
    have hstep := hs.step
    rw [hg] at hstep
    -- The task initializes the thread, in this call or below it.
    have hown : g.pc = f.pc ∧ ∃ k f₁ t, k ≤ m ∧ c.world.call (q, k) = some f₁ ∧ f₁.pc.initializePc = some t ∧
        t.initializing = true := by
      generalize c'.world.shared = s' at hstep
      cases hstep.goto with
      | inTransition tr₀ tr' s' htr₀ hst =>
        cases htr
        refine ⟨rfl, ?_⟩
        by_cases hold : tr₀.throws = true
        · exact h.contained q m f tr₀ hs.call htr₀ hold
        · by_cases htask : c.world.shared.initializingTask = some q
          · obtain ⟨k, f₁, t, hk, ht, hi⟩ := h.initializing q htask
            have hd := (World.call_eq_some.1 hk).1
            rw [hs.depth] at hd
            exact ⟨k, f₁, t, Nat.le_of_lt_succ hd, hk, ht, hi⟩
          · have := stepTransition_throws hst (by simpa using hold) fun _ => htask
            rw [hthrows] at this
            cases this
      | transitionStart => cases htr; cases hthrows
      | transitionDone | exec => cases htr
    obtain ⟨hpc, k, f₁, t, hle, hk, ht, hi⟩ := hown
    rcases Nat.lt_or_eq_of_le hle with hlt | rfl
    · refine ⟨k, f₁, t, hle, ?_, ht, hi⟩
      rw [hs.calls, Function.update_of_ne (fun he => Nat.ne_of_lt hlt (Prod.mk.inj he).2), hk]
    · obtain rfl := Option.some.inj (hs.call.symm.trans hk)
      exact ⟨k, g, t, Nat.le_refl _, by rw [hs.calls, Function.update_self, hg], by rw [hpc]; exact ht, hi⟩
  · have hold : c.world.call (q, m) = some g := hs.frames hne hg
    obtain ⟨k, f₁, t, hle, hk, ht, hi⟩ := h.contained q m g tr hold htr hthrows
    exact ⟨k, f₁, t, hle, call_kept hs hold hne hle hk, ht, hi⟩

theorem OwnTask.pushed {request : Request} (h : OwnTask c.world)
    (hs : step c (.lifecycle (.call p request)) = some c') : OwnTask c'.world := by
  obtain ⟨hw, -⟩ := step_pushed hs
  obtain ⟨hshared, hnone, hcall⟩ := call_last hw
  have hkept : ∀ b f, c.world.call b = some f → c'.world.call b = some f := by
    intro b f hb
    rw [hcall, Function.update_of_ne, hb]
    rintro rfl
    rw [hnone] at hb
    cases hb
  refine ⟨fun q hq => ?_, ?_⟩
  · rw [hshared] at hq
    obtain ⟨n, f, t, hf, ht, hi⟩ := h.initializing q hq
    exact ⟨n, f, t, hkept _ f hf, ht, hi⟩
  · intro q m f tr hf htr hthrows
    rw [hcall] at hf
    -- The new call is at no transition.
    have hback := forall_call_update (Q := fun b f => ∀ tr, f.transition = some tr → c.world.call b = some f)
      (fun f hf tr htr => by cases hf; cases htr) (fun b f _ hb _ _ => hb) _ f hf tr htr
    obtain ⟨n, f₁, t, hle, hf₁, ht, hi⟩ := h.contained q m f tr hback htr hthrows
    exact ⟨n, f₁, t, hle, hkept _ f₁ hf₁, ht, hi⟩

theorem WindowInv.pushed {request : Request} (h : WindowInv c.world)
    (hs : step c (.lifecycle (.call p request)) = some c') : WindowInv c'.world := by
  obtain ⟨hw, -⟩ := step_pushed hs
  obtain ⟨hshared, -, hcall⟩ := call_last hw
  -- The new call is not between the stores.
  have hback : ∀ b f, c'.world.call b = some f → ∀ t, f.pc.initializePc = some t → t.initializing = true →
      c.world.call b = some f := by
    rw [hcall]
    refine forall_call_update (fun f hf t ht hi => ?_) fun b f _ hb _ _ _ => hb
    cases hf
    cases request <;> cases ht
    cases hi
  refine ⟨fun x y f g t u hx hy ht hu hi hi' => ?_, fun x f t hx ht hi => ?_, fun x f t hx ht hi => ?_⟩
  · exact h.one x y f g t u (hback x f hx t ht hi) (hback y g hy u hu hi') ht hu hi hi'
  · rw [hshared]
    exact h.task x f t (hback x f hx t ht hi) ht hi
  · rw [hshared]
    exact h.inProgress x f t (hback x f hx t ht (initializing_of_inProgress hi)) ht hi

/-- What every run keeps. -/
structure Inv (c : State) (log : List Event) : Prop where
  calls : CallsOk c.world
  unmanaged : Unmanaged c.world
  window : WindowInv c.world
  log : LogInv c log
  own : OwnTask c.world

theorem inv_start {s : Shared} (hm : s.managed = false) (hi : s.initializingTask = none) (hw : c.world = .start s) :
    Inv c [] := by
  have hnone : ∀ a f, c.world.call a = some f → f.pc.initializePc = none ∧ f.transition = none := by
    rw [hw]
    intro a f hf
    rcases start_call hf with ⟨g, -, rfl⟩ | ⟨-, rfl⟩ <;> exact ⟨rfl, rfl⟩
  have hno : ∀ {a f t}, c.world.call a = some f → f.pc.initializePc = some t → False := by
    intro a f t hf ht
    rw [(hnone a f hf).1] at ht
    cases ht
  refine ⟨?_, ⟨?_, ?_⟩, ⟨?_, ?_, ?_⟩, ⟨?_, ?_⟩, ?_, ?_⟩
  · rw [hw]
    intro a f hf
    rcases start_call hf with ⟨g, rfl, rfl⟩ | ⟨rfl, rfl⟩
    · exact ok_waitGate g
    · exact ok_receive
  · rw [hw]
    exact hm
  · rw [hw]
    intro a f hf t ht
    rcases start_call hf with ⟨g, -, rfl⟩ | ⟨-, rfl⟩ <;> cases ht
  · exact fun a b f g t u ha _ ht => (hno ha ht).elim
  · exact fun a f t ha ht => (hno ha ht).elim
  · exact fun a f t ha ht => (hno ha ht).elim
  · exact fun a f ha t ht => (hno ha ht).elim
  · intro a l₀ l status l₂ hlog
    cases l₀ <;> cases hlog
  · intro q hq
    rw [hw] at hq
    exact absurd (hi.symm.trans hq) nofun
  · intro p m f tr hf htr
    rw [(hnone _ f hf).2] at htr
    cases htr

theorem Inv.step {b : Action} (h : Inv c log) (hadm : Admitted (c, log) b) (hs : step c b = some c') :
    Inv c' (log ++ (event c b).toList) := by
  cases b with
  | observerThrows p =>
    have hworld : c'.world = c.world := by
      obtain ⟨n, -, -, rfl⟩ := step_observerThrows hs
      rfl
    refine ⟨?_, ?_, ?_, h.log.observerThrows hs, ?_⟩ <;> rw [hworld]
    exacts [h.calls, h.unmanaged, h.window, h.own]
  | lifecycle b =>
    obtain ⟨w, hw, hc'⟩ := Option.map_eq_some_iff.1 hs
    have hworld : c'.world = w := by rw [← hc']
    cases b with
    | call p request =>
      rw [show event c (.lifecycle (.call p request)) = none from rfl, Option.toList_none, List.append_nil]
      rw [← hworld] at hw
      exact ⟨h.calls.step hw, h.unmanaged.step hw, h.window.pushed hs, h.log.pushed hs, h.own.pushed hs⟩
    | step p ok =>
      obtain ⟨n, f, f', hstepped⟩ := step_stepped hs
      obtain ⟨hpass, hapart⟩ := hadm n hstepped.depth
      rw [hstepped.frame] at hpass hapart
      have hwindow := h.window.stepped hstepped h.calls h.unmanaged hapart
      have he : event c (.lifecycle (.step p ok)) = callEvent c.world (p, n) f ok := by
        simp only [event, hstepped.depth, hstepped.frame]
      rw [he]
      rw [← hworld] at hw
      exact ⟨h.calls.step hw, h.unmanaged.step hw, hwindow,
        h.log.stepped hstepped h.window h.calls h.unmanaged hpass,
        fun q hq => h.own.initializing_stepped hstepped h.calls h.unmanaged hwindow hq,
        h.own.contained_stepped hstepped⟩

theorem inv_reachable {x : State × List Event} (h : machine.ReachableWhen Admitted x) : Inv x.1 x.2 := by
  refine h.invariant (I := fun x => Inv x.1 x.2) (fun x hx => ?_) fun x b y hi hadm hs => ?_
  · obtain ⟨⟨⟨free, start, precision, hw⟩, -⟩, hlog⟩ := hx
    rw [hlog]
    exact inv_start rfl rfl hw
  · obtain ⟨hst, hlog⟩ := System.logged_step.1 hs
    rw [hlog]
    exact hi.step hadm hst

/-- A call of `Initialize` attributes the throws on its task exactly when they
come to it. -/
theorem attributed_iff_reached (x : State × List Event) (h : machine.ReachableWhen Admitted x) :
    (∀ a l status, Ran x.2 a l status →
      ((status = .initializationException ↔ Threw l a.1) ↔ (Threw l a.1 → Reached l a))) ∧ Contained x.1.world := by
  have hinv := inv_reachable h
  refine ⟨fun a l status hran => ?_, hinv.own.contained⟩
  obtain ⟨l₀, l₂, hlog⟩ := hran.log
  have hstatus := hinv.log.ran a l₀ l status l₂ hlog hran.called
  have hthrew : Reached l a → Threw l a.1 := fun hr => ⟨_, hr⟩
  rw [hstatus]
  exact ⟨fun hiff => hiff.2, fun hto => ⟨hthrew, hto⟩⟩

/-! ## Two runs -/

def Action.task : Action → TaskId
  | .lifecycle a => a.task
  | .observerThrows p => p

/-- The tasks that run. -/
def running : List TaskId := [.app 0]

/-- `Passes` and `Apart` of these tasks. -/
def Quiet (c : State) (a : TaskId × Nat) (f : Frame) (ok : Bool) : Prop :=
  (Frame.propagates f = true → c.escaping a = true → ok = false) ∧ (notifies f = true → ok = true) ∧
    (f.pc.initializePc.any writesWindow = true → ∀ q ∈ running, ∀ m < c.world.depth q, (q, m) ≠ a →
      (c.world.frames (q, m)).pc.initializePc.any InitializePc.initializing = false)

instance (c : State) (a : TaskId × Nat) (f : Frame) (ok : Bool) : Decidable (Quiet c a f ok) := by
  unfold Quiet
  exact inferInstance

/-- `Admitted`, when only these tasks run. -/
def AdmittedOn (x : State × List Event) (b : Action) : Prop :=
  b.task ∈ running ∧
    match b with
    | .lifecycle (.step p ok) => ∀ n < x.1.world.depth p, x.1.world.depth p = n + 1 →
        Quiet x.1 (p, n) (x.1.world.frames (p, n)) ok
    | .lifecycle (.call _ _) | .observerThrows _ => True

instance (x : State × List Event) (b : Action) : Decidable (AdmittedOn x b) := by
  unfold AdmittedOn
  rcases b with (_ | _) | _ <;> exact inferInstance

theorem admitted_of_on {x : State × List Event} {b : Action} (hi : x.1.world.IdleBut running) (h : AdmittedOn x b) :
    Admitted x b := by
  rcases b with (⟨p, request⟩ | ⟨p, ok⟩) | p
  · trivial
  · intro n hd
    obtain ⟨hpass, hnotify, hapart⟩ := h.2 n (by rw [hd]; exact Nat.lt_succ_self n) hd
    refine ⟨⟨hpass, hnotify⟩, fun t ht hw b f₁ t₁ hb hne ht₁ => ?_⟩
    rcases hi b f₁ hb with hrun | hidle
    · obtain ⟨hlt, rfl⟩ := World.call_eq_some.1 hb
      have := hapart (by rw [ht]; exact hw) b.1 hrun b.2 hlt hne
      rw [ht₁] at this
      exact this
    · rcases hidle with ⟨g, rfl⟩ | rfl <;> cases ht₁
  · trivial

theorem idleBut_step {x y : State × List Event} {b : Action} (hi : x.1.world.IdleBut running) (h : AdmittedOn x b)
    (hs : machine.step x b = some y) : y.1.world.IdleBut running := by
  obtain ⟨hst, -⟩ := System.logged_step.1 hs
  cases b with
  | lifecycle b =>
    obtain ⟨w, hw, hy⟩ := Option.map_eq_some_iff.1 hst
    rw [← hy]
    exact hi.step h.1 hw
  | observerThrows p =>
    obtain ⟨n, -, -, hy⟩ := step_observerThrows hst
    rw [hy]
    exact hi

def newState : State := { world := newThread false false, escaping := fun _ => false }

theorem admitted_run {as : List Action} {x : State × List Event}
    (h : machine.replayWhen AdmittedOn (newState, []) as = some x) : machine.ReachableWhen Admitted x := by
  have hl := (System.leads_of_replayWhen h).mono_with (I := fun x => x.1.world.IdleBut running) (idleBut_start _ _)
    (fun _ _ _ hi hd hst => idleBut_step hi hd hst) fun _ _ hi hd => admitted_of_on hi hd
  exact System.ReachableWhen.leads (.init ⟨⟨newThread_init false false, rfl⟩, rfl⟩) hl

def main (ok : Bool) : Action := .lifecycle (.step (.app 0) ok)

/-- `OnInitialization` calls `Terminate`. A callback and an observer of its
transition throw, and `OnInitialization` lets the exception pass. -/
def terminateThrows : List Action :=
  .lifecycle (.call (.app 0) .initializeThread) :: List.replicate 15 (main true) ++
    .lifecycle (.call (.app 0) .terminate) :: List.replicate 4 (main true) ++ [main false, main true,
      .observerThrows (.app 0)] ++ List.replicate 4 (main true) ++ main false :: List.replicate 19 (main true)

theorem terminate_attributed : ∃ x, machine.ReachableWhen Admitted x ∧
    x.2 = [.called (.app 0, 0), .created (.app 0, 0), .threw (.app 0) (some 0), .observerThrew (.app 0),
      .threw (.app 0) (some 0), .returned (.app 0, 0) .initializationException] ∧
    (∀ a l status, Ran x.2 a l status →
      ((status = .initializationException ↔ Threw l a.1) ↔ (Threw l a.1 → Reached l a))) ∧ Contained x.1.world := by
  have hrun : (machine.replayWhen AdmittedOn (newState, []) terminateThrows).map Prod.snd =
      some [.called (.app 0, 0), .created (.app 0, 0), .threw (.app 0) (some 0), .observerThrew (.app 0),
        .threw (.app 0) (some 0), .returned (.app 0, 0) .initializationException] := by
    decide +kernel
  obtain ⟨x, hs, hx⟩ := Option.map_eq_some_iff.1 hrun
  have hr := admitted_run hs
  exact ⟨x, hr, hx, attributed_iff_reached x hr⟩

/-- The thread is `Terminated`, and the callback of the reset throws. -/
def resetThrows : List Action :=
  .lifecycle (.call (.app 0) .terminate) :: List.replicate 16 (main true) ++
    .lifecycle (.call (.app 0) .initializeThread) :: List.replicate 8 (main true) ++
    main false :: List.replicate 38 (main true)

/-- `Initialize` returns `Success` although a callback on its task threw. -/
theorem reset_swallowed : ¬ ∀ x, machine.ReachableWhen Admitted x → Attributed x.2 := by
  intro h
  have hrun : (machine.replayWhen AdmittedOn (newState, []) resetThrows).map Prod.snd =
      some [.called (.app 0, 0), .threw (.app 0) none, .created (.app 0, 0), .returned (.app 0, 0) .success] := by
    decide +kernel
  obtain ⟨x, hs, hx⟩ := Option.map_eq_some_iff.1 hrun
  have hran : Ran x.2 (.app 0, 0) [.threw (.app 0) none, .created (.app 0, 0)] .success :=
    ⟨⟨[], [], by rw [hx]; rfl⟩, by simp, by simp⟩
  have := (h x (admitted_run hs) _ _ _ hran).2 ⟨none, by simp⟩
  cases this

end ESPressio.Attribution
