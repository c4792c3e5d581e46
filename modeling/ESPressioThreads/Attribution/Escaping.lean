import ESPressioThreads.Attribution.Machine
/-!
# How an exception gets to `Initialize`

Between its stores of the initializing task a call of `Initialize` finds itself
there. So a callback that throws in a call above it makes the transition end by
an exception, which ends that call and comes to the user code below, and so on
down to the `try` block. What is on the way is a debt that every step keeps or
pays.
-/

namespace ESPressio.Attribution

open Transition ESPressio.Thread ESPressio.Lifecycle
open ESPressio.Attempts (exec_initializePc finished_step initializePc_of_stage initializing_step free_step)

variable {c c' : State} {w w' : World} {s s' : Shared} {p q : TaskId} {ok : Bool} {f : Frame} {f' : Option Frame}
  {a : TaskId × Nat} {m n : Nat} {t t' : InitializePc} {b : Lifecycle.Action}

/-! ## Steps -/

/-- A step of the last call of a task. -/
structure Stepped (c : State) (p : TaskId) (ok : Bool) (c' : State) (n : Nat) (f : Frame) (f' : Option Frame) :
    Prop where
  runnable : c.world.runnable p = true
  depth : c.world.depth p = n + 1
  frame : c.world.frames (p, n) = f
  call : c.world.call (p, n) = some f
  step : FrameStep c.world.shared p f ok c'.world.shared f'
  calls : c'.world.call = Function.update c.world.call (p, n) f'
  escaping : c'.escaping = escapingAfter c p n ok

theorem step_stepped (h : step c (.lifecycle (.step p ok)) = some c') : ∃ n f f', Stepped c p ok c' n f f' := by
  obtain ⟨w, hs, rfl⟩ := Option.map_eq_some_iff.1 h
  obtain ⟨hrun, n, f, f', hd, htop, hf, hstep, hcall⟩ := step_last hs
  refine ⟨n, f, f', hrun, hd, (World.call_eq_some.1 hf).2, hf, hstep, hcall, ?_⟩
  simp only [hd]

theorem step_pushed {request : Request} (h : step c (.lifecycle (.call p request)) = some c') :
    Lifecycle.step c.world (.call p request) = some c'.world ∧
      c'.escaping = Function.update c.escaping (p, c.world.depth p) false := by
  obtain ⟨w, hs, rfl⟩ := Option.map_eq_some_iff.1 h
  exact ⟨hs, rfl⟩

theorem step_observerThrows (h : step c (.observerThrows p) = some c') : ∃ n, c.world.depth p = n + 1 ∧
    notifies (c.world.frames (p, n)) = true ∧
      c' = { c with escaping := Function.update c.escaping (p, n) false } := by
  simp only [step] at h
  split at h
  · split at h
    · cases h
    · rename_i n hd
      split at h
      · rename_i hn
        cases h
        exact ⟨n, hd, hn, rfl⟩
      · cases h
  · cases h

theorem Stepped.frames (hs : Stepped c p ok c' n f f') {b : TaskId × Nat} {f₁ : Frame} (hne : b ≠ (p, n))
    (hb : c'.world.call b = some f₁) : c.world.call b = some f₁ := by
  rw [hs.calls, Function.update_of_ne hne] at hb
  exact hb

/-! ## The initializing task -/

theorem execInitialize_kept {next : Next InitializePc} (h : execInitialize s p t ok = some (s', next))
    (ht : writesWindow t = false) : s'.initialization = s.initialization := by
  have hkill : ∀ g, (s.kill g).initialization = s.initialization := by rintro (_ | g) <;> rfl
  cases t <;> simp only [execInitialize] at h
  case storeInitializing | storeInProgress | clearInProgress | clearInitializing => cases ht
  all_goals first
    | (cases h; first | rfl | exact hkill _)
    | (split at h <;> cases h <;> rfl)
    | cases h

/-- A step writes the initializing task by one of the four stores. -/
theorem initialization_kept (h : FrameStep s p f ok s' f') (hok : f.Ok a) (hm : ∀ t, f.pc ≠ .cleanUp t)
    (hw : ∀ t, f.pc.initializePc = some t → writesWindow t = false) : s'.initialization = s.initialization := by
  cases hi : f.pc.initializePc with
  | none =>
    refine h.initialization hm (fun t ht => ?_) fun g hg => ?_
    · rw [hi] at ht
      cases ht
    · obtain ⟨t, ht, -⟩ := initializePc_of_stage hg rfl
      rw [hi] at ht
      cases ht
  | some t =>
    cases htr : t.transition with
    | some x =>
      rcases h.shared_cases with ⟨_, _, _, rfl⟩ | ⟨next, hex⟩
      · rfl
      · -- A call at a transition executes no statement.
        have hne : f.pc.transition ≠ none := by
          rw [Pc.transition_of_initializePc hi, htr]
          exact Option.some_ne_none _
        cases h with
        | inTransition _ _ _ _ hst => obtain ⟨_, _, _, rfl⟩ := stepTransition_shared hst; rfl
        | transitionDone _ _ _ _ _ hst => obtain ⟨_, _, _, rfl⟩ := stepTransition_shared hst; rfl
        | transitionStart => rfl
        | exec _ _ _ hpc => exact absurd hpc hne
    | none =>
      by_cases hfin : ∃ status, t = .finished status
      · obtain ⟨status, rfl⟩ := hfin
        rw [(finished_step h hok hi).1]
      · obtain ⟨next, hex, -⟩ := exec_initializePc h hok hi htr fun status ht => hfin ⟨status, ht⟩
        exact execInitialize_kept hex (hw t hi)

/-- `Initialize` is known to initialize the thread. -/
def inProgress : InitializePc → Bool
  | .storeInProgress _ | .clearInitializing _ => false
  | t => t.initializing

/-- The calls between the stores of the initializing task: there is one at most,
and the stores are its own. -/
structure WindowInv (w : World) : Prop where
  one : ∀ a b f g t u, w.call a = some f → w.call b = some g → f.pc.initializePc = some t →
    g.pc.initializePc = some u → t.initializing = true → u.initializing = true → a = b
  task : ∀ a f t, w.call a = some f → f.pc.initializePc = some t → t.initializing = true →
    w.shared.initializingTask = some a.1
  inProgress : ∀ a f t, w.call a = some f → f.pc.initializePc = some t → inProgress t = true →
    w.shared.initializationInProgress = true

theorem initializing_of_inProgress (h : inProgress t = true) : t.initializing = true := by
  cases t <;> first | rfl | cases h

/-- How a call comes between the stores. -/
theorem initializing_to {tr tr' : Option StateTransition} (h : InitializeTo s p ok tr t s' tr' t')
    (hi : t'.initializing = true) : t.initializing = true ∨ ∃ g, t = .storeInitializing g := by
  cases h with
  | inTransition => exact .inl hi
  | transitionStart => exact .inl hi
  | transitionDone _ _ tr s' stored threw hst hr =>
    cases InitializePc.resume_goto hr <;> first | exact .inl rfl | cases hi
  | exec _ _ s' hex =>
    cases execInitialize_goto hex with
    | storeInitializing g => exact .inr ⟨g, rfl⟩
    | _ => first | exact .inl rfl | cases hi

theorem inProgress_to {tr tr' : Option StateTransition} (h : InitializeTo s p ok tr t s' tr' t')
    (hi : inProgress t' = true) : s'.initializationInProgress = true ∨
      (inProgress t = true ∧ s'.initialization = s.initialization) := by
  cases h with
  | inTransition _ tr tr' s' hst =>
    obtain ⟨_, _, _, rfl⟩ := stepTransition_shared hst
    exact .inr ⟨hi, rfl⟩
  | transitionStart => exact .inr ⟨hi, rfl⟩
  | transitionDone _ _ tr s' stored threw hst hr =>
    obtain ⟨_, _, _, rfl⟩ := stepTransition_shared hst
    refine .inr ⟨?_, rfl⟩
    cases InitializePc.resume_goto hr <;> first | rfl | cases hi
  | exec _ _ s' hex =>
    cases execInitialize_goto hex with
    | storeInProgress g => cases hex; exact .inl rfl
    | _ => first | exact .inr ⟨rfl, execInitialize_kept hex rfl⟩ | cases hi

/-- A step of a call that is not between the stores, or of the one that is. -/
theorem WindowInv.stepped (h : WindowInv c.world) (hs : Stepped c p ok c' n f f') (hcalls : CallsOk c.world)
    (hu : Unmanaged c.world) (hc : Apart c (p, n) f) : WindowInv c'.world := by
  have hok := hcalls _ f hs.call
  have hstep := hs.step
  -- What another call between the stores knows.
  have hkept : ∀ b g u, b ≠ (p, n) → c.world.call b = some g → g.pc.initializePc = some u → u.initializing = true →
      c'.world.shared.initialization = c.world.shared.initialization := by
    intro b g u hne hb hg hi
    refine initialization_kept hs.step hok (hu.calls _ f hs.call) fun t ht => ?_
    by_contra hw
    have := hc t ht (by simpa using hw) b g u hb hne hg
    rw [hi] at this
    cases this
  -- A call that comes between the stores finds no other one there.
  have hback : ∀ f₁ t', f' = some f₁ → f₁.pc.initializePc = some t' → t'.initializing = true →
      ∀ b g u, b ≠ (p, n) → c.world.call b = some g → g.pc.initializePc = some u → u.initializing = true → False := by
    intro f₁ t' hf₁ ht' hi' b g u hne hb hg hi
    rw [hf₁] at hstep
    rcases hstep.initializePc ht' with rfl | ⟨t, ht, hto⟩
    · cases hi'
    · rcases initializing_to hto hi' with hit | ⟨x, rfl⟩
      · exact hne (h.one b (p, n) g f u t hb hs.call hg ht hi hit)
      · have := hc _ ht rfl b g u hb hne hg
        rw [hi] at this
        cases this
  refine ⟨fun x y fx fy t u hx hy ht hu hti hui => ?_, fun x fx t hx ht hi => ?_, fun x fx t hx ht hi => ?_⟩
  · by_cases hxn : x = (p, n) <;> by_cases hyn : y = (p, n)
    · rw [hxn, hyn]
    · rw [hxn, hs.calls, Function.update_self] at hx
      exact (hback fx t hx ht hti y fy u hyn (hs.frames hyn hy) hu hui).elim
    · rw [hyn, hs.calls, Function.update_self] at hy
      exact (hback fy u hy hu hui x fx t hxn (hs.frames hxn hx) ht hti).elim
    · exact h.one x y fx fy t u (hs.frames hxn hx) (hs.frames hyn hy) ht hu hti hui
  · by_cases hxn : x = (p, n)
    · rw [hxn, hs.calls, Function.update_self] at hx
      rw [hx] at hstep
      rcases hstep.initializePc ht with rfl | ⟨t₀, ht₀, hto⟩
      · cases hi
      · rw [hxn]
        rcases hto.initializing hi with hp | ⟨hi₀, hsame⟩
        · exact hp
        · rw [hsame]
          exact h.task _ f t₀ hs.call ht₀ hi₀
    · have hsame := hkept x fx t hxn (hs.frames hxn hx) ht hi
      rw [show c'.world.shared.initializingTask = c.world.shared.initializingTask from congrArg Prod.fst hsame]
      exact h.task x fx t (hs.frames hxn hx) ht hi
  · by_cases hxn : x = (p, n)
    · rw [hxn, hs.calls, Function.update_self] at hx
      rw [hx] at hstep
      rcases hstep.initializePc ht with rfl | ⟨t₀, ht₀, hto⟩
      · cases hi
      · rcases inProgress_to hto hi with hp | ⟨hi₀, hsame⟩
        · exact hp
        · rw [show c'.world.shared.initializationInProgress = c.world.shared.initializationInProgress from
            congrArg Prod.snd hsame]
          exact h.inProgress _ f t₀ hs.call ht₀ hi₀
    · have hsame := hkept x fx t hxn (hs.frames hxn hx) ht (initializing_of_inProgress hi)
      rw [show c'.world.shared.initializationInProgress = c.world.shared.initializationInProgress from
        congrArg Prod.snd hsame]
      exact h.inProgress x fx t (hs.frames hxn hx) ht hi

/-! ## Transitions -/

/-- The rest of a transition in which a callback has thrown. -/
def reportable : TransitionPc → Bool
  | .getThreadState | .onThreadEvent | .notifyObservers | .loadInProgress | .loadInitializing => true
  | .lock | .check | .onStateChange | .unlock => false

/-- The transition is going to end by an exception on the initializing task. -/
def Failing (tr : StateTransition) : Prop :=
  (tr.pc = .unlock ∧ tr.throws = true) ∨ (tr.failed = true ∧ reportable tr.pc = true)

theorem Failing.step {tr tr' : StateTransition} (h : Failing tr)
    (hst : stepTransition s p tr ok = some (s', .goto tr')) (hi : s.initializationInProgress = true)
    (ht : s.initializingTask = some p) : Failing tr' := by
  rcases h with ⟨hpc, -⟩ | ⟨hf, hr⟩
  · simp only [stepTransition, hpc, Option.some.injEq, Prod.mk.injEq] at hst
    exact absurd hst.2 (by rintro ⟨⟩)
  · cases hpc : tr.pc with
    | lock | check | onStateChange | unlock => rw [hpc] at hr; cases hr
    | getThreadState =>
      simp only [stepTransition, hpc, Option.some.injEq, Prod.mk.injEq, TransitionNext.goto.injEq] at hst
      obtain ⟨-, rfl⟩ := hst
      refine .inr ⟨hf, ?_⟩
      simp only
      split <;> rfl
    | onThreadEvent =>
      simp only [stepTransition, hpc, Option.some.injEq, Prod.mk.injEq, TransitionNext.goto.injEq] at hst
      obtain ⟨-, rfl⟩ := hst
      exact .inr ⟨by simp [hf], rfl⟩
    | notifyObservers =>
      simp only [stepTransition, hpc, Option.some.injEq, Prod.mk.injEq, TransitionNext.goto.injEq] at hst
      obtain ⟨-, rfl⟩ := hst
      exact .inr ⟨by simp [hf], by simp [hf, reportable]⟩
    | loadInProgress =>
      simp only [stepTransition, hpc, Option.some.injEq, Prod.mk.injEq, TransitionNext.goto.injEq] at hst
      obtain ⟨-, rfl⟩ := hst
      exact .inr ⟨hf, by simp [hi, reportable]⟩
    | loadInitializing =>
      simp only [stepTransition, hpc, Option.some.injEq, Prod.mk.injEq, TransitionNext.goto.injEq] at hst
      obtain ⟨-, rfl⟩ := hst
      exact .inl ⟨rfl, by simpa using ht⟩

/-- A callback that throws makes its transition end by an exception. -/
theorem failing_of_throw {tr : StateTransition} {next : TransitionNext}
    (hpc : tr.pc = .onStateChange ∨ tr.pc = .onThreadEvent) (hst : stepTransition s p tr false = some (s', next)) :
    ∃ tr', next = .goto tr' ∧ Failing tr' := by
  rcases hpc with hpc | hpc <;>
    simp only [stepTransition, hpc, Option.some.injEq, Prod.mk.injEq] at hst <;>
    obtain ⟨-, rfl⟩ := hst
  · exact ⟨_, rfl, .inr ⟨rfl, rfl⟩⟩
  · exact ⟨_, rfl, .inr ⟨by simp, rfl⟩⟩

theorem unlock_done {tr : StateTransition} {stored thrown : Bool}
    (h : stepTransition s p tr ok = some (s', .done stored thrown)) : tr.pc = .unlock ∧ thrown = tr.throws := by
  have hpc := stepTransition_unlock h
  simp only [stepTransition, hpc, Option.some.injEq, Prod.mk.injEq, TransitionNext.done.injEq] at h
  exact ⟨hpc, h.2.2.symm⟩

/-! ## Calls that an exception leaves -/

/-- `Initialize` has caught an exception. -/
def caught : InitializePc → Bool
  | .catchTerminate _ _ | .catchTerminated _ => true
  | t => t.status = some .initializationException

theorem initializing_of_attributes (h : attributes t = true) : t.initializing = true ∧ inProgress t = true := by
  cases t <;> first | exact ⟨rfl, rfl⟩ | cases h

/-- An exception of a transition inside of the `try` block is caught. -/
theorem resume_caught (stored : Bool) (ht : t.transition ≠ none) (ha : attributes t = true) :
    ∃ t', t.resume s stored true = .goto t' ∧ caught t' = true := by
  cases t <;> simp only [InitializePc.resume]
  case setInitialized | setRunning | stopTerminated => exact ⟨_, rfl, rfl⟩
  case catchTerminate g u => cases u.resume s true <;> exact ⟨_, rfl, rfl⟩
  case catchTerminated => exact ⟨_, rfl, rfl⟩
  case onInitialization => exact absurd rfl ht
  all_goals cases ha

/-- Out of any other public call it goes to the caller. -/
theorem resume_escapes {pc : Pc} {stored : Bool} (ht : pc.transition ≠ none) (hw : ∀ g u, pc ≠ .worker g u)
    (hm : ∀ u, pc ≠ .cleanUp u) (hi : ∀ t, pc.initializePc = some t → t.initializing = false) :
    threw (pc.resume s stored true) = true := by
  have hterminate : ∀ u : TerminatePc, u.resume s true = .ret true := by rintro (_ | _) <;> rfl
  have hinitialize : ∀ t : InitializePc, t.transition ≠ none → t.initializing = false →
      t.resume s stored true = .ret true := by
    intro t ht hi
    cases t
    case reset => rfl
    case setInitialized | setRunning | stopTerminated | catchTerminate | catchTerminated => cases hi
    all_goals exact absurd rfl ht
  cases pc with
  | pause => rfl
  | terminate u => simp only [Pc.resume, hterminate, Next.inside, threw]
  | initializeThread t => simp only [Pc.resume, hinitialize t ht (hi t rfl), Next.inside, threw]
  | start u =>
    cases u with
    | initializeThread t =>
      simp only [Pc.resume, StartPc.resume, hinitialize t ht (hi t rfl), Next.inside, threw]
    | setRunning | tryInitialized | tryPaused => rfl
    | readState | signalScheduler => exact absurd rfl ht
  | shutdown u =>
    cases u with
    | terminate branch v =>
      simp only [Pc.resume, ShutdownPc.resume, hterminate, Next.inside, ShutdownBranch.after, if_true, threw]
    | setTerminated => rfl
    | _ => exact absurd rfl ht
  | worker g u => exact absurd rfl (hw g u)
  | cleanUp u => exact absurd rfl (hm u)
  | idle | setFreeOnTerminate | setStartOnInitialize | dispatcher => exact absurd rfl ht

/-! ## The debt -/

/-- The call has got an exception that it passes on. -/
def Fails (c : State) (a : TaskId × Nat) (f : Frame) : Prop :=
  (∃ tr, f.transition = some tr ∧ Failing tr) ∨ (c.escaping a = true ∧ Frame.propagates f = true)

/-- An exception is on its way to the call `a`. -/
def Owes (c : State) (a : TaskId × Nat) : Prop :=
  ∃ m f, a.2 ≤ m ∧ c.world.call (a.1, m) = some f ∧ Fails c (a.1, m) f ∧
    ∀ k, a.2 ≤ k → k < m → ∃ g, c.world.call (a.1, k) = some g ∧ Frame.propagates g = true

theorem escapingAfter_true {b : TaskId × Nat} (hb : b ≠ (p, n)) (h : c.escaping b = true) :
    escapingAfter c p n ok b = true := by
  simp only [escapingAfter]
  split
  · cases n with
    | zero => exact h
    | succ k =>
      simp only [Function.update_apply]
      split
      · rfl
      · exact h
  · split
    · rw [Function.update_of_ne hb]
      exact h
    · exact h

/-- The calls of the task below the one that steps. -/
theorem Owes.below {f₀ : Frame} (hs : Stepped c p ok c' n f f') (hle : a.2 ≤ m) (hne : (a.1, m) ≠ (p, n))
    (hm : c.world.call (a.1, m) = some f₀) (hfail : Fails c (a.1, m) f₀)
    (hchain : ∀ k, a.2 ≤ k → k < m → ∃ g, c.world.call (a.1, k) = some g ∧ Frame.propagates g = true) : Owes c' a := by
  have hlt : ∀ k, k ≤ m → (a.1, k) ≠ (p, n) := by
    intro k hk he
    obtain ⟨rfl, rfl⟩ := Prod.mk.inj he
    have hd := (World.call_eq_some.1 hm).1
    rw [hs.depth] at hd
    exact hne (by rw [Nat.le_antisymm hk (Nat.le_of_lt_succ hd)])
  have hcall : ∀ k, k ≤ m → c'.world.call (a.1, k) = c.world.call (a.1, k) := fun k hk => by
    rw [hs.calls, Function.update_of_ne (hlt k hk)]
  refine ⟨m, f₀, hle, by rw [hcall m (Nat.le_refl _), hm], ?_, fun k hk hkm => ?_⟩
  · refine hfail.imp_right fun ⟨he, hp⟩ => ⟨?_, hp⟩
    rw [hs.escaping]
    exact escapingAfter_true hne he
  · rw [hcall k (Nat.le_of_lt hkm)]
    exact hchain k hk hkm

/-- The call has caught the exception. -/
def Caught (f' : Option Frame) : Prop :=
  ∃ f₁ t', f' = some f₁ ∧ f₁.pc.initializePc = some t' ∧ caught t' = true

/-- An exception is on its way to the call `a`, which is at `t`. -/
def OwesAt (c : State) (a : TaskId × Nat) (t : InitializePc) : Prop :=
  Owes c a ∧ ∃ f, c.world.call a = some f ∧ f.pc.initializePc = some t

section
variable {fa : Frame} (hs : Stepped c p ok c' n f f') (ha : c.world.call a = some fa)
  (ht : fa.pc.initializePc = some t) (hp : a.1 = p) (hle : a.2 ≤ n)
  (hchain : ∀ k, a.2 ≤ k → k < n → ∃ g, c.world.call (p, k) = some g ∧ Frame.propagates g = true)
include hs ha ht hp hle hchain

/-- The call at the top goes on, and still fails. -/
theorem owes_of_goto {tr : StateTransition} {f₁ : Frame} (hf : f' = some f₁) (hpc : f₁.pc = f.pc)
    (htr : f₁.transition = some tr) (hfail : Failing tr) : OwesAt c' a t := by
  subst hp
  have hbelow : ∀ k, k < n → c'.world.call (a.1, k) = c.world.call (a.1, k) := fun k hk => by
    rw [hs.calls, Function.update_of_ne fun he => Nat.ne_of_lt hk (Prod.mk.inj he).2]
  refine ⟨⟨n, f₁, hle, by rw [hs.calls, Function.update_self, hf], .inl ⟨tr, htr, hfail⟩, fun k hk hkn => ?_⟩, ?_⟩
  · rw [hbelow k hkn]
    exact hchain k hk hkn
  · rcases Nat.lt_or_eq_of_le hle with hlt | heq
    · exact ⟨fa, by rw [← ha]; exact hbelow a.2 hlt, ht⟩
    · have hfa : c.world.call (a.1, n) = some fa := by rw [← heq]; exact ha
      obtain rfl := Option.some.inj (hs.call.symm.trans hfa)
      refine ⟨f₁, ?_, by rw [hpc]; exact ht⟩
      rw [hs.calls, ← hf, ← heq, Function.update_self]

variable (hinv : WindowInv c.world) (hatt : attributes t = true)
include hinv hatt

/-- The transition of the call at the top ends by an exception. -/
theorem owes_of_done (stored : Bool) (hcalls : CallsOk c.world) (hu : Unmanaged c.world)
    (hpc : f.pc.transition ≠ none) (hesc : Frame.escapes f c.world.shared p ok =
      threw (f.pc.resume c'.world.shared stored true))
    (hf : f' = f.next (f.pc.resume c'.world.shared stored true)) : OwesAt c' a t ∨ (a = (p, n) ∧ Caught f') := by
  subst hp
  rcases Nat.lt_or_eq_of_le hle with hlt | heq
  · left
    obtain ⟨k, rfl⟩ : ∃ k, n = k + 1 := Nat.exists_eq_succ_of_ne_zero (Nat.ne_of_gt (Nat.zero_lt_of_lt hlt))
    have hthrew : threw (f.pc.resume c'.world.shared stored true) = true := by
      refine resume_escapes hpc (fun g u hw => ?_) (hu.calls _ f hs.call) fun u hu' => ?_
      · exact absurd (Prod.mk.inj ((hcalls _ f hs.call).worker g u hw)).2 (Nat.succ_ne_zero k)
      · -- There is one call between the stores, and it is another one.
        by_contra hi
        have := hinv.one a _ fa f t u ha hs.call ht hu' (initializing_of_attributes hatt).1 (by simpa using hi)
        rw [this] at hlt
        exact Nat.lt_irrefl _ hlt
    have hbelow : ∀ j, j ≤ k → c'.world.call (a.1, j) = c.world.call (a.1, j) := fun j hj => by
      rw [hs.calls, Function.update_of_ne fun he => Nat.ne_of_lt (Nat.lt_succ_of_le hj) (Prod.mk.inj he).2]
    obtain ⟨g, hg, hprop⟩ := hchain k (Nat.le_of_lt_succ hlt) (Nat.lt_succ_self k)
    refine ⟨⟨k, g, Nat.le_of_lt_succ hlt, by rw [hbelow k (Nat.le_refl k), hg], .inr ⟨?_, hprop⟩,
      fun j hj hjk => ?_⟩, fa, ?_, ht⟩
    · rw [hs.escaping, escapingAfter, hs.frame, hesc, hthrew, if_pos rfl, Function.update_self]
    · rw [hbelow j (Nat.le_of_lt hjk)]
      exact hchain j hj (Nat.lt_succ_of_lt hjk)
    · rw [← ha]
      exact hbelow a.2 (Nat.le_of_lt_succ hlt)
  · right
    have hfa : c.world.call (a.1, n) = some fa := by rw [← heq]; exact ha
    obtain rfl := Option.some.inj (hs.call.symm.trans hfa)
    rw [Pc.transition_of_initializePc ht] at hpc
    obtain ⟨t', hr, hc⟩ := resume_caught (s := c'.world.shared) stored hpc hatt
    obtain ⟨f₁, hf₁, ht₁, -⟩ := Attempts.next_resume ht hr
    exact ⟨by rw [← heq], f₁, t', hf.trans hf₁, ht₁, hc⟩

/-- User code at the top throws. -/
theorem owes_of_throw (hcalls : CallsOk c.world) (hprop : Frame.propagates f = true) (hok : ok = false) :
    OwesAt c' a t ∨ (a = (p, n) ∧ Caught f') := by
  subst hok
  have hstep := hs.step
  have hmem := hs.call
  cases htr : f.transition with
  | some tr =>
    have hpc : tr.pc = .onStateChange ∨ tr.pc = .onThreadEvent := by simpa [Frame.propagates, htr] using hprop
    generalize hw : c'.world.shared = s' at hstep
    cases hstep with
    | inTransition tr₀ tr' s' htr₀ hst =>
      obtain rfl := Option.some.inj (htr.symm.trans htr₀)
      obtain ⟨tr₁, he, hfail⟩ := failing_of_throw hpc hst
      cases he
      exact .inl (owes_of_goto hs ha ht hp hle hchain rfl rfl rfl hfail)
    | transitionDone tr₀ s' stored thrown htr₀ hst =>
      obtain rfl := Option.some.inj (htr.symm.trans htr₀)
      rw [(unlock_done hst).1] at hpc
      rcases hpc with hpc | hpc <;> cases hpc
    | transitionStart expected newState htr₀ => rw [htr] at htr₀; cases htr₀
    | exec s' next htr₀ => rw [htr] at htr₀; cases htr₀
  | none =>
    obtain ⟨u, hu, hon⟩ : ∃ u, f.pc.initializePc = some u ∧ ∃ g, u = .onInitialization g := by
      simp only [Frame.propagates, htr, Option.any_eq_true] at hprop
      obtain ⟨u, hu, hon⟩ := hprop
      refine ⟨u, hu, ?_⟩
      cases u <;> first | exact ⟨_, rfl⟩ | cases hon
    obtain ⟨g, rfl⟩ := hon
    generalize c'.world.shared = s' at hstep
    obtain ⟨next, hex, hgoto, -⟩ := exec_initializePc hstep (hcalls _ f hmem) hu rfl nofun
    cases hex
    obtain ⟨f₁, hf₁, ht₁, -⟩ := hgoto _ rfl
    right
    exact ⟨hinv.one a _ fa f t _ ha hmem ht hu (initializing_of_attributes hatt).1 rfl, f₁, _, hf₁, ht₁, rfl⟩

end

/-- A step of a task keeps an exception on its way, or brings it to the call. -/
theorem Owes.stepped {fa : Frame} (h : Owes c a) (hs : Stepped c p ok c' n f f') (hinv : WindowInv c.world)
    (hcalls : CallsOk c.world) (hu : Unmanaged c.world) (hpass : Passes c (p, n) f ok)
    (ha : c.world.call a = some fa) (ht : fa.pc.initializePc = some t) (hatt : attributes t = true) :
    OwesAt c' a t ∨ (a = (p, n) ∧ Caught f') := by
  obtain ⟨m, f₀, hle, hm, hfail, hchain⟩ := h
  by_cases hne : (a.1, m) = (p, n)
  · obtain ⟨hp, rfl⟩ := Prod.mk.inj hne
    rw [hne] at hm hfail
    obtain rfl := Option.some.inj (hs.call.symm.trans hm)
    rw [hp] at hchain
    rcases hfail with ⟨tr, htr, hfail⟩ | ⟨hesc, hprop⟩
    · have hpc : f.pc.transition ≠ none := by
        rw [(hcalls _ f hm).transition tr htr]
        exact Option.some_ne_none _
      have hwindow := (initializing_of_attributes hatt)
      have hstep := hs.step
      generalize hw : c'.world.shared = s' at hstep
      cases hstep with
      | inTransition tr₀ tr' s' htr₀ hst =>
        obtain rfl := Option.some.inj (htr.symm.trans htr₀)
        have hfail' := hfail.step hst (hinv.inProgress a fa t ha ht hwindow.2)
          (hp ▸ hinv.task a fa t ha ht hwindow.1)
        exact .inl (owes_of_goto hs ha ht hp hle hchain rfl rfl rfl hfail')
      | transitionDone tr₀ s' stored thrown htr₀ hst =>
        obtain rfl := Option.some.inj (htr.symm.trans htr₀)
        obtain ⟨hunlock, rfl⟩ := unlock_done hst
        have hthrows : tr.throws = true := by
          rcases hfail with ⟨-, hthrows⟩ | ⟨-, hr⟩
          · exact hthrows
          · rw [hunlock] at hr
            cases hr
        refine owes_of_done hs ha ht hp hle hchain hinv hatt stored hcalls hu hpc ?_ ?_
        · simp only [Frame.escapes, htr, hst, hthrows, hw]
        · rw [hw, hthrows]
      | transitionStart expected newState htr₀ => rw [htr] at htr₀; cases htr₀
      | exec s' next htr₀ => rw [htr] at htr₀; cases htr₀
    · exact owes_of_throw hs ha ht hp hle hchain hinv hatt hcalls hprop (hpass.passes hprop hesc)
  · left
    refine ⟨Owes.below hs hle hne hm hfail hchain, ?_⟩
    have hane : a ≠ (p, n) := by
      rintro rfl
      have hd := (World.call_eq_some.1 hm).1
      rw [hs.depth] at hd
      exact hne (congrArg (Prod.mk p) (Nat.le_antisymm (Nat.le_of_lt_succ hd) hle))
    exact ⟨fa, by rw [hs.calls, Function.update_of_ne hane, ha], ht⟩

/-- What comes above the calls of a task, or happens on another one, keeps it too. -/
theorem Owes.pushed {request : Request} (h : Owes c a) (hs : step c (.lifecycle (.call p request)) = some c') :
    Owes c' a := by
  obtain ⟨m, f₀, hle, hm, hfail, hchain⟩ := h
  obtain ⟨hw, hesc⟩ := step_pushed hs
  obtain ⟨-, hnone, hcall⟩ := call_last hw
  have hkept : ∀ k g, c.world.call (a.1, k) = some g → (a.1, k) ≠ (p, c.world.depth p) := by
    rintro k g hg he
    rw [he, hnone] at hg
    cases hg
  refine ⟨m, f₀, hle, by rw [hcall, Function.update_of_ne (hkept m f₀ hm), hm], ?_, fun k hk hkm => ?_⟩
  · refine hfail.imp_right fun ⟨he, hp⟩ => ⟨?_, hp⟩
    rw [hesc, Function.update_of_ne (hkept m f₀ hm), he]
  · obtain ⟨g, hg, hp⟩ := hchain k hk hkm
    exact ⟨g, by rw [hcall, Function.update_of_ne (hkept k g hg), hg], hp⟩

theorem Owes.observerThrows (h : Owes c a) (hs : step c (.observerThrows p) = some c') : Owes c' a := by
  obtain ⟨m, f₀, hle, hm, hfail, hchain⟩ := h
  obtain ⟨n, -, hn, rfl⟩ := step_observerThrows hs
  refine ⟨m, f₀, hle, hm, hfail.imp_right fun ⟨he, hp⟩ => ⟨?_, hp⟩, hchain⟩
  have hne : (a.1, m) ≠ (p, n) := by
    intro he'
    obtain ⟨-, rfl⟩ := World.call_eq_some.1 hm
    rw [he'] at hp
    -- An observer is not the user code that lets exceptions pass.
    cases htr : (c.world.frames (p, n)).transition with
    | none => rw [notifies, htr] at hn; cases hn
    | some tr =>
      simp only [notifies, htr, Option.any_some, decide_eq_true_eq] at hn
      simp [Frame.propagates, htr, hn] at hp
  simp only [Function.update_of_ne hne, he]

end ESPressio.Attribution
