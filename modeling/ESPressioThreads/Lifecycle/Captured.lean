import ESPressioThreads.Lifecycle.Exit
import ESPressioThreads.Lifecycle.Rank
import ESPressioThreads.Lifecycle.Waiters
/-!
# Shutdown that captures its task

`Shutdown` waits for the exit of another task's worker. The exit needs the
transition lock and the dispatcher: a `Shutdown` that is called in a callback
of a transition, or on the dispatcher, keeps what it waits for from happening.
While none is captured so, no step but a call of `Shutdown` or a new worker
captures one.
-/

namespace ESPressio.Lifecycle

open Transition ESPressio.Thread

variable {w w' : World} {s s' : Shared} {p : TaskId} {ok : Bool} {f : Frame} {f' : Option Frame}
  {st st' : Stage} {a : TaskId × Nat} {g : Gen} {n : Nat}

/-! ## Captured tasks -/

/-- The handle is another task's, and `p` is not the initializing task. -/
def Shared.waitsFor (s : Shared) (p : TaskId) : Option Gen → Bool
  | none => false
  | some g => p ≠ .worker g && !(s.initializationInProgress && s.initializingTask = some p)

/-- `Shutdown` on `p` waits, or is going to wait for what it finds. -/
def ShutdownPc.mayWait (s : Shared) (p : TaskId) : ShutdownPc → Bool
  | .claimManual | .storeFree | .releaseClaim | .loadHandle => s.waitsFor p s.taskHandle
  | .loadInProgress handle | .loadInitializing handle => s.waitsFor p handle
  | .terminate .wait _ | .waitExited => true
  | _ => false

def Pc.mayWait (s : Shared) (p : TaskId) : Pc → Bool
  | .shutdown pc => pc.mayWait s p
  | _ => false

/-- A `Shutdown` that may wait was called on the dispatcher, or in a callback
of a transition of this thread. -/
def World.Captured (w : World) : Prop :=
  ∃ p n f, w.call (p, n) = some f ∧ f.pc.mayWait w.shared p = true ∧
    (p = .dispatcher ∨ ∃ m f₀, m < n ∧ w.call (p, m) = some f₀ ∧ f₀.holds = true)

/-! ## The initializing task -/

/-- What `Shutdown` reads of an initialization. -/
def Shared.initialization (s : Shared) : Option TaskId × Bool := (s.initializingTask, s.initializationInProgress)

/-- `Initialize` has stored its task and has not cleared it. -/
def InitializePc.initializing : InitializePc → Bool
  | .storeInProgress _ | .onInitialization _ | .readAfterInitialization _ | .setInitialized _
  | .readAfterInitialized _ | .loadStartOnInitialize _ | .setRunning _ | .giveGate _ | .stopTerminated _
  | .catchTerminate _ _ | .catchTerminated _ | .exchangeTask _ _ | .deleteTask _ _ _ | .beginFinalization _ _
  | .storePending _ _ | .send _ _ | .clearPending _ | .clearInProgress _ | .clearInitializing _ => true
  | _ => false

/-- The step clears what `Shutdown` reads. -/
def InitializePc.clears : InitializePc → Bool
  | .clearInProgress _ | .clearInitializing _ => true
  | _ => false

theorem execInitialize_initialization {t : InitializePc} {next : Next InitializePc}
    (h : execInitialize s p t ok = some (s', next)) (hc : t.clears = false) (hs : ∀ g, t.stage ≠ some (.live g)) :
    s'.initialization = s.initialization := by
  have hkill : ∀ g, (s.kill g).initialization = s.initialization := by rintro (_ | g) <;> rfl
  cases t <;> simp only [execInitialize] at h
  case clearInProgress | clearInitializing => cases hc
  case storeInitializing | storeInProgress => exact absurd rfl (hs _)
  all_goals first
    | (cases h; first | rfl | exact hkill _)
    | (split at h <;> cases h <;> rfl)
    | cases h

theorem execStart_initialization {t : StartPc} {next : Next StartPc} (h : execStart s p t ok = some (s', next))
    (hc : ∀ u, t = .initializeThread u → u.clears = false) (hs : ∀ g, (Pc.start t).stage ≠ some (.live g)) :
    s'.initialization = s.initialization := by
  unfold execStart at h
  split at h
  · cases h; rfl
  · cases h; rfl
  · obtain ⟨⟨s₁, n⟩, hx, he⟩ := Option.map_eq_some_iff.1 h
    cases he
    exact execInitialize_initialization hx (hc _ rfl) hs
  · cases h; rfl
  all_goals cases h

theorem execShutdown_initialization {t : ShutdownPc} {next : Next ShutdownPc}
    (h : execShutdown s p t = some (s', next)) :
    s'.initialization = s.initialization ∧ s'.taskHandle = s.taskHandle := by
  have hclaim : ∀ a b, (s.exchangeClaim a b).initialization = s.initialization ∧
      (s.exchangeClaim a b).taskHandle = s.taskHandle := by
    intro a b
    unfold Shared.exchangeClaim
    split <;> exact ⟨rfl, rfl⟩
  cases t <;> simp only [execShutdown] at h
  all_goals first
    | (cases h; first | exact ⟨rfl, rfl⟩ | exact hclaim _ _)
    | (split at h <;> cases h; exact ⟨rfl, rfl⟩)
    | cases h

theorem execWorker_initialization {t : WorkerPc} {next : Next WorkerPc} (h : execWorker s g t ok = some (s', next)) :
    s'.initialization = s.initialization := by
  cases t <;> simp only [execWorker] at h
  all_goals first
    | (cases h; rfl)
    | (split at h <;> cases h <;> rfl)
    | cases h

theorem execDispatcher_initialization {t : DispatcherPc} {next : Next DispatcherPc}
    (h : execDispatcher s t = some (s', next)) : s'.initialization = s.initialization := by
  have hkill : ∀ g, (s.kill g).initialization = s.initialization := by rintro (_ | g) <;> rfl
  cases t <;> simp only [execDispatcher] at h
  all_goals first
    | (cases h; first | rfl | exact hkill _)
    | (split at h <;> cases h; rfl)

/-- Only `Initialize` writes what `Shutdown` reads of it. -/
theorem FrameStep.initialization (h : FrameStep s p f ok s' f') (hm : ∀ t, f.pc ≠ .cleanUp t)
    (hc : ∀ t, f.pc.initializePc = some t → t.clears = false) (hs : ∀ g, f.pc.stage ≠ some (.live g)) :
    s'.initialization = s.initialization := by
  rcases h.shared_cases with ⟨_, _, _, rfl⟩ | ⟨next, hex⟩
  · rfl
  · generalize f.pc = pc at hm hc hs hex
    unfold Lifecycle.exec at hex
    split at hex
    · cases hex
    · cases hex
    · cases hex; rfl
    · cases hex
      split <;> (unfold Shared.exchangeClaim; split <;> rfl)
    · cases hex; rfl
    · cases hex; rfl
    all_goals
      obtain ⟨⟨s₁, n⟩, hx, he⟩ := Option.map_eq_some_iff.1 hex
      cases he
    · exact execInitialize_initialization hx (hc _ rfl) hs
    · exact execStart_initialization hx (fun u hu => hc u (by rw [hu]; rfl)) hs
    · exact (execShutdown_initialization hx).1
    · exact execWorker_initialization hx
    · exact execDispatcher_initialization hx
    · exact absurd rfl (hm _)

theorem execInitialize_initializingTask {t : InitializePc} {next : Next InitializePc}
    (h : execInitialize s p t ok = some (s', next)) (hs : ∀ g, t ≠ .storeInitializing g)
    (hc : ∀ status, t ≠ .clearInitializing status) : s'.initializingTask = s.initializingTask := by
  have hkill : ∀ g, (s.kill g).initializingTask = s.initializingTask := by rintro (_ | g) <;> rfl
  cases t <;> simp only [execInitialize] at h
  case storeInitializing g => exact absurd rfl (hs g)
  case clearInitializing status => exact absurd rfl (hc status)
  all_goals first
    | (cases h; first | rfl | exact hkill _)
    | (split at h <;> cases h <;> rfl)
    | cases h

/-- `Initialize` stores its task and leaves it until it clears it. -/
theorem InitializeTo.initializing {tr tr' : Option StateTransition} {t t' : InitializePc}
    (h : InitializeTo s p ok tr t s' tr' t') (ht : t'.initializing = true) :
    s'.initializingTask = some p ∨ (t.initializing = true ∧ s'.initializingTask = s.initializingTask) := by
  cases h with
  | inTransition _ tr tr' s' hst =>
    obtain ⟨_, _, _, rfl⟩ := stepTransition_shared hst
    exact .inr ⟨ht, rfl⟩
  | transitionStart => exact .inr ⟨ht, rfl⟩
  -- The fields are not touched by transitions.
  | transitionDone _ _ tr s' stored threw hst hr =>
    obtain ⟨_, _, _, rfl⟩ := stepTransition_shared hst
    refine .inr ⟨?_, rfl⟩
    cases InitializePc.resume_goto hr
    case reset | unreset => cases ht
    all_goals rfl
  | exec _ _ s' hex =>
    cases execInitialize_goto hex with
    | storeInitializing g => cases hex; exact .inl rfl
    | _ =>
      first
      | (cases ht; done)
      | exact .inr ⟨rfl, execInitialize_initializingTask hex nofun nofun⟩

/-- The task of the call in `Initialize` is the initializing one. -/
def InitializingInv (w : World) : Prop :=
  ∀ a f, w.call a = some f → ∀ t, f.pc.initializePc = some t → t.initializing = true →
    w.shared.initializingTask = some a.1

theorem Pc.initializes_of_live {pc : Pc} (h : pc.stage = some (.live g)) : pc.initializes = true := by
  cases pc with
  | initializeThread | start => rfl
  | worker x t => cases t <;> cases h
  | dispatcher t => cases t <;> cases h
  | _ => cases h

/-- A call that does not initialize leaves the initializing task. -/
theorem FrameStep.initialization_of (h : FrameStep s p f ok s' f') (hm : ∀ t, f.pc ≠ .cleanUp t)
    (hi : f.pc.initializes = false) : s'.initialization = s.initialization := by
  refine h.initialization hm (fun t ht => ?_) fun g hg => ?_
  · rw [Pc.initializes_of_initializePc ht] at hi
    cases hi
  · rw [Pc.initializes_of_live hg] at hi
    cases hi

theorem InitializingInv.step {b : Action} (h : InitializingInv w) (ho : OneInitializer w) (hu : Unmanaged w)
    (hs : Lifecycle.step w b = some w') : InitializingInv w' := by
  cases b with
  | call p request =>
    obtain ⟨hshared, -, a, -, -, hcall⟩ := call_update hs
    rw [InitializingInv, hcall, hshared]
    refine forall_call_update (fun f hf t ht hi => ?_) fun b f _ hb => h b f hb
    cases hf
    cases request <;> cases ht
    cases hi
  | step p ok =>
    obtain ⟨-, a, f, f', rfl, -, hf, hstep, hcall⟩ := step_update hs
    rw [InitializingInv, hcall]
    refine forall_call_update (fun f₁ hf₁ t' ht' hi' => ?_) fun b f₁ hb hf₁ t ht hi => ?_
    · rw [hf₁] at hstep
      rcases hstep.initializePc ht' with rfl | ⟨t, ht, hto⟩
      · cases hi'
      · rcases hto.initializing hi' with hp | ⟨hi, hsame⟩
        · exact hp
        · rw [hsame]
          exact h a f hf t ht hi
    · -- Nobody else initializes.
      have hnot : f.pc.initializes = false := by
        by_contra hne
        exact hb (ho b a f₁ f hf₁ hf (Pc.initializes_of_initializePc ht) (by simpa using hne))
      have hsame := congrArg Prod.fst (hstep.initialization_of (hu.calls a f hf) hnot)
      exact Eq.trans hsame (h b f₁ hf₁ t ht hi)

theorem initializingInv_start (s : Shared) : InitializingInv (.start s) := by
  intro a f hf t ht
  rcases start_call hf with ⟨g, -, rfl⟩ | ⟨-, rfl⟩ <;> cases ht

/-! ## What a step leaves to wait -/

theorem Shared.waitsFor_eq_true {handle : Option Gen} : s.waitsFor p handle = true ↔
    (∃ g, handle = some g ∧ p ≠ .worker g) ∧
      ¬ (s.initializationInProgress = true ∧ s.initializingTask = some p) := by
  cases handle with
  | none => simp [Shared.waitsFor]
  | some g => cases hi : s.initializationInProgress <;> simp [Shared.waitsFor, hi]

theorem Shared.waitsFor_congr (h : s'.initialization = s.initialization) (handle : Option Gen) :
    s'.waitsFor p handle = s.waitsFor p handle := by
  simp only [Shared.initialization, Prod.mk.injEq] at h
  cases handle with
  | none => rfl
  | some g => simp only [Shared.waitsFor, h.1, h.2]

theorem ShutdownPc.mayWait_choose {handle : Option Gen} (h : (ShutdownPc.choose p handle).mayWait s p = true) :
    ∃ g, handle = some g ∧ p ≠ .worker g := by
  cases handle with
  | none => cases h
  | some g =>
    refine ⟨g, rfl, fun hp => ?_⟩
    rw [ShutdownPc.choose, if_pos hp] at h
    cases h

theorem ShutdownPc.mayWait_after {branch : ShutdownBranch} {u : TerminatePc} {threw : Bool} {t : ShutdownPc}
    (ha : branch.after threw = .goto t) (hw : t.mayWait s' p = true) :
    (ShutdownPc.terminate branch u).mayWait s p = true := by
  unfold ShutdownBranch.after at ha
  split at ha
  · cases ha
  · cases branch <;> cases ha <;> first | rfl | cases hw

theorem ShutdownPc.mayWait_terminate {branch : ShutdownBranch} {u u' : TerminatePc}
    (h : (ShutdownPc.terminate branch u').mayWait s' p = true) :
    (ShutdownPc.terminate branch u).mayWait s p = true := by
  cases branch <;> first | rfl | cases h

theorem execShutdown_mayWait {t t' : ShutdownPc} (h : execShutdown s p t = some (s', .goto t'))
    (hw : t'.mayWait s' p = true) : t.mayWait s p = true := by
  obtain ⟨hinit, hhandle⟩ := execShutdown_initialization h
  cases t <;> simp only [execShutdown] at h
  case claimManual | storeFree | releaseClaim | loadHandle =>
    cases h
    simp only [ShutdownPc.mayWait] at hw ⊢
    rw [Shared.waitsFor_congr hinit] at hw
    first | exact hw | rwa [hhandle] at hw
  case loadInProgress handle =>
    cases h
    split at hw
    · exact hw
    · rename_i hn
      exact Shared.waitsFor_eq_true.2 ⟨ShutdownPc.mayWait_choose hw, fun hi => hn hi.1⟩
  case loadInitializing handle =>
    cases h
    split at hw
    · cases hw
    · rename_i hn
      exact Shared.waitsFor_eq_true.2 ⟨ShutdownPc.mayWait_choose hw, fun hi => hn hi.2⟩
  case terminate branch u =>
    simp only [Option.some.injEq, Prod.mk.injEq] at h
    obtain ⟨-, h⟩ := h
    obtain ⟨y, -, rfl⟩ | ⟨threw, -, hr⟩ := Next.inside_goto h
    · exact ShutdownPc.mayWait_terminate hw
    · exact ShutdownPc.mayWait_after hr hw
  case waitExited => rfl
  case isCurrentTask =>
    simp only [Option.some.injEq, Prod.mk.injEq] at h
    obtain ⟨-, h⟩ := h
    split at h <;> cases h
    cases hw
  all_goals first
    | (cases h; done)
    | (cases h; split at hw <;> cases hw)

/-- A call that may wait after a step might have waited before it. -/
theorem FrameStep.mayWait {f₁ : Frame} (h : FrameStep s p f ok s' (some f₁)) (hw : f₁.pc.mayWait s' p = true) :
    f.pc.mayWait s p = true := by
  cases h.goto with
  | inTransition tr tr' s' htr hst =>
    obtain ⟨_, _, _, rfl⟩ := stepTransition_shared hst
    exact hw
  | transitionStart => exact hw
  | transitionDone tr s' stored threw pc' htr hst hn =>
    generalize f.pc = pc at hn
    cases resume_goto hn with
    | shutdown t t' hr =>
      cases t with
      | terminate branch u =>
        simp only [ShutdownPc.resume] at hr
        obtain ⟨y, -, rfl⟩ | ⟨threw', -, ha⟩ := Next.inside_goto hr
        · exact ShutdownPc.mayWait_terminate hw
        · exact ShutdownPc.mayWait_after ha hw
      | _ =>
        simp only [ShutdownPc.resume] at hr
        split at hr <;> cases hr
        cases hw
    | terminate | initializeThread | start | worker | cleanUp => cases hw
  | exec s' pc' htr hpc hex =>
    generalize f.pc = pc at hex
    cases exec_goto hex with
    | shutdown t t' hx => exact execShutdown_mayWait hx hw
    | setFreeOnTerminate | terminate | initializeThread | start | worker | dispatcher | cleanUp => cases hw

theorem Pc.mayWait_mono {pc : Pc} (hh : s'.taskHandle = s.taskHandle ∨ s'.taskHandle = none)
    (hf : ∀ handle, s'.waitsFor p handle = true → s.waitsFor p handle = true) (hw : pc.mayWait s' p = true) :
    pc.mayWait s p = true := by
  have hload : s'.waitsFor p s'.taskHandle = true → s.waitsFor p s.taskHandle = true := by
    intro h
    rcases hh with hh | hh
    · rw [← hh]
      exact hf _ h
    · rw [hh] at h
      cases h
  cases pc with
  | shutdown t =>
    cases t <;> first | exact hload hw | exact hf _ hw | exact ShutdownPc.mayWait_terminate hw | exact hw
  | _ => cases hw

/-- Only in a branch that waits does a `Shutdown` that may wait run user code. -/
theorem Frame.Ok.mayWait_of_userCode (hok : f.Ok a) (hu : f.userCode = true) (hw : f.pc.mayWait s' p = true) :
    f.pc.mayWait s p = true := by
  obtain ⟨pc, tr, after⟩ := f
  cases pc with
  | shutdown t =>
    cases t with
    | terminate branch u => exact ShutdownPc.mayWait_terminate hw
    | waitExited => rfl
    | setTerminated | readState | rereadState | loadPending | isCurrentTask | poll | finish => cases hw
    | claimManual | storeFree | releaseClaim | loadHandle | loadInProgress | loadInitializing =>
      obtain rfl : tr = none := hok.no_transition rfl
      cases hu
  | _ => cases hw

theorem Move.handle {l l' : Option Stage} {r r' : Registers} (h : Move l r l' r') (hm : ∀ g, l ≠ some (.made g)) :
    r'.taskHandle = r.taskHandle ∨ r'.taskHandle = none := by
  cases h with
  | publish g => exact absurd rfl (hm g)
  | fail | exchange => exact .inr rfl
  | _ => exact .inl rfl

/-- A step that neither publishes a worker nor works on its initialization
captures no task. -/
theorem Moved.uncaptured (hm : Moved w p ok w' st st' (p, n) f f') (h : ¬ w.Captured) (hd : w.depth p = n + 1)
    (hoks : CallsOk w) (hu : Unmanaged w) (hst : Stacked w) (hi : InitializingInv w)
    (hmade : ∀ g, f.pc.stage ≠ some (.made g)) (hlive : ∀ g, f.pc.stage ≠ some (.live g)) : ¬ w'.Captured := by
  rintro ⟨q, k, f₁, hf₁, hw, hlow⟩
  -- The calls below are the old ones.
  have hlow' : q = .dispatcher ∨ ∃ m f₀, m < k ∧ w.call (q, m) = some f₀ ∧ f₀.holds = true := by
    refine hlow.imp_right ?_
    rintro ⟨m, f₀, hmk, hf₀, hh⟩
    refine ⟨m, f₀, hmk, ?_, hh⟩
    rwa [hm.calls, Function.update_of_ne] at hf₀
    rintro ⟨⟩
    rw [hm.calls, Function.update_of_ne (by simp; omega)] at hf₁
    have := (World.call_eq_some.1 hf₁).1
    dsimp only at this
    omega
  by_cases hqk : (q, k) = (p, n)
  · cases hqk
    have hstep := hm.frame
    rw [hm.calls, Function.update_self] at hf₁
    rw [hf₁] at hstep
    exact h ⟨p, n, f, hm.call, hstep.mayWait hw, hlow'⟩
  · rw [hm.calls, Function.update_of_ne hqk] at hf₁
    refine h ⟨q, k, f₁, hf₁, ?_, hlow'⟩
    have hhandle := hm.move.handle hmade
    by_cases hsame : w'.shared.initialization = w.shared.initialization
    · exact Pc.mayWait_mono hhandle (fun handle hx => by rwa [Shared.waitsFor_congr hsame] at hx) hw
    · -- The initializing task clears what it stored.
      have hclears : ∃ t, f.pc.initializePc = some t ∧ t.clears = true := by
        by_contra hno
        refine hsame (hm.frame.initialization (hu.calls _ f hm.call) (fun t ht => ?_) hlive)
        by_contra hc
        exact hno ⟨t, ht, by simpa using hc⟩
      obtain ⟨t, ht, hc⟩ := hclears
      have htask := hi _ f hm.call t ht (by cases t <;> first | rfl | cases hc)
      by_cases hq : q = p
      · subst hq
        have hk := (World.call_eq_some.1 hf₁).1
        dsimp only at hk
        have hne : k ≠ n := fun he => hqk (by rw [he])
        have huser := hst q k (by omega)
        rw [(World.call_eq_some.1 hf₁).2] at huser
        exact (hoks _ f₁ hf₁).mayWait_of_userCode huser hw
      · refine Pc.mayWait_mono hhandle (fun handle hx => ?_) hw
        refine Shared.waitsFor_eq_true.2 ⟨(Shared.waitsFor_eq_true.1 hx).1, fun hboth => hq ?_⟩
        rw [htask] at hboth
        exact (Option.some.inj hboth.2).symm

end ESPressio.Lifecycle
