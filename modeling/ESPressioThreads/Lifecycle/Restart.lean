import ESPressioThreads.Lifecycle.Cleanup
import ESPressioThreads.Lifecycle.States
import ESPressioThreads.Lifecycle.Ownership
/-!
# Cleanup of a thread that restarts

`TryClaimAutomaticCleanup` tests the state and then claims, in two accesses;
`Start` and `Initialize` leave `Terminated` after a sequence of checks, none of
which looks at the claim. The claimed thread stays `Terminated` when neither
sequence comes into the other one.
-/

namespace ESPressio.Lifecycle

open Transition ESPressio.Thread

variable {w w' : World} {s s' : Shared} {p : TaskId} {ok : Bool} {f : Frame}

/-! ## Restarts -/

/-- `Initialize` has its transition from `Terminated` before it. -/
def InitializePc.restarts (unstored : Bool) : InitializePc → Bool
  | .ensureRegistered | .loadHandle | .loadPending | .ensureDispatcher | .readState => true
  | .reset => unstored
  | _ => false

def Pc.restarts (unstored : Bool) : Pc → Bool
  | .start .readState => true
  | .initializeThread pc | .start (.initializeThread pc) => pc.restarts unstored
  | _ => false

/-- The call may still leave `Terminated`. -/
def Frame.restarts (f : Frame) : Bool := f.pc.restarts (unstored f.transition)

/-- The next step of the task is a claim that succeeds. -/
def World.Claims (w : World) (p : TaskId) : Prop :=
  w.shared.cleanupClaim = .available ∧ ∃ f, w.top p = some f ∧ f.pc = .cleanUp .exchangeClaim

/-- `Start` and `Initialize` begin before cleanup has claimed the thread. -/
def BeginsBeforeClaim (w : World) : Action → Prop
  | .call _ request => request = .start ∨ request = .initializeThread → w.shared.reclaimed = false
  | .step _ _ => True

/-- The thread is in `Terminated` when it is claimed, and not restarted before
it is deleted. -/
def ClaimedTerminated (w w' : World) : Prop :=
  w.shared.threadState = .terminated ∧
    ∀ v, (system true).Leads BeginsBeforeClaim w' v → v.shared.freed = false →
      v.shared.threadState ≠ .uninitialized ∧ v.shared.threadState ≠ .initialized ∧ v.shared.threadState ≠ .running

/-- The claim and a restart stay out of each other: the thread is claimed while
no call may still restart it, and leaves `Terminated` while no cleanup pass is
between its test of the state and its claim. -/
def ClaimsApart (w : World) : Action → Prop
  | .call _ _ => True
  | .step p _ =>
    (w.Claims p → ∀ a g, w.call a = some g → g.restarts = false) ∧
    ∀ f, w.top p = some f → f.stores w.shared = some .uninitialized →
      ∀ a g, w.call a = some g → g.pc ≠ .cleanUp .exchangeClaim

/-! ## One step -/

theorem InitializePc.restarts_mono {t : InitializePc} (h : t.restarts false = true) : t.restarts true = true := by
  cases t <;> first | rfl | cases h

theorem Pc.restarts_mono {pc : Pc} (h : pc.restarts false = true) : pc.restarts true = true := by
  cases pc with
  | initializeThread t => exact InitializePc.restarts_mono h
  | start t =>
    cases t with
    | readState => rfl
    | initializeThread t => exact InitializePc.restarts_mono h
    | _ => cases h
  | _ => cases h

theorem InitializePc.restarts_resume {t t' : InitializePc} {stored threw b : Bool}
    (h : t.resume s stored threw = .goto t') : t'.restarts b = false := by
  cases InitializePc.resume_goto h <;> rfl

/-- After a transition nothing is left of a restart. -/
theorem Pc.restarts_resume {pc pc' : Pc} {stored threw b : Bool} (h : pc.resume s stored threw = .goto pc') :
    pc'.restarts b = false := by
  cases resume_goto h with
  | initializeThread t t' ht => exact InitializePc.restarts_resume ht
  | start t t' ht =>
    cases t with
    | initializeThread t =>
      obtain ⟨y, hy, rfl⟩ | ⟨_, -, hr⟩ := Next.inside_goto ht
      · exact InitializePc.restarts_resume hy
      · cases hr
    | _ =>
      simp only [StartPc.resume] at ht
      split at ht
      · cases ht
      · rw [StartPc.tail_goto ht]; rfl
  | terminate | shutdown | worker | cleanUp => rfl

theorem execInitialize_restarts {t t' : InitializePc} (h : execInitialize s p t ok = some (s', .goto t'))
    (hr : t'.restarts true = true) (b : Bool) : t.restarts b = true := by
  cases execInitialize_goto h <;>
    first
    | rfl
    | cases hr

theorem exec_restarts {pc pc' : Pc} (h : exec s p pc ok = some (s', .goto pc')) (hr : pc'.restarts true = true)
    (b : Bool) : pc.restarts b = true := by
  cases exec_goto h with
  | initializeThread t t' ht => exact execInitialize_restarts ht hr b
  | start t t' ht =>
    unfold execStart at ht
    split at ht
    · rfl
    · simp only [Option.some.injEq, Prod.mk.injEq] at ht
      obtain ⟨-, ht⟩ := ht
      split at ht
      · cases ht; cases hr
      · rw [StartPc.tail_goto ht] at hr; cases hr
    · obtain ⟨y, hy, rfl⟩ := map_inside_goto ht
      exact execInitialize_restarts hy hr b
    all_goals cases ht
  | setFreeOnTerminate | terminate | shutdown | worker | dispatcher | cleanUp => cases hr

/-- A call that may restart the thread might do so before the step. -/
theorem FrameStep.restarts {f' : Frame} (h : FrameStep s p f ok s' (some f')) (hr : f'.restarts = true) :
    f.restarts = true := by
  unfold Frame.restarts at hr ⊢
  cases h.goto with
  | inTransition tr tr' s' htr hst =>
    simp only [unstored, htr, Option.all_some] at hr ⊢
    cases hb' : tr'.pc = .lock || tr'.pc = .check with
    | true =>
      have hl := stepTransition_unstored hst (by simpa using hb')
      simpa [hl, hb'] using hr
    | false =>
      rw [hb'] at hr
      cases tr.pc = .lock || tr.pc = .check with
      | true => exact Pc.restarts_mono hr
      | false => exact hr
  | transitionStart expected newState htr hpc =>
    simpa [unstored, htr, StateTransition.start] using hr
  | transitionDone tr s' stored threw pc htr hst hn =>
    rw [Pc.restarts_resume hn] at hr
    cases hr
  | exec s' pc htr hpc hex =>
    exact exec_restarts hex hr _

theorem execCleanUp_threadState {t : CleanUpPc} {next : Next CleanUpPc}
    (h : execCleanUp s p t ok = some (s', next)) : s'.threadState = s.threadState := by
  have hclaim : ∀ a b, (s.exchangeClaim a b).threadState = s.threadState := fun a b =>
    congrArg (fun x => x.2.1) (Shared.aside_exchangeClaim s a b)
  have hkill : ∀ h, (s.kill h).threadState = s.threadState := fun h =>
    congrArg (fun x => x.2.1) (Shared.aside_kill s h)
  cases t <;> simp only [execCleanUp] at h
  all_goals first
    | (cases h; done)
    | (cases h; first | rfl | exact hclaim _ _ | exact hkill _)
    | (split at h <;> cases h <;> rfl)

/-- The state changes by a transition that the call has come to store. -/
theorem FrameStep.stored_or {f' : Option Frame} (h : FrameStep s p f ok s' f') :
    s'.threadState = s.threadState ∨ f.stores s = some s'.threadState := by
  by_cases hc : ∃ t, f.pc = .cleanUp t
  · obtain ⟨t, ht⟩ := hc
    cases h with
    | inTransition tr tr' s' htr hst =>
      rw [stepTransition_threadState hst htr]
      cases f.stores s <;> simp
    | transitionDone tr s' stored threw htr hst =>
      rw [stepTransition_threadState hst htr]
      cases f.stores s <;> simp
    | transitionStart => exact .inl rfl
    | exec s' next htr hpc hex =>
      left
      rcases exec_aside hex with ⟨-, ha⟩ | ⟨t', n, -, -, hn⟩
      · exact congrArg (fun x => x.2.1) ha
      · exact execCleanUp_threadState hn
  · rw [h.threadState fun t ht => hc ⟨t, ht⟩]
    cases f.stores s <;> simp

/-- `Terminated` is left for `Uninitialized` by a call that restarts the
thread, and for `Destroyed` by the pass that claimed it. -/
theorem Frame.Ok.leaves {a : TaskId × Nat} {state : ThreadState} (hok : f.Ok a) (h : f.stores s = some state) :
    (state = .uninitialized → f.restarts = true) ∧ (state = .destroyed → f.pc.claimed = true) := by
  obtain ⟨tr, htr, hpc, rfl, -, -⟩ := Frame.stores_eq_some.1 h
  have hmakes := hok.transition tr htr
  have hdestroys : (∀ t, f.pc ≠ .cleanUp t) ∨ (f.pc = .cleanUp .setDestroyed ∧ tr.newState = .destroyed) := by
    by_cases hc : ∃ t, f.pc = .cleanUp t
    · obtain ⟨t, ht⟩ := hc
      rw [ht] at hmakes
      cases t
      case setDestroyed => exact .inr ⟨ht, (congrArg Prod.snd (Option.some.inj hmakes)).symm⟩
      all_goals cases hmakes
    · exact .inl fun t ht => hc ⟨t, ht⟩
  constructor
  · intro hstate
    rw [hstate] at hmakes hdestroys
    rcases hdestroys with hc | ⟨-, hd⟩
    · have hreset : f.pc.initializePc = some .reset := Pc.makes hmakes hc
      unfold Frame.restarts
      generalize f.pc = pc at hreset
      cases pc with
      | initializeThread t => cases hreset; simp [Pc.restarts, InitializePc.restarts, unstored, htr, hpc]
      | start t =>
        cases t with
        | initializeThread t => cases hreset; simp [Pc.restarts, InitializePc.restarts, unstored, htr, hpc]
        | _ => cases hreset
      | _ => cases hreset
    · cases hd
  · intro hstate
    rw [hstate] at hmakes
    rcases hdestroys with hc | ⟨hd, -⟩
    · exact (Pc.makes hmakes hc).elim
    · rw [hd]; rfl

/-- The claim of cleanup is never given back. -/
theorem FrameStep.automatic {f' : Option Frame} (h : FrameStep s p f ok s' f') (ha : s.cleanupClaim = .automatic) :
    s'.cleanupClaim = .automatic := by
  have hclaim : ∀ a b, a ≠ .automatic → (s.exchangeClaim a b).cleanupClaim = .automatic := by
    intro a b hne
    unfold Shared.exchangeClaim
    rw [if_neg (by rw [ha]; exact fun he => hne he.symm)]
    exact ha
  rcases h.shared_cases with ⟨_, _, _, rfl⟩ | ⟨next, hex⟩
  · exact ha
  · rcases exec_owner hex with ho | ho
    · exact (congrArg Prod.snd ho).trans ha
    · generalize f.pc = pc at ho hex
      cases pc with
      | setFreeOnTerminate value stored =>
        cases stored
        · cases hex; exact ha
        · cases hex
          cases value
          · exact hclaim _ _ nofun
          · exact hclaim _ _ nofun
      | shutdown t =>
        obtain ⟨⟨s₁, n⟩, hs, he⟩ := Option.map_eq_some_iff.1 hex
        cases he
        cases t <;> cases ho <;> cases hs <;> first | exact ha | exact hclaim _ _ nofun
      | cleanUp t =>
        obtain ⟨⟨s₁, n⟩, hs, he⟩ := Option.map_eq_some_iff.1 hex
        cases he
        cases t
        case exchangeClaim =>
          simp only [execCleanUp, ha] at hs
          cases hs
          exact ha
        case storeFree => cases hs; exact ha
        case releaseClaim => cases hs; exact hclaim _ _ nofun
        all_goals cases ho
      | _ => cases ho

/-- A claim that succeeds. -/
theorem FrameStep.claims {a : TaskId × Nat} {f' : Option Frame} (h : FrameStep s p f ok s' f') (hok : f.Ok a)
    (hpc : f.pc = .cleanUp .exchangeClaim) (ha : s.cleanupClaim = .available) :
    s' = { s with cleanupClaim := .automatic, reclaimed := true } := by
  obtain ⟨next, hex, -⟩ := h.exec_of hok (by rw [hpc]; rfl)
  rw [hpc] at hex
  simp only [Lifecycle.exec, execCleanUp, ha] at hex
  cases hex
  rfl

/-- A pass is about to claim after it has read `Terminated`. -/
theorem FrameStep.tests {a : TaskId × Nat} {f' : Frame} (h : FrameStep s p f ok s' (some f')) (hok : f.Ok a)
    (hpc : f'.pc = .cleanUp .exchangeClaim) : s'.threadState = .terminated := by
  have hno : f.pc = .cleanUp .exchangeClaim → f.transition = none :=
    fun he => hok.no_transition (by rw [he]; rfl)
  cases h.goto with
  | inTransition tr tr' s' htr =>
    rw [hno hpc] at htr
    cases htr
  | transitionStart expected newState htr ht =>
    rw [show f.pc = _ from hpc] at ht
    cases ht
  | transitionDone tr s' stored threw pc htr hst hn =>
    generalize f.pc = x at hn
    cases resume_goto hn <;> cases hpc
  | exec s' pc htr ht hex =>
    generalize f.pc = x at hex
    cases exec_goto hex with
    | cleanUp t t' hx =>
      cases hpc
      cases t <;> simp only [execCleanUp] at hx
      case loadState =>
        simp only [Option.some.injEq, Prod.mk.injEq] at hx
        obtain ⟨rfl, hx⟩ := hx
        split at hx
        · assumption
        · cases hx
      case getThreadState | loadFree | loadPending | isCurrentTask | poll | remove =>
        simp only [Option.some.injEq, Prod.mk.injEq] at hx
        obtain ⟨-, hx⟩ := hx
        split at hx <;> cases hx
      case exchangeClaim => split at hx <;> cases hx
      all_goals cases hx
    | setFreeOnTerminate | terminate | initializeThread | start | shutdown | worker | dispatcher => cases hpc

theorem FrameStep.reclaimed {f' : Option Frame} (h : FrameStep s p f ok s' f') (hr : s.reclaimed = true) :
    s'.reclaimed = true := by
  rcases reclaimed_frame h with ⟨-, -, ht, -⟩ | ⟨-, he⟩ | ⟨he, -, -⟩
  · exact ht
  · rw [he]; exact hr
  · rw [he]; exact hr

/-! ## Runs up to the claim -/

structure RestartInv (w : World) : Prop where
  claimed : ∀ a f, w.call a = some f → f.pc.claimed = true → w.shared.reclaimed = true
  automatic : w.shared.reclaimed = true → w.shared.cleanupClaim = .automatic
  destroyed : w.shared.threadState = .destroyed → w.shared.reclaimed = true
  tested : ∀ a f, w.call a = some f → f.pc = .cleanUp .exchangeClaim →
    w.shared.threadState = .terminated ∨ w.shared.threadState = .destroyed

theorem RestartInv.called {request : Request} (h : RestartInv w) (hs : step w (.call p request) = some w') :
    RestartInv w' := by
  obtain ⟨hshared, -, a, -, -, hcall⟩ := call_update hs
  refine ⟨?_, by rw [hshared]; exact h.automatic, by rw [hshared]; exact h.destroyed, ?_⟩
  · rw [hcall, hshared]
    refine forall_call_update (fun f hf hc => ?_) fun b f _ hb => h.claimed b f hb
    cases hf
    cases request <;> cases hc
  · rw [hcall, hshared]
    refine forall_call_update (fun f hf hc => ?_) fun b f _ hb => h.tested b f hb
    cases hf
    cases request <;> cases hc

theorem RestartInv.stepped (h : RestartInv w) (hcalls : CallsOk w) (hc : ClaimsApart w (.step p ok))
    (hs : step w (.step p ok) = some w') : RestartInv w' := by
  obtain ⟨-, a, f, f', -, htop, hf, hstep, hcall⟩ := step_update hs
  have hok := hcalls a f hf
  refine ⟨?_, fun hr => ?_, fun hd => ?_, ?_⟩
  · rw [hcall]
    refine forall_call_update (fun g hg hcl => ?_) fun b g _ hb hcl => hstep.reclaimed (h.claimed b g hb hcl)
    rcases reclaimed_frame hstep with ⟨-, -, ht, -⟩ | ⟨hfc, -⟩ | ⟨-, -, hgc⟩
    · exact ht
    · exact hstep.reclaimed (h.claimed a f hf hfc)
    · exact hstep.reclaimed (h.claimed a f hf (hgc g hg hcl))
  · rcases reclaimed_frame hstep with ⟨hpc, ha, -, -⟩ | ⟨-, he⟩ | ⟨he, -, -⟩
    · rw [hstep.claims hok hpc ha]
    · exact hstep.automatic (h.automatic (he ▸ hr))
    · exact hstep.automatic (h.automatic (he ▸ hr))
  · rcases hstep.stored_or with he | hst
    · exact hstep.reclaimed (h.destroyed (he ▸ hd))
    · exact hstep.reclaimed (h.claimed a f hf ((hok.leaves hst).2 hd))
  · rw [hcall]
    refine forall_call_update (fun g hg hpc => ?_) fun b g hne hb hpc => ?_
    · rw [hg] at hstep
      exact .inl (hstep.tests hok hpc)
    · -- Nothing has taken the thread out of `Terminated` since the other pass has tested it.
      rcases hstep.stored_or with he | hst
      · rw [he]; exact h.tested b g hb hpc
      · obtain ⟨tr, -, -, -, -, hvalid⟩ := Frame.stores_eq_some.1 hst
        rcases h.tested b g hb hpc with ht | ht
        · rw [ht] at hvalid
          rcases terminated_valid hvalid with hu | hd
          · rw [hu] at hst
            exact absurd hpc (hc.2 f htop hst b g hb)
          · exact .inr hd
        · rw [ht] at hvalid
          exact absurd hvalid (by cases w'.shared.threadState <;> decide)

theorem restartInv_start (s : Shared) (hr : s.reclaimed = false) (hd : s.threadState ≠ .destroyed) :
    RestartInv (.start s) := by
  refine ⟨fun a f hf hc => ?_, fun h => ?_, fun h => absurd h hd, fun a f hf hc => ?_⟩
  · rcases start_call hf with ⟨g, -, rfl⟩ | ⟨-, rfl⟩ <;> cases hc
  · rw [show (World.start s).shared.reclaimed = false from hr] at h
    cases h
  · rcases start_call hf with ⟨g, -, rfl⟩ | ⟨-, rfl⟩ <;> cases hc

theorem restartInv_reachable (h : (system true).ReachableWhen ClaimsApart w) : RestartInv w := by
  refine h.invariant_with (I := RestartInv) (J := CallsOk) (fun w h => callsOk_reachable h) (fun w hw => ?_)
    fun w a w' hcalls _ hi hc hs => ?_
  · obtain ⟨free, start, precision, rfl⟩ := hw
    exact restartInv_start _ rfl nofun
  · cases a with
    | call p request => exact hi.called hs
    | step p ok => exact hi.stepped hcalls hc hs

/-! ## Runs from the claim on -/

/-- The thread is claimed, and no call restarts it. -/
structure StaysClaimed (w : World) : Prop where
  calls : CallsOk w
  reclaimed : w.shared.reclaimed = true
  state : w.shared.threadState = .terminated ∨ w.shared.threadState = .destroyed
  restarts : ∀ a f, w.call a = some f → f.restarts = false

theorem FrameStep.not_restarts {f' : Frame} (h : FrameStep s p f ok s' (some f')) (hf : f.restarts = false) :
    f'.restarts = false := by
  by_contra hne
  rw [h.restarts (by simpa using hne)] at hf
  cases hf

theorem StaysClaimed.step {a : Action} (h : StaysClaimed w) (hc : BeginsBeforeClaim w a) (hs : step w a = some w') :
    StaysClaimed w' := by
  have hcalls := h.calls.step hs
  cases a with
  | call p request =>
    obtain ⟨hshared, -, a, -, -, hcall⟩ := call_update hs
    refine ⟨hcalls, by rw [hshared]; exact h.reclaimed, by rw [hshared]; exact h.state, ?_⟩
    rw [hcall]
    refine forall_call_update (fun f hf => ?_) fun b f _ hb => h.restarts b f hb
    cases hf
    have hr := h.reclaimed
    cases request with
    | start => rw [hc (.inl rfl)] at hr; cases hr
    | initializeThread => rw [hc (.inr rfl)] at hr; cases hr
    | _ => rfl
  | step p ok =>
    obtain ⟨-, a, f, f', -, -, hf, hstep, hcall⟩ := step_update hs
    refine ⟨hcalls, hstep.reclaimed h.reclaimed, ?_, ?_⟩
    · rcases hstep.stored_or with he | hst
      · rw [he]; exact h.state
      · right
        obtain ⟨tr, -, -, -, -, hvalid⟩ := Frame.stores_eq_some.1 hst
        -- `Terminated` is left by a restart or for `Destroyed`, and `Destroyed` not at all.
        rcases h.state with ht | ht
        · rw [ht] at hvalid
          rcases terminated_valid hvalid with hu | hd
          · have hr := (Frame.Ok.leaves (h.calls a f hf) hst).1 hu
            rw [h.restarts a f hf] at hr
            cases hr
          · exact hd
        · rw [ht] at hvalid
          exact absurd hvalid (by cases w'.shared.threadState <;> decide)
    · rw [hcall]
      refine forall_call_update (fun g hg => ?_) fun b g _ hb => h.restarts b g hb
      rw [hg] at hstep
      exact hstep.not_restarts (h.restarts a f hf)

/-- A thread that is claimed apart from every restart is in `Terminated` then,
and stays out of the states of a restarted thread. -/
theorem restart_not_claimed (w w' : World) (p : TaskId) (ok : Bool) (h : (system true).ReachableWhen ClaimsApart w)
    (hc : ClaimsApart w (.step p ok)) (hclaim : w.Claims p) (hs : step w (.step p ok) = some w') :
    ClaimedTerminated w w' := by
  have hi := restartInv_reachable h
  have hcalls := callsOk_reachable h
  obtain ⟨ha, f, htop, hpc⟩ := hclaim
  obtain ⟨-, a, g, g', -, htop', hg, hstep, hcall⟩ := step_update hs
  obtain rfl : g = f := Option.some.inj (htop'.symm.trans htop)
  have hok := hcalls a g hg
  have hnew : w.shared.reclaimed = false := by
    by_contra hne
    rw [hi.automatic (by simpa using hne)] at ha
    cases ha
  have hterminated : w.shared.threadState = .terminated := by
    rcases hi.tested a g hg hpc with ht | hd
    · exact ht
    · rw [hi.destroyed hd] at hnew
      cases hnew
  have hshared := hstep.claims hok hpc ha
  have hstays : StaysClaimed w' := by
    refine ⟨hcalls.step hs, by rw [hshared], by rw [hshared]; exact .inl hterminated, ?_⟩
    have hno := hc.1 ⟨ha, g, htop, hpc⟩
    rw [hcall]
    refine forall_call_update (fun x hx => ?_) fun b x _ hb => hno b x hb
    rw [hx] at hstep
    exact hstep.not_restarts (hno a g hg)
  refine ⟨hterminated, fun v hl _ => ?_⟩
  have hv := hl.invariant (I := StaysClaimed) hstays fun x a y hx hd hst => hx.step hd hst
  rcases hv.state with ht | ht <;> rw [ht] <;> exact ⟨nofun, nofun, nofun⟩

/-- `ClaimsApart` of the tasks that run. -/
def ClaimsApartOn (w : World) (a : Action) : Prop :=
  a.task ∈ [TaskId.app 0, .worker 0, .dispatcher] ∧
    ((w.top a.task).map (·.pc) = some (.cleanUp .exchangeClaim) →
      w.callsOn [.app 0, .worker 0, .dispatcher] (fun f => !f.restarts) = true) ∧
    ((w.top a.task).bind (·.stores w.shared) = some .uninitialized →
      w.callsOn [.app 0, .worker 0, .dispatcher] (fun f => f.pc ≠ .cleanUp .exchangeClaim) = true)

instance (w : World) (a : Action) : Decidable (ClaimsApartOn w a) := by
  unfold ClaimsApartOn
  exact inferInstance

theorem claimsApart_of_on {a : Action} (hi : w.IdleBut [.app 0, .worker 0, .dispatcher]) (h : ClaimsApartOn w a) :
    ClaimsApart w a := by
  cases a with
  | call => trivial
  | step p ok =>
    constructor
    · rintro ⟨-, f, htop, hpc⟩ b g hg
      have hon := h.2.1 (by simp [Action.task, htop, hpc])
      have := hi.forall_call (P := fun f => !f.restarts) (by rintro f (⟨g, rfl⟩ | rfl) <;> rfl) hon b g hg
      simpa using this
    · intro f htop hst b g hg
      have hon := h.2.2 (by simp [Action.task, htop, hst])
      have := hi.forall_call (P := fun f => f.pc ≠ .cleanUp .exchangeClaim) (by rintro f (⟨g, rfl⟩ | rfl) <;> rfl) hon
        b g hg
      simpa using this

/-- The thread has terminated, its record is dispatched, and the dispatcher has
tested the state. -/
def testedState : List Action :=
  initialized ++ terminating ++ steps (.worker 0) 13 ++ dispatched ++ .call .dispatcher .cleanUp :: steps .dispatcher 3

/-- The call of the dispatcher that is going to claim. -/
def claiming : Frame := ⟨.cleanUp .exchangeClaim, none, false⟩

/-- The dispatcher claims the thread after every call has returned. -/
theorem claimed_after_calls : ∃ w w', (system true).ReachableWhen ClaimsApart w ∧ w.Claims .dispatcher ∧
    step w (.step .dispatcher true) = some w' ∧ ClaimedTerminated w w' := by
  have hrun : ((system true).replayWhen ClaimsApartOn (newThread true true) testedState).map
      (fun w => (decide (ClaimsApartOn w (.step .dispatcher true)), (step w (.step .dispatcher true)).isSome,
        w.shared.cleanupClaim, w.top .dispatcher)) = some (true, true, .available, some claiming) := by
    decide +kernel
  obtain ⟨w, hs, hp⟩ := Option.map_eq_some_iff.1 hrun
  simp only [Prod.mk.injEq, decide_eq_true_eq] at hp
  obtain ⟨hon, hstep, hclaim, htop⟩ := hp
  obtain ⟨w', hw'⟩ := Option.isSome_iff_exists.1 hstep
  have hl := Transition.System.leads_of_replayWhen hs
  have hidle : w.IdleBut [.app 0, .worker 0, .dispatcher] :=
    hl.invariant (I := World.IdleBut _) (idleBut_start _ _) fun _ _ _ hi hd hst => hi.step hd.1 hst
  have hr := (Transition.System.ReachableWhen.init (newThread_init true true)).leads
    (hl.mono_with (idleBut_start _ _) (fun _ _ _ hi hd hst => hi.step hd.1 hst)
      fun _ _ hi hd => claimsApart_of_on hi hd)
  have hclaims : w.Claims .dispatcher := ⟨hclaim, claiming, htop, rfl⟩
  exact ⟨w, w', hr, hclaims, hw', restart_not_claimed w w' _ _ hr (claimsApart_of_on hidle hon) hclaims hw'⟩

/-- `Start` runs the thread again between the test of the state and the claim. -/
theorem running_thread_claimed : ¬ ∀ w w' p ok, (system true).Reachable w → w.Claims p →
    step w (.step p ok) = some w' → ClaimedTerminated w w' := by
  intro hall
  have hrun : ((system true).replay (newThread true true)
      (testedState ++ .call (.app 0) .start :: steps (.app 0) 51)).map
      (fun w => ((step w (.step .dispatcher true)).isSome, w.shared.cleanupClaim, w.top .dispatcher,
        w.shared.threadState)) = some (true, .available, some claiming, .running) := by
    decide +kernel
  obtain ⟨w, hs, hp⟩ := Option.map_eq_some_iff.1 hrun
  simp only [Prod.mk.injEq] at hp
  obtain ⟨hstep, hclaim, htop, hstate⟩ := hp
  obtain ⟨w', hw'⟩ := Option.isSome_iff_exists.1 hstep
  have hr := Transition.System.reachable_of_replay (newThread_init true true) hs
  have hterminated := (hall w w' _ _ hr ⟨hclaim, claiming, htop, rfl⟩ hw').1
  rw [hstate] at hterminated
  cases hterminated

end ESPressio.Lifecycle
