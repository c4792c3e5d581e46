import ESPressioThreads.Lifecycle.Steps
/-!
# Cleanup of a thread with a call in progress

Cleanup looks at the state, the release policy and the claim of a thread, none
of which says that a call of `Initialize`, `Start` or `Terminate` on it is
still in progress. A deleted thread has no such call left when every claim is
made while there is none.
-/

namespace ESPressio.Lifecycle

open Transition ESPressio.Thread

variable {w w' : World} {s s' : Shared} {p : TaskId} {ok : Bool}

/-- A call of `Initialize`, `Start` or `Terminate` that has steps left which
access the thread. -/
def Pc.lifecycleCall : Pc → Bool
  | .initializeThread (.finished _) => false
  | .initializeThread _ | .start _ | .terminate _ => true
  | _ => false

/-- The cleanup pass has claimed the thread. -/
def Pc.claimed : Pc → Bool
  | .cleanUp .getThreadState | .cleanUp .loadFree | .cleanUp .loadState | .cleanUp .exchangeClaim => false
  | .cleanUp _ => true
  | _ => false

/-- The cleanup pass has called `delete`. -/
def Pc.deletes (pc : Pc) : Bool := pc.claimed && pc ≠ .cleanUp .remove

/-- Manager cleanup has called `delete` on the thread. -/
def World.Deleted (w : World) : Prop :=
  w.shared.freed = true ∨ ∃ a f, w.call a = some f ∧ f.pc.deletes = true

/-- No call that began before the claim is in progress on a deleted thread. -/
def NotDeletedInCall (w : World) : Prop :=
  w.Deleted → ∀ a f, w.call a = some f → f.pc.lifecycleCall = true → f.afterClaim = true

/-- Cleanup claims the thread while no lifecycle call on it is in progress. -/
def ClaimsIdle (w : World) : Action → Prop
  | .call _ _ => True
  | .step p _ => ∀ f, w.top p = some f → f.pc = .cleanUp .exchangeClaim → w.shared.cleanupClaim = .available →
      ∀ a g, w.call a = some g → g.pc.lifecycleCall = false

/-! ## One step -/

theorem lifecycleCall_resume {pc pc' : Pc} {stored threw : Bool} (h : pc.resume s stored threw = .goto pc')
    (hl : pc'.lifecycleCall = true) : pc.lifecycleCall = true := by
  cases resume_goto h with
  | terminate | start => rfl
  | initializeThread t t' ht =>
    cases t <;> first | rfl | cases ht
  | shutdown | worker | cleanUp => cases hl

theorem lifecycleCall_exec {pc pc' : Pc} (h : exec s p pc ok = some (s', .goto pc'))
    (hl : pc'.lifecycleCall = true) : pc.lifecycleCall = true := by
  cases exec_goto h with
  | terminate | start => rfl
  | initializeThread t t' ht =>
    cases t <;> first | rfl | cases ht
  | setFreeOnTerminate | shutdown | worker | dispatcher | cleanUp => cases hl

/-- A call does not become a lifecycle call. -/
theorem lifecycleCall_frame {f f' : Frame} (h : FrameStep s p f ok s' (some f'))
    (hl : f'.pc.lifecycleCall = true) : f.pc.lifecycleCall = true ∧ f'.afterClaim = f.afterClaim := by
  cases h.goto with
  | inTransition => exact ⟨hl, rfl⟩
  | transitionDone tr s' stored threw pc htr hst hn =>
    exact ⟨lifecycleCall_resume hn hl, rfl⟩
  | transitionStart => exact ⟨hl, rfl⟩
  | exec s' pc htr hpc hex =>
    exact ⟨lifecycleCall_exec hex hl, rfl⟩

/-- What a cleanup pass does to the reclamation: it claims, it goes on after
the claim, or it does not claim. -/
theorem execCleanUp_claim {pc : CleanUpPc} {next : Next CleanUpPc} (h : execCleanUp s p pc ok = some (s', next)) :
    (pc = .exchangeClaim ∧ s.cleanupClaim = .available ∧ s'.reclaimed = true ∧ s'.freed = s.freed) ∨
    ((Pc.cleanUp pc).claimed = true ∧ s'.reclaimed = s.reclaimed) ∨
    (s'.reclaimed = s.reclaimed ∧ s'.freed = s.freed ∧ ∀ t, next = .goto t → (Pc.cleanUp t).claimed = false) := by
  have hex : ∀ a b, (s.exchangeClaim a b).reclaimed = s.reclaimed := fun a b =>
    congrArg (fun x => x.2.2.2.1) (Shared.aside_exchangeClaim s a b)
  have hkill : ∀ t, (s.kill t).reclaimed = s.reclaimed := fun t =>
    congrArg (fun x => x.2.2.2.1) (Shared.aside_kill s t)
  cases pc <;> simp only [execCleanUp] at h
  case exchangeClaim =>
    split at h <;> cases h
    · exact .inl ⟨rfl, ‹_›, rfl, rfl⟩
    · exact .inr (.inr ⟨rfl, rfl, fun t ht => nomatch ht⟩)
  case getThreadState | loadFree | loadState =>
    cases h
    refine .inr (.inr ⟨rfl, rfl, fun t ht => ?_⟩)
    split at ht <;> cases ht
    rfl
  all_goals first
    | (cases h; done)
    | (cases h; exact .inr (.inl ⟨rfl, rfl⟩))
    | (cases h; exact .inr (.inl ⟨rfl, hex _ _⟩))
    | (cases h; exact .inr (.inl ⟨rfl, hkill _⟩))

theorem claimed_resume {pc pc' : Pc} {stored threw : Bool} (h : pc.resume s stored threw = .goto pc')
    (hc : pc'.claimed = true) : pc.claimed = true := by
  cases resume_goto h with
  | cleanUp => rfl
  | terminate | initializeThread | start | shutdown | worker => cases hc

theorem claimed_exec {pc pc' : Pc} (h : exec s p pc ok = some (s', .goto pc')) (hne : ∀ t, pc ≠ .cleanUp t) :
    pc'.claimed = false := by
  cases exec_goto h with
  | cleanUp t => exact absurd rfl (hne t)
  | setFreeOnTerminate | terminate | initializeThread | start | shutdown | worker | dispatcher => rfl

theorem reclaimed_frame {f : Frame} {f' : Option Frame} (h : FrameStep s p f ok s' f') :
    (f.pc = .cleanUp .exchangeClaim ∧ s.cleanupClaim = .available ∧ s'.reclaimed = true ∧ s'.freed = s.freed) ∨
    (f.pc.claimed = true ∧ s'.reclaimed = s.reclaimed) ∨
    (s'.reclaimed = s.reclaimed ∧ s'.freed = s.freed ∧
      ∀ g, f' = some g → g.pc.claimed = true → f.pc.claimed = true) := by
  cases h with
  | inTransition tr tr' s' htr hst =>
    obtain ⟨_, _, _, rfl⟩ := stepTransition_shared hst
    refine .inr (.inr ⟨rfl, rfl, fun g hg hc => ?_⟩)
    cases hg
    exact hc
  | transitionDone tr s' stored threw htr hst =>
    obtain ⟨_, _, _, rfl⟩ := stepTransition_shared hst
    refine .inr (.inr ⟨rfl, rfl, fun g hg hc => ?_⟩)
    cases hn : f.pc.resume _ stored threw with
    | goto pc => rw [hn] at hg; cases hg; exact claimed_resume hn hc
    | ret threw => rw [hn] at hg; cases hg
  | transitionStart expected newState htr hpc =>
    refine .inr (.inr ⟨rfl, rfl, fun g hg hc => ?_⟩)
    cases hg
    exact hc
  | exec s' next htr hpc hex =>
    -- Only a cleanup pass touches the reclamation.
    rcases exec_aside hex with ⟨hne, ha⟩ | ⟨t, n, ht, rfl, hn⟩
    · refine .inr (.inr ⟨congrArg (fun x => x.2.2.2.1) ha, congrArg (fun x => x.2.2.2.2) ha, fun g hg hc => ?_⟩)
      cases next with
      | ret threw => cases hg
      | goto pc =>
        cases hg
        exact absurd hc (by rw [claimed_exec hex hne]; nofun)
    · rw [ht]
      rcases execCleanUp_claim hn with ⟨rfl, ha, hr, hf⟩ | ⟨hc, hr⟩ | ⟨hr, hf, hg⟩
      · exact .inl ⟨rfl, ha, hr, hf⟩
      · exact .inr (.inl ⟨hc, hr⟩)
      · refine .inr (.inr ⟨hr, hf, fun g he hc => ?_⟩)
        cases n with
        | ret threw => cases he
        | goto t' => cases he; exact absurd hc (by rw [hg t' rfl]; nofun)

/-! ## Runs -/

structure CleanupInv (w : World) : Prop where
  claimed : ∀ a f, w.call a = some f → f.pc.claimed = true → w.shared.reclaimed = true
  freed : w.shared.freed = true → w.shared.reclaimed = true
  begun : w.shared.reclaimed = true → ∀ a f, w.call a = some f → f.pc.lifecycleCall = true → f.afterClaim = true

theorem CleanupInv.step {a : Action} (h : CleanupInv w) (hc : ClaimsIdle w a) (hs : step w a = some w') :
    CleanupInv w' := by
  cases a with
  | call p request =>
    obtain ⟨hshared, -, a, -, -, hcall⟩ := call_update hs
    refine ⟨?_, ?_, fun hr => ?_⟩
    · rw [hcall, hshared]
      refine forall_call_update (fun f hf hcl => ?_) fun b f _ hb => h.claimed b f hb
      cases hf
      cases request <;> cases hcl
    · rw [hshared]
      exact h.freed
    · rw [hshared] at hr
      rw [hcall]
      refine forall_call_update (fun f hf _ => ?_) fun b f _ hb => h.begun hr b f hb
      cases hf
      exact hr
  | step p ok =>
    obtain ⟨-, a, f, f', -, htop, hf, hstep, hcall⟩ := step_update hs
    have hnew : ∀ g, f' = some g → g.pc.lifecycleCall = true →
        f.pc.lifecycleCall = true ∧ g.afterClaim = f.afterClaim := by
      rintro g rfl hl
      exact lifecycleCall_frame hstep hl
    have hbegun : w.shared.reclaimed = true →
        ∀ b g, w'.call b = some g → g.pc.lifecycleCall = true → g.afterClaim = true := by
      intro hr
      rw [hcall]
      refine forall_call_update (fun g hg hl => ?_) fun b g _ hb => h.begun hr b g hb
      obtain ⟨hlf, hafter⟩ := hnew g hg hl
      rw [hafter]
      exact h.begun hr a f hf hlf
    rcases reclaimed_frame hstep with ⟨hpc, ha, hr, -⟩ | ⟨hclaimed, hr⟩ | ⟨hr, hfreed, hg⟩
    · -- The pass claims the thread, and no call is in progress.
      have hidle := hc f htop hpc ha
      refine ⟨fun _ _ _ _ => hr, fun _ => hr, fun _ => ?_⟩
      rw [hcall]
      refine forall_call_update (fun g hg hl => ?_) fun b g _ hb hl => ?_
      · have hlf := (hnew g hg hl).1
        rw [hpc] at hlf
        cases hlf
      · rw [hidle b g hb] at hl
        cases hl
    · have hrec := h.claimed a f hf hclaimed
      rw [hrec] at hr
      exact ⟨fun _ _ _ _ => hr, fun _ => hr, fun _ => hbegun hrec⟩
    · refine ⟨?_, by rw [hr, hfreed]; exact h.freed, by rw [hr]; exact hbegun⟩
      rw [hcall, hr]
      refine forall_call_update (fun g he hcl => ?_) fun b g _ hb => h.claimed b g hb
      exact h.claimed a f hf (hg g he hcl)

theorem cleanupInv_start (s : Shared) (hf : s.freed = false) (hr : s.reclaimed = false) :
    CleanupInv (.start s) := by
  have hpc : ∀ a f, (World.start s).call a = some f → f.pc.claimed = false := by
    intro a f hf
    obtain ⟨-, rfl⟩ := World.call_eq_some.1 hf
    simp only [World.start]
    split <;> rfl
  refine ⟨fun a f hcall hc => ?_, fun h => ?_, fun h => ?_⟩
  · rw [hpc a f hcall] at hc
    cases hc
  · simp [World.start, hf] at h
  · simp [World.start, hr] at h

/-- A thread that cleanup has deleted has no call left that began before the
claim, while every claim is made without a call in progress. -/
theorem not_deleted_in_call (w : World) (h : (system true).ReachableWhen ClaimsIdle w) : NotDeletedInCall w := by
  have hi : CleanupInv w := by
    refine h.invariant (I := CleanupInv) (fun w hw => ?_) fun w a w' hi hc hs => hi.step hc hs
    obtain ⟨free, start, precision, rfl⟩ := hw
    exact cleanupInv_start _ rfl rfl
  intro hd
  refine hi.begun ?_
  rcases hd with hd | ⟨a, f, hf, hd⟩
  · exact hi.freed hd
  · simp only [Pc.deletes, Bool.and_eq_true] at hd
    exact hi.claimed a f hf hd.1

/-! ## A failing initialization -/

/-- `ClaimsIdle` of the tasks that run. -/
def ClaimsIdleOn (w : World) (a : Action) : Prop :=
  a.task ∈ [TaskId.app 0, .worker 0, .dispatcher] ∧
    ((w.top a.task).map (·.pc) = some (.cleanUp .exchangeClaim) →
      w.callsOn [.app 0, .worker 0, .dispatcher] (fun f => !f.pc.lifecycleCall) = true)

instance (w : World) (a : Action) : Decidable (ClaimsIdleOn w a) := by
  unfold ClaimsIdleOn
  exact inferInstance

theorem claimsIdle_of_on {a : Action} (hi : w.IdleBut [.app 0, .worker 0, .dispatcher]) (h : ClaimsIdleOn w a) :
    ClaimsIdle w a := by
  cases a with
  | call => trivial
  | step p ok =>
    intro f htop hpc _ a g hg
    have hon := h.2 (by simp [Action.task, htop, hpc])
    have := hi.forall_call (P := fun f => !f.pc.lifecycleCall) (by rintro f (⟨g, rfl⟩ | rfl) <;> rfl) hon a g hg
    simpa using this

/-- The dispatcher cleans up: it claims and deletes the thread. -/
def cleansUp : List Action := .call .dispatcher .cleanUp :: steps .dispatcher 19

/-- The thread is deleted when the call that terminated it has returned. -/
theorem deleted_after_calls : ∃ w, (system true).ReachableWhen ClaimsIdle w ∧ w.shared.freed = true ∧
    NotDeletedInCall w := by
  have hrun : ((system true).replayWhen ClaimsIdleOn (newThread true true)
      (initialized ++ terminating ++ steps (.worker 0) 13 ++ dispatched ++ cleansUp)).map
      (fun w => w.shared.freed) = some true := by
    decide +kernel
  obtain ⟨w, hs, hp⟩ := Option.map_eq_some_iff.1 hrun
  have hl := (Transition.System.leads_of_replayWhen hs).mono_with (idleBut_start _ _)
    (fun _ _ _ hi hd hst => hi.step hd.1 hst) fun _ _ hi hd => claimsIdle_of_on hi hd
  have hr := (Transition.System.ReachableWhen.init (newThread_init true true)).leads hl
  exact ⟨w, hr, hp, not_deleted_in_call w hr⟩

/-- The record of a failed initialization is dispatched and the thread deleted
before `Initialize` has left its context guard. -/
theorem deleted_in_initialize : ¬ ∀ w, (system true).Reachable w → NotDeletedInCall w := by
  intro hall
  have hrun : ((system true).replay (newThread true true)
      (initializationThrows ++ steps (.app 0) 25 ++ dispatched ++ cleansUp)).map
      (fun w => (w.shared.freed, w.call (.app 0, 0))) =
      some (true, some ⟨.initializeThread (.clearInProgress .initializationException), none, false⟩) := by
    decide +kernel
  obtain ⟨w, hs, hp⟩ := Option.map_eq_some_iff.1 hrun
  simp only [Prod.mk.injEq] at hp
  have hr := Transition.System.reachable_of_replay (newThread_init true true) hs
  cases hall w hr (.inl hp.1) _ _ hp.2 rfl

end ESPressio.Lifecycle
