import ESPressioThreads.Manager.Claims
/-!
# What leaves an iteration

`ForEachThread`, `WithThread` and `InitializeWithResults` end in
`~IterationGuard`, and the last guard runs the cleanup that was deferred to it.
`CleanUpWithResult` reports a failure and throws it on, and a destructor lets
no exception out. So the operation returns or throws on its own account
exactly as long as the pass of its guard meets no failure.

`GuardEvent` is what happens to one operation: `threw` in its own body, `ended`
with what it is about to do, `failed` in the pass of its guard.
-/

namespace ESPressio.Manager

open Transition

inductive GuardEvent
  | called (kind : IterationKind)
  | threw
  | ended (own : Outcome)
  | failed
  deriving DecidableEq, Repr

/-- The pass calls foreign code, notifies or allocates here. -/
def PassPc.calls : PassPc → Bool
  | .notifyDeferred _ | .takeSnapshot | .notifyStarted _ _ | .tryClaim _ _ _ _ | .notifyClaimed _ _ _ _
  | .notifyCompleted _ | .notifyFailed _ => true
  | .getThreadState (record :: _) _ _ => record.thread ≠ nullptr
  | .notifyRemoved (c :: _) _ => c.removed
  | .lockIteration | .deferring | .getThreadState [] _ _ | .removeClaimed _ _ | .unlock _ _ | .notifyRemoved [] _
  | .deleteThread _ _ _ | .unlockFailed _ => false

def guardEvent (m : Machine) : Action → Option (OpId × GuardEvent)
  | .call i (.iteration kind) => some (i, .called kind)
  | .call _ _ => none
  | .step i answer =>
    match m.ops i, answer with
    | .iteration _ .takeSnapshot, .throws | .iteration _ (.notifyCompleted _), .throws
    | .iteration .forEachThread (.visiting _), .throws | .iteration (.withThread _) (.visiting _), .throws =>
      some (i, .threw)
    | .iteration _ (.endIteration _ own), .returns => some (i, .ended own)
    | .cleanUp (.iterationGuard _) pc, .throws => if pc.calls then some (i, .failed) else none
    | _, _ => none

/-- Runs with the log of the guards. -/
def guarded (coreCount : Nat) : System (Machine × List (OpId × GuardEvent)) Action :=
  (system coreCount).logged guardEvent

/-- What happened to operation `i`. -/
def eventsOf (i : OpId) (l : List (OpId × GuardEvent)) : List GuardEvent :=
  (l.filter fun e => e.1 = i).map Prod.snd

section
variable {i : OpId} {l : List (OpId × GuardEvent)} {e : Option (OpId × GuardEvent)} {x : GuardEvent}

theorem mem_eventsOf : x ∈ eventsOf i l ↔ (i, x) ∈ l := by
  simp [eventsOf]

theorem eventsOf_own (x : GuardEvent) : eventsOf i (l ++ (some (i, x)).toList) = eventsOf i l ++ [x] := by
  simp [eventsOf]

theorem eventsOf_other (h : ∀ y, e ≠ some (i, y)) : eventsOf i (l ++ e.toList) = eventsOf i l := by
  cases e with
  | none => simp
  | some e =>
    obtain ⟨j, y⟩ := e
    have hj : j ≠ i := by
      rintro rfl
      exact h y rfl
    simp [eventsOf, hj]

end

/-! ## Where an operation is, and what happened to it -/

/-- The body of an iteration ended with `own`: it completed, or threw. -/
inductive Body (kind : IterationKind) : Outcome → List GuardEvent → Prop
  | completed (v : Visit) : Body kind (outcomeOf v kind) [.called kind]
  | threw : Body kind .thrown [.called kind, .threw]

/-- The pass is on its way out after a failure. -/
def PassPc.failing : PassPc → Bool
  | .unlockFailed _ | .notifyFailed _ => true
  | _ => false

/-- The events `t` of an operation that is at a program counter. After the guard
took over, only failures follow. -/
def Traced (t : List GuardEvent) : Pc → Prop
  | .idle | .addThread _ _ _ | .removeThread _ | .notifyRemoved _ | .cleanUp .task _ => t = []
  | .iteration kind (.endIteration _ own) => Body kind own t
  | .iteration kind .beginIteration | .iteration kind .takeSnapshot | .iteration kind (.visiting _)
  | .iteration kind (.notifyCompleted _) => t = [.called kind]
  | .cleanUp (.iterationGuard own) pc => ∃ kind body failures, Body kind own body ∧
      t = body ++ .ended own :: failures ∧ (∀ e ∈ failures, e = .failed) ∧ (failures = [] ↔ pc.failing = false)
  | .returned outcome => t = [] ∨ ∃ kind own body failures, Body kind own body ∧
      t = body ++ .ended own :: failures ∧ (∀ e ∈ failures, e = .failed) ∧
      outcome = if failures = [] then own else .stdTerminate

theorem Body.own {kind : IterationKind} {own : Outcome} {t : List GuardEvent} (h : Body kind own t) :
    own ≠ .stdTerminate ∧ .failed ∉ t ∧ (∀ own', .ended own' ∉ t) ∧
      ((∃ v, own = outcomeOf v kind) ∨ own = .thrown ∧ .threw ∈ t) ∧ ∀ kind', .called kind' ∈ t → kind' = kind := by
  cases h with
  | completed v =>
    refine ⟨?_, by simp, by simp, .inl ⟨v, rfl⟩, by simp⟩
    cases kind <;> nofun
  | threw => simp

variable {m m' : Machine} {i : OpId} {answer : Answer} {t : List GuardEvent} {coreCount : Nat}

@[simp] theorem goto_ops_self (m : Machine) (i : OpId) (pc : Pc) : (m.goto i pc).ops i = pc := by
  simp [Machine.goto]

/-- The events after a step of operation `i`. -/
def withEvent (t : List GuardEvent) (e : Option (OpId × GuardEvent)) : List GuardEvent := t ++ (e.map Prod.snd).toList

theorem traced_stepIteration {kind : IterationKind} {pc : IterationPc} (hpc : m.ops i = .iteration kind pc)
    (ht : Traced t (.iteration kind pc)) (h : stepIteration m i kind pc answer = some m') :
    Traced (withEvent t (guardEvent m (.step i answer))) (m'.ops i) := by
  unfold stepIteration at h
  simp only [guardEvent, hpc]
  split at h
  · split at h <;> cases h
    rw [goto_ops_self]
    simpa [withEvent, Traced] using ht
  · cases h
    rw [goto_ops_self]
    simpa [withEvent, Traced] using ht
  · cases h
    rw [goto_ops_self]
    have ht' : t = [.called kind] := ht
    subst ht'
    exact .threw
  · rename_i v answer
    have ht' : t = [.called kind] := ht
    subst ht'
    split at h <;> cases h <;> rw [goto_ops_self]
    · rfl
    · rename_i k _ _ _ _ _
      cases k <;> exact Body.completed _
    · rfl
    · rfl
    · rfl
    · rfl
    · exact .threw
    · exact .threw
  · cases h
    rw [goto_ops_self]
    have ht' : t = [.called kind] := ht
    subst ht'
    exact .completed _
  · cases h
    rw [goto_ops_self]
    have ht' : t = [.called kind] := ht
    subst ht'
    exact .threw
  · rename_i v own
    split at h <;> cases h
    have hbody : Body kind own t := ht
    simp only [endIteration]
    split <;> rw [goto_ops_self]
    · exact ⟨kind, t, [], hbody, rfl, (by rintro _ ⟨⟩), by simp [PassPc.failing]⟩
    · exact .inr ⟨kind, own, t, [], hbody, rfl, (by rintro _ ⟨⟩), rfl⟩
  · cases h

/-- The pass goes on, or gives up after a failure, or returns; `caller` is the
guard of an operation that ended with `own`. -/
inductive PassMove (m : Machine) (i : OpId) (own : Outcome) (answer : Answer) (pc : PassPc) (m' : Machine) : Prop
  | goes (pc' : PassPc) : m'.ops i = .cleanUp (.iterationGuard own) pc' → pc'.failing = pc.failing →
      (answer = .throws → pc.calls = false) → PassMove m i own answer pc m'
  | fails (pc' : PassPc) : m'.ops i = .cleanUp (.iterationGuard own) pc' → pc'.failing = true → pc.failing = false →
      answer = .throws → pc.calls = true → PassMove m i own answer pc m'
  | completes : m'.ops i = .returned own → pc.failing = false → answer ≠ .throws → PassMove m i own answer pc m'
  | escapes : m'.ops i = .returned .stdTerminate →
      (pc.failing = true ∨ (answer = .throws ∧ pc.calls = true)) → PassMove m i own answer pc m'

theorem passMove {own : Outcome} {pc : PassPc} (h : stepCleanUp m i (.iterationGuard own) pc answer = some m') :
    PassMove m i own answer pc m' := by
  unfold stepCleanUp at h
  split at h
  case h_1 =>
    split at h
    · dsimp only at h
      split at h <;> cases h <;> exact .goes _ (goto_ops_self _ _ _) rfl nofun
    · cases h
  case h_2 | h_5 | h_7 | h_9 | h_13 | h_15 | h_16 | h_17 | h_19 | h_22 =>
    cases h
    exact .goes _ (goto_ops_self _ _ _) rfl nofun
  case h_3 | h_20 =>
    cases h
    exact .completes (goto_ops_self _ _ _) rfl nofun
  case h_4 =>
    cases h
    exact .escapes (goto_ops_self _ _ _) (.inr ⟨rfl, rfl⟩)
  case h_6 | h_8 | h_12 | h_14 | h_21 =>
    cases h
    exact .fails _ (goto_ops_self _ _ _) rfl rfl rfl rfl
  case h_10 =>
    -- a null record is passed over without a call
    split at h
    · rename_i hnull
      cases h
      exact .goes _ (goto_ops_self _ _ _) rfl fun _ => by simp [PassPc.calls, hnull]
    · rename_i hthread
      split at h <;> cases h
      · refine .goes _ (goto_ops_self _ _ _) ?_ nofun
        split <;> rfl
      · exact .fails _ (goto_ops_self _ _ _) rfl rfl rfl (by simp [PassPc.calls, hthread])
  case h_11 =>
    split at h <;> cases h <;> exact .goes _ (goto_ops_self _ _ _) rfl nofun
  case h_18 =>
    split at h
    · rename_i hremoved
      split at h <;> cases h
      · exact .goes _ (goto_ops_self _ _ _) rfl nofun
      · exact .fails _ (goto_ops_self _ _ _) rfl rfl rfl hremoved
    · rename_i hkept
      cases h
      exact .goes _ (goto_ops_self _ _ _) rfl fun _ => by simpa [PassPc.calls] using hkept
  case h_23 | h_24 =>
    cases h
    exact .escapes (goto_ops_self _ _ _) (.inl rfl)
  case h_25 => cases h

theorem traced_passMove {own : Outcome} {pc : PassPc} (hpc : m.ops i = .cleanUp (.iterationGuard own) pc)
    (ht : Traced t (.cleanUp (.iterationGuard own) pc)) (h : PassMove m i own answer pc m') :
    Traced (withEvent t (guardEvent m (.step i answer))) (m'.ops i) := by
  obtain ⟨kind, body, failures, hbody, rfl, hall, hfailing⟩ := ht
  -- an event is one more failure
  have hevent : ∃ more, withEvent (body ++ .ended own :: failures) (guardEvent m (.step i answer)) =
      body ++ .ended own :: (failures ++ more) ∧ (∀ e ∈ failures ++ more, e = .failed) ∧
      (more = [] ↔ (answer = .throws → pc.calls = false)) := by
    by_cases hthrows : answer = .throws ∧ pc.calls = true
    · obtain ⟨rfl, hcalls⟩ := hthrows
      refine ⟨[.failed], by simp [withEvent, guardEvent, hpc, hcalls], ?_, by simp [hcalls]⟩
      simpa [or_imp, forall_and] using hall
    · refine ⟨[], ?_, by simpa using hall, by simpa using hthrows⟩
      have hnone : guardEvent m (.step i answer) = none := by
        simp only [guardEvent, hpc]
        cases answer with
        | throws => exact if_neg fun hc => hthrows ⟨rfl, hc⟩
        | _ => rfl
      simp [withEvent, hnone]
  obtain ⟨more, hmore, hallMore, hnone⟩ := hevent
  rw [hmore]
  cases h with
  | goes pc' hops hsame hquiet =>
    rw [hops]
    refine ⟨kind, body, failures ++ more, hbody, rfl, hallMore, ?_⟩
    rw [hnone.2 hquiet, List.append_nil, hsame]
    exact hfailing
  | fails pc' hops hfail hbefore hthrows hcalls =>
    rw [hops]
    refine ⟨kind, body, failures ++ more, hbody, rfl, hallMore, ?_⟩
    have hne : more ≠ [] := fun h0 => by simp [hnone.1 h0 hthrows] at hcalls
    simp [hne, hfail]
  | completes hops hbefore hthrows =>
    rw [hops]
    refine .inr ⟨kind, own, body, failures ++ more, hbody, rfl, hallMore, ?_⟩
    rw [hnone.2 fun h0 => absurd h0 hthrows, hfailing.2 hbefore]
    rfl
  | escapes hops hfail =>
    rw [hops]
    refine .inr ⟨kind, own, body, failures ++ more, hbody, rfl, hallMore, ?_⟩
    have hne : failures ++ more ≠ [] := by
      intro h0
      obtain ⟨hf, hm⟩ := List.append_eq_nil_iff.1 h0
      rcases hfail with hfail | ⟨hthrows, hcalls⟩
      · rw [hfailing.1 hf] at hfail
        cases hfail
      · rw [hnone.1 hm hthrows] at hcalls
        cases hcalls
    rw [if_neg hne]

/-! ## Runs -/

/-- A pass that a task called stays itself or returns. -/
theorem stepCleanUp_task {pc : PassPc} (h : stepCleanUp m i .task pc answer = some m') :
    (∃ pc', m'.ops i = .cleanUp .task pc') ∨ ∃ outcome, m'.ops i = .returned outcome := by
  unfold stepCleanUp at h
  split at h
  all_goals try dsimp only at h
  all_goals repeat' split at h
  all_goals cases h
  all_goals first | exact .inl ⟨_, goto_ops_self _ _ _⟩ | exact .inr ⟨_, goto_ops_self _ _ _⟩

/-- An operation without events has none until it is an iteration. -/
theorem traced_none (hnone : guardEvent m (.step i answer) = none) (ht : t = [])
    (h : Traced [] (m'.ops i)) : Traced (withEvent t (guardEvent m (.step i answer))) (m'.ops i) := by
  subst ht
  rw [hnone]
  exact h

/-- A step of operation `i`. -/
theorem traced_stepOp (ht : Traced t (m.ops i)) (h : stepOp coreCount m i answer = some m') :
    Traced (withEvent t (guardEvent m (.step i answer))) (m'.ops i) := by
  unfold stepOp at h
  split at h <;> rename_i hpc
  · cases h
  · cases h
  · -- `AddThread` stays itself or returns
    rw [hpc] at ht
    refine traced_none (by simp only [guardEvent, hpc]) ht ?_
    unfold stepAddThread at h
    split at h
    all_goals repeat' split at h
    all_goals cases h
    all_goals rw [goto_ops_self]
    all_goals first | rfl | exact .inl rfl
  · rw [hpc] at ht
    refine traced_none (by simp only [guardEvent, hpc]) ht ?_
    split at h <;> cases h
    unfold stepRemoveThread
    dsimp only
    split <;> rw [goto_ops_self]
    · exact .inl rfl
    · rfl
  · rw [hpc] at ht
    refine traced_none (by simp only [guardEvent, hpc]) ht ?_
    split at h <;> cases h <;> rw [goto_ops_self] <;> exact .inl rfl
  · rw [hpc] at ht
    exact traced_stepIteration hpc ht h
  · rename_i caller pc
    rw [hpc] at ht
    cases caller with
    | task =>
      refine traced_none (by simp only [guardEvent, hpc]) ht ?_
      rcases stepCleanUp_task h with ⟨pc', hops⟩ | ⟨outcome, hops⟩ <;> rw [hops]
      · rfl
      · exact .inl rfl
    | iterationGuard own => exact traced_passMove hpc ht (passMove h)

/-- The event of a step is one of the operation that moves. -/
theorem guardEvent_op {j : OpId} (h : guardEvent m (.step i answer) = some (j, x)) : j = i := by
  simp only [guardEvent] at h
  split at h
  all_goals first | (cases h; rfl) | cases h | skip
  split at h <;> cases h
  rfl

/-- Every operation is where its events say. -/
theorem traced_reachable {x : Machine × List (OpId × GuardEvent)} (h : (guarded coreCount).Reachable x) (i : OpId) :
    Traced (eventsOf i x.2) (x.1.ops i) := by
  refine h.invariant (I := fun x => ∀ i, Traced (eventsOf i x.2) (x.1.ops i)) ?_ ?_ i
  · rintro ⟨m, l⟩ ⟨⟨registry, -, hm⟩, hl⟩ i
    cases hm
    cases hl
    rfl
  · rintro ⟨m, l⟩ a ⟨m', l'⟩ hI - hs i
    obtain ⟨hst, hl⟩ := System.logged_step.1 hs
    simp only at hst hl hI ⊢
    subst hl
    cases a with
    | call j request =>
      simp only [system, step] at hst
      split at hst <;> cases hst
      rename_i hidle
      by_cases hij : i = j
      · subst hij
        have hnil := hI i
        rw [hidle] at hnil
        have hnil' : eventsOf i l = [] := hnil
        rw [goto_ops_self]
        cases request with
        | iteration kind =>
          simp only [guardEvent]
          rw [eventsOf_own, hnil']
          rfl
        | addThread | removeThread | cleanUp =>
          rw [eventsOf_other (by simp [guardEvent]), hnil']
          rfl
      · have hother : (m.goto j request.entry).ops i = m.ops i := by simp [Machine.goto, hij]
        rw [hother, eventsOf_other]
        · exact hI i
        · cases request <;> simp [guardEvent, Ne.symm hij]
    | step j answer =>
      by_cases hij : i = j
      · subst hij
        have ht := traced_stepOp (hI i) hst
        cases he : guardEvent m (.step i answer) with
        | none =>
          rw [he] at ht
          simpa [withEvent] using ht
        | some e =>
          obtain ⟨k, y⟩ := e
          obtain rfl := guardEvent_op he
          rw [he] at ht
          rw [eventsOf_own]
          exact ht
      · rw [(claimStep_step hst).others i hij, eventsOf_other]
        · exact hI i
        · intro y he
          exact hij (guardEvent_op he)

/-! ## Main theorem -/

/-- An iteration that returned ended on its own account: it completed, or its
own body threw. It returns that outcome exactly when the pass of its guard, if
it ran one, met no failure, and a failure there ends the program. -/
theorem iteration_returns_own_outcome (coreCount : Nat) : ∀ x, (guarded coreCount).Reachable x →
    ∀ i kind outcome, (i, .called kind) ∈ x.2 → x.1.ops i = .returned outcome →
      ∃ own, (i, .ended own) ∈ x.2 ∧
        ((∃ v, own = outcomeOf v kind) ∨ own = .thrown ∧ (i, .threw) ∈ x.2) ∧
        (outcome = own ↔ (i, .failed) ∉ x.2) ∧ (outcome = .stdTerminate ↔ (i, .failed) ∈ x.2) := by
  intro x hx i kind outcome hcalled hops
  have ht := traced_reachable hx i
  rw [hops] at ht
  rw [← mem_eventsOf] at hcalled
  rcases ht with hnil | ⟨kind', own, body, failures, hbody, hevents, hall, hout⟩
  · rw [hnil] at hcalled
    cases hcalled
  · obtain ⟨hown, hno, -, hended, hkind⟩ := hbody.own
    simp only [← mem_eventsOf, hevents, List.mem_append, List.mem_cons, reduceCtorEq, false_or] at hcalled ⊢
    have hfailures : .failed ∈ failures ↔ failures ≠ [] := by
      constructor
      · rintro hmem rfl
        cases hmem
      · intro hne
        obtain ⟨e, l, rfl⟩ := List.exists_cons_of_ne_nil hne
        rw [hall e (List.mem_cons_self ..)]
        exact List.mem_cons_self ..
    have hcalled' : kind' = kind := by
      rcases hcalled with hc | hc
      · exact (hkind kind hc).symm
      · cases hall _ hc
    subst hcalled'
    refine ⟨own, .inr (.inl rfl), hended.imp_right (And.imp_right .inl), ?_, ?_⟩
    · by_cases hnil : failures = []
      · simp [hout, hnil, hno]
      · rw [if_neg hnil] at hout
        simp [hout, hfailures.2 hnil, Ne.symm hown]
    · by_cases hnil : failures = []
      · simp [hout, hnil, hno, hown]
      · rw [if_neg hnil] at hout
        simp [hout, hfailures.2 hnil]

/-- The one registered thread, and two operations: 1 visits it, and 2 asks for a
cleanup meanwhile, which is left to the guard of 1. -/
def deferredToGuard : List Action :=
  [.call 1 (.iteration .forEachThread), .step 1 .returns, .step 1 .returns, .call 2 .cleanUp, .step 2 .returns,
    .step 2 .returns, .step 2 .returns, .step 1 .returns, .step 1 .returns, .step 1 .returns, .step 1 .returns,
    .step 1 .returns, .step 1 .returns]

theorem registered_one : Registry.WellFormed ⟨[⟨1, 1, 0⟩], 0⟩ := ⟨by decide, by decide⟩

/-- The callback returned, `GetThreadState` of the thread throws, and the program
ends. -/
theorem deferred_failure_escapes : ∃ x, (guarded 1).Reachable x ∧ (1, .called .forEachThread) ∈ x.2 ∧
    (1, .threw) ∉ x.2 ∧ (1, .ended .iterated) ∈ x.2 ∧ x.1.ops 1 = .returned .stdTerminate := by
  have hrun : ((guarded 1).replay (.start ⟨[⟨1, 1, 0⟩], 0⟩, [])
      (deferredToGuard ++ [.step 1 .throws, .step 1 .returns, .step 1 .returns])).map (fun x => (x.2, x.1.ops 1)) =
      some ([(1, .called .forEachThread), (1, .ended .iterated), (1, .failed)], .returned .stdTerminate) := by
    decide +kernel
  obtain ⟨x, hs, hl⟩ := Option.map_eq_some_iff.1 hrun
  have hinit : (guarded 1).init (.start ⟨[⟨1, 1, 0⟩], 0⟩, []) := ⟨⟨_, registered_one, rfl⟩, rfl⟩
  obtain ⟨hlog, hops⟩ := Prod.mk.inj hl
  exact ⟨x, System.reachable_of_replay hinit hs, by simp [hlog], by simp [hlog], by simp [hlog], hops⟩

/-- It answers that it is not terminated, and the operation returns. -/
theorem deferred_pass_completes : ∃ x, (guarded 1).Reachable x ∧ x.1.ops 1 = .returned .iterated ∧
    (1, .failed) ∉ x.2 := by
  have hrun : ((guarded 1).replay (.start ⟨[⟨1, 1, 0⟩], 0⟩, [])
      (deferredToGuard ++ [.step 1 (.returnsBool false), .step 1 .returns, .step 1 .returns, .step 1 .returns,
        .step 1 .returns, .step 1 .returns])).map (fun x => (x.2, x.1.ops 1)) =
      some ([(1, .called .forEachThread), (1, .ended .iterated)], .returned .iterated) := by
    decide +kernel
  obtain ⟨x, hs, hl⟩ := Option.map_eq_some_iff.1 hrun
  have hinit : (guarded 1).init (.start ⟨[⟨1, 1, 0⟩], 0⟩, []) := ⟨⟨_, registered_one, rfl⟩, rfl⟩
  obtain ⟨hlog, hops⟩ := Prod.mk.inj hl
  have hr := System.reachable_of_replay hinit hs
  obtain ⟨own, hended, -, hiff, -⟩ :=
    iteration_returns_own_outcome 1 x hr 1 .forEachThread .iterated (by simp [hlog]) hops
  have hown : own = .iterated := by
    rw [hlog] at hended
    simpa using hended
  exact ⟨x, hr, hops, hiff.1 hown.symm⟩

end ESPressio.Manager
