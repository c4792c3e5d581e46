import ESPressioThreads.Manager.Pinning
/-!
# Deferred cleanup

A `CleanUp` call that meets a live iteration leaves its request in
`_cleanupPending`. The last iteration clears the flag under `_iterationMutex`
and makes the call it owes after the mutex is released, so that new iterations
and new requests may come in between. A log of the calls that were deferred and
of the passes that began says that no request is lost.
-/

namespace ESPressio.Manager

open Transition Reclamation

inductive PassEvent
  | deferred (i : OpId)
  | began (i : OpId)
  deriving DecidableEq, Repr

/-- What `CleanUpWithResult` decides once it holds `_iterationMutex`. -/
def passEvent (m : Machine) : Action → Option PassEvent
  | .call _ _ => none
  | .step i _ =>
    match m.ops i with
    | .cleanUp _ .lockIteration => some (if 0 < m.activeIterations then .deferred i else .began i)
    | _ => none

/-- The manager with the log of its passes. -/
def loggedPasses (coreCount : Nat) : System (Machine × List PassEvent) Action :=
  (system coreCount).logged passEvent

/-- The operation has a live `IterationGuard`: past `_beginIteration`, and not
yet through the locked section of `_endIteration`. -/
def Pc.Guarded : Pc → Prop
  | .iteration _ .beginIteration => False
  | .iteration _ _ => True
  | _ => False

/-- The guard of the operation brought the count to zero, and it has yet to
make the `CleanUp` call for it. -/
def Pc.Owes : Pc → Prop
  | .cleanUp (.iterationGuard _) .lockIteration => True
  | _ => False

theorem Pc.guarded_iff (pc : Pc) : pc.Guarded ↔ pc.role.Pinned := by
  cases pc with
  | iteration kind pc => cases pc <;> exact Iff.rfl
  | cleanUp caller pc => cases pc <;> exact Iff.rfl
  | idle | addThread | removeThread | notifyRemoved | returned => exact Iff.rfl

variable {m m' : Machine} {i j : OpId} {coreCount : Nat} {answer : Answer} {e : Option PassEvent}

/-! ## One step -/

/-- A step of operation `i`, as far as iterations and requests go. -/
inductive DeferralStep (m : Machine) (i : OpId) (m' : Machine) : Option PassEvent → Prop
  | deferred (pc : Pc) : 0 < m.activeIterations → m'.activeIterations = m.activeIterations →
      m'.cleanupPending = true → (pc.Guarded ↔ (m.ops i).Guarded) → m'.ops = Function.update m.ops i pc →
      DeferralStep m i m' (some (.deferred i))
  | began (pc : Pc) : m.activeIterations = 0 → m'.activeIterations = m.activeIterations →
      m'.cleanupPending = m.cleanupPending → (pc.Guarded ↔ (m.ops i).Guarded) →
      m'.ops = Function.update m.ops i pc → DeferralStep m i m' (some (.began i))
  | entered (pc : Pc) : ¬ (m.ops i).Guarded → pc.Guarded → ¬ (m.ops i).Owes →
      m'.activeIterations = m.activeIterations + 1 → m'.cleanupPending = m.cleanupPending →
      m'.ops = Function.update m.ops i pc → DeferralStep m i m' none
  | left (pc : Pc) : (m.ops i).Guarded → ¬ pc.Guarded → ¬ (m.ops i).Owes →
      m'.activeIterations = m.activeIterations - 1 →
      ((m'.activeIterations = 0 ∧ m'.cleanupPending = false ∧ (m.cleanupPending = true → pc.Owes)) ∨
        (0 < m'.activeIterations ∧ m'.cleanupPending = m.cleanupPending)) →
      m'.ops = Function.update m.ops i pc → DeferralStep m i m' none
  | silent (pc : Pc) : (pc.Guarded ↔ (m.ops i).Guarded) → ¬ (m.ops i).Owes →
      m'.activeIterations = m.activeIterations → m'.cleanupPending = m.cleanupPending →
      m'.ops = Function.update m.ops i pc → DeferralStep m i m' none

/-- A step that moves operation `i` on, outside of any decision. -/
theorem DeferralStep.goto {m₁ : Machine} {pc pc' : Pc} (hpc : m.ops i = pc) (hg : pc'.Guarded ↔ pc.Guarded)
    (ho : ¬ pc.Owes) (ha : m₁.activeIterations = m.activeIterations) (hp : m₁.cleanupPending = m.cleanupPending)
    (hops : m₁.ops = m.ops) : DeferralStep m i (m₁.goto i pc') none := by
  subst hpc
  refine .silent pc' hg ho ha hp ?_
  show Function.update m₁.ops i pc' = Function.update m.ops i pc'
  rw [hops]

theorem deferralStep_stepAddThread {t : ThreadPtr} {assigned : Bool} {pc : AddPc}
    (hpc : m.ops i = .addThread t assigned pc) (h : stepAddThread coreCount m i t assigned pc answer = some m') :
    DeferralStep m i m' none := by
  unfold stepAddThread at h
  cases pc with
  | lookUp =>
    dsimp only at h
    split at h
    · cases h; exact .goto hpc Iff.rfl id rfl rfl rfl
    · split at h <;> cases h <;> exact .goto hpc Iff.rfl id rfl rfl rfl
  | getThreadID =>
    dsimp only at h
    split at h <;> cases h <;> exact .goto hpc Iff.rfl id rfl rfl rfl
  | insert requested =>
    dsimp only at h
    split at h
    · split at h
      · split at h <;> cases h <;> exact .goto hpc Iff.rfl id rfl rfl rfl
      · cases h; exact .goto hpc Iff.rfl id rfl rfl rfl
    · cases h; exact .goto hpc Iff.rfl id rfl rfl rfl
  | notifyRegistered record =>
    dsimp only at h
    split at h <;> cases h <;> exact .goto hpc Iff.rfl id rfl rfl rfl
  | notifyFailed e => cases h; exact .goto hpc Iff.rfl id rfl rfl rfl

theorem deferralStep_stepRemoveThread {key : RemoveBy} (hpc : m.ops i = .removeThread key) :
    DeferralStep m i (stepRemoveThread m i key) none := by
  cases key <;> (simp only [stepRemoveThread]; split <;> exact .goto hpc Iff.rfl id rfl rfl rfl)

/-- The locked section of `_endIteration`. -/
theorem deferralStep_endIteration {kind : IterationKind} {v : Visit} {outcome : Outcome}
    (hpc : m.ops i = .iteration kind (.endIteration v outcome)) : DeferralStep m i (endIteration m i outcome) none := by
  have hg : (m.ops i).Guarded := by rw [hpc]; trivial
  have ho : ¬ (m.ops i).Owes := by rw [hpc]; exact id
  simp only [endIteration]
  split
  · rename_i hlast
    exact .left (.cleanUp (.iterationGuard outcome) .lockIteration) hg id ho rfl
      (.inl ⟨hlast.1, rfl, fun _ => trivial⟩) rfl
  · rename_i hlast
    refine .left _ hg id ho rfl ?_ rfl
    rcases Nat.eq_zero_or_pos (m.activeIterations - 1) with hz | hz
    · have hp : m.cleanupPending = false := Bool.eq_false_iff.2 fun hp => hlast ⟨hz, hp⟩
      exact .inl ⟨hz, hp, fun hp' => absurd (hp.symm.trans hp') Bool.false_ne_true⟩
    · exact .inr ⟨hz, rfl⟩

theorem deferralStep_stepIteration {kind : IterationKind} {pc : IterationPc} (hpc : m.ops i = .iteration kind pc)
    (h : stepIteration m i kind pc answer = some m') : DeferralStep m i m' none := by
  unfold stepIteration at h
  split at h
  · -- beginIteration
    split at h <;> cases h
    exact .entered (.iteration kind .takeSnapshot) (by rw [hpc]; exact id) trivial (by rw [hpc]; exact id) rfl rfl rfl
  · cases h; exact .goto hpc Iff.rfl id rfl rfl rfl
  · cases h; exact .goto hpc Iff.rfl id rfl rfl rfl
  · split at h <;> cases h <;> exact .goto hpc Iff.rfl id rfl rfl rfl
  · cases h; exact .goto hpc Iff.rfl id rfl rfl rfl
  · cases h; exact .goto hpc Iff.rfl id rfl rfl rfl
  · split at h <;> cases h
    exact deferralStep_endIteration hpc
  · cases h

/-- What `CleanUpWithResult` decides at `.lockIteration`; nothing else in it
touches the count or the request. -/
theorem deferralStep_stepCleanUp {caller : Caller} {pc : PassPc} (hpc : m.ops i = .cleanUp caller pc)
    (h : stepCleanUp m i caller pc answer = some m') : DeferralStep m i m' (passEvent m (.step i answer)) := by
  -- Every other step has no event and leaves the two fields alone.
  have hgoto : ∀ {m₁ : Machine} {pc' : Pc}, pc ≠ .lockIteration → ¬ pc'.Guarded →
      m₁.activeIterations = m.activeIterations → m₁.cleanupPending = m.cleanupPending → m₁.ops = m.ops →
      DeferralStep m i (m₁.goto i pc') (passEvent m (.step i answer)) := by
    intro m₁ pc' hne hg ha hp hops
    have hnone : passEvent m (.step i answer) = none := by
      simp only [passEvent, hpc]
      cases pc <;> first | rfl | exact absurd rfl hne
    have howes : ¬ (Pc.cleanUp caller pc).Owes := by
      cases pc <;> first | (cases caller <;> exact id) | exact absurd rfl hne
    rw [hnone]
    exact .goto hpc (iff_of_false hg id) howes ha hp hops
  unfold stepCleanUp at h
  split at h
  · have hevent : passEvent m (.step i .returns) =
        some (if 0 < m.activeIterations then .deferred i else .began i) := by simp only [passEvent, hpc]
    have hg : ∀ pc', ((Pc.cleanUp caller pc').Guarded ↔ (m.ops i).Guarded) := fun pc' => by rw [hpc]; exact Iff.rfl
    rw [hevent]
    split at h
    · dsimp only at h
      split at h
      · rename_i hpos
        cases h
        rw [if_pos hpos]
        exact .deferred _ hpos rfl rfl (hg _) rfl
      · rename_i hpos
        cases h
        rw [if_neg hpos]
        exact .began _ (Nat.eq_zero_of_not_pos hpos) rfl rfl (hg _) rfl
    · cases h
  · cases h; exact hgoto (by simp) id rfl rfl rfl
  · cases h; exact hgoto (by simp) id rfl rfl rfl
  · cases h; exact hgoto (by simp) id rfl rfl rfl
  · cases h; exact hgoto (by simp) id rfl rfl rfl
  · cases h; exact hgoto (by simp) id rfl rfl rfl
  · cases h; exact hgoto (by simp) id rfl rfl rfl
  · cases h; exact hgoto (by simp) id rfl rfl rfl
  · cases h; exact hgoto (by simp) id rfl rfl rfl
  · split at h
    · cases h; exact hgoto (by simp) id rfl rfl rfl
    · cases answer with
      | returnsBool terminated => cases h; exact hgoto (by simp) id rfl rfl rfl
      | throws => cases h; exact hgoto (by simp) id rfl rfl rfl
      | returns | threadID _ | status _ => cases h
  · split at h <;> cases h <;> exact hgoto (by simp) id rfl rfl rfl
  · cases h; exact hgoto (by simp) id rfl rfl rfl
  · cases h; exact hgoto (by simp) id rfl rfl rfl
  · cases h; exact hgoto (by simp) id rfl rfl rfl
  · cases h; exact hgoto (by simp) id rfl rfl rfl
  · cases h; exact hgoto (by simp) id rfl rfl rfl
  · cases h; exact hgoto (by simp) id rfl rfl rfl
  · split at h
    · split at h <;> cases h <;> exact hgoto (by simp) id rfl rfl rfl
    · cases h; exact hgoto (by simp) id rfl rfl rfl
  · cases h; exact hgoto (by simp) id rfl rfl rfl
  · cases h; exact hgoto (by simp) id rfl rfl rfl
  · cases h; exact hgoto (by simp) id rfl rfl rfl
  · cases h; exact hgoto (by simp) id rfl rfl rfl
  · cases h; exact hgoto (by simp) id rfl rfl rfl
  · cases h; exact hgoto (by simp) id rfl rfl rfl
  · cases h

/-- Every step of an operation, with its event. -/
theorem deferralStep (h : step coreCount m (.step i answer) = some m') :
    DeferralStep m i m' (passEvent m (.step i answer)) := by
  simp only [step, stepOp] at h
  split at h
  · cases h
  · cases h
  · rename_i hpc
    simpa only [passEvent, hpc] using deferralStep_stepAddThread hpc h
  · rename_i hpc
    split at h <;> cases h
    simpa only [passEvent, hpc] using deferralStep_stepRemoveThread hpc
  · rename_i hpc
    simp only [passEvent, hpc]
    split at h <;> cases h <;> exact .goto hpc Iff.rfl id rfl rfl rfl
  · rename_i hpc
    simpa only [passEvent, hpc] using deferralStep_stepIteration hpc h
  · rename_i hpc; exact deferralStep_stepCleanUp hpc h

/-! ## Runs -/

/-- What the log of the passes says of the state. -/
structure DeferralLog (x : Machine × List PassEvent) : Prop where
  /-- `_activeIterations` counts the live guards. -/
  balanced : ∃ guards : Finset OpId, (∀ i, i ∈ guards ↔ (x.1.ops i).Guarded) ∧ guards.card = x.1.activeIterations
  quiet : x.1.activeIterations = 0 → x.1.cleanupPending = false
  /-- A deferred request is still pending, or owed, or a pass began after it. -/
  kept : ∀ l₁ i l₂, x.2 = l₁ ++ .deferred i :: l₂ →
    x.1.cleanupPending = true ∨ (∃ j, (x.1.ops j).Owes) ∨ ∃ j, .began j ∈ l₂

theorem balanced_iff_counted :
    (∃ guards : Finset OpId, (∀ i, i ∈ guards ↔ (m.ops i).Guarded) ∧ guards.card = m.activeIterations) ↔
      (abs m).Counted := by
  unfold State.Counted
  simp only [Pc.guarded_iff]
  exact Iff.rfl

section Step
variable {log : List PassEvent}

theorem DeferralStep.counted (hs : DeferralStep m i m' e) (h : (abs m).Counted) : (abs m').Counted := by
  have hrole : ∀ {pc}, m'.ops = Function.update m.ops i pc → ∀ j,
      (abs m').role j = if j = i then pc.role else (abs m).role j := by
    intro pc hops j
    show (m'.ops j).role = _
    rw [hops, Function.update_apply]
    split <;> rfl
  have hsame : ∀ {pc : Pc}, m'.activeIterations = m.activeIterations → (pc.Guarded ↔ (m.ops i).Guarded) →
      m'.ops = Function.update m.ops i pc → (abs m').Counted := by
    intro pc ha hg hops
    refine h.congr ha fun j => ?_
    rw [hrole hops]
    split
    · rename_i hj
      subst hj
      exact (pc.guarded_iff.symm.trans hg).trans (Pc.guarded_iff _)
    · exact Iff.rfl
  cases hs with
  | deferred pc _ ha _ hg hops => exact hsame ha hg hops
  | began pc _ ha _ hg hops => exact hsame ha hg hops
  | entered pc hn hg _ ha _ hops =>
    have hpin := h.pin (fun hp => hn ((Pc.guarded_iff _).2 hp)) ((Pc.guarded_iff _).1 hg)
    refine hpin.congr ha fun j => ?_
    rw [hrole hops, State.setRole_role]
  | left pc hg hn _ ha _ hops =>
    have hunpin := h.unpin ((Pc.guarded_iff _).1 hg) (fun hp => hn ((Pc.guarded_iff _).2 hp))
    refine hunpin.congr ha fun j => ?_
    rw [hrole hops, State.setRole_role]
  | silent pc hg _ ha _ hops => exact hsame ha hg hops

theorem DeferralStep.quiet (hs : DeferralStep m i m' e) (h : m.activeIterations = 0 → m.cleanupPending = false) :
    m'.activeIterations = 0 → m'.cleanupPending = false := by
  intro hz
  cases hs with
  | deferred _ hpos ha => omega
  | began _ _ ha hp => rw [hp]; exact h (by omega)
  | entered _ _ _ _ ha => omega
  | left _ _ _ _ _ hlast =>
    rcases hlast with ⟨-, hp, -⟩ | ⟨hpos, -⟩
    · exact hp
    · omega
  | silent _ _ _ ha hp => rw [hp]; exact h (by omega)

/-- Requests survive a step: the one it adds is pending, and a guard that takes
the pending ones owes a pass. -/
theorem DeferralStep.kept (hs : DeferralStep m i m' e)
    (h : ∀ l₁ i l₂, log = l₁ ++ .deferred i :: l₂ →
      m.cleanupPending = true ∨ (∃ j, (m.ops j).Owes) ∨ ∃ j, .began j ∈ l₂) :
    ∀ l₁ k l₂, log ++ e.toList = l₁ ++ .deferred k :: l₂ →
      m'.cleanupPending = true ∨ (∃ j, (m'.ops j).Owes) ∨ ∃ j, .began j ∈ l₂ := by
  intro l₁ k l₂ hsplit
  have howes : ∀ {pc}, ¬ (m.ops i).Owes → m'.ops = Function.update m.ops i pc →
      (∃ j, (m.ops j).Owes) → ∃ j, (m'.ops j).Owes := by
    rintro pc hi hops ⟨j, hj⟩
    refine ⟨j, ?_⟩
    rw [hops, Function.update_of_ne]
    · exact hj
    · rintro rfl; exact hi hj
  have hold : e = none → ∃ l₃, log = l₁ ++ .deferred k :: l₃ ∧ l₂ = l₃ ++ e.toList := by
    rintro rfl
    rcases System.split_append hsplit with hl | ⟨he, -⟩
    · exact hl
    · cases he
  cases hs with
  | deferred _ _ _ hp => exact .inl hp
  | began =>
    -- The log ends in `began`, so the request stands before it.
    rcases System.split_append hsplit with ⟨l₃, -, rfl⟩ | ⟨he, -⟩
    · exact .inr (.inr ⟨i, by simp⟩)
    · cases he
  | entered _ _ _ ho _ hp hops =>
    obtain ⟨l₃, hlog, rfl⟩ := hold rfl
    rcases h l₁ k l₃ hlog with hpending | howe | hbegan
    · exact .inl (hp.trans hpending)
    · exact .inr (.inl (howes ho hops howe))
    · exact .inr (.inr (by simpa using hbegan))
  | left pc _ _ ho _ hlast hops =>
    obtain ⟨l₃, hlog, rfl⟩ := hold rfl
    rcases h l₁ k l₃ hlog with hpending | howe | hbegan
    · rcases hlast with ⟨-, -, htaken⟩ | ⟨-, hp⟩
      · exact .inr (.inl ⟨i, by rw [hops, Function.update_self]; exact htaken hpending⟩)
      · exact .inl (hp.trans hpending)
    · exact .inr (.inl (howes ho hops howe))
    · exact .inr (.inr (by simpa using hbegan))
  | silent pc _ ho _ hp hops =>
    obtain ⟨l₃, hlog, rfl⟩ := hold rfl
    rcases h l₁ k l₃ hlog with hpending | howe | hbegan
    · exact .inl (hp.trans hpending)
    · exact .inr (.inl (howes ho hops howe))
    · exact .inr (.inr (by simpa using hbegan))

theorem DeferralLog.stepped (h : DeferralLog (m, log)) (hs : DeferralStep m i m' e) :
    DeferralLog (m', log ++ e.toList) where
  balanced := balanced_iff_counted.2 (hs.counted (balanced_iff_counted.1 h.balanced))
  quiet := hs.quiet h.quiet
  kept := hs.kept h.kept

end Step

theorem DeferralLog.called {log : List PassEvent} (request : Request) (h : DeferralLog (m, log))
    (hidle : m.ops i = .idle) : DeferralLog (m.goto i request.entry, log) := by
  have hstep : DeferralStep m i (m.goto i request.entry) none := by
    refine .goto hidle ?_ id rfl rfl rfl
    cases request <;> exact Iff.rfl
  simpa using h.stepped hstep

/-- The count is balanced and no deferred cleanup is lost, over every run. -/
theorem deferral_log (coreCount : Nat) (x : Machine × List PassEvent) (h : (loggedPasses coreCount).Reachable x) :
    DeferralLog x := by
  refine h.invariant (fun x hx => ?_) fun x a y hi _ hs => ?_
  · obtain ⟨m, log⟩ := x
    obtain ⟨⟨registry, -, hm⟩, hlog⟩ := hx
    cases hm
    cases hlog
    exact ⟨balanced_iff_counted.2 (inv_start registry).counted, fun _ => rfl, fun l₁ _ _ h => absurd h (by simp)⟩
  · obtain ⟨m, log⟩ := x
    obtain ⟨m', log'⟩ := y
    obtain ⟨hstep, rfl⟩ := System.logged_step.1 hs
    cases a with
    | call i request =>
      have hnone : log ++ (passEvent m (.call i request)).toList = log := List.append_nil log
      simp only [hnone]
      simp only [system, step] at hstep
      split at hstep <;> cases hstep
      rename_i hidle
      exact hi.called request hidle
    | step i answer => exact hi.stepped (deferralStep hstep)

/-- A pass runs into two nested iterations. The outer one throws and ends last;
before the pass it owes begins, an iteration of another task and a second
deferred pass come in, so that the owed pass is deferred again. -/
def deferredTwice : List Action :=
  [.call 0 (.iteration .forEachThread), .step 0 .returns, .step 0 .returns, .call 1 (.iteration (.withThread 1)),
    .step 1 .returns, .call 2 .cleanUp, .step 2 .returns, .step 2 .returns, .step 1 .returns, .step 1 .returns,
    .step 1 .returns, .step 1 .returns, .step 0 .throws, .step 0 .returns, .call 3 (.iteration .forEachThread),
    .step 3 .returns, .call 4 .cleanUp, .step 4 .returns, .step 4 .returns, .step 0 .returns]

theorem deferredTwice_log : ∃ x, (loggedPasses 1).Reachable x ∧ DeferralLog x ∧
    x.2 = [.deferred 2, .deferred 4, .deferred 0] ∧ x.1.cleanupPending = true := by
  have hrun : ((loggedPasses 1).replay (.start oneThread, []) deferredTwice).map
      (fun x => (x.2, x.1.cleanupPending)) = some ([.deferred 2, .deferred 4, .deferred 0], true) := by
    decide +kernel
  obtain ⟨x, hs, hp⟩ := Option.map_eq_some_iff.1 hrun
  have hr := System.reachable_of_replay (S := loggedPasses 1) ⟨⟨oneThread, oneThread_wellFormed, rfl⟩, rfl⟩ hs
  exact ⟨x, hr, deferral_log 1 x hr, congrArg Prod.fst hp, congrArg Prod.snd hp⟩

end ESPressio.Manager
