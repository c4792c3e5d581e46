import ESPressioThreads.Lib.Reclamation
import ESPressioThreads.Manager.Machine
/-!
# Iterations pin their threads

The manager refines deferred reclamation by pin counting: the registered
pointers are the shared structure, `_iterationMutex` the lock and
`_activeIterations` the pin count. An iteration takes its snapshot, and a pass
sweeps under the lock and deletes after it.

`AddThread` must not be given a thread that a pass has removed in order to
delete it.
-/

namespace ESPressio.Manager

open Transition Reclamation Relation

/-! ## The abstraction -/

def PassPc.role : PassPc → Role ThreadPtr
  | .lockIteration | .notifyDeferred _ | .notifyCompleted _ | .notifyFailed _ => .idle
  | .deferring => .deferring
  | .takeSnapshot | .notifyStarted _ _ | .getThreadState _ _ _ | .tryClaim _ _ _ _ | .notifyClaimed _ _ _ _
  | .removeClaimed _ _ | .unlockFailed _ => .scanning
  | .unlock claimed _ => .sweeping {t | t ∈ doomed claimed}
  | .notifyRemoved rest _ => .freeing {t | t ∈ doomed rest}
  | .deleteThread c rest _ => .freeing {t | t ∈ doomed (c :: rest)}

/-- The threads of an iteration in progress. -/
def IterationPc.snapshot : IterationPc → List ThreadPtr
  | .beginIteration | .takeSnapshot => []
  | .visiting v | .notifyCompleted v | .endIteration v _ => v.snapshot.map fun target => target.thread

def IterationPc.role : IterationPc → Role ThreadPtr
  | .beginIteration => .idle
  | pc => .pinning {t | t ∈ pc.snapshot}

def Pc.role : Pc → Role ThreadPtr
  | .iteration _ pc => pc.role
  | .cleanUp _ pc => pc.role
  | .idle | .addThread _ _ _ | .removeThread _ | .notifyRemoved _ | .returned _ => .idle

def abs (m : Machine) : State OpId ThreadPtr where
  shared := {t | t ∈ m.registry.pointers}
  lock := m.iterationMutex
  pins := m.activeIterations
  role i := (m.ops i).role
  condemned := {t | t ∈ m.condemned}
  freed := {t | t ∈ m.deleted}

variable {m m' : Machine} {i : OpId} {coreCount : Nat}

@[simp] theorem abs_goto (pc : Pc) : abs (m.goto i pc) = (abs m).setRole i pc.role := by
  have : (fun j => (Function.update m.ops i pc j).role) = Function.update (fun j => (m.ops j).role) i pc.role := by
    funext j
    by_cases h : j = i
    · subst h; simp
    · simp [h]
  simp [abs, Machine.goto, State.setRole, this]

theorem abs_role (pc : Pc) (h : m.ops i = pc) : (abs m).role i = pc.role := by
  rw [← h]; rfl

/-! ## What a program counter knows -/

/-- Facts an operation established on the way to its program counter. -/
def Pc.Sound : Pc → Prop
  | .addThread t _ .getThreadID | .addThread t _ (.insert _) => t ≠ nullptr
  | .cleanUp _ (.getThreadState _ claimed _) | .cleanUp _ (.tryClaim _ _ claimed _)
  | .cleanUp _ (.notifyClaimed _ _ claimed _) | .cleanUp _ (.removeClaimed claimed _) =>
    ∀ c ∈ claimed, c.removed = false
  | .cleanUp _ (.deleteThread c _ _) => c.removed = true
  | _ => True

structure Sound (m : Machine) : Prop where
  wellFormed : m.registry.WellFormed
  ops : ∀ i, (m.ops i).Sound

theorem Sound.goto {pc : Pc} (h : Sound m) (hr : m'.registry.WellFormed) (ho : m'.ops = m.ops)
    (hpc : pc.Sound) : Sound (m'.goto i pc) where
  wellFormed := hr
  ops j := by
    simp only [Machine.goto, Function.update_apply, ho]
    split
    · exact hpc
    · exact h.ops j

/-! ## The manager refines the protocol -/

/-- `m'` is sound, and the protocol can follow. -/
structure Refines (m m' : Machine) : Prop where
  sound : Sound m'
  steps : ReflTransGen State.Step (abs m) (abs m')

theorem Refines.goto {pc : Pc} (h : Sound m) (hr : m'.registry.WellFormed) (ho : m'.ops = m.ops)
    (hpc : pc.Sound) (hs : ReflTransGen State.Step (abs m) ((abs m').setRole i pc.role)) :
    Refines m (m'.goto i pc) :=
  ⟨h.goto hr ho hpc, by rwa [abs_goto]⟩

/-- A step that only moves operation `i` on, in the same role, and notifies. -/
theorem Refines.stay {pc : Pc} (h : Sound m) (hr : m'.registry = m.registry) (ho : m'.ops = m.ops)
    (ha : abs m' = abs m) (hpc : pc.Sound) (hrole : (m.ops i).role = pc.role) : Refines m (m'.goto i pc) := by
  refine .goto h (hr ▸ h.wellFormed) ho hpc ?_
  have : (abs m).role i = pc.role := hrole
  rw [ha, ← this]
  have hsame : (abs m).setRole i ((abs m).role i) = abs m := by simp [State.setRole]
  rw [hsame]

theorem abs_setRole_idle {m : Machine} (h : (m.ops i).role = .idle) : (abs m).setRole i .idle = abs m := by
  have : (abs m).role i = .idle := h
  rw [← this]
  simp [State.setRole]

/-- `AddThread` registers a thread that no pass has condemned. -/
theorem refines_stepAddThread {t : ThreadPtr} {assigned : Bool} {pc : AddPc} {answer : Answer} (hm : Sound m)
    (hpc : m.ops i = .addThread t assigned pc)
    (ht : ∀ requested, pc = .insert requested → answer ≠ .throws → t ∉ m.condemned)
    (h : stepAddThread coreCount m i t assigned pc answer = some m') : Refines m m' := by
  have hsound := hm.ops i
  have hrole : (m.ops i).role = .idle := by rw [hpc]; rfl
  rw [hpc] at hsound
  unfold stepAddThread at h
  cases pc with
  | lookUp =>
    dsimp only at h
    split at h
    · cases h; exact .stay hm rfl rfl rfl trivial hrole
    · rename_i hnull
      split at h
      · cases h; exact .stay hm rfl rfl rfl trivial hrole
      · cases h
        refine .stay hm rfl rfl rfl ?_ hrole
        cases assigned <;> exact hnull
  | getThreadID =>
    dsimp only at h
    split at h <;> cases h
    · exact .stay hm rfl rfl rfl hsound hrole
    · exact .stay hm rfl rfl rfl trivial hrole
  | insert requested =>
    dsimp only at h
    split at h
    · rename_i registry record inserted hins
      split at h
      · split at h
        · cases h; exact .stay hm rfl rfl rfl trivial hrole
        · rename_i hans
          cases h
          -- The pointer may be in the registry already, which is no step of the reclamation.
          have hlink : ReflTransGen State.Step (abs m) (abs { m with registry := registry }) := by
            rcases Registry.insert_pointers hins with hsub | hsub
            · have : abs { m with registry := registry } = abs m := by simp [abs, hsub]
              rw [this]
            · have : abs { m with registry := registry } =
                  { abs m with shared := insert t (abs m).shared } := by
                simp [abs, hsub, Set.ext_iff, or_comm]
              rw [this]
              exact .single (.link t (ht requested rfl hans))
          refine .goto hm (hm.wellFormed.insert hsound hins) rfl trivial ?_
          have hidle : (Pc.addThread t assigned (.notifyRegistered record)).role = .idle := rfl
          rw [hidle, abs_setRole_idle (m := { m with registry := registry }) hrole]
          exact hlink
      · cases h; exact .stay hm rfl rfl rfl trivial hrole
    · cases h; exact .stay hm rfl rfl rfl trivial hrole
  | notifyRegistered record =>
    dsimp only at h
    split at h <;> cases h <;> exact .stay hm rfl rfl rfl trivial hrole
  | notifyFailed e => cases h; exact .stay hm rfl rfl rfl trivial hrole

theorem refines_stepRemoveThread {key : RemoveBy} (hm : Sound m) (hpc : m.ops i = .removeThread key) :
    Refines m (stepRemoveThread m i key) := by
  have hrole : (m.ops i).role = .idle := by rw [hpc]; rfl
  have hremove : ∀ (registry : Registry) (pc : Pc), registry.pointers.Sublist m.registry.pointers → pc.Sound →
      pc.role = .idle → Refines m ({ m with registry := registry }.goto i pc) := by
    intro registry pc hsub hpc hidle
    refine .goto hm (hm.wellFormed.sublist hsub) rfl hpc ?_
    rw [hidle, abs_setRole_idle (m := { m with registry := registry }) hrole]
    exact .single (.unlink _ fun x hx => hsub.subset hx)
  cases key with
  | thread t =>
    simp only [stepRemoveThread]
    split
    · exact .stay hm rfl rfl rfl trivial hrole
    · exact hremove _ _ (Registry.pointers_eraseP_sublist _) trivial rfl
  | id id =>
    simp only [stepRemoveThread]
    split
    · exact .stay hm rfl rfl rfl trivial hrole
    · exact hremove _ _ (Registry.pointers_eraseP_sublist _) trivial rfl

/-- A snapshot holds registered threads. -/
theorem snapshotOf_registered {registry : Registry} {kind : IterationKind} {t : ThreadPtr}
    (h : t ∈ (snapshotOf registry kind).map fun target => target.thread) : t ∈ registry.pointers := by
  cases kind with
  | withThread id =>
    simp only [snapshotOf, List.mem_map, Option.mem_toList, Option.map_eq_some_iff] at h
    obtain ⟨_, ⟨record, hrecord, rfl⟩, rfl⟩ := h
    exact Registry.mem_pointers_of_find hrecord
  | forEachThread | initializeWithResults => simpa [snapshotOf, Registry.pointers] using h

/-- The locked section of `_endIteration` drops the pin. -/
theorem refines_endIteration {kind : IterationKind} {v : Visit} {outcome : Outcome} (hm : Sound m)
    (hpc : m.ops i = .iteration kind (.endIteration v outcome)) (hl : m.iterationMutex = none) :
    Refines m (endIteration m i outcome) := by
  have hrole : (abs m).role i = .pinning {t | t ∈ (IterationPc.endIteration v outcome).snapshot} :=
    abs_role _ hpc
  have hunpin := State.Step.unpin i _ hrole hl
  simp only [endIteration]
  split
  · exact .goto hm hm.wellFormed rfl trivial (.single hunpin)
  · exact .goto hm hm.wellFormed rfl trivial (.single hunpin)

theorem refines_stepIteration {kind : IterationKind} {pc : IterationPc} {answer : Answer} (hm : Sound m)
    (hpc : m.ops i = .iteration kind pc) (h : stepIteration m i kind pc answer = some m') : Refines m m' := by
  have hrole := abs_role _ hpc
  have hstay : ∀ pc' : IterationPc, pc'.role = pc.role → Refines m (m.goto i (.iteration kind pc')) :=
    fun pc' he => .stay hm rfl rfl rfl trivial ((congrArg Pc.role hpc).trans he.symm)
  unfold stepIteration at h
  split at h
  · split at h
    · rename_i hl
      cases h
      have hempty : (Pc.iteration kind .takeSnapshot).role = .pinning ∅ := by
        simp [Pc.role, IterationPc.role, IterationPc.snapshot]
      refine .goto hm hm.wellFormed rfl trivial ?_
      rw [hempty]
      exact .single (.pin i hrole hl)
    · cases h
  · cases h
    exact .goto hm hm.wellFormed rfl trivial
      (.single (.take i _ _ hrole fun t ht => snapshotOf_registered ht))
  · cases h; exact hstay _ rfl
  · rename_i v answer
    split at h <;> cases h <;> exact hstay _ rfl
  · cases h; exact .stay hm rfl rfl rfl trivial (by rw [hpc]; rfl)
  · cases h; exact .stay hm rfl rfl rfl trivial (by rw [hpc]; rfl)
  · split at h
    · rename_i hl; cases h; exact refines_endIteration hm hpc hl
    · cases h
  · cases h

/-- The locked phases of a pass, and what it deletes after them. -/
theorem refines_stepCleanUp {caller : Caller} {pc : PassPc} {answer : Answer} (hm : Sound m)
    (hpc : m.ops i = .cleanUp caller pc) (h : stepCleanUp m i caller pc answer = some m') : Refines m m' := by
  have hrole := abs_role _ hpc
  have hsound := hm.ops i
  rw [hpc] at hsound
  have hsame : ∀ pc' : Pc, pc'.role = pc.role → (m.ops i).role = pc'.role := by
    intro pc' he
    rw [hpc, he]; rfl
  unfold stepCleanUp at h
  split at h
  · -- lockIteration
    split at h
    · rename_i hl
      dsimp only at h
      split at h
      · cases h; exact .goto hm hm.wellFormed rfl trivial (.single (.defer i hrole hl))
      · rename_i hz
        cases h
        exact .goto hm hm.wellFormed rfl trivial (.single (.scan i hrole hl (Nat.eq_zero_of_not_pos hz)))
    · cases h
  · cases h; exact .goto hm hm.wellFormed rfl trivial (.single (.unlock i (.inl hrole)))
  · cases h; exact .stay hm rfl rfl rfl trivial (hsame _ rfl)
  · cases h; exact .stay hm rfl rfl rfl trivial (hsame _ rfl)
  · cases h; exact .stay hm rfl rfl rfl trivial (hsame _ rfl)
  · cases h; exact .stay hm rfl rfl rfl trivial (hsame _ rfl)
  · cases h; exact .stay hm rfl rfl rfl (by simp [Pc.Sound]) (hsame _ rfl)
  · cases h; exact .stay hm rfl rfl rfl trivial (hsame _ rfl)
  · cases h; exact .stay hm rfl rfl rfl hsound (hsame _ rfl)
  · -- getThreadState
    split at h
    · cases h; exact .stay hm rfl rfl rfl hsound (hsame _ rfl)
    · cases answer with
      | returnsBool terminated =>
        cases terminated <;> (cases h; exact .stay hm rfl rfl rfl hsound (hsame _ rfl))
      | throws => cases h; exact .stay hm rfl rfl rfl trivial (hsame _ rfl)
      | returns | threadID _ | status _ => cases h
  · -- tryClaim
    split at h <;> cases h
    · refine .stay hm rfl rfl rfl ?_ (hsame _ rfl)
      intro c hc
      rcases List.mem_append.1 hc with hc | hc
      · exact hsound c hc
      · rw [List.mem_singleton] at hc; subst hc; rfl
    · exact .stay hm rfl rfl rfl hsound (hsame _ rfl)
  · cases h; exact .stay hm rfl rfl rfl trivial (hsame _ rfl)
  · cases h; exact .stay hm rfl rfl rfl hsound (hsame _ rfl)
  · cases h; exact .stay hm rfl rfl rfl trivial (hsame _ rfl)
  · -- removeClaimed
    rename_i claimed r
    cases h
    let removal := m.registry.removeClaimed claimed
    have hsub := Registry.removeClaimed_pointers_sublist (r := m.registry) claimed
    have habs : abs { m with registry := removal.1, condemned := m.condemned ++ doomed removal.2 } =
        { abs m with
          shared := {t | t ∈ removal.1.pointers}
          condemned := (abs m).condemned ∪ {t | t ∈ doomed removal.2} } := by
      simp [abs, Set.ext_iff]
    have hdisjoint : Disjoint {t | t ∈ removal.1.pointers} {t | t ∈ doomed removal.2} := by
      rw [Set.disjoint_left]
      intro t ht hd
      obtain ⟨c, hc, rfl⟩ := List.mem_map.1 hd
      obtain ⟨hc, hremoved⟩ := List.mem_filter.1 hc
      exact (Registry.removeClaimed_removed hm.wellFormed hsound hc hremoved).1 ht
    refine .goto hm (hm.wellFormed.sublist hsub) rfl trivial ?_
    rw [habs]
    exact .single (.sweep i _ _ hrole (fun t ht => hsub.subset ht) hdisjoint)
  · cases h; exact .goto hm hm.wellFormed rfl trivial (.single (.release i _ hrole))
  · cases h; exact .goto hm hm.wellFormed rfl trivial (.single (.done i _ hrole))
  · -- notifyRemoved
    rename_i c rest r
    split at h
    · rename_i hc
      split at h <;> cases h
      · exact .stay hm rfl rfl rfl hc (hsame _ rfl)
      · exact .goto hm hm.wellFormed rfl trivial (.single (.done i _ hrole))
    · rename_i hc
      cases h
      refine .stay hm rfl rfl rfl trivial (hsame _ ?_)
      simp [Pc.role, PassPc.role, doomed, hc]
  · -- deleteThread
    rename_i c rest r
    cases h
    have hmem : doomed (c :: rest) = c.thread :: doomed rest := by
      have : c.removed = true := hsound
      simp [doomed, this]
    have habs : abs { m with deleted := m.deleted ++ [c.thread] } =
        { abs m with freed := insert c.thread (abs m).freed } := by
      simp [abs, Set.ext_iff, or_comm]
    have hsub : ({t | t ∈ doomed rest} : Set ThreadPtr) ⊆ {t | t ∈ doomed (c :: rest)} := by
      intro t ht
      have : t ∈ c.thread :: doomed rest := List.mem_cons_of_mem _ ht
      rwa [← hmem] at this
    have hc : c.thread ∈ {t | t ∈ doomed (c :: rest)} := by simp [hmem]
    refine .goto hm hm.wellFormed rfl trivial ?_
    rw [habs]
    exact .single (.free i _ _ _ hrole hc hsub)
  · cases h; exact .stay hm rfl rfl rfl trivial (hsame _ rfl)
  · cases h; exact .stay hm rfl rfl rfl trivial (hsame _ rfl)
  · cases h; exact .goto hm hm.wellFormed rfl trivial (.single (.unlock i (.inr hrole)))
  · cases h; exact .stay hm rfl rfl rfl trivial (hsame _ rfl)
  · cases h; exact .stay hm rfl rfl rfl trivial (hsame _ rfl)
  · cases h

/-! ## Runs -/

/-- `AddThread` is not about to register a thread that a pass removed in order
to delete it. -/
def RegistersLive (m : Machine) : Action → Prop
  | .call _ _ => True
  | .step i answer =>
    match m.ops i with
    | .addThread t _ (.insert _) => answer ≠ .throws → t ∉ m.condemned
    | _ => True

instance (m : Machine) (a : Action) : Decidable (RegistersLive m a) := by
  unfold RegistersLive
  cases a with
  | call i request => exact inferInstance
  | step i answer => dsimp only; split <;> exact inferInstance

/-- Every step of the manager is a step of the protocol, or none. -/
theorem refines_step {a : Action} (hm : Sound m) (hlive : RegistersLive m a)
    (h : step coreCount m a = some m') : Refines m m' := by
  cases a with
  | call i request =>
    simp only [step] at h
    split at h
    · rename_i hidle
      cases h
      refine .stay hm rfl rfl rfl ?_ ?_
      · cases request <;> trivial
      · rw [hidle]; cases request <;> rfl
    · cases h
  | step i answer =>
    simp only [step, stepOp] at h
    split at h
    · cases h
    · cases h
    · rename_i t assigned pc hpc
      refine refines_stepAddThread hm hpc (fun requested hins hans => ?_) h
      subst hins
      simp only [RegistersLive, hpc] at hlive
      exact hlive hans
    · rename_i key hpc
      split at h <;> cases h
      exact refines_stepRemoveThread hm hpc
    · rename_i record hpc
      have hrole : (m.ops i).role = .idle := by rw [hpc]; rfl
      split at h <;> cases h <;> exact .stay hm rfl rfl rfl trivial hrole
    · rename_i kind pc hpc; exact refines_stepIteration hm hpc h
    · rename_i caller pc hpc; exact refines_stepCleanUp hm hpc h

theorem sound_start {registry : Registry} (h : registry.WellFormed) : Sound (.start registry) :=
  ⟨h, fun _ => trivial⟩

theorem inv_start (registry : Registry) : (abs (.start registry)).Inv where
  counted := ⟨∅, fun i => by simp [abs, Machine.start, Pc.role, Role.Pinned], rfl⟩
  fits _ := State.fits_idle
  shared_live _ _ := List.not_mem_nil
  freed_condemned _ h := (List.not_mem_nil h).elim

/-- The protocol's invariant in every run that registers live threads only. -/
theorem inv_of_reachable (h : (system coreCount).ReachableWhen RegistersLive m) : Sound m ∧ (abs m).Inv := by
  refine h.invariant (I := fun m => Sound m ∧ (abs m).Inv) (fun m hm => ?_) fun m a m' hm hlive hstep => ?_
  · obtain ⟨registry, hwf, rfl⟩ := hm
    exact ⟨sound_start hwf, inv_start registry⟩
  · have href := refines_step hm.1 hlive hstep
    exact ⟨href.sound, hm.2.steps href.steps⟩

/-- No thread in the snapshot of an iteration in progress, and none that
`WithThread` looked up, has been deleted by a cleanup pass, unless `AddThread`
was given a thread already removed for deletion. -/
theorem pinned_not_deleted (coreCount : Nat) (m : Machine)
    (h : (system coreCount).ReachableWhen RegistersLive m) (i : OpId) (kind : IterationKind) (pc : IterationPc)
    (hi : m.ops i = .iteration kind pc) (t : ThreadPtr) (ht : t ∈ pc.snapshot) : t ∉ m.deleted := by
  have hrole : (abs m).role i = pc.role := abs_role _ hi
  have htaken : t ∈ ((abs m).role i).taken := by
    rw [hrole]
    cases pc with
    | beginIteration => cases ht
    | takeSnapshot | visiting | notifyCompleted | endIteration => exact ht
  exact (inv_of_reachable h).2.taken_not_freed htaken

/-- One registered thread. -/
def oneThread : Registry := ⟨[⟨1, 1, 0⟩], 0⟩

theorem oneThread_wellFormed : oneThread.WellFormed := ⟨by decide, by decide⟩

/-- A pass of operation 0 up to the release of `_iterationMutex`: it claims and
removes the thread. -/
def sweepThread : List Action :=
  [.call 0 .cleanUp, .step 0 .returns, .step 0 .returns, .step 0 .returns, .step 0 (.returnsBool true),
    .step 0 (.returnsBool true), .step 0 .returns, .step 0 .returns, .step 0 .returns, .step 0 .returns]

/-- An iteration of operation 2 up to the call of its callback. -/
def visitThreads : List Action := [.call 2 (.iteration .forEachThread), .step 2 .returns, .step 2 .returns]

/-- An iteration defers the pass that runs into it. -/
theorem visiting_not_deleted : ∃ m, (system 1).ReachableWhen RegistersLive m ∧
    (∃ v, m.ops 2 = .iteration .forEachThread (.visiting v)) ∧ 1 ∉ m.deleted := by
  have hrun : ((system 1).replayWhen RegistersLive (.start oneThread)
      (visitThreads ++ [.call 0 .cleanUp, .step 0 .returns])).map (fun m => (m.ops 2, m.ops 0)) =
      some (.iteration .forEachThread (.visiting ⟨[⟨1, 1⟩], [⟨1, 1⟩], []⟩), .cleanUp .task .deferring) := by
    decide
  obtain ⟨m, hm, hops⟩ := Option.map_eq_some_iff.1 hrun
  have hr := System.reachableWhen_of_replayWhen (S := system 1) ⟨oneThread, oneThread_wellFormed, rfl⟩ hm
  have hi := congrArg Prod.fst hops
  exact ⟨m, hr, ⟨_, hi⟩, pinned_not_deleted 1 m hr 2 _ _ hi 1 (by decide)⟩

/-- A thread that is registered again between its removal by a pass and its
deletion is deleted under a later iteration. -/
theorem deleted_while_visited : ¬ ∀ m, (system 1).Reachable m → ∀ i kind pc, m.ops i = .iteration kind pc →
    ∀ t ∈ pc.snapshot, t ∉ m.deleted := by
  intro hall
  have hrun : ((system 1).replay (.start oneThread) (sweepThread ++
      [.call 1 (.addThread 1 true), .step 1 .returns, .step 1 .returns] ++ visitThreads ++
      [.step 0 .returns, .step 0 .returns])).map (fun m => (m.ops 2, m.deleted)) =
      some (.iteration .forEachThread (.visiting ⟨[⟨1, 1⟩], [⟨1, 1⟩], []⟩), [1]) := by
    decide
  obtain ⟨m, hm, hops⟩ := Option.map_eq_some_iff.1 hrun
  have hr := System.reachable_of_replay (S := system 1) ⟨oneThread, oneThread_wellFormed, rfl⟩ hm
  have hdeleted : m.deleted = [1] := congrArg Prod.snd hops
  refine hall m hr 2 _ _ (congrArg Prod.fst hops) 1 (by decide) ?_
  simp [hdeleted]

end ESPressio.Manager
