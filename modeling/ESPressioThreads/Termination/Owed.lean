import ESPressioThreads.Manager.Debts
import ESPressioThreads.Manager.Deferral
import ESPressioThreads.Termination.Deletion
/-!
# The pass that is owed to a thread

The dispatcher asks for a cleanup pass after each dispatch, and the pass may be
deferred to the last iteration. From the dispatch of a thread until a pass has
come to it, such a pass is requested, about to start, or under way, whatever
other tasks do.
-/

namespace ESPressio.Termination

open Transition ESPressio.Thread ESPressio.Manager

/-- `TryClaimAutomaticCleanup` would succeed. -/
def Cell.Claimable (c : Cell) : Prop :=
  c.freeOnTerminate = true ∧ c.state = .terminated ∧ c.cleanupClaim = .available

/-- A pass that will come to `t` is still to be made. -/
def World.Owed (s : World) (t : ThreadPtr) : Prop :=
  (∃ u, s.dispatcher = .callCleanUp u) ∨ s.manager.Owes t

/-- No call of a pass throws, and `AddThread` registers no thread whose worker
has left its loop, or that a pass in progress has read. -/
def KeepsOn (s : World) : Action → Prop
  | .op i answer =>
    match s.manager.ops i with
    | .cleanUp _ _ => answer ≠ .throws
    | .addThread t _ (.insert _) => answer ≠ .throws → t ∉ s.manager.registry.pointers →
        (s.cells t).worker = .loop ∧ ∀ j, ∀ key ∈ (s.manager.ops j).keys, key.2 ≠ t
    | _ => True
  | _ => True

variable {s s' : World} {t : ThreadPtr} {i : OpId} {capacity coreCount : Nat} {answer : Answer}

/-! ## What never comes back -/

/-- A worker does not go back into its loop, and what keeps a thread from being
claimed stays. -/
structure Cell.Ages (c c' : Cell) : Prop where
  loop : c'.worker = .loop → c.worker = .loop
  terminated : c'.state = .terminated →
    c.state = .terminated ∨ (c.worker = .storeTerminated ∧ c'.worker ≠ .loop)
  free : c'.freeOnTerminate = true → c.freeOnTerminate = true
  available : c'.cleanupClaim = .available → c.cleanupClaim = .available

theorem Cell.Ages.refl (c : Cell) : c.Ages c := ⟨id, .inl, id, id⟩

theorem Cell.ages_exchangeClaim {claim : CleanupClaim} (c : Cell) : c.Ages (c.exchangeClaim claim) := by
  unfold Cell.exchangeClaim
  split
  · rename_i ha
    exact ⟨id, .inl, id, fun _ => ha⟩
  · exact .refl c

theorem Cell.ages_deleteTask (c : Cell) : c.Ages c.deleteTask := by
  unfold Cell.deleteTask
  split
  · exact ⟨(by rintro ⟨⟩), .inl, id, id⟩
  · exact .refl c

theorem ages_setCell {c : Cell} (hs : s'.cells = Function.update s.cells t c) (h : (s.cells t).Ages c) (u : ThreadPtr) :
    (s.cells u).Ages (s'.cells u) := by
  rw [hs, Function.update_apply]
  split
  · rename_i hu; rwa [hu]
  · exact .refl _

theorem ages_of_cells (hs : s'.cells = s.cells) (u : ThreadPtr) : (s.cells u).Ages (s'.cells u) := by
  rw [hs]
  exact .refl _

theorem stepTerminate_ages (h : stepTerminate s t = some s') (u : ThreadPtr) : (s.cells u).Ages (s'.cells u) := by
  simp only [stepTerminate] at h
  split at h <;> cases h
  refine ages_setCell rfl ?_ u
  exact ⟨id, (by rintro ⟨⟩), id, id⟩

theorem stepWorker_ages (h : stepWorker capacity s t = some s') (u : ThreadPtr) : (s.cells u).Ages (s'.cells u) := by
  have hmove : ∀ {w : WorkerPc} {b b' : Bool}, w ≠ .loop → (s.cells t).Ages
      { s.cells t with worker := w, exitFinalizationStarted := b, dispatchPending := b' } :=
    fun hw => ⟨fun h => absurd h hw, .inl, id, id⟩
  simp only [stepWorker] at h
  split at h <;> rename_i hw
  · split at h <;> cases h
    · exact ages_setCell rfl (hmove (by simp)) u
    · exact ages_setCell rfl (hmove (by simp)) u
    · exact ages_setCell rfl (hmove (by simp)) u
    · exact .refl _
    · exact .refl _
    · exact .refl _
    · exact .refl _
  · split at h <;> cases h <;> exact ages_setCell rfl (hmove (by simp)) u
  · split at h <;> cases h
    · refine ages_setCell rfl ?_ u
      exact ⟨(by rintro ⟨⟩), fun _ => .inr ⟨hw, by simp⟩, id, id⟩
    · exact ages_setCell rfl (hmove (by simp)) u
  · cases h; exact ages_setCell rfl (hmove (by simp)) u
  · cases h; exact ages_setCell rfl (hmove (by simp)) u
  · split at h <;> cases h
    exact ages_setCell rfl (hmove (by simp)) u
  · split at h <;> cases h
    exact ages_setCell rfl (hmove (by simp)) u
  · split at h <;> cases h
    exact ages_setCell rfl (hmove (by simp)) u
  · cases h; exact ages_setCell rfl (hmove (by simp)) u
  · cases h; exact ages_setCell rfl (hmove (by simp)) u
  · cases h
  · cases h

theorem stepShutdown_ages {cb : Callback} {pc : ShutdownPc} (h : stepShutdown s t cb pc = some s') (u : ThreadPtr) :
    (s.cells u).Ages (s'.cells u) := by
  simp only [stepShutdown] at h
  split at h
  · cases h; exact ages_setCell rfl (Cell.ages_exchangeClaim _) u
  · cases h
    refine ages_setCell rfl ?_ u
    exact ⟨id, .inl, (by rintro ⟨⟩), id⟩
  · cases h; exact ages_setCell rfl (Cell.ages_exchangeClaim _) u
  · split at h <;> cases h
    exact .refl _
  · split at h <;> cases h
    exact .refl _
  · cases h
    split <;> exact .refl _
  · split at h <;> cases h
    exact .refl _

theorem stepDispatcher_ages (h : stepDispatcher s = some s') (u : ThreadPtr) : (s.cells u).Ages (s'.cells u) := by
  simp only [stepDispatcher] at h
  split at h
  · split at h <;> cases h
    exact .refl _
  · cases h; exact .refl _
  · cases h; exact ages_setCell rfl (Cell.ages_deleteTask _) u
  · split at h <;> cases h <;> exact .refl _
  · exact stepShutdown_ages h u
  · cases h
    refine ages_setCell rfl ?_ u
    exact ⟨id, .inl, id, id⟩
  · cases h
    refine ages_setCell rfl ?_ u
    exact ⟨id, .inl, id, id⟩
  · split at h <;> cases h
    exact .refl _
  · cases h; exact .refl _
  · cases h
  · cases h

/-! ## Operations -/

/-- A step of operation `i` inside its call of a thread. -/
structure Inside (s : World) (i : OpId) (s' : World) : Prop where
  manager : s'.manager = s.manager
  others : ∀ j, j ≠ i → s'.ops j = s.ops j
  exchanging : ∀ t, (s.manager.ops i).Claiming t → (s'.ops i).claim = .exchange → (s.cells t).state = .terminated
  idle : (s'.ops i).claim ≠ .loadFree → ∃ t, (s.manager.ops i).Claiming t
  automatic : ∀ t, (s'.cells t).cleanupClaim = .automatic → (s.cells t).cleanupClaim = .automatic

/-- A step of the manager, which a thread may have answered: it is asked when
it cannot be claimed, or not again. -/
structure Moved (coreCount : Nat) (s : World) (i : OpId) (given : Answer) (s' : World) : Prop where
  step : Manager.step coreCount s.manager (.step i given) = some s'.manager
  others : ∀ j, j ≠ i → s'.ops j = s.ops j
  own : (s'.ops i).claim = .loadFree ∨ (s'.ops i = s.ops i ∧ ∀ t, ¬ (s.manager.ops i).Claiming t)
  asked : ∀ t, (s.manager.ops i).Asking t → given = .returnsBool false → ¬ (s'.cells t).Claimable
  claimed : ∀ t, (s.manager.ops i).Claiming t → ¬ (s'.cells t).Claimable
  won : ∀ t, (s.manager.ops i).Claiming t → given = .returnsBool true → (s.ops i).claim = .exchange
  automatic : ∀ t, (s'.cells t).cleanupClaim = .automatic →
    (s.cells t).cleanupClaim = .automatic ∨ ((s.manager.ops i).Claiming t ∧ given = .returnsBool true)

/-- What a step of operation `i` is. -/
inductive OpMove (coreCount : Nat) (s : World) (i : OpId) (answer : Answer) (s' : World) : Prop
  | inside : Inside s i s' → OpMove coreCount s i answer s'
  | moved (given : Answer) : (given = .throws → given = answer) →
      ((∀ caller p, s.manager.ops i ≠ .cleanUp caller p) → given = answer) → Moved coreCount s i given s' →
      OpMove coreCount s i answer s'

/-- A step of the manager that asks no thread. -/
theorem Moved.plain {given : Answer} (hask : ∀ t, ¬ (s.manager.ops i).Asking t)
    (hclaim : ∀ t, ¬ (s.manager.ops i).Claiming t) (hs : stepManager coreCount s i given = some s') :
    Moved coreCount s i given s' := by
  obtain ⟨m, hm, rfl⟩ := Option.map_eq_some_iff.1 hs
  exact ⟨hm, fun _ _ => rfl, .inr ⟨rfl, hclaim⟩, fun t ht => absurd ht (hask t), fun t ht => absurd ht (hclaim t),
    fun t ht => absurd ht (hclaim t), fun _ => .inl⟩

theorem opMove_stepClaim {record : ThreadRecord} {caller : Caller} {rest : List ThreadRecord}
    {claimed : List ClaimedCleanupRecord} {r : CleanupResult}
    (hpc : s.manager.ops i = .cleanUp caller (.tryClaim record rest claimed r))
    (hs : stepClaim coreCount s i record.thread = some s') : OpMove coreCount s i answer s' := by
  have hclaiming : ∀ t, (s.manager.ops i).Claiming t ↔ t = record.thread := by
    intro t
    rw [hpc]
    exact ⟨Eq.symm, Eq.symm⟩
  have hask : ∀ t, ¬ (s.manager.ops i).Asking t := by
    rw [hpc]
    exact fun _ => id
  have hinside : ∀ {claim : ClaimPc}, (claim = .exchange → (s.cells record.thread).state = .terminated) →
      OpMove coreCount s i answer (s.setOp i { s.ops i with claim := claim }) := by
    intro claim hstate
    refine .inside ⟨rfl, fun j hj => by simp [World.setOp, hj], ?_, fun _ => ⟨_, (hclaiming _).2 rfl⟩, fun _ => id⟩
    intro t ht he
    rw [(hclaiming t).1 ht]
    exact hstate (by simpa [World.setOp] using he)
  -- The call says no, for a reason that stays.
  have hfail : ¬ (s.cells record.thread).Claimable →
      stepManager coreCount (s.setOp i (freshOp (s.ops i).onDispatcher)) i (.returnsBool false) = some s' →
      OpMove coreCount s i answer s' := by
    intro hno hs
    obtain ⟨m, hm, rfl⟩ := Option.map_eq_some_iff.1 hs
    refine .moved _ (by rintro ⟨⟩) (fun hno => absurd hpc (hno _ _)) ⟨hm, fun j hj => by simp [World.setOp, hj],
      .inl (by simp [World.setOp, freshOp]), fun t ht => absurd ht (hask t), fun t ht => ?_, fun t _ ha => ?_,
      fun _ => .inl⟩
    · rw [(hclaiming t).1 ht]
      exact hno
    · cases ha
  simp only [stepClaim] at hs
  split at hs
  · split at hs
    · cases hs; exact hinside (by rintro ⟨⟩)
    · rename_i hfree
      exact hfail (fun hc => hfree hc.1) hs
  · split at hs
    · rename_i hstate
      cases hs; exact hinside fun _ => hstate
    · rename_i hstate
      exact hfail (fun hc => hstate hc.2.1) hs
  · rename_i hex
    split at hs
    · rename_i hav
      obtain ⟨m, hm, rfl⟩ := Option.map_eq_some_iff.1 hs
      have hcell : ((s.cells record.thread).exchangeClaim .automatic).cleanupClaim = .automatic := by
        simp [Cell.exchangeClaim, hav]
      refine .moved _ (by rintro ⟨⟩) (fun hno => absurd hpc (hno _ _)) ⟨hm,
        fun j hj => by simp [World.setOp, World.setCell, hj], .inl (by simp [World.setOp, freshOp]), fun t ht => absurd ht (hask t), fun t ht hc => ?_, fun _ _ _ => hex,
        fun t ht => ?_⟩
      · rw [(hclaiming t).1 ht] at hc
        have hav' : ((s.cells record.thread).exchangeClaim .automatic).cleanupClaim = .available := by
          simpa [World.setOp, World.setCell] using hc.2.2
        rw [hcell] at hav'
        cases hav'
      · by_cases htr : t = record.thread
        · exact .inr ⟨(hclaiming t).2 htr, rfl⟩
        · left
          simpa [World.setOp, World.setCell, htr] using ht
    · rename_i hav
      exact hfail (fun hc => hav hc.2.2) hs

theorem Cell.exchangeClaim_manual {c : Cell} (h : (c.exchangeClaim .manual).cleanupClaim = .automatic) :
    c.cleanupClaim = .automatic := by
  unfold Cell.exchangeClaim at h
  split at h
  · cases h
  · exact h

theorem automatic_setCell {c : Cell} (hs : s'.cells = Function.update s.cells t c)
    (h : c.cleanupClaim = .automatic → (s.cells t).cleanupClaim = .automatic) (u : ThreadPtr)
    (hu : (s'.cells u).cleanupClaim = .automatic) : (s.cells u).cleanupClaim = .automatic := by
  rw [hs, Function.update_apply] at hu
  split at hu
  · rename_i hut
    rw [hut]
    exact h hu
  · exact hu

theorem opMove_stepDestroy {c : ClaimedCleanupRecord} {caller : Caller} {rest : List ClaimedCleanupRecord}
    {r : CleanupResult} (hidle : (s.ops i).claim = .loadFree)
    (hpc : s.manager.ops i = .cleanUp caller (.deleteThread c rest r))
    (hs : stepDestroy coreCount s i c.thread = some s') : OpMove coreCount s i answer s' := by
  have hclaiming : ∀ t, ¬ (s.manager.ops i).Claiming t := by
    rw [hpc]
    exact fun _ => id
  have hask : ∀ t, ¬ (s.manager.ops i).Asking t := by
    rw [hpc]
    exact fun _ => id
  have hinside : ∀ {s' : World} {destroy : DestroyPc}, s'.manager = s.manager →
      s'.ops = Function.update s.ops i { s.ops i with destroy := destroy } →
      (∀ u, (s'.cells u).cleanupClaim = .automatic → (s.cells u).cleanupClaim = .automatic) →
      OpMove coreCount s i answer s' := by
    intro s' destroy hm ho hauto
    refine .inside ⟨hm, fun j hj => by simp [ho, hj], fun t ht => absurd ht (hclaiming t), fun hne => ?_, hauto⟩
    exact absurd (by simpa [ho] using hidle) hne
  simp only [stepDestroy] at hs
  split at hs
  · cases hs; exact hinside rfl rfl (automatic_setCell rfl id)
  · cases hs; exact hinside rfl rfl (automatic_setCell rfl Cell.exchangeClaim_manual)
  · cases hs; exact hinside rfl rfl fun _ => id
  · split at hs <;> cases hs
    exact hinside rfl rfl fun _ => id
  · cases hs; exact hinside rfl rfl fun _ => id
  · obtain ⟨m, hm, rfl⟩ := Option.map_eq_some_iff.1 hs
    refine .moved _ (by rintro ⟨⟩) (fun hno => absurd hpc (hno _ _)) ⟨hm,
      fun j hj => by simp [World.setOp, World.setCell, hj], .inl (by simp [World.setOp, freshOp]), fun t ht => absurd ht (hask t), fun t ht => absurd ht (hclaiming t),
      fun t ht => absurd ht (hclaiming t), fun t ht => .inl ?_⟩
    refine automatic_setCell (s := s) rfl (fun h => ?_) t ht
    revert h
    unfold Cell.deleteTask
    split <;> exact id

theorem opMove_stepOperation (hidle : (s.ops i).claim ≠ .loadFree → ∃ t, (s.manager.ops i).Claiming t)
    (hs : stepOperation coreCount s i answer = some s') : OpMove coreCount s i answer s' := by
  unfold stepOperation at hs
  split at hs
  · rename_i record rest claimed r hpc
    have hclaiming : ∀ t, ¬ (s.manager.ops i).Claiming t := by
      rw [hpc]
      exact fun _ => id
    obtain ⟨m, hm, rfl⟩ := Option.map_eq_some_iff.1 hs
    refine .moved _ (by rintro ⟨⟩) (fun hno => absurd hpc (hno _ _)) ⟨hm, fun _ _ => rfl, .inr ⟨rfl, hclaiming⟩,
      fun t ht ha hc => ?_, fun t ht => absurd ht (hclaiming t), fun t ht => absurd ht (hclaiming t), fun _ => .inl⟩
    have ht : record.thread = t := by rwa [hpc] at ht
    have hstate : ¬ (s.cells record.thread).state = .terminated := by simpa using ha
    rw [ht] at hstate
    exact hstate hc.2.1
  · rename_i hpc; exact opMove_stepClaim hpc hs
  · rename_i hpc
    refine opMove_stepDestroy ?_ hpc hs
    by_contra hne
    obtain ⟨t, ht⟩ := hidle hne
    rw [hpc] at ht
    exact ht
  · rename_i hget hclaim hdelete
    refine .moved answer (fun _ => rfl) (fun _ => rfl) (.plain ?_ ?_ hs)
    · intro t ht
      unfold Pc.Asking at ht
      split at ht
      · rename_i hpc; exact hget _ _ _ _ _ hpc
      · exact ht
    · intro t ht
      unfold Pc.Claiming at ht
      split at ht
      · rename_i hpc; exact hclaim _ _ _ _ _ hpc
      · exact ht

theorem stepOperation_ages (hs : stepOperation coreCount s i answer = some s') (u : ThreadPtr) :
    (s.cells u).Ages (s'.cells u) := by
  have hmanager : ∀ {s₁ : World} {given : Answer}, stepManager coreCount s₁ i given = some s' →
      s'.cells = s₁.cells := by
    intro s₁ given hs
    obtain ⟨m, rfl⟩ := stepManager_frame hs
    rfl
  unfold stepOperation at hs
  split at hs
  · exact ages_of_cells (hmanager hs) u
  · simp only [stepClaim] at hs
    split at hs
    · split at hs
      · cases hs; exact .refl _
      · exact ages_of_cells (hmanager hs) u
    · split at hs
      · cases hs; exact .refl _
      · exact ages_of_cells (hmanager hs) u
    · split at hs
      · exact ages_setCell (hmanager hs) (Cell.ages_exchangeClaim _) u
      · exact ages_of_cells (hmanager hs) u
  · rename_i c rest r hpc
    simp only [stepDestroy] at hs
    split at hs
    · cases hs
      refine ages_setCell rfl ?_ u
      exact ⟨id, .inl, (by rintro ⟨⟩), id⟩
    · cases hs; exact ages_setCell rfl (Cell.ages_exchangeClaim _) u
    · cases hs; exact .refl _
    · split at hs <;> cases hs
      exact .refl _
    · cases hs; exact .refl _
    · refine ages_setCell (hmanager hs) ?_ u
      have hdelete := Cell.ages_deleteTask (s.cells c.thread)
      exact ⟨hdelete.loop, (by rintro ⟨⟩), hdelete.free, hdelete.available⟩
  · exact ages_of_cells (hmanager hs) u

/-! ## What is owed -/

/-- What holds of the threads and the passes between the steps. -/
structure Tended (s : World) : Prop where
  exited : ∀ t, (s.cells t).state = .terminated → (s.cells t).worker ≠ .loop
  automatic : ∀ t, (s.cells t).cleanupClaim = .automatic → (s.cells t).worker ≠ .loop
  exchanging : ∀ i t, (s.manager.ops i).Claiming t → (s.ops i).claim = .exchange → (s.cells t).worker ≠ .loop
  idle : ∀ i, (s.ops i).claim ≠ .loadFree → ∃ t, (s.manager.ops i).Claiming t
  claims : ∀ i, ∀ t ∈ (s.manager.ops i).claims, (s.cells t).worker ≠ .loop
  condemned : ∀ t ∈ s.manager.condemned, (s.cells t).worker ≠ .loop
  keys : ∀ i, ∀ key ∈ (s.manager.ops i).keys, ∀ record ∈ s.manager.registry.threads,
    record.thread = key.2 → record.key = key
  held : ∀ t ∈ s.manager.registry.pointers, (s.cells t).cleanupClaim = .automatic →
    ∃ i, ∃ c ∈ (s.manager.ops i).held, c.thread = t
  owed : ∀ t ∈ s.manager.registry.pointers, (s.cells t).dispatched = true → (s.cells t).Claimable → s.Owed t
  leaving : ∀ t ∈ s.manager.condemned, t ∈ s.manager.deleted ∨ ∃ i, t ∈ (s.manager.ops i).leaving

/-- A thread that can be claimed now could be claimed before, or its worker has
only just stored `Terminated`. -/
theorem Cell.Ages.claimable {c c' : Cell} (h : c.Ages c') (hc : c'.Claimable) :
    c.Claimable ∨ c.worker = .storeTerminated := by
  obtain ⟨hfree, hstate, hclaim⟩ := hc
  rcases h.terminated hstate with hstate | ⟨hw, -⟩
  · exact .inl ⟨h.free hfree, hstate, h.available hclaim⟩
  · exact .inr hw

theorem Cell.Ages.exited {c c' : Cell} (h : c.Ages c') (hc : c.state = .terminated → c.worker ≠ .loop)
    (hs : c'.state = .terminated) : c'.worker ≠ .loop := by
  rcases h.terminated hs with hs | ⟨-, hw⟩
  · exact fun hl => hc hs (h.loop hl)
  · exact hw

/-- A step of which the manager knows nothing. -/
theorem Tended.frame (h : Tended s) (hm : s'.manager = s.manager) (hages : ∀ u, (s.cells u).Ages (s'.cells u))
    (hauto : ∀ u, (s'.cells u).cleanupClaim = .automatic → (s.cells u).cleanupClaim = .automatic)
    (hd : ∀ u, s.dispatcher = .callCleanUp u → s'.dispatcher = .callCleanUp u)
    (hdispatched : ∀ t, (s'.cells t).dispatched = true → (s'.cells t).Claimable →
      ((s.cells t).dispatched = true ∧ (s.cells t).worker ≠ .storeTerminated) ∨ ∃ u, s'.dispatcher = .callCleanUp u)
    (hexchanging : ∀ i t, (s.manager.ops i).Claiming t → (s'.ops i).claim = .exchange → (s.cells t).worker ≠ .loop)
    (hidle : ∀ i, (s'.ops i).claim ≠ .loadFree → ∃ t, (s.manager.ops i).Claiming t) : Tended s' where
  exited t := (hages t).exited (h.exited t)
  automatic t ht := fun hl => h.automatic t (hauto t ht) ((hages t).loop hl)
  exchanging i t ht he := by
    rw [hm] at ht
    exact fun hl => hexchanging i t ht he ((hages t).loop hl)
  idle i hi := by
    rw [hm]
    exact hidle i hi
  claims i t ht := by
    rw [hm] at ht
    exact fun hl => h.claims i t ht ((hages t).loop hl)
  condemned t ht := by
    rw [hm] at ht
    exact fun hl => h.condemned t ht ((hages t).loop hl)
  keys := by
    rw [hm]
    exact h.keys
  held t ht hc := by
    rw [hm] at ht ⊢
    exact h.held t ht (hauto t hc)
  owed t ht hdone hc := by
    rw [hm] at ht
    rcases hdispatched t hdone hc with ⟨hdone, hw⟩ | hdue
    · have hold := ((hages t).claimable hc).resolve_right hw
      rcases h.owed t ht hdone hold with ⟨u, hu⟩ | ho
      · exact .inl ⟨u, hd u hu⟩
      · exact .inr (by rwa [hm])
    · exact .inl hdue
  leaving := by
    rw [hm]
    exact h.leaving

/-- A manager operation is called. -/
theorem Tended.call {m : Manager.Machine} {request : Request} (h : Tended s)
    (hm : Manager.step coreCount s.manager (.call i request) = some m) (hs : s'.manager = m)
    (hcells : s'.cells = s.cells) (hops : ∀ j, j ≠ i → s'.ops j = s.ops j) (hi : (s'.ops i).claim = .loadFree)
    (howed : ∀ t, s.Owed t → s'.Owed t) : Tended s' := by
  obtain ⟨hidle, rfl, hclaims⟩ := claimStep_call hm
  have hentry : ∀ t, ¬ (request.entry).Claiming t := by cases request <;> exact fun _ => id
  have hops' : ∀ j, j ≠ i → s'.manager.ops j = s.manager.ops j := fun j hj => by simp [hs, Machine.goto, hj]
  have hown : s'.manager.ops i = request.entry := by simp [hs, Machine.goto]
  have hempty : (request.entry).keys = [] ∧ (request.entry).held = [] ∧ (request.entry).leaving = [] := by
    cases request <;> exact ⟨rfl, rfl, rfl⟩
  have hregistry : s'.manager.registry = s.manager.registry := by rw [hs]; rfl
  have hcondemned : s'.manager.condemned = s.manager.condemned := by rw [hs]; rfl
  have hdeleted : s'.manager.deleted = s.manager.deleted := by rw [hs]; rfl
  refine ⟨?_, ?_, fun j t ht he => ?_, fun j hj => ?_, fun j t ht => ?_, ?_, fun j key hk => ?_, ?_, ?_, ?_⟩
  · rw [hcells]; exact h.exited
  · rw [hcells]; exact h.automatic
  · rw [hcells]
    by_cases hji : j = i
    · rw [hji, hown] at ht
      exact absurd ht (hentry t)
    · rw [hops' j hji] at ht
      rw [hops j hji] at he
      exact h.exchanging j t ht he
  · by_cases hji : j = i
    · rw [hji] at hj
      exact absurd hi hj
    · rw [hops j hji] at hj
      rw [hops' j hji]
      exact h.idle j hj
  · rw [hcells]
    by_cases hji : j = i
    · rw [hji, hs, hclaims] at ht
      cases ht
    · rw [hops' j hji] at ht
      exact h.claims j t ht
  · rw [hcondemned, hcells]; exact h.condemned
  · rw [hregistry]
    by_cases hji : j = i
    · rw [hji, hown, hempty.1] at hk
      cases hk
    · rw [hops' j hji] at hk
      exact h.keys j key hk
  · rw [hregistry, hcells]
    intro t ht hc
    obtain ⟨j, c, hj, hct⟩ := h.held t ht hc
    refine ⟨j, c, ?_, hct⟩
    have hji : j ≠ i := by
      rintro rfl
      rw [hidle] at hj
      cases hj
    rwa [hops' j hji]
  · rw [hregistry, hcells]
    intro t ht hdone hc
    exact howed t (h.owed t ht hdone hc)
  · rw [hcondemned, hdeleted]
    intro t ht
    refine (h.leaving t ht).imp id ?_
    rintro ⟨j, hj⟩
    refine ⟨j, ?_⟩
    have hji : j ≠ i := by
      rintro rfl
      rw [hidle] at hj
      cases hj
    rwa [hops' j hji]

/-- The manager makes a step of operation `i`. -/
theorem Tended.moved {given : Answer} (h : Tended s) (hrecords : Records s) (hwf : s.manager.registry.WellFormed)
    (hm : Moved coreCount s i given s') (hd : DebtStep s.manager i given s'.manager)
    (hages : ∀ u, (s.cells u).Ages (s'.cells u)) (hdispatcher : s'.dispatcher = s.dispatcher)
    (hdone : ∀ t, (s'.cells t).dispatched = (s.cells t).dispatched)
    (hregisters : ∀ t assigned requested, s.manager.ops i = .addThread t assigned (.insert requested) →
      given ≠ .throws → t ∉ s.manager.registry.pointers →
      (s.cells t).worker = .loop ∧ ∀ j, ∀ key ∈ (s.manager.ops j).keys, key.2 ≠ t) : Tended s' := by
  have hclaims := claimStep_step hm.step
  have hwon : ∀ t, (s.manager.ops i).Claiming t → given = .returnsBool true → (s.cells t).worker ≠ .loop :=
    fun t ht ha => h.exchanging i t ht (hm.won t ht ha)
  have hauto : ∀ t, (s'.cells t).cleanupClaim = .automatic → (s.cells t).worker ≠ .loop := by
    intro t ht
    rcases hm.automatic t ht with ht | ⟨ht, ha⟩
    · exact h.automatic t ht
    · exact hwon t ht ha
  -- A record that is new belongs to a thread whose worker is in its loop.
  have hnew : ∀ record ∈ s'.manager.registry.threads, record ∈ s.manager.registry.threads ∨
      (record.thread ∉ s.manager.registry.pointers ∧ (s.cells record.thread).worker = .loop ∧
        ∀ j, ∀ key ∈ (s.manager.ops j).keys, key.2 ≠ record.thread) := by
    intro record hr
    rcases hd.registry record hr with hr | ⟨hno, hans, assigned, requested, hpc⟩
    · exact .inl hr
    · exact .inr ⟨hno, hregisters _ assigned requested hpc hans hno⟩
  have hold : ∀ t ∈ s'.manager.registry.pointers, (s.cells t).worker ≠ .loop →
      ∃ record ∈ s.manager.registry.threads, record ∈ s'.manager.registry.threads ∧ record.thread = t := by
    intro t ht hw
    obtain ⟨record, hr, hrt⟩ := List.mem_map.1 ht
    rcases hnew record hr with hr' | ⟨-, hloop, -⟩
    · exact ⟨record, hr', hr, hrt⟩
    · rw [hrt] at hloop
      exact absurd hloop hw
  refine ⟨fun t => (hages t).exited (h.exited t), fun t ht hl => hauto t ht ((hages t).loop hl), fun j t ht he => ?_,
    fun j hj => ?_, fun j t ht => ?_, fun t ht => ?_, fun j key hk record hr hrt => ?_, fun t ht hc => ?_,
    fun t ht hdone' hc => ?_, fun t ht => ?_⟩
  · -- exchanging
    refine fun hl => ?_
    by_cases hji : j = i
    · subst hji
      rcases hm.own with hfree | ⟨hsame, hno⟩
      · rw [hfree] at he
        cases he
      · rw [hsame] at he
        obtain ⟨u, hu⟩ := h.idle j (by rw [he]; simp)
        exact hno u hu
    · rw [hd.others j hji] at ht
      rw [hm.others j hji] at he
      exact h.exchanging j t ht he ((hages t).loop hl)
  · -- idle
    by_cases hji : j = i
    · subst hji
      rcases hm.own with hfree | ⟨hsame, hno⟩
      · exact absurd hfree hj
      · rw [hsame] at hj
        obtain ⟨u, hu⟩ := h.idle j hj
        exact absurd hu (hno u)
    · rw [hm.others j hji] at hj
      rw [hd.others j hji]
      exact h.idle j hj
  · -- claims
    refine fun hl => ?_
    have hl := (hages t).loop hl
    by_cases hji : j = i
    · subst hji
      rcases hclaims.claims t ht with ht | ⟨ht, ha⟩
      · exact h.claims j t ht hl
      · exact hwon t ht ha hl
    · rw [hd.others j hji] at ht
      exact h.claims j t ht hl
  · -- condemned
    refine fun hl => ?_
    have hl := (hages t).loop hl
    rcases hd.condemned t ht with ht | ⟨-, ht⟩
    · exact h.condemned t ht hl
    · exact h.claims i t ht hl
  · -- keys
    have hread : key ∈ (s.manager.ops j).keys ∨ ∃ record ∈ s.manager.registry.threads, record.key = key := by
      by_cases hji : j = i
      · subst hji
        exact hd.keys hk
      · rw [hd.others j hji] at hk
        exact .inl hk
    rcases hnew record hr with hr | ⟨hno, -, hfresh⟩
    · rcases hread with hk | ⟨read, hread, rfl⟩
      · exact h.keys j key hk record hr hrt
      · rw [List.inj_on_of_nodup_map hwf.pointers_nodup hr hread hrt]
    · rcases hread with hk | ⟨read, hread, rfl⟩
      · exact absurd hrt.symm (hfresh j key hk)
      · exact absurd (List.mem_map.2 ⟨read, hread, hrt.symm⟩) hno
  · -- held
    obtain ⟨record, hr, hr', hrt⟩ := hold t ht (hauto t hc)
    rcases hm.automatic t hc with hc | ⟨hc, ha⟩
    · obtain ⟨j, c, hj, hct⟩ := h.held t (List.mem_map.2 ⟨record, hr, hrt⟩) hc
      by_cases hji : j = i
      · subst hji
        have hkey : record.key = c.key :=
          h.keys j c.key (List.mem_append_right _ (List.mem_map.2 ⟨c, hj, rfl⟩)) record hr (hrt.trans hct.symm)
        rcases hd.held c hj with hj | hgone
        · exact ⟨j, c, hj, hct⟩
        · exact absurd hkey (hgone record hr')
      · exact ⟨j, c, by rwa [hd.others j hji], hct⟩
    · obtain ⟨c, hj, hct⟩ := hd.claims t hc ha
      exact ⟨i, c, hj, hct⟩
  · -- owed
    rw [hdone t] at hdone'
    have hbefore : ¬ (s.cells t).worker.BeforeSend := by
      intro hb
      rw [hrecords.before t hb] at hdone'
      cases hdone'
    obtain ⟨record, hr, -, hrt⟩ := hold t ht fun hl => hbefore (by rw [hl]; trivial)
    have hpointer : t ∈ s.manager.registry.pointers := List.mem_map.2 ⟨record, hr, hrt⟩
    have hclaimable := ((hages t).claimable hc).resolve_right fun hw => hbefore (by rw [hw]; trivial)
    rcases h.owed t hpointer hdone' hclaimable with ⟨u, hu⟩ | ho
    · exact .inl ⟨u, hdispatcher.trans hu⟩
    · refine .inr (hd.owes ho ht ?_ (fun ha hf => hm.asked t ha hf hc) fun hcl => hm.claimed t hcl hc)
      rintro rfl
      exact hwf.not_null hpointer
  · -- leaving
    rcases hd.condemned t ht with ht | ⟨ht, -⟩
    · rcases h.leaving t ht with hdel | ⟨j, hj⟩
      · exact .inl (hd.deleted t hdel)
      · by_cases hji : j = i
        · subst hji
          exact (hd.leaving t hj).symm.imp id fun hj => ⟨j, hj⟩
        · exact .inr ⟨j, by rwa [hd.others j hji]⟩
    · exact .inr ⟨i, ht⟩

/-! ### Steps outside of the operations -/

/-- A worker's step changes the cell of its thread. -/
theorem stepWorker_cell (h : stepWorker capacity s t = some s') : s'.dispatcher = s.dispatcher ∧
    ∃ c, s'.cells = Function.update s.cells t c ∧ c.cleanupClaim = (s.cells t).cleanupClaim := by
  simp only [stepWorker] at h
  split at h
  · split at h <;> cases h
    · exact ⟨rfl, _, rfl, rfl⟩
    · exact ⟨rfl, _, rfl, rfl⟩
    · exact ⟨rfl, _, rfl, rfl⟩
    all_goals exact ⟨rfl, _, (Function.update_eq_self t s.cells).symm, rfl⟩
  · split at h <;> cases h <;> exact ⟨rfl, _, rfl, rfl⟩
  · split at h <;> cases h <;> exact ⟨rfl, _, rfl, rfl⟩
  · cases h; exact ⟨rfl, _, rfl, rfl⟩
  · cases h; exact ⟨rfl, _, rfl, rfl⟩
  · split at h <;> cases h
    exact ⟨rfl, _, rfl, rfl⟩
  · split at h <;> cases h
    exact ⟨rfl, _, rfl, rfl⟩
  · split at h <;> cases h
    exact ⟨rfl, _, rfl, rfl⟩
  · cases h; exact ⟨rfl, _, rfl, rfl⟩
  · cases h; exact ⟨rfl, _, rfl, rfl⟩
  · cases h
  · cases h

theorem stepWorker_automatic (h : stepWorker capacity s t = some s') (u : ThreadPtr)
    (hu : (s'.cells u).cleanupClaim = .automatic) : (s.cells u).cleanupClaim = .automatic := by
  obtain ⟨-, c, hs, hc⟩ := stepWorker_cell h
  exact automatic_setCell hs (fun ha => hc.symm.trans ha) u hu

theorem stepDispatcher_automatic (h : stepDispatcher s = some s') (u : ThreadPtr)
    (hu : (s'.cells u).cleanupClaim = .automatic) : (s.cells u).cleanupClaim = .automatic := by
  have hsame : ∀ {t : ThreadPtr} {c : Cell}, s'.cells = Function.update s.cells t c →
      c.cleanupClaim = (s.cells t).cleanupClaim → (s.cells u).cleanupClaim = .automatic :=
    fun hs hc => automatic_setCell hs (fun ha => hc.symm.trans ha) u hu
  simp only [stepDispatcher] at h
  split at h
  · split at h <;> cases h
    exact hu
  · cases h; exact hu
  · cases h
    refine hsame rfl ?_
    unfold Cell.deleteTask
    split <;> rfl
  · split at h <;> cases h <;> exact hu
  · simp only [stepShutdown] at h
    split at h
    · cases h; exact automatic_setCell (s := s) rfl Cell.exchangeClaim_manual u hu
    · cases h; exact hsame rfl rfl
    · cases h; exact automatic_setCell (s := s) rfl Cell.exchangeClaim_manual u hu
    · split at h <;> cases h
      exact hu
    · split at h <;> cases h
      exact hu
    · cases h
      revert hu
      split <;> exact id
    · split at h <;> cases h
      exact hu
  · cases h; exact hsame rfl rfl
  · cases h; exact hsame rfl rfl
  · split at h <;> cases h
    exact hu
  · cases h; exact hu
  · cases h
  · cases h

theorem Tended.quiet (h : Tended s) (hrecords : Records s) (hq : Quiet s s')
    (hages : ∀ u, (s.cells u).Ages (s'.cells u))
    (hauto : ∀ u, (s'.cells u).cleanupClaim = .automatic → (s.cells u).cleanupClaim = .automatic)
    (hd : ∀ u, s.dispatcher = .callCleanUp u → s'.dispatcher = .callCleanUp u) : Tended s' := by
  refine h.frame hq.manager hages hauto hd (fun t hdone _ => .inl ?_) (fun j t ht he => ?_) (fun j hj => ?_)
  · rw [hq.dispatched t] at hdone
    refine ⟨hdone, fun hw => ?_⟩
    rw [hrecords.before t (by rw [hw]; trivial)] at hdone
    cases hdone
  · rw [hq.ops] at he
    exact h.exchanging j t ht he
  · rw [hq.ops] at hj
    exact h.idle j hj

theorem Tended.dispatcher (h : Tended s) (hrecords : Records s) (hs : stepDispatcher s = some s') : Tended s' := by
  have hages := stepDispatcher_ages hs
  have hauto := stepDispatcher_automatic hs
  have hbusy : ∀ u, s.dispatcher ≠ .callCleanUp u := by
    intro u hu
    simp only [stepDispatcher, hu] at hs
    cases hs
  rcases stepDispatcher_cases hs with hq | ⟨t, queue, hq, rfl⟩ | ⟨t, hd, rfl⟩
  · exact h.quiet hrecords hq hages hauto fun u hu => absurd hu (hbusy u)
  · refine h.frame rfl hages hauto (fun u hu => absurd hu (hbusy u)) (fun u hdone _ => .inl ⟨hdone, fun hw => ?_⟩)
      h.exchanging h.idle
    have hdone : (s.cells u).dispatched = true := hdone
    rw [hrecords.before u (by rw [hw]; trivial)] at hdone
    cases hdone
  · exact h.frame rfl hages hauto (fun u hu => absurd hu (hbusy u)) (fun _ _ _ => .inr ⟨t, rfl⟩) h.exchanging h.idle

end ESPressio.Termination
