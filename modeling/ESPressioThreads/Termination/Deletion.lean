import ESPressioThreads.Manager.Claims
import ESPressioThreads.Termination.Machine
/-!
# Dispatch before deletion

The exit of a thread is dispatched before manager cleanup deletes the thread,
in every run in which a pass claims a thread only after its dispatch, or, off
the dispatcher task, while the dispatch is pending. A pass that the dispatcher
runs for another thread's record claims without looking at either.
-/

namespace ESPressio.Termination

open Transition ESPressio.Thread ESPressio.Manager

/-! ## What never goes back -/

/-- The worker has not sent its record yet. -/
def WorkerPc.BeforeSend : WorkerPc → Prop
  | .loop | .beginExit | .storeTerminated | .onTerminate | .storePending | .ensureAvailable | .lockQueue
  | .send => True
  | .unlockQueue | .notifyQueued | .suspended | .deleted => False

/-- A dispatch stays done, and a pending one stays pending until it is done. -/
structure Cell.Later (c c' : Cell) : Prop where
  dispatched : c.dispatched = true → c'.dispatched = true
  pending : c.dispatchPending = true → c'.dispatchPending = true ∨ c'.dispatched = true
  beforeSend : c'.worker.BeforeSend → c.worker.BeforeSend

theorem Cell.Later.refl (c : Cell) : c.Later c := ⟨id, .inl, id⟩

/-- What a manager operation may do to a cell. -/
theorem Cell.later_of_eq {c c' : Cell} (hd : c'.dispatched = c.dispatched)
    (hp : c'.dispatchPending = c.dispatchPending) (hw : c'.worker = c.worker ∨ c'.worker = .deleted) :
    c.Later c' where
  dispatched h := hd.trans h
  pending h := .inl (hp.trans h)
  beforeSend h := by
    rcases hw with hw | hw
    · rwa [hw] at h
    · rw [hw] at h; exact h.elim

@[simp] theorem Cell.exchangeClaim_dispatched (c : Cell) (claim : CleanupClaim) :
    (c.exchangeClaim claim).dispatched = c.dispatched := by unfold exchangeClaim; split <;> rfl

@[simp] theorem Cell.exchangeClaim_pending (c : Cell) (claim : CleanupClaim) :
    (c.exchangeClaim claim).dispatchPending = c.dispatchPending := by unfold exchangeClaim; split <;> rfl

@[simp] theorem Cell.exchangeClaim_worker (c : Cell) (claim : CleanupClaim) :
    (c.exchangeClaim claim).worker = c.worker := by unfold exchangeClaim; split <;> rfl

@[simp] theorem Cell.deleteTask_dispatched (c : Cell) : c.deleteTask.dispatched = c.dispatched := by
  unfold deleteTask; split <;> rfl

@[simp] theorem Cell.deleteTask_pending (c : Cell) : c.deleteTask.dispatchPending = c.dispatchPending := by
  unfold deleteTask; split <;> rfl

theorem Cell.deleteTask_worker (c : Cell) : c.deleteTask.worker = c.worker ∨ c.deleteTask.worker = .deleted := by
  unfold deleteTask; split
  · exact .inr rfl
  · exact .inl rfl

def World.Later (s s' : World) : Prop := ∀ t, (s.cells t).Later (s'.cells t)

variable {s s' : World} {t u : ThreadPtr} {i : OpId} {capacity coreCount : Nat} {answer : Answer}

theorem World.Later.refl (s : World) : s.Later s := fun t => .refl (s.cells t)

/-- One cell changed. -/
theorem World.later_setCell {c : Cell} (hs : s'.cells = Function.update s.cells t c) (h : (s.cells t).Later c) :
    s.Later s' := by
  intro u
  rw [hs, Function.update_apply]
  split
  · rename_i hu; rwa [hu]
  · exact .refl _

/-! ## Claims of a pass -/

/-- Operation `i` may delete `t`: its exit was dispatched, or the destructor
will wait for the dispatch. -/
def World.Cleared (s : World) (i : OpId) (t : ThreadPtr) : Prop :=
  (s.cells t).dispatched = true ∨ ((s.ops i).onDispatcher = false ∧ (s.cells t).dispatchPending = true)

theorem World.Cleared.later (h : s.Cleared i t) (hl : (s.cells t).Later (s'.cells t))
    (ho : (s'.ops i).onDispatcher = (s.ops i).onDispatcher) : s'.Cleared i t := by
  rcases h with h | ⟨h, hp⟩
  · exact .inl (hl.dispatched h)
  · exact (hl.pending hp).elim (fun hp => .inr ⟨ho.trans h, hp⟩) .inl

/-- What holds of the operations and of the deleted threads. -/
structure Cleanup (s : World) : Prop where
  claims : ∀ i, ∀ t ∈ (s.manager.ops i).claims, s.Cleared i t
  finish : ∀ i, (s.ops i).destroy = .finish → ∃ t, (s.manager.ops i).Deleting t ∧ (s.cells t).dispatched = true
  deleted : ∀ t ∈ s.manager.deleted, (s.cells t).dispatched = true

/-- A step outside the operations. -/
theorem Cleanup.frame (h : Cleanup s) (hm : s'.manager = s.manager) (ho : s'.ops = s.ops) (hl : s.Later s') :
    Cleanup s' where
  claims j u hu := by
    rw [hm] at hu
    exact (h.claims j u hu).later (hl u) (by rw [ho])
  finish j hj := by
    rw [ho] at hj
    obtain ⟨u, hu, hd⟩ := h.finish j hj
    exact ⟨u, by rwa [hm], (hl u).dispatched hd⟩
  deleted u hu := by
    rw [hm] at hu
    exact (hl u).dispatched (h.deleted u hu)

/-- A step of operation `i` inside its call of a thread. -/
theorem Cleanup.inside {o : OpCell} (h : Cleanup s) (hl : s.Later s') (hm : s'.manager = s.manager)
    (hs : s'.ops = Function.update s.ops i o) (ho : o.onDispatcher = (s.ops i).onDispatcher)
    (hf : o.destroy = .finish → ∃ t, (s.manager.ops i).Deleting t ∧ (s.cells t).dispatched = true) :
    Cleanup s' where
  claims j u hu := by
    rw [hm] at hu
    refine (h.claims j u hu).later (hl u) ?_
    by_cases hj : j = i
    · subst hj; simp [hs, ho]
    · simp [hs, hj]
  finish j hj := by
    have hold : ∃ u, (s.manager.ops j).Deleting u ∧ (s.cells u).dispatched = true := by
      by_cases hji : j = i
      · subst hji; exact hf (by simpa [hs] using hj)
      · exact h.finish j (by simpa [hs, hji] using hj)
    obtain ⟨u, hu, hd⟩ := hold
    exact ⟨u, by rwa [hm], (hl u).dispatched hd⟩
  deleted u hu := by
    rw [hm] at hu
    exact (hl u).dispatched (h.deleted u hu)

/-- A step of the manager by operation `i`. -/
theorem Cleanup.manager (h : Cleanup s) (hf : (s.ops i).destroy ≠ .finish)
    (hc : answer = .returnsBool true → ∀ t, (s.manager.ops i).Claiming t → s.Cleared i t)
    (hd : ∀ t, (s.manager.ops i).Deleting t → (s.cells t).dispatched = true)
    (hs : stepManager coreCount s i answer = some s') : Cleanup s' := by
  obtain ⟨m, hm, rfl⟩ := Option.map_eq_some_iff.1 hs
  have hcs := claimStep_step hm
  refine ⟨fun j u hu => ?_, fun j hj => ?_, fun u hu => ?_⟩
  · by_cases hj : j = i
    · subst hj
      rcases hcs.claims u hu with hu | ⟨hu, ha⟩
      · exact h.claims j u hu
      · exact hc ha u hu
    · refine h.claims j u ?_
      rwa [← hcs.others j hj]
  · by_cases hji : j = i
    · subst hji; exact absurd hj hf
    · obtain ⟨u, hu, hdu⟩ := h.finish j hj
      exact ⟨u, by rwa [hcs.others j hji], hdu⟩
  · exact (hcs.deleted u hu).elim (h.deleted u) (hd u)

theorem Cleanup.call {request : Request} {onDispatcher : Bool} {m : Manager.Machine} (h : Cleanup s)
    (hm : Manager.step coreCount s.manager (.call i request) = some m) :
    Cleanup ({ s with manager := m }.setOp i (freshOp onDispatcher)) := by
  obtain ⟨hidle, hgoto, hclaims⟩ := claimStep_call hm
  have hother : ∀ j, j ≠ i → m.ops j = s.manager.ops j := fun j hj => by simp [hgoto, Machine.goto, hj]
  refine ⟨fun j u hu => ?_, fun j hj => ?_, fun u hu => h.deleted u (by rwa [hgoto] at hu)⟩
  · by_cases hji : j = i
    · subst hji
      have : u ∈ (m.ops j).claims := hu
      rw [hclaims] at this
      cases this
    · have hu' : u ∈ (s.manager.ops j).claims := by rw [← hother j hji]; exact hu
      exact (h.claims j u hu').later (.refl _) (by simp [World.setOp, hji])
  · by_cases hji : j = i
    · subst hji
      simp [World.setOp, freshOp] at hj
    · obtain ⟨u, hu, hd⟩ := h.finish j (by simpa [World.setOp, hji] using hj)
      exact ⟨u, by show (m.ops j).Deleting u; rwa [hother j hji], hd⟩

/-- A pass claims a thread only after its dispatch, or off the dispatcher task
while the dispatch is pending. -/
def ClaimsCleared (s : World) : Action → Prop
  | .op i _ =>
    match s.manager.ops i with
    | .cleanUp _ (.tryClaim record _ _ _) =>
      (s.ops i).claim = .exchange → (s.cells record.thread).cleanupClaim = .available →
        s.Cleared i record.thread
    | _ => True
  | _ => True

theorem cleanup_stepClaim {record : ThreadRecord} {caller : Caller} {rest : List ThreadRecord}
    {claimed : List ClaimedCleanupRecord} {r : CleanupResult} (h : Cleanup s)
    (hpc : s.manager.ops i = .cleanUp caller (.tryClaim record rest claimed r))
    (hc : (s.ops i).claim = .exchange → (s.cells record.thread).cleanupClaim = .available →
      s.Cleared i record.thread)
    (hs : stepClaim coreCount s i record.thread = some s') : Cleanup s' := by
  have hdel : ∀ t, ¬ (s.manager.ops i).Deleting t := by rw [hpc]; exact fun _ => id
  have hnf : (s.ops i).destroy ≠ .finish := by
    intro hf
    obtain ⟨u, hu, -⟩ := h.finish i hf
    exact hdel u hu
  -- The call ends: the operation goes back to the start of its next call.
  have hreset : Cleanup (s.setOp i (freshOp (s.ops i).onDispatcher)) :=
    h.inside (World.Later.refl s) rfl rfl rfl (fun hf => nomatch hf)
  have hfail : stepManager coreCount (s.setOp i (freshOp (s.ops i).onDispatcher)) i (.returnsBool false) = some s' →
      Cleanup s' := by
    intro hs
    refine hreset.manager ?_ ?_ (fun t ht => absurd ht (hdel t)) hs
    · simp [World.setOp, freshOp]
    · intro ha; cases ha
  unfold stepClaim at hs
  dsimp only at hs
  split at hs
  · split at hs
    · cases hs; exact h.inside (World.Later.refl s) rfl rfl rfl (fun hf => absurd hf hnf)
    · exact hfail hs
  · split at hs
    · cases hs; exact h.inside (World.Later.refl s) rfl rfl rfl (fun hf => absurd hf hnf)
    · exact hfail hs
  · rename_i hex
    split at hs
    · rename_i hav
      have hcell : ∀ u, (s.cells u).Later
          ((s.setCell record.thread ((s.cells record.thread).exchangeClaim .automatic)).cells u) :=
        World.later_setCell rfl (Cell.later_of_eq (by simp) (by simp) (.inl (by simp)))
      have hwon : Cleanup ((s.setCell record.thread ((s.cells record.thread).exchangeClaim .automatic)).setOp i
          (freshOp (s.ops i).onDispatcher)) :=
        h.inside hcell rfl rfl rfl (fun hf => nomatch hf)
      refine hwon.manager ?_ (fun _ t ht => ?_) (fun t ht => absurd ht (hdel t)) hs
      · simp [World.setOp, freshOp]
      · have ht' : record.thread = t := by
          have : (s.manager.ops i).Claiming t := ht
          rwa [hpc] at this
        subst ht'
        exact (hc hex hav).later (hcell _) (by simp [World.setOp, World.setCell, freshOp])
    · exact hfail hs

theorem cleanup_stepDestroy {c : ClaimedCleanupRecord} {caller : Caller} {rest : List ClaimedCleanupRecord}
    {r : CleanupResult} (h : Cleanup s) (hpc : s.manager.ops i = .cleanUp caller (.deleteThread c rest r))
    (hs : stepDestroy coreCount s i c.thread = some s') : Cleanup s' := by
  have hdel : (s.manager.ops i).Deleting c.thread := by rw [hpc]; rfl
  have hcleared := h.claims i c.thread hdel.mem_claims
  -- The destructor is done with its wait: the flag is clear, or it runs on the dispatcher.
  have hdone : (s.cells c.thread).dispatchPending = false ∨ (s.ops i).onDispatcher = true →
      ∃ t, (s.manager.ops i).Deleting t ∧ (s.cells t).dispatched = true := by
    intro hno
    refine ⟨c.thread, hdel, hcleared.elim id fun ⟨ho, hp⟩ => ?_⟩
    rcases hno with hno | hno
    · rw [hp] at hno; cases hno
    · rw [ho] at hno; cases hno
  unfold stepDestroy at hs
  dsimp only at hs
  split at hs
  · cases hs
    exact h.inside (World.later_setCell rfl (Cell.later_of_eq rfl rfl (.inl rfl))) rfl rfl rfl (fun hf => nomatch hf)
  · cases hs
    exact h.inside (World.later_setCell rfl (Cell.later_of_eq (by simp) (by simp) (.inl (by simp)))) rfl rfl rfl
      (fun hf => nomatch hf)
  · cases hs
    refine h.inside (World.Later.refl s) rfl rfl rfl fun hf => hdone (.inl ?_)
    cases hp : (s.cells c.thread).dispatchPending
    · rfl
    · simp [hp] at hf
  · split at hs <;> cases hs
    refine h.inside (World.Later.refl s) rfl rfl rfl fun hf => hdone (.inr ?_)
    cases ho : (s.ops i).onDispatcher
    · simp [ho] at hf
    · rfl
  · cases hs
    refine h.inside (World.Later.refl s) rfl rfl rfl fun hf => hdone (.inl ?_)
    cases hp : (s.cells c.thread).dispatchPending
    · rfl
    · simp [hp] at hf
  · rename_i hf
    have hcell : s.Later (s.setCell c.thread { (s.cells c.thread).deleteTask with state := .destroyed }) :=
      World.later_setCell rfl (Cell.later_of_eq (by simp) (by simp) (Cell.deleteTask_worker _))
    have hreset : Cleanup ((s.setCell c.thread { (s.cells c.thread).deleteTask with state := .destroyed }).setOp i
        (freshOp (s.ops i).onDispatcher)) :=
      h.inside hcell rfl rfl rfl (fun hf => nomatch hf)
    refine hreset.manager ?_ ?_ (fun t ht => ?_) hs
    · simp [World.setOp, freshOp]
    · intro ha; cases ha
    · obtain ⟨u, hu, hd⟩ := h.finish i hf
      have ht' : (s.manager.ops i).Deleting t := ht
      rw [ht'.eq hu]
      exact (hcell u).dispatched hd

theorem cleanup_stepOperation (h : Cleanup s) (hc : ClaimsCleared s (.op i answer))
    (hs : stepOperation coreCount s i answer = some s') : Cleanup s' := by
  unfold stepOperation at hs
  split at hs
  · rename_i hpc
    refine h.manager (fun hf => ?_) (fun _ t ht => ?_) (fun t ht => ?_) hs
    · obtain ⟨u, hu, -⟩ := h.finish i hf
      rw [hpc] at hu; exact hu
    · rw [hpc] at ht; exact ht.elim
    · rw [hpc] at ht; exact ht.elim
  · rename_i hpc
    simp only [ClaimsCleared, hpc] at hc
    exact cleanup_stepClaim h hpc hc hs
  · rename_i hpc
    exact cleanup_stepDestroy h hpc hs
  · rename_i hclaim hdelete
    have hdel : ∀ t, ¬ (s.manager.ops i).Deleting t := by
      intro t ht
      unfold Pc.Deleting at ht
      split at ht
      · rename_i hpc; exact hdelete _ _ _ _ hpc
      · exact ht
    refine h.manager (fun hf => ?_) (fun _ t ht => ?_) (fun t ht => absurd ht (hdel t)) hs
    · obtain ⟨u, hu, -⟩ := h.finish i hf
      exact hdel u hu
    · unfold Pc.Claiming at ht
      split at ht
      · rename_i hpc; exact (hclaim _ _ _ _ _ hpc).elim
      · exact ht.elim

/-! ## Records -/

/-- The record the dispatcher has received and not put through
`_dispatchTermination` yet. -/
def DispatcherPc.record : DispatcherPc → Option ThreadPtr
  | .notifyStarted t | .deleteTask t | .readState t | .callback t _ | .shutdown t _ _ | .give t | .clearPending t =>
    some t
  | .receive | .callCleanUp _ | .cleaning _ _ | .notifyCompleted _ => none

/-- The record of `t` is queued or being dispatched. -/
def World.Outstanding (s : World) (t : ThreadPtr) : Prop := t ∈ s.queue ∨ s.dispatcher.record = some t

/-- A thread has one record at most, sent by its worker and not dispatched. -/
structure Records (s : World) : Prop where
  nodup : s.queue.Nodup
  current : ∀ t, s.dispatcher.record = some t → t ∉ s.queue
  sent : ∀ t, s.Outstanding t → ¬ (s.cells t).worker.BeforeSend
  outstanding : ∀ t, s.Outstanding t → (s.cells t).dispatched = false
  before : ∀ t, (s.cells t).worker.BeforeSend → (s.cells t).dispatched = false

/-- A step that sends, receives and dispatches nothing. -/
theorem Records.frame (h : Records s) (hq : s'.queue = s.queue)
    (hr : s'.dispatcher.record = s.dispatcher.record) (hl : s.Later s')
    (hd : ∀ t, (s'.cells t).dispatched = (s.cells t).dispatched) : Records s' where
  nodup := hq ▸ h.nodup
  current t ht := by
    rw [hq]
    exact h.current t (hr ▸ ht)
  sent t ht hb := by
    rw [World.Outstanding, hq, hr] at ht
    exact h.sent t ht ((hl t).beforeSend hb)
  outstanding t ht := by
    rw [World.Outstanding, hq, hr] at ht
    exact (hd t).trans (h.outstanding t ht)
  before t hb := (hd t).trans (h.before t ((hl t).beforeSend hb))

/-- The worker of `t` sends its record. -/
theorem Records.send {c : Cell} (h : Records s) (hw : (s.cells t).worker.BeforeSend) (hc : ¬ c.worker.BeforeSend)
    (hd : c.dispatched = (s.cells t).dispatched) : Records ({ s with queue := s.queue ++ [t] }.setCell t c) := by
  have hnone : ¬ s.Outstanding t := fun ho => h.sent t ho hw
  have hout : ∀ u, ({ s with queue := s.queue ++ [t] }.setCell t c).Outstanding u → s.Outstanding u ∨ u = t := by
    intro u hu
    rcases hu with hu | hu
    · rcases List.mem_append.1 hu with hu | hu
      · exact .inl (.inl hu)
      · exact .inr (List.mem_singleton.1 hu)
    · exact .inl (.inr hu)
  refine ⟨?_, fun u hu hq => ?_, fun u hu => ?_, fun u hu => ?_, fun u hu => ?_⟩
  · refine List.nodup_append.2 ⟨h.nodup, List.nodup_singleton t, ?_⟩
    intro a ha b hb hab
    rw [List.mem_singleton] at hb
    exact hnone (.inl (by rwa [hab, hb] at ha))
  · rcases List.mem_append.1 hq with hq | hq
    · exact h.current u hu hq
    · rw [List.mem_singleton] at hq
      subst hq
      exact hnone (.inr hu)
  · by_cases hut : u = t
    · subst hut; simpa [World.setCell] using hc
    · simpa [World.setCell, hut] using h.sent u ((hout u hu).resolve_right hut)
  · by_cases hut : u = t
    · subst hut; simpa [World.setCell, hd] using h.before u hw
    · simpa [World.setCell, hut] using h.outstanding u ((hout u hu).resolve_right hut)
  · by_cases hut : u = t
    · subst hut; simpa [World.setCell, hd] using h.before u hw
    · refine (by simpa [World.setCell, hut] using h.before u (by simpa [World.setCell, hut] using hu))

theorem Records.receive {queue : List ThreadPtr} (h : Records s)
    (hq : s.queue = t :: queue) : Records { s with queue := queue, dispatcher := .notifyStarted t } := by
  have hnd := h.nodup
  rw [hq, List.nodup_cons] at hnd
  have hout : ∀ u, ({ s with queue := queue, dispatcher := .notifyStarted t } : World).Outstanding u →
      s.Outstanding u := by
    intro u hu
    refine .inl ?_
    rw [hq, List.mem_cons]
    rcases hu with hu | hu
    · exact .inr hu
    · exact .inl (Option.some.inj hu).symm
  refine ⟨hnd.2, fun u hu => ?_, fun u hu => h.sent u (hout u hu), fun u hu => h.outstanding u (hout u hu),
    h.before⟩
  obtain rfl : t = u := Option.some.inj hu
  exact hnd.1

/-- `_dispatchTermination` returns. -/
theorem Records.dispatch (h : Records s) (hr : s.dispatcher = .clearPending t) :
    Records { s.setCell t { s.cells t with dispatchPending := false, dispatched := true } with
      dispatcher := .callCleanUp t } := by
  have hrec : s.dispatcher.record = some t := by rw [hr]; rfl
  have hw : ¬ (s.cells t).worker.BeforeSend := h.sent t (.inr hrec)
  refine ⟨h.nodup, fun u hu => (nomatch hu), fun u hu => ?_, fun u hu => ?_, fun u hu => ?_⟩
  · have hu : u ∈ s.queue := hu.elim id fun hu => (nomatch hu)
    by_cases hut : u = t
    · subst hut; simpa [World.setCell] using hw
    · simpa [World.setCell, hut] using h.sent u (.inl hu)
  · have hu : u ∈ s.queue := hu.elim id fun hu => (nomatch hu)
    have hut : u ≠ t := fun hut => h.current t hrec (hut ▸ hu)
    simpa [World.setCell, hut] using h.outstanding u (.inl hu)
  · by_cases hut : u = t
    · subst hut; exact absurd (by simpa [World.setCell] using hu) hw
    · simpa [World.setCell, hut] using h.before u (by simpa [World.setCell, hut] using hu)

/-! ## One step -/

/-- A step that sends, receives and dispatches nothing, and leaves the
operations alone. -/
structure Quiet (s s' : World) : Prop where
  manager : s'.manager = s.manager
  ops : s'.ops = s.ops
  queue : s'.queue = s.queue
  record : s'.dispatcher.record = s.dispatcher.record
  later : s.Later s'
  dispatched : ∀ t, (s'.cells t).dispatched = (s.cells t).dispatched

theorem Quiet.of_cell {c : Cell} (hm : s'.manager = s.manager) (ho : s'.ops = s.ops) (hq : s'.queue = s.queue)
    (hr : s'.dispatcher.record = s.dispatcher.record) (hs : s'.cells = Function.update s.cells t c)
    (hc : (s.cells t).Later c) (hd : c.dispatched = (s.cells t).dispatched) : Quiet s s' := by
  refine ⟨hm, ho, hq, hr, World.later_setCell hs hc, fun u => ?_⟩
  rw [hs, Function.update_apply]
  split
  · rename_i hu; rw [hu, hd]
  · rfl

theorem Quiet.of_cells (hm : s'.manager = s.manager) (ho : s'.ops = s.ops) (hq : s'.queue = s.queue)
    (hr : s'.dispatcher.record = s.dispatcher.record) (hs : s'.cells = s.cells) : Quiet s s' :=
  ⟨hm, ho, hq, hr, fun t => by rw [hs]; exact .refl _, fun t => by rw [hs]⟩

theorem stepTerminate_quiet (h : stepTerminate s t = some s') : Quiet s s' := by
  simp only [stepTerminate] at h
  split at h <;> cases h
  exact .of_cell rfl rfl rfl rfl rfl ⟨id, .inl, id⟩ rfl

/-- A worker's step sends its record, or is quiet. -/
theorem stepWorker_cases (h : stepWorker capacity s t = some s') :
    Quiet s s' ∨ ((s.cells t).worker = .send ∧ s.queue.length < capacity ∧
      s' = { s with queue := s.queue ++ [t] }.setCell t { s.cells t with worker := .unlockQueue }) := by
  simp only [stepWorker] at h
  have hmove : ∀ {c : Cell}, c.dispatched = (s.cells t).dispatched →
      ((s.cells t).dispatchPending = true → c.dispatchPending = true) → (s.cells t).worker.BeforeSend →
      Quiet s (s.setCell t c) := by
    intro c hd hp hw
    exact .of_cell rfl rfl rfl rfl rfl ⟨fun h => hd.trans h, fun h => .inl (hp h), fun _ => hw⟩ hd
  have hend : ∀ {c : Cell}, c.dispatched = (s.cells t).dispatched →
      ((s.cells t).dispatchPending = true → c.dispatchPending = true) → ¬ c.worker.BeforeSend →
      Quiet s (s.setCell t c) := by
    intro c hd hp hw
    exact .of_cell rfl rfl rfl rfl rfl ⟨fun h => hd.trans h, fun h => .inl (hp h), fun h => absurd h hw⟩ hd
  split at h <;> rename_i hw
  · refine .inl ?_
    split at h <;> cases h
    · exact hmove rfl id (by rw [hw]; trivial)
    · exact hmove rfl id (by rw [hw]; trivial)
    · exact hmove rfl id (by rw [hw]; trivial)
    · exact .of_cells rfl rfl rfl rfl rfl
    · exact .of_cells rfl rfl rfl rfl rfl
    · exact .of_cells rfl rfl rfl rfl rfl
    · exact .of_cells rfl rfl rfl rfl rfl
  · refine .inl ?_
    split at h <;> cases h <;> exact hmove rfl id (by rw [hw]; trivial)
  · refine .inl ?_
    split at h <;> cases h <;> exact hmove rfl id (by rw [hw]; trivial)
  · cases h; exact .inl (hmove rfl id (by rw [hw]; trivial))
  · cases h; exact .inl (hmove rfl (fun _ => rfl) (by rw [hw]; trivial))
  · refine .inl ?_
    split at h <;> cases h
    exact hmove rfl id (by rw [hw]; trivial)
  · refine .inl ?_
    split at h <;> cases h
    exact .of_cell rfl rfl rfl rfl rfl ⟨id, .inl, fun _ => by rw [hw]; trivial⟩ rfl
  · split at h <;> cases h
    rename_i hlt
    exact .inr ⟨hw, hlt, rfl⟩
  · cases h
    exact .inl (.of_cell rfl rfl rfl rfl rfl ⟨id, .inl, False.elim⟩ rfl)
  · cases h; exact .inl (hend rfl id id)
  · cases h
  · cases h

theorem stepShutdown_quiet {cb : Callback} {pc : ShutdownPc} (hr : s.dispatcher = .shutdown t cb pc)
    (h : stepShutdown s t cb pc = some s') : Quiet s s' := by
  have hrec : s.dispatcher.record = some t := by rw [hr]; rfl
  simp only [stepShutdown] at h
  split at h
  · cases h
    exact .of_cell rfl rfl rfl hrec.symm rfl (Cell.later_of_eq (by simp) (by simp) (.inl (by simp))) (by simp)
  · cases h; exact .of_cell rfl rfl rfl hrec.symm rfl ⟨id, .inl, id⟩ rfl
  · cases h
    exact .of_cell rfl rfl rfl hrec.symm rfl (Cell.later_of_eq (by simp) (by simp) (.inl (by simp))) (by simp)
  · split at h <;> cases h
    exact .of_cells rfl rfl rfl hrec.symm rfl
  · split at h <;> cases h
    exact .of_cells rfl rfl rfl hrec.symm rfl
  · cases h
    split <;> exact .of_cells rfl rfl rfl hrec.symm rfl
  · split at h <;> cases h
    exact .of_cells rfl rfl rfl hrec.symm rfl

/-- A dispatcher's step receives a record, finishes its dispatch, or is quiet. -/
theorem stepDispatcher_cases (h : stepDispatcher s = some s') :
    Quiet s s' ∨
    (∃ t queue, s.queue = t :: queue ∧ s' = { s with queue := queue, dispatcher := .notifyStarted t }) ∨
    (∃ t, s.dispatcher = .clearPending t ∧
      s' = { s.setCell t { s.cells t with dispatchPending := false, dispatched := true } with
        dispatcher := .callCleanUp t }) := by
  simp only [stepDispatcher] at h
  split at h <;> rename_i hd
  · split at h <;> cases h
    rename_i hq
    exact .inr (.inl ⟨_, _, hq, rfl⟩)
  · cases h; exact .inl (.of_cells rfl rfl rfl (by rw [hd]; rfl) rfl)
  · cases h
    refine .inl (.of_cell rfl rfl rfl (by rw [hd]; rfl) rfl ?_ (by simp))
    exact Cell.later_of_eq (by simp) (by simp) (Cell.deleteTask_worker _)
  · refine .inl ?_
    split at h <;> cases h <;> exact .of_cells rfl rfl rfl (by rw [hd]; rfl) rfl
  · exact .inl (stepShutdown_quiet hd h)
  · cases h; exact .inl (.of_cell rfl rfl rfl (by rw [hd]; rfl) rfl ⟨id, .inl, id⟩ rfl)
  · cases h; exact .inr (.inr ⟨_, hd, rfl⟩)
  · refine .inl ?_
    split at h <;> cases h
    exact .of_cells rfl rfl rfl (by rw [hd]; rfl) rfl
  · cases h; exact .inl (.of_cells rfl rfl rfl (by rw [hd]; rfl) rfl)
  · cases h
  · cases h

theorem stepCallback_quiet {choice : CallbackChoice} (h : stepCallback s choice = some s') : Quiet s s' := by
  simp only [stepCallback] at h
  split at h <;> rename_i hd <;> cases h <;> exact .of_cells rfl rfl rfl (by rw [hd]; rfl) rfl

/-- What an operation leaves alone. -/
structure OpFrame (s s' : World) : Prop where
  queue : s'.queue = s.queue
  dispatcher : s'.dispatcher = s.dispatcher
  mutex : s'.initializationMutex = s.initializationMutex
  later : s.Later s'
  dispatched : ∀ t, (s'.cells t).dispatched = (s.cells t).dispatched
  worker : ∀ t, (s'.cells t).worker = (s.cells t).worker ∨ (s'.cells t).worker = .deleted

theorem OpFrame.of_cell {c : Cell} (hq : s'.queue = s.queue) (hd : s'.dispatcher = s.dispatcher)
    (hm : s'.initializationMutex = s.initializationMutex) (hs : s'.cells = Function.update s.cells t c)
    (h1 : c.dispatched = (s.cells t).dispatched) (h2 : c.dispatchPending = (s.cells t).dispatchPending)
    (h3 : c.worker = (s.cells t).worker ∨ c.worker = .deleted) : OpFrame s s' := by
  refine ⟨hq, hd, hm, World.later_setCell hs (Cell.later_of_eq h1 h2 h3), fun u => ?_, fun u => ?_⟩
  · rw [hs, Function.update_apply]
    split
    · rename_i hu; rw [hu, h1]
    · rfl
  · rw [hs, Function.update_apply]
    split
    · rename_i hu; rwa [hu]
    · exact .inl rfl

theorem OpFrame.of_cells (hq : s'.queue = s.queue) (hd : s'.dispatcher = s.dispatcher)
    (hm : s'.initializationMutex = s.initializationMutex) (hs : s'.cells = s.cells) : OpFrame s s' :=
  ⟨hq, hd, hm, fun t => by rw [hs]; exact .refl _, fun t => by rw [hs], fun t => by rw [hs]; exact .inl rfl⟩

theorem stepManager_frame (h : stepManager coreCount s i answer = some s') :
    ∃ m, s' = { s with manager := m } := by
  obtain ⟨m, -, rfl⟩ := Option.map_eq_some_iff.1 h
  exact ⟨m, rfl⟩

theorem stepClaim_frame (h : stepClaim coreCount s i t = some s') : OpFrame s s' := by
  have hfail : ∀ {o : OpCell} {answer : Answer}, stepManager coreCount (s.setOp i o) i answer = some s' →
      OpFrame s s' := by
    intro o answer hs
    obtain ⟨m, rfl⟩ := stepManager_frame hs
    exact .of_cells rfl rfl rfl rfl
  simp only [stepClaim] at h
  split at h
  · split at h
    · cases h; exact .of_cells rfl rfl rfl rfl
    · exact hfail h
  · split at h
    · cases h; exact .of_cells rfl rfl rfl rfl
    · exact hfail h
  · split at h
    · obtain ⟨m, rfl⟩ := stepManager_frame h
      exact .of_cell rfl rfl rfl rfl (by simp) (by simp) (.inl (by simp))
    · exact hfail h

theorem stepDestroy_frame (h : stepDestroy coreCount s i t = some s') : OpFrame s s' := by
  simp only [stepDestroy] at h
  split at h
  · cases h; exact .of_cell rfl rfl rfl rfl rfl rfl (.inl rfl)
  · cases h; exact .of_cell rfl rfl rfl rfl (by simp) (by simp) (.inl (by simp))
  · cases h; exact .of_cells rfl rfl rfl rfl
  · split at h <;> cases h
    exact .of_cells rfl rfl rfl rfl
  · cases h; exact .of_cells rfl rfl rfl rfl
  · obtain ⟨m, rfl⟩ := stepManager_frame h
    exact .of_cell rfl rfl rfl rfl (by simp) (by simp) (Cell.deleteTask_worker _)

theorem stepOperation_frame (h : stepOperation coreCount s i answer = some s') : OpFrame s s' := by
  unfold stepOperation at h
  split at h
  · obtain ⟨m, rfl⟩ := stepManager_frame h
    exact .of_cells rfl rfl rfl rfl
  · exact stepClaim_frame h
  · exact stepDestroy_frame h
  · obtain ⟨m, rfl⟩ := stepManager_frame h
    exact .of_cells rfl rfl rfl rfl

/-! ## Runs -/

structure Inv (s : World) : Prop where
  cleanup : Cleanup s
  records : Records s

theorem Records.quiet (h : Records s) (hq : Quiet s s') : Records s' :=
  h.frame hq.queue hq.record hq.later hq.dispatched

theorem Records.step {a : Action} (h : Records s) (hs : step capacity coreCount s a = some s') : Records s' := by
  cases a with
  | terminate t => exact h.quiet (stepTerminate_quiet hs)
  | worker t =>
    rcases stepWorker_cases hs with hq | ⟨hw, -, rfl⟩
    · exact h.quiet hq
    · exact h.send (by rw [hw]; trivial) id rfl
  | dispatcher =>
    rcases stepDispatcher_cases hs with hq | ⟨t, queue, hq, rfl⟩ | ⟨t, hd, rfl⟩
    · exact h.quiet hq
    · exact h.receive hq
    · exact h.dispatch hd
  | callback choice => exact h.quiet (stepCallback_quiet hs)
  | dispatcherCleanUp i =>
    simp only [Termination.step] at hs
    split at hs
    · rename_i hd
      obtain ⟨m, -, rfl⟩ := Option.map_eq_some_iff.1 hs
      exact h.frame rfl (by rw [hd]; rfl) (World.Later.refl s) fun _ => rfl
    · cases hs
  | call i request =>
    obtain ⟨m, -, rfl⟩ := Option.map_eq_some_iff.1 hs
    exact h.frame rfl rfl (World.Later.refl s) fun _ => rfl
  | op i answer =>
    have hf := stepOperation_frame hs
    exact h.frame hf.queue (by rw [hf.dispatcher]) hf.later hf.dispatched

theorem Cleanup.quiet (h : Cleanup s) (hq : Quiet s s') : Cleanup s' := h.frame hq.manager hq.ops hq.later

theorem Cleanup.step {a : Action} (h : Cleanup s) (hc : ClaimsCleared s a)
    (hs : step capacity coreCount s a = some s') : Cleanup s' := by
  cases a with
  | terminate t => exact h.quiet (stepTerminate_quiet hs)
  | worker t =>
    rcases stepWorker_cases hs with hq | ⟨-, -, rfl⟩
    · exact h.quiet hq
    · exact h.frame rfl rfl (World.later_setCell rfl ⟨id, .inl, False.elim⟩)
  | dispatcher =>
    rcases stepDispatcher_cases hs with hq | ⟨t, queue, -, rfl⟩ | ⟨t, -, rfl⟩
    · exact h.quiet hq
    · exact h.frame rfl rfl (World.Later.refl s)
    · exact h.frame rfl rfl (World.later_setCell rfl ⟨fun _ => rfl, fun _ => .inr rfl, id⟩)
  | callback choice => exact h.quiet (stepCallback_quiet hs)
  | dispatcherCleanUp i =>
    simp only [Termination.step] at hs
    split at hs
    · obtain ⟨m, hm, rfl⟩ := Option.map_eq_some_iff.1 hs
      exact (h.call hm).frame rfl rfl (World.Later.refl _)
    · cases hs
  | call i request =>
    obtain ⟨m, hm, rfl⟩ := Option.map_eq_some_iff.1 hs
    exact h.call hm
  | op i answer => exact cleanup_stepOperation h hc hs

theorem Inv.step {a : Action} (h : Inv s) (hc : ClaimsCleared s a) (hs : step capacity coreCount s a = some s') :
    Inv s' := ⟨h.cleanup.step hc hs, h.records.step hs⟩

theorem inv_start {registry : Registry} {cells : ThreadPtr → Cell}
    (hc : ∀ t, ∃ state free, state ≠ .terminated ∧ cells t = Cell.live state free) :
    Inv (.start registry cells) := by
  have hd : ∀ t, (cells t).dispatched = false := by
    intro t
    obtain ⟨state, free, -, hl⟩ := hc t
    rw [hl]; rfl
  have hnone : ∀ t, ¬ (World.start registry cells).Outstanding t := by
    rintro t (ht | ht) <;> cases ht
  refine ⟨⟨?_, ?_, ?_⟩, ⟨List.nodup_nil, ?_, fun t ht => absurd ht (hnone t), fun t _ => hd t, fun t _ => hd t⟩⟩
  · intro i t ht; cases ht
  · intro i hi; cases hi
  · intro t ht; cases ht
  · intro t ht; cases ht

/-- Manager cleanup has deleted no thread whose exit is still to be
dispatched, and every outstanding record refers to a thread that exists. -/
def DispatchBeforeDeletion (s : World) : Prop :=
  (∀ t ∈ s.manager.deleted, (s.cells t).exited = true → (s.cells t).dispatched = true) ∧
  ∀ t, s.Outstanding t → t ∉ s.manager.deleted

/-- Dispatch comes before deletion while every claim is cleared. -/
theorem dispatched_before_deletion (capacity coreCount : Nat) (s : World)
    (h : (system capacity coreCount).ReachableWhen ClaimsCleared s) : DispatchBeforeDeletion s := by
  have hinv : Inv s := by
    refine h.invariant (I := Inv) (fun s hs => ?_) fun s a s' hi hc hs => hi.step hc hs
    obtain ⟨registry, cells, -, hc, rfl⟩ := hs
    exact inv_start hc
  refine ⟨fun t ht _ => hinv.cleanup.deleted t ht, fun t ho ht => ?_⟩
  have hd := hinv.cleanup.deleted t ht
  rw [hinv.records.outstanding t ho] at hd
  cases hd

/-! ## Two threads at once -/

instance (s : World) (a : Action) : Decidable (ClaimsCleared s a) := by
  unfold ClaimsCleared World.Cleared
  cases a with
  | op i answer => dsimp only; split <;> exact inferInstance
  | terminate | worker | dispatcher | callback | dispatcherCleanUp | call => exact inferInstance

/-- The worker of `t` is asked to terminate and sends its record. -/
def exitThread (t : ThreadPtr) : List Action := .terminate t :: List.replicate 9 (.worker t)

/-- The dispatcher puts the next record through `_dispatchTermination`. -/
def dispatchNext : List Action :=
  List.replicate 4 .dispatcher ++ List.replicate 2 (.callback .returns) ++ List.replicate 2 .dispatcher

/-- Registered threads 1 and 2, of which the first was registered first. -/
def twoThreads : World :=
  .start ⟨[⟨1, 1, 0⟩, ⟨2, 2, 0⟩], 0⟩ fun _ => Cell.live .running true

theorem twoThreads_init (capacity coreCount : Nat) : (system capacity coreCount).init twoThreads :=
  ⟨_, _, ⟨by decide, by decide⟩, fun _ => ⟨.running, true, by decide, rfl⟩, rfl⟩

/-- One thread exits, is dispatched, and the dispatcher's pass deletes it. -/
theorem dispatchedThread_deleted : ∃ s, (system 32 1).ReachableWhen ClaimsCleared s ∧
    s.manager.deleted = [1] ∧ DispatchBeforeDeletion s := by
  have hrun : ((system 32 1).replayWhen ClaimsCleared twoThreads (exitThread 1 ++ dispatchNext ++
      [.dispatcherCleanUp 0] ++ List.replicate 17 (.op 0 .returns))).map (fun s => s.manager.deleted) =
      some [1] := by
    decide
  obtain ⟨s, hs, hdeleted⟩ := Option.map_eq_some_iff.1 hrun
  have hr := Transition.System.reachableWhen_of_replayWhen (twoThreads_init 32 1) hs
  exact ⟨s, hr, hdeleted, dispatched_before_deletion 32 1 s hr⟩

/-- Thread 2's record is dispatched while thread 1's is queued: the pass that
follows deletes both threads. -/
theorem deleted_before_dispatch : ¬ ∀ s, (system 32 1).Reachable s → DispatchBeforeDeletion s := by
  intro hall
  have hrun : ((system 32 1).replay twoThreads (exitThread 2 ++ exitThread 1 ++ dispatchNext ++
      [.dispatcherCleanUp 0] ++ List.replicate 22 (.op 0 .returns))).map
      (fun s => (s.queue, s.manager.deleted)) = some ([1], [1]) := by
    decide
  obtain ⟨s, hs, hp⟩ := Option.map_eq_some_iff.1 hrun
  have hr := Transition.System.reachable_of_replay (twoThreads_init 32 1) hs
  have hqueue : s.queue = [1] := congrArg Prod.fst hp
  have hdeleted : s.manager.deleted = [1] := congrArg Prod.snd hp
  refine (hall s hr).2 1 (.inl ?_) ?_
  · simp [hqueue]
  · simp [hdeleted]

end ESPressio.Termination
