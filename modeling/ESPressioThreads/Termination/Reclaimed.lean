import ESPressioThreads.Termination.Owed
/-!
# No thread is left behind

When no record is outstanding, no operation is under way and no worker is in
the middle of its exit, every registered thread whose worker has exited has
been dispatched, the ones that free themselves have been claimed by their
owners, and the ones that were taken out of the registry for deletion have been
deleted. A worker can stay in the middle of its exit for good: when another one
was deleted before it gave back the dispatcher's mutex (`Termination.Deadlock`).
Every thread has one worker here; none is initialized again.
-/

namespace ESPressio.Termination

open Transition ESPressio.Thread ESPressio.Manager

variable {s s' : World} {t : ThreadPtr} {i : OpId} {capacity coreCount : Nat} {answer : Answer}

/-! ## Records that are sent -/

/-- A registered thread whose worker is past sending has a record, or has been
dispatched. -/
structure Sent (s : World) : Prop where
  started : ∀ t, (s.cells t).worker = .loop ∨ (s.cells t).worker = .beginExit →
    (s.cells t).exitFinalizationStarted = false
  sent : ∀ t ∈ s.manager.registry.pointers, ¬ (s.cells t).worker.BeforeSend →
    s.Outstanding t ∨ (s.cells t).dispatched = true

/-- A step that takes no worker past sending. -/
theorem Sent.frame (h : Sent s) (hr : ∀ t ∈ s'.manager.registry.pointers, t ∈ s.manager.registry.pointers ∨
      (s'.cells t).worker.BeforeSend)
    (hstarted : ∀ t, (s'.cells t).worker = .loop ∨ (s'.cells t).worker = .beginExit →
      (s'.cells t).exitFinalizationStarted = false)
    (hw : ∀ t ∈ s'.manager.registry.pointers, (s.cells t).worker.BeforeSend → (s'.cells t).worker.BeforeSend)
    (ho : ∀ t, s.Outstanding t → s'.Outstanding t ∨ (s'.cells t).dispatched = true)
    (hd : ∀ t, (s.cells t).dispatched = true → (s'.cells t).dispatched = true) : Sent s' := by
  refine ⟨hstarted, fun t ht hb => ?_⟩
  rcases hr t ht with hold | hb'
  · rcases h.sent t hold (fun hb' => hb (hw t ht hb')) with hout | hdone
    · exact ho t hout
    · exact .inr (hd t hdone)
  · exact absurd hb' hb

theorem Sent.cells (h : Sent s) (hm : s'.manager.registry = s.manager.registry) (hcells : s'.cells = s.cells)
    (ho : ∀ t, s.Outstanding t → s'.Outstanding t) : Sent s' := by
  refine h.frame (fun t ht => .inl (by rwa [hm] at ht)) ?_ (fun t _ hb => by rwa [hcells])
    (fun t hout => .inl (ho t hout)) (fun t hd => by rwa [hcells])
  rw [hcells]
  exact h.started

/-- A step that changes one cell. -/
theorem Sent.cell {c : Cell} (h : Sent s) (hm : s'.manager.registry = s.manager.registry)
    (hcells : s'.cells = Function.update s.cells t c)
    (hstarted : c.worker = .loop ∨ c.worker = .beginExit → c.exitFinalizationStarted = false)
    (hw : (s.cells t).worker.BeforeSend → c.worker.BeforeSend ∨ s'.Outstanding t)
    (ho : ∀ u, s.Outstanding u → s'.Outstanding u ∨ (s'.cells u).dispatched = true)
    (hd : (s.cells t).dispatched = true → c.dispatched = true) : Sent s' := by
  have hself : s'.cells t = c := by simp [hcells]
  have hother : ∀ u, u ≠ t → s'.cells u = s.cells u := fun u hu => by simp [hcells, hu]
  refine ⟨fun u hu => ?_, fun u hu hb => ?_⟩
  · by_cases hut : u = t
    · rw [hut, hself] at hu ⊢
      exact hstarted hu
    · rw [hother u hut] at hu ⊢
      exact h.started u hu
  · rw [hm] at hu
    by_cases hut : u = t
    · rw [hut] at hu hb ⊢
      by_cases hbefore : (s.cells t).worker.BeforeSend
      · rcases hw hbefore with hb' | hout
        · rw [hself] at hb
          exact absurd hb' hb
        · exact .inl hout
      · rcases h.sent t hu hbefore with hout | hdone
        · exact ho t hout
        · right
          rw [hself]
          exact hd hdone
    · rw [hother u hut] at hb
      rcases h.sent u hu hb with hout | hdone
      · exact ho u hout
      · right
        rwa [hother u hut]

theorem Sent.worker (h : Sent s) (hs : stepWorker capacity s t = some s') : Sent s' := by
  -- The worker goes on before it sends.
  have hmove : ∀ {c : Cell}, c.dispatched = (s.cells t).dispatched → c.worker.BeforeSend →
      (c.worker = .loop ∨ c.worker = .beginExit → c.exitFinalizationStarted = false) → Sent (s.setCell t c) :=
    fun hd hb hstarted => h.cell rfl rfl hstarted (fun _ => .inl hb) (fun _ ho => .inl ho) fun hdone => hd.trans hdone
  simp only [stepWorker] at hs
  split at hs <;> rename_i hw
  · have hnot := h.started t (.inl hw)
    split at hs <;> cases hs
    · exact hmove rfl trivial fun _ => hnot
    · exact hmove rfl trivial fun _ => hnot
    · exact hmove rfl trivial fun _ => hnot
    · exact h
    · exact h
    · exact h
    · exact h
  · have hnot := h.started t (.inr hw)
    split at hs <;> cases hs
    · rename_i hstarted
      rw [hnot] at hstarted
      cases hstarted
    · exact hmove rfl trivial (by simp)
  · split at hs <;> cases hs
    · exact hmove rfl trivial (by simp)
    · exact hmove rfl trivial (by simp)
  · cases hs; exact hmove rfl trivial (by simp)
  · cases hs; exact hmove rfl trivial (by simp)
  · split at hs <;> cases hs
    exact hmove rfl trivial (by simp)
  · split at hs <;> cases hs
    exact h.cell rfl rfl (by simp) (fun _ => .inl trivial) (fun _ ho => .inl ho) id
  · split at hs <;> cases hs
    refine h.cell rfl rfl (by simp) (fun _ => .inr (.inl (by simp [World.setCell]))) (fun u ho => .inl ?_) id
    exact ho.imp (fun hq => List.mem_append_left _ hq) id
  · cases hs
    refine h.cell rfl rfl (by simp) (fun hb => ?_) (fun _ ho => .inl ho) id
    rw [hw] at hb
    exact hb.elim
  · cases hs
    refine h.cell rfl rfl (by simp) (fun hb => ?_) (fun _ ho => .inl ho) id
    rw [hw] at hb
    exact hb.elim
  · cases hs
  · cases hs

theorem outstanding_of_record (hq : s'.queue = s.queue) (hr : s'.dispatcher.record = s.dispatcher.record)
    (t : ThreadPtr) (h : s.Outstanding t) : s'.Outstanding t := by
  unfold World.Outstanding
  rwa [hq, hr]

/-- A step on the thread under dispatch that changes neither its worker nor
what was dispatched. -/
theorem Sent.touch {c : Cell} (h : Sent s) (hm : s'.manager = s.manager)
    (hcells : s'.cells = Function.update s.cells t c) (hw : c.worker = (s.cells t).worker)
    (he : c.exitFinalizationStarted = (s.cells t).exitFinalizationStarted)
    (hd : c.dispatched = (s.cells t).dispatched) (hq : s'.queue = s.queue)
    (hr : s'.dispatcher.record = s.dispatcher.record) : Sent s' := by
  refine h.cell (by rw [hm]) hcells ?_ (fun hb => .inl (by rwa [hw]))
    (fun u hu => .inl (outstanding_of_record hq hr u hu)) fun hdone => hd.trans hdone
  rw [hw, he]
  exact h.started t

theorem Cell.exchangeClaim_exit (c : Cell) (claim : CleanupClaim) :
    (c.exchangeClaim claim).exitFinalizationStarted = c.exitFinalizationStarted := by
  unfold Cell.exchangeClaim
  split <;> rfl

theorem Cell.deleteTask_exit (c : Cell) : c.deleteTask.exitFinalizationStarted = c.exitFinalizationStarted := by
  unfold Cell.deleteTask
  split <;> rfl

theorem Cell.deleteTask_started {c : Cell}
    (h : c.worker = .loop ∨ c.worker = .beginExit → c.exitFinalizationStarted = false) :
    c.deleteTask.worker = .loop ∨ c.deleteTask.worker = .beginExit → c.deleteTask.exitFinalizationStarted = false := by
  rw [Cell.deleteTask_exit]
  rcases c.deleteTask_worker with hw | hw
  · rwa [hw]
  · simp [hw]

theorem Sent.dispatcher (h : Sent s) (hs : stepDispatcher s = some s') : Sent s' := by
  simp only [stepDispatcher] at hs
  split at hs <;> rename_i hd
  · split at hs <;> cases hs
    rename_i t queue hq
    refine h.cells rfl rfl fun u hu => ?_
    rcases hu with hu | hu
    · rw [hq, List.mem_cons] at hu
      rcases hu with rfl | hu
      · exact .inr rfl
      · exact .inl hu
    · rw [hd] at hu
      cases hu
  · cases hs
    exact h.cells rfl rfl (outstanding_of_record rfl (by rw [hd]; rfl))
  · -- deleteTask
    rename_i t
    cases hs
    refine h.cell rfl rfl (Cell.deleteTask_started (h.started t)) (fun _ => .inr (.inr rfl))
      (fun u hu => .inl ?_) fun hdone => ?_
    · exact hu.imp id fun hu => by rw [hd] at hu; exact hu
    · rwa [Cell.deleteTask_dispatched]
  · split at hs <;> cases hs <;> exact h.cells rfl rfl (outstanding_of_record rfl (by rw [hd]; rfl))
  · rename_i t cb pc
    have hrec : s.dispatcher.record = some t := by rw [hd]; rfl
    simp only [stepShutdown] at hs
    split at hs
    · cases hs
      exact h.touch rfl rfl (by simp) (Cell.exchangeClaim_exit _ _) (by simp) rfl hrec.symm
    · cases hs; exact h.touch rfl rfl rfl rfl rfl rfl hrec.symm
    · cases hs
      exact h.touch rfl rfl (by simp) (Cell.exchangeClaim_exit _ _) (by simp) rfl hrec.symm
    · split at hs <;> cases hs
      exact h.cells rfl rfl (outstanding_of_record rfl hrec.symm)
    · split at hs <;> cases hs
      exact h.cells rfl rfl (outstanding_of_record rfl hrec.symm)
    · cases hs
      split <;> exact h.cells rfl rfl (outstanding_of_record rfl hrec.symm)
    · split at hs <;> cases hs
      exact h.cells rfl rfl (outstanding_of_record rfl hrec.symm)
  · cases hs; exact h.touch rfl rfl rfl rfl rfl rfl (by rw [hd]; rfl)
  · -- clearPending
    rename_i t
    cases hs
    refine h.cell rfl rfl (h.started t) (fun hb => .inl hb) (fun u hu => ?_) fun _ => rfl
    rcases hu with hu | hu
    · exact .inl (.inl hu)
    · rw [hd] at hu
      cases hu
      right
      simp [World.setCell]
  · split at hs <;> cases hs
    exact h.cells rfl rfl (outstanding_of_record rfl (by rw [hd]; rfl))
  · cases hs; exact h.cells rfl rfl (outstanding_of_record rfl (by rw [hd]; rfl))
  · cases hs
  · cases hs

/-- An operation ends a worker only when it deletes the thread. -/
theorem stepOperation_worker (hs : stepOperation coreCount s i answer = some s') (t : ThreadPtr) :
    ((s'.cells t).worker = (s.cells t).worker ∨ ((s.manager.ops i).Deleting t ∧ (s'.cells t).worker = .deleted)) ∧
      (s'.cells t).exitFinalizationStarted = (s.cells t).exitFinalizationStarted := by
  have hmanager : ∀ {s₁ : World} {given : Answer}, stepManager coreCount s₁ i given = some s' →
      s'.cells = s₁.cells := by
    intro s₁ given hs
    obtain ⟨m, rfl⟩ := stepManager_frame hs
    rfl
  have hsame : s'.cells = s.cells → ((s'.cells t).worker = (s.cells t).worker ∨
      ((s.manager.ops i).Deleting t ∧ (s'.cells t).worker = .deleted)) ∧
      (s'.cells t).exitFinalizationStarted = (s.cells t).exitFinalizationStarted := by
    intro hc
    rw [hc]
    exact ⟨.inl rfl, rfl⟩
  have hfail : ∀ {o : OpCell} {given : Answer}, stepManager coreCount (s.setOp i o) i given = some s' →
      ((s'.cells t).worker = (s.cells t).worker ∨ ((s.manager.ops i).Deleting t ∧ (s'.cells t).worker = .deleted)) ∧
      (s'.cells t).exitFinalizationStarted = (s.cells t).exitFinalizationStarted :=
    fun hs => hsame ((hmanager hs).trans rfl)
  have hcell : ∀ {u : ThreadPtr} {c : Cell}, s'.cells = Function.update s.cells u c →
      (c.worker = (s.cells u).worker ∨ ((s.manager.ops i).Deleting u ∧ c.worker = .deleted)) →
      c.exitFinalizationStarted = (s.cells u).exitFinalizationStarted →
      ((s'.cells t).worker = (s.cells t).worker ∨
        ((s.manager.ops i).Deleting t ∧ (s'.cells t).worker = .deleted)) ∧
      (s'.cells t).exitFinalizationStarted = (s.cells t).exitFinalizationStarted := by
    intro u c hc hw he
    rw [hc, Function.update_apply]
    split
    · rename_i htu
      rw [htu]
      exact ⟨hw, he⟩
    · exact ⟨.inl rfl, rfl⟩
  unfold stepOperation at hs
  split at hs
  · exact hsame (hmanager hs)
  · simp only [stepClaim] at hs
    split at hs
    · split at hs
      · cases hs; exact hsame rfl
      · exact hfail hs
    · split at hs
      · cases hs; exact hsame rfl
      · exact hfail hs
    · split at hs
      · exact hcell (hmanager hs) (.inl (by simp)) (Cell.exchangeClaim_exit _ _)
      · exact hfail hs
  · rename_i c rest r hpc
    have hdel : (s.manager.ops i).Deleting c.thread := by rw [hpc]; rfl
    simp only [stepDestroy] at hs
    split at hs
    · cases hs; exact hcell rfl (.inl rfl) rfl
    · cases hs; exact hcell rfl (.inl (by simp)) (Cell.exchangeClaim_exit _ _)
    · cases hs; exact hsame rfl
    · split at hs <;> cases hs
      exact hsame rfl
    · cases hs; exact hsame rfl
    · refine hcell (hmanager hs) ?_ (Cell.deleteTask_exit _)
      exact (Cell.deleteTask_worker _).imp id fun hw => ⟨hdel, hw⟩
  · exact hsame (hmanager hs)

/-- A step of an operation: it deletes no registered thread, and what it
registers has a worker in its loop. -/
theorem Sent.op (h : Sent s) (hs : stepOperation coreCount s i answer = some s')
    (hclaims : ∀ t, (s.manager.ops i).Deleting t →
      (s.cells t).worker ≠ .loop ∧ t ∉ s.manager.registry.pointers)
    (hr : ∀ t ∈ s'.manager.registry.pointers, t ∈ s.manager.registry.pointers ∨ (s.cells t).worker = .loop) :
    Sent s' := by
  have hf := stepOperation_frame hs
  have hworker := stepOperation_worker hs
  refine h.frame (fun t ht => ?_) (fun t ht => ?_) (fun t ht hb => ?_)
    (fun t ho => .inl (outstanding_of_record hf.queue (by rw [hf.dispatcher]) t ho))
    (fun t hd => (hf.dispatched t).trans hd)
  · rcases hr t ht with hold | hloop
    · exact .inl hold
    · right
      rcases (hworker t).1 with hw | ⟨hdel, -⟩
      · rw [hw, hloop]
        trivial
      · exact absurd hloop (hclaims t hdel).1
  · rw [(hworker t).2]
    rcases (hworker t).1 with hw | ⟨-, hw⟩
    · rw [hw] at ht
      exact h.started t ht
    · rw [hw] at ht
      simp at ht
  · rcases (hworker t).1 with hw | ⟨hdel, -⟩
    · rwa [hw]
    · rcases hr t ht with hold | hloop
      · exact absurd hold (hclaims t hdel).2
      · exact absurd hloop (hclaims t hdel).1

/-! ## Runs -/

/-- What holds between the steps of a run. -/
structure Kept (s : World) : Prop where
  tended : Tended s
  records : Records s
  sent : Sent s
  sound : Sound s.manager
  guarded : (abs s.manager).Inv
  quiet : s.manager.activeIterations = 0 → s.manager.cleanupPending = false

/-- A step of which the manager knows nothing. -/
theorem Kept.frame (h : Kept s) (hm : s'.manager = s.manager) (ht : Tended s') (hr : Records s') (hsent : Sent s') :
    Kept s' := by
  refine ⟨ht, hr, hsent, ?_, ?_, ?_⟩
  · rw [hm]; exact h.sound
  · rw [hm]; exact h.guarded
  · rw [hm]; exact h.quiet

theorem Kept.terminate (h : Kept s) (hs : stepTerminate s t = some s') : Kept s' := by
  have hq := stepTerminate_quiet hs
  have hages := stepTerminate_ages hs
  simp only [stepTerminate] at hs
  split at hs <;> cases hs
  refine h.frame rfl (h.tended.quiet h.records hq hages (fun u hu => ?_) fun _ => id)
    (h.records.frame hq.queue hq.record hq.later hq.dispatched) ?_
  · refine automatic_setCell (t := t) rfl ?_ u hu
    exact id
  · exact h.sent.cell rfl rfl (h.sent.started t) (fun hb => .inl hb) (fun _ ho => .inl ho) id

/-- No thread with a dispatch done is still before its `Terminated`. -/
theorem Kept.past (h : Kept s) (hd : (s.cells t).dispatched = true) : (s.cells t).worker ≠ .storeTerminated := by
  intro hw
  rw [h.records.before t (by rw [hw]; trivial)] at hd
  cases hd

theorem Kept.worker (h : Kept s) (hs : stepWorker capacity s t = some s') : Kept s' := by
  have hages := stepWorker_ages hs
  have hauto := stepWorker_automatic hs
  have hsent := h.sent.worker hs
  have hd := (stepWorker_cell hs).1
  rcases stepWorker_cases hs with hq | ⟨hw, -, rfl⟩
  · refine h.frame hq.manager (h.tended.quiet h.records hq hages hauto fun u hu => hd.trans hu) ?_ hsent
    exact h.records.frame hq.queue hq.record hq.later hq.dispatched
  · refine h.frame rfl ?_ (h.records.send (by rw [hw]; trivial) id rfl) hsent
    refine h.tended.frame rfl hages hauto (fun _ => id) (fun u hdone _ => .inl ?_) h.tended.exchanging h.tended.idle
    have hdone : (s.cells u).dispatched = true := by
      by_cases hu : u = t
      · subst hu
        simpa [World.setCell] using hdone
      · simpa [World.setCell, hu] using hdone
    exact ⟨hdone, h.past hdone⟩

theorem Kept.dispatcher (h : Kept s) (hs : stepDispatcher s = some s') : Kept s' := by
  have htended := h.tended.dispatcher h.records hs
  have hsent := h.sent.dispatcher hs
  rcases stepDispatcher_cases hs with hq | ⟨t, queue, hq, rfl⟩ | ⟨t, hd, rfl⟩
  · exact h.frame hq.manager htended (h.records.frame hq.queue hq.record hq.later hq.dispatched) hsent
  · exact h.frame rfl htended (h.records.receive hq) hsent
  · exact h.frame rfl htended (h.records.dispatch hd) hsent

theorem Kept.callback {choice : CallbackChoice} (h : Kept s) (hs : stepCallback s choice = some s') : Kept s' := by
  have hq := stepCallback_quiet hs
  have hcells : s'.cells = s.cells := by
    simp only [stepCallback] at hs
    split at hs <;> cases hs <;> rfl
  have hbusy : ∀ u, s.dispatcher ≠ .callCleanUp u := by
    intro u hu
    simp only [stepCallback, hu] at hs
    cases hs
  refine h.frame hq.manager ?_ (h.records.frame hq.queue hq.record hq.later hq.dispatched) ?_
  · refine h.tended.quiet h.records hq (ages_of_cells hcells) (fun u hu => ?_) fun u hu => absurd hu (hbusy u)
    rwa [hcells] at hu
  · exact h.sent.cells (by rw [hq.manager]) hcells (outstanding_of_record hq.queue hq.record)

/-- A call adds a pass, and takes none back. -/
theorem owes_call {request : Request} {m m' : Manager.Machine}
    (hm : Manager.step coreCount m (.call i request) = some m') (h : m.Owes t) : m'.Owes t := by
  obtain ⟨hidle, rfl, -⟩ := claimStep_call hm
  have hother : ∀ {j}, m.ops j ≠ .idle → (m.goto i request.entry).ops j = m.ops j := by
    intro j hj
    have hji : j ≠ i := by
      rintro rfl
      exact hj hidle
    simp [Machine.goto, hji]
  rcases h with hp | ⟨j, hj⟩ | ⟨j, record, hr, hrt⟩
  · exact .inl hp
  · refine .inr (.inl ⟨j, ?_⟩)
    rwa [hother fun he => by rw [he] at hj; exact hj]
  · refine .inr (.inr ⟨j, record, ?_, hrt⟩)
    rwa [hother fun he => by rw [he] at hr; cases hr]

/-- A manager operation is called, by the dispatcher task or by another. -/
theorem Kept.call {request : Request} {m : Manager.Machine} (h : Kept s)
    (hm : Manager.step coreCount s.manager (.call i request) = some m) (hs : s'.manager = m)
    (hcells : s'.cells = s.cells) (hqueue : s'.queue = s.queue)
    (hrecord : s'.dispatcher.record = s.dispatcher.record) (hops : ∀ j, j ≠ i → s'.ops j = s.ops j)
    (hi : (s'.ops i).claim = .loadFree)
    (hd : ∀ u, s.dispatcher = .callCleanUp u → s'.dispatcher = .callCleanUp u ∨ (m.ops i).Starts) : Kept s' := by
  have hlater : s.Later s' := by
    intro u
    rw [hcells]
    exact .refl _
  have hrefines := refines_step h.sound (a := .call i request) trivial hm
  obtain ⟨-, hgoto, -⟩ := claimStep_call hm
  refine ⟨h.tended.call hm hs hcells hops hi ?_, h.records.frame hqueue hrecord hlater fun u => by rw [hcells],
    h.sent.cells (by rw [hs, hgoto]; rfl) hcells (outstanding_of_record hqueue hrecord), ?_, ?_, ?_⟩
  · intro t ho
    rcases ho with ⟨u, hu⟩ | ho
    · rcases hd u hu with hu | hstarts
      · exact .inl ⟨u, hu⟩
      · exact .inr (.inr (.inl ⟨i, by rwa [hs]⟩))
    · exact .inr (by rw [hs]; exact owes_call hm ho)
  · rw [hs]; exact hrefines.sound
  · rw [hs]; exact h.guarded.steps hrefines.steps
  · rw [hs, hgoto]; exact h.quiet

/-- A deleted thread is out of the registry, and its worker out of its loop. -/
theorem Kept.deleting (h : Kept s) (hd : (s.manager.ops i).Deleting t) :
    (s.cells t).worker ≠ .loop ∧ t ∉ s.manager.registry.pointers := by
  refine ⟨h.tended.claims i t hd.mem_claims, fun ht => ?_⟩
  have hcondemned : t ∈ s.manager.condemned := by
    have hsound := h.sound.ops i
    have hsub := (h.guarded.fits i).unlinked_condemned
    unfold Pc.Deleting at hd
    split at hd
    · rename_i c rest r hpc
      rw [hpc] at hsound
      have hremoved : c.removed = true := hsound
      rw [abs_role _ hpc] at hsub
      refine hsub ?_
      show t ∈ doomed (c :: rest)
      simp [doomed, hremoved, hd]
    · exact hd.elim
  exact h.guarded.shared_live t ht hcondemned

theorem Kept.op (h : Kept s) (hc : KeepsOn s (.op i answer)) (hs : stepOperation coreCount s i answer = some s') :
    Kept s' := by
  have hf := stepOperation_frame hs
  have hages := stepOperation_ages hs
  have hrecords := h.records.frame hf.queue (by rw [hf.dispatcher]) hf.later hf.dispatched
  have hdispatched : ∀ t, (s'.cells t).dispatched = true → (s.cells t).dispatched = true :=
    fun t hd => (hf.dispatched t).symm.trans hd
  have hmove := opMove_stepOperation (h.tended.idle i) hs
  cases hmove with
  | inside hin =>
    refine h.frame hin.manager ?_ hrecords (h.sent.op hs (fun t => h.deleting) fun t ht => .inl ?_)
    · refine h.tended.frame hin.manager hages hin.automatic (fun u hu => hf.dispatcher.trans hu)
        (fun t hd _ => .inl ⟨hdispatched t hd, h.past (hdispatched t hd)⟩) (fun j t ht he => ?_) fun j hj => ?_
      · by_cases hji : j = i
        · subst hji
          exact h.tended.exited t (hin.exchanging t ht he)
        · rw [hin.others j hji] at he
          exact h.tended.exchanging j t ht he
      · by_cases hji : j = i
        · subst hji
          exact hin.idle hj
        · rw [hin.others j hji] at hj
          exact h.tended.idle j hj
    · rwa [hin.manager] at ht
  | moved given hthrows hplain hmoved =>
    -- The answers of threads are no exceptions, so what `KeepsOn` says of the environment holds of them too.
    have hans : ∀ caller p, s.manager.ops i = .cleanUp caller p → given ≠ .throws := by
      intro caller p hpc hg
      simp only [KeepsOn, hpc] at hc
      exact hc ((hthrows hg).symm.trans hg)
    have hadds : ∀ t assigned requested, s.manager.ops i = .addThread t assigned (.insert requested) →
        given ≠ .throws → t ∉ s.manager.registry.pointers →
        (s.cells t).worker = .loop ∧ ∀ j, ∀ key ∈ (s.manager.ops j).keys, key.2 ≠ t := by
      intro t assigned requested hpc hg ht
      have hsame := hplain (by simp [hpc])
      simp only [KeepsOn, hpc] at hc
      exact hc (hsame ▸ hg) ht
    have hlive : RegistersLive s.manager (.step i given) := by
      unfold RegistersLive
      dsimp only
      split
      · rename_i t assigned requested hpc
        intro hg hcondemned
        by_cases ht : t ∈ s.manager.registry.pointers
        · exact h.guarded.shared_live t ht hcondemned
        · exact h.tended.condemned t hcondemned (hadds t assigned requested hpc hg ht).1
      · trivial
    have hdebt := debtStep_step h.sound hans hmoved.step
    have hrefines := refines_step h.sound hlive hmoved.step
    refine ⟨?_, hrecords, ?_, hrefines.sound, h.guarded.steps hrefines.steps,
      (deferralStep hmoved.step).quiet h.quiet⟩
    · exact h.tended.moved h.records h.sound.wellFormed hmoved hdebt hages hf.dispatcher hf.dispatched hadds
    · refine h.sent.op hs (fun t => h.deleting) fun t ht => ?_
      obtain ⟨record, hr, hrt⟩ := List.mem_map.1 ht
      rcases hdebt.registry record hr with hr | ⟨hno, hg, assigned, requested, hpc⟩
      · exact .inl (List.mem_map.2 ⟨record, hr, hrt⟩)
      · rw [hrt] at hno hpc
        exact .inr (hadds t assigned requested hpc hg hno).1

theorem Kept.step {a : Action} (h : Kept s) (hc : KeepsOn s a) (hs : step capacity coreCount s a = some s') :
    Kept s' := by
  cases a with
  | terminate t => exact h.terminate hs
  | worker t => exact h.worker hs
  | dispatcher => exact h.dispatcher hs
  | callback choice => exact h.callback hs
  | dispatcherCleanUp i =>
    simp only [Termination.step] at hs
    split at hs
    · rename_i hd
      obtain ⟨m, hm, rfl⟩ := Option.map_eq_some_iff.1 hs
      obtain ⟨-, hgoto, -⟩ := claimStep_call hm
      refine h.call hm rfl rfl rfl (by rw [hd]; rfl) (fun j hj => by simp [World.setOp, hj])
        (by simp [World.setOp, freshOp]) fun u _ => .inr ?_
      rw [hgoto]
      simp [Machine.goto, Request.entry, PassPc.Starts]
    · cases hs
  | call i request =>
    obtain ⟨m, hm, rfl⟩ := Option.map_eq_some_iff.1 hs
    exact h.call hm rfl rfl rfl rfl (fun j hj => by simp [World.setOp, hj]) (by simp [World.setOp, freshOp])
      fun u hu => .inl hu
  | op i answer => exact h.op hc hs

/-- No operation is under way, and no worker of a registered thread is in the
middle of its exit: before it sends, or with the mutex of the dispatcher. -/
structure World.AtRest (s : World) : Prop where
  queue : s.queue = []
  dispatcher : s.dispatcher = .receive
  ops : ∀ i, s.manager.ops i = .idle ∨ ∃ outcome, s.manager.ops i = .returned outcome
  workers : ∀ t ∈ s.manager.registry.pointers,
    (s.cells t).worker = .loop ∨ (s.cells t).worker = .suspended ∨ (s.cells t).worker = .deleted

/-- Two operations that register nothing, of which no call throws. -/
def TwoOps (s : World) : Action → Prop
  | .call i _ | .dispatcherCleanUp i => i < 2
  | .op i answer => i < 2 ∧ answer ≠ .throws ∧ (s.manager.ops i).adds = none
  | _ => True

instance (s : World) : (a : Action) → Decidable (TwoOps s a)
  | .call i _ | .dispatcherCleanUp i => inferInstanceAs (Decidable (i < 2))
  | .op _ _ => inferInstanceAs (Decidable (_ ∧ _ ∧ _))
  | .terminate _ | .worker _ | .dispatcher | .callback _ => inferInstanceAs (Decidable True)

/-- The other operations stay idle. -/
theorem TwoOps.others {a : Action} (h : TwoOps s a) (hk : Kept s) (hs : step capacity coreCount s a = some s') {j : OpId}
    (hj : 2 ≤ j) : s'.manager.ops j = s.manager.ops j := by
  have hcall : ∀ {i : OpId} {request : Request} {m : Manager.Machine}, i < 2 →
      Manager.step coreCount s.manager (.call i request) = some m → m.ops j = s.manager.ops j := by
    intro i request m hi hm
    obtain ⟨-, rfl, -⟩ := claimStep_call hm
    have hji : j ≠ i := (Nat.lt_of_lt_of_le hi hj).ne'
    simp [Machine.goto, hji]
  cases a with
  | terminate t => rw [(stepTerminate_quiet hs).manager]
  | worker t =>
    rcases stepWorker_cases hs with hq | ⟨-, -, rfl⟩
    · rw [hq.manager]
    · rfl
  | dispatcher =>
    rcases stepDispatcher_cases hs with hq | ⟨t, queue, -, rfl⟩ | ⟨t, -, rfl⟩
    · rw [hq.manager]
    · rfl
    · rfl
  | callback choice => rw [(stepCallback_quiet hs).manager]
  | dispatcherCleanUp i =>
    simp only [Termination.step] at hs
    split at hs
    · obtain ⟨m, hm, rfl⟩ := Option.map_eq_some_iff.1 hs
      exact hcall h hm
    · cases hs
  | call i request =>
    obtain ⟨m, hm, rfl⟩ := Option.map_eq_some_iff.1 hs
    exact hcall h hm
  | op i answer =>
    have hji : j ≠ i := (Nat.lt_of_lt_of_le h.1 hj).ne'
    cases opMove_stepOperation (hk.tended.idle i) hs with
    | inside hin => rw [hin.manager]
    | moved given _ _ hmoved => exact (claimStep_step hmoved.step).others j hji

end ESPressio.Termination
