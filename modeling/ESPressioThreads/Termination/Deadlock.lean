import ESPressioThreads.Termination.Deletion
/-!
# The dispatcher and the full queue

`Dispatch` holds `_initializationMutex` while it waits for a free slot, and the
dispatcher takes that mutex in `IsCurrentTask`: in `Shutdown` from a callback,
and in the destructor of a thread whose dispatch is pending. The two block each
other when the queue is full, and only then.
-/

namespace ESPressio.Termination

open Transition ESPressio.Thread ESPressio.Manager

variable {s s' : World} {t : ThreadPtr} {i : OpId} {capacity coreCount : Nat} {answer : Answer}

/-- The dispatcher task is about to take `_initializationMutex`. -/
def World.DispatcherLocks (s : World) : Prop :=
  (∃ t cb, s.dispatcher = .shutdown t cb .isCurrentTask) ∨
  ∃ t i, s.dispatcher = .cleaning t i ∧ (s.ops i).destroy = .isCurrentTask

/-- The dispatcher task waits for the mutex, whose holder waits in `Send` for
the dispatcher to receive. -/
def World.Deadlocked (capacity : Nat) (s : World) : Prop :=
  s.DispatcherLocks ∧ ∃ t, s.initializationMutex = some (.worker t) ∧ (s.cells t).worker = .send ∧
    capacity ≤ s.queue.length

/-- A `Dispatch` caller takes the mutex while the queue has a free slot. -/
def LocksWithRoom (capacity : Nat) (s : World) : Action → Prop
  | .worker t => (s.cells t).worker = .lockQueue → s.queue.length < capacity
  | _ => True

/-- The phases of a worker that hold the mutex. -/
def WorkerPc.Holds : WorkerPc → Prop
  | .send | .unlockQueue => True
  | _ => False

/-- Who holds the mutex, and that a sender has room. -/
structure Room (capacity : Nat) (s : World) : Prop where
  holder : ∀ t, (s.cells t).worker.Holds → s.initializationMutex = some (.worker t)
  room : ∀ t, s.initializationMutex = some (.worker t) → (s.cells t).worker = .send → s.queue.length < capacity

/-- A step that lets no worker into the mutex and queues nothing. -/
theorem Room.frame (h : Room capacity s) (hq : s'.queue.length ≤ s.queue.length)
    (hm : s'.initializationMutex = s.initializationMutex)
    (hw : ∀ t, (s'.cells t).worker.Holds → (s'.cells t).worker = (s.cells t).worker) : Room capacity s' where
  holder t ht := by
    rw [hm]
    refine h.holder t ?_
    rwa [← hw t ht]
  room t ht hsend := by
    rw [hm] at ht
    refine Nat.lt_of_le_of_lt hq (h.room t ht ?_)
    rw [← hw t (by rw [hsend]; trivial), hsend]

/-- The worker of `t` moves on, outside the mutex. -/
theorem Room.move {c : Cell} (h : Room capacity s) (hq : s'.queue = s.queue)
    (hm : s'.initializationMutex = s.initializationMutex) (hs : s'.cells = Function.update s.cells t c)
    (hc : c.worker.Holds → c.worker = (s.cells t).worker) : Room capacity s' := by
  refine h.frame (Nat.le_of_eq (by rw [hq])) hm fun u => ?_
  rw [hs, Function.update_apply]
  split
  · rename_i hu; rw [hu]; exact hc
  · exact fun _ => rfl

theorem Room.of_cells (h : Room capacity s) (hq : s'.queue = s.queue)
    (hm : s'.initializationMutex = s.initializationMutex) (hs : s'.cells = s.cells) : Room capacity s' :=
  h.frame (Nat.le_of_eq (by rw [hq])) hm fun u _ => by rw [hs]

theorem room_stepWorker (h : Room capacity s) (hc : LocksWithRoom capacity s (.worker t))
    (hs : stepWorker capacity s t = some s') : Room capacity s' := by
  simp only [stepWorker] at hs
  split at hs <;> rename_i hw
  · split at hs <;> cases hs
    · exact h.move rfl rfl rfl False.elim
    · exact h.move rfl rfl rfl False.elim
    · exact h.move rfl rfl rfl False.elim
    · exact h
    · exact h
    · exact h
    · exact h
  · split at hs <;> cases hs <;> exact h.move rfl rfl rfl False.elim
  · split at hs <;> cases hs <;> exact h.move rfl rfl rfl False.elim
  · cases hs; exact h.move rfl rfl rfl False.elim
  · cases hs; exact h.move rfl rfl rfl False.elim
  · split at hs <;> cases hs
    exact h.move rfl rfl rfl False.elim
  · -- lockQueue: nobody else holds the mutex, and the queue has room.
    split at hs <;> cases hs
    rename_i hfree
    refine ⟨fun u hu => ?_, fun u hu _ => hc hw⟩
    by_cases hut : u = t
    · rw [hut]; rfl
    · have : (s.cells u).worker.Holds := by simpa [World.setCell, hut] using hu
      have := h.holder u this
      rw [hfree] at this
      cases this
  · -- send: the sender is the holder, and leaves `send`.
    split at hs <;> cases hs
    have hheld := h.holder t (by rw [hw]; trivial)
    refine ⟨fun u hu => ?_, fun u hu hsend => ?_⟩
    · by_cases hut : u = t
      · rw [hut]; exact hheld
      · exact h.holder u (by simpa [World.setCell, hut] using hu)
    · have hut : u = t := by
        have : s.initializationMutex = some (.worker u) := hu
        rw [hheld] at this
        cases this; rfl
      simp [World.setCell, hut] at hsend
  · -- unlockQueue
    cases hs
    have hheld := h.holder t (by rw [hw]; trivial)
    refine ⟨fun u hu => ?_, fun u hu => by cases hu⟩
    by_cases hut : u = t
    · simp [World.setCell, hut, WorkerPc.Holds] at hu
    · have := h.holder u (by simpa [World.setCell, hut] using hu)
      rw [hheld] at this
      cases this
      exact absurd rfl hut
  · cases hs; exact h.move rfl rfl rfl False.elim
  · cases hs
  · cases hs

theorem room_stepDispatcher (h : Room capacity s) (hs : stepDispatcher s = some s') : Room capacity s' := by
  simp only [stepDispatcher] at hs
  split at hs
  · split at hs <;> cases hs
    rename_i hq
    refine h.frame ?_ rfl fun _ _ => rfl
    rw [hq]
    exact Nat.le_succ _
  · cases hs; exact h.of_cells rfl rfl rfl
  · cases hs
    refine h.move rfl rfl rfl fun hh => ?_
    rcases Cell.deleteTask_worker (s.cells _) with hw | hw
    · exact hw
    · rw [hw] at hh; exact hh.elim
  · split at hs <;> cases hs <;> exact h.of_cells rfl rfl rfl
  · rename_i t cb pc hd
    simp only [stepShutdown] at hs
    split at hs
    · cases hs; exact h.move rfl rfl rfl fun _ => Cell.exchangeClaim_worker _ _
    · cases hs; exact h.move rfl rfl rfl fun _ => rfl
    · cases hs; exact h.move rfl rfl rfl fun _ => Cell.exchangeClaim_worker _ _
    · split at hs <;> cases hs
      exact h.of_cells rfl rfl rfl
    · split at hs <;> cases hs
      exact h.of_cells rfl rfl rfl
    · cases hs
      split <;> exact h.of_cells rfl rfl rfl
    · split at hs <;> cases hs
      exact h.of_cells rfl rfl rfl
  · cases hs; exact h.move rfl rfl rfl fun _ => rfl
  · cases hs; exact h.move rfl rfl rfl fun _ => rfl
  · split at hs <;> cases hs
    exact h.of_cells rfl rfl rfl
  · cases hs; exact h.of_cells rfl rfl rfl
  · cases hs
  · cases hs

theorem Room.step {a : Action} (h : Room capacity s) (hc : LocksWithRoom capacity s a)
    (hs : step capacity coreCount s a = some s') : Room capacity s' := by
  cases a with
  | terminate t =>
    simp only [Termination.step, stepTerminate] at hs
    split at hs <;> cases hs
    exact h.move rfl rfl rfl fun _ => rfl
  | worker t => exact room_stepWorker h hc hs
  | dispatcher => exact room_stepDispatcher h hs
  | callback choice =>
    simp only [Termination.step, stepCallback] at hs
    split at hs <;> cases hs <;> exact h.of_cells rfl rfl rfl
  | dispatcherCleanUp i =>
    simp only [Termination.step] at hs
    split at hs
    · obtain ⟨m, -, rfl⟩ := Option.map_eq_some_iff.1 hs
      exact h.of_cells rfl rfl rfl
    · cases hs
  | call i request =>
    obtain ⟨m, -, rfl⟩ := Option.map_eq_some_iff.1 hs
    exact h.of_cells rfl rfl rfl
  | op i answer =>
    have hf := stepOperation_frame hs
    refine h.frame (Nat.le_of_eq (by rw [hf.queue])) hf.mutex fun t ht => ?_
    rcases hf.worker t with hw | hw
    · exact hw
    · rw [hw] at ht; exact ht.elim

theorem room_start {registry : Registry} {cells : ThreadPtr → Cell}
    (hc : ∀ t, ∃ state free, state ≠ .terminated ∧ cells t = Cell.live state free) :
    Room capacity (.start registry cells) := by
  refine ⟨fun t ht => ?_, fun t ht => nomatch ht⟩
  obtain ⟨state, free, -, hl⟩ := hc t
  have : (cells t).worker.Holds := ht
  rw [hl] at this
  exact this.elim

/-- The dispatcher never waits for a sender on a full queue, while every
sender takes the mutex with a free slot. -/
theorem dispatcher_not_deadlocked (capacity coreCount : Nat) (s : World)
    (h : (system capacity coreCount).ReachableWhen (LocksWithRoom capacity) s) : ¬ s.Deadlocked capacity := by
  have hroom : Room capacity s := by
    refine h.invariant (I := Room capacity) (fun s hs => ?_) fun s a s' hi hc hs => hi.step hc hs
    obtain ⟨registry, cells, -, hc, rfl⟩ := hs
    exact room_start hc
  rintro ⟨-, t, hheld, hsend, hfull⟩
  exact Nat.not_lt.2 hfull (hroom.room t hheld hsend)

/-! ## More exits than slots -/

instance (s : World) : ∀ a, Decidable (LocksWithRoom capacity s a)
  | .worker _ => inferInstanceAs (Decidable (_ → _))
  | .terminate _ | .dispatcher | .callback _ | .dispatcherCleanUp _ | .call _ _ | .op _ _ =>
    inferInstanceAs (Decidable True)

/-- The dispatcher runs the callback of the first record, which calls
`Shutdown`, up to the mutex. -/
def shutdownInCallback : List Action :=
  List.replicate 4 .dispatcher ++ [.callback .shutdown] ++ List.replicate 6 .dispatcher

/-- With a free slot the dispatcher gets the mutex. -/
theorem callback_gets_mutex : ∃ s, (system 32 1).ReachableWhen (LocksWithRoom 32) s ∧ s.DispatcherLocks ∧
    ¬ s.Deadlocked 32 := by
  have hrun : ((system 32 1).replayWhen (LocksWithRoom 32) twoThreads (exitThread 1 ++ shutdownInCallback ++
      exitThread 2)).map (fun s => s.dispatcher) = some (.shutdown 1 .onTerminated .isCurrentTask) := by
    decide
  obtain ⟨s, hs, hd⟩ := Option.map_eq_some_iff.1 hrun
  have hr := Transition.System.reachableWhen_of_replayWhen (twoThreads_init 32 1) hs
  exact ⟨s, hr, .inl ⟨_, _, hd⟩, dispatcher_not_deadlocked 32 1 s hr⟩

/-- Thread 0's `OnTerminated` callback calls `Shutdown` while threads 1 to 32
fill the queue and thread 33 waits in `Send`. -/
theorem full_queue_deadlock : ¬ ∀ s, (system 32 1).Reachable s → ¬ s.Deadlocked 32 := by
  intro hall
  have hrun : ((system 32 1).replay twoThreads (exitThread 0 ++ shutdownInCallback ++
      (List.range' 1 32).flatMap exitThread ++ (exitThread 33).take 8)).map
      (fun s => (s.dispatcher, s.initializationMutex, (s.cells 33).worker, s.queue.length)) =
      some (.shutdown 0 .onTerminated .isCurrentTask, some (.worker 33), .send, 32) := by
    decide +kernel
  obtain ⟨s, hs, hp⟩ := Option.map_eq_some_iff.1 hrun
  simp only [Prod.mk.injEq] at hp
  obtain ⟨hd, hm, hw, hq⟩ := hp
  have hr := Transition.System.reachable_of_replay (twoThreads_init 32 1) hs
  exact hall s hr ⟨.inl ⟨_, _, hd⟩, 33, hm, hw, Nat.le_of_eq hq.symm⟩

end ESPressio.Termination
