import ESPressioThreads.Lifecycle.Rank
/-!
# The mutex of the dispatcher

`EnsureAvailable` and `IsCurrentTask` lock `_initializationMutex` for one
access. `Dispatch` locks it twice, in `EnsureAvailable` and around `Send`, which
waits for room in the queue. What a call does under the mutex is the step of the
lifecycle it is at. Tasks outside of the thread lock the mutex too, such as the
workers of other threads.

The dispatcher deletes a worker whose record it has received, and the worker may
not have unlocked by then. Nobody unlocks the mutex after that.
-/

namespace ESPressio.Lifecycle

open ESPressio.Thread

/-- What the step of a call needs the mutex for. -/
inductive Guard
  | access
  | dispatch
  deriving DecidableEq, Repr

def InitializePc.guard : InitializePc → Option Guard
  | .ensureDispatcher => some .access
  | .send _ _ => some .dispatch
  | _ => none

def Pc.guard : Pc → Option Guard
  | .initializeThread pc | .start (.initializeThread pc) => pc.guard
  | .shutdown .isCurrentTask | .cleanUp .isCurrentTask => some .access
  | .worker _ .send => some .dispatch
  | _ => none

theorem Pc.guard_of_initializePc {pc : Pc} {t : InitializePc} (h : pc.initializePc = some t) : pc.guard = t.guard := by
  cases pc with
  | initializeThread => cases h; rfl
  | start t => cases t <;> cases h; rfl
  | _ => cases h

/-- What the next step of the task needs the mutex for. -/
def World.guard (w : World) (p : TaskId) : Option Guard := (w.top p).bind fun f => f.pc.guard

/-- Where a task is with the mutex. In `checking` it is in the `EnsureAvailable`
of `Dispatch`, which has returned in `checked`; it has made its step in
`leaving`. -/
inductive MutexPhase
  | idle
  | checking
  | checked
  | inside
  | leaving
  deriving DecidableEq, Repr

def MutexPhase.holds : MutexPhase → Bool
  | .checking | .inside | .leaving => true
  | .idle | .checked => false

inductive Holder
  | task (p : TaskId)
  | other (n : Nat)
  deriving DecidableEq, Repr

/-- `stopped` are the other tasks that do nothing more, and `full` is whether
the records of other threads leave no room in the queue. -/
structure Mutex where
  holder : Option Holder
  phase : TaskId → MutexPhase
  stopped : List Nat
  full : Bool

def Mutex.free : Mutex := ⟨none, fun _ => .idle, [], false⟩

inductive MutexAction
  | lock (p : TaskId)
  | unlock (p : TaskId)
  | lockOther (n : Nat)
  | unlockOther (n : Nat)
  | stopOther (n : Nat)
  | setFull (full : Bool)
  deriving DecidableEq, Repr

/-- The phase in which the mutex is locked, and the one after it is unlocked. -/
def Guard.locked : Guard → MutexPhase → Option MutexPhase
  | .access, .idle | .dispatch, .checked => some .inside
  | .dispatch, .idle => some .checking
  | _, _ => none

def MutexPhase.unlocked : MutexPhase → Option MutexPhase
  | .checking => some .checked
  | .leaving => some .idle
  | _ => none

section
variable (w : World) (m : Mutex)

def stepMutex : MutexAction → Option Mutex
  | .lock p =>
    if w.runnable p ∧ m.holder = none then
      ((w.guard p).bind fun k => k.locked (m.phase p)).map fun phase =>
        { m with holder := some (.task p), phase := Function.update m.phase p phase }
    else none
  | .unlock p =>
    if w.runnable p then
      (m.phase p).unlocked.map fun phase => { m with holder := none, phase := Function.update m.phase p phase }
    else none
  | .lockOther n =>
    if m.holder = none ∧ n ∉ m.stopped then some { m with holder := some (.other n) } else none
  | .unlockOther n =>
    if m.holder = some (.other n) ∧ n ∉ m.stopped then some { m with holder := none } else none
  | .stopOther n => some { m with stopped := n :: m.stopped }
  | .setFull full => some { m with full := full }

/-- The mutex lets the task make its next step. -/
def Mutex.admits : Action → Bool
  | .call p _ => m.phase p = .idle
  | .step p _ =>
    match w.guard p with
    | none => m.phase p = .idle
    | some .access => m.phase p = .inside
    | some .dispatch => m.phase p = .inside && !m.full

/-- A task that has made its step under the mutex has yet to unlock. -/
def Mutex.after : Action → Mutex
  | .call _ _ => m
  | .step p _ => if m.phase p = .inside then { m with phase := Function.update m.phase p .leaving } else m

def Holder.alive : Holder → Prop
  | .task p => w.runnable p = true
  | .other n => n ∉ m.stopped

/-- Whoever holds the mutex can still unlock it. -/
def Mutex.Kept : Prop := ∀ h, m.holder = some h → h.alive w m

end

variable {w w' : World} {m m' : Mutex} {p q : TaskId} {k : Guard} {a : Action} {b : MutexAction} {f : Frame} {ok : Bool}

/-! ## Who holds the mutex -/

/-- A task that has the mutex is at a step that needs it, or has made it. -/
structure MutexInv (w : World) (m : Mutex) : Prop where
  holder : ∀ p, (m.phase p).holds = true ↔ m.holder = some (.task p)
  inside : ∀ p, m.phase p = .inside → w.guard p ≠ none
  checked : ∀ p, m.phase p = .checking ∨ m.phase p = .checked → w.guard p = some .dispatch

theorem mutexInv_free (w : World) : MutexInv w .free :=
  ⟨fun _ => ⟨by rintro ⟨⟩, by rintro ⟨⟩⟩, fun _ => (by rintro ⟨⟩), fun _ => (by rintro (⟨⟨⟩⟩ | ⟨⟨⟩⟩))⟩

/-- Another task takes or leaves the mutex: its own phase is all that changes. -/
theorem MutexInv.update {phase : MutexPhase} {holder : Option Holder} (h : MutexInv w m)
    (hp : phase.holds = true ↔ holder = some (.task p))
    (ho : ∀ q, q ≠ p → (m.holder = some (.task q) ↔ holder = some (.task q)))
    (hin : phase = .inside → w.guard p ≠ none)
    (hch : phase = .checking ∨ phase = .checked → w.guard p = some .dispatch) :
    MutexInv w { m with holder := holder, phase := Function.update m.phase p phase } := by
  refine ⟨fun q => ?_, fun q hq => ?_, fun q hq => ?_⟩
  · by_cases hqp : q = p
    · subst hqp
      simpa using hp
    · simpa [hqp] using (h.holder q).trans (ho q hqp)
  · by_cases hqp : q = p
    · subst hqp
      exact hin (by simpa using hq)
    · exact h.inside q (by simpa [hqp] using hq)
  · by_cases hqp : q = p
    · subst hqp
      exact hch (by simpa using hq)
    · exact h.checked q (by simpa [hqp] using hq)

theorem Guard.locked_cases {phase phase' : MutexPhase} (h : k.locked phase = some phase') :
    phase.holds = false ∧ phase'.holds = true ∧ (phase' = .checking → k = .dispatch) ∧ phase' ≠ .checked := by
  unfold Guard.locked at h
  split at h <;> cases h <;> exact ⟨rfl, rfl, by rintro ⟨⟩ <;> rfl, by rintro ⟨⟩⟩

theorem MutexPhase.unlocked_cases {phase phase' : MutexPhase} (h : phase.unlocked = some phase') :
    phase.holds = true ∧ phase'.holds = false ∧ phase' ≠ .inside ∧ (phase' = .checked → phase = .checking) := by
  unfold MutexPhase.unlocked at h
  split at h <;> cases h <;> exact ⟨rfl, rfl, by rintro ⟨⟩, by rintro ⟨⟩ <;> rfl⟩

theorem MutexInv.mutex (h : MutexInv w m) (hs : stepMutex w m b = some m') : MutexInv w m' := by
  cases b with
  | lock p =>
    simp only [stepMutex] at hs
    split at hs
    · rename_i hg
      obtain ⟨phase, hphase, rfl⟩ := Option.map_eq_some_iff.1 hs
      obtain ⟨k, hk, hl⟩ := Option.bind_eq_some_iff.1 hphase
      obtain ⟨-, hholds, hdispatch, hne⟩ := Guard.locked_cases hl
      refine h.update (by simp [hholds]) (fun q hq => ?_) (fun _ => by simp [hk]) fun hc => ?_
      · simp [hg.2, Ne.symm hq]
      · rw [hk, hdispatch (hc.resolve_right hne)]
    · cases hs
  | unlock p =>
    simp only [stepMutex] at hs
    split at hs
    · obtain ⟨phase, hphase, rfl⟩ := Option.map_eq_some_iff.1 hs
      obtain ⟨hheld, hholds, hne, hchecked⟩ := MutexPhase.unlocked_cases hphase
      have howner := (h.holder p).1 hheld
      refine h.update (by simp [hholds]) (fun q hq => ?_) (fun hi => absurd hi hne) fun hc => ?_
      · simp [howner, Ne.symm hq]
      · rcases hc with rfl | hc
        · cases hholds
        · exact h.checked p (.inl (hchecked hc))
    · cases hs
  | lockOther n =>
    simp only [stepMutex] at hs
    split at hs <;> cases hs
    rename_i hg
    exact ⟨fun p => (h.holder p).trans (by simp [hg.1]), h.inside, h.checked⟩
  | unlockOther n =>
    simp only [stepMutex] at hs
    split at hs <;> cases hs
    rename_i hg
    exact ⟨fun p => (h.holder p).trans (by simp [hg.1]), h.inside, h.checked⟩
  | stopOther n => cases hs; exact ⟨h.holder, h.inside, h.checked⟩
  | setFull full => cases hs; exact ⟨h.holder, h.inside, h.checked⟩

/-- Other tasks are as they were, and the task itself has left the mutex or not
come to it. -/
theorem MutexInv.others (h : MutexInv w m) (hq : ∀ q, q ≠ p → w'.guard q = w.guard q)
    (hp : m.phase p = .idle ∨ m.phase p = .inside) :
    MutexInv w' (if m.phase p = .inside then { m with phase := Function.update m.phase p .leaving } else m) := by
  have hguards : ∀ q, q = p ∨ w'.guard q = w.guard q := fun q => by
    by_cases he : q = p
    · exact .inl he
    · exact .inr (hq q he)
  split
  · rename_i hin
    have hupdate : MutexInv w { m with phase := Function.update m.phase p .leaving } := h.update
      ⟨fun _ => (h.holder p).1 (by rw [hin]; rfl), fun _ => rfl⟩ (fun _ _ => Iff.rfl) (by rintro ⟨⟩)
      (by rintro (⟨⟨⟩⟩ | ⟨⟨⟩⟩))
    refine ⟨hupdate.holder, fun q hi => ?_, fun q hc => ?_⟩
    · rcases hguards q with rfl | hg
      · simp at hi
      · exact hg ▸ hupdate.inside q hi
    · rcases hguards q with rfl | hg
      · simp at hc
      · exact hg ▸ hupdate.checked q hc
  · rename_i hin
    have hidle := hp.resolve_right hin
    refine ⟨h.holder, fun q hi => ?_, fun q hc => ?_⟩
    · rcases hguards q with rfl | hg
      · exact absurd hi hin
      · exact hg ▸ h.inside q hi
    · rcases hguards q with rfl | hg
      · simp [hidle] at hc
      · exact hg ▸ h.checked q hc

theorem Mutex.admits_phase (h : m.admits w a = true) : m.phase a.task = .idle ∨ m.phase a.task = .inside := by
  cases a with
  | call p request => exact .inl (of_decide_eq_true h)
  | step p ok =>
    simp only [Mutex.admits] at h
    split at h
    · exact .inl (of_decide_eq_true h)
    · exact .inr (of_decide_eq_true h)
    · exact .inr (of_decide_eq_true (Bool.and_eq_true_iff.1 h).1)

theorem guard_others (hs : step w a = some w') (hq : q ≠ a.task) : w'.guard q = w.guard q := by
  simp only [World.guard, (calls_others hs hq).1]

theorem MutexInv.step (h : MutexInv w m) (ha : m.admits w a = true) (hs : step w a = some w') :
    MutexInv w' (m.after a) := by
  have hothers := h.others (fun q hq => guard_others hs hq) (Mutex.admits_phase ha)
  cases a with
  | call p request =>
    have hidle : m.phase p = .idle := by simpa [Mutex.admits] using ha
    rwa [if_neg (by simp [Action.task, hidle])] at hothers
  | step p ok => exact hothers

/-- Without the mutex the task is at none of the steps that need it. -/
theorem MutexInv.idle (h : MutexInv w m) (hg : w.guard p = none) (hh : m.holder ≠ some (.task p)) :
    m.phase p = .idle := by
  have hheld : (m.phase p).holds ≠ true := fun he => hh ((h.holder p).1 he)
  cases hphase : m.phase p with
  | idle => rfl
  | checked => cases hg.symm.trans (h.checked p (.inr hphase))
  | checking | inside | leaving => exact absurd (by rw [hphase]; rfl) hheld

/-- A task at a step that needs the mutex locks it when it is free. -/
theorem MutexInv.locks (h : MutexInv w m) (hk : w.guard p = some k) (hh : m.holder = none)
    (hrun : w.runnable p = true) : ∃ phase, k.locked (m.phase p) = some phase ∧
      stepMutex w m (.lock p) =
        some { m with holder := some (.task p), phase := Function.update m.phase p phase } := by
  have hheld : (m.phase p).holds ≠ true := fun he => by
    rw [(h.holder p).1 he] at hh
    cases hh
  obtain ⟨phase, hl⟩ : ∃ phase, k.locked (m.phase p) = some phase := by
    cases hphase : m.phase p with
    | idle => cases k <;> exact ⟨_, rfl⟩
    | checked =>
      cases hk.symm.trans (h.checked p (.inr hphase))
      exact ⟨_, rfl⟩
    | checking | inside | leaving => exact absurd (by rw [hphase]; rfl) hheld
  exact ⟨phase, hl, by simp [stepMutex, hrun, hh, hk, hl]⟩

/-! ## How far a task is -/

def MutexPhase.rank : MutexPhase → Nat
  | .leaving => 5
  | .idle => 4
  | .checking => 3
  | .checked => 2
  | .inside => 1

theorem Guard.locked_rank {phase phase' : MutexPhase} (h : k.locked phase = some phase') :
    phase'.rank < phase.rank := by
  unfold Guard.locked at h
  split at h <;> cases h <;> decide

theorem MutexPhase.unlocked_rank {phase phase' : MutexPhase} (h : phase.unlocked = some phase') :
    phase'.rank < phase.rank := by
  unfold MutexPhase.unlocked at h
  split at h <;> cases h <;> decide

/-- A task that takes or leaves the mutex comes nearer to its end. -/
theorem stepMutex_rank (h : stepMutex w m b = some m') (hb : b = .lock p ∨ b = .unlock p) :
    (m'.phase p).rank < (m.phase p).rank := by
  rcases hb with rfl | rfl
  · simp only [stepMutex] at h
    split at h
    · obtain ⟨phase, hphase, rfl⟩ := Option.map_eq_some_iff.1 h
      obtain ⟨k, -, hl⟩ := Option.bind_eq_some_iff.1 hphase
      simpa using Guard.locked_rank hl
    · cases h
  · simp only [stepMutex] at h
    split at h
    · obtain ⟨phase, hphase, rfl⟩ := Option.map_eq_some_iff.1 h
      simpa using MutexPhase.unlocked_rank hphase
    · cases h

theorem after_rank (m : Mutex) (a : Action) (p : TaskId) : ((m.after a).phase p).rank ≤ (m.phase p).rank + 4 := by
  cases a with
  | call => exact Nat.le_add_right ..
  | step q ok =>
    simp only [Mutex.after]
    split
    · rename_i hin
      by_cases hp : p = q
      · subst hp
        simp [hin, MutexPhase.rank]
      · simp [hp]
    · exact Nat.le_add_right ..

end ESPressio.Lifecycle
