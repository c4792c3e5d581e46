import ESPressioThreads.Lifecycle.Workers
/-!
# The callers that wait in `Shutdown`

`_taskExited` is a binary signal that the dispatcher gives once per record,
and each `Shutdown` that found a task waits for it. A waiter is stranded when
nothing is left that would give the signal: one signal is enough for one
waiter, it is given only when the exit comes to its dispatch, and the next
`Initialize` resets it.
-/

namespace ESPressio.Lifecycle

open Transition ESPressio.Thread

variable {w w' : World} {s s' : Shared} {p : TaskId} {ok : Bool} {f : Frame} {f' : Option Frame}
  {st st' : Stage} {a : TaskId × Nat}

/-! ## Waiters -/

/-- `Shutdown` on the task `p` has found a task, and waits for its exit or is
going to. -/
def ShutdownPc.waits (p : TaskId) : ShutdownPc → Bool
  | .loadInProgress (some g) | .loadInitializing (some g) => p ≠ .worker g
  | .terminate .wait _ | .waitExited => true
  | _ => false

def Pc.waits (p : TaskId) : Pc → Bool
  | .shutdown pc => pc.waits p
  | _ => false

def World.NoWaiter (w : World) : Prop := ∀ a f, w.call a = some f → f.pc.waits a.1 = false

/-- The worker of `g` is suspended, or about to be, and the queue took no record. -/
def World.SendFailed (w : World) (g : Gen) : Prop :=
  w.entry g = some (.worker g .clearPending) ∨
    (w.entry g = some (.worker g .suspended) ∧ w.shared.terminationDispatchPending = false)

/-- The queue's `Send`. -/
def Pc.sends : Pc → Bool
  | .worker _ .send | .initializeThread (.send _ _) | .start (.initializeThread (.send _ _)) => true
  | _ => false

/-- A failed `Initialize` has given up its worker, and sends the record itself. -/
def InitializePc.finalizes : InitializePc → Bool
  | .deleteTask _ _ _ | .beginFinalization _ _ | .storePending _ _ | .send _ _ => true
  | _ => false

/-- A call of `Shutdown` waits for a signal that nobody is going to give: no
record is outstanding, the workers are deleted or suspended, and no failed
`Initialize` is about to send the record of the one it has deleted. -/
structure Stranded (w : World) (a : TaskId × Nat) : Prop where
  waits : ∃ f, w.call a = some f ∧ f.pc = .shutdown .waitExited
  clear : w.shared.taskExited = false
  records : w.outstanding = 0
  workers : ∀ g, w.runnable (.worker g) = true → w.entry g = some (.worker g .suspended)
  sends : ∀ b f t, w.call b = some f → f.pc.initializePc = some t → t.finalizes = false

/-- Every signal finds at most the one waiter that needs it: a wait that
consumes it leaves no other waiter behind, a record is refused, and the signal
reset by `Initialize`, while nobody waits, and no `Shutdown` finds the task of a
worker whose record was refused. -/
def OneWaiter (w : World) : Action → Prop
  | .call _ _ => True
  | .step p ok => ChecksHold w (.step p ok) ∧ ∀ f, w.top p = some f →
      (f.pc = .shutdown .waitExited → w.shared.taskExited = true →
        ∀ a g, w.call a = some g → g.pc.waits a.1 = true → a.1 = p ∧ a.2 + 1 = w.depth p) ∧
      (f.pc.sends = true → ok = false → w.NoWaiter) ∧
      (f.pc = .shutdown .loadHandle → ∀ g, w.shared.taskHandle = some g → p ≠ .worker g → ¬ w.SendFailed g) ∧
      (f.pc.initializePc = some .resetExited → w.NoWaiter)

/-- A signal is still to come for whoever waits at this stage. -/
def Stage.awaits : Stage → Bool
  | .quiet | .checked | .exitedReset | .gateReset | .ready | .made _ | .unsent _ | .lost _ | .signalled _ => false
  | .live _ | .failing _ _ | .failed _ | .gated _ | .looping _ | .claimed _ _ | .sending _ _ | .queued _
  | .dispatching _ | .deleting _ _ | .delivering _ => true

/-! ## One step -/

theorem ShutdownPc.waits_choose {handle : Option Gen} (h : (ShutdownPc.choose p handle).waits p = true) :
    ∃ g, handle = some g ∧ p ≠ .worker g := by
  cases handle with
  | none => cases h
  | some g =>
    refine ⟨g, rfl, fun hp => ?_⟩
    rw [ShutdownPc.choose, if_pos hp] at h
    cases h

theorem ShutdownPc.waits_after {branch : ShutdownBranch} {u : TerminatePc} {threw : Bool} {t : ShutdownPc}
    (ha : branch.after threw = .goto t) (hw : t.waits p = true) : (ShutdownPc.terminate branch u).waits p = true := by
  unfold ShutdownBranch.after at ha
  split at ha
  · cases ha
  · cases branch <;> cases ha <;> first | rfl | cases hw

theorem ShutdownPc.waits_terminate {branch : ShutdownBranch} {u u' : TerminatePc}
    (h : (ShutdownPc.terminate branch u').waits p = true) : (ShutdownPc.terminate branch u).waits p = true := by
  cases branch <;> first | rfl | cases h

theorem execShutdown_waits {t t' : ShutdownPc} (h : execShutdown s p t = some (s', .goto t')) (hw : t'.waits p = true) :
    (t.waits p = true ∧ t ≠ .waitExited) ∨ (t = .loadHandle ∧ ∃ g, s.taskHandle = some g ∧ p ≠ .worker g) := by
  cases t <;> simp only [execShutdown] at h
  case loadHandle =>
    cases h
    right
    cases hh : s.taskHandle with
    | none => rw [hh] at hw; cases hw
    | some g =>
      rw [hh] at hw
      exact ⟨rfl, g, rfl, by simpa [ShutdownPc.waits] using hw⟩
  -- The handle is the one sampled at `loadHandle`.
  case loadInProgress handle =>
    cases h
    left
    refine ⟨?_, (by rintro ⟨⟩)⟩
    split at hw
    · cases handle with
      | none => cases hw
      | some g => exact hw
    · obtain ⟨g, rfl, hp⟩ := ShutdownPc.waits_choose hw
      simpa [ShutdownPc.waits] using hp
  case loadInitializing handle =>
    cases h
    left
    refine ⟨?_, (by rintro ⟨⟩)⟩
    split at hw
    · cases hw
    · obtain ⟨g, rfl, hp⟩ := ShutdownPc.waits_choose hw
      simpa [ShutdownPc.waits] using hp
  case terminate branch u =>
    simp only [Option.some.injEq, Prod.mk.injEq] at h
    obtain ⟨-, h⟩ := h
    left
    refine ⟨?_, (by rintro ⟨⟩)⟩
    obtain ⟨y, -, rfl⟩ | ⟨threw, -, hr⟩ := Next.inside_goto h
    · exact ShutdownPc.waits_terminate hw
    · exact ShutdownPc.waits_after hr hw
  case isCurrentTask =>
    simp only [Option.some.injEq, Prod.mk.injEq] at h
    obtain ⟨-, h⟩ := h
    split at h <;> cases h
    cases hw
  all_goals first
    | (cases h; done)
    | (cases h; cases hw)
    | (cases h; split at hw <;> cases hw)
    | (split at h <;> cases h; cases hw)

/-- A call comes to wait when `Shutdown` finds a task. -/
theorem FrameStep.waits {g : Frame} (h : FrameStep s p f ok s' (some g)) (hok : f.Ok a) (hw : g.pc.waits p = true) :
    (f.pc.waits p = true ∧ f.pc ≠ .shutdown .waitExited) ∨
      (f.pc = .shutdown .loadHandle ∧ ∃ x, s.taskHandle = some x ∧ p ≠ .worker x) := by
  have hne : ∀ {x}, f.pc.transition = some x → f.pc ≠ .shutdown .waitExited := by
    intro x hx hpc
    rw [hpc] at hx
    cases hx
  obtain ⟨pc, tr, after⟩ := f
  cases h.goto with
  | inTransition tr tr' s' htr hst => exact .inl ⟨hw, hne (hok.transition tr htr)⟩
  | transitionStart expected newState htr hpc => exact .inl ⟨hw, hne hpc⟩
  | transitionDone tr s' stored threw pc' htr hst hn =>
    have hpc := hne (hok.transition tr htr)
    cases resume_goto hn with
    | shutdown t t' hr =>
      refine .inl ⟨?_, hpc⟩
      cases t with
      | terminate branch u =>
        simp only [ShutdownPc.resume] at hr
        obtain ⟨y, -, rfl⟩ | ⟨threw', -, ha⟩ := Next.inside_goto hr
        · exact ShutdownPc.waits_terminate hw
        · exact ShutdownPc.waits_after ha hw
      | _ =>
        simp only [ShutdownPc.resume] at hr
        split at hr <;> cases hr
        cases hw
    | terminate | initializeThread | start | worker | cleanUp => cases hw
  | exec s' pc' htr hpc hex =>
    cases exec_goto hex with
    | shutdown t t' hx =>
      rcases execShutdown_waits hx hw with ⟨ht, hne⟩ | ⟨rfl, hh⟩
      · exact .inl ⟨ht, fun he => hne (by cases he; rfl)⟩
      · exact .inr ⟨rfl, hh⟩
    | setFreeOnTerminate | terminate | initializeThread | start | worker | dispatcher | cleanUp => cases hw

theorem Pc.sends_of_stage {pc : Pc} {g : Gen} {task : Option Gen} (h : pc.stage = some (.sending g task)) :
    pc.sends = true := by
  cases pc with
  | initializeThread t => cases t <;> cases h; rfl
  | start t =>
    cases t with
    | initializeThread t => cases t <;> cases h; rfl
    | _ => cases h
  | worker g t => cases t <;> cases h; rfl
  | dispatcher t => cases t <;> cases h
  | _ => cases h

theorem Pc.transition_of_sends {pc : Pc} (h : pc.sends = true) : pc.transition = none := by
  cases pc with
  | initializeThread t => cases t <;> first | rfl | cases h
  | start t =>
    cases t with
    | initializeThread t => cases t <;> first | rfl | cases h
    | _ => cases h
  | worker g t => cases t <;> first | rfl | cases h
  | _ => cases h

/-- A record that the queue took. -/
theorem exec_succeeds {pc : Pc} {next : Next Pc} (h : exec s p pc true = some (s', next)) (hs : pc.sends = true) :
    ∀ task, next.stage Pc.stage ≠ some (.unsent task) := by
  cases pc with
  | initializeThread t => cases t <;> cases hs; cases h; rintro _ ⟨⟩
  | start t =>
    cases t with
    | initializeThread t => cases t <;> cases hs; cases h; rintro _ ⟨⟩
    | _ => cases hs
  | worker g t => cases t <;> cases hs; cases h; rintro _ ⟨⟩
  | _ => cases hs

/-- The record is refused. -/
theorem FrameStep.refused {g : Gen} {task task' : Option Gen} (h : FrameStep s p f ok s' f') (hok : f.Ok a)
    (hf : f.pc.stage = some (.sending g task)) (hf' : stageAfter f' = some (.unsent task')) :
    f.pc.sends = true ∧ ok = false := by
  have hsends := Pc.sends_of_stage hf
  refine ⟨hsends, ?_⟩
  obtain ⟨next, hex, rfl⟩ := h.exec_of hok (Pc.transition_of_sends hsends)
  rw [stageAfter_next] at hf'
  cases ok with
  | false => rfl
  | true => exact absurd hf' (exec_succeeds hex hsends task')

/-! ## The signal -/

theorem execInitialize_taskExited {t : InitializePc} {next : Next InitializePc}
    (h : execInitialize s p t ok = some (s', next)) (ht : t ≠ .resetExited) : s'.taskExited = s.taskExited := by
  have hkill : ∀ g, (s.kill g).taskExited = s.taskExited := by rintro (_ | g) <;> rfl
  cases t <;> simp only [execInitialize] at h
  case resetExited => exact absurd rfl ht
  all_goals first
    | (cases h; first | rfl | exact hkill _)
    | (split at h <;> cases h <;> rfl)
    | cases h

theorem execStart_taskExited {t : StartPc} {next : Next StartPc} (h : execStart s p t ok = some (s', next))
    (ht : t ≠ .initializeThread .resetExited) : s'.taskExited = s.taskExited := by
  unfold execStart at h
  split at h
  · cases h; rfl
  · cases h; rfl
  · obtain ⟨⟨s₁, n⟩, hs, he⟩ := Option.map_eq_some_iff.1 h
    cases he
    exact execInitialize_taskExited hs fun he => ht (by rw [he])
  · cases h; rfl
  all_goals cases h

theorem execShutdown_taskExited {t : ShutdownPc} {next : Next ShutdownPc} (h : execShutdown s p t = some (s', next))
    (ht : t ≠ .waitExited) : s'.taskExited = s.taskExited := by
  have hclaim : ∀ a b, (s.exchangeClaim a b).taskExited = s.taskExited := by
    intro a b
    unfold Shared.exchangeClaim
    split <;> rfl
  cases t <;> simp only [execShutdown] at h
  case waitExited => exact absurd rfl ht
  all_goals first
    | (cases h; first | rfl | exact hclaim _ _)
    | cases h

theorem execWorker_taskExited {g : Gen} {t : WorkerPc} {next : Next WorkerPc}
    (h : execWorker s g t ok = some (s', next)) : s'.taskExited = s.taskExited := by
  cases t <;> simp only [execWorker] at h
  all_goals first
    | (cases h; rfl)
    | (split at h <;> cases h <;> rfl)
    | cases h

theorem execDispatcher_taskExited {t : DispatcherPc} {next : Next DispatcherPc}
    (h : execDispatcher s t = some (s', next)) (he : s.taskExited = true) : s'.taskExited = true := by
  have hkill : ∀ g, (s.kill g).taskExited = s.taskExited := by rintro (_ | g) <;> rfl
  cases t <;> simp only [execDispatcher] at h
  case giveExited => cases h; rfl
  case deleteTask => cases h; rw [hkill]; exact he
  case receive => split at h <;> cases h; exact he
  all_goals cases h; exact he

/-- The signal goes by a wait, or by the reset of `Initialize`. -/
theorem FrameStep.taskExited (h : FrameStep s p f ok s' f') (hc : ∀ t, f.pc ≠ .cleanUp t)
    (he : s.taskExited = true) :
    s'.taskExited = true ∨ f.pc = .shutdown .waitExited ∨ f.pc.initializePc = some .resetExited := by
  rcases h.shared_cases with ⟨_, _, _, rfl⟩ | ⟨next, hex⟩
  · exact .inl he
  · generalize f.pc = pc at hc hex
    unfold Lifecycle.exec at hex
    split at hex
    · cases hex
    · cases hex
    · cases hex; exact .inl he
    · cases hex
      left
      split <;> (unfold Shared.exchangeClaim; split <;> exact he)
    · cases hex; exact .inl he
    · cases hex; exact .inl he
    all_goals
      obtain ⟨⟨s₁, n⟩, hs, hn⟩ := Option.map_eq_some_iff.1 hex
      cases hn
    · rename_i t
      by_cases ht : t = .resetExited
      · exact .inr (.inr (by rw [ht]; rfl))
      · exact .inl (by rw [execInitialize_taskExited hs ht]; exact he)
    · rename_i t
      by_cases ht : t = .initializeThread .resetExited
      · exact .inr (.inr (by rw [ht]; rfl))
      · exact .inl (by rw [execStart_taskExited hs ht]; exact he)
    · rename_i t
      by_cases ht : t = .waitExited
      · exact .inr (.inl (by rw [ht]))
      · exact .inl (by rw [execShutdown_taskExited hs ht]; exact he)
    · exact .inl (by rw [execWorker_taskExited hs]; exact he)
    · exact .inl (execDispatcher_taskExited hs he)
    · exact absurd rfl (hc _)

/-! ## Runs -/

/-- Every waiter has its signal, or it is still to come. -/
def SignalInv (w : World) (st : Stage) : Prop :=
  ∀ a f, w.call a = some f → f.pc.waits a.1 = true → st.awaits = true ∨ w.shared.taskExited = true

variable {n : Nat}

theorem Stage.Fits.awaits_of_handle {r : Registers} {g : Gen} (hf : st.Fits r) (hh : r.taskHandle = some g) :
    st.awaits = true ∨ st = .unsent (some g) ∨ st = .lost g := by
  have hnone : ∀ {pending gate queue alive}, ¬ r.Has none pending gate queue alive :=
    fun h => absurd (h.handle.symm.trans hh) nofun
  cases st with
  | quiet | checked | signalled => exact (hnone hf).elim
  | exitedReset | gateReset | ready | made => exact (hnone hf.1).elim
  | unsent task =>
    obtain rfl : task = some g := hf.1.handle.symm.trans hh
    exact .inr (.inl rfl)
  | lost x =>
    obtain rfl : x = g := Option.some.inj (hf.1.handle.symm.trans hh)
    exact .inr (.inr rfl)
  | _ => exact .inl rfl

/-- What is still to come stays so, or comes. -/
theorem Move.awaits {l l' : Option Stage} {r r' : Registers} (hm : Move l r l' r') (hp : Passes l st l' st')
    (hsend : ¬ ∃ g task task', l = some (.sending g task) ∧ l' = some (.unsent task')) (h : st.awaits = true) :
    st'.awaits = true ∨ r'.taskExited = true := by
  cases hp with
  | keep => exact .inl h
  | hold =>
    cases hm with
    | skip => exact .inl h
    | sendFailed g task => exact absurd ⟨g, task, task, rfl, rfl⟩ hsend
    | giveExited => exact .inr rfl
    | resetExited | resetGate | resetFinalization | create => cases h
    | _ => exact .inl rfl
  | giveGate | enter | send | receive => exact .inl rfl
  | check | createFailed | unsent | lost | dispatched => cases h

/-- A step that leaves a waiter leaves it its signal. -/
theorem AtStage.awaits_moved (hm : Moved w p ok w' st st' (p, n) f f') (hok : f.Ok (p, n))
    (hne : ∀ t, f.pc ≠ .cleanUp t) (hsend : f.pc.sends = true → ok = true)
    (hwait : f.pc = .shutdown .waitExited → w.shared.taskExited = false)
    (hreset : f.pc.initializePc ≠ some .resetExited)
    (h : st.awaits = true ∨ w.shared.taskExited = true) : st'.awaits = true ∨ w'.shared.taskExited = true := by
  cases he : w.shared.taskExited with
  | true =>
    rcases hm.frame.taskExited hne he with ht | hpc | hpc
    · exact .inr ht
    · rw [hwait hpc] at he
      cases he
    · exact absurd hpc hreset
  | false =>
    refine hm.move.awaits hm.passes ?_ (by simpa [he] using h)
    rintro ⟨g, task, task', hs, hs'⟩
    obtain ⟨hsends, hfails⟩ := hm.frame.refused hok hs hs'
    rw [hsend hsends] at hfails
    cases hfails

theorem SignalInv.moved (h : SignalInv w st) (hst : AtStage w st) (hw : WorkersInv w st) (hcalls : CallsOk w)
    (hne : ∀ t, f.pc ≠ .cleanUp t) (hd : w.depth p = n + 1) (hm : Moved w p ok w' st st' (p, n) f f')
    (hc : OneWaiter w (.step p ok)) : SignalInv w' st' := by
  have hok := hcalls (p, n) f hm.call
  obtain ⟨hwait, hfail, hload, hreset⟩ := hc.2 f hm.top
  -- A call that waits before and after the step keeps its signal.
  have hstays : ∀ b g, w.call b = some g → g.pc.waits b.1 = true →
      (b = (p, n) → f.pc ≠ .shutdown .waitExited) → st'.awaits = true ∨ w'.shared.taskExited = true := by
    intro b g hb hg hother
    refine AtStage.awaits_moved hm hok hne (fun hsends => ?_) (fun hpc => ?_) (fun hpc => ?_) (h b g hb hg)
    · by_contra hne
      rw [hfail hsends (Bool.eq_false_iff.2 hne) b g hb] at hg
      cases hg
    · by_contra hne
      obtain ⟨hp, hn⟩ := hwait hpc (by simpa using hne) b g hb hg
      exact hother (Prod.ext hp (by dsimp only; omega)) hpc
    · rw [hreset hpc b g hb] at hg
      cases hg
  rw [SignalInv, hm.calls]
  refine forall_call_update (fun g hg hwaits => ?_) fun b g hb hcall hwaits => ?_
  · have hstep := hm.frame
    rw [hg] at hstep
    rcases hstep.waits hok hwaits with ⟨hf, hpc⟩ | ⟨hpc, x, hh, hx⟩
    · exact hstays (p, n) f hm.call hf fun _ => hpc
    · -- `Shutdown` has just found the task `x`.
      refine AtStage.awaits_moved hm hok hne (fun hsends => ?_) (fun he => ?_) (fun he => ?_) (.inl ?_)
      · rw [hpc] at hsends
        cases hsends
      · rw [hpc] at he
        cases he
      · rw [hpc] at he
        cases he
      · have hfailed := hload hpc x hh hx
        rcases hst.fits.awaits_of_handle hh with ha | hu | hl
        · exact ha
        · exfalso
          subst hu
          obtain ⟨b, hb⟩ := hst.token.exists_of_held rfl
          obtain ⟨g, hg, hstage⟩ := Option.bind_eq_some_iff.1 hb
          have hpc := Pc.clearPending_of_stage hstage
          obtain rfl := (hcalls b g hg).worker x _ hpc
          exact hfailed (.inl (by simp [World.entry, hg, hpc]))
        · exfalso
          subst hl
          exact hfailed (.inr ⟨hw.lost x rfl, hst.fits.1.pending⟩)
  · exact hstays b g hcall hwaits fun he => absurd he hb

theorem SignalInv.pushed {request : Request} (h : SignalInv w st) (hs : step w (.call p request) = some w') :
    SignalInv w' st := by
  obtain ⟨hshared, -, b, -, -, hcall⟩ := call_update hs
  rw [SignalInv, hcall, hshared]
  refine forall_call_update (fun g hg hwaits => ?_) fun b g _ hb => h b g hb
  cases hg
  cases request <;> cases hwaits

/-- A worker of the current generation that is not suspended keeps a waiter
from being stranded. -/
theorem Stranded.not_worker {x : Gen} (h : Stranded w a) (hw : WorkersInv w st)
    (hx : st.worker w.shared.taskHandle = some x) : w.entry x = some (.worker x .suspended) := by
  obtain ⟨hcreated, hkilled⟩ := hw.alive.worker x hx
  have hcreated : x < w.shared.created := hcreated
  have hkilled : x ∉ w.shared.killed := hkilled
  exact h.workers x (by simp [World.runnable, hcreated, hkilled])

/-- An `Initialize` that has such a stage in hand still has its worker at the
gate, or sends the record of the worker it gave up. -/
theorem InitializePc.finalizes_of_awaits {t : InitializePc} (h : t.stage = some st) (ha : st.awaits = true) :
    (∃ g, st = .live g) ∨ t.finalizes = true := by
  cases t <;> cases h <;> first | exact .inl ⟨_, rfl⟩ | exact .inr rfl | cases ha

/-- Nothing of a stranded waiter's generation is left to come. -/
theorem Stranded.not_awaits (h : Stranded w a) (hst : AtStage w st) (hw : WorkersInv w st) (hcalls : CallsOk w) :
    st.awaits = false := by
  by_contra hne
  have ha : st.awaits = true := by simpa using hne
  have hfits := hst.fits
  have hrecords := h.records
  by_cases hr : st.rest = true
  -- At rest, the worker at its gate or the queued record would go on.
  · cases st with
    | gated x =>
      have hx := (hw.gated x (.inr rfl)).symm.trans (h.not_worker hw rfl)
      cases hx
    | queued x =>
      obtain ⟨task, -, hhas, -⟩ := hfits
      have hq : w.shared.queue = [x] := hhas.queue
      simp [World.outstanding, hq] at hrecords
    | quiet | lost => cases ha
    | _ => cases hr
  -- A call has the stage: of a worker, of the dispatcher, or of `Initialize`.
  · obtain ⟨b, hb⟩ := hst.token.exists_of_held (by simpa using hr)
    obtain ⟨g, hg, hstage⟩ := Option.bind_eq_some_iff.1 hb
    cases hpc : g.pc with
    | worker x t =>
      obtain rfl := (hcalls b g hg).worker x t hpc
      have hentry : w.entry x = some (.worker x t) := by simp [World.entry, hg, hpc]
      rw [hpc] at hstage
      have hx : st.worker w.shared.taskHandle = some x := by
        cases t <;> cases hstage <;> rfl
      have ht := hentry.symm.trans (h.not_worker hw hx)
      cases ht
      cases hstage
    | dispatcher t =>
      obtain rfl := (hcalls b g hg).dispatcher t hpc
      have ht : t.dispatching = true := by
        rw [hpc] at hstage
        cases t <;> first | rfl | cases hstage
      simp [World.outstanding, hg, hpc, Pc.dispatching, ht] at hrecords
    | _ =>
      have hcommitted := Stage.committed_of_stage hstage (by rw [hpc]; rintro _ _ ⟨⟩) (by rw [hpc]; rintro _ ⟨⟩)
      obtain ⟨_, hx⟩ := Option.isSome_iff_exists.1 hcommitted
      obtain ⟨t, ht, -⟩ := Option.bind_eq_some_iff.1 hx
      rcases InitializePc.finalizes_of_awaits ((Pc.stage_of_initializePc ht).symm.trans hstage) ha with ⟨x, rfl⟩ | hf
      · have hx := (hw.gated x (.inr rfl)).symm.trans (h.not_worker hw rfl)
        cases hx
      · rw [h.sends b g t hg ht] at hf
        cases hf

/-- No caller of `Shutdown` is stranded while every signal finds the one waiter
that needs it. -/
theorem no_stranded_waiter (w : World) (h : (system false).ReachableWhen OneWaiter w) (a : TaskId × Nat) :
    ¬ Stranded w a := by
  have hinv : ∃ st, (AtStage w st ∧ WorkersInv w st) ∧ SignalInv w st := by
    refine h.invariant_with (I := fun w => ∃ st, (AtStage w st ∧ WorkersInv w st) ∧ SignalInv w st)
      (J := fun w => CallsOk w ∧ Unmanaged w) (fun _ hr => ⟨callsOk_reachable hr, unmanaged_reachable hr⟩)
      (fun w hw => ?_) ?_
    · obtain ⟨free, start, precision, rfl⟩ := hw
      refine ⟨.quiet, ⟨atStage_start _ ⟨rfl, rfl, rfl, rfl, fun g hg => absurd hg (Nat.not_lt_zero g)⟩,
        workersInv_start _ rfl⟩, fun a f hf hwaits => ?_⟩
      rcases start_call hf with ⟨g, -, rfl⟩ | ⟨-, rfl⟩ <;> cases hwaits
    · rintro w a w' ⟨hcalls, hu⟩ - ⟨st, ⟨hst, hw⟩, hwait⟩ hc hs
      cases a with
      | call p request => exact ⟨st, ⟨hst.pushed hs, hw.pushed hs⟩, hwait.pushed hs⟩
      | step p ok =>
        obtain ⟨st', n, f, f', hd, hm, hst'⟩ := hst.moved_last hcalls hu.top hc.1 hs
        exact ⟨st', ⟨hst', hw.moved hst hm (hcalls _ f hm.call) (step_moves hs).1⟩,
          hwait.moved hst hw hcalls (hu.top f hm.top) hd hm hc⟩
  obtain ⟨st, ⟨hst, hw⟩, hwait⟩ := hinv
  intro hstranded
  obtain ⟨f, hf, hpc⟩ := hstranded.waits
  rcases hwait a f hf (by rw [hpc]; rfl) with ha | he
  · rw [hstranded.not_awaits hst hw (callsOk_reachable h)] at ha
    cases ha
  · rw [hstranded.clear] at he
    cases he

/-! ## Two callers -/

def Action.fails : Action → Bool
  | .step _ false => true
  | _ => false

def Pc.inShutdown : Pc → Bool
  | .shutdown _ => true
  | _ => false

/-- `OneWaiter` of the tasks that run, while nothing fails and nobody has waited. -/
def OneWaiterOn (w : World) (a : Action) : Prop :=
  (a.task ∈ [TaskId.app 0, .worker 0, .dispatcher] ∧ a.fails = false) ∧ ∀ f ∈ w.top a.task,
    (f.pc.initializePc = some .recheckHandle → w.shared.terminationDispatchPending = false ∧
      w.callsOn [.app 0, .worker 0, .dispatcher] (fun f => !f.pc.committed) = true) ∧
    (f.pc = .shutdown .waitExited → w.shared.taskExited = false) ∧
    (f.pc = .shutdown .loadHandle → ∀ g ∈ w.shared.taskHandle,
      w.entry g ≠ some (.worker g .clearPending) ∧ w.entry g ≠ some (.worker g .suspended)) ∧
    (f.pc.initializePc = some .resetExited →
      w.callsOn [.app 0, .worker 0, .dispatcher] (fun f => !f.pc.inShutdown) = true)

instance (w : World) (a : Action) : Decidable (OneWaiterOn w a) := by
  unfold OneWaiterOn
  exact inferInstance

theorem oneWaiter_of_on {b : Action} (hi : w.IdleBut [.app 0, .worker 0, .dispatcher]) (h : OneWaiterOn w b) :
    OneWaiter w b := by
  cases b with
  | call => trivial
  | step p ok =>
    refine ⟨fun f htop hpc _ => ?_, fun f htop => ⟨fun hpc he => ?_, fun _ hok => ?_, fun hpc g hg _ hfailed => ?_,
      fun hpc a g hg => ?_⟩⟩
    · obtain ⟨hp, hon⟩ := (h.2 f htop).1 hpc
      refine ⟨hp, fun a g hg => ?_⟩
      have := hi.forall_call (P := fun f => !f.pc.committed) (by rintro f (⟨g, rfl⟩ | rfl) <;> rfl) hon a g hg
      simpa using this
    · rw [(h.2 f htop).2.1 hpc] at he
      cases he
    · subst hok
      cases h.1.2
    · obtain ⟨hclear, hsuspended⟩ := (h.2 f htop).2.2.1 hpc g hg
      rcases hfailed with hf | ⟨hf, -⟩
      · exact hclear hf
      · exact hsuspended hf
    · have hnot := hi.forall_call (P := fun f => !f.pc.inShutdown) (by rintro f (⟨g, rfl⟩ | rfl) <;> rfl)
        ((h.2 f htop).2.2.2 hpc) a g hg
      cases hg' : g.pc with
      | shutdown t => simp [hg', Pc.inShutdown] at hnot
      | _ => rfl

def waiting : Frame := ⟨.shutdown .waitExited, none, false⟩

/-- `Shutdown` waits while the record of the worker is queued. -/
theorem waits_for_record : ∃ w, (system false).ReachableWhen OneWaiter w ∧ w.call (.app 0, 0) = some waiting ∧
    ¬ Stranded w (.app 0, 0) := by
  have hrun : ((system false).replayWhen OneWaiterOn (newThread false false)
      (initialized ++ [.call (.app 0) .shutdown] ++ steps (.app 0) 13 ++ steps (.worker 0) 13)).map
      (fun w => w.call (.app 0, 0)) = some (some waiting) := by
    decide +kernel
  obtain ⟨w, hs, hp⟩ := Option.map_eq_some_iff.1 hrun
  have hl := (Transition.System.leads_of_replayWhen hs).mono_with (idleBut_start _ _)
    (fun _ _ _ hi hd hst => hi.step hd.1.1 hst) fun _ _ hi hd => oneWaiter_of_on hi hd
  have hr := (Transition.System.ReachableWhen.init (newThread_init false false)).leads hl
  exact ⟨w, hr, hp, no_stranded_waiter w hr _⟩

/-- Two tasks shut the running thread down; the signal releases one of them,
and nothing gives it again. -/
theorem second_waiter_stranded : ¬ ∀ w, (system false).Reachable w → ∀ a, ¬ Stranded w a := by
  intro hall
  have hrun : ((system false).replayWhen (fun _ a => a.task ∈ [TaskId.app 0, .app 1, .worker 0, .dispatcher])
      (newThread false false)
      (initialized ++ .call (.app 0) .shutdown :: steps (.app 0) 13 ++ .call (.app 1) .shutdown :: steps (.app 1) 6 ++
        steps (.worker 0) 13 ++ dispatched ++ steps (.app 0) 1)).map
      (fun w => ((w.call (.app 1, 0), w.shared.taskExited, w.outstanding), (w.shared.created, w.shared.killed),
        w.callsOn [.app 0, .app 1, .worker 0, .dispatcher] (fun f => f.pc.initializePc = none))) =
      some ((some waiting, false, 0), (1, [0]), true) := by
    decide +kernel
  obtain ⟨w, hs, hp⟩ := Option.map_eq_some_iff.1 hrun
  simp only [Prod.mk.injEq] at hp
  obtain ⟨⟨hwaits, hclear, hrecords⟩, ⟨hcreated, hkilled⟩, hcalls⟩ := hp
  have hl := Transition.System.leads_of_replayWhen hs
  have hidle := hl.invariant (I := World.IdleBut [.app 0, .app 1, .worker 0, .dispatcher]) (idleBut_start _ _)
    fun _ _ _ hi hd hst => hi.step hd hst
  have hr := (Transition.System.ReachableWhen.init (newThread_init false false)).leads
    (hl.mono_with (I := fun _ => True) trivial (fun _ _ _ _ _ _ => trivial) fun _ _ _ _ => trivial)
  refine hall w hr (.app 1, 0) ⟨⟨waiting, hwaits, rfl⟩, hclear, hrecords, fun g hg => ?_, fun b f t hb ht => ?_⟩
  · simp only [World.runnable, hcreated, hkilled, Bool.and_eq_true, decide_eq_true_eq] at hg
    obtain rfl : g = 0 := Nat.lt_one_iff.1 hg.1
    simp at hg
  · have hnone := hidle.forall_call (P := fun f => f.pc.initializePc = none)
      (by rintro f (⟨g, rfl⟩ | rfl) <;> rfl) hcalls b f hb
    rw [of_decide_eq_true hnone] at ht
    cases ht

end ESPressio.Lifecycle
