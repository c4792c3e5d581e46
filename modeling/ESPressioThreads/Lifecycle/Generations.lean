import ESPressioThreads.Lifecycle.Protocol
import ESPressioThreads.Lifecycle.Steps
/-!
# Generations of workers

The lifecycle calls run the generation protocol. While the checks of
`Initialize` still hold when it passes them under the configuration lock, one
call at a time has the current generation in hand: at most one record is
outstanding, and its dispatch deletes no worker of a later generation.
-/

namespace ESPressio.Lifecycle

open Transition ESPressio.Thread

variable {w w' : World} {s s' : Shared} {p : TaskId} {ok : Bool}

def Shared.registers (s : Shared) : Registers where
  taskHandle := s.taskHandle
  terminationDispatchPending := s.terminationDispatchPending
  taskExitFinalizationStarted := s.taskExitFinalizationStarted
  taskStartGate := s.taskStartGate
  taskExited := s.taskExited
  queue := s.queue
  created := s.created
  killed := s.killed

/-! ## What a call has in hand -/

def InitializePc.stage : InitializePc → Option Stage
  | .resetExited => some .checked
  | .resetGate => some .exitedReset
  | .resetFinalization => some .gateReset
  | .create => some .ready
  | .publish g => some (.made g)
  | .unlockConfiguration g | .storeInitializing g | .storeInProgress g | .onInitialization g
  | .readAfterInitialization g | .setInitialized g | .readAfterInitialized g | .loadStartOnInitialize g
  | .setRunning g | .stopTerminated g | .catchTerminate g _ | .catchTerminated g | .exchangeTask g _
  | .giveGate g => some (.live g)
  | .deleteTask g _ handle => some (.failing g handle)
  | .beginFinalization g _ => some (.failed g)
  | .storePending g _ => some (.claimed g none)
  | .send g _ => some (.sending g none)
  | .clearPending _ => some (.unsent none)
  | .ensureRegistered | .loadHandle | .loadPending | .ensureDispatcher | .readState | .reset | .lockConfiguration
  | .recheckHandle | .clearInProgress _ | .clearInitializing _ | .onInitializationFailed _
  | .notifyInitializationFailed _ | .finished _ => none

def WorkerPc.stage (g : Gen) : WorkerPc → Option Stage
  | .waitGate | .suspended => none
  | .loop | .onLoop | .onExecutionFailed | .notifyExecutionFailed | .terminate _ | .beginFinalization =>
    some (.looping g)
  | .setTerminated | .storePending => some (.claimed g (some g))
  | .send => some (.sending g (some g))
  | .clearPending => some (.unsent (some g))

def DispatcherPc.stage : DispatcherPc → Option Stage
  | .receive | .cleanUp => none
  | .exchangeTask g => some (.dispatching g)
  | .deleteTask g handle => some (.deleting g handle)
  | .readState g | .onTerminated g | .onThreadTaskExited g | .giveExited g => some (.delivering g)
  | .clearPending g => some (.signalled g)

def Pc.stage : Pc → Option Stage
  | .initializeThread pc | .start (.initializeThread pc) => pc.stage
  | .worker g pc => pc.stage g
  | .dispatcher pc => pc.stage
  | _ => none

def Next.stage {π : Type} (stage : π → Option Stage) : Next π → Option Stage
  | .goto pc => stage pc
  | .ret _ => none

/-- The stage that each call has in hand. -/
def World.stages (w : World) (a : TaskId × Nat) : Option Stage := (w.call a).bind fun f => f.pc.stage

theorem Next.stage_inside {π ρ : Type} (call : π → ρ) (stage' : ρ → Option Stage) (n : Next π) :
    (n.inside call .ret).stage stage' = n.stage fun y => stage' (call y) := by
  cases n with
  | goto y => rfl
  | ret threw => rfl

/-! ## Steps -/

theorem execInitialize_move {pc : InitializePc} {next : Next InitializePc}
    (h : execInitialize s p pc ok = some (s', next)) :
    Move pc.stage s.registers (next.stage InitializePc.stage) s'.registers := by
  cases pc <;> simp only [execInitialize] at h
  case recheckHandle =>
    split at h <;> cases h
    · exact .check _ ‹_›
    · exact .skip _ _
  case resetExited => cases h; exact .resetExited _
  case resetGate => cases h; exact .resetGate _
  case resetFinalization => cases h; exact .resetFinalization _
  case create =>
    split at h <;> cases h
    · exact .create _
    · exact .createFailed _
  case publish g =>
    split at h <;> cases h
    · exact .publish g _ ‹_›
    · exact .publishLost g _ ‹_›
  case exchangeTask g status => cases h; exact .fail g _
  case deleteTask g status handle =>
    cases h
    cases handle with
    | none => exact .killNone g _
    | some h => exact .kill g h _
  case beginFinalization g status =>
    split at h <;> cases h
    · exact .finalized g _ ‹_›
    · rename_i hs
      exact .finalize g _ (Bool.eq_false_iff.2 hs)
  case storePending g status => cases h; exact .storePending g none _
  case send g status =>
    split at h <;> cases h
    · exact .send g none _
    · exact .sendFailed g none _
  case clearPending status => cases h; exact .clearUnsent none _
  case giveGate g =>
    split at h <;> cases h
    · exact .giveGate g _
    · exact .skip _ _
  case catchTerminate g pc =>
    cases h
    cases execTerminate s pc <;> exact .skip _ _
  all_goals first
    | (cases h; exact .skip _ _)
    | (cases h; split <;> exact .skip _ _)
    | (split at h <;> cases h; exact .skip _ _)
    | cases h

theorem StartPc.tail_stage : (StartPc.tail s).stage (fun pc => (Pc.start pc).stage) = none := by
  unfold StartPc.tail
  split <;> rfl

theorem execStart_move {pc : StartPc} {next : Next StartPc} (h : execStart s p pc ok = some (s', next)) :
    Move (Pc.start pc).stage s.registers (next.stage fun pc => (Pc.start pc).stage) s'.registers := by
  unfold execStart at h
  split at h
  · cases h
    split
    case h_5 | h_6 | h_7 => rw [StartPc.tail_stage]; exact .skip _ _
    all_goals exact .skip _ _
  · cases h
    split
    · exact .skip _ _
    · rw [StartPc.tail_stage]; exact .skip _ _
  · rename_i pc _
    obtain ⟨⟨s₁, n⟩, hs, he⟩ := Option.map_eq_some_iff.1 h
    cases he
    rw [Next.stage_inside]
    exact execInitialize_move hs
  · cases h; exact .skip _ _
  · cases h
  · cases h
  · cases h

theorem execWorker_move {g : Gen} {pc : WorkerPc} {next : Next WorkerPc}
    (h : execWorker s g pc ok = some (s', next)) (hg : g < s.created) (hk : g ∉ s.killed) :
    Move (pc.stage g) s.registers (next.stage (WorkerPc.stage g)) s'.registers := by
  cases pc <;> simp only [execWorker] at h
  case waitGate =>
    split at h <;> cases h
    exact .enter g _ ‹_› hg hk
  case beginFinalization =>
    split at h <;> cases h
    · exact .exited g _ ‹_›
    · rename_i hs
      exact .exit g _ (Bool.eq_false_iff.2 hs)
  case storePending => cases h; exact .storePending g _ _
  case send =>
    split at h <;> cases h
    · exact .send g _ _
    · exact .sendFailed g _ _
  case clearPending => cases h; exact .clearUnsent _ _
  case terminate pc =>
    cases h
    cases execTerminate s pc <;> exact .skip _ _
  all_goals first
    | (cases h; exact .skip _ _)
    | (cases h; split <;> exact .skip _ _)
    | cases h

theorem execDispatcher_move {pc : DispatcherPc} {next : Next DispatcherPc}
    (h : execDispatcher s pc = some (s', next)) :
    Move pc.stage s.registers (next.stage DispatcherPc.stage) s'.registers := by
  cases pc <;> simp only [execDispatcher] at h
  case receive =>
    split at h <;> cases h
    exact .receive _ _ _ ‹_›
  case exchangeTask g => cases h; exact .exchange g _
  case deleteTask g handle =>
    cases h
    cases handle with
    | none => exact .deleteNone g _
    | some h => exact .delete g h _
  case giveExited g => cases h; exact .giveExited g _
  case clearPending g => cases h; exact .clearPending g _
  case readState g => cases h; split <;> exact .skip _ _
  case onTerminated | onThreadTaskExited | cleanUp => cases h; exact .skip _ _

theorem execShutdown_move {pc : ShutdownPc} {next : Next ShutdownPc} (h : execShutdown s p pc = some (s', next)) :
    Move none s.registers none s'.registers := by
  have hex : ∀ a b, (s.exchangeClaim a b).registers = s.registers := by
    intro a b
    unfold Shared.exchangeClaim
    split <;> rfl
  cases pc <;> simp only [execShutdown] at h
  case waitExited =>
    split at h <;> cases h
    exact .waitExited _
  case claimManual | releaseClaim => cases h; rw [hex]; exact .skip _ _
  all_goals first
    | (cases h; exact .skip _ _)
    | cases h

/-- A step of a call that waits for no transition. -/
theorem exec_move {pc : Pc} {next : Next Pc} (h : exec s p pc ok = some (s', next)) (hc : ∀ t, pc ≠ .cleanUp t)
    (hw : ∀ g t, pc = .worker g t → g < s.created ∧ g ∉ s.killed) :
    Move pc.stage s.registers (next.stage Pc.stage) s'.registers := by
  have hex : ∀ a b, (s.exchangeClaim a b).registers = s.registers := by
    intro a b
    unfold Shared.exchangeClaim
    split <;> rfl
  unfold exec at h
  split at h
  · cases h
  · cases h
  · cases h; exact .skip _ _
  · cases h
    split
    · rw [hex]; exact .skip _ _
    · rw [hex]; exact .skip _ _
  · cases h; exact .skip _ _
  · cases h
    cases execTerminate s _ <;> exact .skip _ _
  all_goals
    obtain ⟨⟨s₁, n⟩, hs, he⟩ := Option.map_eq_some_iff.1 h
    cases he
    rw [Next.stage_inside]
  · exact execInitialize_move hs
  · exact execStart_move hs
  · cases n <;> exact execShutdown_move hs
  · obtain ⟨hg, hk⟩ := hw _ _ rfl
    exact execWorker_move hs hg hk
  · exact execDispatcher_move hs
  · exact absurd rfl (hc _)

/-! ## Calls that wait for a transition -/

theorem resumeInitialize_stage {pc : InitializePc} {stored threw : Bool} (h : pc.transition ≠ none) :
    (pc.resume s stored threw).stage InitializePc.stage = pc.stage := by
  cases pc <;> simp only [InitializePc.transition, ne_eq, not_true_eq_false] at h
  case catchTerminate g pc =>
    simp only [InitializePc.resume]
    cases pc.resume s threw <;> rfl
  case catchTerminated g => rfl
  case reset =>
    simp only [InitializePc.resume]
    split
    · rfl
    · split <;> rfl
  all_goals
    simp only [InitializePc.resume]
    split <;> rfl

/-- A transition does not move the stage. -/
theorem resume_stage {pc : Pc} {stored threw : Bool} (h : pc.transition ≠ none) :
    (pc.resume s stored threw).stage Pc.stage = pc.stage := by
  cases pc with
  | idle | setFreeOnTerminate | setStartOnInitialize | dispatcher => exact absurd rfl h
  | pause => rfl
  | terminate pc =>
    simp only [Pc.resume]
    cases pc.resume s threw <;> rfl
  | initializeThread pc =>
    simp only [Pc.resume, Next.stage_inside]
    exact resumeInitialize_stage h
  -- `Start` is inside `Initialize`, or makes a transition of its own that has no stage.
  | start pc =>
    simp only [Pc.resume, Next.stage_inside]
    cases pc with
    | initializeThread pc =>
      simp only [StartPc.resume, Next.stage_inside]
      exact resumeInitialize_stage h
    | readState | setRunning | tryInitialized | tryPaused | signalScheduler =>
      simp only [StartPc.resume]
      split
      · rfl
      · exact StartPc.tail_stage
  | shutdown pc =>
    simp only [Pc.resume]
    cases pc.resume s threw <;> rfl
  | worker g pc =>
    simp only [Pc.resume, Next.stage_inside]
    cases pc with
    | terminate pc =>
      simp only [WorkerPc.resume]
      cases pc.resume s threw <;> rfl
    | setTerminated => rfl
    | _ => exact absurd rfl h
  | cleanUp pc => cases pc <;> rfl

/-- The stage that the call which stepped has in hand. -/
def stageAfter (f : Option Frame) : Option Stage := f.bind fun f => f.pc.stage

theorem stageAfter_next (f : Frame) (next : Next Pc) : stageAfter (f.next next) = next.stage Pc.stage := by
  cases next <;> rfl

/-- Every step of a call is a step of the protocol. -/
theorem FrameStep.move {a : TaskId × Nat} {f : Frame} {f' : Option Frame} (h : FrameStep s p f ok s' f')
    (hok : f.Ok a) (hc : ∀ t, f.pc ≠ .cleanUp t) (hw : ∀ g, a.1 = .worker g → g < s.created ∧ g ∉ s.killed) :
    Move f.pc.stage s.registers (stageAfter f') s'.registers := by
  cases h with
  | inTransition tr tr' s' htr hst =>
    obtain ⟨_, _, _, rfl⟩ := stepTransition_shared hst
    exact .skip _ _
  | transitionDone tr s' stored threw htr hst =>
    obtain ⟨_, _, _, rfl⟩ := stepTransition_shared hst
    rw [stageAfter_next, resume_stage (by rw [hok.transition tr htr]; exact Option.some_ne_none _)]
    exact .skip _ _
  | transitionStart => exact .skip _ _
  | exec s' next htr hpc hex =>
    rw [stageAfter_next]
    refine exec_move hex hc fun g t ht => hw g ?_
    rw [hok.worker g t ht]

theorem Pc.stage_of_initializePc {pc : Pc} {t : InitializePc} (h : pc.initializePc = some t) : pc.stage = t.stage := by
  cases pc with
  | initializeThread t => cases h; rfl
  | start t =>
    cases t with
    | initializeThread t => cases h; rfl
    | _ => cases h
  | _ => cases h

theorem Pc.initializePc_of_checked {pc : Pc} (h : pc.stage = some .checked) :
    ∃ t, pc.initializePc = some t ∧ t.stage = some .checked := by
  cases pc with
  | initializeThread t => exact ⟨t, rfl, h⟩
  | start t =>
    cases t with
    | initializeThread t => exact ⟨t, rfl, h⟩
    | _ => cases h
  | worker g t => cases t <;> cases h
  | dispatcher t => cases t <;> cases h
  | _ => cases h

theorem execInitialize_checked {pc pc' : InitializePc} (h : execInitialize s p pc ok = some (s', .goto pc'))
    (hpc : pc'.stage = some .checked) : pc = .recheckHandle := by
  cases execInitialize_goto h <;>
    first
    | rfl
    | cases hpc

/-- Only the check under the configuration lock takes a generation in hand. -/
theorem FrameStep.recheckHandle {f f' : Frame} (h : FrameStep s p f ok s' (some f'))
    (hf : f.pc.stage = none) (hf' : f'.pc.stage = some .checked) : f.pc.initializePc = some .recheckHandle := by
  obtain ⟨t', ht', hstage⟩ := Pc.initializePc_of_checked hf'
  rcases h.initializePc ht' with rfl | ⟨t, ht, hto⟩
  · cases hstage
  · have hnone : t.stage = none := by rw [← Pc.stage_of_initializePc ht, hf]
    rw [ht]
    generalize f.transition = x at hto
    generalize f'.transition = y at hto
    cases hto with
    | inTransition => exact absurd (hnone.symm.trans hstage) nofun
    | transitionStart => exact absurd (hnone.symm.trans hstage) nofun
    | transitionDone _ _ tr s' stored threw hst hr => cases InitializePc.resume_goto hr <;> cases hstage
    | exec _ _ s' hex => rw [execInitialize_checked hex hstage]

/-! ## Runs -/

/-- A call of `Initialize` between its check under the configuration lock and
the start gate, or the record of its failure. -/
def Pc.committed (pc : Pc) : Bool := (pc.initializePc.bind InitializePc.stage).isSome

/-- When `Initialize` finds no task under the configuration lock, no record is
pending and no other call of it is past that point. -/
def ChecksHold (w : World) : Action → Prop
  | .call _ _ => True
  | .step p _ => ∀ f, w.top p = some f → f.pc.initializePc = some .recheckHandle → w.shared.taskHandle = none →
      w.shared.terminationDispatchPending = false ∧ ∀ a g, w.call a = some g → g.pc.committed = false

/-- The current generation is at the stage `st`. -/
structure AtStage (w : World) (st : Stage) : Prop where
  fits : st.Fits w.shared.registers
  token : Token.At Stage.rest w.stages st

/-- No cleanup pass of the manager works on the thread. -/
structure Unmanaged (w : World) : Prop where
  managed : w.shared.managed = false
  calls : ∀ a f, w.call a = some f → ∀ t, f.pc ≠ .cleanUp t

/-- A step of a task while the stage goes from `st` to `st'`. -/
structure Moved (w : World) (p : TaskId) (ok : Bool) (w' : World) (st st' : Stage) (a : TaskId × Nat) (f : Frame)
    (f' : Option Frame) : Prop where
  task : a.1 = p
  top : w.top p = some f
  call : w.call a = some f
  frame : FrameStep w.shared p f ok w'.shared f'
  calls : w'.call = Function.update w.call a f'
  move : Move f.pc.stage w.shared.registers (stageAfter f') w'.shared.registers
  passes : Passes f.pc.stage st (stageAfter f') st'

theorem World.stages_update {a : TaskId × Nat} {f' : Option Frame} (h : w'.call = Function.update w.call a f') :
    w'.stages = Function.update w.stages a (stageAfter f') := by
  funext b
  simp only [World.stages, h, Function.update_apply]
  split <;> rfl

theorem Passes.token {l l' : Option Stage} {st st' : Stage} {a : TaskId × Nat} {c : TaskId × Nat → Option Stage}
    (h : Passes l st l' st') (ht : Token.At Stage.rest c st) (ha : c a = l) :
    Token.At Stage.rest (Function.update c a l') st' := by
  cases h with
  | keep => exact ht.keep ha
  | hold _ _ _ hr => exact ht.move ha hr
  | check | enter | receive => exact ht.take rfl rfl
  | createFailed | giveGate | send | unsent | lost | dispatched => exact ht.release ha rfl

theorem Stage.committed_of_stage {pc : Pc} {st : Stage} (h : pc.stage = some st)
    (hw : ∀ g t, pc ≠ .worker g t) (hd : ∀ t, pc ≠ .dispatcher t) : pc.committed = true := by
  cases pc with
  | initializeThread pc => exact Option.isSome_iff_exists.2 ⟨st, h⟩
  | start pc =>
    cases pc with
    | initializeThread pc => exact Option.isSome_iff_exists.2 ⟨st, h⟩
    | _ => cases h
  | worker g t => exact absurd rfl (hw g t)
  | dispatcher t => exact absurd rfl (hd t)
  | _ => cases h

/-- Without a call of `Initialize` past its check, a free handle leaves at most
a record. -/
theorem AtStage.tail_of {st : Stage} (h : AtStage w st) (hh : w.shared.taskHandle = none)
    (hc : ∀ a g, w.call a = some g → g.pc.committed = false) : st.tail = true := by
  have hfits := h.fits
  -- A stage with a task is not the one.
  have htask : ∀ {g pending gate queue alive}, ¬ w.shared.registers.Has (some g) pending gate queue alive :=
    fun hf => absurd (hf.handle.symm.trans hh) nofun
  by_cases hr : st.rest = true
  · cases st with
    | quiet | queued => rfl
    | gated | lost => exact (htask hfits.1).elim
    | _ => cases hr
  · obtain ⟨a, ha⟩ := h.token.exists_of_held (Bool.eq_false_iff.2 hr)
    obtain ⟨f, hf, hstage⟩ := Option.bind_eq_some_iff.1 ha
    have hnot := hc a f hf
    cases hpc : f.pc with
    | worker g t =>
      rw [hpc] at hstage
      cases t with
      | waitGate | suspended => cases hstage
      | loop | onLoop | onExecutionFailed | notifyExecutionFailed | terminate | beginFinalization | clearPending =>
        cases hstage
        exact (htask hfits.1).elim
      | setTerminated | storePending | send =>
        cases hstage
        exact (htask hfits.2.1).elim
    | dispatcher t =>
      rw [hpc] at hstage
      cases t <;> cases hstage <;> rfl
    | _ =>
      rw [Stage.committed_of_stage hstage (by rw [hpc]; nofun) (by rw [hpc]; nofun)] at hnot
      cases hnot

/-- The stage is `quiet` when the checks of `Initialize` hold. -/
theorem AtStage.quiet_of {st : Stage} (h : AtStage w st) (hh : w.shared.taskHandle = none)
    (hp : w.shared.terminationDispatchPending = false)
    (hc : ∀ a g, w.call a = some g → g.pc.committed = false) : st = .quiet :=
  h.fits.quiet_of_pending hp (h.tail_of hh hc)

theorem Unmanaged.step {a : Action} (h : Unmanaged w) (hs : step w a = some w') : Unmanaged w' := by
  cases a with
  | call p request =>
    obtain ⟨hshared, hm, b, -, -, hcall⟩ := call_update hs
    refine ⟨by rw [hshared]; exact h.managed, ?_⟩
    rw [hcall]
    refine forall_call_update (fun f hf t ht => ?_) fun b f _ hb => h.calls b f hb
    cases hf
    cases request <;> cases ht
    exact absurd (hm rfl) (by simp [h.managed])
  | step p ok =>
    obtain ⟨-, b, f, f', -, -, hf, hstep, hcall⟩ := step_update hs
    have hne := h.calls b f hf
    refine ⟨?_, ?_⟩
    · rw [← h.managed]
      generalize w'.shared = s' at hstep
      rcases hstep.shared_cases with ⟨_, _, _, rfl⟩ | ⟨next, hex⟩
      · rfl
      · rcases exec_aside hex with ⟨-, ha⟩ | ⟨t, n, ht, -, -⟩
        · exact congrArg (fun x => x.2.2.1.2) ha
        · exact absurd ht (hne t)
    · rw [hcall]
      refine forall_call_update (fun g hg t ht => ?_) fun b g _ hb => h.calls b g hb
      rw [hg] at hstep
      obtain ⟨t', ht'⟩ := hstep.method.2.2.1 t ht
      exact hne t' ht'

theorem Unmanaged.top (h : Unmanaged w) (f : Frame) (hf : w.top p = some f) (t : CleanUpPc) : f.pc ≠ .cleanUp t := by
  obtain ⟨n, -, hcall⟩ := World.call_of_top hf
  exact h.calls _ f hcall t

theorem unmanaged_reachable {C : World → Action → Prop} (h : (system false).ReachableWhen C w) : Unmanaged w := by
  refine h.invariant (I := Unmanaged) (fun w hw => ?_) fun w a w' hi _ hs => hi.step hs
  obtain ⟨free, start, precision, rfl⟩ := hw
  refine ⟨rfl, fun a f hf t ht => ?_⟩
  rcases start_call hf with ⟨g, -, rfl⟩ | ⟨-, rfl⟩ <;> cases ht

/-- Nobody else has the generation in hand. -/
theorem AtStage.stage_none {st : Stage} (h : AtStage w st) {a b : TaskId × Nat} {f g : Frame} (hf : w.call a = some f)
    (hg : w.call b = some g) (hs : g.pc.stage ≠ none) (hne : b ≠ a) : f.pc.stage = none := by
  obtain ⟨x, hx⟩ := Option.ne_none_iff_exists'.1 hs
  have := h.token.others (a := b) (y := x) (by simp [World.stages, hg, hx]) (Ne.symm hne)
  simpa [World.stages, hf] using this

/-- One step of a task moves the stage as the protocol says. -/
theorem AtStage.moved_last {st : Stage} (h : AtStage w st) (hok : CallsOk w)
    (hu : ∀ f, w.top p = some f → ∀ t, f.pc ≠ .cleanUp t) (hc : ChecksHold w (.step p ok))
    (hs : step w (.step p ok) = some w') :
    ∃ st' n f f', w.depth p = n + 1 ∧ Moved w p ok w' st st' (p, n) f f' ∧ AtStage w' st' := by
  obtain ⟨hrun, n, f, f', hd, htop, hf, hstep, hcall⟩ := step_last hs
  have hmove := hstep.move (hok (p, n) f hf) (hu f htop) fun g hg => by
    obtain rfl : p = .worker g := hg
    simpa [World.runnable] using hrun
  have hstage : w.stages (p, n) = f.pc.stage := by simp [World.stages, hf]
  have hhold : f.pc.stage = none ∨ (f.pc.stage = some st ∧ st.rest = false) := by
    cases hx : f.pc.stage with
    | none => exact .inl rfl
    | some x =>
      rw [hx] at hstage
      have he := h.token.eq_of_holds hstage
      exact .inr ⟨by rw [he], h.token.not_rest hstage⟩
  have hquiet : f.pc.stage = none → stageAfter f' = some .checked → st = .quiet := by
    intro hn hch
    cases f' with
    | none => cases hch
    | some g =>
      have hpc := hstep.recheckHandle hn hch
      have hh : w.shared.taskHandle = none := by
        rw [hn, hch] at hmove
        exact hmove.handle_of_check
      obtain ⟨hp, hn⟩ := hc f htop hpc hh
      exact h.quiet_of hh hp hn
  obtain ⟨st', hpass, hfits⟩ := hmove.passes hhold h.fits hquiet
  refine ⟨st', n, f, f', hd, ⟨rfl, htop, hf, hstep, hcall, hmove, hpass⟩, hfits, ?_⟩
  rw [World.stages_update hcall]
  exact hpass.token h.token hstage

theorem AtStage.moved {st : Stage} (h : AtStage w st) (hok : CallsOk w) (hu : Unmanaged w)
    (hc : ChecksHold w (.step p ok)) (hs : step w (.step p ok) = some w') :
    ∃ st' a f f', Moved w p ok w' st st' a f f' ∧ AtStage w' st' := by
  obtain ⟨st', n, f, f', -, hm, hst'⟩ := h.moved_last hok hu.top hc hs
  exact ⟨st', (p, n), f, f', hm, hst'⟩

theorem AtStage.pushed {st : Stage} {request : Request} (h : AtStage w st)
    (hs : step w (.call p request) = some w') : AtStage w' st := by
  obtain ⟨hshared, -, a, -, ha, hcall⟩ := call_update hs
  refine ⟨by rw [hshared]; exact h.fits, ?_⟩
  rw [World.stages_update hcall]
  have : stageAfter (some ⟨request.entry, none, w.shared.reclaimed⟩) = none := by
    cases request <;> rfl
  rw [this]
  exact h.token.keep (by simp [World.stages, ha])

theorem atStage_start (s : Shared) (hs : Stage.quiet.Fits s.registers) : AtStage (.start s) .quiet := by
  refine ⟨hs, .resting rfl fun a => ?_⟩
  cases hf : (World.start s).call a with
  | none => simp [World.stages, hf]
  | some f => rcases start_call hf with ⟨g, -, rfl⟩ | ⟨-, rfl⟩ <;> simp [World.stages, hf] <;> rfl

/-- While the checks of `Initialize` hold there is one current generation. -/
theorem atStage_reachable {C : World → Action → Prop} (hC : ∀ w a, C w a → ChecksHold w a)
    (h : (system false).ReachableWhen C w) : ∃ st, AtStage w st := by
  refine h.invariant_with (I := fun w => ∃ st, AtStage w st) (J := fun w => CallsOk w ∧ Unmanaged w)
    (fun _ hr => ⟨callsOk_reachable hr, unmanaged_reachable hr⟩) (fun w hw => ?_) ?_
  · obtain ⟨free, start, precision, rfl⟩ := hw
    exact ⟨.quiet, atStage_start _ ⟨rfl, rfl, rfl, rfl, fun g hg => absurd hg (Nat.not_lt_zero g)⟩⟩
  · rintro w a w' ⟨hok, hu⟩ - ⟨st, hst⟩ hc hs
    cases a with
    | call p request => exact ⟨st, hst.pushed hs⟩
    | step p ok =>
      obtain ⟨st', -, -, -, -, hst'⟩ := hst.moved hok hu (hC _ _ hc) hs
      exact ⟨st', hst'⟩

/-! ## Records -/

/-- The dispatcher is in `_dispatchTermination`. -/
def DispatcherPc.dispatching : DispatcherPc → Bool
  | .receive | .cleanUp => false
  | _ => true

def Pc.dispatching : Pc → Bool
  | .dispatcher pc => pc.dispatching
  | _ => false

/-- The records of the thread that are queued or being dispatched. -/
def World.outstanding (w : World) : Nat :=
  w.shared.queue.length + if (w.call (.dispatcher, 0)).any fun f => f.pc.dispatching then 1 else 0

/-- One record at a time, and its dispatch deletes no worker created after the
one whose exit sent the record. -/
structure OnceOnly (w : World) : Prop where
  outstanding : w.outstanding ≤ 1
  deletes : ∀ a f g h, w.call a = some f → f.pc = .dispatcher (.deleteTask g (some h)) → h ≤ g

theorem Pc.not_dispatching {pc : Pc} (h : pc.stage = none) : pc.dispatching = false := by
  cases pc with
  | dispatcher t =>
    cases t with
    | receive | cleanUp => rfl
    | _ => cases h
  | _ => rfl

/-- The dispatcher dispatches nothing of the thread while nobody has the
generation in hand. -/
theorem AtStage.not_dispatching {st : Stage} (h : AtStage w st) (hr : st.rest = true) :
    ((w.call (.dispatcher, 0)).any fun f => f.pc.dispatching) = false := by
  have hnone := h.token.none_of_rest hr (.dispatcher, 0)
  cases hf : w.call (.dispatcher, 0) with
  | none => rfl
  | some f =>
    have hstage : f.pc.stage = none := by simpa [World.stages, hf] using hnone
    simp only [Option.any_some]
    exact Pc.not_dispatching hstage

theorem AtStage.onceOnly {st : Stage} (h : AtStage w st) : OnceOnly w := by
  refine ⟨?_, fun a f g t hf hpc => ?_⟩
  · unfold World.outstanding
    rcases h.fits.queue_cases with hq | ⟨g, rfl, hq⟩
    · have hq : w.shared.queue = [] := hq
      rw [hq, List.length_nil, Nat.zero_add]
      split <;> decide
    · have hq : w.shared.queue = [g] := hq
      simp [hq, h.not_dispatching rfl]
  · have hst := h.token.eq_of_holds (a := a) (y := .deleting g (some t)) (by simp [World.stages, hf, hpc]; rfl)
    obtain ⟨ht | ht, -⟩ := hst ▸ h.fits
    · cases ht
    · exact Nat.le_of_eq (Option.some.inj ht)

/-- Once-only finalization, while the checks of `Initialize` hold. -/
theorem once_only (w : World) (h : (system false).ReachableWhen ChecksHold w) : OnceOnly w := by
  obtain ⟨st, hst⟩ := atStage_reachable (fun _ _ hc => hc) h
  exact hst.onceOnly

/-! ## A check that is out of date -/

/-- `ChecksHold` of the tasks that run. -/
def ChecksHoldOn (w : World) (a : Action) : Prop :=
  a.task ∈ [TaskId.app 0, .app 1, .worker 0, .worker 1, .dispatcher] ∧
    ((w.top a.task).bind (fun f => f.pc.initializePc) = some .recheckHandle →
      w.shared.terminationDispatchPending = false ∧
        w.callsOn [.app 0, .app 1, .worker 0, .worker 1, .dispatcher] (fun f => !f.pc.committed) = true)

instance (w : World) (a : Action) : Decidable (ChecksHoldOn w a) := by
  unfold ChecksHoldOn
  exact inferInstance

theorem checksHold_of_on {a : Action} (hi : w.IdleBut [.app 0, .app 1, .worker 0, .worker 1, .dispatcher])
    (h : ChecksHoldOn w a) : ChecksHold w a := by
  cases a with
  | call => trivial
  | step p ok =>
    intro f htop hpc _
    obtain ⟨hp, hon⟩ := h.2 (by simp [Action.task, htop, hpc])
    refine ⟨hp, fun a g hg => ?_⟩
    have := hi.forall_call (P := fun f => !f.pc.committed) (by rintro f (⟨g, rfl⟩ | rfl) <;> rfl) hon a g hg
    simpa using this

/-- The record of the first generation is being dispatched. -/
theorem exit_dispatching : ∃ w, (system false).ReachableWhen ChecksHold w ∧ w.outstanding = 1 ∧ OnceOnly w := by
  have hrun : ((system false).replayWhen ChecksHoldOn (newThread false false)
      (initialized ++ terminating ++ steps (.worker 0) 13 ++ steps .dispatcher 2)).map (fun w => w.outstanding) =
      some 1 := by
    decide +kernel
  obtain ⟨w, hs, hp⟩ := Option.map_eq_some_iff.1 hrun
  have hl := (Transition.System.leads_of_replayWhen hs).mono_with (idleBut_start _ _)
    (fun _ _ _ hi hd hst => hi.step hd.1 hst) fun _ _ hi hd => checksHold_of_on hi hd
  have hr := (Transition.System.ReachableWhen.init (newThread_init false false)).leads hl
  exact ⟨w, hr, hp, once_only w hr⟩

/-- Application task 1 has made the checks of `Initialize`, but for the one
under the configuration lock, when task 0 fails to initialize the thread. -/
theorem two_records : ¬ ∀ w, (system false).Reachable w → OnceOnly w := by
  intro hall
  have hrun : ((system false).replay (newThread false false)
      ([.call (.app 1) .initializeThread] ++ steps (.app 1) 5 ++ initializationThrows ++ steps (.app 0) 25 ++
        steps (.app 1) 7 ++ steps .dispatcher 2 ++ steps (.app 1) 10)).map
      (fun w => (w.outstanding, w.call (.dispatcher, 0))) =
      some (2, some ⟨.dispatcher (.deleteTask 0 (some 1)), none, false⟩) := by
    decide +kernel
  obtain ⟨w, hs, hp⟩ := Option.map_eq_some_iff.1 hrun
  simp only [Prod.mk.injEq] at hp
  have hr := Transition.System.reachable_of_replay (newThread_init false false) hs
  have hone := (hall w hr).outstanding
  rw [hp.1] at hone
  exact absurd hone (by decide)

end ESPressio.Lifecycle
