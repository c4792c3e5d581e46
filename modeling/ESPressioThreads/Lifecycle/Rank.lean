import ESPressioThreads.Lifecycle.Steps
/-!
# Ranks of calls

A bound on the steps that a call still makes when it is not blocked and its
user code calls nothing. `Pc.advances` says where the next step lowers it.
-/

namespace ESPressio.Lifecycle

open Transition ESPressio.Thread

variable {w w' : World} {s s' : Shared} {p q : TaskId} {ok : Bool} {f : Frame}

def TransitionPc.rank : TransitionPc → Nat
  | .lock => 8
  | .check => 7
  | .onStateChange => 6
  | .getThreadState => 5
  | .onThreadEvent => 4
  | .notifyObservers => 3
  | .loadInProgress => 2
  | .loadInitializing => 1
  | .unlock => 0

def TerminatePc.rank : TerminatePc → Nat
  | .readState => 4
  | .fromUninitialized => 3
  | .setTerminated | .request => 2
  | .signalScheduler => 1

def InitializePc.rank : InitializePc → Nat
  | .ensureRegistered => 50
  | .loadHandle => 49
  | .loadPending => 48
  | .ensureDispatcher => 47
  | .readState => 46
  | .reset => 45
  | .lockConfiguration => 44
  | .recheckHandle => 43
  | .resetExited => 42
  | .resetGate => 41
  | .resetFinalization => 40
  | .create => 39
  | .publish _ => 38
  | .unlockConfiguration _ => 37
  | .storeInitializing _ => 36
  | .storeInProgress _ => 35
  | .onInitialization _ => 34
  | .readAfterInitialization _ => 33
  | .setInitialized _ => 32
  | .readAfterInitialized _ => 31
  | .loadStartOnInitialize _ => 30
  | .setRunning _ => 29
  | .giveGate _ => 28
  | .stopTerminated _ => 27
  | .catchTerminate _ pc => 20 + pc.rank
  | .catchTerminated _ => 19
  | .exchangeTask _ _ => 18
  | .deleteTask _ _ _ => 17
  | .beginFinalization _ _ => 16
  | .storePending _ _ => 15
  | .send _ _ => 14
  | .clearPending _ => 13
  | .clearInProgress _ => 12
  | .clearInitializing _ => 11
  | .onInitializationFailed _ => 10
  | .notifyInitializationFailed _ => 9
  | .finished _ => 8

def StartPc.rank : StartPc → Nat
  | .readState => 60
  | .initializeThread pc => 3 + pc.rank
  | .setRunning | .tryInitialized | .tryPaused => 2
  | .signalScheduler => 1

def ShutdownPc.rank : ShutdownPc → Nat
  | .claimManual => 20
  | .storeFree => 19
  | .releaseClaim => 18
  | .loadHandle => 17
  | .loadInProgress _ => 16
  | .loadInitializing _ => 15
  | .readState => 14
  | .rereadState => 13
  | .terminate _ pc => 8 + pc.rank
  | .setTerminated => 7
  | .waitExited => 6
  | .loadPending => 5
  | .isCurrentTask => 4
  | .poll => 3
  | .finish => 2

def WorkerPc.rank : WorkerPc → Nat
  | .waitGate | .loop | .onLoop => 22
  | .onExecutionFailed => 21
  | .notifyExecutionFailed => 20
  | .terminate pc => 10 + pc.rank
  | .beginFinalization => 9
  | .setTerminated => 8
  | .storePending => 7
  | .send => 6
  | .clearPending => 5
  | .suspended => 4

def DispatcherPc.rank : DispatcherPc → Nat
  | .cleanUp => 9
  | .receive => 8
  | .exchangeTask _ => 7
  | .deleteTask _ _ => 6
  | .readState _ => 5
  | .onTerminated _ => 4
  | .onThreadTaskExited _ => 3
  | .giveExited _ => 2
  | .clearPending _ => 1

def Pc.rank : Pc → Nat
  | .setFreeOnTerminate _ false => 2
  | .terminate pc => pc.rank
  | .initializeThread pc => pc.rank
  | .start pc => pc.rank
  | .shutdown pc => pc.rank
  | .worker _ pc => pc.rank
  | .dispatcher pc => pc.rank
  | .idle | .setFreeOnTerminate _ true | .setStartOnInitialize _ | .pause | .cleanUp _ => 1

def Frame.rank (f : Frame) : Nat :=
  10 * f.pc.rank +
    match f.transition with
    | some tr => tr.pc.rank
    | none => 9

/-- The next step of a call that waits for no transition can be made, and is
not one of those that keep the call where it is or take it back. -/
def Pc.advances (s : Shared) : Pc → Bool
  | .initializeThread .lockConfiguration | .start (.initializeThread .lockConfiguration) => false
  | .shutdown .waitExited => false
  | .shutdown .poll => !s.terminationDispatchPending
  | .worker _ .waitGate | .worker _ .loop | .worker _ .onLoop | .worker _ .suspended => false
  | .dispatcher .receive => !s.queue.isEmpty
  | .dispatcher (.clearPending _) => false
  | .idle | .cleanUp _ => false
  | _ => true

/-- A step is made, and every way on has a lower rank. -/
def Lowers {π : Type} (rank : π → Nat) (r : Option (Shared × Next π)) (n : Nat) : Prop :=
  ∃ s' next, r = some (s', next) ∧ ∀ pc, next = .goto pc → rank pc < n

theorem execTerminate_rank {t t' : TerminatePc} (h : execTerminate s t = .goto t') : t'.rank < t.rank := by
  cases t <;> simp only [execTerminate] at h
  case readState =>
    split at h
    case h_1 | h_2 | h_3 | h_4 => cases h; decide
    all_goals
      unfold TerminatePc.tail at h
      split at h <;> cases h
      decide
  all_goals cases h

theorem Lowers.intro {π : Type} {rank : π → Nat} {next : Next π} {n : Nat}
    (h : ∀ pc, next = .goto pc → rank pc < n) : Lowers rank (some (s', next)) n := ⟨_, _, rfl, h⟩

theorem execInitialize_lowers {k : Bool} (pc : InitializePc) (ht : pc.transition = none)
    (hl : pc ≠ .lockConfiguration) : Lowers InitializePc.rank (execInitialize s p pc k) pc.rank := by
  cases pc <;> simp only [execInitialize]
  case lockConfiguration => exact absurd rfl hl
  case catchTerminate g u =>
    refine .intro fun t hn => ?_
    obtain ⟨y, hy, rfl⟩ | ⟨_, -, hr⟩ := Next.inside_goto hn
    · have := execTerminate_rank hy
      simp only [InitializePc.rank]
      omega
    · cases hr
      simp only [InitializePc.rank]
      omega
  case reset | setInitialized | setRunning | stopTerminated | catchTerminated => cases ht
  case recheckHandle | create | publish | beginFinalization | send | giveGate =>
    split
    · exact .intro fun t hn => by cases hn; simp [InitializePc.rank]
    · exact .intro fun t hn => by cases hn; simp [InitializePc.rank]
  case onInitialization =>
    refine .intro fun t hn => ?_
    split at hn <;> cases hn <;> simp [InitializePc.rank, TerminatePc.rank]
  case ensureRegistered | loadHandle | loadPending | ensureDispatcher | readState | readAfterInitialization |
      readAfterInitialized | loadStartOnInitialize | clearInitializing =>
    refine .intro fun t hn => ?_
    split at hn <;> cases hn <;> simp [InitializePc.rank]
  case finished => exact .intro (by rintro _ ⟨⟩)
  all_goals exact .intro fun t hn => by cases hn; simp [InitializePc.rank]

theorem Lowers.inside {π ρ : Type} {rank : π → Nat} {rank' : ρ → Nat} {call : π → ρ} {r : Option (Shared × Next π)}
    {n k : Nat} (h : Lowers rank r n) (hr : ∀ pc, rank' (call pc) = k + rank pc) :
    Lowers rank' (r.map fun r => (r.1, r.2.inside call .ret)) (k + n) := by
  obtain ⟨s', next, rfl, hn⟩ := h
  refine ⟨s', _, rfl, fun pc hpc => ?_⟩
  obtain ⟨y, rfl, rfl⟩ | ⟨_, -, hr'⟩ := Next.inside_goto hpc
  · have := hn y rfl
    rw [hr]
    omega
  · cases hr'

theorem execStart_lowers {k : Bool} (pc : StartPc) (ht : pc.transition = none)
    (hl : pc ≠ .initializeThread .lockConfiguration) : Lowers StartPc.rank (execStart s p pc k) pc.rank := by
  cases pc with
  | readState =>
    refine .intro fun t hn => ?_
    have htail : ∀ {t}, StartPc.tail s = .goto t → t.rank < StartPc.rank .readState := by
      intro t h
      rw [StartPc.tail_goto h]
      decide
    split at hn
    case h_5 | h_6 | h_7 => exact htail hn
    all_goals cases hn; decide
  | initializeThread t =>
    have hrank : ∀ t, StartPc.rank (.initializeThread t) = 3 + t.rank := fun _ => rfl
    have hlowers := (execInitialize_lowers (s := s) (p := p) (k := k) t ht (by rintro rfl; exact hl rfl)).inside hrank
    cases t
    case finished status =>
      refine .intro fun t hn => ?_
      split at hn
      · cases hn; simp [StartPc.rank, InitializePc.rank]
      · rw [StartPc.tail_goto hn]; simp [StartPc.rank, InitializePc.rank]
    all_goals exact hlowers
  | signalScheduler => exact .intro nofun
  | _ => cases ht

theorem execShutdown_lowers (pc : ShutdownPc) (ht : pc.transition = none) (hw : pc ≠ .waitExited)
    (hp : pc = .poll → s.terminationDispatchPending = false) :
    Lowers ShutdownPc.rank (execShutdown s p pc) pc.rank := by
  have hchoose : ∀ handle, (ShutdownPc.choose p handle).rank < 15 := by
    intro handle
    cases handle with
    | none => simp [ShutdownPc.choose, ShutdownPc.rank]
    | some g => simp [ShutdownPc.choose, ShutdownPc.rank, TerminatePc.rank]
  cases pc <;> simp only [execShutdown]
  case waitExited => exact absurd rfl hw
  case setTerminated => cases ht
  case loadInProgress handle =>
    refine .intro fun t hn => ?_
    cases hn
    have := hchoose handle
    split
    · simp [ShutdownPc.rank]
    · simp only [ShutdownPc.rank] at this ⊢
      omega
  case loadInitializing handle =>
    refine .intro fun t hn => ?_
    cases hn
    split
    · simp [ShutdownPc.rank, TerminatePc.rank]
    · exact hchoose handle
  case terminate branch u =>
    refine .intro fun t hn => ?_
    obtain ⟨y, hy, rfl⟩ | ⟨threw, -, hr⟩ := Next.inside_goto hn
    · have := execTerminate_rank hy
      simp only [ShutdownPc.rank]
      omega
    · unfold ShutdownBranch.after at hr
      split at hr
      · cases hr
      · cases branch <;> cases hr <;> simp only [ShutdownPc.rank] <;> omega
  -- With the pending flag clear the poll is the last one.
  case poll =>
    refine .intro fun t hn => ?_
    rw [hp rfl] at hn
    cases hn
    decide
  case readState | rereadState | loadPending | isCurrentTask =>
    refine .intro fun t hn => ?_
    split at hn <;> cases hn <;> simp [ShutdownPc.rank, TerminatePc.rank]
  case finish => exact .intro (by rintro _ ⟨⟩)
  all_goals exact .intro fun t hn => by cases hn; simp [ShutdownPc.rank]

theorem execWorker_lowers (g : Gen) (pc : WorkerPc) (ht : pc.transition = none)
    (ha : (Pc.worker g pc).advances s = true) : Lowers WorkerPc.rank (execWorker s g pc true) pc.rank := by
  cases pc <;> simp only [execWorker]
  case waitGate | loop | onLoop | suspended => cases ha
  case setTerminated => cases ht
  case terminate u =>
    refine .intro fun t hn => ?_
    obtain ⟨y, hy, rfl⟩ | ⟨_, -, hr⟩ := Next.inside_goto hn
    · have := execTerminate_rank hy
      simp only [WorkerPc.rank]
      omega
    · cases hr
      simp only [WorkerPc.rank]
      omega
  case beginFinalization =>
    split
    · exact .intro fun t hn => by cases hn; decide
    · exact .intro fun t hn => by cases hn; decide
  all_goals exact .intro fun t hn => by cases hn; decide

theorem execDispatcher_lowers (pc : DispatcherPc) (ha : (Pc.dispatcher pc).advances s = true) :
    Lowers DispatcherPc.rank (execDispatcher s pc) pc.rank := by
  cases pc <;> simp only [execDispatcher]
  case receive =>
    split
    · rename_i hq
      simp [Pc.advances, hq] at ha
    · exact .intro fun t hn => by cases hn; simp [DispatcherPc.rank]
  case clearPending g => cases ha
  case readState g =>
    refine .intro fun t hn => ?_
    simp only [Next.goto.injEq] at hn
    split at hn <;> cases hn <;> simp [DispatcherPc.rank]
  all_goals exact .intro fun t hn => by cases hn; simp [DispatcherPc.rank]

theorem exec_lowers (pc : Pc) (ht : pc.transition = none) (ha : pc.advances s = true) :
    Lowers Pc.rank (exec s p pc true) pc.rank := by
  have hzero : ∀ {π : Type} {rank : π → Nat} {call : π → Pc} {r : Option (Shared × Next π)} {n : Nat},
      Lowers rank r n → (∀ t, (call t).rank = rank t) →
      Lowers Pc.rank (r.map fun r => (r.1, r.2.inside call .ret)) n := by
    intro π rank call r n h hr
    have hrank : ∀ t, (call t).rank = 0 + rank t := fun t => by rw [hr, Nat.zero_add]
    have := h.inside hrank
    rwa [Nat.zero_add] at this
  cases pc with
  | idle | cleanUp => cases ha
  | pause => cases ht
  | setFreeOnTerminate value stored =>
    cases stored
    · exact .intro fun t hn => by cases hn; simp [Pc.rank]
    · exact .intro nofun
  | setStartOnInitialize value => exact .intro nofun
  | terminate t =>
    refine .intro fun pc hn => ?_
    obtain ⟨y, hy, rfl⟩ | ⟨_, -, hr⟩ := Next.inside_goto hn
    · exact execTerminate_rank hy
    · cases hr
  | initializeThread t =>
    exact hzero (execInitialize_lowers t ht (by rintro rfl; cases ha)) fun _ => rfl
  | start t => exact hzero (execStart_lowers t ht (by rintro rfl; cases ha)) fun _ => rfl
  | shutdown t =>
    refine hzero (execShutdown_lowers t ht (by rintro rfl; cases ha) ?_) fun _ => rfl
    rintro rfl
    simpa [Pc.advances] using ha
  | worker g t => exact hzero (execWorker_lowers g t ht ha) fun _ => rfl
  | dispatcher t => exact hzero (execDispatcher_lowers t ha) fun _ => rfl

/-! ## After a transition -/

theorem TerminatePc.resume_rank {t t' : TerminatePc} {threw : Bool} (h : t.resume s threw = .goto t')
    (ht : t.transition ≠ none) : t'.rank < t.rank := by
  have htail : (if threw then .ret true else TerminatePc.tail s) = Next.goto t' → t'.rank = 1 := by
    intro h
    split at h
    · cases h
    · unfold TerminatePc.tail at h
      split at h <;> cases h
      rfl
  cases t <;> simp only [TerminatePc.resume] at h
  case fromUninitialized => split at h <;> cases h; decide
  case setTerminated | request => rw [htail h]; decide
  all_goals exact absurd rfl ht

theorem InitializePc.resume_rank {t t' : InitializePc} {stored threw : Bool} (h : t.resume s stored threw = .goto t')
    (ht : t.transition ≠ none) : t'.rank < t.rank := by
  cases InitializePc.resume_goto h with
  | terminate g u u' hu =>
    have := TerminatePc.resume_rank hu ht
    simp only [InitializePc.rank]
    omega
  | terminated g u threw' hu =>
    simp only [InitializePc.rank]
    omega
  | _ => simp [InitializePc.rank, TerminatePc.rank]

theorem resume_rank {pc pc' : Pc} {stored threw : Bool} (h : pc.resume s stored threw = .goto pc')
    (ht : pc.transition ≠ none) (hc : ∀ t, pc ≠ .cleanUp t) : pc'.rank < pc.rank := by
  cases resume_goto h with
  | terminate t t' hr => exact TerminatePc.resume_rank hr ht
  | initializeThread t t' hr => exact InitializePc.resume_rank hr ht
  | start t t' hr =>
    cases t with
    | initializeThread t =>
      obtain ⟨y, hy, rfl⟩ | ⟨_, -, hr⟩ := Next.inside_goto hr
      · have := InitializePc.resume_rank hy ht
        simp only [Pc.rank, StartPc.rank]
        omega
      · cases hr
    | setRunning | tryInitialized | tryPaused =>
      simp only [StartPc.resume] at hr
      split at hr
      · cases hr
      · rw [StartPc.tail_goto hr]
        decide
    | readState | signalScheduler => exact absurd rfl ht
  | shutdown t t' hr =>
    cases t with
    | terminate branch u =>
      obtain ⟨y, hy, rfl⟩ | ⟨threw', -, hr⟩ := Next.inside_goto hr
      · have := TerminatePc.resume_rank hy ht
        simp only [Pc.rank, ShutdownPc.rank]
        omega
      · unfold ShutdownBranch.after at hr
        split at hr
        · cases hr
        · cases branch <;> cases hr <;> simp only [Pc.rank, ShutdownPc.rank] <;> omega
    | setTerminated =>
      simp only [ShutdownPc.resume] at hr
      split at hr <;> cases hr
      decide
    | _ => exact absurd rfl ht
  | worker g t t' hr =>
    cases t with
    | terminate u =>
      obtain ⟨y, hy, rfl⟩ | ⟨_, -, hr⟩ := Next.inside_goto hr
      · have := TerminatePc.resume_rank hy ht
        simp only [Pc.rank, WorkerPc.rank]
        omega
      · cases hr
        simp only [Pc.rank, WorkerPc.rank]
        omega
    | setTerminated => cases hr; simp [Pc.rank, WorkerPc.rank]
    | _ => exact absurd rfl ht
  | cleanUp => exact absurd rfl (hc _)

theorem stepTransition_rank {tr tr' : StateTransition} (h : stepTransition s p tr ok = some (s', .goto tr')) :
    tr'.pc.rank < tr.pc.rank := by
  unfold stepTransition at h
  split at h <;> rename_i hpc <;> rw [hpc]
  · split at h <;> cases h
    simp [TransitionPc.rank]
  · split at h <;> cases h <;> simp [TransitionPc.rank]
  · cases h; simp [TransitionPc.rank]
  · cases h; dsimp only; split <;> simp [TransitionPc.rank]
  · cases h; simp [TransitionPc.rank]
  · cases h; dsimp only; split <;> simp [TransitionPc.rank]
  · cases h; dsimp only; split <;> simp [TransitionPc.rank]
  · cases h; simp [TransitionPc.rank]
  · cases h

/-- A transition waits for the lock only. -/
theorem stepTransition_enabled (tr : StateTransition)
    (hl : s.transitionOwner = none ∨ s.transitionOwner = some p) : ∃ r, stepTransition s p tr ok = some r := by
  unfold stepTransition
  split
  · rw [if_pos hl]
    exact ⟨_, rfl⟩
  · split <;> exact ⟨_, rfl⟩
  all_goals exact ⟨_, rfl⟩

/-! ## Steps of a task -/

/-- A call whose next step is not blocked makes it, and lowers its rank or
returns. -/
theorem stepFrame_lowers {a : TaskId × Nat} (hok : f.Ok a) (hc : ∀ t, f.pc ≠ .cleanUp t)
    (hl : f.transition ≠ none → s.transitionOwner = none ∨ s.transitionOwner = some p)
    (ha : f.transition = none → f.pc.transition = none → f.pc.advances s = true) :
    ∃ s' f', stepFrame s p f true = some (s', f') ∧ ∀ f₁, f' = some f₁ → f₁.rank < f.rank := by
  unfold stepFrame
  cases htr : f.transition with
  | some tr =>
    have hpc : f.pc.transition ≠ none := by
      rw [hok.transition tr htr]
      exact Option.some_ne_none _
    obtain ⟨⟨s', next⟩, hst⟩ : ∃ r, stepTransition s p tr true = some r :=
      stepTransition_enabled tr (hl (by rw [htr]; exact Option.some_ne_none _))
    simp only [hst, Option.map_some]
    cases next with
    | goto tr' =>
      refine ⟨_, _, rfl, fun f₁ hf => ?_⟩
      cases hf
      have := stepTransition_rank hst
      simp only [Frame.rank, htr]
      omega
    | done stored threw =>
      refine ⟨_, _, rfl, fun f₁ hf => ?_⟩
      -- The call comes out of its transition, with a program counter of lower rank.
      cases hn : f.pc.resume s' stored threw with
      | ret threw => rw [hn] at hf; cases hf
      | goto pc =>
        rw [hn] at hf
        cases hf
        have := resume_rank hn hpc hc
        simp only [Frame.rank, htr]
        omega
  | none =>
    cases hpc : f.pc.transition with
    | some target =>
      refine ⟨_, _, rfl, fun f₁ hf => ?_⟩
      cases hf
      simp only [Frame.rank, htr, StateTransition.start, TransitionPc.rank]
      omega
    | none =>
      obtain ⟨s', next, hex, hnext⟩ := exec_lowers (p := p) f.pc hpc (ha htr hpc)
      refine ⟨s', f.next next, by simp [hex], fun f₁ hf => ?_⟩
      cases next with
      | ret threw => cases hf
      | goto pc =>
        cases hf
        have := hnext pc rfl
        simp only [Frame.rank, htr]
        omega

/-- The ranks of the calls on a stack. -/
def stackWork (frames : Nat → Frame) : Nat → Nat
  | 0 => 0
  | n + 1 => stackWork frames n + (frames n).rank + 1

def World.work (w : World) (q : TaskId) : Nat := stackWork (fun n => w.frames (q, n)) (w.depth q)

theorem stackWork_congr {frames frames' : Nat → Frame} {n : Nat} (h : ∀ m, m < n → frames m = frames' m) :
    stackWork frames n = stackWork frames' n := by
  induction n with
  | zero => rfl
  | succ n ih =>
    simp only [stackWork]
    rw [ih fun m hm => h m (by omega), h n (by omega)]

/-- A task whose last call is not blocked makes a step, with less work left. -/
theorem step_lowers {n : Nat} {a : TaskId × Nat} (hrun : w.runnable p = true) (hd : w.depth p = n + 1)
    (hok : (w.frames (p, n)).Ok a) (hc : ∀ t, (w.frames (p, n)).pc ≠ .cleanUp t)
    (hl : (w.frames (p, n)).transition ≠ none →
      w.shared.transitionOwner = none ∨ w.shared.transitionOwner = some p)
    (ha : (w.frames (p, n)).transition = none → (w.frames (p, n)).pc.transition = none →
      (w.frames (p, n)).pc.advances w.shared = true) :
    ∃ w', step w (.step p true) = some w' ∧ w'.work p < w.work p ∧ ∀ q, q ≠ p → w'.work q = w.work q := by
  obtain ⟨s', f', hs, hrank⟩ := stepFrame_lowers hok hc hl ha
  -- The calls below the last one are as they were, and so are other tasks.
  have hbelow : ∀ {x : World} {f : Frame}, x.frames = w.frames →
      stackWork (fun m => (x.setFrame (p, n) f).frames (p, m)) n = stackWork (fun m => w.frames (p, m)) n := by
    intro x f hx
    refine stackWork_congr fun m hm => ?_
    have hne : (p, m) ≠ (p, n) := by
      rintro ⟨⟩
      omega
    rw [World.setFrame_frames, if_neg hne, hx]
  have hothers : ∀ {x : World} {f : Frame} (q : TaskId), q ≠ p → x.frames = w.frames → x.depth q = w.depth q →
      (x.setFrame (p, n) f).work q = w.work q := by
    intro x f q hq hx hdq
    unfold World.work
    rw [World.setFrame_depth, hdq]
    refine stackWork_congr fun m _ => ?_
    have hne : (q, m) ≠ (p, n) := fun he => hq (Prod.mk.inj he).1
    rw [World.setFrame_frames, if_neg hne, hx]
  cases f' with
  | some f =>
    refine ⟨({ w with shared := s' }.setFrame (p, n) f), by simp [step, hrun, hd, hs], ?_,
      fun q hq => hothers q hq rfl rfl⟩
    have := hrank f rfl
    simp only [World.work, World.setFrame_depth, hd, stackWork]
    rw [hbelow (x := { w with shared := s' }) rfl, World.setFrame_frames, if_pos rfl]
    omega
  | none =>
    refine ⟨({ w with shared := s', depth := Function.update w.depth p n }.setFrame (p, n) Frame.idle),
      by simp [step, hrun, hd, hs], ?_, fun q hq =>
        hothers (x := { w with shared := s', depth := Function.update w.depth p n }) q hq rfl (by simp [hq])⟩
    simp only [World.work, World.setFrame_depth, Function.update_self, hd, stackWork]
    rw [hbelow (x := { w with shared := s', depth := Function.update w.depth p n }) rfl]
    omega

end ESPressio.Lifecycle
