import ESPressioThreads.Lib.Bisimulation
import ESPressioThreads.Precision.Runs
import ESPressioThreads.Thread.State
/-!
# Rejected lifecycle calls

`PrecisionThread` wraps three lifecycle methods of `Thread`. `Initialize` resets
the schedule before the base method can reject the call, `Pause` after it has,
and only `Start` tests the state first. So a call that performs no transition
loses the schedule and the measurements, unless there is nothing to lose.

A thread here is its timing machine and what the methods of `Thread` test. Two
machines are compared by every schedule of steps that may follow.
-/

namespace ESPressio.Precision

open Transition ESPressio.Thread

/-! ## The calls -/

/-- What the lifecycle methods of `Thread` test: the state, and whether
`_taskHandle` is set. -/
structure Base where
  threadState : ThreadState
  hasTask : Bool
  deriving DecidableEq, Repr

/-- `Thread::Initialize` when the task exists; `none` where it creates one. -/
def Base.initializeThread (b : Base) : Option (Base × ThreadInitializationStatus) :=
  if b.hasTask then some (b, .alreadyInitialized) else none

/-- `Thread::Start`; `none` where it calls `Initialize`. The source checks the
state and then acts on it; the two are one step here. -/
def Base.start (b : Base) : Option (Base × ThreadInitializationStatus) :=
  match b.threadState with
  | .uninitialized | .terminated => none
  | .initialized | .paused => some ({ b with threadState := .running }, .alreadyInitialized)
  | .running => some (b, .alreadyInitialized)
  | .terminating | .destroyed => some (b, .invalidState)

/-- `Thread::Pause`. -/
def Base.pause (b : Base) : Base := if b.threadState = .running then { b with threadState := .paused } else b

structure PrecisionThread where
  machine : Machine
  base : Base

namespace PrecisionThread

def reset (p : PrecisionThread) : PrecisionThread :=
  { p with machine := { p.machine with timing := resetSchedule p.machine.timing true } }

def initializeThread (p : PrecisionThread) : Option (PrecisionThread × ThreadInitializationStatus) :=
  p.base.initializeThread.map fun (b, status) => ({ p.reset with base := b }, status)

-- The test for `Paused` and the one in `Thread::Start` read the state at the call.
def start (p : PrecisionThread) : Option (PrecisionThread × ThreadInitializationStatus) :=
  let p := if p.base.threadState = .paused then p.reset else p
  p.base.start.map fun (b, status) => ({ p with base := b }, status)

def pause (p : PrecisionThread) : PrecisionThread := { p with base := p.base.pause }.reset

end PrecisionThread

/-- `ThreadManager::InitializeWithResults`, over the threads of its snapshot. -/
def initializeWithResults (threads : List PrecisionThread) :
    Option (List (PrecisionThread × ThreadInitializationStatus)) :=
  threads.mapM PrecisionThread.initializeThread

inductive LifecycleCall
  | initializeThread
  | start
  | pause
  deriving DecidableEq, Repr

/-- The thread after a call, and what the call returns. -/
def PrecisionThread.call (p : PrecisionThread) :
    LifecycleCall → Option (PrecisionThread × Option ThreadInitializationStatus)
  | .initializeThread => p.initializeThread.map fun (p, status) => (p, some status)
  | .start => p.start.map fun (p, status) => (p, some status)
  | .pause => some (p.pause, none)

/-- The call performs no transition. -/
def Rejected (b : Base) : LifecycleCall → Prop
  | .initializeThread => b.hasTask = true
  | .start => b.threadState = .running
  | .pause => b.threadState ≠ .running

/-! ## What is compared -/

/-- The deadline grid, the previous iteration, the window and the frequencies. -/
structure View where
  grid : Option UInt64
  previous : Option (UInt64 × UInt64)
  samples : List UInt64
  frequency : Rat
  average : Rat
  deriving DecidableEq

def view (t : Timing) : View where
  grid := if t.scheduleInitialized then some t.nextIteration else none
  previous := if t.hasPreviousIteration then some (t.previousStart, t.previousEnd) else none
  samples := t.iterationSamples
  frequency := t.iterationFrequency
  average := t.averageIterationFrequency

/-- What the scheduling section decides: to wait, or to start an iteration at a
deadline with its delta and its skip count. -/
inductive Decision
  | wait (remaining : UInt64)
  | iterate (deadline delta skipped : UInt64)
  deriving DecidableEq, Repr

def Scheduled.decision (deadline : UInt64) : Scheduled → Decision
  | .wait remaining => .wait remaining
  | .iterate delta skipped _ => .iterate deadline delta skipped

def decision (m : Machine) : RunAction → Option Decision
  | .act .schedule =>
    match m.loop with
    | .sampled now => some ((scheduleLocked m.timing now).2.decision (deadlineAt m.timing now))
    | _ => none
  | _ => none

/-- No run that follows shows a difference, now or in its later iterations. -/
abbrev Unnoticed (m m' : Machine) : Prop :=
  System.Indistinguishable runs decision (fun m => view m.timing) m m'

/-- There is nothing that a reset would lose. -/
def NothingToReset (m : Machine) : Prop :=
  view m.timing = ⟨none, none, [], 0, 0⟩ ∧ ∀ now generation, m.loop ≠ .iterating now generation

/-! ## Timing states that behave alike -/

/-- The same but for the generation, the active start, and what is not in use. -/
structure Alike (t t' : Timing) : Prop where
  deltaMode : t'.deltaMode = t.deltaMode
  iterationPeriod : t'.iterationPeriod = t.iterationPeriod
  desiredIterationPeriod : t'.desiredIterationPeriod = t.desiredIterationPeriod
  iterationSampleCount : t'.iterationSampleCount = t.iterationSampleCount
  iterationSamples : t'.iterationSamples = t.iterationSamples
  iterationFrequency : t'.iterationFrequency = t.iterationFrequency
  averageIterationFrequency : t'.averageIterationFrequency = t.averageIterationFrequency
  scheduleInitialized : t'.scheduleInitialized = t.scheduleInitialized
  hasPreviousIteration : t'.hasPreviousIteration = t.hasPreviousIteration
  nextIteration : t.scheduleInitialized = true → t'.nextIteration = t.nextIteration
  previous : t.hasPreviousIteration = true → t'.previousStart = t.previousStart ∧ t'.previousEnd = t.previousEnd

variable {t t' : Timing}

theorem Alike.symm (h : Alike t t') : Alike t' t where
  deltaMode := h.deltaMode.symm
  iterationPeriod := h.iterationPeriod.symm
  desiredIterationPeriod := h.desiredIterationPeriod.symm
  iterationSampleCount := h.iterationSampleCount.symm
  iterationSamples := h.iterationSamples.symm
  iterationFrequency := h.iterationFrequency.symm
  averageIterationFrequency := h.averageIterationFrequency.symm
  scheduleInitialized := h.scheduleInitialized.symm
  hasPreviousIteration := h.hasPreviousIteration.symm
  nextIteration hi := (h.nextIteration (h.scheduleInitialized ▸ hi)).symm
  previous hp := by
    obtain ⟨hs, he⟩ := h.previous (h.hasPreviousIteration ▸ hp)
    exact ⟨hs.symm, he.symm⟩

theorem Alike.view (h : Alike t t') : Precision.view t = Precision.view t' := by
  unfold Precision.view
  rw [h.scheduleInitialized, h.hasPreviousIteration, h.iterationSamples, h.iterationFrequency,
    h.averageIterationFrequency]
  congr 1
  · split
    · rw [h.nextIteration ‹_›]
    · rfl
  · split
    · obtain ⟨hs, he⟩ := h.previous ‹_›
      rw [hs, he]
    · rfl

theorem Alike.resetSchedule (h : Alike t t') :
    Alike (Precision.resetSchedule t true) (Precision.resetSchedule t' true) :=
  ⟨h.deltaMode, h.iterationPeriod, h.desiredIterationPeriod, h.iterationSampleCount, rfl, rfl, rfl, rfl, rfl, nofun,
    nofun⟩

/-- A state with nothing in use is like its reset. -/
theorem alike_reset (h : Precision.view t = ⟨none, none, [], 0, 0⟩) : Alike t (Precision.resetSchedule t true) := by
  have hgrid := congrArg View.grid h
  have hprevious := congrArg View.previous h
  have hinit : t.scheduleInitialized = false := by
    by_contra hi
    rw [Bool.not_eq_false] at hi
    simp [Precision.view, hi] at hgrid
  have hhas : t.hasPreviousIteration = false := by
    by_contra hp
    rw [Bool.not_eq_false] at hp
    simp [Precision.view, hp] at hprevious
  refine ⟨rfl, rfl, rfl, rfl, (congrArg View.samples h).symm, (congrArg View.frequency h).symm,
    (congrArg View.average h).symm, hinit.symm, hhas.symm, fun hi => ?_, fun hp => ?_⟩
  · rw [hinit] at hi
    cases hi
  · rw [hhas] at hp
    cases hp

theorem Alike.initializeSchedule (h : Alike t t') (now : UInt64) :
    Alike (Precision.initializeSchedule t now) (Precision.initializeSchedule t' now) ∧
      deadlineAt t' now = deadlineAt t now := by
  unfold deadlineAt Precision.initializeSchedule
  rw [h.scheduleInitialized]
  split
  · rename_i hi
    exact ⟨h, h.nextIteration hi⟩
  · exact ⟨{ h with scheduleInitialized := rfl, nextIteration := fun _ => rfl }, rfl⟩

theorem Alike.recordSampleLocked (h : Alike t t') (d : UInt64) :
    Alike (Precision.recordSampleLocked t d) (Precision.recordSampleLocked t' d) := by
  unfold Precision.recordSampleLocked
  rw [h.iterationSampleCount]
  split
  · exact h
  · rw [h.iterationSamples]
    exact { h with
      iterationSampleCount := rfl
      iterationSamples := rfl
      iterationFrequency := rfl
      averageIterationFrequency := rfl }

theorem Alike.measure (h : Alike t t') (now : UInt64) :
    Alike (Precision.measure t now).1 (Precision.measure t' now).1 ∧
      (Precision.measure t' now).2 = (Precision.measure t now).2 := by
  unfold Precision.measure
  rw [h.hasPreviousIteration, h.deltaMode]
  by_cases hp : t.hasPreviousIteration = true
  · obtain ⟨hs, he⟩ := h.previous hp
    simp only [hp, if_true, hs, he, and_true]
    split
    · exact h.recordSampleLocked _
    · exact h
  · simp only [hp]
    exact ⟨h, rfl⟩

/-- Both decide the same, and an iteration carries the generation of its own
state. -/
theorem Alike.scheduleLocked (h : Alike t t') (now : UInt64) :
    Alike (Precision.scheduleLocked t now).1 (Precision.scheduleLocked t' now).1 ∧
      deadlineAt t' now = deadlineAt t now ∧
      ((∃ remaining, (Precision.scheduleLocked t now).2 = .wait remaining ∧
          (Precision.scheduleLocked t' now).2 = .wait remaining) ∨
        ∃ delta skipped, (Precision.scheduleLocked t now).2 =
            .iterate delta skipped (Precision.scheduleLocked t now).1.measurementGeneration ∧
          (Precision.scheduleLocked t' now).2 =
            .iterate delta skipped (Precision.scheduleLocked t' now).1.measurementGeneration) := by
  obtain ⟨hinit, hdeadline⟩ := h.initializeSchedule now
  refine ⟨?_, hdeadline, ?_⟩ <;> simp only [Precision.scheduleLocked]
  all_goals
    have hstarted := initializeSchedule_initialized t now
    generalize Precision.initializeSchedule t now = u at hinit hstarted ⊢
    generalize Precision.initializeSchedule t' now = u' at hinit ⊢
    obtain ⟨hmeasure, hdelta⟩ := hinit.measure now
    have hmeasured : (Precision.measure u now).1.scheduleInitialized = true := (measure_schedule u now).1.trans hstarted
    have hnext : (if (Precision.measure u' now).1.iterationPeriod > 0 then
        advance (Precision.measure u' now).1.iterationPeriod now (Precision.measure u' now).1.nextIteration
        else ((Precision.measure u' now).1.nextIteration, 0)) =
        if (Precision.measure u now).1.iterationPeriod > 0 then
          advance (Precision.measure u now).1.iterationPeriod now (Precision.measure u now).1.nextIteration
        else ((Precision.measure u now).1.nextIteration, 0) := by
      rw [hmeasure.iterationPeriod, hmeasure.nextIteration hmeasured]
    rw [hinit.iterationPeriod, hinit.nextIteration hstarted, hnext, hdelta]
    generalize (if (Precision.measure u now).1.iterationPeriod > 0 then
      advance (Precision.measure u now).1.iterationPeriod now (Precision.measure u now).1.nextIteration
      else ((Precision.measure u now).1.nextIteration, 0)) = next
    split
  · exact hinit
  · exact { hmeasure with nextIteration := fun _ => rfl }
  · exact .inl ⟨_, rfl, rfl⟩
  · exact .inr ⟨_, _, rfl, rfl⟩

/-! ## Machines that behave alike -/

/-- The worker is at the same place, and an iteration is as many generations old. -/
def SameLoop (generation generation' : UInt64) (loop loop' : LoopPc) : Prop :=
  (loop' = loop ∧ ∀ now g, loop ≠ .iterating now g) ∨
    ∃ now g g', loop = .iterating now g ∧ loop' = .iterating now g' ∧ generation - g = generation' - g'

structure AlikeMachines (m m' : Machine) : Prop where
  timing : Alike m.timing m'.timing
  workWakeRequested : m'.workWakeRequested = m.workWakeRequested
  bumps : m'.bumps = m.bumps
  loop : SameLoop m.timing.measurementGeneration m'.timing.measurementGeneration m.loop m'.loop

variable {m m' n : Machine} {generation generation' : UInt64} {loop loop' : LoopPc}

theorem SameLoop.symm (h : SameLoop generation generation' loop loop') :
    SameLoop generation' generation loop' loop := by
  rcases h with ⟨rfl, hno⟩ | ⟨now, g, g', rfl, rfl, hage⟩
  · exact .inl ⟨rfl, hno⟩
  · exact .inr ⟨now, g', g, rfl, rfl, hage.symm⟩

theorem SameLoop.eq (h : SameLoop generation generation' loop loop') (hno : ∀ now g, loop ≠ .iterating now g) :
    loop' = loop := by
  rcases h with ⟨he, -⟩ | ⟨now, g, g', rfl, -, -⟩
  · exact he
  · exact absurd rfl (hno now g)

/-- A reset makes an iteration in progress one generation older. -/
theorem SameLoop.reset (h : SameLoop generation generation' loop loop') :
    SameLoop (generation + 1) (generation' + 1) loop loop' := by
  rcases h with h | ⟨now, g, g', hl, hl', hage⟩
  · exact .inl h
  · refine .inr ⟨now, g, g', hl, hl', ?_⟩
    calc generation + 1 - g = (generation - g) + 1 := by grind
      _ = (generation' - g') + 1 := by rw [hage]
      _ = generation' + 1 - g' := by grind

theorem AlikeMachines.symm (h : AlikeMachines m m') : AlikeMachines m' m :=
  ⟨h.timing.symm, h.workWakeRequested.symm, h.bumps.symm, h.loop.symm⟩

theorem sameLoop_of_eq {loop : LoopPc} (hno : ∀ now g, loop ≠ .iterating now g) :
    SameLoop generation generation' loop loop := .inl ⟨rfl, hno⟩

theorem Alike.completeLocked (h : Alike t t') {g g' : UInt64}
    (hage : t.measurementGeneration - g = t'.measurementGeneration - g') (now endTime : UInt64) :
    Alike (Precision.completeLocked t g now endTime) (Precision.completeLocked t' g' now endTime) := by
  have hiff : g = t.measurementGeneration ↔ g' = t'.measurementGeneration := by grind
  unfold Precision.completeLocked
  by_cases hg : g = t.measurementGeneration
  · rw [if_pos hg, if_pos (hiff.1 hg)]
    exact { h with hasPreviousIteration := rfl, previous := fun _ => ⟨rfl, rfl⟩ }
  · rw [if_neg hg, if_neg fun hg' => hg (hiff.2 hg')]
    exact h

theorem Alike.setIterationDeltaMode (h : Alike t t') (mode : IterationDeltaMode) :
    Alike (Precision.setIterationDeltaMode t mode) (Precision.setIterationDeltaMode t' mode) := by
  unfold Precision.setIterationDeltaMode
  rw [h.deltaMode]
  split
  · exact ⟨rfl, h.iterationPeriod, h.desiredIterationPeriod, h.iterationSampleCount, rfl, rfl, rfl,
      h.scheduleInitialized, rfl, h.nextIteration, nofun⟩
  · exact h

theorem Alike.setIterationPeriod (h : Alike t t') (ns : UInt64) :
    Alike (Precision.setIterationPeriod t ns) (Precision.setIterationPeriod t' ns) := by
  unfold Precision.setIterationPeriod
  rw [h.desiredIterationPeriod]
  exact { h with
    iterationPeriod := rfl
    desiredIterationPeriod := rfl
    scheduleInitialized := rfl
    nextIteration := nofun }

theorem Alike.setDesiredIterationPeriod (h : Alike t t') (ns : UInt64) :
    Alike (Precision.setDesiredIterationPeriod t ns) (Precision.setDesiredIterationPeriod t' ns) := by
  unfold Precision.setDesiredIterationPeriod
  rw [h.iterationPeriod]
  exact { h with iterationPeriod := rfl, desiredIterationPeriod := rfl }

/-- The scheduling section of alike machines. -/
theorem AlikeMachines.runSchedule (h : AlikeMachines m m') (now : UInt64) :
    AlikeMachines (Precision.runSchedule m now) (Precision.runSchedule m' now) ∧
      (scheduleLocked m'.timing now).2.decision (deadlineAt m'.timing now) =
        (scheduleLocked m.timing now).2.decision (deadlineAt m.timing now) := by
  obtain ⟨halike, hdeadline, hcases⟩ := h.timing.scheduleLocked now
  unfold Precision.runSchedule
  generalize scheduleLocked m.timing now = r at halike hcases ⊢
  generalize scheduleLocked m'.timing now = r' at halike hcases ⊢
  obtain ⟨u, o⟩ := r
  obtain ⟨u', o'⟩ := r'
  rcases hcases with ⟨remaining, ho, ho'⟩ | ⟨delta, skipped, ho, ho'⟩ <;>
    simp only at ho ho' halike <;> subst ho ho'
  · exact ⟨⟨halike, h.workWakeRequested, h.bumps, sameLoop_of_eq nofun⟩, rfl⟩
  · refine ⟨⟨halike, h.workWakeRequested, h.bumps, .inr ⟨_, _, _, rfl, rfl, ?_⟩⟩, ?_⟩
    · simp only [UInt64.sub_self]
    · simp only [Scheduled.decision, hdeadline]

theorem AlikeMachines.step {a : RunAction} (h : AlikeMachines m m') (hs : runStep m a = some n) :
    decision m a = decision m' a ∧ ∃ n', runStep m' a = some n' ∧ AlikeMachines n n' := by
  obtain ⟨ht, hw, hb, hl⟩ := h
  cases a with
  | iterateThrows =>
    simp only [runStep] at hs ⊢
    refine ⟨rfl, ?_⟩
    split at hs <;> cases hs
    rename_i hloop
    rcases hl with ⟨-, hno⟩ | ⟨now, g, g', -, hloop', -⟩
    · exact absurd hloop (hno _ _)
    · rw [hloop']
      exact ⟨_, rfl, ht, hw, hb, sameLoop_of_eq (by rintro _ _ ⟨⟩)⟩
  | act a =>
    simp only [runStep] at hs ⊢
    cases a with
    | wakeForWork =>
      cases hs
      exact ⟨rfl, _, rfl, ht, rfl, hb, hl⟩
    | callOnLoop =>
      simp only [Precision.step] at hs ⊢
      refine ⟨rfl, ?_⟩
      split at hs
      · rename_i hloop
        have hloop' : m'.loop = .outside := by
          rw [hl.eq (by rw [hloop]; rintro _ _ ⟨⟩), hloop]
        rw [if_pos hloop', hw]
        split at hs <;> cases hs
        · rw [if_pos ‹_›]
          exact ⟨_, rfl, ht, rfl, hb, hl⟩
        · rw [if_neg ‹_›]
          exact ⟨_, rfl, ht, rfl, hb, sameLoop_of_eq (by rintro _ _ ⟨⟩)⟩
      · cases hs
    | readClock now =>
      simp only [Precision.step] at hs ⊢
      refine ⟨rfl, ?_⟩
      split at hs <;> cases hs
      rename_i hloop
      have hloop' : m'.loop = .enter := by
        rw [hl.eq (by rw [hloop]; rintro _ _ ⟨⟩), hloop]
      rw [if_pos hloop']
      exact ⟨_, rfl, ht, hw, hb, sameLoop_of_eq (by rintro _ _ ⟨⟩)⟩
    | schedule =>
      simp only [Precision.step] at hs ⊢
      split at hs
      · rename_i now hloop
        cases hs
        have hloop' : m'.loop = .sampled now := by
          rw [hl.eq (by rw [hloop]; rintro _ _ ⟨⟩), hloop]
        obtain ⟨hm, hd⟩ := AlikeMachines.runSchedule ⟨ht, hw, hb, hl⟩ now
        simp only [decision, hloop, hloop', hd]
        exact ⟨trivial, _, rfl, hm⟩
      · cases hs
    | complete endTime =>
      simp only [Precision.step] at hs ⊢
      refine ⟨rfl, ?_⟩
      split at hs <;> cases hs
      rename_i now generation hloop
      rcases hl with ⟨-, hno⟩ | ⟨now', g, g', hloop₁, hloop', hage⟩
      · exact absurd hloop (hno _ _)
      · rw [hloop] at hloop₁
        cases hloop₁
        rw [hloop']
        exact ⟨_, rfl, ht.completeLocked hage _ _, hw, hb, sameLoop_of_eq (by rintro _ _ ⟨⟩)⟩
    | bumpRead now =>
      cases hs
      exact ⟨rfl, _, rfl, ht, hw, by simp only [hb], hl⟩
    | bumpStore i =>
      simp only [Precision.step, Option.map_eq_some_iff] at hs ⊢
      obtain ⟨now, hi, rfl⟩ := hs
      refine ⟨rfl, _, ⟨now, by rw [hb]; exact hi, rfl⟩, ?_, hw, by simp only [hb], hl⟩
      exact { ht with scheduleInitialized := rfl, nextIteration := fun _ => rfl }
    | resetSchedule =>
      cases hs
      exact ⟨rfl, _, rfl, ht.resetSchedule, hw, hb, hl.reset⟩
    | setIterationPeriod ns =>
      cases hs
      exact ⟨rfl, _, rfl, ht.setIterationPeriod ns, hw, hb, hl⟩
    | setDesiredIterationPeriod ns =>
      cases hs
      exact ⟨rfl, _, rfl, ht.setDesiredIterationPeriod ns, hw, hb, hl⟩
    | setIterationDeltaMode mode =>
      cases hs
      refine ⟨rfl, _, rfl, ht.setIterationDeltaMode mode, hw, hb, ?_⟩
      simp only [setIterationDeltaMode, ht.deltaMode]
      split
      · exact hl.reset
      · exact hl
    | setIterationSampleCount count =>
      cases hs
      refine ⟨rfl, _, rfl, ?_, hw, hb, hl⟩
      exact { ht with
        iterationSampleCount := rfl
        iterationSamples := rfl
        iterationFrequency := rfl
        averageIterationFrequency := rfl }

theorem alike_bisimulation :
    System.Bisimulation runs decision (fun m => view m.timing) AlikeMachines where
  symm _ _ h := h.symm
  step _ _ _ _ h hs := h.step hs
  view _ _ h := h.timing.view

/-! ## What a reset loses -/

/-- A reset of the schedule by another task. -/
def Machine.reset (m : Machine) : Machine := { m with timing := resetSchedule m.timing true }

/-- Any number of resets: the loop stays where it is, and each raises the
generation. -/
theorem replay_resets (k : Nat) (m : Machine) (l : List Decision) :
    ∃ n, (runs.logged decision).replay (m, l) (List.replicate k (.act .resetSchedule)) = some (n, l) ∧
      n.loop = m.loop ∧ n.timing.measurementGeneration = m.timing.measurementGeneration + UInt64.ofNat k ∧
      (m.timing.hasPreviousIteration = false → n.timing.hasPreviousIteration = false) := by
  induction k generalizing m l with
  | zero => exact ⟨m, rfl, rfl, by simp, id⟩
  | succ k ih =>
    obtain ⟨n, hrun, hloop, hgen, hhas⟩ := ih m.reset l
    have hstep : (runs.logged decision).step (m, l) (.act .resetSchedule) = some (m.reset, l) :=
      System.logged_step.2 ⟨rfl, by simp [decision]⟩
    refine ⟨n, Option.bind_eq_some_iff.2 ⟨_, hstep, hrun⟩, hloop, ?_, fun _ => hhas rfl⟩
    rw [hgen, UInt64.ofNat_add]
    change m.timing.measurementGeneration + 1 + UInt64.ofNat k = _
    grind

theorem replay_append {σ α : Type*} {S : System σ α} {s s' : σ} {as as' : List α} (h : S.replay s as = some s') :
    S.replay s (as ++ as') = S.replay s' as' := by
  induction as generalizing s with
  | nil => cases h; rfl
  | cons a as ih =>
    obtain ⟨t, ht, hr⟩ := Option.bind_eq_some_iff.1 h
    simp only [List.cons_append, System.replay, ht, Option.bind_some]
    exact ih hr

/-- When an iteration in progress ends after so many resets that its generation
comes round, it is stored, and one generation on it is not. -/
theorem observe_iterating {m : Machine} {now g : UInt64} (hloop : m.loop = .iterating now g)
    (hhas : m.timing.hasPreviousIteration = false) (k : Nat) :
    ∃ v, runs.observe decision (fun m => view m.timing) m
        (List.replicate k (.act .resetSchedule) ++ [.act (.complete 0)]) = some ([], v) ∧
      (v.previous = none ↔ g ≠ m.timing.measurementGeneration + UInt64.ofNat k) := by
  obtain ⟨n, hrun, hloop', hgen, hhas'⟩ := replay_resets k m []
  have hcomplete : (runs.logged decision).replay (n, []) [.act (.complete 0)] =
      some ({ n with timing := completeLocked n.timing g now 0, loop := .outside }, []) := by
    simp [System.replay, System.logged, runs, runStep, step, hloop', hloop, decision]
  refine ⟨view (completeLocked n.timing g now 0), ?_, ?_⟩
  · rw [System.observe, replay_append hrun, hcomplete]
    rfl
  · rw [← hgen]
    unfold completeLocked
    by_cases hg : g = n.timing.measurementGeneration
    · simp [hg, view]
    · simp [hg, view, hhas' hhas]

theorem nothingToReset_iff (m : Machine) : Unnoticed m m.reset ↔ NothingToReset m := by
  constructor
  · intro h
    have hview : view m.timing = ⟨none, none, [], 0, 0⟩ := h.same_view
    refine ⟨hview, fun now g hloop => ?_⟩
    have hhas : m.timing.hasPreviousIteration = false := by
      by_contra hp
      rw [Bool.not_eq_false] at hp
      have := congrArg View.previous hview
      simp [view, hp] at this
    -- after as many resets the iteration is stored without the call, and not with it
    let k := (g - m.timing.measurementGeneration).toNat
    have hk : UInt64.ofNat k = g - m.timing.measurementGeneration := UInt64.ofNat_toNat
    obtain ⟨v, hv, hnone⟩ := observe_iterating hloop hhas k
    obtain ⟨v', hv', hnone'⟩ := observe_iterating (m := m.reset) hloop rfl k
    have hsame := h (List.replicate k (.act .resetSchedule) ++ [.act (.complete 0)])
    rw [hv, hv'] at hsame
    cases hsame
    rw [hk] at hnone hnone'
    have hgen : m.reset.timing.measurementGeneration = m.timing.measurementGeneration + 1 := rfl
    rw [hgen] at hnone'
    have hstored : ¬ v.previous = none := by
      rw [hnone]
      grind
    exact hstored (hnone'.2 (by grind))
  · rintro ⟨hview, hno⟩
    exact alike_bisimulation.indistinguishable ⟨alike_reset hview, rfl, rfl, sameLoop_of_eq hno⟩

/-! ## Main theorem -/

theorem call_rejected {p : PrecisionThread} {c : LifecycleCall} (h : Rejected p.base c) :
    ∃ p' status, p.call c = some (p', status) ∧ (status = none ∨ status = some .alreadyInitialized) ∧
      p'.base = p.base ∧ p'.machine = if c = .start then p.machine else p.machine.reset := by
  cases c with
  | initializeThread =>
    have hbase : p.base.initializeThread = some (p.base, .alreadyInitialized) := if_pos h
    simp only [PrecisionThread.call, PrecisionThread.initializeThread, hbase]
    exact ⟨_, _, rfl, .inr rfl, rfl, rfl⟩
  | start =>
    have hrunning : p.base.threadState = .running := h
    have hself : (if p.base.threadState = .paused then p.reset else p) = p :=
      if_neg (by rw [hrunning]; nofun)
    have hbase : p.base.start = some (p.base, .alreadyInitialized) := by
      simp only [Base.start, hrunning]
    simp only [PrecisionThread.call, PrecisionThread.start, hself, hbase]
    exact ⟨_, _, rfl, .inr rfl, rfl, rfl⟩
  | pause =>
    have hbase : p.base.pause = p.base := if_neg h
    exact ⟨p.pause, none, rfl, .inl rfl, hbase, rfl⟩

theorem initializeWithResults_rejected {threads : List PrecisionThread} (h : ∀ p ∈ threads, p.base.hasTask = true) :
    initializeWithResults threads = some (threads.map fun p => (p.reset, .alreadyInitialized)) := by
  induction threads with
  | nil => rfl
  | cons p threads ih =>
    have hp : p.initializeThread = some (p.reset, .alreadyInitialized) := by
      simp only [PrecisionThread.initializeThread, Base.initializeThread, h p (List.mem_cons_self ..), if_true,
        Option.map_some]
      rfl
    have hrest := ih fun q hq => h q (List.mem_cons_of_mem _ hq)
    simp only [initializeWithResults] at hrest ⊢
    rw [List.mapM_cons, hp, hrest]
    rfl

/-- A rejected call leaves the state of `Thread` as it is, and no later run
notices it exactly when it is a `Start`, or when there was nothing to reset and
no iteration in progress. `ThreadManager::Initialize` over threads that all have
their tasks does the same to each. -/
theorem rejected_calls_unnoticed (p : PrecisionThread) (threads : List PrecisionThread)
    (hall : ∀ p ∈ threads, p.base.hasTask = true) :
    (∀ c, Rejected p.base c →
      ∃ p' status, p.call c = some (p', status) ∧ (status = none ∨ status = some .alreadyInitialized) ∧
        p'.base = p.base ∧ (Unnoticed p.machine p'.machine ↔ c = .start ∨ NothingToReset p.machine)) ∧
    ∃ results, initializeWithResults threads = some results ∧
      (∀ r ∈ results, r.2 = .alreadyInitialized) ∧
      (List.Forall₂ (fun p r => Unnoticed p.machine r.1.machine) threads results ↔
        ∀ p ∈ threads, NothingToReset p.machine) := by
  refine ⟨fun c hc => ?_, ?_⟩
  · obtain ⟨p', status, hcall, hstatus, hbase, hmachine⟩ := call_rejected hc
    refine ⟨p', status, hcall, hstatus, hbase, ?_⟩
    rw [hmachine]
    by_cases hstart : c = .start
    · rw [if_pos hstart]
      exact ⟨fun _ => .inl hstart, fun _ => System.Indistinguishable.refl _⟩
    · rw [if_neg hstart, nothingToReset_iff]
      simp [hstart]
  · refine ⟨_, initializeWithResults_rejected hall, ?_, ?_⟩
    · intro r hr
      obtain ⟨p, -, rfl⟩ := List.mem_map.1 hr
      rfl
    · rw [List.forall₂_map_right_iff, List.forall₂_same]
      exact forall₂_congr fun p _ => nothingToReset_iff p.machine

/-- A running thread with the period 10, after iterations at 5 and at 15. -/
def twoIterations : List RunAction :=
  [.act (.setIterationPeriod 10), .act .callOnLoop, .act (.readClock 5), .act .schedule, .act (.complete 6),
    .act .callOnLoop, .act (.readClock 15), .act .schedule, .act (.complete 16)]

/-- The next iteration, at 26. -/
def iterationAt26 : List RunAction := [.act .callOnLoop, .act (.readClock 26), .act .schedule]

/-- `Initialize` returns `AlreadyInitialized`, and the iteration that was due at
25 with the delta 11 is due at 26 with the delta 0. -/
theorem rejected_initialize_resets : ∃ p : PrecisionThread, runs.Reachable p.machine ∧
    p.base = ⟨.running, true⟩ ∧
    p.call .initializeThread = some (⟨p.machine.reset, p.base⟩, some .alreadyInitialized) ∧
    (view p.machine.timing).grid = some 25 ∧ (view p.machine.reset.timing).grid = none ∧
    (runs.observe decision (fun m => view m.timing) p.machine iterationAt26).map Prod.fst = some [.iterate 25 11 0] ∧
    (runs.observe decision (fun m => view m.timing) p.machine.reset iterationAt26).map Prod.fst =
      some [.iterate 26 0 0] := by
  have hrun : (runs.replay (fresh {}) twoIterations).map (fun m => ((view m.timing).grid,
      (runs.observe decision (fun m => view m.timing) m iterationAt26).map Prod.fst,
      (runs.observe decision (fun m => view m.timing) m.reset iterationAt26).map Prod.fst)) =
      some (some 25, some [.iterate 25 11 0], some [.iterate 26 0 0]) := by
    decide
  obtain ⟨m, hs, hl⟩ := Option.map_eq_some_iff.1 hrun
  obtain ⟨hgrid, hwithout, hwith⟩ : (view m.timing).grid = some 25 ∧ _ ∧ _ := by
    simpa only [Prod.mk.injEq] using hl
  exact ⟨⟨m, ⟨.running, true⟩⟩, System.reachable_of_replay rfl hs, rfl, rfl, hgrid, rfl, hwithout, hwith⟩

/-- A paused thread has nothing to reset: `Pause` goes unnoticed, and so does
`ThreadManager::Initialize` over it. -/
theorem pause_when_paused : ∃ p : PrecisionThread, runs.Reachable p.machine ∧ p.base = ⟨.paused, true⟩ ∧
    (∃ p' status, p.call .pause = some (p', status) ∧ Unnoticed p.machine p'.machine) ∧
    ∃ r, initializeWithResults [p] = some [r] ∧ Unnoticed p.machine r.1.machine := by
  have hrun : (runs.replay (fresh {}) (twoIterations ++ [.act .resetSchedule])).map (fun m => (view m.timing, m.loop)) =
      some (⟨none, none, [], 0, 0⟩, .outside) := by
    decide
  obtain ⟨m, hs, hl⟩ := Option.map_eq_some_iff.1 hrun
  obtain ⟨hview, hloop⟩ : view m.timing = ⟨none, none, [], 0, 0⟩ ∧ m.loop = .outside := by
    simpa only [Prod.mk.injEq] using hl
  have hr : runs.Reachable m := System.reachable_of_replay rfl hs
  have hnothing : NothingToReset m := ⟨hview, by rw [hloop]; nofun⟩
  obtain ⟨hcalls, hmanager⟩ :=
    rejected_calls_unnoticed ⟨m, ⟨.paused, true⟩⟩ [⟨m, ⟨.paused, true⟩⟩] (by simp)
  refine ⟨⟨m, ⟨.paused, true⟩⟩, hr, rfl, ?_, ?_⟩
  · obtain ⟨p', status, hcall, -, -, hiff⟩ := hcalls .pause (by simp [Rejected])
    exact ⟨p', status, hcall, hiff.2 (.inr hnothing)⟩
  · obtain ⟨results, hresults, -, hiff⟩ := hmanager
    have hall := hiff.2 (by simpa using hnothing)
    cases hall with
    | cons hhead htail =>
      cases htail
      exact ⟨_, hresults, hhead⟩

end ESPressio.Precision
