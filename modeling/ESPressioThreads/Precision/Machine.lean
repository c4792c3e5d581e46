import ESPressioThreads.Lib.Transition
import ESPressioThreads.Precision.Timing
/-!
# Runs of a precision thread

The worker's `OnLoop` calls and the operations of other tasks, one locked
section or one clock reading at a time. A `Bump` reads the clock before it
takes the lock, so its reading waits in `bumps` until some later step stores
it.

`base`, `log` and `clock` are history: the reading that initialised the
schedule, the iterations that ran, and the last reading of `OnLoop`.
-/

namespace ESPressio.Precision

open Transition

/-- Where the worker is in `OnLoop`. -/
inductive LoopPc
  | outside
  | enter
  | sampled (now : UInt64)
  | iterating (now generation : UInt64)
  deriving DecidableEq, Repr

/-- One iteration: the reading it ran at, the deadline it found, the deadline
it stored and the `skippedIterations` it reported. -/
structure Iteration where
  reading : UInt64
  deadline : UInt64
  nextDeadline : UInt64
  skipped : UInt64
  deriving DecidableEq, Repr

structure Machine where
  timing : Timing
  workWakeRequested : Bool
  loop : LoopPc
  bumps : List UInt64
  base : Option UInt64
  clock : UInt64
  log : List Iteration
  deriving Repr

inductive Action
  | wakeForWork
  | callOnLoop
  | readClock (now : UInt64)
  | schedule
  | complete (endTime : UInt64)
  | bumpRead (now : UInt64)
  | bumpStore (i : Nat)
  | resetSchedule
  | setIterationPeriod (nanoseconds : UInt64)
  | setDesiredIterationPeriod (nanoseconds : UInt64)
  | setIterationDeltaMode (mode : IterationDeltaMode)
  | setIterationSampleCount (count : UInt32)

/-- The scheduling section at the reading `now`, and its history. -/
def runSchedule (m : Machine) (now : UInt64) : Machine :=
  let deadline := (initializeSchedule m.timing now).nextIteration
  let base := if m.timing.scheduleInitialized then m.base else some now
  match scheduleLocked m.timing now with
  | (t, .wait _) => { m with timing := t, base := base, loop := .outside }
  | (t, .iterate _ skipped generation) =>
    { m with
      timing := t
      base := base
      loop := .iterating now generation
      log := m.log ++ [⟨now, deadline, t.nextIteration, skipped⟩] }

def step (m : Machine) : Action → Option Machine
  | .wakeForWork => some { m with workWakeRequested := true }
  | .callOnLoop =>
    if m.loop = .outside then
      -- `exchange(false)`: a requested work wake runs `OnWorkWake` and returns.
      if m.workWakeRequested then some { m with workWakeRequested := false }
      else some { m with loop := .enter }
    else none
  | .readClock now => if m.loop = .enter then some { m with loop := .sampled now, clock := now } else none
  | .schedule =>
    match m.loop with
    | .sampled now => some (runSchedule m now)
    | _ => none
  | .complete endTime =>
    match m.loop with
    | .iterating now generation =>
      some { m with timing := completeLocked m.timing generation now endTime, loop := .outside }
    | _ => none
  | .bumpRead now => some { m with bumps := m.bumps ++ [now] }
  | .bumpStore i =>
    (m.bumps[i]?).map fun now => { m with timing := bumpLocked m.timing now, bumps := m.bumps.eraseIdx i }
  | .resetSchedule => some { m with timing := resetSchedule m.timing true }
  | .setIterationPeriod ns => some { m with timing := setIterationPeriod m.timing ns }
  | .setDesiredIterationPeriod ns => some { m with timing := setDesiredIterationPeriod m.timing ns }
  | .setIterationDeltaMode mode => some { m with timing := setIterationDeltaMode m.timing mode }
  | .setIterationSampleCount n => some { m with timing := setIterationSampleCount m.timing n }

/-- A thread whose schedule is not initialised, with any settings. -/
def fresh (t : Timing) : Machine :=
  { timing := { t with scheduleInitialized := false }, workWakeRequested := false, loop := .outside
    bumps := [], base := none, clock := 0, log := [] }

/-- Runs of a thread that starts from the settings `t`. -/
def system (t : Timing) : System Machine Action where
  init m := m = fresh t
  step := step

end ESPressio.Precision
