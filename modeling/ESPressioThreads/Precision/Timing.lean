import Mathlib.Data.Rat.Defs
import Mathlib.Algebra.BigOperators.Group.List.Basic
import Mathlib.Algebra.GroupWithZero.Nat
/-!
# The timing state of a precision thread

`Timing` are the members of `PrecisionThread` that `_timingMutex` guards.
Each definition below is one locked section of the source, so a call that
takes the lock twice (`OnLoop`) is two definitions. Nanosecond counts are
`uint64_t` in the source and `UInt64` here; the two frequencies are exact
rationals where the source rounds to `double`.
-/

namespace ESPressio.Precision

inductive IterationDeltaMode
  | StartToStart
  | EndToStart
  deriving DecidableEq, Repr

/-- `Timing::NanosecondsPerSecond`. -/
def nanosecondsPerSecond : Nat := 1000000000

structure Timing where
  deltaMode : IterationDeltaMode := .StartToStart
  iterationPeriod : UInt64 := 0
  desiredIterationPeriod : UInt64 := 0
  iterationSampleCount : UInt32 := 10
  iterationSamples : List UInt64 := []
  iterationFrequency : Rat := 0
  averageIterationFrequency : Rat := 0
  scheduleInitialized : Bool := false
  hasPreviousIteration : Bool := false
  previousStart : UInt64 := 0
  previousEnd : UInt64 := 0
  nextIteration : UInt64 := 0
  activeIterationStart : UInt64 := 0
  measurementGeneration : UInt64 := 0
  deriving Repr

/-- `std::numeric_limits<uint64_t>::max()`. -/
def maximum : UInt64 := 0xffffffffffffffff

def addSaturated (left right : UInt64) : UInt64 :=
  if right > maximum - left then maximum else left + right

def resetMeasurementsLocked (t : Timing) : Timing :=
  { t with
    measurementGeneration := t.measurementGeneration + 1
    hasPreviousIteration := false
    previousStart := 0
    previousEnd := 0
    activeIterationStart := 0
    iterationSamples := []
    iterationFrequency := 0
    averageIterationFrequency := 0 }

/-- `_resetSchedule`; every caller leaves `clearMeasurements` at `true`. -/
def resetSchedule (t : Timing) (clearMeasurements : Bool) : Timing :=
  let t := { t with scheduleInitialized := false, nextIteration := 0 }
  if clearMeasurements then resetMeasurementsLocked t else t

/-- The last `n` elements: `pop_front` while more than `n` remain. -/
def keepLast (n : Nat) (l : List UInt64) : List UInt64 := l.drop (l.length - n)

def recordSampleLocked (t : Timing) (startToStartDelta : UInt64) : Timing :=
  if t.iterationSampleCount = 0 ∨ startToStartDelta = 0 then t
  else
    let samples := keepLast t.iterationSampleCount.toNat (t.iterationSamples ++ [startToStartDelta])
    let total := (samples.map UInt64.toNat).sum
    { t with
      iterationFrequency := nanosecondsPerSecond / (startToStartDelta.toNat : Rat)
      iterationSamples := samples
      averageIterationFrequency :=
        if 0 < total then samples.length * nanosecondsPerSecond / (total : Rat) else 0 }

/-! ## `OnLoop` -/

/-- What the scheduling section decided: wait for the deadline, or run one
iteration. -/
inductive Scheduled
  | wait (remaining : UInt64)
  | iterate (delta skipped generation : UInt64)
  deriving DecidableEq, Repr

/-- The deadline after an iteration at `now`, with the periods it skipped. -/
def advance (period now next : UInt64) : UInt64 × UInt64 :=
  let behind := now - next
  let elapsedPeriods := behind / period
  let periodsToAdvance := if elapsedPeriods = maximum then elapsedPeriods else elapsedPeriods + 1
  let advance := if periodsToAdvance > maximum / period then maximum else periodsToAdvance * period
  (addSaturated next advance, elapsedPeriods)

/-- The measurements of an iteration at `now`: its delta, and its sample. -/
def measure (t : Timing) (now : UInt64) : Timing × UInt64 :=
  if t.hasPreviousIteration then
    let baseline := match t.deltaMode with
      | .StartToStart => t.previousStart
      | .EndToStart => t.previousEnd
    let delta := if now ≥ baseline then now - baseline else 0
    (if now ≥ t.previousStart then recordSampleLocked t (now - t.previousStart) else t, delta)
  else (t, 0)

/-- `if (!_scheduleInitialized)`: the first reading is the first deadline. -/
def initializeSchedule (t : Timing) (now : UInt64) : Timing :=
  if t.scheduleInitialized then t else { t with scheduleInitialized := true, nextIteration := now }

/-- The first locked section of `OnLoop`, at the clock reading `now`. -/
def scheduleLocked (t : Timing) (now : UInt64) : Timing × Scheduled :=
  let t := initializeSchedule t now
  if t.iterationPeriod > 0 ∧ now < t.nextIteration then (t, .wait (t.nextIteration - now))
  else
    let (t, delta) := measure t now
    let (next, skipped) :=
      if t.iterationPeriod > 0 then advance t.iterationPeriod now t.nextIteration else (t.nextIteration, 0)
    ({ t with nextIteration := next, activeIterationStart := now }, .iterate delta skipped t.measurementGeneration)

/-- The second locked section of `OnLoop`, after `Iterate` ended at `endTime`. -/
def completeLocked (t : Timing) (generation now endTime : UInt64) : Timing :=
  if generation = t.measurementGeneration then
    { t with previousStart := now, previousEnd := endTime, hasPreviousIteration := true }
  else t

/-! ## The other operations -/

def bumpLocked (t : Timing) (now : UInt64) : Timing :=
  { t with nextIteration := now, scheduleInitialized := true }

def setIterationDeltaMode (t : Timing) (mode : IterationDeltaMode) : Timing :=
  if t.deltaMode ≠ mode then resetMeasurementsLocked { t with deltaMode := mode } else t

def setIterationPeriod (t : Timing) (nanoseconds : UInt64) : Timing :=
  { t with
    iterationPeriod := nanoseconds
    desiredIterationPeriod :=
      if nanoseconds > 0 ∧ t.desiredIterationPeriod > 0 ∧ t.desiredIterationPeriod < nanoseconds then nanoseconds
      else t.desiredIterationPeriod
    scheduleInitialized := false }

def setDesiredIterationPeriod (t : Timing) (nanoseconds : UInt64) : Timing :=
  { t with
    desiredIterationPeriod :=
      if t.iterationPeriod > 0 ∧ nanoseconds > 0 ∧ nanoseconds < t.iterationPeriod then t.iterationPeriod
      else nanoseconds }

def setIterationSampleCount (t : Timing) (sampleCount : UInt32) : Timing :=
  { t with
    iterationSampleCount := sampleCount
    iterationSamples := []
    iterationFrequency := 0
    averageIterationFrequency := 0 }

end ESPressio.Precision
