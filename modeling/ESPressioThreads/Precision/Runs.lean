import ESPressioThreads.Precision.Schedule
/-!
# Runs with throwing iterations

`Machine` with one more step: an `Iterate` that throws. The worker then leaves
`OnLoop` without its second locked section, and the thread can iterate again
only from a new task, so the schedule and the measurements stay as they are
until some other operation changes them.
-/

namespace ESPressio.Precision

open Transition

inductive RunAction
  | act (a : Action)
  | iterateThrows

def runStep (m : Machine) : RunAction → Option Machine
  | .act a => step m a
  | .iterateThrows =>
    match m.loop with
    | .iterating _ _ => some { m with loop := .outside }
    | _ => none

/-- Runs of a constructed thread. -/
def runs : System Machine RunAction where
  init m := m = fresh {}
  step := runStep

/-! ## The scheduling section -/

/-- It waits for a deadline ahead, or measures, moves the deadline to `next`
and marks the start. -/
theorem scheduleLocked_cases (t : Timing) (now : UInt64) :
    (∃ remaining, scheduleLocked t now = (initializeSchedule t now, .wait remaining) ∧ now < deadlineAt t now) ∨
      ∃ next skipped, scheduleLocked t now =
        ({ (measure (initializeSchedule t now) now).1 with nextIteration := next, activeIterationStart := now },
          .iterate (measure (initializeSchedule t now) now).2 skipped
            (measure (initializeSchedule t now) now).1.measurementGeneration) := by
  simp only [scheduleLocked]
  split
  · rename_i h
    exact .inl ⟨_, rfl, h.2⟩
  · exact .inr ⟨_, _, rfl⟩

end ESPressio.Precision
