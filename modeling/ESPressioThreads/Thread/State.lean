import Mathlib.Tactic.TypeStar
/-!
# Thread states

The enumerations of `IThread` and the transition relation that
`SetThreadState` and `TrySetThreadState` check.
-/

namespace ESPressio.Thread

inductive ThreadState
  | uninitialized
  | initialized
  | running
  | paused
  | terminating
  | terminated
  | destroyed
  deriving DecidableEq, Repr

inductive ThreadInitializationStatus
  | success
  | alreadyInitialized
  | invalidState
  | exitSignalUnavailable
  | terminationDispatcherUnavailable
  | terminationDispatchPending
  | taskCreationFailed
  | concurrentInitializationLost
  | terminatedDuringInitialization
  | initializationException
  deriving DecidableEq, Repr

inductive CleanupClaim
  | available
  | manual
  | automatic
  deriving DecidableEq, Repr

/-- `_isValidThreadStateTransition`. -/
def isValidThreadStateTransition (oldState newState : ThreadState) : Bool :=
  if oldState = newState then false
  else if newState = .destroyed then decide (oldState ≠ .destroyed)
  else
    match oldState with
    | .uninitialized => newState = .initialized || newState = .terminating
    | .initialized => newState = .running || newState = .terminating
    | .running => newState = .paused || newState = .terminating
    | .paused => newState = .running || newState = .terminating
    | .terminating => newState = .terminated
    | .terminated => newState = .uninitialized
    | .destroyed => false

/-- `Terminated` is left for `Uninitialized` and `Destroyed` only. -/
theorem terminated_valid {s : ThreadState} (h : isValidThreadStateTransition .terminated s = true) :
    s = .uninitialized ∨ s = .destroyed := by
  cases s <;> simp [isValidThreadStateTransition] at h ⊢

end ESPressio.Thread
