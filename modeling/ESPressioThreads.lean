import ESPressioThreads.Lib.Transition
import ESPressioThreads.Lib.Grid
import ESPressioThreads.Lib.Reclamation
import ESPressioThreads.Lib.Token
import ESPressioThreads.Lib.Boundary
import ESPressioThreads.Lib.ReadWriteLock
import ESPressioThreads.Lib.Chain
import ESPressioThreads.Lib.Checked
import ESPressioThreads.Lib.Window
import ESPressioThreads.Lib.Bisimulation
import ESPressioThreads.Lib.Simulation
import ESPressioThreads.Lib.Linearizability
import ESPressioThreads.Lib.Channel
import ESPressioThreads.Lib.LockOrder
import ESPressioThreads.Thread.State
import ESPressioThreads.Manager.Registry
import ESPressioThreads.Manager.Machine
import ESPressioThreads.Manager.Pinning
import ESPressioThreads.Manager.Claims
import ESPressioThreads.Manager.Registration
import ESPressioThreads.Manager.Rotation
import ESPressioThreads.Manager.Transactional
import ESPressioThreads.Manager.Deferral
import ESPressioThreads.Manager.FailedPass
import ESPressioThreads.Manager.ExactPass
import ESPressioThreads.Manager.Guard
import ESPressioThreads.Manager.Fence
import ESPressioThreads.Manager.Directory
import ESPressioThreads.Manager.Debts
import ESPressioThreads.Dispatch.Machine
import ESPressioThreads.Dispatch.Stacks
import ESPressioThreads.Dispatch.Consistency
import ESPressioThreads.Dispatch.Order
import ESPressioThreads.Dispatch.Delivery
import ESPressioThreads.Locks.Operations
import ESPressioThreads.Locks.Rule
import ESPressioThreads.Locks.Order
import ESPressioThreads.Termination.Machine
import ESPressioThreads.Termination.Deletion
import ESPressioThreads.Termination.Deadlock
import ESPressioThreads.Termination.Generations
import ESPressioThreads.Termination.Order
import ESPressioThreads.Termination.Owed
import ESPressioThreads.Termination.Reclaimed
import ESPressioThreads.Lifecycle.Calls
import ESPressioThreads.Lifecycle.Model
import ESPressioThreads.Lifecycle.Steps
import ESPressioThreads.Lifecycle.Lock
import ESPressioThreads.Lifecycle.Reentrancy
import ESPressioThreads.Lifecycle.Cleanup
import ESPressioThreads.Lifecycle.Protocol
import ESPressioThreads.Lifecycle.Generations
import ESPressioThreads.Lifecycle.Workers
import ESPressioThreads.Lifecycle.Waiters
import ESPressioThreads.Lifecycle.States
import ESPressioThreads.Lifecycle.Stopped
import ESPressioThreads.Lifecycle.Shutdown
import ESPressioThreads.Lifecycle.Sequential
import ESPressioThreads.Lifecycle.Destruction
import ESPressioThreads.Lifecycle.ExitLog
import ESPressioThreads.Lifecycle.ExitState
import ESPressioThreads.Lifecycle.Exit
import ESPressioThreads.Lifecycle.Rank
import ESPressioThreads.Lifecycle.Captured
import ESPressioThreads.Lifecycle.Mutex
import ESPressioThreads.Lifecycle.Completion
import ESPressioThreads.Lifecycle.Guarded
import ESPressioThreads.Lifecycle.ExitProtocol
import ESPressioThreads.Lifecycle.Ownership
import ESPressioThreads.Lifecycle.Passes
import ESPressioThreads.Lifecycle.Restart
import ESPressioThreads.Configuration.Machine
import ESPressioThreads.Configuration.Immutable
import ESPressioThreads.Initialization.Machine
import ESPressioThreads.Initialization.Reports
import ESPressioThreads.Initialization.Attempts
import ESPressioThreads.Initialization.Failures
import ESPressioThreads.Initialization.Retry
import ESPressioThreads.Initialization.Outcomes
import ESPressioThreads.Gate.Machine
import ESPressioThreads.Gate.Resources
import ESPressioThreads.Gate.Cycles
import ESPressioThreads.Attribution.Machine
import ESPressioThreads.Attribution.Escaping
import ESPressioThreads.Attribution.Statuses
import ESPressioThreads.Configuration.Placement
import ESPressioThreads.Precision.Timing
import ESPressioThreads.Precision.Machine
import ESPressioThreads.Precision.Schedule
import ESPressioThreads.Precision.Deltas
import ESPressioThreads.Precision.Wake
import ESPressioThreads.Precision.Runs
import ESPressioThreads.Precision.Saturation
import ESPressioThreads.Precision.Available
import ESPressioThreads.Precision.Window
import ESPressioThreads.Precision.Bump
import ESPressioThreads.Precision.Rejected
import ESPressioThreads.Startup.Machine
import ESPressioThreads.Startup.Publication
import ESPressioThreads.Startup.Records
import ESPressioThreads.ThreadSafe.Machine
import ESPressioThreads.ThreadSafe.Probes
import ESPressioThreads.ThreadSafe.History
import ESPressioThreads.ThreadSafe.Atomic
