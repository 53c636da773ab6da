import Dispatch.Queue.Stamp
import Dispatch.Wake.WakeUp

/-!
# Tasks

A task is known by its ticket alone; what it does is the business of whoever posted it.  A ready
task carries the stamp that orders it among all ready tasks.  Waiting tasks come in the order in
which they may run, and those that may run at the same time in the order in which they were posted.
-/

namespace Dispatch

/-- The number under which a task was posted. -/
structure Ticket where
  number : Nat
deriving DecidableEq

/-- A task that may run. -/
structure ReadyTask where
  stamp : Stamp
  ticket : Ticket
deriving DecidableEq

/-- A task whose time has not come. -/
structure WaitingTask where
  runTime : Ticks
  leeway : Duration
  policy : Policy
  /-- The task was posted with so short a delay that it asks for a precise timer. -/
  highResolution : Bool
  /-- The place of the task in the order in which those of its queue were posted. -/
  sequence : Nat
  ticket : Ticket
deriving DecidableEq

namespace WaitingTask

/-- The first moment at which the task may run. -/
def earliest (t : WaitingTask) : Ticks := t.policy.earliest t.runTime t.leeway

/-- The task may run by now. -/
def isDue (t : WaitingTask) (now : Ticks) : Bool := decide (t.earliest ≤ now)

/-- The task may run before `u`, or at the same time and was posted first. -/
def precedes (t u : WaitingTask) : Bool :=
  decide (t.earliest < u.earliest) || (t.earliest == u.earliest && decide (t.sequence ≤ u.sequence))

end WaitingTask

end Dispatch
