import Dispatch.Collection.Table
import Dispatch.Fault
import Dispatch.Queue.Arena
import Dispatch.Queue.Basic
import Dispatch.Selection.Selector
import Dispatch.Wake.Agenda

/-!
# The scheduler

The scheduler owns the queues and keeps three views of them in step: the selector, which knows the
front tasks of the enabled queues, and two agendas of wake-ups, one for the queues that may arm the
timer and one for those that may not.

Every operation on a scheduler is a single step between two states in which other code can run.
Operations that remove tasks answer their tickets, and whoever called destroys the tasks afterwards.
Which tasks have been canceled is known outside and given as a predicate on tickets.
-/

namespace Dispatch

/-- The state of a scheduler. -/
structure Scheduler where
  settings : Settings := {}
  queues : Arena Queue := {}
  names : Table String QueueId := .empty
  selector : Selector := {}
  wakingAgenda : Agenda := { waking := true }
  nonWakingAgenda : Agenda := { waking := false }
  stamps : StampSource := {}
  /-- How many tasks have been taken to be run. -/
  tasksRun : Nat := 0
  /-- Work has been requested since the request was last taken. -/
  workRequested : Bool := false
  /-- The wake-up that the timer was last armed with. -/
  timer : Option WakeUp := none
deriving DecidableEq

namespace Scheduler

/-- A scheduler without queues. -/
def ofSettings (settings : Settings) : Scheduler :=
  { settings := settings, selector := { settings := settings } }

instance : Inhabited Scheduler := ⟨ofSettings {}⟩

/-! ### Looking at queues -/

/-- The queue that an id names. -/
def queue (s : Scheduler) (q : QueueId) : Except Fault Queue :=
  match s.queues.get? q with
  | some tq => .ok tq
  | none => .error (.unknownQueue q)

/-- The queue for which a name stands. -/
def queueByName? (s : Scheduler) (name : String) : Option QueueId := s.names.find? name

/-- The level of a queue, or a fault if the id names none. -/
def levelOf (s : Scheduler) (q : QueueId) : Except Fault Level := (s.queue q).map (·.level)

/-- Whether a queue is enabled, or a fault if the id names none. -/
def isEnabled (s : Scheduler) (q : QueueId) : Except Fault Bool := (s.queue q).map (·.enabled)

/-- How many tasks a queue holds, or a fault if the id names none. -/
def pendingCount (s : Scheduler) (q : QueueId) : Except Fault Nat :=
  (s.queue q).map (·.pendingCount)

/-- The earliest wake-up among the queues that may arm the timer. -/
def nextWakeUp (s : Scheduler) : Option WakeUp := s.wakingAgenda.next?

/-- A wake-up that is entered in either agenda needs high resolution. -/
def hasHighResolution (s : Scheduler) : Bool :=
  s.wakingAgenda.hasHighResolution || s.nonWakingAgenda.hasHighResolution

/-- No enabled queue has a task that is ready, or a task that is due and not canceled. -/
def isIdle (s : Scheduler) (now : Ticks) (isCanceled : Ticket → Bool) : Bool :=
  s.selector.isIdle &&
    !s.queues.toList.any fun (_, q) => q.enabled && q.hasDueTask now isCanceled

/-- The tasks of all queues, in the order of the slots. -/
def tickets (s : Scheduler) : List Ticket := s.queues.toList.flatMap fun (_, q) => q.tickets

/-! ### Agendas and the timer -/

/-- The agenda of the queues that may arm the timer, or that of the others. -/
def agenda (s : Scheduler) (waking : Bool) : Agenda :=
  if waking then s.wakingAgenda else s.nonWakingAgenda

/-- Replaces an agenda and arms the timer as its notices say. -/
def withAgenda (s : Scheduler) (waking : Bool) (notices : List Notice) (a : Agenda) : Scheduler :=
  let s : Scheduler := { s with timer := notices.foldl (fun _ n => n.next) s.timer }
  if waking then { s with wakingAgenda := a } else { s with nonWakingAgenda := a }

/-- Replaces a queue and enters the wake-up that it wants now. -/
def withQueue (s : Scheduler) (q : QueueId) (tq : Queue) (now : Ticks) : Scheduler :=
  let (notices, a) := (s.agenda tq.waking).set q now tq.nextWakeUp
  ({ s with queues := s.queues.set q tq } : Scheduler).withAgenda tq.waking notices a

end Scheduler

end Dispatch
