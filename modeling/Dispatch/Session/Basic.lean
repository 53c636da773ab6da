import Dispatch.Scheduler.Basic
import Dispatch.Time.Clock

/-!
# Sessions

A session is one use of a scheduler from its creation on, by code that also runs inside it: a task
that has been started, and a task that is destroyed without having run, may make any request before
it ends.  So a session is a machine that takes one request at a time.  To each it gives one signal:
the reply to a request that is complete, or the ticket of a task whose code runs next.  That code
makes requests of its own and then says that it has finished, upon which the call that had started
it goes on.

A task is known by its ticket, and tickets count all tasks that are handed in.
-/

namespace Dispatch

/-- What code around a scheduler may ask for. -/
inductive Request where
  | create (name : String) (waking : Bool)
  | remove (queue : QueueId)
  | setLevel (queue : QueueId) (level : Level)
  | setEnabled (queue : QueueId) (on : Bool)
  | post (queue : QueueId)
  | postDelayed (queue : QueueId) (delay leeway : Duration) (policy : Policy)
  | cancel (task : Ticket)
  | advance (delta : Duration)
  | moveClock (time : Ticks)
  /-- Run the next task that is ready. -/
  | runNext
  /-- Run tasks until none is ready. -/
  | runUntilIdle
  | sweep
  | takeWorkRequest
  /-- Give the scheduler up. -/
  | close
  /-- The task whose code is running has come to its end. -/
  | finish
deriving DecidableEq

/-- The answer to a request. -/
inductive Reply where
  | done
  | created (queue : QueueId)
  /-- A task was posted that is ready at once. -/
  | posted (task : Ticket)
  /-- A delayed task was posted, which can be canceled by its ticket. -/
  | handle (task : Ticket)
  /-- Whether a task was run. -/
  | ran (any : Bool)
  /-- How many tasks were run. -/
  | count (tasks : Nat)
  /-- Whether work had been requested. -/
  | requested (work : Bool)
  | refused (fault : Fault)
  /-- The scheduler cannot be given up while it is in a call. -/
  | busy
deriving DecidableEq

/-- What a session does next. -/
inductive Signal where
  | answered (reply : Reply)
  /-- The code of the task runs. -/
  | started (task : Ticket)
  /-- The task is destroyed without having run, and what it does then runs. -/
  | discarding (task : Ticket)
deriving DecidableEq

/-- How many tasks a call is to run. -/
inductive Mode where
  | once
  /-- As many as are ready; so many have been run. -/
  | untilIdle (ran : Nat)
deriving DecidableEq

/-- How a call goes on after tasks have been destroyed. -/
inductive After where
  | answer (reply : Reply)
  /-- Run the task that was taken before. -/
  | launch (task : Ticket) (mode : Mode)
  /-- Look for a task again. -/
  | again (mode : Mode)
deriving DecidableEq

/-- A call that waits for the code of a task to finish. -/
inductive Call where
  | running (task : Ticket) (mode : Mode)
  | discarding (task : Ticket) (rest : List Ticket) (after : After)
deriving DecidableEq

/-- A scheduler in use. -/
structure Session where
  clock : Clock := {}
  /-- The scheduler, until it is given up. -/
  scheduler : Option Scheduler := some default
  /-- How many tasks have been handed in. -/
  issued : Nat := 0
  /-- The tasks that can be canceled. -/
  handles : List Ticket := []
  canceled : List Ticket := []
  /-- The calls in progress, the innermost first. -/
  calls : List Call := []
deriving DecidableEq

namespace Session

/-- A session with a new scheduler. -/
def new (settings : Settings) (start : Ticks) : Session :=
  { clock := .startingAt start, scheduler := some (.ofSettings settings) }

/-- The time by the clock of the session. -/
def now (s : Session) : Ticks := s.clock.now

/-- The task has been canceled, whether or not it has been destroyed since. -/
def isCanceled (s : Session) (t : Ticket) : Bool := s.canceled.contains t

/-- The scheduler finds nothing to run at the present time. -/
def isIdle (s : Session) : Bool := s.scheduler.all (·.isIdle s.now s.isCanceled)

end Session

end Dispatch
