import Dispatch.Session.Basic

/-!
# Scenario steps

A scenario is a list of steps around one scheduler.  A step that posts a task also says what the
task does: the steps of its body when it runs, or the steps of its last will when it is destroyed
without having run.  Queues are named by the order of their creation and tasks by labels.

`Step.weight` bounds how much a step can bring about, tasks that post further tasks included.
-/

namespace Dispatch.Scenario

/-- Through what a task is posted. -/
inductive Route where
  | scheduler
  /-- Through a runner that is bound to the queue and outlives the scheduler. -/
  | runner
deriving DecidableEq

/-- When a delayed task is to run. -/
structure Delay where
  delay : Duration
  leeway : Duration := .zero
  policy : Policy := .noSooner
deriving DecidableEq

/-- One step of a scenario.  A queue is given by the number of queues created before it, or not at
all for the null id. -/
inductive Step where
  | create (name : String) (waking : Bool)
  | remove (queue : Option Nat)
  | byName (name : String)
  | level (queue : Option Nat)
  | setLevel (queue : Option Nat) (number : Nat)
  | enabled (queue : Option Nat)
  | setEnabled (queue : Option Nat) (on : Bool)
  | pending (queue : Option Nat)
  /-- Posts a task, which posts itself again so many times after it has run. -/
  | post (route : Route) (queue : Option Nat) (delay : Option Delay) (label : String)
      (body will : List Step) (repeats : Nat)
  | runnerNow
  | runnerQueue (queue : Option Nat)
  | cancel (label : String)
  | handle (label : String)
  | advance (delta : Duration)
  | moveClock (time : Ticks)
  | now
  | runNext (times : Nat)
  | runUntilIdle
  | sweep
  | takeWorkRequest
  | isIdle
  | nextWakeUp
  | close

namespace Step

/-- The name of a step in the record of events. -/
def name : Step → String
  | create _ true => "create"
  | create _ false => "create_non_waking"
  | remove _ => "remove"
  | byName _ => "by_name"
  | level _ => "priority"
  | setLevel _ _ => "set_priority"
  | enabled _ => "enabled"
  | setEnabled _ _ => "set_enabled"
  | pending _ => "pending"
  | post .scheduler _ none _ _ _ _ => "post"
  | post .scheduler _ (some _) _ _ _ _ => "post_delayed"
  | post .runner _ none _ _ _ _ => "runner_post"
  | post .runner _ (some _) _ _ _ _ => "runner_post_delayed"
  | runnerNow => "runner_now"
  | runnerQueue _ => "runner_queue"
  | cancel _ => "cancel"
  | handle _ => "handle"
  | advance _ => "advance"
  | moveClock _ => "set_clock"
  | now => "now"
  | runNext _ => "run_next"
  | runUntilIdle => "run_until_idle"
  | sweep => "sweep"
  | takeWorkRequest => "take_work_request"
  | isIdle => "is_idle"
  | nextWakeUp => "next_wake_up"
  | close => "drop_scheduler"

/-- The step works without a scheduler too. -/
def outlivesScheduler : Step → Bool
  | post .runner _ _ _ _ _ _ | runnerNow | runnerQueue _ | cancel _ | handle _ | advance _
  | moveClock _ | close => true
  | _ => false

mutual

/-- A bound on the calls, started tasks and destroyed tasks that a step can bring about. -/
def weight : Step → Nat
  | post _ _ _ _ body will repeats => (repeats + 1) * (8 + weights body + weights will)
  | runNext times => 4 + 2 * times
  | _ => 4

/-- The bound for a list of steps. -/
def weights : List Step → Nat
  | [] => 1
  | s :: ss => 1 + weight s + weights ss

end

end Step

/-- The answer to a step. -/
inductive Outcome where
  | nothing
  | ok
  /-- A delayed task was posted, which its label stands for from now on. -/
  | handle
  | flag (value : Bool)
  | flags (values : List Bool)
  | count (n : Nat)
  | level (l : Level)
  | time (t : Ticks)
  | queue (q : QueueId)
  | wakeUp (w : Option WakeUp)
  /-- Which queue was found, in the order of creation. -/
  | found (index : Option Nat)
  /-- Whether the task behind a label has been canceled, if the label stands for one. -/
  | canceled (state : Option Bool)
  | refused (fault : Fault)
  | noScheduler
deriving DecidableEq

/-- What happens in the course of a scenario. -/
inductive Event where
  | ran (label : String)
  | destroyed (label : String)
  /-- The tasks that were destroyed by one step which removed them together. -/
  | destroyedTogether (labels : List String)
  /-- A task, running or destroyed, took a step. -/
  | acted (label : String) (step : String) (outcome : Outcome)
deriving DecidableEq

/-- How the handle of a task is written. -/
def handleText (canceled : Bool) : String :=
  "TaskHandle \x7b canceled: " ++ (if canceled then "true" else "false") ++ " \x7d"

end Dispatch.Scenario
