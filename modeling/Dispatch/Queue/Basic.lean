import Dispatch.Queue.Half
import Dispatch.Queue.Level
import Dispatch.Queue.Task

/-!
# Queues

A queue keeps its tasks in three stores: immediate tasks, which are ready when they are posted,
tasks that wait for their time, and delayed tasks whose time has come.
-/

namespace Dispatch

/-- A queue of tasks. -/
structure Queue where
  name : String
  /-- Its waiting tasks may arm the timer. -/
  waking : Bool
  level : Level := .standard
  enabled : Bool := true
  immediate : List ReadyTask := []
  delayed : List ReadyTask := []
  waiting : List WaitingTask := []
  /-- How many of the waiting tasks ask for a precise timer. -/
  highResolution : Nat := 0
  /-- How many waiting tasks have been posted. -/
  posted : Nat := 0
deriving DecidableEq

namespace Queue

/-- The ready tasks of one half. -/
def ready (q : Queue) : Half → List ReadyTask
  | .immediate => q.immediate
  | .delayed => q.delayed

/-- The queue with other ready tasks in one half. -/
def withReady (q : Queue) (h : Half) (ts : List ReadyTask) : Queue :=
  match h with
  | .immediate => { q with immediate := ts }
  | .delayed => { q with delayed := ts }

/-- The stamp of the front task of one half. -/
def front (q : Queue) (h : Half) : Option Stamp := (q.ready h).head?.map (·.stamp)

/-- What a selector is to know of the ready tasks: the stamps of the two front ones. -/
def fronts (q : Queue) : Fronts := ⟨q.front .immediate, q.front .delayed⟩

/-- All tasks, those that are ready first. -/
def tickets (q : Queue) : List Ticket :=
  q.immediate.map (·.ticket) ++ q.delayed.map (·.ticket) ++ q.waiting.map (·.ticket)

/-- How many tasks the queue holds, ready or waiting, the canceled ones among them included. -/
def pendingCount (q : Queue) : Nat :=
  q.immediate.length + q.delayed.length + q.waiting.length

/-- Adds an immediate task at the end. -/
def post (q : Queue) (t : ReadyTask) : Queue := { q with immediate := q.immediate ++ [t] }

/-- Puts a task in its place among the waiting ones. -/
def insertWaiting (t : WaitingTask) : List WaitingTask → List WaitingTask
  | [] => [t]
  | u :: us => if u.precedes t then u :: insertWaiting t us else t :: u :: us

/-- Adds a task that waits until `runTime`. -/
def postDelayed (q : Queue) (runTime : Ticks) (leeway : Duration) (policy : Policy)
    (highResolution : Bool) (ticket : Ticket) : Queue :=
  { q with
    waiting := insertWaiting ⟨runTime, leeway, policy, highResolution, q.posted, ticket⟩ q.waiting
    highResolution := q.highResolution + if highResolution then 1 else 0
    posted := q.posted + 1 }

/-- The wake-up that the queue wants, if it is enabled and has waiting tasks. -/
def nextWakeUp (q : Queue) : Option WakeUp :=
  if q.enabled then
    q.waiting.head?.map fun t =>
      ⟨t.runTime, t.leeway, if 0 < q.highResolution then .high else .low, t.policy⟩
  else none

/-- Takes the first `n` waiting tasks away. -/
def dropWaiting (q : Queue) (n : Nat) : Queue :=
  { q with
    waiting := q.waiting.drop n
    highResolution := q.highResolution - (q.waiting.take n).countP (·.highResolution) }

/-- Moves the waiting tasks that are due to the delayed ones, all under one stamp, except for the
canceled ones, which are answered. -/
def promote (q : Queue) (now : Ticks) (stamp : Stamp) (isCanceled : Ticket → Bool) :
    List Ticket × Queue :=
  let due := q.waiting.takeWhile (·.isDue now)
  let (canceled, kept) := (due.map (·.ticket)).partition isCanceled
  (canceled,
    { q.dropWaiting due.length with delayed := q.delayed ++ kept.map fun t => ⟨stamp, t⟩ })

/-- Removes the canceled tasks at the front of the waiting ones and answers them. -/
def trim (q : Queue) (isCanceled : Ticket → Bool) : List Ticket × Queue :=
  let canceled := q.waiting.takeWhile fun t => isCanceled t.ticket
  (canceled.map (·.ticket), q.dropWaiting canceled.length)

/-- Some waiting task is due and not canceled. -/
def hasDueTask (q : Queue) (now : Ticks) (isCanceled : Ticket → Bool) : Bool :=
  q.waiting.any fun t => t.isDue now && !isCanceled t.ticket

end Queue

end Dispatch
