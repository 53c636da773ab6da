import Dispatch.Scenario.Step
import Dispatch.Session.Step

/-!
# Playing a scenario

The steps of a scenario are turned into requests to a session.  When the session starts a task or
destroys one, the steps of the task are played before the session is told that it has finished.
What happens is recorded as a list of events, and after each step of the scenario the state of the
scheduler is looked at.

While a step removes tasks together, the labels of the tasks that are destroyed are collected and
recorded in one event when the step is complete.  A removal within another one belongs to it.
-/

namespace Dispatch.Scenario

/-- Where a scenario has come to. -/
structure Stage where
  session : Session
  /-- The queues in the order of their creation. -/
  queues : List QueueId := []
  /-- The steps that posted the tasks that have neither run nor been destroyed. -/
  posts : Table Ticket Step := .empty
  /-- The tasks that can be canceled by their labels. -/
  handles : Table String Ticket := .empty
  /-- What has happened in this step, the last event first. -/
  events : List Event := []
  /-- How many of the steps in progress remove tasks together, each within the one before. -/
  removals : Nat := 0
  /-- The labels of the tasks destroyed since the outermost of these steps began. -/
  collected : List String := []

namespace Stage

/-- The id of a queue that a step names. -/
def queueId (s : Stage) (q : Option Nat) : QueueId := (q.bind (s.queues[·]?)).getD .null

/-- The step that posted a task, which is needed only once. -/
def takePost (s : Stage) (t : Ticket) : Option Step × Stage :=
  (s.posts.find? t, { s with posts := s.posts.erase t })

/-- Adds an event to those of the stage, the latest first. -/
def log (s : Stage) (e : Event) : Stage := { s with events := e :: s.events }

/-- Records that a task was destroyed without having run. -/
def logDestroyed (s : Stage) (label : String) : Stage :=
  if s.removals = 0 then s.log (.destroyed label)
  else { s with collected := label :: s.collected }

/-- Begins to collect the labels of destroyed tasks. -/
def beginRemoval (s : Stage) : Stage := { s with removals := s.removals + 1 }

/-- Records the labels that were collected, in ascending order, when the outermost removal ends. -/
def endRemoval (s : Stage) : Stage :=
  let s : Stage := { s with removals := s.removals - 1 }
  if s.removals = 0 && !s.collected.isEmpty then
    ({ s with collected := [] } : Stage).log
      (.destroyedTogether (s.collected.mergeSort (fun a b => decide (a ≤ b))))
  else s

/-- The answer to a look at the scheduler. -/
def query {α : Type} (s : Stage) (f : Scheduler → Except Fault α) (g : α → Outcome) : Outcome :=
  match s.session.scheduler with
  | none => .noScheduler
  | some k =>
    match f k with
    | .ok a => g a
    | .error e => .refused e

/-- Whether the task that a label stands for has been canceled. -/
def handleState (s : Stage) (label : String) : Outcome :=
  .canceled ((s.handles.find? label).map s.session.isCanceled)

end Stage

/-- The request of a step that makes one and whose answer is the plain reply. -/
def Step.request? (s : Stage) : Step → Except Fault (Option Request)
  | .create name waking => .ok (some (.create name waking))
  | .remove q => .ok (some (.remove (s.queueId q)))
  | .setLevel q n => (Level.ofNumber n).map fun l => some (.setLevel (s.queueId q) l)
  | .setEnabled q on => .ok (some (.setEnabled (s.queueId q) on))
  | .post _ q none _ _ _ _ => .ok (some (.post (s.queueId q)))
  | .post _ q (some d) _ _ _ _ => .ok (some (.postDelayed (s.queueId q) d.delay d.leeway d.policy))
  | .cancel label => .ok ((s.handles.find? label).map .cancel)
  | .advance d => .ok (some (.advance d))
  | .moveClock t => .ok (some (.moveClock t))
  | .runUntilIdle => .ok (some .runUntilIdle)
  | .sweep => .ok (some .sweep)
  | .takeWorkRequest => .ok (some .takeWorkRequest)
  | .close => .ok (some .close)
  | _ => .ok none

/-- The answer to a step that only looks. -/
def Step.look (s : Stage) : Step → Outcome
  | .byName name =>
    s.query (fun k => .ok (k.queueByName? name)) fun q => .found (q.bind (s.queues.idxOf? ·))
  | .level q => s.query (·.levelOf (s.queueId q)) .level
  | .enabled q => s.query (·.isEnabled (s.queueId q)) .flag
  | .pending q => s.query (·.pendingCount (s.queueId q)) .count
  | .runnerNow => .time s.session.now
  | .runnerQueue q => .queue (s.queueId q)
  | .cancel label | .handle label => s.handleState label
  | .now => .time s.session.now
  | .isIdle => .flag s.session.isIdle
  | .nextWakeUp => s.query (fun k => .ok k.nextWakeUp) .wakeUp
  | _ => .nothing

/-- The answer to a step, given the reply to its request. -/
def Step.outcome (s : Stage) (step : Step) (reply : Reply) : Outcome :=
  match reply with
  | .refused e => .refused e
  | .created q => .queue q
  | .handle _ => .handle
  | .ran any => .flag any
  | .count n => .count n
  | .requested work => .flag work
  | .busy => .nothing
  | .posted _ => .ok
  | .done =>
    match step with
    | .advance _ | .moveClock _ | .sweep => .nothing
    | .cancel label => s.handleState label
    | _ => .ok

/-- What is kept of a step before its request is made. -/
def Step.prepare (step : Step) (s : Stage) : Stage :=
  match step with
  | .post .. => { s with posts := s.posts.insert ⟨s.session.issued⟩ step }
  | .remove _ | .close => s.beginRemoval
  | _ => s

/-- What is kept of the reply to a step. -/
def Step.conclude (step : Step) (reply : Reply) (s : Stage) : Stage :=
  match step, reply with
  | .create .., .created q => { s with queues := s.queues ++ [q] }
  | .post _ _ _ label _ _ _, .handle t => { s with handles := s.handles.insert label t }
  | .remove _, _ | .close, _ => s.endRemoval
  | _, _ => s

/-- The step that posts a task again after it has run. -/
def Step.repost? : Step → Option Step
  | .post r q d l b w (n + 1) => some (.post r q d l b w n)
  | _ => none

mutual

/-- Plays one step. -/
def play : Nat → Step → Stage → Outcome × Stage
  | 0, _, s => (.nothing, s)
  | fuel + 1, step, s =>
    if s.session.scheduler.isNone && !step.outlivesScheduler then (.noScheduler, s)
    else
      match step with
      | .runNext times =>
        let (ran, s) := playRuns fuel times s
        (.flags ran, s)
      | step =>
        match step.request? s with
        | .error e => (.refused e, s)
        | .ok none => (step.look s, s)
        | .ok (some r) =>
          let (reply, s) := ask fuel r (step.prepare s)
          let s := step.conclude reply s
          (step.outcome s reply, s)

/-- Asks to run a task so many times. -/
def playRuns : Nat → Nat → Stage → List Bool × Stage
  | 0, _, s => ([], s)
  | _, 0, s => ([], s)
  | fuel + 1, times + 1, s =>
    let (reply, s) := ask fuel .runNext s
    let (rest, s) := playRuns fuel times s
    (decide (reply = .ran true) :: rest, s)

/-- Makes a request and plays what it brings about until it is answered. -/
def ask : Nat → Request → Stage → Reply × Stage
  | 0, _, s => (.done, s)
  | fuel + 1, r, s =>
    let (signal, session) := s.session.step r
    let s : Stage := { s with session := session }
    match signal with
    | .answered reply => (reply, s)
    | .started t =>
      match s.takePost t with
      | (some (.post route q d label body will repeats), s) =>
        let s := playAll fuel label body (s.log (.ran label))
        let s := match Step.repost? (.post route q d label body will repeats) with
          | some again => (play fuel again s).2
          | none => s
        ask fuel .finish s
      | (_, s) => ask fuel .finish s
    | .discarding t =>
      match s.takePost t with
      | (some (.post _ _ _ label _ will _), s) =>
        ask fuel .finish (playAll fuel label will (s.logDestroyed label))
      | (_, s) => ask fuel .finish s

/-- Plays the steps of a task and records each. -/
def playAll : Nat → String → List Step → Stage → Stage
  | 0, _, _, s => s
  | _, _, [], s => s
  | fuel + 1, label, step :: steps, s =>
    let (outcome, s) := play fuel step s
    playAll fuel label steps (s.log (.acted label step.name outcome))

end

/-- What there is to see of a scheduler after a step. -/
structure View where
  now : Ticks
  idle : Bool
  next : Option WakeUp
  timer : Option WakeUp
  highResolution : Bool
  tasksRun : Nat
  /-- The number of tasks in each queue that was created, if it is still there. -/
  pending : List (Option Nat)
deriving DecidableEq

/-- A look at the scheduler, unless it has been given up. -/
def Stage.view (s : Stage) : Option View :=
  s.session.scheduler.map fun k =>
    { now := s.session.now
      idle := s.session.isIdle
      next := k.nextWakeUp
      timer := k.timer
      highResolution := k.hasHighResolution
      tasksRun := k.tasksRun
      pending := s.queues.map fun q => (k.pendingCount q).toOption }

/-- What came of one step of a scenario. -/
structure Report where
  outcome : Outcome
  events : List Event
  view : Option View
deriving DecidableEq

/-- Plays a step of the scenario itself and reports on it. -/
def report (fuel : Nat) (step : Step) (s : Stage) : Report × Stage :=
  let (outcome, s) := play fuel step { s with events := [] }
  (⟨outcome, s.events.reverse, s.view⟩, s)

/-- Plays the steps of a scenario one after the other and reports on each. -/
def reports (fuel : Nat) : List Step → Stage → List Report
  | [], _ => []
  | step :: steps, s =>
    let (r, s) := report fuel step s
    r :: reports fuel steps s

/-- Plays a scenario from a new scheduler on.  The weight of all steps bounds what any of them can
bring about. -/
def perform (settings : Settings) (start : Ticks) (steps : List Step) : List Report :=
  reports (Step.weights steps) steps { session := .new settings start }

end Dispatch.Scenario
