import Dispatch.Scheduler.Basic
import Dispatch.Selection.Choice
import Dispatch.Wake.Pass

/-!
# Promoting, sweeping and taking tasks

Promotion moves the tasks that are due to the ready ones, sweeping removes canceled tasks for which
the timer would be armed, and both go through the two agendas one after the other.  Taking a task
asks the selector for the half whose front task is to run.
-/

namespace Dispatch.Scheduler

/-- What the agendas work on: the queues, the selector, and the canceled tasks removed so far. -/
structure Stores where
  queues : Arena Queue
  selector : Selector
  canceled : List Ticket := []

namespace Stores

/-- Promotes the due tasks of a queue, and tells the selector if the delayed half was empty. -/
def wake (isCanceled : Ticket → Bool) (q : QueueId) (now : Ticks) (stamp : Stamp) (s : Stores) :
    Option WakeUp × Stores :=
  match s.queues.get? q with
  | none => (none, s)
  | some tq =>
    let (canceled, tq') := tq.promote now stamp isCanceled
    let selector :=
      -- tasks that come behind others do not change the front
      if tq.delayed.isEmpty && !tq'.delayed.isEmpty then
        s.selector.changeFront q .delayed (tq'.front .delayed)
      else s.selector
    (tq'.nextWakeUp, ⟨s.queues.set q tq', selector, s.canceled ++ canceled⟩)

/-- The wake-up that a queue wants. -/
def want (q : QueueId) (s : Stores) : Option WakeUp := (s.queues.get? q).bind (·.nextWakeUp)

/-- Removes the canceled tasks at the front of those waiting in a queue. -/
def trim (isCanceled : Ticket → Bool) (q : QueueId) (s : Stores) : Bool × Stores :=
  match s.queues.get? q with
  | none => (false, s)
  | some tq =>
    let (canceled, tq') := tq.trim isCanceled
    (!canceled.isEmpty, { s with queues := s.queues.set q tq', canceled := s.canceled ++ canceled })

end Stores

/-- The scheduler as the owner of the queues in its agendas. -/
def owner (isCanceled : Ticket → Bool) : Agenda.Owner Stores where
  wake := Stores.wake isCanceled
  want := fun q _ s => (s.want q, s)
  trim := fun q _ s => s.trim isCanceled q

/-- What the first pass works on, which has removed nothing yet. -/
def stores (s : Scheduler) : Stores := { queues := s.queues, selector := s.selector }

/-- Takes over what passes over the two agendas have left. -/
def afterPasses (s : Scheduler) (p q : Agenda.Pass Stores) : Scheduler :=
  let s : Scheduler := { s with queues := q.owner.queues, selector := q.owner.selector }
  (s.withAgenda true p.notices p.agenda).withAgenda false q.notices q.agenda

/-- Some agenda has a wake-up that is ready. -/
def hasDueWakeUp (s : Scheduler) (now : Ticks) : Bool :=
  s.wakingAgenda.next?.any (·.isReady now) || s.nonWakingAgenda.next?.any (·.isReady now)

/-- Moves all due tasks of enabled queues to the ready ones, under one stamp, except for the
canceled ones, which are answered. -/
def promote (s : Scheduler) (now : Ticks) (isCanceled : Ticket → Bool) : List Ticket × Scheduler :=
  if s.hasDueWakeUp now then
    let (stamp, stamps) := s.stamps.issue
    -- the second pass goes on with the queues that the first one has left
    let p := s.wakingAgenda.promote (owner isCanceled) now stamp (s.wakingAgenda.size + 1) s.stores
    let q :=
      s.nonWakingAgenda.promote (owner isCanceled) now stamp (s.nonWakingAgenda.size + 1) p.owner
    (q.owner.canceled, ({ s with stamps := stamps } : Scheduler).afterPasses p q)
  else ([], s)

/-- Removes canceled tasks for which the timer would be armed, and answers them.  Every round but
the last removes a task. -/
def sweep (s : Scheduler) (now : Ticks) (isCanceled : Ticket → Bool) : List Ticket × Scheduler :=
  let rounds := s.tickets.length + 1
  let p := s.wakingAgenda.trim (owner isCanceled) now rounds s.stores
  let q := s.nonWakingAgenda.trim (owner isCanceled) now rounds p.owner
  (q.owner.canceled, s.afterPasses p q)

/-- Takes the front task of one half of a queue. -/
def takeFront (s : Scheduler) (pick : Pick) : Option (Ticket × Scheduler) :=
  match s.queues.get? pick.queue with
  | none => none
  | some tq =>
    match tq.ready pick.half with
    | [] => none
    | t :: rest =>
      let tq := tq.withReady pick.half rest
      some (t.ticket,
        { s with
          queues := s.queues.set pick.queue tq
          selector := s.selector.changeFront pick.queue pick.half (tq.front pick.half) })

/-- Takes the task that is to run next, and counts it unless it has been canceled. -/
def take (s : Scheduler) (isCanceled : Ticket → Bool) : Option Ticket × Scheduler :=
  let (pick, selector) := s.selector.select .bothHalves
  let s : Scheduler := { s with selector := selector }
  match pick.bind s.takeFront with
  | none => (none, s)
  | some (t, s) => (some t, if isCanceled t then s else { s with tasksRun := s.tasksRun + 1 })

end Dispatch.Scheduler
