import Dispatch.Scheduler.Basic

/-!
# Changing queues and posting tasks

An operation on a queue is refused, and changes nothing, exactly when the id names no queue.
-/

namespace Dispatch.Scheduler

/-- Makes a queue.  The name stands for it unless it already stands for another one. -/
def create (s : Scheduler) (name : String) (waking : Bool) : QueueId × Scheduler :=
  let tq : Queue := { name := name, waking := waking }
  let (q, queues) := s.queues.insert tq
  (q,
    { s with
      queues := queues
      selector := s.selector.add q tq.fronts
      names := if s.names.contains name then s.names else s.names.insert name q })

/-- Removes a queue and answers the tasks that were in it. -/
def remove (s : Scheduler) (q : QueueId) (now : Ticks) : Except Fault (List Ticket × Scheduler) :=
  (s.queue q).map fun tq =>
    let (notices, a) := (s.agenda tq.waking).unregister q now
    let s : Scheduler :=
      { s with
        queues := s.queues.erase q
        selector := s.selector.remove q
        names := if s.names.find? tq.name = some q then s.names.erase tq.name else s.names }
    (tq.tickets, s.withAgenda tq.waking notices a)

/-- Moves a queue to a level and tells the selector, unless it is there already. -/
def setLevel (s : Scheduler) (q : QueueId) (l : Level) : Except Fault Scheduler :=
  (s.queue q).map fun tq =>
    if tq.level = l then s
    else
      { s with
        queues := s.queues.set q { tq with level := l }
        selector := s.selector.setLevel q l }

/-- A disabled queue keeps its tasks, but none is taken and none arms the timer.  Enabling a queue
requests work. -/
def setEnabled (s : Scheduler) (q : QueueId) (on : Bool) (now : Ticks) : Except Fault Scheduler :=
  (s.queue q).map fun tq =>
    if tq.enabled = on then s
    else
      -- enabling a queue asks for work if the selector did not take it for enabled
      let (told, selector) := if on then s.selector.enable q else (false, s.selector.disable q)
      ({ s with selector := selector, workRequested := s.workRequested || told } :
        Scheduler).withQueue q { tq with enabled := on } now

/-- Posts a task that is ready at once.  Work is requested if the queue is enabled. -/
def post (s : Scheduler) (q : QueueId) (ticket : Ticket) : Except Fault Scheduler :=
  (s.queue q).map fun tq =>
    let (stamp, stamps) := s.stamps.issue
    { s with
      queues := s.queues.set q (tq.post ⟨stamp, ticket⟩)
      selector :=
        -- a task behind others is not the front of its half
        if tq.immediate.isEmpty then s.selector.changeFront q .immediate (some stamp)
        else s.selector
      stamps := stamps
      workRequested := s.workRequested || tq.enabled }

/-- Posts a task that waits for `delay`. -/
def postDelayed (s : Scheduler) (q : QueueId) (delay leeway : Duration) (policy : Policy)
    (now : Ticks) (ticket : Ticket) : Except Fault Scheduler :=
  (s.queue q).map fun tq =>
    let high := decide (delay < s.settings.highResolutionBelow)
    s.withQueue q (tq.postDelayed (now + delay) leeway policy high ticket) now

/-- Answers whether work has been requested, and forgets it. -/
def takeWorkRequest (s : Scheduler) : Bool × Scheduler :=
  (s.workRequested, { s with workRequested := false })

end Dispatch.Scheduler
