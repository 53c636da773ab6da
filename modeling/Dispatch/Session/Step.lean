import Dispatch.Scheduler.Passes
import Dispatch.Scheduler.Requests
import Dispatch.Session.Basic

/-!
# The steps of a session

`Session.step` takes a request and answers with a signal.

To run a task, the session promotes what is due and takes a task.  Canceled tasks that came up on
the way are destroyed before the taken one is started, and if that one has been canceled by then, it
is destroyed too and another is looked for.  Tasks that were removed together are destroyed one
after the other, and only then does the call go on that removed them.
-/

namespace Dispatch.Session

/-! ### Running and destroying tasks -/

/-- The answer of a call that finds no further task. -/
def idleReply : Mode → Reply
  | .once => .ran false
  | .untilIdle n => .count n

/-- Starts a task that was taken, or destroys it if it has been canceled by now. -/
def launch (s : Session) (t : Ticket) (mode : Mode) : Signal × Session :=
  if s.isCanceled t then
    (.discarding t, { s with calls := .discarding t [] (.again mode) :: s.calls })
  else (.started t, { s with calls := .running t mode :: s.calls })

/-- Promotes what is due and takes a task. -/
def round (s : Session) (mode : Mode) : Signal × Session :=
  match s.scheduler with
  | none => (.answered (.refused .schedulerGone), s)
  | some k =>
    let (canceled, k) := k.promote s.now s.isCanceled
    let (taken, k) := k.take s.isCanceled
    let s : Session := { s with scheduler := some k }
    -- canceled tasks are destroyed first, and what they do then may cancel the taken one
    match canceled, taken with
    | [], none => (.answered (idleReply mode), s)
    | [], some t => s.launch t mode
    | c :: cs, taken =>
      let after := taken.elim (After.again mode) fun t => .launch t mode
      (.discarding c, { s with calls := .discarding c cs after :: s.calls })

/-- Goes on with a call. -/
def resume (s : Session) : After → Signal × Session
  | .answer r => (.answered r, s)
  | .launch t mode => s.launch t mode
  | .again mode => s.round mode

/-- Destroys tasks one after the other and then goes on. -/
def discard (s : Session) (ts : List Ticket) (after : After) : Signal × Session :=
  match ts with
  | [] => s.resume after
  | t :: rest => (.discarding t, { s with calls := .discarding t rest after :: s.calls })

/-- The code of the innermost task has come to its end. -/
def finish (s : Session) : Signal × Session :=
  match s.calls with
  | [] => (.answered .done, s)
  | call :: calls =>
    let s : Session := { s with calls := calls }
    match call with
    | .running _ .once => (.answered (.ran true), s)
    | .running _ (.untilIdle n) => s.round (.untilIdle (n + 1))
    | .discarding _ rest after => s.discard rest after

/-! ### Requests -/

/-- Answers with the outcome of an operation on the scheduler. -/
def update (s : Session) (f : Scheduler → Except Fault (Reply × Scheduler)) : Signal × Session :=
  match s.scheduler with
  | none => (.answered (.refused .schedulerGone), s)
  | some k =>
    match f k with
    | .ok (r, k) => (.answered r, { s with scheduler := some k })
    | .error e => (.answered (.refused e), s)

/-- Lets the scheduler accept a task under a ticket, if there is a scheduler. -/
def accept (s : Session) (t : Ticket) (f : Scheduler → Ticket → Except Fault Scheduler) :
    Except Fault Scheduler :=
  match s.scheduler with
  | none => .error .schedulerGone
  | some k => f k t

/-- Hands in a task that is ready at once.  A task that is refused is destroyed. -/
def post (s : Session) (q : QueueId) : Signal × Session :=
  let t : Ticket := ⟨s.issued⟩
  let s : Session := { s with issued := s.issued + 1 }
  match s.accept t fun k t => k.post q t with
  | .error e => s.discard [t] (.answer (.refused e))
  | .ok k => (.answered (.posted t), { s with scheduler := some k })

/-- Hands in a task that waits.  A task that is refused is destroyed. -/
def postDelayed (s : Session) (q : QueueId) (delay leeway : Duration) (policy : Policy) :
    Signal × Session :=
  let t : Ticket := ⟨s.issued⟩
  let s : Session := { s with issued := s.issued + 1 }
  match s.accept t fun k t => k.postDelayed q delay leeway policy s.now t with
  | .error e => s.discard [t] (.answer (.refused e))
  | .ok k => (.answered (.handle t), { s with scheduler := some k, handles := t :: s.handles })

/-- Removes a queue and destroys its tasks. -/
def remove (s : Session) (q : QueueId) : Signal × Session :=
  match s.scheduler with
  | none => (.answered (.refused .schedulerGone), s)
  | some k =>
    match k.remove q s.now with
    | .error e => (.answered (.refused e), s)
    | .ok (ts, k) => ({ s with scheduler := some k } : Session).discard ts (.answer .done)

/-- Destroys canceled tasks that hold up wake-ups. -/
def sweep (s : Session) : Signal × Session :=
  match s.scheduler with
  | none => (.answered (.refused .schedulerGone), s)
  | some k =>
    let (ts, k) := k.sweep s.now s.isCanceled
    ({ s with scheduler := some k } : Session).discard ts (.answer .done)

/-- Gives the scheduler up, which is gone by the time its tasks are destroyed. -/
def close (s : Session) : Signal × Session :=
  if s.calls.isEmpty then
    match s.scheduler with
    | none => (.answered .done, s)
    | some k => ({ s with scheduler := none } : Session).discard k.tickets (.answer .done)
  else (.answered .busy, s)

/-- Marks a task as canceled, if it can be. -/
def cancel (s : Session) (t : Ticket) : Session :=
  if s.handles.contains t && !s.isCanceled t then { s with canceled := t :: s.canceled } else s

/-- One step of the machine. -/
def step (s : Session) : Request → Signal × Session
  | .create name waking =>
    s.update fun k => let (q, k) := k.create name waking; .ok (.created q, k)
  | .remove q => s.remove q
  | .setLevel q l => s.update fun k => (k.setLevel q l).map fun k => (.done, k)
  | .setEnabled q on => s.update fun k => (k.setEnabled q on s.now).map fun k => (.done, k)
  | .post q => s.post q
  | .postDelayed q delay leeway policy => s.postDelayed q delay leeway policy
  | .cancel t => (.answered .done, s.cancel t)
  | .advance d => (.answered .done, { s with clock := s.clock.advance d })
  | .moveClock t => (.answered .done, { s with clock := s.clock.moveTo t })
  | .runNext => s.round .once
  | .runUntilIdle => s.round (.untilIdle 0)
  | .sweep => s.sweep
  | .takeWorkRequest => s.update fun k => let (r, k) := k.takeWorkRequest; .ok (.requested r, k)
  | .close => s.close
  | .finish => s.finish

/-- The signals to a list of requests, and the session after them. -/
def run (s : Session) : List Request → List Signal × Session
  | [] => ([], s)
  | r :: rs =>
    let (signal, s) := s.step r
    let (signals, s) := s.run rs
    (signal :: signals, s)

end Dispatch.Session
