import Dispatch.Queue.Stamp
import Dispatch.Wake.Agenda

/-!
# Passes over an agenda

The tasks themselves are kept by the owner of the queues, who may give any answers.

A promotion pass wakes every queue that is due and enters the wake-up that it wants next.  A queue
that still wants one that is due is taken out until all others have been woken.  Then, since waking
one queue may have put off another, the queue on top is asked again what it wants until the same
queue stays on top.  A trimming pass lets the queue on top remove what has been canceled, for as
long as there is something to remove.
-/

namespace Dispatch.Agenda

/-- What an agenda asks of the owner of the queues, whose state is a `σ`. -/
structure Owner (σ : Type) where
  /-- Moves the tasks of a queue that are due to the ready ones, under the given stamp, and answers
  what the queue wants next. -/
  wake : QueueId → Ticks → Stamp → σ → Option WakeUp × σ
  /-- Answers what a queue wants next. -/
  want : QueueId → Ticks → σ → Option WakeUp × σ
  /-- Removes canceled tasks from the front of a queue and answers whether there were any. -/
  trim : QueueId → Ticks → σ → Bool × σ

/-- How far a pass over an agenda has come. -/
structure Pass (σ : Type) where
  agenda : Agenda
  owner : σ
  notices : List Notice := []
  /-- The queues that still wanted a wake-up that was due, in the order in which they were woken. -/
  deferred : List (QueueId × WakeUp) := []
  /-- How many queues have been woken. -/
  woken : Nat := 0

namespace Pass

variable {σ : Type}

/-- Enters what a queue wants, and adds the notices that this causes to those of the pass. -/
def set (p : Pass σ) (q : QueueId) (now : Ticks) (w : Option WakeUp) : Pass σ :=
  let (ns, a) := p.agenda.set q now w
  { p with agenda := a, notices := p.notices ++ ns }

/-- Wakes the queue `q` and enters or defers what it wants next. -/
def wake (p : Pass σ) (o : Owner σ) (q : QueueId) (now : Ticks) (stamp : Stamp) : Pass σ :=
  let (w, s) := o.wake q now stamp p.owner
  let p : Pass σ := { p with owner := s, woken := p.woken + 1 }
  match w with
  | some v =>
    -- entered at once, it would be on top again and the queue woken without end
    if v.isReady now then { p.set q now none with deferred := p.deferred ++ [(q, v)] }
    else p.set q now w
  | none => p.set q now none

/-- Wakes the queue on top while it is due.  No queue is due after it has been woken, so as many
steps are enough as there are entries. -/
def drain (o : Owner σ) (now : Ticks) (stamp : Stamp) : Nat → Pass σ → Pass σ
  | 0, p => p
  | n + 1, p =>
    match p.agenda.entries.min? with
    | none => p
    | some (q, w) => if w.isReady now then drain o now stamp n (p.wake o q now stamp) else p

/-- Enters the deferred wake-ups again. -/
def enterDeferred (p : Pass σ) (now : Ticks) : Pass σ :=
  p.deferred.foldl (fun p (q, w) => p.set q now (some w)) p

/-- Enters what the queue `q` wants now. -/
def refresh (p : Pass σ) (o : Owner σ) (q : QueueId) (now : Ticks) : Pass σ :=
  let (w, s) := o.want q now p.owner
  ({ p with owner := s } : Pass σ).set q now w

/-- Refreshes the queue on top until it is the one refreshed last, for `n` steps at most. -/
def settle (o : Owner σ) (now : Ticks) : Nat → Option QueueId → Pass σ → Pass σ
  | 0, _, p => p
  | n + 1, last, p =>
    match p.agenda.first? with
    | none => p
    | some q => if last = some q then p else settle o now n (some q) (p.refresh o q now)

/-- Trims the queue on top while it has something to remove, for `n` steps at most. -/
def trim (o : Owner σ) (now : Ticks) : Nat → Pass σ → Pass σ
  | 0, p => p
  | n + 1, p =>
    match p.agenda.first? with
    | none => p
    | some q =>
      let (removed, s) := o.trim q now p.owner
      let p : Pass σ := { p with owner := s }
      if removed then trim o now n (p.refresh o q now) else p

end Pass

variable {σ : Type}

/-- Wakes all queues that are due.  The owner may give any answers, so the number of questions asked
afterwards about the queue on top is limited to `rounds`. -/
def promote (a : Agenda) (o : Owner σ) (now : Ticks) (stamp : Stamp) (rounds : Nat) (s : σ) :
    Pass σ :=
  let p := (Pass.drain o now stamp a.size { agenda := a, owner := s }).enterDeferred now
  if p.woken = 0 then p else Pass.settle o now rounds none p

/-- Removes canceled tasks from the queue on top, at most `rounds` times. -/
def trim (a : Agenda) (o : Owner σ) (now : Ticks) (rounds : Nat) (s : σ) : Pass σ :=
  Pass.trim o now rounds { agenda := a, owner := s }

end Dispatch.Agenda
