import Dispatch.Wake.Pass

/-!
# Rehearsing an agenda

A rehearsal takes the place of the owner of the queues and answers an agenda from a script.  It
keeps the wake-up that each queue is taken to want and records every question it is asked.
-/

namespace Dispatch.Scenario

/-- What a queue answers when it is woken, and what that does to others. -/
structure Awakening where
  next : Option WakeUp := none
  others : List (QueueId × Option WakeUp) := []
deriving DecidableEq

/-- A question that the agenda asked. -/
inductive Question where
  | wake (queue : QueueId) (now : Ticks) (stamp : Stamp)
  | want (queue : QueueId) (now : Ticks)
  | trim (queue : QueueId) (now : Ticks)
deriving DecidableEq

/-- The answers prepared for each queue, each used once and in order. -/
structure Script where
  awakenings : Table QueueId (List Awakening) := .empty
  wants : Table QueueId (List (Option WakeUp)) := .empty
  trims : Table QueueId (List Bool) := .empty
deriving DecidableEq

/-- A stand-in for the owner of the queues. -/
structure Rehearsal where
  /-- The wake-up that each queue is taken to want. -/
  wanted : Table QueueId WakeUp := .empty
  script : Script := {}
  /-- What was asked so far, in order. -/
  asked : List Question := []
deriving DecidableEq

/-- Takes the next of the answers prepared for `q`. -/
def takeNext {α : Type} (t : Table QueueId (List α)) (q : QueueId) :
    Option α × Table QueueId (List α) :=
  match t.find? q with
  | some (a :: rest) => (some a, t.insert q rest)
  | _ => (none, t)

namespace Rehearsal

/-- Sets down what a queue is known to want, or that it wants nothing. -/
def setWanted (r : Rehearsal) (q : QueueId) (w : Option WakeUp) : Rehearsal :=
  { r with wanted := w.elim (r.wanted.erase q) (r.wanted.insert q) }

/-- Follows another script, with nothing asked yet. -/
def follow (r : Rehearsal) (script : Script) : Rehearsal := { r with script := script, asked := [] }

/-- Answers as the script says next for the queue, which may also change what others want.  A queue
of which the script says no more wants nothing. -/
def wake (q : QueueId) (now : Ticks) (stamp : Stamp) (r : Rehearsal) : Option WakeUp × Rehearsal :=
  let (answer, awakenings) := takeNext r.script.awakenings q
  let answer := answer.getD {}
  let r : Rehearsal :=
    { r with
      script := { r.script with awakenings := awakenings }
      asked := r.asked ++ [.wake q now stamp] }
  let r := answer.others.foldl (fun r (k, w) => r.setWanted k w) r
  (answer.next, r.setWanted q answer.next)

/-- Answers what the queue wants, which the script may change first. -/
def want (q : QueueId) (now : Ticks) (r : Rehearsal) : Option WakeUp × Rehearsal :=
  let (answer, wants) := takeNext r.script.wants q
  let r : Rehearsal :=
    { r with script := { r.script with wants := wants }, asked := r.asked ++ [.want q now] }
  let r := answer.elim r (r.setWanted q)
  (r.wanted.find? q, r)

/-- Answers as the script says next for the queue whether anything was removed. -/
def trim (q : QueueId) (now : Ticks) (r : Rehearsal) : Bool × Rehearsal :=
  let (answer, trims) := takeNext r.script.trims q
  (answer.getD false,
    { r with script := { r.script with trims := trims }, asked := r.asked ++ [.trim q now] })

/-- The rehearsal as the owner of the queues. -/
def owner : Agenda.Owner Rehearsal := ⟨wake, want, trim⟩

/-- The number of answers prepared. -/
def prepared {α : Type} (t : Table QueueId (List α)) : Nat := (t.entries.flatMap (·.2)).length

/-- How often a queue on top of the agenda is asked.  Once the script is used up, every question but
the last is about another entry of the agenda. -/
def patience (r : Rehearsal) (a : Agenda) : Nat :=
  prepared r.script.wants + prepared r.script.trims + a.size + 2

/-- Lets the agenda wake what is due. -/
def promote (r : Rehearsal) (a : Agenda) (now : Ticks) (stamp : Stamp) : Agenda.Pass Rehearsal :=
  a.promote owner now stamp (r.patience a) r

/-- Lets the agenda trim what is canceled. -/
def trimAll (r : Rehearsal) (a : Agenda) (now : Ticks) : Agenda.Pass Rehearsal :=
  a.trim owner now (r.patience a) r

end Rehearsal

end Dispatch.Scenario
