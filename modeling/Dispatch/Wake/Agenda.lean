import Dispatch.Collection.KeyedHeap
import Dispatch.Queue.Id
import Dispatch.Wake.WakeUp

/-!
# Agendas

An agenda holds for some queues the next wake-up that each wants, the earliest on top.  A waking
agenda gives notice whenever its earliest wake-up changes, so that a timer can be armed.
-/

namespace Dispatch

/-- The earliest wake-up of an agenda, when it changed. -/
structure Notice where
  time : Ticks
  next : Option WakeUp
deriving DecidableEq

/-- The next wake-up of each queue that wants one. -/
structure Agenda where
  waking : Bool
  entries : KeyedHeap QueueId WakeUp := {}
  /-- How many of the wake-ups need high resolution. -/
  highResolution : Nat := 0
deriving DecidableEq

namespace Agenda

/-- How many queues have an entry. -/
def size (a : Agenda) : Nat := a.entries.size

/-- No queue has an entry. -/
def isEmpty (a : Agenda) : Bool := a.entries.isEmpty

/-- The queue that is to be woken first. -/
def first? (a : Agenda) : Option QueueId := a.entries.min?.map Prod.fst

/-- The earliest wake-up. -/
def next? (a : Agenda) : Option WakeUp := a.entries.min?.map Prod.snd

/-- The wake-up that is entered for a queue. -/
def get? (a : Agenda) (q : QueueId) : Option WakeUp := a.entries.get? q

/-- Some entry needs high resolution, by the count that is kept of them. -/
def hasHighResolution (a : Agenda) : Bool := decide (0 < a.highResolution)

/-- One for a wake-up that needs high resolution, otherwise nothing. -/
def highCount : Option WakeUp → Nat
  | some w => if w.resolution = .high then 1 else 0
  | none => 0

/-- Enters the wake-up that a queue wants, or takes its entry out. -/
def set (a : Agenda) (q : QueueId) (now : Ticks) (w : Option WakeUp) : List Notice × Agenda :=
  let b : Agenda :=
    { a with
      entries := w.elim (a.entries.erase q) (a.entries.insert q)
      highResolution := a.highResolution - highCount (a.get? q) + highCount w }
  -- whoever arms the timer hears of the first entry only, and only when it is another one
  (if a.waking && b.next? != a.next? then [⟨now, b.next?⟩] else [], b)

/-- Takes the entry of a queue out, if it has one. -/
def unregister (a : Agenda) (q : QueueId) (now : Ticks) : List Notice × Agenda :=
  if a.entries.contains q then a.set q now none else ([], a)

end Agenda

end Dispatch
