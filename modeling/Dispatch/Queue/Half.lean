import Dispatch.Queue.Id
import Dispatch.Queue.Stamp

/-!
# The two halves of a queue

A queue keeps its ready tasks in two halves, those posted without a delay and those whose delay has
passed.  `Fronts` holds the stamp of the front task of each half, and `Pick` names one half of one
queue.
-/

namespace Dispatch

/-- One of the two stores of ready tasks in a queue. -/
inductive Half where
  | immediate
  | delayed
deriving DecidableEq

namespace Half

/-- The name of the half in texts. -/
def name : Half → String
  | immediate => "immediate"
  | delayed => "delayed"

end Half

/-- One half of one queue. -/
structure Pick where
  queue : QueueId
  half : Half
deriving DecidableEq

/-- The stamps of the front tasks of the two halves of a queue. -/
structure Fronts where
  immediate : Option Stamp := none
  delayed : Option Stamp := none
deriving DecidableEq, Inhabited

namespace Fronts

/-- The front of one half. -/
def get (f : Fronts) : Half → Option Stamp
  | .immediate => f.immediate
  | .delayed => f.delayed

/-- The fronts with the one of a half replaced. -/
def set (f : Fronts) (h : Half) (front : Option Stamp) : Fronts :=
  match h with
  | .immediate => { f with immediate := front }
  | .delayed => { f with delayed := front }

end Fronts

end Dispatch
