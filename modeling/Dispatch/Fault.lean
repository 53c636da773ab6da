import Dispatch.Queue.Id
import Dispatch.Queue.Level

/-!
# Faults

The reasons for which a request is refused.
-/

namespace Dispatch

/-- Why a request was refused. -/
inductive Fault where
  | unknownQueue (queue : QueueId)
  | invalidLevel (number : Nat)
  | schedulerGone
deriving DecidableEq

namespace Fault

/-- The text of the fault, which names the queue or the number that was not accepted. -/
def message : Fault → String
  | unknownQueue q => "task queue " ++ q.text ++ " is not registered with this scheduler"
  | invalidLevel n => toString n ++ " is not a valid queue priority"
  | schedulerGone => "the scheduler behind this task runner has been dropped"

end Fault

/-- The level with a given rank. -/
def Level.ofNumber (n : Nat) : Except Fault Level :=
  match Level.ofIndex? n with
  | some l => .ok l
  | none => .error (.invalidLevel n)

end Dispatch
