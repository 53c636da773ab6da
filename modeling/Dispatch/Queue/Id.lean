/-!
# Queue ids

A queue lives in a numbered slot.  Slots are used again, so an id also carries the version of the
slot, which grows with every use.  Slots start at 1 and slot 0 is kept for the null id, which names
no queue.
-/

namespace Dispatch

/-- The name of a queue, never issued twice. -/
structure QueueId where
  slot : Nat
  version : Nat
deriving DecidableEq

namespace QueueId

/-- The id that names no queue. -/
def null : QueueId := ⟨0, 1⟩

instance : Inhabited QueueId := ⟨null⟩

/-- The id in texts, where all ids of slot 0 read as the null id. -/
def text (q : QueueId) : String :=
  if q.slot = 0 then "QueueId(null)"
  else "QueueId(" ++ toString q.slot ++ "v" ++ toString q.version ++ ")"

/-- The first ids that an arena issues, one for each of `n` slots. -/
def firstIds (n : Nat) : List QueueId := (List.range n).map fun i => ⟨i + 1, 1⟩

example : null.text = "QueueId(null)" := by cbv
example : (⟨1, 3⟩ : QueueId).text = "QueueId(1v3)" := by cbv

end QueueId

end Dispatch
