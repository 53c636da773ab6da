import Dispatch.Scheduler.Passes
import Dispatch.Scheduler.Requests

/-!
# Reachable schedulers

`Scheduler.Reachable` collects the states in which a scheduler can be while other code runs: it
starts without queues, and every operation is one step, at any time and with any tasks canceled.
-/

namespace Dispatch

/-- The states to which operations lead from a scheduler without queues. -/
inductive Scheduler.Reachable (settings : Settings) : Scheduler → Prop
  | start : Reachable settings (.ofSettings settings)
  | create {k : Scheduler} (r : Reachable settings k) (name : String) (waking : Bool) :
      Reachable settings (k.create name waking).2
  | remove {k k' : Scheduler} (r : Reachable settings k) {q : QueueId} {now : Ticks}
      {ts : List Ticket} (h : k.remove q now = .ok (ts, k')) : Reachable settings k'
  | setLevel {k k' : Scheduler} (r : Reachable settings k) {q : QueueId} {l : Level}
      (h : k.setLevel q l = .ok k') : Reachable settings k'
  | setEnabled {k k' : Scheduler} (r : Reachable settings k) {q : QueueId} {on : Bool} {now : Ticks}
      (h : k.setEnabled q on now = .ok k') : Reachable settings k'
  | post {k k' : Scheduler} (r : Reachable settings k) {q : QueueId} {t : Ticket}
      (h : k.post q t = .ok k') : Reachable settings k'
  | postDelayed {k k' : Scheduler} (r : Reachable settings k) {q : QueueId}
      {delay leeway : Duration} {policy : Policy} {now : Ticks} {t : Ticket}
      (h : k.postDelayed q delay leeway policy now t = .ok k') : Reachable settings k'
  | promote {k : Scheduler} (r : Reachable settings k) (now : Ticks) (isCanceled : Ticket → Bool) :
      Reachable settings (k.promote now isCanceled).2
  | sweep {k : Scheduler} (r : Reachable settings k) (now : Ticks) (isCanceled : Ticket → Bool) :
      Reachable settings (k.sweep now isCanceled).2
  | take {k : Scheduler} (r : Reachable settings k) (isCanceled : Ticket → Bool) :
      Reachable settings (k.take isCanceled).2
  | takeWorkRequest {k : Scheduler} (r : Reachable settings k) :
      Reachable settings k.takeWorkRequest.2

end Dispatch
