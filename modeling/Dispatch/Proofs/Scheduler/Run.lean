import Dispatch.Proofs.Scheduler.Reach

/-!
# Runs of a scheduler

A run is a list of operations, of which those that are refused change nothing.  The states at the
end of runs are the reachable ones (`reachable_iff`), so a run is the history of its last state.
-/

namespace Dispatch.Scheduler

/-- An operation on a scheduler, with the time and the canceled tasks that it is given. -/
inductive Operation where
  | create (name : String) (waking : Bool)
  | remove (queue : QueueId) (now : Ticks)
  | setLevel (queue : QueueId) (level : Level)
  | setEnabled (queue : QueueId) (on : Bool) (now : Ticks)
  | post (queue : QueueId) (ticket : Ticket)
  | postDelayed (queue : QueueId) (delay leeway : Duration) (policy : Policy) (now : Ticks)
      (ticket : Ticket)
  | promote (now : Ticks) (isCanceled : Ticket → Bool)
  | sweep (now : Ticks) (isCanceled : Ticket → Bool)
  | take (isCanceled : Ticket → Bool)
  | takeWorkRequest

/-- The outcome of an operation; one that is refused changes nothing. -/
def orUnchanged (k : Scheduler) : Except Fault Scheduler → Scheduler
  | .ok k' => k'
  | .error _ => k

/-- The scheduler after an operation. -/
def perform (k : Scheduler) : Operation → Scheduler
  | .create name waking => (k.create name waking).2
  | .remove q now => k.orUnchanged ((k.remove q now).map (·.2))
  | .setLevel q l => k.orUnchanged (k.setLevel q l)
  | .setEnabled q on now => k.orUnchanged (k.setEnabled q on now)
  | .post q t => k.orUnchanged (k.post q t)
  | .postDelayed q delay leeway policy now t =>
    k.orUnchanged (k.postDelayed q delay leeway policy now t)
  | .promote now isCanceled => (k.promote now isCanceled).2
  | .sweep now isCanceled => (k.sweep now isCanceled).2
  | .take isCanceled => (k.take isCanceled).2
  | .takeWorkRequest => k.takeWorkRequest.2

/-- The scheduler after a list of operations. -/
def run (k : Scheduler) (ops : List Operation) : Scheduler := ops.foldl perform k

variable {settings : Settings} {k : Scheduler}

theorem run_append (k : Scheduler) (ops ops' : List Operation) :
    k.run (ops ++ ops') = (k.run ops).run ops' :=
  List.foldl_append

/-- What holds of a scheduler and of every outcome holds after an operation that may be refused. -/
theorem orUnchanged_cases {P : Scheduler → Prop} {r : Except Fault Scheduler} (hk : P k)
    (hr : ∀ k', r = .ok k' → P k') : P (k.orUnchanged r) := by
  cases r with
  | ok k' => exact hr k' rfl
  | error e => exact hk

theorem exists_remove {q : QueueId} {now : Ticks} {k' : Scheduler}
    (h : (k.remove q now).map (·.2) = .ok k') : ∃ ts, k.remove q now = .ok (ts, k') := by
  cases hr : k.remove q now with
  | error e =>
      rw [hr] at h
      cases h
  | ok x =>
      rw [hr] at h
      cases h
      exact ⟨x.1, rfl⟩

theorem perform_remove_of_ok {q : QueueId} {now : Ticks} {ts : List Ticket} {k' : Scheduler}
    (h : k.remove q now = .ok (ts, k')) : k.perform (.remove q now) = k' := by
  show k.orUnchanged ((k.remove q now).map (·.2)) = k'
  rw [h]
  rfl

theorem Reachable.perform (r : Reachable settings k) (op : Operation) :
    Reachable settings (k.perform op) := by
  cases op with
  | create name waking => exact r.create name waking
  | remove q now =>
      refine orUnchanged_cases r fun k' h => ?_
      obtain ⟨ts, h⟩ := exists_remove h
      exact r.remove h
  | setLevel q l => exact orUnchanged_cases r fun k' h => r.setLevel h
  | setEnabled q on now => exact orUnchanged_cases r fun k' h => r.setEnabled h
  | post q t => exact orUnchanged_cases r fun k' h => r.post h
  | postDelayed q delay leeway policy now t =>
      exact orUnchanged_cases r fun k' h => r.postDelayed h
  | promote now isCanceled => exact r.promote now isCanceled
  | sweep now isCanceled => exact r.sweep now isCanceled
  | take isCanceled => exact r.take isCanceled
  | takeWorkRequest => exact r.takeWorkRequest

theorem Reachable.run (r : Reachable settings k) (ops : List Operation) :
    Reachable settings (k.run ops) := by
  induction ops generalizing k with
  | nil => exact r
  | cons op ops ih => exact ih (r.perform op)

/-- The reachable states are those to which runs lead. -/
theorem reachable_iff : Reachable settings k ↔ ∃ ops, (ofSettings settings).run ops = k := by
  constructor
  · have then_perform : ∀ {k k' : Scheduler} (op : Operation), k.perform op = k' →
        (∃ ops, (ofSettings settings).run ops = k) → ∃ ops, (ofSettings settings).run ops = k' := by
      rintro k k' op rfl ⟨ops, rfl⟩
      exact ⟨ops ++ [op], run_append _ ops [op]⟩
    intro r
    induction r with
    | start => exact ⟨[], rfl⟩
    | create _ name waking ih => exact then_perform (.create name waking) rfl ih
    | remove _ h ih => exact then_perform (.remove _ _) (perform_remove_of_ok h) ih
    | setLevel _ h ih => exact then_perform (.setLevel _ _) (congrArg (orUnchanged _) h) ih
    | setEnabled _ h ih => exact then_perform (.setEnabled _ _ _) (congrArg (orUnchanged _) h) ih
    | post _ h ih => exact then_perform (.post _ _) (congrArg (orUnchanged _) h) ih
    | postDelayed _ h ih =>
        exact then_perform (.postDelayed _ _ _ _ _ _) (congrArg (orUnchanged _) h) ih
    | promote _ now isCanceled ih => exact then_perform (.promote now isCanceled) rfl ih
    | sweep _ now isCanceled ih => exact then_perform (.sweep now isCanceled) rfl ih
    | take _ isCanceled ih => exact then_perform (.take isCanceled) rfl ih
    | takeWorkRequest _ ih => exact then_perform .takeWorkRequest rfl ih
  · rintro ⟨ops, rfl⟩
    exact Reachable.start.run ops

/-- What every operation keeps holds of the reachable states. -/
theorem Reachable.induct_perform {P : Scheduler → Prop} (r : Reachable settings k)
    (start : P (.ofSettings settings))
    (step : ∀ k op, Reachable settings k → P k → P (k.perform op)) : P k := by
  obtain ⟨ops, rfl⟩ := reachable_iff.1 r
  have from_here : ∀ k, Reachable settings k → P k → P (k.run ops) := by
    clear r
    induction ops with
    | nil => exact fun k _ h => h
    | cons op ops ih => exact fun k r h => ih _ (r.perform op) (step k op r h)
  exact from_here _ .start start

end Dispatch.Scheduler
