import Dispatch.Proofs.Scheduler.Passes
import Dispatch.Proofs.Session.Reach

/-!
# The window of the next wake-up

The next wake-up has the window of one task: the first one of some queue whose window opens before
those of the others, and of equal ones the one that closes first (`Scheduled.nextWakeUp_window`).
It can outlast the window of another task that opens later, or that waits behind the first one, but
not by more than its own length (`latest_nextWakeUp_le`).
-/

namespace Dispatch

/-- The last moment at which the task should run. -/
def WaitingTask.latest (t : WaitingTask) : Ticks := t.policy.latest t.runTime t.leeway

theorem Policy.earliest_le_latest (p : Policy) (t : Ticks) (d : Duration) :
    p.earliest t d ≤ p.latest t d := by
  have bound := t.sinceOrigin.nanos_le
  cases p with
  | noSooner =>
      show t.nanos ≤ min (t.nanos + d.nanos) maxNanos
      exact Nat.le_min.2 ⟨Nat.le_add_right _ _, bound⟩
  | preferEarly => exact Nat.sub_le _ _
  | precise => exact Nat.le_refl _

/-- Of two wake-ups the smaller one opens first or, if they open together, closes first. -/
theorem WakeUp.window_of_le {a b : WakeUp} (h : a ≤ b) :
    a.earliest < b.earliest ∨ a.earliest = b.earliest ∧ a.latest ≤ b.latest := by
  rcases Nat.lt_or_eq_of_le (WakeUp.earliest_le h) with sooner | together
  · exact Or.inl sooner
  · refine Or.inr ⟨Ticks.eq_of_nanos together, Nat.le_of_not_lt fun closes => h ?_⟩
    show List.Lex _ b.rank a.rank
    unfold WakeUp.rank
    rw [show b.earliest.nanos = a.earliest.nanos from together.symm]
    exact List.Lex.cons (List.Lex.rel closes)

theorem Ticks.le_add_diff {t u v : Ticks} (h : t ≤ v) : u ≤ v + (u - t) := by
  have bound := u.sinceOrigin.nanos_le
  simp only [Ticks.le_iff, Ticks.nanos_add, Ticks.nanos_diff] at h ⊢
  unfold Ticks.nanos at h ⊢
  omega

/-- The wake-up that a queue wants has the window of its first waiting task. -/
theorem Queue.window_nextWakeUp {q : Queue} {w : WakeUp} (h : q.nextWakeUp = some w) :
    q.enabled = true ∧
      ∃ t, q.waiting.head? = some t ∧ t.earliest = w.earliest ∧ t.latest = w.latest := by
  unfold nextWakeUp at h
  split at h
  · rename_i enabled
    obtain ⟨t, first, rfl⟩ := Option.map_eq_some_iff.1 h
    exact ⟨enabled, t, first, rfl, rfl⟩
  · cases h

namespace Scheduler

variable {k : Scheduler} {t : WaitingTask} {w : WakeUp}

/-- The task is the first that waits in an enabled queue that may arm the timer. -/
def Heads (k : Scheduler) (t : WaitingTask) : Prop :=
  ∃ q tq, k.queues.get? q = some tq ∧ tq.waking = true ∧ tq.enabled = true ∧
    tq.waiting.head? = some t

theorem Heads.exists_wants (h : k.Heads t) :
    ∃ v, k.Wants v ∧ v.earliest = t.earliest ∧ v.latest = t.latest := by
  obtain ⟨q, tq, hq, waking, enabled, first⟩ := h
  refine ⟨⟨t.runTime, t.leeway, if 0 < tq.highResolution then .high else .low, t.policy⟩,
    ⟨q, tq, hq, waking, ?_⟩, rfl, rfl⟩
  unfold Queue.nextWakeUp
  rw [if_pos enabled, first]
  rfl

/-- The next wake-up has the window of a first task, and none of a first task comes before it. -/
theorem Scheduled.nextWakeUp_window (s : Scheduled k) (hw : k.nextWakeUp = some w) :
    (∃ t, k.Heads t ∧ t.earliest = w.earliest ∧ t.latest = w.latest) ∧
      ∀ t, k.Heads t →
        w.earliest < t.earliest ∨ w.earliest = t.earliest ∧ w.latest ≤ t.latest := by
  obtain ⟨⟨wanted, least⟩, -⟩ := s.nextWakeUp_eq_some hw
  constructor
  · obtain ⟨q, tq, hq, waking, hv⟩ := wanted
    obtain ⟨enabled, t, first, window⟩ := Queue.window_nextWakeUp hv
    exact ⟨t, ⟨q, tq, hq, waking, enabled, first⟩, window⟩
  · intro t first
    obtain ⟨v, hv, opens, closes⟩ := first.exists_wants
    rw [← opens, ← closes]
    exact WakeUp.window_of_le (least v hv)

end Scheduler

namespace Session

open Scheduler

/-- The next wake-up has the window of a task that waits first in its queue; of all these tasks its
window opens first, and of those that open with it, closes first.  No waiting task, canceled or not,
is made late by more than the length of that window.  A task is not made late at all unless a task
that waits first in its queue has a window that opens no later than its own and closes later. -/
theorem latest_nextWakeUp_le (settings : Settings) (start : Ticks) (rs : List Request)
    {k : Scheduler} {w : WakeUp} (h : ((new settings start).run rs).2.scheduler = some k)
    (hw : k.nextWakeUp = some w) :
    ((∃ t, k.Heads t ∧ t.earliest = w.earliest ∧ t.latest = w.latest) ∧
        ∀ t, k.Heads t →
          w.earliest < t.earliest ∨ w.earliest = t.earliest ∧ w.latest ≤ t.latest) ∧
      (∀ t, k.Awaits t → w.latest ≤ t.earliest + (w.latest - w.earliest) ∧
        w.latest ≤ t.latest + (w.latest - w.earliest)) ∧
      ∀ t, k.Awaits t → (∀ u, k.Heads u → u.earliest ≤ t.earliest → u.latest ≤ t.latest) →
        w.latest ≤ t.latest := by
  have s := (reachable_run settings start rs h).scheduled
  have window := s.nextWakeUp_window hw
  have opens : ∀ t, k.Awaits t → w.earliest ≤ t.earliest := (s.nextWakeUp_eq_some hw).2.2
  refine ⟨window, fun t waits => ⟨Ticks.le_add_diff (opens t waits), Ticks.le_add_diff ?_⟩,
    fun t waits closes => ?_⟩
  · exact Nat.le_trans (opens t waits) (Policy.earliest_le_latest _ _ _)
  · obtain ⟨u, first, e, e'⟩ := window.1
    rw [← e']
    exact closes u first (e ▸ opens t waits)

/-- Two queues, of which one waits for a task with a leeway and the other for a precise one. -/
theorem latest_nextWakeUp_le_two_queues :
    let s := ((new {} .zero).run [.create "main" true, .create "other" true,
      .postDelayed ⟨1, 1⟩ (.ofMillis 10) (.ofMillis 100) .noSooner,
      .postDelayed ⟨2, 1⟩ (.ofMillis 20) .zero .precise]).2
    ∃ k w, s.scheduler = some k ∧ k.nextWakeUp = some w ∧ w.latest = .ofMillis 110 ∧
      ∀ t, k.Awaits t → w.latest ≤ t.latest + (w.latest - w.earliest) := by
  intro s
  have armed : s.scheduler.any fun k =>
      k.nextWakeUp.any fun w => w.latest = .ofMillis 110 := by decide +kernel
  obtain ⟨k, hk, hw⟩ := (Option.any_eq_true _ _).1 armed
  obtain ⟨w, hw, closes⟩ := (Option.any_eq_true _ _).1 hw
  obtain ⟨-, late, -⟩ := latest_nextWakeUp_le {} .zero _ hk hw
  exact ⟨k, w, hk, hw, of_decide_eq_true closes, fun t waits => (late t waits).2⟩

/-- A precise task waits behind one with a leeway.  The window of the next wake-up closes long after
the precise task should have run. -/
theorem latest_lt_latest_nextWakeUp :
    let s := ((new {} .zero).run [.create "main" true,
      .postDelayed ⟨1, 1⟩ (.ofMillis 10) (.ofMillis 100) .noSooner,
      .postDelayed ⟨1, 1⟩ (.ofMillis 20) .zero .precise]).2
    ¬ ∀ k w t, s.scheduler = some k → k.nextWakeUp = some w → k.Awaits t →
      s.isCanceled t.ticket = false → w.latest ≤ t.latest := by
  intro s safe
  have late : s.scheduler.any fun k => k.nextWakeUp.any fun w =>
      (k.queues.get? ⟨1, 1⟩).any fun tq => tq.waking && tq.enabled &&
        tq.waiting.any fun t => !s.isCanceled t.ticket && decide (t.latest < w.latest) := by
    decide +kernel
  obtain ⟨k, hk, late⟩ := (Option.any_eq_true _ _).1 late
  obtain ⟨w, hw, late⟩ := (Option.any_eq_true _ _).1 late
  obtain ⟨tq, hq, late⟩ := (Option.any_eq_true _ _).1 late
  simp only [Bool.and_eq_true, List.any_eq_true, Bool.not_eq_true', decide_eq_true_eq] at late
  obtain ⟨⟨waking, enabled⟩, t, mem, live, closes⟩ := late
  exact Nat.not_le.2 closes (safe k w t hk hw ⟨_, tq, hq, waking, enabled, mem⟩ live)

end Session

end Dispatch
