import Dispatch.Proofs.Queue.Arena
import Dispatch.Proofs.Scheduler.Readiness
import Dispatch.Proofs.Scheduler.Resting

/-!
# When some task can be run

A scheduler has a task to run if an enabled queue holds one that is not canceled and is ready, or
waits and is due (`Runnable`).  A promotion does not change that, nor does taking a canceled task,
and if no task is taken after a promotion, there is none to run (`Mirrored.not_runnable_of_take`).
The scheduler is idle if it has no task to run and no canceled one is ready (`Mirrored.isIdle_iff`).
-/

namespace Dispatch

/-! ### Queues -/

namespace Queue

variable {tq : Queue} {now : Ticks} {isCanceled : Ticket → Bool} {t : Ticket}

/-- The task is ready, or waits and is due. -/
def Ripe (tq : Queue) (now : Ticks) (t : Ticket) : Prop :=
  (∃ h, ∃ u ∈ tq.ready h, u.ticket = t) ∨ ∃ w ∈ tq.waiting, w.isDue now = true ∧ w.ticket = t

/-- A task that is not canceled is ready, or waits and is due. -/
def Live (tq : Queue) (now : Ticks) (isCanceled : Ticket → Bool) : Prop :=
  (∃ h, ∃ t ∈ tq.ready h, isCanceled t.ticket = false) ∨
    ∃ t ∈ tq.waiting, t.isDue now = true ∧ isCanceled t.ticket = false

theorem live_iff : tq.Live now isCanceled ↔ ∃ t, tq.Ripe now t ∧ isCanceled t = false := by
  constructor
  · rintro (⟨h, u, hu, live⟩ | ⟨w, hw, due, live⟩)
    · exact ⟨u.ticket, Or.inl ⟨h, u, hu, rfl⟩, live⟩
    · exact ⟨w.ticket, Or.inr ⟨w, hw, due, rfl⟩, live⟩
  · rintro ⟨t, ⟨h, u, hu, rfl⟩ | ⟨w, hw, due, rfl⟩, live⟩
    · exact Or.inl ⟨h, u, hu, live⟩
    · exact Or.inr ⟨w, hw, due, live⟩

/-- A promotion makes no task ripe, because what it moves is due. -/
theorem Ripe.of_promoted {stamp : Stamp}
    (ripe : (tq.promoted now stamp isCanceled).Ripe now t) : tq.Ripe now t := by
  rcases ripe with ⟨h, u, hu, rfl⟩ | ⟨w, hw, due, rfl⟩
  · cases h with
    | immediate => exact Or.inl ⟨.immediate, u, hu, rfl⟩
    | delayed =>
        rcases List.mem_append.1 hu with hu | hu
        · exact Or.inl ⟨.delayed, u, hu, rfl⟩
        · obtain ⟨w, hw, rfl⟩ := List.mem_map.1 hu
          obtain ⟨hw, due⟩ := List.mem_filter.1 hw
          exact Or.inr ⟨w, hw, (Bool.and_eq_true_iff.1 due).1, rfl⟩
  · exact Or.inr ⟨w, List.mem_of_mem_filter hw, due, rfl⟩

theorem live_promoted {stamp : Stamp} :
    (tq.promoted now stamp isCanceled).Live now isCanceled ↔ tq.Live now isCanceled := by
  constructor
  · intro h
    obtain ⟨t, ripe, live⟩ := live_iff.1 h
    exact live_iff.2 ⟨t, ripe.of_promoted, live⟩
  · rintro (⟨h, t, ht, live⟩ | ⟨t, ht, due, live⟩)
    · cases h with
      | immediate => exact Or.inl ⟨.immediate, t, ht, live⟩
      | delayed => exact Or.inl ⟨.delayed, t, List.mem_append_left _ ht, live⟩
    · refine Or.inl ⟨.delayed, ⟨stamp, t.ticket⟩, List.mem_append_right _ ?_, live⟩
      exact List.mem_map.2 ⟨t, List.mem_filter.2 ⟨ht, by simp [due, live]⟩, rfl⟩

/-- The task that is taken was ripe, and what is ripe without it was ripe before. -/
theorem ripe_iff_withReady {h : Half} {u : ReadyTask} {rest : List ReadyTask}
    (front : tq.ready h = u :: rest) :
    tq.Ripe now t ↔ u.ticket = t ∨ (tq.withReady h rest).Ripe now t := by
  have waiting : (tq.withReady h rest).waiting = tq.waiting := by cases h <;> rfl
  unfold Ripe
  rw [waiting, ← or_assoc]
  refine or_congr_left ?_
  simp only [Scheduler.ready_withReady]
  constructor
  · rintro ⟨g, v, hv, rfl⟩
    by_cases same : g = h
    · rw [same, front] at hv
      rcases List.mem_cons.1 hv with rfl | hv
      · exact Or.inl rfl
      · exact Or.inr ⟨h, v, by rwa [if_pos rfl], rfl⟩
    · exact Or.inr ⟨g, v, by rwa [if_neg same], rfl⟩
  · rintro (rfl | ⟨g, v, hv, rfl⟩)
    · exact ⟨h, u, by rw [front]; exact List.mem_cons_self, rfl⟩
    · split_ifs at hv with same
      · exact ⟨h, v, by rw [front]; exact List.mem_cons_of_mem _ hv, rfl⟩
      · exact ⟨g, v, hv, rfl⟩

/-- A canceled task may be taken away. -/
theorem live_withReady {h : Half} {u : ReadyTask} {rest : List ReadyTask}
    (front : tq.ready h = u :: rest) (canceled : isCanceled u.ticket = true) :
    (tq.withReady h rest).Live now isCanceled ↔ tq.Live now isCanceled := by
  rw [live_iff, live_iff]
  refine exists_congr fun t => and_congr_left fun live => ?_
  rw [ripe_iff_withReady front]
  refine (or_iff_right ?_).symm
  rintro rfl
  rw [canceled] at live
  cases live

end Queue

namespace Scheduler

variable {settings : Settings} {k : Scheduler} {now : Ticks} {isCanceled : Ticket → Bool}
  {t : Ticket}

/-- An enabled queue holds a task that is not canceled and is ready, or waits and is due. -/
def Runnable (k : Scheduler) (now : Ticks) (isCanceled : Ticket → Bool) : Prop :=
  ∃ q tq, k.queues.get? q = some tq ∧ tq.enabled = true ∧ tq.Live now isCanceled

/-- The task is ready in an enabled queue, or waits in one and is due. -/
def Ripe (k : Scheduler) (now : Ticks) (t : Ticket) : Prop :=
  ∃ q tq, k.queues.get? q = some tq ∧ tq.enabled = true ∧ tq.Ripe now t

theorem runnable_iff : k.Runnable now isCanceled ↔ ∃ t, k.Ripe now t ∧ isCanceled t = false := by
  constructor
  · rintro ⟨q, tq, hq, enabled, live⟩
    obtain ⟨t, ripe, live⟩ := Queue.live_iff.1 live
    exact ⟨t, ⟨q, tq, hq, enabled, ripe⟩, live⟩
  · rintro ⟨t, ⟨q, tq, hq, enabled, ripe⟩, live⟩
    exact ⟨q, tq, hq, enabled, Queue.live_iff.2 ⟨t, ripe, live⟩⟩

/-! ### Promotions -/

theorem Scheduled.runnable_promote (w : Scheduled k) :
    (k.promote now isCanceled).2.Runnable now isCanceled ↔ k.Runnable now isCanceled := by
  unfold Runnable
  simp only [w.get?_promote, Option.map_eq_some_iff]
  constructor
  · rintro ⟨q, -, ⟨tq, hq, rfl⟩, enabled, live⟩
    split_ifs at enabled live with h
    · exact ⟨q, tq, hq, h, Queue.live_promoted.1 live⟩
    · exact ⟨q, tq, hq, enabled, live⟩
  · rintro ⟨q, tq, hq, enabled, live⟩
    refine ⟨q, _, ⟨tq, hq, rfl⟩, ?_⟩
    rw [if_pos enabled]
    exact ⟨enabled, Queue.live_promoted.2 live⟩

/-- After a promotion no task is due that waits in an enabled queue. -/
theorem Scheduled.not_due_promote (w : Scheduled k) (q : QueueId) :
    ¬ (k.promote now isCanceled).2.Due now q := by
  rintro ⟨tq', hq, enabled, t, ht, due⟩
  rw [w.get?_promote] at hq
  obtain ⟨tq, -, rfl⟩ := Option.map_eq_some_iff.1 hq
  split_ifs at enabled ht with h
  · have waits := (List.mem_filter.1 ht).2
    rw [due] at waits
    cases waits
  · exact h enabled

/-! ### Taking a task -/

/-- If no task is taken, there is none to run. -/
theorem Mirrored.not_runnable_of_take (m : Mirrored k) (none_due : ∀ q, ¬ k.Due now q)
    (none_taken : (k.take isCanceled).1 = none) : ¬ k.Runnable now isCanceled := by
  have rest : k.Resting := by
    have after := m.resting_take none_taken
    rwa [m.take_eq_of_none none_taken] at after
  rintro ⟨q, tq, hq, enabled, ⟨h, t, ht, -⟩ | ⟨t, ht, due, -⟩⟩
  · rw [rest q tq h hq enabled] at ht
    cases ht
  · exact none_due q ⟨tq, hq, enabled, t, ht, due⟩

/-- Taking a canceled task leaves the others to be run. -/
theorem Mirrored.runnable_take_iff (m : Mirrored k) (taken : (k.take isCanceled).1 = some t)
    (canceled : isCanceled t = true) :
    (k.take isCanceled).2.Runnable now isCanceled ↔ k.Runnable now isCanceled := by
  obtain ⟨q, tq, h, u, rest, e, rfl⟩ := m.exists_takes taken
  unfold Runnable
  simp only [e.get?_take]
  constructor
  · rintro ⟨j, tq', hj, enabled, live⟩
    split_ifs at hj
    · cases hj
      exact ⟨q, tq, e.queue, e.enabled, (Queue.live_withReady e.front canceled).1 live⟩
    · exact ⟨j, tq', hj, enabled, live⟩
  · rintro ⟨j, tq', hj, enabled, live⟩
    by_cases same : j = q
    · subst same
      obtain rfl : tq = tq' := Option.some.inj (e.queue.symm.trans hj)
      exact ⟨j, tq.withReady h rest, if_pos rfl, by cases h <;> exact enabled,
        (Queue.live_withReady e.front canceled).2 live⟩
    · exact ⟨j, tq', (if_neg same).trans hj, enabled, live⟩

/-! ### Idle schedulers -/

/-- The selector is idle if the scheduler rests. -/
theorem Mirrored.isIdle_selector_iff (m : Mirrored k) : k.selector.isIdle = true ↔ k.Resting := by
  rw [m.wf.isIdle_iff]
  constructor
  · intro none q tq h hq enabled
    refine Queue.front_eq_none_iff.1 (Option.eq_none_iff_forall_ne_some.2 fun f hf => ?_)
    exact none tq.level ⟨h, q, f, trivial, m.isFront_iff.2 ⟨tq, hq, enabled, rfl, hf⟩⟩
  · rintro rest l ⟨h, q, f, -, front⟩
    obtain ⟨tq, hq, enabled, -, hf⟩ := m.isFront_iff.1 front
    rw [rest q tq h hq enabled] at hf
    cases hf

/-- A scheduler is idle if it has no task to run and no canceled task is ready in an enabled
queue. -/
theorem Mirrored.isIdle_iff (m : Mirrored k) : k.isIdle now isCanceled = true ↔
    ¬ k.Runnable now isCanceled ∧ ∀ q tq h, k.queues.get? q = some tq → tq.enabled = true →
      ∀ u ∈ tq.ready h, isCanceled u.ticket = false := by
  have split : k.isIdle now isCanceled = true ↔ k.Resting ∧
      ∀ q tq, k.queues.get? q = some tq → tq.enabled = true →
        ∀ t ∈ tq.waiting, t.isDue now = true → isCanceled t.ticket = true := by
    unfold Scheduler.isIdle
    rw [Bool.and_eq_true, m.isIdle_selector_iff, Bool.not_eq_true', List.any_eq_false]
    refine and_congr_right fun _ => ?_
    simp only [Prod.forall, Arena.mem_toList, Queue.hasDueTask, Bool.and_eq_true, List.any_eq_true,
      Bool.not_eq_true', not_and, not_exists, Bool.not_eq_false]
  rw [split]
  constructor
  · rintro ⟨rest, waiting⟩
    refine ⟨?_, fun q tq h hq enabled u hu => ?_⟩
    · rintro ⟨q, tq, hq, enabled, ⟨h, t, ht, -⟩ | ⟨t, ht, due, live⟩⟩
      · rw [rest q tq h hq enabled] at ht
        cases ht
      · rw [waiting q tq hq enabled t ht due] at live
        cases live
    · rw [rest q tq h hq enabled] at hu
      cases hu
  · rintro ⟨nothing, live⟩
    refine ⟨fun q tq h hq enabled => ?_, fun q tq hq enabled t ht due => ?_⟩
    · refine List.eq_nil_iff_forall_not_mem.2 fun u hu => nothing ?_
      exact ⟨q, tq, hq, enabled, Or.inl ⟨h, u, hu, live q tq h hq enabled u hu⟩⟩
    · refine Bool.of_not_eq_false fun not_canceled => nothing ?_
      exact ⟨q, tq, hq, enabled, Or.inr ⟨t, ht, due, not_canceled⟩⟩

end Scheduler

end Dispatch
