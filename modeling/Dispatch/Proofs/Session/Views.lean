import Dispatch.Proofs.Scheduler.Passes
import Dispatch.Proofs.Session.Reach

/-!
# What a scheduler knows of its queues

Between any two requests of a session, the selector records of every queue what the queue says
(`selector_mirrors_run`), and the agendas and the timer hold what the queues want
(`wakeUps_run`).  So a task is found whenever one is selected, and the timer is armed whenever a
task waits in an enabled queue that may arm it.
-/

namespace Dispatch.Session

open Scheduler

/-- After any requests the selector records of the queues, and of nothing else, their levels,
whether they are enabled, and the stamps of their front tasks.  So, whatever has been promoted, the
half that is selected holds a task, which is the one that is taken. -/
theorem selector_mirrors_run (settings : Settings) (start : Ticks) (rs : List Request)
    {k : Scheduler} (h : ((new settings start).run rs).2.scheduler = some k) :
    (∀ q, k.selector.queues.find? q =
        (k.queues.get? q).map fun tq => ⟨tq.level, tq.enabled, tq.fronts⟩) ∧
      (∀ q tq, k.queues.get? q = some tq → ∀ h,
        tq.fronts.get h = (tq.ready h).head?.map (·.stamp) ∧
          (tq.fronts.get h = none ↔ tq.ready h = [])) ∧
      ∀ now isCanceled pick,
        ((k.promote now isCanceled).2.selector.select .bothHalves).1 = some pick →
          ∃ tq t rest, (k.promote now isCanceled).2.queues.get? pick.queue = some tq ∧
            tq.ready pick.half = t :: rest ∧
            ((k.promote now isCanceled).2.take isCanceled).1 = some t.ticket := by
  have r := reachable_run settings start rs h
  refine ⟨r.mirrored.records, fun q tq hq h => ?_, fun now isCanceled pick hp => ?_⟩
  · have e : tq.fronts.get h = tq.front h := by cases h <;> rfl
    rw [e]
    exact ⟨rfl, Queue.front_eq_none_iff⟩
  · have m := (r.promote now isCanceled).mirrored
    rcases m.take_cases isCanceled with ⟨e, -⟩ | ⟨pick', selector, tq, t, rest, e, hq, hr, ht⟩
    · rw [e] at hp
      cases hp
    · rw [e] at hp
      cases hp
      exact ⟨tq, t, rest, hq, hr, by rw [ht]⟩

/-- Two posted tasks, of which the first has been started and the second is to be selected. -/
theorem selector_mirrors_run_two_posts :
    let s := ((new {} .zero).run [.create "main" true, .post ⟨1, 1⟩, .post ⟨1, 1⟩, .runNext]).2
    ∃ k, s.scheduler = some k ∧
      (∀ q, k.selector.queues.find? q =
        (k.queues.get? q).map fun tq => ⟨tq.level, tq.enabled, tq.fronts⟩) ∧
      ∃ tq t rest, (k.promote .zero s.isCanceled).2.queues.get? ⟨1, 1⟩ = some tq ∧
        tq.ready .immediate = t :: rest ∧
        ((k.promote .zero s.isCanceled).2.take s.isCanceled).1 = some t.ticket := by
  intro s
  have selected : s.scheduler.any fun k =>
      ((k.promote .zero s.isCanceled).2.selector.select .bothHalves).1 =
        some ⟨⟨1, 1⟩, .immediate⟩ := by decide +kernel
  obtain ⟨k, hk, hp⟩ := (Option.any_eq_true _ _).1 selected
  obtain ⟨records, -, taken⟩ := selector_mirrors_run {} .zero _ hk
  exact ⟨k, hk, records, taken .zero s.isCanceled _ (of_decide_eq_true hp)⟩

/-- After any requests each agenda holds for every queue of its kind what the queue wants, and for
no other id anything.  The timer is armed for the first entry of the waking agenda: for nothing
exactly if no task awaits it, and otherwise for the least wake-up that is wanted, whose window
begins when the first of the tasks that await it may run. -/
theorem wakeUps_run (settings : Settings) (start : Ticks) (rs : List Request) {k : Scheduler}
    (h : ((new settings start).run rs).2.scheduler = some k) :
    (∀ q tq, k.queues.get? q = some tq →
        (k.agenda tq.waking).get? q = tq.nextWakeUp ∧ (k.agenda (!tq.waking)).get? q = none) ∧
      (∀ q b, k.queues.get? q = none → (k.agenda b).get? q = none) ∧
      k.nextWakeUp = k.timer ∧ (k.nextWakeUp = none ↔ ∀ t, ¬ k.Awaits t) ∧
      ∀ w, k.nextWakeUp = some w → (k.Wants w ∧ ∀ v, k.Wants v → w ≤ v) ∧
        (∃ t, k.Awaits t ∧ t.earliest = w.earliest) ∧
          ∀ t, k.Awaits t → w.earliest ≤ t.earliest := by
  have s := (reachable_run settings start rs h).scheduled
  refine ⟨fun q tq hq => ⟨?_, ?_⟩, fun q b hq => s.get?_agenda_eq_none hq b, s.timer.symm,
    s.nextWakeUp_eq_none_iff, fun w hw => s.nextWakeUp_eq_some hw⟩
  · rw [s.get?_agenda hq, if_pos rfl]
  · rw [s.get?_agenda hq, if_neg (by simp)]

/-- Two tasks wait, and the one that was posted last arms the timer. -/
theorem wakeUps_run_two_delayed :
    let s := ((new {} .zero).run [.create "main" true,
      .postDelayed ⟨1, 1⟩ (.ofMillis 500) .zero .noSooner,
      .postDelayed ⟨1, 1⟩ (.ofMillis 200) .zero .noSooner]).2
    ∃ k, s.scheduler = some k ∧ k.timer = k.nextWakeUp ∧
      ∃ w, k.nextWakeUp = some w ∧ w.time = .ofMillis 200 ∧
        ∀ t, k.Awaits t → w.earliest ≤ t.earliest := by
  intro s
  have armed : s.scheduler.any fun k =>
      k.nextWakeUp.any fun w => w.time = .ofMillis 200 := by decide +kernel
  obtain ⟨k, hk, hw⟩ := (Option.any_eq_true _ _).1 armed
  obtain ⟨w, hw, ht⟩ := (Option.any_eq_true _ _).1 hw
  obtain ⟨-, -, timer, -, first⟩ := wakeUps_run {} .zero _ hk
  exact ⟨k, hk, timer.symm, w, hw, of_decide_eq_true ht, (first w hw).2.2⟩

end Dispatch.Session
