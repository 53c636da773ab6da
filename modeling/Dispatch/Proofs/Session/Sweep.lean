import Dispatch.Proofs.Scheduler.Sweep
import Dispatch.Proofs.Session.Search

/-!
# Sweeping in a session

When the canceled tasks that a sweep removes do nothing as they are destroyed, a sweep leaves each
agenda with the wake-up of the first task that waits and is not canceled, and a second sweep finds
nothing to do (`sweep_exact`).
-/

namespace Dispatch.Session

variable {s : Session} {k : Scheduler}

theorem sweep_eq (hk : s.scheduler = some k) :
    s.sweep = ({ s with scheduler := some (k.sweep s.now s.isCanceled).2 } : Session).discard
      (k.sweep s.now s.isCanceled).1 (.answer .done) := by
  unfold Session.sweep
  rw [hk]

/-- What is removed is destroyed, and then the call ends. -/
theorem run_sweep (hk : s.scheduler = some k) :
    s.run (.sweep :: List.replicate (k.sweep s.now s.isCanceled).1.length .finish) =
      ((k.sweep s.now s.isCanceled).1.map Signal.discarding ++ [.answered .done],
        { s with scheduler := some (k.sweep s.now s.isCanceled).2 }) := by
  have last : Subsides (({ s with scheduler := some (k.sweep s.now s.isCanceled).2 } :
      Session).resume (.answer .done)) [] (.answered .done, _) := .rest nofun
  have subsides := last.discards (k.sweep s.now s.isCanceled).1
  rw [List.append_nil, ← sweep_eq hk] at subsides
  exact subsides.run (r := .sweep)

/-- A second sweep has nothing to do. -/
theorem step_sweep_of_swept (hk : s.scheduler = some k) (c : k.Swept s.isCanceled) :
    s.step .sweep = (.answered .done, s) := by
  show s.sweep = _
  rw [sweep_eq hk, c.sweep_eq, ← hk]
  rfl

/-- The loops of a sweep end.  It removes canceled tasks, which are destroyed, and no others, and
all of them were at the front of those that wait in their queue.  Afterwards no wake-up is left if
no task waits in an enabled queue that is not canceled, and otherwise the first wake-up begins when
the first of these tasks may run, in the agenda of the queues that may arm the timer as well as in
the other one.  A second sweep changes nothing. -/
theorem sweep_exact (settings : Settings) (start : Ticks) (rs : List Request) {k : Scheduler} :
    let s := ((new settings start).run rs).2
    let removed := (k.sweep s.now s.isCanceled).1
    let k' := (k.sweep s.now s.isCanceled).2
    let s' : Session := { s with scheduler := some k' }
    s.scheduler = some k →
      k.Sweeps s.now s.isCanceled (removed, k') ∧
        s.run (.sweep :: List.replicate removed.length .finish) =
          (removed.map Signal.discarding ++ [.answered .done], s') ∧
        (∀ t ∈ removed, s.isCanceled t = true) ∧
        (removed ++ k'.tickets).Perm k.tickets ∧
        k.DropsCanceled s.isCanceled k' ∧
        Announces k'.nextWakeUp (k'.AwaitsLive true s.isCanceled) ∧
        Announces k'.nonWakingAgenda.next? (k'.AwaitsLive false s.isCanceled) ∧
        s'.step .sweep = (.answered .done, s') := by
  intro s removed k' s' hk
  have r : Scheduler.Reachable settings k := reachable_run settings start rs hk
  have swept : k'.Swept s.isCanceled := r.scheduled.swept_sweep s.now s.isCanceled
  have scheduled : Scheduler.Scheduled k' := (r.perform (.sweep s.now s.isCanceled)).scheduled
  exact ⟨k.sweeps_sweep s.now s.isCanceled, run_sweep hk,
    fun t => Scheduler.isCanceled_of_mem_sweep, k.perm_tickets_sweep s.now s.isCanceled,
    r.dropsCanceled_sweep s.now s.isCanceled, swept.announces scheduled true,
    swept.announces scheduled false, step_sweep_of_swept (s := s') rfl swept⟩

/-- Two queues may arm the timer and one may not.  Of the canceled tasks the first ones are removed,
after which the timer is armed for a task of the second queue, where a canceled one waits on. -/
theorem sweep_exact_lazy :
    let s := ((new {} .zero).run [.create "first" true, .create "second" true,
      .create "quiet" false,
      .postDelayed ⟨1, 1⟩ (.ofMillis 10) .zero .noSooner,
      .postDelayed ⟨2, 1⟩ (.ofMillis 20) .zero .noSooner,
      .postDelayed ⟨2, 1⟩ (.ofMillis 30) .zero .noSooner,
      .postDelayed ⟨3, 1⟩ (.ofMillis 40) .zero .noSooner, .cancel ⟨0⟩, .cancel ⟨2⟩, .cancel ⟨3⟩]).2
    ∃ k k', s.scheduler = some k ∧ k.tickets = [⟨0⟩, ⟨1⟩, ⟨2⟩, ⟨3⟩] ∧ k'.tickets = [⟨1⟩, ⟨2⟩] ∧
      s.run [.sweep, .finish, .finish] =
        ([.discarding ⟨0⟩, .discarding ⟨3⟩, .answered .done], { s with scheduler := some k' }) ∧
      k'.nextWakeUp.map (·.earliest) = some (Ticks.ofMillis 20) ∧
      Announces k'.nextWakeUp (k'.AwaitsLive true s.isCanceled) ∧
      k'.nonWakingAgenda.next? = none := by
  intro s
  have state : s.scheduler.any fun k => k.tickets = [⟨0⟩, ⟨1⟩, ⟨2⟩, ⟨3⟩] ∧
      (k.sweep s.now s.isCanceled).1 = [⟨0⟩, ⟨3⟩] ∧
      (k.sweep s.now s.isCanceled).2.tickets = [⟨1⟩, ⟨2⟩] ∧
      (k.sweep s.now s.isCanceled).2.nextWakeUp.map (·.earliest) = some (Ticks.ofMillis 20) ∧
      (k.sweep s.now s.isCanceled).2.nonWakingAgenda.next? = none := by
    decide +kernel
  obtain ⟨k, hk, here⟩ := (Option.any_eq_true _ _).1 state
  obtain ⟨before, removed, after, timer, quiet⟩ := of_decide_eq_true here
  obtain ⟨-, run, -, -, -, announces, -⟩ := sweep_exact {} .zero _ hk
  rw [removed] at run
  exact ⟨k, _, hk, before, after, run, timer, announces, quiet⟩

end Dispatch.Session
