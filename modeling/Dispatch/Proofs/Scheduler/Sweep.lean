import Dispatch.Proofs.Scheduler.Conservation
import Dispatch.Proofs.Wake.Trim

/-!
# Sweeping

A sweep is two loops, one for each agenda, and every round of theirs but the last removes a task, so
both end (`sweeps_sweep`).  Only the queue on top of an agenda is ever trimmed.  But when the loops
have ended, the first waiting task of the queue on top is not canceled (`Scheduled.swept_sweep`),
and so the first wake-up of an agenda is that of the first task that waits and is not canceled
(`Swept.announces`), wherever canceled ones still wait.  A further sweep changes nothing
(`Swept.sweep_eq`).
-/

namespace Dispatch

/-- The wake-up begins when the first of the tasks may run.  If there is no task, there is none. -/
structure Announces (next : Option WakeUp) (tasks : WaitingTask → Prop) : Prop where
  none_iff : next = none ↔ ∀ t, ¬ tasks t
  least : ∀ w, next = some w →
    (∃ t, tasks t ∧ t.earliest = w.earliest) ∧ ∀ t, tasks t → w.earliest ≤ t.earliest

namespace Scheduler

variable {k : Scheduler} {s : Stores} {q : QueueId} {tq : Queue} {now : Ticks}
  {isCanceled : Ticket → Bool}

open Agenda (Pass)

/-! ### Trimming a queue -/

theorem Stores.fst_trim (s : Stores) (isCanceled : Ticket → Bool) (q : QueueId) :
    (s.trim isCanceled q).1 = (s.queues.get? q).any fun tq => !(tq.trim isCanceled).1.isEmpty := by
  unfold Stores.trim
  cases s.queues.get? q <;> rfl

/-- What is removed from a queue depends on nothing else. -/
theorem Stores.fst_trim_congr {s' : Stores} (h : s'.queues.get? q = s.queues.get? q) :
    (s'.trim isCanceled q).1 = (s.trim isCanceled q).1 := by
  rw [fst_trim, h, fst_trim]

theorem Stores.trim_of_nothing (h : (s.trim isCanceled q).1 = false) :
    (s.trim isCanceled q).2 = s := by
  unfold Stores.trim at h ⊢
  cases hq : s.queues.get? q with
  | none => rfl
  | some tq =>
      rw [hq] at h
      dsimp only at h ⊢
      rw [Bool.not_eq_false', List.isEmpty_iff] at h
      rw [h, trim_of_nil h, Arena.set_self hq, List.append_nil]

theorem Stores.length_trim_lt (h : (s.trim isCanceled q).1 = true) :
    (ticketsOf (s.trim isCanceled q).2.queues).length < (ticketsOf s.queues).length := by
  have all := (s.perm_tickets_trim isCanceled q).length_eq
  unfold Stores.tickets at all
  rw [List.length_append, List.length_append] at all
  have removed : s.canceled.length < (s.trim isCanceled q).2.canceled.length := by
    unfold Stores.trim at h ⊢
    cases hq : s.queues.get? q with
    | none =>
        rw [hq] at h
        cases h
    | some tq =>
        rw [hq] at h
        dsimp only at h ⊢
        rw [Bool.not_eq_true', List.isEmpty_eq_false_iff] at h
        rw [List.length_append]
        exact Nat.lt_add_of_pos_right (List.length_pos_of_ne_nil h)
  omega

/-! ### The loops -/

/-- The outcome of a sweep, whose loops have no bound on their rounds. -/
def Sweeps (k : Scheduler) (now : Ticks) (isCanceled : Ticket → Bool)
    (out : List Ticket × Scheduler) : Prop :=
  ∃ p p' : Pass Stores,
    Pass.Trims (owner isCanceled) now { agenda := k.wakingAgenda, owner := k.stores } p ∧
      Pass.Trims (owner isCanceled) now { agenda := k.nonWakingAgenda, owner := p.owner } p' ∧
      out = (p'.owner.canceled, k.afterPasses p p')

theorem trims_pass {a : Agenda} {rounds : Nat} (enough : (ticketsOf s.queues).length < rounds) :
    Pass.Trims (owner isCanceled) now { agenda := a, owner := s }
      (a.trim (owner isCanceled) now rounds s) :=
  Pass.trims_trim (fun s => (ticketsOf s.queues).length) (fun _ _ => Stores.length_trim_lt) rounds _
    enough

theorem length_pass_le (s : Stores) (now : Ticks) (isCanceled : Ticket → Bool) (a : Agenda)
    (rounds : Nat) :
    (ticketsOf (a.trim (owner isCanceled) now rounds s).owner.queues).length ≤
      (ticketsOf s.queues).length := by
  refine Agenda.owner_trim (o := owner isCanceled)
    (I := fun s' => (ticketsOf s'.queues).length ≤ (ticketsOf s.queues).length) (fun q s' h => ?_)
    (fun _ _ h => h) rounds (Nat.le_refl _)
  show (ticketsOf (s'.trim isCanceled q).2.queues).length ≤ _
  cases removed : (s'.trim isCanceled q).1 with
  | true => exact Nat.le_trans (Nat.le_of_lt (Stores.length_trim_lt removed)) h
  | false =>
      rw [Stores.trim_of_nothing removed]
      exact h

/-- The rounds of a sweep are enough for its loops. -/
theorem sweeps_sweep (k : Scheduler) (now : Ticks) (isCanceled : Ticket → Bool) :
    k.Sweeps now isCanceled (k.sweep now isCanceled) :=
  ⟨_, _, trims_pass (Nat.lt_succ_self _),
    trims_pass (Nat.lt_succ_of_le (length_pass_le k.stores now isCanceled _ _)), rfl⟩

/-! ### What a sweep removes -/

/-- In each queue some tasks at the front of those that wait are gone, which were canceled.  Nothing
else has become of the queues. -/
def DropsCanceled (k : Scheduler) (isCanceled : Ticket → Bool) (k' : Scheduler) : Prop :=
  ∀ q, ∃ n, k'.queues.get? q = (k.queues.get? q).map (·.dropWaiting n) ∧
    ∀ tq, k.queues.get? q = some tq → ∀ t ∈ tq.waiting.take n, isCanceled t.ticket = true

theorem Reachable.dropsCanceled_sweep {settings : Settings} (r : Reachable settings k) (now : Ticks)
    (isCanceled : Ticket → Bool) : k.DropsCanceled isCanceled (k.sweep now isCanceled).2 := by
  intro q
  cases hq : k.queues.get? q with
  | none =>
      refine ⟨0, Option.eq_none_iff_forall_ne_some.2 fun tq' hq' => ?_, nofun⟩
      obtain ⟨tq, htq, -⟩ := treated_sweep k now isCanceled q tq' hq'
      rw [hq] at htq
      cases htq
  | some tq =>
      obtain ⟨tq', hq', e⟩ : ∃ tq',
          (k.perform (.sweep now isCanceled)).queues.get? q = some tq' ∧
            Treats k (k.perform (.sweep now isCanceled)) q (.sweep now isCanceled) tq tq' :=
        r.treats_get? hq nofun
      cases e with
      | leave => exact ⟨0, hq'.trans (congrArg some tq.dropWaiting_zero.symm), by simp⟩
      | sweep _ _ canceled =>
          refine ⟨_, hq', fun tq' h => ?_⟩
          cases h
          exact canceled

/-! ### After a sweep -/

/-- The queue on top of either agenda has nothing to be removed. -/
def Swept (k : Scheduler) (isCanceled : Ticket → Bool) : Prop :=
  ∀ b q, (k.agenda b).first? = some q → (k.stores.trim isCanceled q).1 = false

theorem cleared_pass {a : Agenda} {rounds : Nat} (enough : (ticketsOf s.queues).length < rounds) :
    (a.trim (owner isCanceled) now rounds s).Cleared (owner isCanceled) now :=
  (trims_pass enough).cleared fun _ _ => Stores.trim_of_nothing

theorem Scheduled.swept_sweep (w : Scheduled k) (now : Ticks) (isCanceled : Ticket → Bool) :
    (k.sweep now isCanceled).2.Swept isCanceled := by
  have first := (tends_start (s := k.stores) w.sorted w.waking).trim now isCanceled
    (k.tickets.length + 1)
  have second := tends_start first.sorted (w.nonWaking.congr first.other)
  have enough := Nat.lt_succ_self k.tickets.length
  have queues (p p' : Pass Stores) : (k.afterPasses p p').stores.queues = p'.owner.queues :=
    queues_afterPasses k p p'
  intro b q top
  unfold Scheduler.sweep at top ⊢
  dsimp only at top ⊢
  rw [agenda_afterPasses] at top
  cases b with
  | false =>
      have rest := length_pass_le k.stores now isCanceled k.wakingAgenda (k.tickets.length + 1)
      refine (Stores.fst_trim_congr ?_).trans (cleared_pass (Nat.lt_of_le_of_lt rest enough) q top)
      rw [queues]
  | true =>
      -- the second pass leaves the queue that the first one has found on top
      obtain ⟨v, entry⟩ := first.own.wf.get?_of_first? top
      obtain ⟨tq, hq, kind⟩ := first.own.exists_queue entry
      have kept := second.get?_trim hq (fun h => absurd (kind.symm.trans h) nofun) now isCanceled
        (k.tickets.length + 1)
      refine (Stores.fst_trim_congr ?_).trans (cleared_pass (s := k.stores) enough q top)
      rw [queues, kept, hq]

/-- When there is nothing to sweep, a sweep changes nothing. -/
theorem Swept.sweep_eq (c : k.Swept isCanceled) (now : Ticks) :
    k.sweep now isCanceled = ([], k) := by
  have pass (b : Bool) (rounds : Nat) :
      (k.agenda b).trim (owner isCanceled) now rounds k.stores =
        { agenda := k.agenda b, owner := k.stores } :=
    Pass.trim_cleared (o := owner isCanceled)
      (p := { agenda := k.agenda b, owner := k.stores })
      (fun _ _ => Stores.trim_of_nothing) (c b) rounds
  unfold Scheduler.sweep
  dsimp only
  rw [show k.wakingAgenda = k.agenda true from rfl, pass,
    show k.nonWakingAgenda = k.agenda false from rfl, pass]
  rfl

/-- A task that is not canceled waits in an enabled queue of the kind. -/
def AwaitsLive (k : Scheduler) (waking : Bool) (isCanceled : Ticket → Bool) (t : WaitingTask) :
    Prop :=
  ∃ q tq, k.queues.get? q = some tq ∧ tq.waking = waking ∧ tq.enabled = true ∧ t ∈ tq.waiting ∧
    isCanceled t.ticket = false

/-- No agenda begins later than any task that waits in a queue of its kind. -/
theorem Scheduled.exists_next_le (w : Scheduled k) {b : Bool} {t : WaitingTask}
    (ht : k.AwaitsLive b isCanceled t) :
    ∃ v, (k.agenda b).next? = some v ∧ v.earliest ≤ t.earliest := by
  have holds := w.holds b
  obtain ⟨q, tq, hq, kind, enabled, ht, -⟩ := ht
  obtain ⟨u, hu⟩ : ∃ u, tq.nextWakeUp = some u := by
    refine Option.ne_none_iff_exists'.1 fun none_wanted => ?_
    rw [Queue.nextWakeUp_eq_none_iff.1 none_wanted enabled] at ht
    cases ht
  have entry : (k.agenda b).get? q = some u := by
    rw [holds.entries, wanted_of_get? hq, if_pos kind, hu]
  obtain ⟨v, hv⟩ : ∃ v, (k.agenda b).next? = some v := by
    refine Option.ne_none_iff_exists'.1 fun none_left => ?_
    rw [holds.wf.next?_eq_none_iff.1 none_left q] at entry
    cases entry
  have le := WakeUp.earliest_le ((holds.wf.next?_eq_some hv).2 q u entry)
  exact ⟨v, hv, Nat.le_trans le (((w.sorted q tq hq).earliest_nextWakeUp hu).2 t ht)⟩

/-- The first wake-up is for the first waiting task of the queue on top, which is not canceled. -/
theorem Swept.exists_awaitsLive (c : k.Swept isCanceled) (w : Scheduled k) {b : Bool} {v : WakeUp}
    (hv : (k.agenda b).next? = some v) :
    ∃ t, k.AwaitsLive b isCanceled t ∧ t.earliest = v.earliest := by
  have holds := w.holds b
  obtain ⟨⟨q, v⟩, he, rfl⟩ := Option.map_eq_some_iff.1 hv
  have entry := holds.wf.get?_of_min? he
  obtain ⟨tq, hq, kind⟩ := holds.exists_queue entry
  rw [holds.entries, wanted_of_get? hq, if_pos kind] at entry
  obtain ⟨enabled, t, head, e⟩ := Queue.head?_of_nextWakeUp entry
  refine ⟨t, ⟨q, tq, hq, kind, enabled, List.mem_of_head? head, ?_⟩, e⟩
  have nothing := c b q (congrArg (Option.map Prod.fst) he)
  rw [Stores.fst_trim, show k.stores.queues.get? q = some tq from hq, Option.any_some,
    Bool.not_eq_false', List.isEmpty_iff] at nothing
  obtain ⟨us, e⟩ := List.head?_eq_some_iff.1 head
  unfold Queue.trim at nothing
  rw [e, List.map_eq_nil_iff, List.takeWhile_cons] at nothing
  split_ifs at nothing with canceled
  exact Bool.eq_false_iff.2 canceled

/-- The first wake-up is that of the first task that waits and is not canceled. -/
theorem Swept.announces (c : k.Swept isCanceled) (w : Scheduled k) (b : Bool) :
    Announces (k.agenda b).next? (k.AwaitsLive b isCanceled) := by
  refine ⟨⟨fun none_left t ht => ?_, fun none_waits => ?_⟩,
    fun v hv => ⟨c.exists_awaitsLive w hv, fun t ht => ?_⟩⟩
  · obtain ⟨v, hv, -⟩ := w.exists_next_le ht
    rw [none_left] at hv
    cases hv
  · refine Option.eq_none_iff_forall_ne_some.2 fun v hv => ?_
    obtain ⟨t, ht, -⟩ := c.exists_awaitsLive w hv
    exact none_waits t ht
  · obtain ⟨u, hu, le⟩ := w.exists_next_le ht
    obtain rfl : u = v := Option.some.inj (hu.symm.trans hv)
    exact le

end Scheduler

end Dispatch
