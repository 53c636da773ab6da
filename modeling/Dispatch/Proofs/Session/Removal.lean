import Dispatch.Proofs.Scheduler.Removal
import Dispatch.Proofs.Session.DeadlineOrder

/-!
# Removing a queue

From the moment at which a queue is removed, the scheduler of the session has forgotten it, for as
long as there is one, whatever is asked in the meantime (`removed_for_good`).  The tasks that were
pending in the queue do not start any more, and a request for the queue is refused and changes
nothing; if it hands in a task, that task is destroyed first.
-/

namespace Dispatch

/-- The queue that a request names. -/
def Request.queue? : Request → Option QueueId
  | .remove q | .setLevel q _ | .setEnabled q _ => some q
  | r => r.target?

namespace Session

variable {settings : Settings} {start : Ticks} {s : Session} {r : Request} {rs : List Request}
  {k k' : Scheduler} {q : QueueId} {t : Ticket} {ts : List Ticket}

/-! ### Requests for a queue that is gone -/

/-- A request that hands in no task is refused on the spot. -/
theorem step_of_gone (hk : s.scheduler = some k) (gone : k.queues.get? q = none)
    (names : r.queue? = some q) (target : r.target? = none) :
    s.step r = (.answered (.refused (.unknownQueue q)), s) := by
  have refuses := k.refuses gone
  have refused : ∀ {f : Scheduler → Except Fault (Reply × Scheduler)},
      f k = .error (.unknownQueue q) →
        s.update f = (.answered (.refused (.unknownQueue q)), s) := by
    intro f hf
    unfold Session.update
    rw [hk]
    dsimp only
    rw [hf]
  cases r with
  | remove j =>
      cases names
      show s.remove q = _
      unfold Session.remove
      rw [hk]
      dsimp only
      rw [refuses.remove]
  | setLevel j l =>
      cases names
      refine refused ?_
      rw [refuses.setLevel]
      rfl
  | setEnabled j on =>
      cases names
      refine refused ?_
      rw [refuses.setEnabled]
      rfl
  | post | postDelayed => cases target
  | _ => cases names

/-- A task that is handed in is destroyed, and nothing else happens before the answer. -/
theorem step_of_gone_target (hk : s.scheduler = some k) (gone : k.queues.get? q = none)
    (target : r.target? = some q) :
    s.step r = (.discarding ⟨s.issued⟩,
      { s with issued := s.issued + 1,
               calls :=
                .discarding ⟨s.issued⟩ [] (.answer (.refused (.unknownQueue q))) :: s.calls }) ∧
      (s.step r).2.step .finish =
        (.answered (.refused (.unknownQueue q)), { s with issued := s.issued + 1 }) := by
  have refuses := k.refuses gone
  have step : s.step r = (.discarding ⟨s.issued⟩,
      { s with issued := s.issued + 1,
               calls := .discarding ⟨s.issued⟩ [] (.answer (.refused (.unknownQueue q))) ::
                 s.calls }) := by
    cases r with
    | post j =>
        cases target
        show s.post q = _
        unfold Session.post accept
        dsimp only
        rw [hk]
        dsimp only
        rw [refuses.post]
        rfl
    | postDelayed j delay leeway policy =>
        cases target
        show s.postDelayed q delay leeway policy = _
        unfold Session.postDelayed accept
        dsimp only
        rw [hk]
        dsimp only
        rw [refuses.postDelayed]
        rfl
    | _ => cases target
  refine ⟨step, ?_⟩
  rw [step]
  rfl

/-! ### The step that removes a queue -/

theorem step_remove_of_ok (hk : s.scheduler = some k) (removed : k.remove q s.now = .ok (ts, k')) :
    s.step (.remove q) =
      ({ s with scheduler := some k' } : Session).discard ts (.answer .done) := by
  show s.remove q = _
  unfold Session.remove
  rw [hk]
  dsimp only
  rw [removed]

theorem scheduler_step_remove (hk : s.scheduler = some k)
    (removed : k.remove q s.now = .ok (ts, k')) :
    (s.step (.remove q)).2.scheduler = some k' := by
  rw [step_remove_of_ok hk removed]
  cases ts <;> rfl

theorem launching_step_remove (hk : s.scheduler = some k)
    (removed : k.remove q s.now = .ok (ts, k')) :
    (s.step (.remove q)).2.launching = s.launching := by
  rw [step_remove_of_ok hk removed]
  cases ts <;> rfl

/-- The tasks of a queue that is removed do not start any more. -/
theorem gone_of_remove (hk : ((new settings start).run rs).2.scheduler = some k)
    (removed : k.remove q ((new settings start).run rs).2.now = .ok (ts, k')) (ht : t ∈ ts) :
    (((new settings start).run rs).2.step (.remove q)).2.Gone t := by
  have perm := Scheduler.perm_tickets_remove removed
  have mem : t ∈ ((new settings start).run rs).2.pending := by
    rw [pending_of_scheduler hk]
    exact perm.subset (List.mem_append_left _ ht)
  have past := lt_issued_of_held (Or.inl mem)
  have once := count_held_run settings start rs past
  dsimp only at once
  have pos := List.count_pos_iff.2 mem
  refine ⟨?_, ?_, ?_⟩
  · rw [pending_of_scheduler (scheduler_step_remove hk removed)]
    have split := perm.count_eq t
    rw [List.count_append, ← pending_of_scheduler hk] at split
    have among := List.count_pos_iff.2 ht
    exact List.count_eq_zero.1 (by omega)
  · rw [launching_step_remove hk removed]
    intro launched
    have taken := List.count_pos_iff.2 ((launching_sublist _).subset launched)
    omega
  · rw [issued_step]
    exact Nat.lt_of_lt_of_le past (Nat.le_add_right _ _)

theorem started_not_mem_of_remove (hk : ((new settings start).run rs).2.scheduler = some k)
    (removed : k.remove q ((new settings start).run rs).2.now = .ok (ts, k')) (ht : t ∈ ts)
    (rs' : List Request) :
    .started t ∉ (((new settings start).run rs).2.run (.remove q :: rs')).1 := by
  have w := ((sane_new settings start).run rs).step (.remove q)
  rw [run_cons, List.mem_cons, not_or]
  refine ⟨?_, (gone_of_remove hk removed ht).started_not_mem w rs'⟩
  rw [step_remove_of_ok hk removed]
  cases ts <;> nofun

theorem step_create (hk : s.scheduler = some k) (name : String) (waking : Bool) :
    s.step (.create name waking) = (.answered (.created (k.create name waking).1),
      { s with scheduler := some (k.create name waking).2 }) := by
  unfold Session.step Session.update
  rw [hk]

/-- The id of a queue stays spent. -/
theorem spent_of_run (w : s.Sane settings) (h : ∀ k, s.scheduler = some k → k.queues.Spent q)
    (rs : List Request) : ∀ k, (s.run rs).2.scheduler = some k → k.queues.Spent q := by
  refine (run_induct
    (P := fun s => s.Sane settings ∧ ∀ k, s.scheduler = some k → k.queues.Spent q)
    (fun s r ⟨w, h⟩ => ⟨w.step r, fun k' hk' => ?_⟩) ⟨w, h⟩ rs).2
  obtain ⟨k, ops, hk, rfl, -⟩ := exists_ops_step hk'
  exact (w k hk).spent_run (h k hk) ops

/-- A queue that has been removed is gone for good.  None of the tasks that were pending in it
starts.  In every later state, no part of the scheduler knows of the queue, also when its slot is in
use again, and everything that is asked of it is refused: a request that hands in no task leaves the
session as it is, and one that hands in a task has that task destroyed before it answers and
leaves the scheduler as it is.  A queue that is made later gets another id, and is enabled, at the
standard level, empty and without a wake-up. -/
theorem removed_for_good (settings : Settings) (start : Ticks) (rs rs' : List Request)
    (hk : ((new settings start).run rs).2.scheduler = some k)
    (removed : k.remove q ((new settings start).run rs).2.now = .ok (ts, k')) :
    let signals := (((new settings start).run rs).2.run (.remove q :: rs')).1
    let s := (((new settings start).run rs).2.run (.remove q :: rs')).2
    ts = k.ticketsIn q ∧ (∀ t ∈ ts, .started t ∉ signals) ∧
      ∀ k, s.scheduler = some k → k.Forgotten q ∧ k.Refuses q ∧
        (∀ r, r.queue? = some q → r.target? = none →
          s.step r = (.answered (.refused (.unknownQueue q)), s)) ∧
        (∀ r, r.target? = some q →
          s.step r = (.discarding ⟨s.issued⟩,
            { s with issued := s.issued + 1,
                     calls := .discarding ⟨s.issued⟩ []
                       (.answer (.refused (.unknownQueue q))) :: s.calls }) ∧
          (s.step r).2.step .finish =
            (.answered (.refused (.unknownQueue q)), { s with issued := s.issued + 1 })) ∧
        ∀ name waking, ∃ j k', s.step (.create name waking) =
          (.answered (.created j), { s with scheduler := some k' }) ∧ j ≠ q ∧ k'.Fresh j := by
  intro signals s
  refine ⟨?_, fun t ht => started_not_mem_of_remove hk removed ht rs', fun k₁ hk₁ => ?_⟩
  · obtain ⟨tq, hq, e⟩ := Scheduler.ok_of_queue removed
    obtain ⟨rfl, -⟩ := Prod.mk.inj e
    unfold Scheduler.ticketsIn
    rw [hq]
    rfl
  · have r : Scheduler.Reachable settings k₁ :=
      ((sane_new settings start).run rs).run (.remove q :: rs') k₁ hk₁
    have spent : k₁.queues.Spent q := by
      have now : ∀ k, (((new settings start).run rs).2.step (.remove q)).2.scheduler = some k →
          k.queues.Spent q := by
        rw [scheduler_step_remove hk removed]
        rintro k ⟨rfl⟩
        exact Scheduler.spent_of_remove removed
      exact spent_of_run (((sane_new settings start).run rs).step _) now rs' k₁ hk₁
    have gone := spent.get?_eq_none
    refine ⟨r.forgotten spent, k₁.refuses gone, fun r names target => ?_, fun r target => ?_,
      fun name waking => ?_⟩
    · exact step_of_gone hk₁ gone names target
    · exact step_of_gone_target hk₁ gone target
    · exact ⟨_, _, step_create hk₁ name waking, Scheduler.create_ne spent name waking,
        r.fresh name waking⟩

/-- A queue is disabled and removed while it holds tasks, and the slot is given to another one. -/
theorem removed_for_good_reused :
    let rs : List Request := [.create "main" true, .post ⟨1, 1⟩,
      .postDelayed ⟨1, 1⟩ (.ofMillis 10) .zero .precise, .setLevel ⟨1, 1⟩ .low,
      .setEnabled ⟨1, 1⟩ false]
    let rs' : List Request := [.finish, .finish, .create "main" true]
    let s := (((new {} .zero).run rs).2.run (.remove ⟨1, 1⟩ :: rs')).2
    ∃ k, s.scheduler = some k ∧ k.queueByName? "main" = some ⟨1, 3⟩ ∧ k.Forgotten ⟨1, 1⟩ ∧
      s.step (.setLevel ⟨1, 1⟩ .high) = (.answered (.refused (.unknownQueue ⟨1, 1⟩)), s) := by
  intro rs rs' s
  have before : ((new {} .zero).run rs).2.scheduler.any fun k =>
      (k.remove ⟨1, 1⟩ ((new {} .zero).run rs).2.now).isOk := by decide +kernel
  have after : s.scheduler.any fun k => k.queueByName? "main" = some ⟨1, 3⟩ := by decide +kernel
  obtain ⟨k, hk, ok⟩ := (Option.any_eq_true _ _).1 before
  obtain ⟨k₁, hk₁, named⟩ := (Option.any_eq_true _ _).1 after
  cases removed : k.remove ⟨1, 1⟩ ((new {} .zero).run rs).2.now with
  | error e =>
      rw [removed] at ok
      cases ok
  | ok out =>
      obtain ⟨forgotten, -, refused, -⟩ :=
        (removed_for_good {} .zero rs rs' hk removed).2.2 k₁ hk₁
      exact ⟨k₁, hk₁, of_decide_eq_true named, forgotten, refused _ rfl rfl⟩

end Session

end Dispatch
