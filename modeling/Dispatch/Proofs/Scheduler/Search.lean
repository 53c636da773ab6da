import Dispatch.Proofs.Scheduler.Conservation
import Dispatch.Proofs.Scheduler.Runnable

/-!
# Searching for a task

To find a task to run, a scheduler promotes what is due and takes a task, in rounds, until the task
that is taken is not canceled or nothing is removed any more (`Searches`).  Every round but the last
removes a task, so a search ends (`Reachable.exists_searches`).  It removes nothing but tasks that
were ready or due in enabled queues (`Searches.removes`), of which all but the one that it finds are
canceled (`Searches.isCanceled_of_mem`).  If it finds none, there was none to run, and no task is
ready any more (`Searches.rests`).
-/

namespace Dispatch.Scheduler

variable {settings : Settings} {k k' : Scheduler} {now : Ticks} {isCanceled : Ticket → Bool}
  {t : Ticket} {ts us cs : List Ticket} {taken found : Option Ticket} {q : QueueId}

/-! ### Removing ripe tasks -/

/-- What a promotion removes waits in an enabled queue and is due. -/
theorem Scheduled.ripe_of_mem_promote (w : Scheduled k) (ht : t ∈ (k.promote now isCanceled).1) :
    k.Ripe now t := by
  by_cases due : k.hasDueWakeUp now = true
  · obtain ⟨ds, ds', p, p', -, -, -, -, promote_eq, owner_eq, nodup, mem_iff⟩ :=
      w.exists_promotes due isCanceled
    rw [promote_eq, owner_eq, Stores.canceled_wakeAll (s := k.stores) w.sorted nodup] at ht
    obtain ⟨q, hq, ht⟩ := List.mem_flatMap.1 ht
    obtain ⟨tq, get, enabled, -⟩ := (mem_iff q).1 hq
    unfold Stores.dueCanceled at ht
    rw [show k.stores.queues.get? q = some tq from get] at ht
    obtain ⟨u, hu, rfl⟩ := List.mem_map.1 ht
    obtain ⟨hu, due⟩ := List.mem_filter.1 hu
    exact ⟨q, tq, get, enabled, Or.inr ⟨u, hu, (Bool.and_eq_true_iff.1 due).1, rfl⟩⟩
  · rw [show k.promote now isCanceled = ([], k) from if_neg due] at ht
    cases ht

/-- The tasks are removed, which were ripe.  Every other task stays in its queue, and none becomes
ripe. -/
structure Removes (now : Ticks) (k : Scheduler) (ts : List Ticket) (k' : Scheduler) : Prop where
  perm : (ts ++ k'.tickets).Perm k.tickets
  stay : ∀ q, k'.ticketsIn q ⊆ k.ticketsIn q
  ripe : ∀ t ∈ ts, k.Ripe now t
  ripe_of_ripe : ∀ t, k'.Ripe now t → k.Ripe now t

theorem Removes.trans {k₁ : Scheduler} (first : Removes now k ts k₁)
    (second : Removes now k₁ us k') : Removes now k (ts ++ us) k' where
  perm := by
    rw [List.append_assoc]
    exact (second.perm.append_left ts).trans first.perm
  stay q := List.Subset.trans (second.stay q) (first.stay q)
  ripe t ht := (List.mem_append.1 ht).elim (first.ripe t) fun ht =>
    first.ripe_of_ripe t (second.ripe t ht)
  ripe_of_ripe t ripe := first.ripe_of_ripe t (second.ripe_of_ripe t ripe)

/-- An operation that posts nothing brings no task into a queue. -/
theorem Reachable.ticketsIn_subset (r : Reachable settings k) (op : Operation)
    (posts : ∀ t, ¬ op.Posts q t) : (k.run [op]).ticketsIn q ⊆ k.ticketsIn q := by
  intro t ht
  refine (r.mem_ticketsIn_run ht).resolve_right ?_
  rintro ⟨op', h, posted⟩
  rw [List.mem_singleton.1 h] at posted
  exact posts t posted

theorem Reachable.removes_promote (r : Reachable settings k) (now : Ticks)
    (isCanceled : Ticket → Bool) :
    Removes now k (k.promote now isCanceled).1 (k.promote now isCanceled).2 where
  perm := k.perm_tickets_promote now isCanceled
  stay q := by
    refine r.ticketsIn_subset (.promote now isCanceled) fun t => ?_
    rintro (e | ⟨_, _, _, _, e⟩) <;> cases e
  ripe t := r.scheduled.ripe_of_mem_promote
  ripe_of_ripe t := by
    rintro ⟨q, tq', hq, enabled, ripe⟩
    rw [r.scheduled.get?_promote] at hq
    obtain ⟨tq, htq, rfl⟩ := Option.map_eq_some_iff.1 hq
    split_ifs at enabled ripe with h
    · exact ⟨q, tq, htq, h, ripe.of_promoted⟩
    · exact absurd enabled h

theorem Reachable.removes_take (r : Reachable settings k) (now : Ticks)
    (isCanceled : Ticket → Bool) :
    Removes now k (k.take isCanceled).1.toList (k.take isCanceled).2 where
  perm := r.mirrored.perm_tickets_take isCanceled
  stay q := by
    refine r.ticketsIn_subset (.take isCanceled) fun t => ?_
    rintro (e | ⟨_, _, _, _, e⟩) <;> cases e
  ripe t ht := by
    obtain ⟨q, tq, h, u, rest, e, taken⟩ := r.mirrored.exists_takes (Option.mem_toList.1 ht)
    exact ⟨q, tq, e.queue, e.enabled, (Queue.ripe_iff_withReady e.front).2 (Or.inl taken)⟩
  ripe_of_ripe t := by
    rcases r.mirrored.takes isCanceled with ⟨-, e⟩ | ⟨q, tq, h, u, rest, e⟩
    · rw [e]
      exact id
    · rintro ⟨j, tq', hj, enabled, ripe⟩
      rw [e.get?_take] at hj
      split_ifs at hj
      · cases hj
        exact ⟨q, tq, e.queue, e.enabled, (Queue.ripe_iff_withReady e.front).2 (Or.inr ripe)⟩
      · exact ⟨j, tq', hj, enabled, ripe⟩

/-! ### Rounds -/

/-- What is due is promoted, which removes canceled tasks, and then a task may be taken. -/
structure Round (now : Ticks) (isCanceled : Ticket → Bool) (k : Scheduler) (cs : List Ticket)
    (taken : Option Ticket) (k' : Scheduler) : Prop where
  canceled : (k.promote now isCanceled).1 = cs
  taken : ((k.promote now isCanceled).2.take isCanceled).1 = taken
  left : ((k.promote now isCanceled).2.take isCanceled).2 = k'

theorem Round.isCanceled_of_mem (e : Round now isCanceled k cs taken k') (ht : t ∈ cs) :
    isCanceled t = true := by
  rw [← e.canceled] at ht
  exact isCanceled_of_mem_promote ht

theorem Round.reachable (e : Round now isCanceled k cs taken k') (r : Reachable settings k) :
    Reachable settings k' := by
  rw [← e.left]
  exact (r.promote now isCanceled).take isCanceled

theorem Round.removes (e : Round now isCanceled k cs taken k') (r : Reachable settings k) :
    Removes now k (cs ++ taken.toList) k' := by
  rw [← e.canceled, ← e.taken, ← e.left]
  exact (r.removes_promote now isCanceled).trans
    ((r.promote now isCanceled).removes_take now isCanceled)

/-- If nothing is taken, there was nothing to run. -/
theorem Round.rests (e : Round now isCanceled k cs none k') (r : Reachable settings k) :
    ¬ k.Runnable now isCanceled ∧ k'.Resting ∧ ∀ q, ¬ k'.Due now q := by
  have m := (r.promote now isCanceled).mirrored
  have none_due : ∀ q, ¬ (k.promote now isCanceled).2.Due now q := r.scheduled.not_due_promote
  have nothing := m.not_runnable_of_take none_due e.taken
  rw [← e.left]
  refine ⟨mt r.scheduled.runnable_promote.2 nothing, m.resting_take e.taken, ?_⟩
  rwa [m.take_eq_of_none e.taken]

/-- If what is taken is canceled, too, a round does not change whether there is a task to run. -/
theorem Round.runnable_iff (e : Round now isCanceled k cs taken k') (r : Reachable settings k)
    (canceled : ∀ t ∈ taken, isCanceled t = true) :
    k'.Runnable now isCanceled ↔ k.Runnable now isCanceled := by
  have m := (r.promote now isCanceled).mirrored
  rw [← e.left, ← r.scheduled.runnable_promote]
  cases taken with
  | none => rw [m.take_eq_of_none e.taken]
  | some t => exact m.runnable_take_iff e.taken (canceled t rfl)

/-! ### Searches -/

/-- Rounds follow one another until a task is found that is not canceled, or until a round removes
nothing.  The tasks that are removed on the way are canceled. -/
inductive Searches (now : Ticks) (isCanceled : Ticket → Bool) :
    Scheduler → List Ticket → Option Ticket → Scheduler → Prop
  | found {k k' : Scheduler} {cs : List Ticket} {t : Ticket}
      (round : Round now isCanceled k cs (some t) k') (live : isCanceled t = false) :
      Searches now isCanceled k cs (some t) k'
  | nothing {k k' : Scheduler} (round : Round now isCanceled k [] none k') :
      Searches now isCanceled k [] none k'
  | again {k k₁ k' : Scheduler} {cs ts : List Ticket} {taken found : Option Ticket}
      (round : Round now isCanceled k cs taken k₁) (removed : cs ++ taken.toList ≠ [])
      (canceled : ∀ t ∈ taken, isCanceled t = true)
      (rest : Searches now isCanceled k₁ ts found k') :
      Searches now isCanceled k (cs ++ taken.toList ++ ts) found k'

/-- A search ends, because every further round has fewer tasks before it. -/
theorem Reachable.exists_searches (r : Reachable settings k) (now : Ticks)
    (isCanceled : Ticket → Bool) : ∃ ts found k', Searches now isCanceled k ts found k' := by
  induction hn : k.tickets.length using Nat.strong_induction_on generalizing k with
  | _ n ih =>
  obtain ⟨cs, taken, k₁, e⟩ : ∃ cs taken k₁, Round now isCanceled k cs taken k₁ :=
    ⟨_, _, _, rfl, rfl, rfl⟩
  have again (removed : cs ++ taken.toList ≠ []) (canceled : ∀ t ∈ taken, isCanceled t = true) :
      ∃ ts found k', Searches now isCanceled k ts found k' := by
    have fewer := (e.removes r).perm.length_eq
    have pos := List.length_pos_of_ne_nil removed
    rw [List.length_append, hn] at fewer
    obtain ⟨ts, found, k', rest⟩ := ih k₁.tickets.length (by omega) (e.reachable r) rfl
    exact ⟨_, found, k', .again e removed canceled rest⟩
  cases taken with
  | none =>
      cases cs with
      | nil => exact ⟨[], none, k₁, .nothing e⟩
      | cons c cs => exact again nofun nofun
  | some t =>
      cases live : isCanceled t with
      | false => exact ⟨cs, some t, k₁, .found e live⟩
      | true =>
          refine again (by simp) fun u hu => ?_
          rwa [← Option.some.inj hu]

theorem Searches.removes (h : Searches now isCanceled k ts found k') (r : Reachable settings k) :
    Removes now k (ts ++ found.toList) k' := by
  induction h with
  | found round | nothing round => exact round.removes r
  | again round _ _ _ ih =>
      rw [List.append_assoc]
      exact (round.removes r).trans (ih (round.reachable r))

theorem Searches.isCanceled_of_mem (h : Searches now isCanceled k ts found k') (ht : t ∈ ts) :
    isCanceled t = true := by
  induction h with
  | found round => exact round.isCanceled_of_mem ht
  | nothing => cases ht
  | again round _ canceled _ ih =>
      rcases List.mem_append.1 ht with ht | ht
      · rcases List.mem_append.1 ht with ht | ht
        · exact round.isCanceled_of_mem ht
        · exact canceled t (Option.mem_toList.1 ht)
      · exact ih ht

theorem Searches.live (h : Searches now isCanceled k ts found k') (ht : t ∈ found) :
    isCanceled t = false := by
  induction h with
  | found _ live => rwa [← Option.some.inj ht]
  | nothing => cases ht
  | again _ _ _ _ ih => exact ih ht

/-- If no task is found, there was none to run, and none is left that is ready or due. -/
theorem Searches.rests (h : Searches now isCanceled k ts none k') (r : Reachable settings k) :
    ¬ k.Runnable now isCanceled ∧ k'.Resting ∧ ∀ q, ¬ k'.Due now q := by
  generalize hf : (none : Option Ticket) = found at h
  induction h with
  | found => cases hf
  | nothing round => exact round.rests r
  | again round _ canceled _ ih =>
      have rests := ih (round.reachable r) hf
      rwa [round.runnable_iff r canceled] at rests

/-- A task is found exactly if there is one to run. -/
theorem Searches.isSome_iff (h : Searches now isCanceled k ts found k') (r : Reachable settings k) :
    found.isSome = true ↔ k.Runnable now isCanceled := by
  cases found with
  | none => exact iff_of_false nofun (h.rests r).1
  | some t =>
      refine iff_of_true rfl (Scheduler.runnable_iff.2 ⟨t, ?_, h.live rfl⟩)
      exact (h.removes r).ripe t (List.mem_append_right _ List.mem_cons_self)

end Dispatch.Scheduler
