import Dispatch.Proofs.Queue.Arena
import Dispatch.Proofs.Scheduler.Readiness

/-!
# The tasks that are ready at a level

The tasks that are ready at a level are those of its enabled queues (`readyAt`).  New ones are
younger than all tasks that have been ready before, so the number of those that are older than a
given task only falls, unless a queue that holds older ones is enabled or moved to the level
(`Reachable.older_perform_le`), and it does fall when one of them is taken (`Takes.older_lt`).  An
immediate task stays at its level until it is taken itself, unless its queue is removed, disabled or
moved (`Reachable.readyAt_perform`).
-/

namespace Dispatch

namespace Queue

variable {tq : Queue} {p : Level} {x : Stamp} {h : Half} {t : ReadyTask} {rest : List ReadyTask}

/-- The tasks that the queue has ready at the level. -/
def readyAt (tq : Queue) (p : Level) : List ReadyTask :=
  if tq.enabled = true ∧ tq.level = p then tq.immediate ++ tq.delayed else []

/-- How many of the tasks that the queue has ready at the level are older than `x`. -/
def older (tq : Queue) (p : Level) (x : Stamp) : Nat := (tq.readyAt p).countP (·.stamp < x)

/-- Some ready task is older than `x`. -/
def holdsOlder (tq : Queue) (x : Stamp) : Bool := (tq.immediate ++ tq.delayed).any (·.stamp < x)

theorem older_eq (here : tq.enabled = true ∧ tq.level = p) (x : Stamp) :
    tq.older p x = (tq.ready .immediate).countP (·.stamp < x) +
      (tq.ready .delayed).countP (·.stamp < x) := by
  unfold older readyAt
  rw [if_pos here, List.countP_append]
  rfl

theorem older_of_not (away : ¬ (tq.enabled = true ∧ tq.level = p)) (x : Stamp) :
    tq.older p x = 0 := by
  unfold older readyAt
  rw [if_neg away]
  rfl

theorem older_of_not_holdsOlder (young : tq.holdsOlder x = false) (p : Level) :
    tq.older p x = 0 := by
  unfold older readyAt
  split_ifs
  · unfold holdsOlder at young
    rw [List.any_eq_false] at young
    exact List.countP_eq_zero.2 young
  · rfl

theorem older_withReady_lt (here : tq.enabled = true ∧ tq.level = p)
    (front : tq.ready h = t :: rest) (old : t.stamp < x) :
    (tq.withReady h rest).older p x < tq.older p x := by
  have here' : (tq.withReady h rest).enabled = true ∧ (tq.withReady h rest).level = p := by
    cases h <;> exact here
  rw [older_eq here, older_eq here']
  simp only [Scheduler.ready_withReady]
  cases h <;> simp [front, old]

end Queue

namespace Scheduler

variable {settings : Settings} {k k' : Scheduler} {op : Operation} {q j : QueueId} {tq tq' : Queue}
  {h g : Half} {t u : ReadyTask} {p : Level} {x : Stamp} {isCanceled : Ticket → Bool}
  {rest : List ReadyTask}

/-- The tasks that are ready at the level. -/
def readyAt (k : Scheduler) (p : Level) : List ReadyTask :=
  k.queues.toList.flatMap fun e => e.2.readyAt p

/-- How many of the tasks that are ready at the level are older than `x`. -/
def older (k : Scheduler) (p : Level) (x : Stamp) : Nat := (k.readyAt p).countP (·.stamp < x)

theorem older_eq_sum (k : Scheduler) (p : Level) (x : Stamp) :
    k.older p x = (k.queues.toList.map fun e => e.2.older p x).sum := by
  unfold older readyAt
  rw [List.countP_flatMap]
  rfl

/-- The operation brings a queue that holds older tasks to the level, by enabling it or moving
it. -/
def brings (k : Scheduler) (p : Level) (x : Stamp) : Operation → Bool
  | .setLevel q l => (k.queues.get? q).any fun tq =>
    tq.enabled && tq.level ≠ p && l = p && tq.holdsOlder x
  | .setEnabled q on _ => (k.queues.get? q).any fun tq =>
    on && !tq.enabled && tq.level = p && tq.holdsOlder x
  | _ => false

/-- The operation removes the queue, disables it, or moves it to another level than `p`. -/
def Operation.displaces (q : QueueId) (p : Level) : Operation → Bool
  | .remove j _ => j = q
  | .setLevel j l => j = q && l ≠ p
  | .setEnabled j on _ => j = q && !on
  | _ => false

/-! ### Stamps -/

/-- The stamps of ready tasks have been issued. -/
theorem Reachable.stamp_lt (r : Reachable settings k) (ht : k.ReadyIn q h t) :
    t.stamp < k.stamps.issue.1 := by
  obtain ⟨tq, hq, ht⟩ := ht
  exact (r.stamped q tq hq).past h t ht

theorem ReadyAt.readyIn (a : k.ReadyAt p q h t) : k.ReadyIn q h t := by
  obtain ⟨tq, hq, -, -, ht⟩ := a
  exact ⟨tq, hq, ht⟩

theorem Takes.readyIn (e : k.Takes isCanceled q tq h t rest) : k.ReadyIn q h t :=
  ⟨tq, e.queue, by rw [e.front]; exact List.mem_cons_self⟩

/-- No other ready task has the stamp of an immediate one. -/
def Apart (k : Scheduler) : Prop :=
  ∀ q t j h u, k.ReadyIn q .immediate t → k.ReadyIn j h u → u.stamp = t.stamp →
    q = j ∧ h = .immediate ∧ u = t

/-- A task that becomes ready has a new stamp, and if it is an immediate one, no other becomes ready
at the same time. -/
theorem Apart.perform (apart : k.Apart) (r : Reachable settings k) (op : Operation) :
    (k.perform op).Apart := by
  intro q t j h u ht hu same
  by_cases ht' : k.ReadyIn q .immediate t <;> by_cases hu' : k.ReadyIn j h u
  · exact apart q t j h u ht' hu' same
  · have old := r.stamp_lt ht'
    rw [← same, (r.readyIn_perform hu hu').1] at old
    exact absurd old (Nat.lt_irrefl _)
  · have old := r.stamp_lt hu'
    rw [same, (r.readyIn_perform ht ht').1] at old
    exact absurd old (Nat.lt_irrefl _)
  · obtain ⟨-, -, rfl : op = .post q t.ticket⟩ := r.readyIn_perform ht ht'
    obtain ⟨-, -, readies⟩ := r.readyIn_perform hu hu'
    cases h with
    | immediate =>
        have posted : Operation.post q t.ticket = .post j u.ticket := readies
        injection posted with queue ticket
        obtain ⟨s, x⟩ := t
        obtain ⟨s', x'⟩ := u
        exact ⟨queue, rfl, by simp_all⟩
    | delayed =>
        obtain ⟨now, c, e⟩ := readies
        cases e

theorem Reachable.apart (r : Reachable settings k) : k.Apart := by
  refine r.induct_perform (P := Apart) ?_ fun k op r apart => apart.perform r op
  rintro q t j h u ⟨tq, hq, -⟩
  rw [get?_ofSettings] at hq
  cases hq

theorem Reachable.eq_of_stamp_eq (r : Reachable settings k) (ht : k.ReadyIn q .immediate t)
    (hu : k.ReadyIn j h u) (same : u.stamp = t.stamp) : q = j ∧ h = .immediate ∧ u = t :=
  r.apart q t j h u ht hu same

/-! ### Older tasks -/

theorem Treats.countP_ready_le (e : Treats k k' q op tq tq') (hx : x ≤ k.stamps.issue.1)
    (h : Half) : (tq'.ready h).countP (·.stamp < x) ≤ (tq.ready h).countP (·.stamp < x) := by
  obtain ⟨kept, new, split, sub, fresh⟩ := e.ready h
  have young : new.countP (·.stamp < x) = 0 := by
    refine List.countP_eq_zero.2 fun t ht => ?_
    rw [(fresh t ht).1, decide_eq_true_eq]
    exact Nat.not_lt.2 hx
  rw [split, List.countP_append, young]
  exact sub.countP_le

/-- A queue that comes to the level without being brought there holds no older tasks. -/
theorem Treats.not_holdsOlder (e : Treats k k' q op tq tq') (hq : k.queues.get? q = some tq)
    (hb : k.brings p x op = false) (away : ¬ (tq.enabled = true ∧ tq.level = p))
    (here : tq'.enabled = true ∧ tq'.level = p) : tq'.holdsOlder x = false := by
  cases e with
  | leave | post | postDelayed | promote | sweep => exact absurd here away
  | @take _ _ h => cases h <;> exact absurd here away
  | setLevel l =>
      show tq.holdsOlder x = false
      obtain ⟨enabled, rfl⟩ : tq.enabled = true ∧ l = p := here
      have moved : tq.level ≠ l := fun same => away ⟨enabled, same⟩
      simpa [brings, hq, enabled, moved] using hb
  | setEnabled on now =>
      show tq.holdsOlder x = false
      obtain ⟨rfl, level⟩ : on = true ∧ tq.level = p := here
      have disabled : tq.enabled = false := Bool.eq_false_iff.2 fun on => away ⟨on, level⟩
      simpa [brings, hq, disabled, level] using hb

/-- What an operation makes of a queue adds no older tasks to the level, unless it brings the
queue there. -/
theorem Treats.older_le (e : Treats k k' q op tq tq') (hq : k.queues.get? q = some tq)
    (hx : x ≤ k.stamps.issue.1) (hb : k.brings p x op = false) :
    tq'.older p x ≤ tq.older p x := by
  by_cases here' : tq'.enabled = true ∧ tq'.level = p
  · by_cases here : tq.enabled = true ∧ tq.level = p
    · rw [Queue.older_eq here, Queue.older_eq here']
      exact Nat.add_le_add (e.countP_ready_le hx _) (e.countP_ready_le hx _)
    · rw [Queue.older_of_not_holdsOlder (e.not_holdsOlder hq hb here here')]
      exact Nat.zero_le _
  · rw [Queue.older_of_not here']
    exact Nat.zero_le _

theorem Reachable.older_get?_perform_le (r : Reachable settings k) (hx : x ≤ k.stamps.issue.1)
    (hb : k.brings p x op = false) (q : QueueId) :
    ((k.perform op).queues.get? q).elim 0 (·.older p x) ≤
      (k.queues.get? q).elim 0 (·.older p x) := by
  cases hq : (k.perform op).queues.get? q with
  | none => exact Nat.zero_le _
  | some tq' =>
      rcases r.treats hq with ⟨name, waking, -, rfl⟩ | ⟨tq, htq, e⟩
      · have empty : ({ name := name, waking := waking } : Queue).holdsOlder x = false := rfl
        exact (Queue.older_of_not_holdsOlder empty p).trans_le (Nat.zero_le _)
      · rw [htq]
        exact e.older_le htq hx hb

/-- The older tasks that are ready at the level do not become more. -/
theorem Reachable.older_perform_le (r : Reachable settings k) (hx : x ≤ k.stamps.issue.1)
    (hb : k.brings p x op = false) : (k.perform op).older p x ≤ k.older p x := by
  rw [older_eq_sum, older_eq_sum]
  exact Arena.sum_toList_le (r.older_get?_perform_le hx hb)

/-- When an older task is taken at the level, one older task less is ready there. -/
theorem Takes.older_lt (e : k.Takes isCanceled q tq h t rest) (r : Reachable settings k)
    (hx : x ≤ k.stamps.issue.1) (old : t.stamp < x) :
    (k.take isCanceled).2.older tq.level x < k.older tq.level x := by
  have not_more := r.older_get?_perform_le hx
    (show k.brings tq.level x (.take isCanceled) = false from rfl)
  rw [older_eq_sum, older_eq_sum]
  refine Arena.sum_toList_lt not_more q ?_
  show ((k.take isCanceled).2.queues.get? q).elim 0 _ < _
  rw [e.get?_take, if_pos rfl, e.queue]
  exact Queue.older_withReady_lt ⟨e.enabled, rfl⟩ e.front old

/-! ### A task that stays -/

theorem Treats.placed (e : Treats k k' q op tq tq') (hd : op.displaces q p = false)
    (here : tq.enabled = true ∧ tq.level = p) : tq'.enabled = true ∧ tq'.level = p := by
  cases e with
  | leave | post | postDelayed | promote | sweep => exact here
  | @take _ _ h => cases h <;> exact here
  | setLevel l => exact ⟨here.1, by simpa [Operation.displaces] using hd⟩
  | setEnabled on now => exact ⟨by simpa [Operation.displaces] using hd, here.2⟩

theorem Treats.mem_immediate (e : Treats k k' q op tq tq') (hop : ∀ c, op ≠ .take c)
    (ht : t ∈ tq.immediate) : t ∈ tq'.immediate := by
  cases e with
  | leave | setLevel | setEnabled | postDelayed | promote | sweep => exact ht
  | post => exact List.mem_append_left _ ht
  | take => exact absurd rfl (hop _)

theorem Reachable.readyAt_perform (r : Reachable settings k) (a : k.ReadyAt p q .immediate t)
    (hd : op.displaces q p = false) (hop : ∀ c, op ≠ .take c) :
    (k.perform op).ReadyAt p q .immediate t := by
  obtain ⟨tq, hq, enabled, level, ht⟩ := a
  have kept : ∀ now, op ≠ .remove q now := by
    rintro now rfl
    simp [Operation.displaces] at hd
  obtain ⟨tq', hq', e⟩ := r.treats_get? hq kept
  obtain ⟨enabled', level'⟩ := e.placed hd ⟨enabled, level⟩
  exact ⟨tq', hq', enabled', level', e.mem_immediate hop ht⟩

/-- All ready tasks but the one that is taken stay where they are. -/
theorem Takes.readyAt (e : k.Takes isCanceled q tq h t rest) (a : k.ReadyAt p j g u)
    (other : u ≠ t) : (k.take isCanceled).2.ReadyAt p j g u := by
  obtain ⟨tq', hq, enabled, level, hu⟩ := a
  unfold ReadyAt
  simp only [e.get?_take]
  by_cases same : j = q
  · subst same
    obtain rfl : tq = tq' := Option.some.inj (e.queue.symm.trans hq)
    refine ⟨tq.withReady h rest, if_pos rfl, by cases h <;> exact enabled,
      by cases h <;> exact level, ?_⟩
    rw [ready_withReady]
    split_ifs with half
    · subst half
      rw [e.front] at hu
      exact (List.mem_cons.1 hu).resolve_left other
    · exact hu
  · exact ⟨tq', (if_neg same).trans hq, enabled, level, hu⟩

end Scheduler

end Dispatch
