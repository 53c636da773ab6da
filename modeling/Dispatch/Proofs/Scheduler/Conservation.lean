import Dispatch.Proofs.Queue.Contents
import Dispatch.Proofs.Scheduler.Effects

/-!
# Operations lose no task

The tickets that an operation answers and those that are left in the queues are the ones that were
there before, together with the one that is posted (`perm_tickets_promote`, `perm_tickets_remove`,
`perm_tickets_post` and so on).  A promotion and a sweep answer canceled tasks only
(`isCanceled_of_mem_promote`, `isCanceled_of_mem_sweep`).  No task moves to another queue
(`Reachable.mem_ticketsIn_run`).
-/

namespace Dispatch.Scheduler

variable {k k' : Scheduler} {q : QueueId} {t : Ticket} {ts : List Ticket} {now : Ticks}
  {isCanceled : Ticket → Bool}

theorem tickets_eq (k : Scheduler) : k.tickets = ticketsOf k.queues := rfl

theorem tickets_afterPasses (k : Scheduler) (p p' : Agenda.Pass Stores) :
    (k.afterPasses p p').tickets = ticketsOf p'.owner.queues := by
  rw [tickets_eq, queues_afterPasses]

/-! ### Requests -/

theorem perm_tickets_create (k : Scheduler) (name : String) (waking : Bool) :
    (k.create name waking).2.tickets.Perm k.tickets :=
  perm_ticketsOf_insert k.queues rfl

theorem perm_tickets_remove (h : k.remove q now = .ok (ts, k')) :
    (ts ++ k'.tickets).Perm k.tickets := by
  obtain ⟨tq, hq, e⟩ := ok_of_queue h
  obtain ⟨rfl, rfl⟩ := Prod.mk.inj e
  rw [tickets_eq, queues_withAgenda]
  exact perm_ticketsOf_erase hq

theorem perm_tickets_setLevel {l : Level} (h : k.setLevel q l = .ok k') :
    k'.tickets.Perm k.tickets := by
  cases outcome_setLevel h with
  | same => exact .refl _
  | @setLevel _ tq _ hq => exact perm_ticketsOf_set hq [] [] (.refl tq.tickets)

theorem perm_tickets_setEnabled {on : Bool} (h : k.setEnabled q on now = .ok k') :
    k'.tickets.Perm k.tickets := by
  cases outcome_setEnabled h with
  | same => exact .refl _
  | @enable _ tq _ hq | @disable _ tq _ hq =>
      rw [tickets_eq, queues_withQueue]
      exact perm_ticketsOf_set hq [] [] (.refl tq.tickets)

theorem perm_tickets_post (h : k.post q t = .ok k') : k'.tickets.Perm (t :: k.tickets) := by
  obtain ⟨tq, hq, rfl⟩ := ok_of_queue h
  exact perm_ticketsOf_set hq [] [t] (tq.perm_tickets_post _)

theorem perm_tickets_postDelayed {delay leeway : Duration} {policy : Policy}
    (h : k.postDelayed q delay leeway policy now t = .ok k') :
    k'.tickets.Perm (t :: k.tickets) := by
  obtain ⟨tq, hq, rfl⟩ := ok_of_queue h
  rw [tickets_eq, queues_withQueue]
  exact perm_ticketsOf_set hq [] [t] (tq.perm_tickets_postDelayed _ _ _ _ _)

/-! ### Passes -/

/-- The tickets that a pass has removed so far, and those in the queues that it works on. -/
def Stores.tickets (s : Stores) : List Ticket := s.canceled ++ ticketsOf s.queues

theorem Stores.perm_tickets_of_replace {s : Stores} {tq tq' : Queue} {out : List Ticket}
    {selector : Selector} (hq : s.queues.get? q = some tq)
    (h : (out ++ tq'.tickets).Perm tq.tickets) :
    (Stores.tickets ⟨s.queues.set q tq', selector, s.canceled ++ out⟩).Perm s.tickets := by
  unfold Stores.tickets
  rw [List.append_assoc]
  exact (perm_ticketsOf_set hq out [] h).append_left _

theorem Stores.perm_tickets_wake (s : Stores) (isCanceled : Ticket → Bool) (q : QueueId)
    (now : Ticks) (stamp : Stamp) : (s.wake isCanceled q now stamp).2.tickets.Perm s.tickets := by
  unfold Stores.wake
  cases hq : s.queues.get? q with
  | none => exact .refl _
  | some tq => exact perm_tickets_of_replace hq (tq.perm_tickets_promote now stamp isCanceled)

theorem Stores.perm_tickets_trim (s : Stores) (isCanceled : Ticket → Bool) (q : QueueId) :
    (s.trim isCanceled q).2.tickets.Perm s.tickets := by
  unfold Stores.trim
  cases hq : s.queues.get? q with
  | none => exact .refl _
  | some tq => exact perm_tickets_of_replace hq (tq.perm_tickets_trim isCanceled)

theorem perm_tickets_promote (k : Scheduler) (now : Ticks) (isCanceled : Ticket → Bool) :
    ((k.promote now isCanceled).1 ++ (k.promote now isCanceled).2.tickets).Perm k.tickets := by
  have pass : ∀ (a : Agenda) (stamp : Stamp) (n : Nat) (s : Stores), s.tickets.Perm k.tickets →
      (a.promote (owner isCanceled) now stamp n s).owner.tickets.Perm k.tickets :=
    fun a stamp n s => Agenda.owner_promote (o := owner isCanceled)
      (fun q s h => (s.perm_tickets_wake isCanceled q now stamp).trans h) (fun q s h => h) n
  unfold Scheduler.promote
  split_ifs
  · dsimp only
    rw [tickets_afterPasses]
    exact pass _ _ _ _ (pass _ _ _ k.stores (.refl _))
  · exact .refl _

theorem perm_tickets_sweep (k : Scheduler) (now : Ticks) (isCanceled : Ticket → Bool) :
    ((k.sweep now isCanceled).1 ++ (k.sweep now isCanceled).2.tickets).Perm k.tickets := by
  have pass : ∀ (a : Agenda) (n : Nat) (s : Stores), s.tickets.Perm k.tickets →
      (a.trim (owner isCanceled) now n s).owner.tickets.Perm k.tickets :=
    fun a n s => Agenda.owner_trim (o := owner isCanceled)
      (fun q s h => (s.perm_tickets_trim isCanceled q).trans h) (fun q s h => h) n
  unfold Scheduler.sweep
  dsimp only
  rw [tickets_afterPasses]
  exact pass _ _ _ (pass _ _ k.stores (.refl _))

theorem Mirrored.perm_tickets_take (m : Mirrored k) (isCanceled : Ticket → Bool) :
    ((k.take isCanceled).1.toList ++ (k.take isCanceled).2.tickets).Perm k.tickets := by
  rcases m.take_cases isCanceled with ⟨-, e⟩ | ⟨pick, selector, tq, t, rest, -, hq, front, e⟩
  · rw [e]
    exact .refl _
  · rw [e]
    exact perm_ticketsOf_set hq [t.ticket] []
      (Queue.perm_tickets_withReady front)

/-! ### Tasks stay in their queue -/

/-- The tickets of the tasks in one queue. -/
def ticketsIn (k : Scheduler) (q : QueueId) : List Ticket :=
  (k.queues.get? q).elim [] Queue.tickets

theorem mem_ticketsIn :
    t ∈ k.ticketsIn q ↔ ∃ tq, k.queues.get? q = some tq ∧ t ∈ tq.tickets := by
  unfold ticketsIn
  cases k.queues.get? q <;> simp

theorem mem_tickets : t ∈ k.tickets ↔ ∃ q, t ∈ k.ticketsIn q := by
  rw [tickets_eq, mem_ticketsOf]
  exact exists_congr fun q => mem_ticketsIn.symm

/-- The operation posts the task to the queue. -/
def Operation.Posts (op : Operation) (q : QueueId) (t : Ticket) : Prop :=
  op = .post q t ∨ ∃ delay leeway policy now, op = .postDelayed q delay leeway policy now t

theorem Treats.mem_tickets {op : Operation} {tq tq' : Queue} (e : Treats k k' q op tq tq')
    (ht : t ∈ tq'.tickets) : t ∈ tq.tickets ∨ op.Posts q t := by
  cases e with
  | leave | setLevel | setEnabled => exact Or.inl ht
  | post u =>
      rcases List.mem_cons.1 ((tq.perm_tickets_post _).mem_iff.1 ht) with rfl | ht
      · exact Or.inr (Or.inl rfl)
      · exact Or.inl ht
  | postDelayed delay leeway policy now u =>
      rcases List.mem_cons.1 ((tq.perm_tickets_postDelayed _ _ _ _ _).mem_iff.1 ht) with rfl | ht
      · exact Or.inr (Or.inr ⟨delay, leeway, policy, now, rfl⟩)
      · exact Or.inl ht
  | promote => exact Or.inl (Queue.mem_tickets_of_promoted ht)
  | sweep =>
      exact Or.inl ((tq.perm_tickets_dropWaiting _).mem_iff.1 (List.mem_append_right _ ht))
  | take _ front =>
      exact Or.inl ((Queue.perm_tickets_withReady front).mem_iff.1 (List.mem_cons_of_mem _ ht))

/-- A queue holds the tasks that it held before and those that were posted to it. -/
theorem Reachable.mem_ticketsIn_run {settings : Settings} (r : Reachable settings k)
    {ops : List Operation} (ht : t ∈ (k.run ops).ticketsIn q) :
    t ∈ k.ticketsIn q ∨ ∃ op ∈ ops, op.Posts q t := by
  induction ops generalizing k with
  | nil => exact Or.inl ht
  | cons op ops ih =>
      rcases ih (r.perform op) ht with ht | ⟨op', h, posts⟩
      · obtain ⟨tq', hq, ht⟩ := mem_ticketsIn.1 ht
        rcases r.treats hq with ⟨name, waking, -, rfl⟩ | ⟨tq, htq, e⟩
        · exact absurd ht List.not_mem_nil
        · rcases e.mem_tickets ht with ht | posts
          · exact Or.inl (mem_ticketsIn.2 ⟨tq, htq, ht⟩)
          · exact Or.inr ⟨op, List.mem_cons_self, posts⟩
      · exact Or.inr ⟨op', List.mem_cons_of_mem _ h, posts⟩

/-! ### Canceled tasks -/

/-- Only canceled tasks have been removed so far. -/
def Stores.Culls (isCanceled : Ticket → Bool) (s : Stores) : Prop :=
  ∀ t ∈ s.canceled, isCanceled t = true

theorem Stores.Culls.replace {s : Stores} (c : s.Culls isCanceled) {out : List Ticket}
    (h : ∀ t ∈ out, isCanceled t = true) (queues : Arena Queue) (selector : Selector) :
    Stores.Culls isCanceled ⟨queues, selector, s.canceled ++ out⟩ := by
  intro t ht
  rcases List.mem_append.1 ht with ht | ht
  · exact c t ht
  · exact h t ht

theorem Stores.Culls.wake {s : Stores} (c : s.Culls isCanceled) (q : QueueId) (now : Ticks)
    (stamp : Stamp) : (s.wake isCanceled q now stamp).2.Culls isCanceled := by
  unfold Stores.wake
  cases s.queues.get? q with
  | none => exact c
  | some tq => exact c.replace (fun t => Queue.isCanceled_of_mem_promote) _ _

theorem Stores.Culls.trim {s : Stores} (c : s.Culls isCanceled) (q : QueueId) :
    (s.trim isCanceled q).2.Culls isCanceled := by
  unfold Stores.trim
  cases s.queues.get? q with
  | none => exact c
  | some tq => exact c.replace (fun t => Queue.isCanceled_of_mem_trim) _ _

theorem culls_stores (k : Scheduler) (isCanceled : Ticket → Bool) : k.stores.Culls isCanceled :=
  fun _ ht => absurd ht List.not_mem_nil

theorem isCanceled_of_mem_promote (ht : t ∈ (k.promote now isCanceled).1) :
    isCanceled t = true := by
  have pass : ∀ (a : Agenda) (stamp : Stamp) (n : Nat) (s : Stores), s.Culls isCanceled →
      (a.promote (owner isCanceled) now stamp n s).owner.Culls isCanceled :=
    fun a stamp n s => Agenda.owner_promote (o := owner isCanceled)
      (fun q s c => c.wake q now stamp) (fun q s c => c) n
  unfold Scheduler.promote at ht
  split_ifs at ht
  · exact pass _ _ _ _ (pass _ _ _ _ (k.culls_stores isCanceled)) t ht
  · exact absurd ht List.not_mem_nil

theorem isCanceled_of_mem_sweep (ht : t ∈ (k.sweep now isCanceled).1) : isCanceled t = true := by
  have pass : ∀ (a : Agenda) (n : Nat) (s : Stores), s.Culls isCanceled →
      (a.trim (owner isCanceled) now n s).owner.Culls isCanceled :=
    fun a n s => Agenda.owner_trim (o := owner isCanceled)
      (fun q s c => c.trim q) (fun q s c => c) n
  exact pass _ _ _ (pass _ _ _ (k.culls_stores isCanceled)) t ht

end Dispatch.Scheduler
