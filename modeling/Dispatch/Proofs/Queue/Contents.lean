import Dispatch.Proofs.Queue.Arena
import Dispatch.Proofs.Queue.Due

/-!
# The tasks in queues

A change of a queue may move a task from one store to another, but the tickets that it answers and
those that stay are the ones that were there (`perm_tickets_promote`, `perm_tickets_trim`,
`perm_tickets_withReady`), together with the one that is posted.  What holds of one queue holds of
all the tickets in an arena of queues (`perm_ticketsOf_set`).
-/

namespace Dispatch

namespace Queue

variable {q : Queue}

theorem mem_tickets {t : Ticket} : t ∈ q.tickets ↔
    (∃ h, ∃ u ∈ q.ready h, u.ticket = t) ∨ ∃ w ∈ q.waiting, w.ticket = t := by
  unfold tickets
  simp only [List.mem_append, List.mem_map]
  constructor
  · rintro ((h | h) | h)
    · exact Or.inl ⟨.immediate, h⟩
    · exact Or.inl ⟨.delayed, h⟩
    · exact Or.inr h
  · rintro (⟨_ | _, h⟩ | h)
    · exact Or.inl (Or.inl h)
    · exact Or.inl (Or.inr h)
    · exact Or.inr h

theorem length_tickets (q : Queue) : q.tickets.length = q.pendingCount := by
  simp [tickets, pendingCount, Nat.add_assoc]

theorem perm_tickets_post (q : Queue) (t : ReadyTask) :
    (q.post t).tickets.Perm (t.ticket :: q.tickets) := by
  unfold post tickets
  rw [List.map_append, List.append_assoc, List.append_assoc, List.append_assoc]
  exact List.perm_middle

theorem perm_tickets_postDelayed (q : Queue) (runTime : Ticks) (leeway : Duration)
    (policy : Policy) (high : Bool) (t : Ticket) :
    (q.postDelayed runTime leeway policy high t).tickets.Perm (t :: q.tickets) := by
  have waiting := (perm_insertWaiting ⟨runTime, leeway, policy, high, q.posted, t⟩ q.waiting).map
    (·.ticket)
  exact (waiting.append_left _).trans List.perm_middle

theorem perm_tickets_withReady {h : Half} {t : ReadyTask} {rest : List ReadyTask}
    (front : q.ready h = t :: rest) :
    (t.ticket :: (q.withReady h rest).tickets).Perm q.tickets := by
  cases h with
  | immediate =>
      have e : q.immediate = t :: rest := front
      unfold tickets
      rw [e]
      exact .refl _
  | delayed =>
      have e : q.delayed = t :: rest := front
      unfold tickets
      rw [e, List.append_assoc, List.append_assoc]
      exact List.perm_middle.symm

/-- Waiting tasks that are taken from the front are missing there. -/
theorem perm_tickets_dropWaiting (q : Queue) (n : Nat) :
    ((q.waiting.take n).map (·.ticket) ++ (q.dropWaiting n).tickets).Perm q.tickets := by
  refine List.perm_iff_count.2 fun t => ?_
  have waiting : (q.waiting.map (·.ticket)).count t =
      ((q.waiting.take n).map (·.ticket)).count t +
        ((q.waiting.drop n).map (·.ticket)).count t := by
    rw [← List.count_append, ← List.map_append, List.take_append_drop]
  unfold tickets dropWaiting
  simp only [List.count_append]
  omega

theorem take_takeWhile_length {p : WaitingTask → Bool} {l : List WaitingTask} :
    l.take (l.takeWhile p).length = l.takeWhile p :=
  (List.prefix_iff_eq_take.1 (List.takeWhile_prefix p)).symm

theorem perm_tickets_trim (q : Queue) (isCanceled : Ticket → Bool) :
    ((q.trim isCanceled).1 ++ (q.trim isCanceled).2.tickets).Perm q.tickets := by
  have perm := q.perm_tickets_dropWaiting
    (q.waiting.takeWhile fun t => isCanceled t.ticket).length
  rwa [take_takeWhile_length] at perm

theorem perm_tickets_promote (q : Queue) (now : Ticks) (stamp : Stamp)
    (isCanceled : Ticket → Bool) :
    ((q.promote now stamp isCanceled).1 ++ (q.promote now stamp isCanceled).2.tickets).Perm
      q.tickets := by
  have perm := q.perm_tickets_dropWaiting (q.waiting.takeWhile (·.isDue now)).length
  rw [take_takeWhile_length] at perm
  refine List.Perm.trans (List.perm_iff_count.2 fun t => ?_) perm
  -- the due tasks are parted into the canceled ones and those that become delayed ones
  have parts := (List.filter_append_perm isCanceled
    ((q.waiting.takeWhile (·.isDue now)).map (·.ticket))).count_eq t
  unfold promote tickets dropWaiting
  simp only [List.partition_eq_filter_filter, List.count_append, List.map_append, List.map_map,
    Function.comp_def, List.map_id'] at parts ⊢
  omega

/-- A promotion brings no task into a queue. -/
theorem mem_tickets_of_promoted {now : Ticks} {stamp : Stamp} {isCanceled : Ticket → Bool}
    {t : Ticket} (ht : t ∈ (q.promoted now stamp isCanceled).tickets) : t ∈ q.tickets := by
  have sub : ∀ {p : WaitingTask → Bool}, t ∈ (q.waiting.filter p).map (·.ticket) →
      t ∈ q.waiting.map (·.ticket) := fun h => (List.filter_sublist.map _).subset h
  unfold promoted tickets at ht
  dsimp only at ht
  rw [List.map_append, List.map_map] at ht
  simp only [List.mem_append] at ht
  unfold tickets
  simp only [List.mem_append]
  rcases ht with (ht | ht | ht) | ht
  · exact Or.inl (Or.inl ht)
  · exact Or.inl (Or.inr ht)
  · exact Or.inr (sub ht)
  · exact Or.inr (sub ht)

/-! ### Canceled tasks -/

theorem isCanceled_of_mem_trim {isCanceled : Ticket → Bool} {t : Ticket}
    (ht : t ∈ (q.trim isCanceled).1) : isCanceled t = true := by
  obtain ⟨w, hw, rfl⟩ := List.mem_map.1 ht
  exact List.mem_takeWhile_imp (p := fun t : WaitingTask => isCanceled t.ticket) hw

theorem isCanceled_of_mem_promote {now : Ticks} {stamp : Stamp} {isCanceled : Ticket → Bool}
    {t : Ticket} (ht : t ∈ (q.promote now stamp isCanceled).1) : isCanceled t = true := by
  unfold promote at ht
  dsimp only at ht
  rw [List.partition_eq_filter_filter] at ht
  exact (List.mem_filter.1 ht).2

end Queue

/-! ### All queues of an arena -/

/-- The tickets of all tasks in an arena of queues. -/
def ticketsOf (queues : Arena Queue) : List Ticket := queues.toList.flatMap (·.2.tickets)

variable {queues : Arena Queue} {q : QueueId} {tq tq' : Queue}

theorem mem_ticketsOf {t : Ticket} :
    t ∈ ticketsOf queues ↔ ∃ q tq, queues.get? q = some tq ∧ t ∈ tq.tickets := by
  unfold ticketsOf
  rw [List.mem_flatMap]
  constructor
  · rintro ⟨⟨q, tq⟩, hq, ht⟩
    exact ⟨q, tq, Arena.mem_toList.1 hq, ht⟩
  · rintro ⟨q, tq, hq, ht⟩
    exact ⟨(q, tq), Arena.mem_toList.2 hq, ht⟩

theorem perm_ticketsOf_erase (hq : queues.get? q = some tq) :
    (tq.tickets ++ ticketsOf (queues.erase q)).Perm (ticketsOf queues) :=
  ((Arena.perm_toList_erase hq).flatMap_right fun e : QueueId × Queue => e.2.tickets).symm

/-- A queue may be replaced by one that holds the same tickets, except for some that were taken
away and some that are new. -/
theorem perm_ticketsOf_set (hq : queues.get? q = some tq) (out new : List Ticket)
    (h : (out ++ tq'.tickets).Perm (new ++ tq.tickets)) :
    (out ++ ticketsOf (queues.set q tq')).Perm (new ++ ticketsOf queues) := by
  have before := perm_ticketsOf_erase hq
  have after : (ticketsOf (queues.set q tq')).Perm (tq'.tickets ++ ticketsOf (queues.erase q)) :=
    (Arena.perm_toList_set hq tq').flatMap_right fun e : QueueId × Queue => e.2.tickets
  calc (out ++ ticketsOf (queues.set q tq')).Perm
        (out ++ (tq'.tickets ++ ticketsOf (queues.erase q))) := after.append_left out
    _ = out ++ tq'.tickets ++ ticketsOf (queues.erase q) := (List.append_assoc _ _ _).symm
    List.Perm _ (new ++ tq.tickets ++ ticketsOf (queues.erase q)) := h.append_right _
    _ = new ++ (tq.tickets ++ ticketsOf (queues.erase q)) := List.append_assoc _ _ _
    List.Perm _ (new ++ ticketsOf queues) := before.append_left new

theorem perm_ticketsOf_insert (queues : Arena Queue) (h : tq.tickets = []) :
    (ticketsOf (queues.insert tq).2).Perm (ticketsOf queues) := by
  have perm := (Arena.perm_toList_insert queues tq).flatMap_right (·.2.tickets)
  rw [List.flatMap_cons, h, List.nil_append] at perm
  exact perm

end Dispatch
