import Dispatch.Proofs.Scheduler.Conservation
import Dispatch.Proofs.Scheduler.Mirror

/-!
# The line of delayed tasks

The delayed tasks of a queue stand in a line: those that are ready, and behind them those that wait
(`Queue.line`).  A promotion moves tasks from the front of the second part to the end of the first
one, so no operation turns two tasks of a line round (`Treats.lined`).  Tasks leave the line at its
front, so when one is taken, none that it does not stand before is left
(`Mirrored.not_mem_of_take`).
-/

namespace Dispatch

namespace Queue

variable {tq : Queue} {a b t : Ticket} {e : Ticks}

/-- The delayed tasks, those that are ready first. -/
def line (tq : Queue) : List Ticket := tq.delayed.map (·.ticket) ++ tq.waiting.map (·.ticket)

/-- In the line, `b` does not stand before `a`. -/
def Lined (tq : Queue) (a b : Ticket) : Prop := tq.line.Pairwise fun t u => ¬ (t = b ∧ u = a)

/-- The task is not immediate, and if it waits, then until `e`. -/
structure Delays (tq : Queue) (t : Ticket) (e : Ticks) : Prop where
  immediate : ∀ u ∈ tq.immediate, u.ticket ≠ t
  waiting : ∀ w ∈ tq.waiting, w.ticket = t → w.earliest = e

theorem delays_of_not_mem (h : t ∉ tq.tickets) (e : Ticks) : tq.Delays t e where
  immediate u hu ht := h (mem_tickets.2 (Or.inl ⟨.immediate, u, hu, ht⟩))
  waiting w hw ht := absurd (mem_tickets.2 (Or.inr ⟨w, hw, ht⟩)) h

theorem Delays.mem_line (d : tq.Delays t e) (h : t ∈ tq.tickets) : t ∈ tq.line := by
  rcases mem_tickets.1 h with ⟨g, u, hu, rfl⟩ | ⟨w, hw, rfl⟩
  · cases g with
    | immediate => exact absurd rfl (d.immediate u hu)
    | delayed => exact List.mem_append_left _ (List.mem_map_of_mem hu)
  · exact List.mem_append_right _ (List.mem_map_of_mem hw)

theorem mem_tickets_of_mem_line (h : t ∈ tq.line) : t ∈ tq.tickets := by
  rcases List.mem_append.1 h with h | h
  · exact List.mem_append_left _ (List.mem_append_right _ h)
  · exact List.mem_append_right _ h

theorem lined_of_not_mem (h : a ∉ tq.tickets ∨ b ∉ tq.tickets) : tq.Lined a b := by
  refine List.pairwise_of_forall_mem_list fun t ht u hu => ?_
  rintro ⟨rfl, rfl⟩
  exact h.elim (fun h => h (mem_tickets_of_mem_line hu)) fun h => h (mem_tickets_of_mem_line ht)

/-- A task that is not ready stands behind another one if it does so among those that wait. -/
theorem Sorted.lined (s : tq.Sorted) (waits : ∀ u ∈ tq.delayed, u.ticket ≠ b)
    (behind : ∀ v ∈ tq.waiting, ∀ w ∈ tq.waiting, v.ticket = b → w.ticket = a →
      ¬ v.precedes w = true) : tq.Lined a b := by
  refine List.pairwise_append.2 ⟨?_, ?_, ?_⟩
  · refine List.pairwise_of_forall_mem_list fun t ht _ _ ⟨e, _⟩ => ?_
    obtain ⟨u, hu, rfl⟩ := List.mem_map.1 ht
    exact waits u hu e
  · exact List.pairwise_map.2 (List.Pairwise.imp_of_mem
      (fun hv hw precedes ⟨hb, ha⟩ => behind _ hv _ hw hb ha precedes) s)
  · rintro t ht - - ⟨e, -⟩
    obtain ⟨u, hu, rfl⟩ := List.mem_map.1 ht
    exact waits u hu e

/-! ### Changes of the line -/

theorem sublist_line_promoted (s : tq.Sorted) (now : Ticks) (stamp : Stamp)
    (isCanceled : Ticket → Bool) : (tq.promoted now stamp isCanceled).line.Sublist tq.line := by
  have moved : (tq.waiting.filter fun t => t.isDue now && !isCanceled t.ticket).Sublist
      (tq.waiting.filter fun t => t.isDue now) :=
    List.monotone_filter_right _ fun t h => (Bool.and_eq_true_iff.1 h).1
  have parts : tq.waiting = (tq.waiting.filter fun t => t.isDue now) ++
      tq.waiting.filter fun t => !t.isDue now := by
    rw [← takeWhile_isDue s, ← dropWhile_isDue s, List.takeWhile_append_dropWhile]
  unfold promoted line
  dsimp only
  rw [List.map_append, List.map_map, List.append_assoc]
  refine List.Sublist.append_left ?_ _
  conv_rhs => rw [parts, List.map_append]
  exact (moved.map _).append_right _

theorem pairwise_insertWaiting_of_forall {R : WaitingTask → WaitingTask → Prop} {t : WaitingTask}
    {l : List WaitingTask} (h : l.Pairwise R) (new : ∀ u ∈ l, R u t ∧ R t u) :
    (insertWaiting t l).Pairwise R := by
  induction l with
  | nil => exact List.pairwise_singleton R t
  | cons v l ih =>
      obtain ⟨first, rest⟩ := List.pairwise_cons.1 h
      unfold insertWaiting
      split
      · refine List.pairwise_cons.2 ⟨fun u hu => ?_, ih rest fun u hu => new u (.tail v hu)⟩
        rcases mem_insertWaiting.1 hu with rfl | hu
        · exact (new v List.mem_cons_self).1
        · exact first u hu
      · exact List.pairwise_cons.2 ⟨fun u hu => (new u hu).2, h⟩

/-- Another task does not turn the two round. -/
theorem Lined.postDelayed (h : tq.Lined a b) (runTime : Ticks) (leeway : Duration)
    (policy : Policy) (high : Bool) (ha : t ≠ a) (hb : t ≠ b) :
    (tq.postDelayed runTime leeway policy high t).Lined a b := by
  obtain ⟨ready, waiting, across⟩ := List.pairwise_append.1 h
  refine List.pairwise_append.2 ⟨ready, ?_, fun u hu v hv => ?_⟩
  · refine List.pairwise_map.2 (pairwise_insertWaiting_of_forall (List.pairwise_map.1 waiting) ?_)
    exact fun u _ => ⟨fun e => ha e.2, fun e => hb e.1⟩
  · obtain ⟨w, hw, rfl⟩ := List.mem_map.1 hv
    rcases mem_insertWaiting.1 hw with rfl | hw
    · exact fun e => ha e.2
    · exact across u hu _ (List.mem_map_of_mem hw)

end Queue

namespace Scheduler

variable {settings : Settings} {k k' : Scheduler} {q : QueueId} {op : Operation} {tq tq' : Queue}
  {a b t : Ticket} {e f : Ticks} {isCanceled : Ticket → Bool}

theorem Treats.lined (tr : Treats k k' q op tq tq') (s : tq.Sorted) (h : tq.Lined a b)
    (ha : ¬ op.Posts q a) (hb : ¬ op.Posts q b) : tq'.Lined a b := by
  cases tr with
  | leave | setLevel | setEnabled | post => exact h
  | postDelayed delay leeway policy now t =>
      refine h.postDelayed _ _ _ _ ?_ ?_
      · rintro rfl
        exact ha (Or.inr ⟨delay, leeway, policy, now, rfl⟩)
      · rintro rfl
        exact hb (Or.inr ⟨delay, leeway, policy, now, rfl⟩)
  | promote now isCanceled => exact h.sublist (Queue.sublist_line_promoted s _ _ _)
  | sweep =>
      exact h.sublist (((List.drop_sublist _ _).map _).append_left _)
  | @take _ _ half u rest front =>
      cases half with
      | immediate => exact h
      | delayed =>
          have front : tq.delayed = u :: rest := front
          refine h.sublist (List.Sublist.append_right (List.Sublist.map _ ?_) _)
          rw [front]
          exact List.sublist_cons_self u rest

theorem Treats.delays (tr : Treats k k' q op tq tq') (h : tq.Delays t e) (ht : ¬ op.Posts q t) :
    tq'.Delays t e := by
  cases tr with
  | leave | setLevel | setEnabled => exact ⟨h.immediate, h.waiting⟩
  | post u =>
      refine ⟨fun v hv => ?_, h.waiting⟩
      rcases List.mem_append.1 hv with hv | hv
      · exact h.immediate v hv
      · rw [List.mem_singleton.1 hv]
        rintro rfl
        exact ht (Or.inl rfl)
  | postDelayed delay leeway policy now u =>
      refine ⟨h.immediate, fun w hw hwt => ?_⟩
      rcases Queue.mem_insertWaiting.1 hw with rfl | hw
      · cases hwt
        exact absurd (Or.inr ⟨delay, leeway, policy, now, rfl⟩) ht
      · exact h.waiting w hw hwt
  | promote => exact ⟨h.immediate, fun w hw => h.waiting w (List.mem_of_mem_filter hw)⟩
  | sweep => exact ⟨h.immediate, fun w hw => h.waiting w (List.mem_of_mem_drop hw)⟩
  | @take _ _ half u rest front =>
      cases half with
      | delayed => exact ⟨h.immediate, h.waiting⟩
      | immediate =>
          have front : tq.immediate = u :: rest := front
          exact ⟨fun v hv => h.immediate v (front ▸ List.mem_cons_of_mem u hv), h.waiting⟩

/-- In no queue does `b` stand before `a`. -/
def Lined (k : Scheduler) (a b : Ticket) : Prop :=
  ∀ q tq, k.queues.get? q = some tq → tq.Lined a b

/-- If the task is pending, it is a delayed task of the queue, and if it waits, then until `e`. -/
structure Delays (k : Scheduler) (q : QueueId) (t : Ticket) (e : Ticks) : Prop where
  delays : ∀ j tq, k.queues.get? j = some tq → tq.Delays t e
  home : ∀ j, t ∈ k.ticketsIn j → j = q

theorem Reachable.lined_run (r : Reachable settings k) (h : k.Lined a b) {ops : List Operation}
    (other : ∀ op ∈ ops, ∀ j, ¬ op.Posts j a ∧ ¬ op.Posts j b) : (k.run ops).Lined a b := by
  induction ops generalizing k with
  | nil => exact h
  | cons op ops ih =>
      refine ih (r.perform op) (fun q tq' hq => ?_) fun op' mem => other op' (.tail op mem)
      obtain ⟨ha, hb⟩ := other op List.mem_cons_self q
      rcases r.treats hq with ⟨name, waking, -, rfl⟩ | ⟨tq, htq, tr⟩
      · exact Queue.lined_of_not_mem (Or.inl List.not_mem_nil)
      · exact tr.lined (r.scheduled.sorted q tq htq) (h q tq htq) ha hb

theorem Reachable.delays_run (r : Reachable settings k) (h : k.Delays q t e) {ops : List Operation}
    (other : ∀ op ∈ ops, ∀ j, ¬ op.Posts j t) : (k.run ops).Delays q t e := by
  induction ops generalizing k with
  | nil => exact h
  | cons op ops ih =>
      refine ih (r.perform op) ⟨fun j tq' hj => ?_, fun j hj => ?_⟩
        fun op' mem => other op' (.tail op mem)
      · rcases r.treats hj with ⟨name, waking, -, rfl⟩ | ⟨tq, htq, tr⟩
        · exact Queue.delays_of_not_mem List.not_mem_nil e
        · exact tr.delays (h.delays j tq htq) (other op List.mem_cons_self j)
      · have before : t ∈ k.ticketsIn j ∨ ∃ op' ∈ [op], op'.Posts j t := r.mem_ticketsIn_run hj
        refine h.home j (before.resolve_right ?_)
        rintro ⟨op', mem, posts⟩
        rw [List.mem_singleton.1 mem] at posts
        exact other op List.mem_cons_self j posts

/-- When `b` is taken, `a` is not pending any more, because `b` does not stand before it. -/
theorem Mirrored.not_mem_of_take (m : Mirrored k) (h : k.Lined a b) (da : k.Delays q a e)
    (db : k.Delays q b f) (taken : (k.take isCanceled).1 = some b) :
    a ∉ (k.take isCanceled).2.tickets := by
  rcases m.take_cases isCanceled with ⟨-, eq⟩ | ⟨pick, selector, tq, t, rest, -, hq, front, eq⟩
  · rw [eq] at taken
    cases taken
  rw [eq] at taken ⊢
  obtain rfl : t.ticket = b := Option.some.inj taken
  have first : t ∈ tq.ready pick.half := by
    rw [front]
    exact List.mem_cons_self
  obtain rfl : pick.queue = q := db.home _ (mem_ticketsIn.2
    ⟨tq, hq, Queue.mem_tickets.2 (Or.inl ⟨pick.half, t, first, rfl⟩)⟩)
  -- what is left in the queue stood behind the task that is taken
  have left : a ∉ (tq.withReady pick.half rest).tickets := by
    intro mem
    cases half : pick.half with
    | immediate =>
        rw [half] at first
        exact (db.delays _ tq hq).immediate t first rfl
    | delayed =>
        rw [half] at front mem
        have front : tq.delayed = t :: rest := front
        have delays : (tq.withReady .delayed rest).Delays a e :=
          ⟨(da.delays _ tq hq).immediate, (da.delays _ tq hq).waiting⟩
        have behind := h _ tq hq
        unfold Queue.Lined Queue.line at behind
        rw [front] at behind
        exact (List.pairwise_cons.1 behind).1 a (delays.mem_line mem) ⟨rfl, rfl⟩
  rw [mem_tickets]
  rintro ⟨j, hj⟩
  obtain ⟨tq', hj, mem⟩ := mem_ticketsIn.1 hj
  dsimp only at hj
  rw [Arena.get?_set, hq] at hj
  split_ifs at hj with same
  · cases hj
    exact left mem
  · exact same ⟨da.home j (mem_ticketsIn.2 ⟨tq', hj, mem⟩), rfl⟩

end Scheduler

end Dispatch
