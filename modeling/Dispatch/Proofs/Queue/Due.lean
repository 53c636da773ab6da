import Dispatch.Proofs.Queue.Waiting
import Mathlib.Data.List.TakeWhile

/-!
# The due tasks of a queue

Waiting tasks come in their order, so those that are due stand in front, and a promotion, which
stops at the first task that is not due, moves all of them and no other (`Sorted.promote_eq`).
Tasks that may run at the same time stand in the order in which they were posted
(`Sorted.ascending`).
-/

namespace Dispatch

variable {now : Ticks} {stamp : Stamp} {isCanceled : Ticket → Bool}

namespace WaitingTask

variable {t u : WaitingTask}

theorem isDue_of_precedes (h : t.precedes u = true) (hu : u.isDue now = true) :
    t.isDue now = true :=
  decide_eq_true (Nat.le_trans (earliest_le_of_precedes h) (of_decide_eq_true hu))

/-- The task may run before `u`, or at the same time and was posted before. -/
def Before (t u : WaitingTask) : Prop :=
  t.earliest < u.earliest ∨ t.earliest = u.earliest ∧ t.sequence < u.sequence

theorem before_of_precedes (h : t.precedes u = true) (hne : t.sequence ≠ u.sequence) :
    t.Before u := by
  rcases precedes_iff.1 h with h | ⟨h, hs⟩
  · exact Or.inl (Ticks.lt_iff.2 h)
  · exact Or.inr ⟨h, by omega⟩

end WaitingTask

namespace Queue

variable {q : Queue} {l : List WaitingTask}

/-! ### Due tasks stand in front -/

/-- Behind a task that is not due no task is. -/
theorem not_isDue_of_mem_dropWhile (h : l.Pairwise fun t u => t.precedes u = true)
    {u : WaitingTask} (hu : u ∈ l.dropWhile (·.isDue now)) : ¬ u.isDue now = true := by
  induction l with
  | nil => cases hu
  | cons t l ih =>
      obtain ⟨first, rest⟩ := List.pairwise_cons.1 h
      by_cases ht : t.isDue now = true
      · rw [List.dropWhile_cons_of_pos (p := fun t : WaitingTask => t.isDue now) ht] at hu
        exact ih rest hu
      · rw [List.dropWhile_cons_of_neg (p := fun t : WaitingTask => t.isDue now) ht] at hu
        rcases List.mem_cons.1 hu with rfl | hu
        · exact ht
        · exact fun hd => ht (WaitingTask.isDue_of_precedes (first u hu) hd)

theorem takeWhile_isDue (h : l.Pairwise fun t u => t.precedes u = true) :
    l.takeWhile (·.isDue now) = l.filter (·.isDue now) := by
  have front : ∀ t ∈ l.takeWhile (·.isDue now), t.isDue now = true :=
    fun t ht => List.mem_takeWhile_imp (p := fun t : WaitingTask => t.isDue now) ht
  conv => rhs; rw [← List.takeWhile_append_dropWhile (p := fun t => t.isDue now) (l := l)]
  rw [List.filter_append, List.filter_eq_self.2 front,
    List.filter_eq_nil_iff.2 fun u hu => not_isDue_of_mem_dropWhile h hu, List.append_nil]

theorem dropWhile_isDue (h : l.Pairwise fun t u => t.precedes u = true) :
    l.dropWhile (·.isDue now) = l.filter fun t => !t.isDue now := by
  have front : ∀ t ∈ l.takeWhile (·.isDue now), ¬ (!t.isDue now) = true :=
    fun t ht => by
    have := List.mem_takeWhile_imp (p := fun t : WaitingTask => t.isDue now) ht
    simpa using this
  have back : ∀ u ∈ l.dropWhile (·.isDue now), (!u.isDue now) = true :=
    fun u hu => by simpa using not_isDue_of_mem_dropWhile h hu
  conv => rhs; rw [← List.takeWhile_append_dropWhile (p := fun t => t.isDue now) (l := l)]
  rw [List.filter_append, List.filter_eq_nil_iff.2 front, List.filter_eq_self.2 back,
    List.nil_append]

/-- A queue wants a wake-up that is ready exactly if it is enabled and a waiting task is due. -/
theorem Sorted.exists_isReady_iff (s : q.Sorted) :
    (∃ w, q.nextWakeUp = some w ∧ w.isReady now = true) ↔
      q.enabled = true ∧ ∃ t ∈ q.waiting, t.isDue now = true := by
  constructor
  · rintro ⟨w, hw, hr⟩
    obtain ⟨t, ht, he⟩ := (s.earliest_nextWakeUp hw).1
    refine ⟨(head?_of_nextWakeUp hw).1, t, ht, ?_⟩
    unfold WaitingTask.isDue
    rw [he]
    exact hr
  · rintro ⟨he, t, ht, hd⟩
    cases hw : q.nextWakeUp with
    | none =>
        rw [nextWakeUp_eq_none_iff.1 hw he] at ht
        cases ht
    | some w =>
        have first := (s.earliest_nextWakeUp hw).2 t ht
        exact ⟨w, rfl, decide_eq_true (Nat.le_trans first (of_decide_eq_true hd))⟩

/-! ### What a promotion moves -/

/-- The tickets of the tasks that are due and have been canceled. -/
def dueCanceled (q : Queue) (now : Ticks) (isCanceled : Ticket → Bool) : List Ticket :=
  (q.waiting.filter fun t => t.isDue now && isCanceled t.ticket).map (·.ticket)

/-- The queue in which the tasks that are due are delayed tasks with the given stamp, except for the
canceled ones. -/
def promoted (q : Queue) (now : Ticks) (stamp : Stamp) (isCanceled : Ticket → Bool) : Queue :=
  { q with
    delayed := q.delayed ++ (q.waiting.filter fun t => t.isDue now && !isCanceled t.ticket).map
      fun t => ⟨stamp, t.ticket⟩
    waiting := q.waiting.filter fun t => !t.isDue now
    highResolution :=
      q.highResolution - q.waiting.countP fun t => t.isDue now && t.highResolution }

theorem Sorted.promote_eq (s : q.Sorted) (now : Ticks) (stamp : Stamp)
    (isCanceled : Ticket → Bool) :
    q.promote now stamp isCanceled =
      (q.dueCanceled now isCanceled, q.promoted now stamp isCanceled) := by
  have front : q.waiting.takeWhile (·.isDue now) = q.waiting.filter (·.isDue now) :=
    takeWhile_isDue s
  have back : (q.promote now stamp isCanceled).2.waiting =
      q.waiting.filter fun t => !t.isDue now := by
    rw [waiting_promote, dropWhile_isDue s]
  have taken : q.waiting.take (q.waiting.filter (·.isDue now)).length =
      q.waiting.filter (·.isDue now) := by
    rw [← front]
    exact List.prefix_iff_eq_take.1 (List.takeWhile_prefix _) |>.symm
  unfold Queue.promote Queue.dropWaiting at back ⊢
  dsimp only at back ⊢
  rw [front] at back ⊢
  rw [back, taken, List.partition_eq_filter_filter]
  unfold dueCanceled promoted
  simp [List.filter_map, List.filter_filter, List.countP_filter, Function.comp_def, Bool.and_comm]

/-- Without a task that is due, there is nothing to do. -/
theorem promoted_of_not_due (h : ∀ t ∈ q.waiting, ¬ t.isDue now = true) (stamp : Stamp)
    (isCanceled : Ticket → Bool) : q.promoted now stamp isCanceled = q := by
  have moved : q.waiting.filter (fun t => t.isDue now && !isCanceled t.ticket) = [] :=
    List.filter_eq_nil_iff.2 fun t ht => by simp [h t ht]
  have kept : q.waiting.filter (fun t => !t.isDue now) = q.waiting :=
    List.filter_eq_self.2 fun t ht => by simp [h t ht]
  have counted : q.waiting.countP (fun t => t.isDue now && t.highResolution) = 0 :=
    List.countP_eq_zero.2 fun t ht => by simp [h t ht]
  unfold promoted
  rw [moved, kept, counted, List.map_nil, List.append_nil, Nat.sub_zero]

/-! ### The order of posting -/

/-- No two waiting tasks have the same number, and the next one to be posted has a larger one. -/
structure Numbered (q : Queue) : Prop where
  nodup : (q.waiting.map (·.sequence)).Nodup
  lt_posted : ∀ t ∈ q.waiting, t.sequence < q.posted

theorem Sorted.ascending (s : q.Sorted) (n : q.Numbered) :
    q.waiting.Pairwise WaitingTask.Before := by
  have distinct : q.waiting.Pairwise fun t u => t.sequence ≠ u.sequence :=
    List.pairwise_map.1 n.nodup
  exact (s.and distinct).imp fun ⟨h, hne⟩ => WaitingTask.before_of_precedes h hne

theorem perm_insertWaiting (t : WaitingTask) (l : List WaitingTask) :
    (insertWaiting t l).Perm (t :: l) := by
  induction l with
  | nil => exact .refl _
  | cons u l ih =>
      unfold insertWaiting
      split
      · exact (ih.cons u).trans (.swap t u l)
      · exact .refl _

theorem sublist_insertWaiting (t : WaitingTask) (l : List WaitingTask) :
    l.Sublist (insertWaiting t l) := by
  induction l with
  | nil => exact List.nil_sublist _
  | cons u us ih =>
      unfold insertWaiting
      split_ifs
      · exact ih.cons_cons u
      · exact List.sublist_cons_self t _

theorem Numbered.postDelayed (n : q.Numbered) (runTime : Ticks) (leeway : Duration)
    (policy : Policy) (high : Bool) (ticket : Ticket) :
    (q.postDelayed runTime leeway policy high ticket).Numbered := by
  let t : WaitingTask := ⟨runTime, leeway, policy, high, q.posted, ticket⟩
  have perm : (q.postDelayed runTime leeway policy high ticket).waiting.Perm (t :: q.waiting) :=
    perm_insertWaiting t q.waiting
  refine ⟨(perm.map _).nodup_iff.2 (List.nodup_cons.2 ⟨fun h => ?_, n.nodup⟩), fun u hu => ?_⟩
  · obtain ⟨u, hu, e⟩ := List.mem_map.1 h
    exact absurd e (Nat.ne_of_lt (n.lt_posted u hu))
  · rcases List.mem_cons.1 (perm.mem_iff.1 hu) with rfl | hu
    · exact Nat.lt_succ_self _
    · exact Nat.lt_succ_of_lt (n.lt_posted u hu)

/-- Waiting tasks may be taken away. -/
theorem Numbered.sublist {q' : Queue} (n : q.Numbered) (sub : q'.waiting.Sublist q.waiting)
    (posted : q'.posted = q.posted) : q'.Numbered where
  nodup := n.nodup.sublist (sub.map _)
  lt_posted t ht := by
    rw [posted]
    exact n.lt_posted t (sub.subset ht)

end Queue

end Dispatch
