import Dispatch.Queue.Basic

/-!
# The waiting tasks of a queue

Waiting tasks stay in their order (`Sorted`), so the wake-up that a queue wants is that of a task
which may run first (`Sorted.earliest_nextWakeUp`).  After a promotion no waiting task is due, and
neither is the wake-up (`not_isReady_of_promote`).
-/

namespace Dispatch

namespace WaitingTask

variable {t u v : WaitingTask}

theorem precedes_iff : t.precedes u = true ↔
    t.earliest.nanos < u.earliest.nanos ∨ t.earliest = u.earliest ∧ t.sequence ≤ u.sequence := by
  simp [precedes, Ticks.lt_iff]

theorem earliest_le_of_precedes (h : t.precedes u = true) : t.earliest ≤ u.earliest := by
  rw [precedes_iff] at h
  rw [Ticks.le_iff]
  rcases h with h | ⟨h, -⟩
  · omega
  · exact Nat.le_of_eq (congrArg Ticks.nanos h)

theorem precedes_trans (h : t.precedes u = true) (k : u.precedes v = true) :
    t.precedes v = true := by
  rw [precedes_iff] at h k ⊢
  rcases h with h | ⟨h, hs⟩
  · rcases k with k | ⟨k, -⟩
    · omega
    · exact Or.inl (k ▸ h)
  · rcases k with k | ⟨k, ks⟩
    · exact Or.inl (h ▸ k)
    · exact Or.inr ⟨h.trans k, by omega⟩

theorem precedes_of_not_precedes (h : ¬ u.precedes t = true) : t.precedes u = true := by
  rw [precedes_iff] at h ⊢
  by_cases he : t.earliest = u.earliest
  · simp only [he, true_and, not_or] at h ⊢
    omega
  · have : t.earliest.nanos ≠ u.earliest.nanos := fun e => he (Ticks.eq_of_nanos e)
    omega

end WaitingTask

namespace Queue

variable {q : Queue} {w : WakeUp}

/-- The waiting tasks come in their order. -/
def Sorted (q : Queue) : Prop := q.waiting.Pairwise fun t u => t.precedes u = true

theorem mem_insertWaiting {t u : WaitingTask} {l : List WaitingTask} :
    u ∈ insertWaiting t l ↔ u = t ∨ u ∈ l := by
  induction l with
  | nil => simp [insertWaiting]
  | cons v l ih =>
      unfold insertWaiting
      split
      · rw [List.mem_cons, ih, List.mem_cons]
        exact or_left_comm
      · exact List.mem_cons

theorem pairwise_insertWaiting (t : WaitingTask) {l : List WaitingTask}
    (h : l.Pairwise fun t u => t.precedes u = true) :
    (insertWaiting t l).Pairwise fun t u => t.precedes u = true := by
  induction l with
  | nil => simp [insertWaiting]
  | cons v l ih =>
      obtain ⟨hv, hl⟩ := List.pairwise_cons.1 h
      unfold insertWaiting
      split
      · rename_i hvt
        refine List.pairwise_cons.2 ⟨fun u hu => ?_, ih hl⟩
        rcases mem_insertWaiting.1 hu with rfl | hu
        · exact hvt
        · exact hv u hu
      · rename_i hvt
        have htv := WaitingTask.precedes_of_not_precedes hvt
        refine List.pairwise_cons.2 ⟨fun u hu => ?_, h⟩
        rcases List.mem_cons.1 hu with rfl | hu
        · exact htv
        · exact WaitingTask.precedes_trans htv (hv u hu)

theorem Sorted.postDelayed (s : q.Sorted) (runTime : Ticks) (leeway : Duration) (policy : Policy)
    (high : Bool) (ticket : Ticket) : (q.postDelayed runTime leeway policy high ticket).Sorted :=
  pairwise_insertWaiting _ s

theorem Sorted.dropWaiting (s : q.Sorted) (n : Nat) : (q.dropWaiting n).Sorted :=
  List.Pairwise.sublist (List.drop_sublist n q.waiting) s

theorem Sorted.promote (s : q.Sorted) (now : Ticks) (stamp : Stamp) (isCanceled : Ticket → Bool) :
    (q.promote now stamp isCanceled).2.Sorted :=
  s.dropWaiting _

theorem Sorted.trim (s : q.Sorted) (isCanceled : Ticket → Bool) : (q.trim isCanceled).2.Sorted :=
  s.dropWaiting _

/-! ### The wake-up that a queue wants -/

theorem nextWakeUp_eq_none_iff : q.nextWakeUp = none ↔ (q.enabled = true → q.waiting = []) := by
  unfold nextWakeUp
  split
  · rename_i h
    simp [h]
  · rename_i h
    simp [h]

theorem head?_of_nextWakeUp (h : q.nextWakeUp = some w) :
    q.enabled = true ∧ ∃ t, q.waiting.head? = some t ∧ t.earliest = w.earliest := by
  unfold nextWakeUp at h
  split at h
  · rename_i he
    obtain ⟨t, ht, rfl⟩ := Option.map_eq_some_iff.1 h
    exact ⟨he, t, ht, rfl⟩
  · cases h

/-- The window of the wake-up begins with that of the first waiting task. -/
theorem Sorted.earliest_nextWakeUp (s : q.Sorted) (h : q.nextWakeUp = some w) :
    (∃ t ∈ q.waiting, t.earliest = w.earliest) ∧ ∀ t ∈ q.waiting, w.earliest ≤ t.earliest := by
  obtain ⟨-, t, ht, he⟩ := head?_of_nextWakeUp h
  refine ⟨⟨t, List.mem_of_head? ht, he⟩, fun u hu => ?_⟩
  unfold Sorted at s
  rcases hw : q.waiting with _ | ⟨v, l⟩
  · rw [hw] at ht
    cases ht
  · rw [hw] at ht s hu
    cases ht
    rw [← he]
    rcases List.mem_cons.1 hu with rfl | hu
    · exact Nat.le_refl _
    · exact WaitingTask.earliest_le_of_precedes ((List.pairwise_cons.1 s).1 u hu)

theorem waiting_promote (q : Queue) (now : Ticks) (stamp : Stamp) (isCanceled : Ticket → Bool) :
    (q.promote now stamp isCanceled).2.waiting = q.waiting.dropWhile (·.isDue now) := by
  have e : (q.promote now stamp isCanceled).2.waiting =
      q.waiting.drop (q.waiting.takeWhile (·.isDue now)).length := rfl
  rw [e]
  induction q.waiting with
  | nil => rfl
  | cons t l ih => by_cases h : t.isDue now = true <;> simp [h, ih]

/-- No queue is due when its due tasks have been promoted. -/
theorem not_isReady_of_promote {now : Ticks} {stamp : Stamp} {isCanceled : Ticket → Bool}
    (h : (q.promote now stamp isCanceled).2.nextWakeUp = some w) : w.isReady now = false := by
  obtain ⟨-, t, ht, he⟩ := head?_of_nextWakeUp h
  rw [waiting_promote] at ht
  have hd : t.isDue now = false := by
    have := List.head?_dropWhile_not (fun t : WaitingTask => t.isDue now) q.waiting
    rwa [ht] at this
  unfold WakeUp.isReady
  rw [← he]
  exact hd

end Queue

end Dispatch
