import Dispatch.Proofs.Scheduler.Effects

/-!
# Promotion

A promotion moves exactly what is due (`promote_moves_due`): in every enabled queue the due tasks go
behind the delayed ones, in the order in which they may run and were posted, under one stamp that is
larger than every stamp issued before (`lt_of_mem_issued`).
-/

namespace Dispatch.Scheduler

variable {settings : Settings} {k : Scheduler}

/-- The stamps that operations issue: one that changes the source has issued the next stamp. -/
def issued (k : Scheduler) : List Operation → List Stamp
  | [] => []
  | op :: ops =>
    (if (k.perform op).stamps = k.stamps then [] else [k.stamps.issue.1]) ++
      (k.perform op).issued ops

/-- Stamps are issued in ascending order. -/
theorem Reachable.next_le_run (r : Reachable settings k) (ops : List Operation) :
    k.stamps.next ≤ (k.run ops).stamps.next := by
  induction ops generalizing k with
  | nil => exact Nat.le_refl _
  | cons op ops ih =>
      refine Nat.le_trans ?_ (ih (r.perform op))
      rcases r.stamps_perform op with h | h
      · exact Nat.le_of_eq (congrArg StampSource.next h.symm)
      · rw [h]
        exact Nat.le_succ _

theorem Reachable.lt_of_mem_issued (r : Reachable settings k) {ops : List Operation} {x : Stamp}
    (h : x ∈ k.issued ops) : x < (k.run ops).stamps.issue.1 := by
  induction ops generalizing k with
  | nil => exact absurd h List.not_mem_nil
  | cons op ops ih =>
      rcases List.mem_append.1 h with h | h
      · rcases r.stamps_perform op with e | e
        · rw [if_pos e] at h
          exact absurd h List.not_mem_nil
        · have next := (r.perform op).next_le_run ops
          rw [e] at next
          split_ifs at h
          · exact absurd h List.not_mem_nil
          · rw [List.mem_singleton.1 h]
            exact next
      · exact ih (r.perform op) h

/-- After any operations, a promotion wakes the enabled queues in which a task is due, those that
may arm the timer first and each once, and both passes end by themselves without putting a wake-up
aside; if no task is due, it does nothing.  It answers the due tasks of these queues that have been
canceled.  The other due tasks go behind the delayed ones of their queue, in the order in which they
waited, that is, in which they may run and were posted.  They share one stamp, which is larger than
every stamp that was issued before.  Nothing else about a queue changes, and nothing at all about a
disabled one. -/
theorem promote_moves_due (settings : Settings) (ops : List Operation) (now : Ticks)
    (isCanceled : Ticket → Bool) :
    let k := (ofSettings settings).run ops
    let stamp := k.stamps.issue.1
    (∃ qs : List QueueId, qs.Nodup ∧ (∀ q, q ∈ qs ↔ k.Due now q) ∧
        (k.promote now isCanceled).1 = (qs.flatMap fun q =>
          (k.queues.get? q).elim [] fun tq => tq.dueCanceled now isCanceled) ∧
        if k.hasDueWakeUp now then
          ∃ ds ds' p p', qs = (ds ++ ds').map Prod.fst ∧
            k.wakingAgenda.Promotes (owner isCanceled) now stamp k.stores ds p ∧
            k.nonWakingAgenda.Promotes (owner isCanceled) now stamp p.owner ds' p' ∧
            p.deferred = [] ∧ p'.deferred = [] ∧
            k.promote now isCanceled = (p'.owner.canceled,
              ({ k with stamps := k.stamps.issue.2 } : Scheduler).afterPasses p p')
        else qs = [] ∧ k.promote now isCanceled = ([], k)) ∧
      (∀ q, (k.promote now isCanceled).2.queues.get? q = (k.queues.get? q).map fun tq =>
        if tq.enabled then tq.promoted now stamp isCanceled else tq) ∧
      (∀ q tq, k.queues.get? q = some tq → tq.waiting.Pairwise WaitingTask.Before ∧
        ∀ t ∈ tq.waiting, t.sequence < tq.posted) ∧
      ∀ x ∈ (ofSettings settings).issued ops, x < stamp := by
  intro k stamp
  have r : Reachable settings k := Reachable.start.run ops
  have w := r.scheduled
  refine ⟨?_, w.get?_promote now isCanceled, fun q tq hq => ?_,
    fun x hx => Reachable.start.lt_of_mem_issued hx⟩
  · by_cases due : k.hasDueWakeUp now = true
    · obtain ⟨ds, ds', p, p', first, second, apart, apart', promote_eq, owner_eq, nodup, mem_iff⟩ :=
        w.exists_promotes due isCanceled
      refine ⟨_, nodup, mem_iff, ?_, ?_⟩
      · rw [promote_eq, owner_eq]
        exact Stores.canceled_wakeAll (s := k.stores) w.sorted nodup
      · rw [if_pos due]
        exact ⟨ds, ds', p, p', rfl, first, second, apart, apart', promote_eq⟩
    · have promote_eq : k.promote now isCanceled = ([], k) := if_neg due
      refine ⟨[], List.nodup_nil, fun q => ?_, by rw [promote_eq]; rfl, ?_⟩
      · exact ⟨fun h => absurd h List.not_mem_nil,
          fun hd => absurd (w.hasDueWakeUp_iff.2 ⟨q, hd⟩) due⟩
      · rw [if_neg due]
        exact ⟨rfl, promote_eq⟩
  · have n := r.numbered q tq hq
    exact ⟨(w.sorted q tq hq).ascending n, n.lt_posted⟩

end Dispatch.Scheduler
