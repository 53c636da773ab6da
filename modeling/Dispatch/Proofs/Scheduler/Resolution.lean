import Dispatch.Proofs.Scheduler.Effects
import Dispatch.Proofs.Wake.Resolution

/-!
# When high resolution is needed

A queue counts its waiting tasks that ask for a precise timer (`Queue.Counted`), and each agenda
counts the entries that need high resolution.  Both counts are exact in every reachable state
(`Reachable.counted`, `Reachable.counted_agenda`), so a scheduler says that it needs high resolution
exactly if such a task waits in an enabled queue (`Reachable.hasHighResolution_iff`).
-/

namespace Dispatch

/-! ### One queue -/

namespace Queue

variable {q : Queue}

/-- The count of the waiting tasks that ask for a precise timer is exact. -/
def Counted (q : Queue) : Prop := q.highResolution = q.waiting.countP (·.highResolution)

theorem Counted.postDelayed (c : q.Counted) (runTime : Ticks) (leeway : Duration) (policy : Policy)
    (high : Bool) (ticket : Ticket) :
    (q.postDelayed runTime leeway policy high ticket).Counted := by
  unfold Counted at c ⊢
  unfold Queue.postDelayed
  dsimp only
  rw [(perm_insertWaiting _ _).countP_eq, List.countP_cons, c]

theorem Counted.dropWaiting (c : q.Counted) (n : Nat) : (q.dropWaiting n).Counted := by
  unfold Counted at c ⊢
  unfold Queue.dropWaiting
  dsimp only
  have split : (q.waiting.take n ++ q.waiting.drop n).countP (·.highResolution) =
      (q.waiting.take n).countP (·.highResolution) + (q.waiting.drop n).countP (·.highResolution) :=
    List.countP_append
  rw [List.take_append_drop] at split
  omega

theorem Counted.promoted (c : q.Counted) (now : Ticks) (stamp : Stamp)
    (isCanceled : Ticket → Bool) : (q.promoted now stamp isCanceled).Counted := by
  unfold Counted at c ⊢
  unfold Queue.promoted
  dsimp only
  have split := List.countP_eq_countP_filter_add q.waiting (·.highResolution) (·.isDue now)
  rw [List.countP_filter, List.countP_filter] at split
  rw [List.countP_filter, c, split]
  simp only [Bool.and_comm, Nat.add_sub_cancel_left]

/-- A queue asks for high resolution exactly if one of its waiting tasks does. -/
theorem Counted.resolution_nextWakeUp_iff (c : q.Counted) :
    (∃ w, q.nextWakeUp = some w ∧ w.resolution = .high) ↔
      q.enabled = true ∧ ∃ t ∈ q.waiting, t.highResolution = true := by
  have counted : 0 < q.highResolution ↔ ∃ t ∈ q.waiting, t.highResolution = true := by
    rw [c, List.countP_pos_iff]
  rw [← counted]
  unfold nextWakeUp
  constructor
  · rintro ⟨w, hw, high⟩
    by_cases enabled : q.enabled = true
    · rw [if_pos enabled] at hw
      obtain ⟨t, -, rfl⟩ := Option.map_eq_some_iff.1 hw
      refine ⟨enabled, ?_⟩
      by_contra none_asks
      dsimp only at high
      rw [if_neg none_asks] at high
      cases high
    · rw [if_neg enabled] at hw
      cases hw
  · rintro ⟨enabled, asks⟩
    rw [if_pos enabled]
    obtain ⟨t, mem, -⟩ := counted.1 asks
    obtain ⟨u, us, e⟩ := List.exists_cons_of_ne_nil (List.ne_nil_of_mem mem)
    rw [e]
    exact ⟨_, rfl, if_pos asks⟩

end Queue

namespace Scheduler

variable {settings : Settings} {k k' : Scheduler} {op : Operation} {q : QueueId} {tq tq' : Queue}

theorem Treats.counted (t : Treats k k' q op tq tq') (c : tq.Counted) : tq'.Counted := by
  cases t with
  | leave | setLevel | setEnabled | post => exact c
  | postDelayed => exact c.postDelayed _ _ _ _ _
  | promote => exact c.promoted _ _ _
  | sweep => exact c.dropWaiting _
  | @take _ _ h => cases h <;> exact c

/-- Every queue counts the waiting tasks that ask for a precise timer exactly. -/
theorem Reachable.counted (r : Reachable settings k) :
    ∀ q tq, k.queues.get? q = some tq → tq.Counted := by
  refine r.induct_perform (P := fun k => ∀ q tq, k.queues.get? q = some tq → tq.Counted)
    (fun q tq hq => ?_) fun k op r ih q tq' hq => ?_
  · rw [get?_ofSettings] at hq
    cases hq
  · rcases r.treats hq with ⟨name, waking, -, rfl⟩ | ⟨tq, htq, t⟩
    · rfl
    · exact t.counted (ih q tq htq)

/-! ### The agendas -/

/-- Operations enter wake-ups, take entries out and make passes, so what these keep of an agenda,
all operations keep. -/
theorem Outcome.agenda {P : Agenda → Prop} (o : Outcome k op k')
    (set : ∀ a q now x, P a → P (a.set q now x).2)
    (unregister : ∀ a q now, P a → P (a.unregister q now).2)
    (promote : ∀ a now stamp isCanceled rounds s, P a →
      P (a.promote (owner isCanceled) now stamp rounds s).agenda)
    (trim : ∀ a now isCanceled rounds s, P a → P (a.trim (owner isCanceled) now rounds s).agenda)
    (h : ∀ b, P (k.agenda b)) (b : Bool) : P (k'.agenda b) := by
  cases o with
  | same | create | setLevel | post | take | takeWorkRequest => exact h b
  | @remove _ tq =>
      rw [agenda_withAgenda]
      by_cases own : b = tq.waking
      · rw [if_pos own]
        exact unregister _ _ _ (h _)
      · rw [if_neg own]
        exact h b
  | enable | disable | postDelayed =>
      rw [agenda_withQueue]
      split_ifs
      · exact set _ _ _ _ (h b)
      · exact h b
  | promote _ first second =>
      rw [agenda_afterPasses, first, second]
      cases b with
      | true => exact promote _ _ _ _ _ _ (h true)
      | false => exact promote _ _ _ _ _ _ (h false)
  | sweep first second =>
      rw [agenda_afterPasses, first, second]
      cases b with
      | true => exact trim _ _ _ _ _ (h true)
      | false => exact trim _ _ _ _ _ (h false)

/-- Both agendas count the entries that need high resolution exactly. -/
theorem Reachable.counted_agenda (r : Reachable settings k) (b : Bool) :
    (k.agenda b).Counted := by
  refine r.induct_perform (P := fun k => ∀ b, (k.agenda b).Counted) (fun b => ?_)
    (fun k op r h => ?_) b
  · cases b <;> exact Agenda.counted_empty _
  · exact (r.mirrored.outcome op).agenda (fun a q now x c => c.set q now x)
      (fun a q now c => c.unregister q now)
      (fun a now stamp isCanceled rounds s c => c.promote _ now stamp rounds s)
      (fun a now isCanceled rounds s c => c.trim _ now rounds s) h

/-- High resolution is needed exactly if a task that asks for a precise timer waits in an enabled
queue. -/
theorem Reachable.hasHighResolution_iff (r : Reachable settings k) :
    k.hasHighResolution = true ↔ ∃ q tq, k.queues.get? q = some tq ∧ tq.enabled = true ∧
      ∃ t ∈ tq.waiting, t.highResolution = true := by
  have agenda (b : Bool) : (k.agenda b).hasHighResolution = true ↔
      ∃ q tq, k.queues.get? q = some tq ∧ tq.waking = b ∧ tq.enabled = true ∧
        ∃ t ∈ tq.waiting, t.highResolution = true := by
    have holds := r.scheduled.holds b
    rw [(r.counted_agenda b).hasHighResolution_iff]
    constructor
    · rintro ⟨q, w, hw, high⟩
      obtain ⟨tq, hq, kind⟩ := holds.exists_queue hw
      rw [holds.entries, wanted_of_get? hq, if_pos kind] at hw
      exact ⟨q, tq, hq, kind, (r.counted q tq hq).resolution_nextWakeUp_iff.1 ⟨w, hw, high⟩⟩
    · rintro ⟨q, tq, hq, kind, asks⟩
      obtain ⟨w, hw, high⟩ := (r.counted q tq hq).resolution_nextWakeUp_iff.2 asks
      exact ⟨q, w, by rw [holds.entries, wanted_of_get? hq, if_pos kind, hw], high⟩
  show (_ || _) = true ↔ _
  rw [Bool.or_eq_true, show k.wakingAgenda = k.agenda true from rfl,
    show k.nonWakingAgenda = k.agenda false from rfl, agenda, agenda]
  constructor
  · rintro (⟨q, tq, hq, -, asks⟩ | ⟨q, tq, hq, -, asks⟩) <;> exact ⟨q, tq, hq, asks⟩
  · rintro ⟨q, tq, hq, asks⟩
    cases kind : tq.waking with
    | true => exact Or.inl ⟨q, tq, hq, kind, asks⟩
    | false => exact Or.inr ⟨q, tq, hq, kind, asks⟩

end Scheduler

end Dispatch
