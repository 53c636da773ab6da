import Dispatch.Proofs.Scheduler.Readiness

/-!
# Where tasks come from

A task is in the immediate half of a queue only if it was posted to run at once, and is waiting or
in the delayed half only if it was posted with a delay (`Queue.Stems`).  A waiting task asks for a
precise timer if the delay is below the bound of the settings, which never change
(`Reachable.settings_eq`).  Operations move tasks between these stores in no other way
(`Reachable.stems_perform`).
-/

namespace Dispatch

/-- The tasks of the immediate half were posted to run at once, all others with a delay.  What is
known of the latter includes whether they ask for a precise timer. -/
structure Queue.Stems (tq : Queue) (atOnce : Ticket → Prop) (later : Ticket → Bool → Prop) :
    Prop where
  immediate : ∀ u ∈ tq.immediate, atOnce u.ticket
  delayed : ∀ u ∈ tq.delayed, ∃ high, later u.ticket high
  waiting : ∀ w ∈ tq.waiting, later w.ticket w.highResolution

theorem Queue.Stems.mono {tq : Queue} {atOnce atOnce' : Ticket → Prop}
    {later later' : Ticket → Bool → Prop} (s : tq.Stems atOnce later)
    (more : ∀ t, atOnce t → atOnce' t) (more' : ∀ t high, later t high → later' t high) :
    tq.Stems atOnce' later' where
  immediate u hu := more _ (s.immediate u hu)
  delayed u hu := (s.delayed u hu).imp fun _ => more' _ _
  waiting w hw := more' _ _ (s.waiting w hw)

namespace Scheduler

variable {settings : Settings} {k k' : Scheduler} {op : Operation} {q : QueueId} {tq tq' : Queue}

theorem Treats.stems {atOnce : Ticket → Prop} {later : Ticket → Bool → Prop}
    (tr : Treats k k' q op tq tq') (s : tq.Stems atOnce later)
    (post : ∀ t, op = .post q t → atOnce t)
    (postDelayed : ∀ delay leeway policy now t, op = .postDelayed q delay leeway policy now t →
      later t (decide (delay < k.settings.highResolutionBelow))) : tq'.Stems atOnce later := by
  cases tr with
  | leave => exact s
  | setLevel | setEnabled => exact ⟨s.immediate, s.delayed, s.waiting⟩
  | post t =>
      refine ⟨fun u hu => ?_, s.delayed, s.waiting⟩
      rcases List.mem_append.1 hu with hu | hu
      · exact s.immediate u hu
      · rw [List.mem_singleton.1 hu]
        exact post t rfl
  | postDelayed delay leeway policy now t high _ precise =>
      refine ⟨s.immediate, s.delayed, fun w hw => ?_⟩
      rcases Queue.mem_insertWaiting.1 hw with rfl | hw
      · exact precise ▸ postDelayed delay leeway policy now t rfl
      · exact s.waiting w hw
  | promote =>
      refine ⟨s.immediate, fun u hu => ?_, fun w hw => s.waiting w (List.mem_of_mem_filter hw)⟩
      rcases List.mem_append.1 hu with hu | hu
      · exact s.delayed u hu
      · obtain ⟨w, hw, rfl⟩ := List.mem_map.1 hu
        exact ⟨_, s.waiting w (List.mem_of_mem_filter hw)⟩
  | sweep => exact ⟨s.immediate, s.delayed, fun w hw => s.waiting w (List.mem_of_mem_drop hw)⟩
  | @take _ _ h t rest front =>
      cases h with
      | immediate =>
          refine ⟨fun u hu => s.immediate u ?_, s.delayed, s.waiting⟩
          rw [show tq.immediate = t :: rest from front]
          exact List.mem_cons_of_mem t hu
      | delayed =>
          refine ⟨s.immediate, fun u hu => s.delayed u ?_, s.waiting⟩
          rw [show tq.delayed = t :: rest from front]
          exact List.mem_cons_of_mem t hu

theorem Outcome.settings_eq (o : Outcome k op k') : k'.settings = k.settings := by
  cases o with
  | remove => exact withAgenda_frame (f := Scheduler.settings) (fun _ _ _ _ => rfl) _ _ _ _
  | enable | disable | postDelayed =>
      exact withQueue_frame (f := Scheduler.settings) (fun _ _ _ _ _ => rfl) _ _ _ _
  | promote | sweep =>
      exact afterPasses_frame (f := Scheduler.settings) (fun _ _ _ _ _ _ => rfl) _ _ _
  | _ => rfl

/-- The settings never change. -/
theorem Reachable.settings_eq (r : Reachable settings k) : k.settings = settings :=
  r.induct_perform (P := fun k => k.settings = settings) rfl fun _ op r same =>
    (r.mirrored.outcome op).settings_eq.trans same

/-- Operations bring tasks into queues by posting them, and in no other way. -/
theorem Reachable.stems_perform (r : Reachable settings k) {atOnce : QueueId → Ticket → Prop}
    {later : QueueId → Ticket → Bool → Prop}
    (s : ∀ q tq, k.queues.get? q = some tq → tq.Stems (atOnce q) (later q)) (op : Operation)
    (post : ∀ q t tq, op = .post q t → k.queues.get? q = some tq → atOnce q t)
    (postDelayed : ∀ q delay leeway policy now t tq,
      op = .postDelayed q delay leeway policy now t → k.queues.get? q = some tq →
        later q t (decide (delay < settings.highResolutionBelow))) :
    ∀ q tq, (k.perform op).queues.get? q = some tq → tq.Stems (atOnce q) (later q) := by
  intro q tq' hq
  rcases r.treats hq with ⟨name, waking, -, rfl⟩ | ⟨tq, htq, tr⟩
  · exact ⟨nofun, nofun, nofun⟩
  · refine tr.stems (s q tq htq) (fun t e => post q t tq e htq)
      fun delay leeway policy now t e => ?_
    rw [r.settings_eq]
    exact postDelayed q delay leeway policy now t tq e htq

end Scheduler

end Dispatch
