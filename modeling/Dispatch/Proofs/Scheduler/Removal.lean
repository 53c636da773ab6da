import Dispatch.Proofs.Scheduler.Names

/-!
# Queues that are gone

A queue leaves entries in the ready sets and in the agendas only while it is enabled and holds tasks
(`Reachable.unlisted`), and a name stands for a queue only while that is there (`Reachable.named`).
So once a queue is removed, no part of the scheduler knows of it (`Forgotten`), and since its id is
spent, none ever will (`Reachable.forgotten`).  Whatever is asked of it is refused (`Refuses`).  A
queue that is made later has another id, also if it gets the same slot, and nothing of the former
occupant (`Fresh`).
-/

namespace Dispatch

/-- Neither the entries nor the table of positions name the key. -/
def KeyedHeap.Lacks {κ V : Type} [DecidableEq κ] (h : KeyedHeap κ V) (k : κ) : Prop :=
  h.positions.find? k = none ∧ ∀ v, (k, v) ∉ h.entries

theorem KeyedHeap.Tracked.lacks {κ V : Type} [DecidableEq κ] {h : KeyedHeap κ V} (t : h.Tracked)
    {k : κ} (hk : h.get? k = none) : h.Lacks k := by
  have absent : ∀ v, (k, v) ∉ h.entries := fun v mem => by
    rw [t.get?_eq_some_iff.2 mem] at hk
    cases hk
  refine ⟨Option.eq_none_iff_forall_ne_some.2 fun i hi => ?_, absent⟩
  obtain ⟨v, hv⟩ := (t k i).1 hi
  exact absent v (Array.mem_of_getElem? hv)

namespace Scheduler

variable {settings : Settings} {k k' : Scheduler} {op : Operation} {q j : QueueId} {tq tq' : Queue}
  {ts : List Ticket} {now : Ticks}

/-! ### Ready sets and agendas -/

/-- No ready set and no agenda has an entry for the queue. -/
structure Unlisted (k : Scheduler) (q : QueueId) : Prop where
  levels : ∀ h, (k.selector.sets h).levelOf? q = none
  members : ∀ h l, ((k.selector.sets h).sets.get l).Lacks q
  wakeUps : ∀ waking, (k.agenda waking).entries.Lacks q

/-- What is not there, disabled or empty is listed nowhere. -/
theorem Reachable.unlisted (r : Reachable settings k)
    (h : ∀ tq, k.queues.get? q = some tq → tq.enabled = false ∨ tq.tickets = []) :
    k.Unlisted q := by
  have m := r.mirrored
  have w := r.scheduled
  have none_listed : ∀ h, (k.selector.sets h).member? q = none := by
    intro g
    rw [m.wf.mirrors, m.records]
    cases hq : k.queues.get? q with
    | none => rfl
    | some tq =>
        show tq.enrolment.listed g = none
        rcases h tq hq with disabled | empty
        · exact if_neg (ne_true_of_eq_false disabled)
        · unfold Queue.tickets at empty
          simp only [List.append_eq_nil_iff, List.map_eq_nil_iff] at empty
          cases g <;> simp [Enrolment.listed, Queue.enrolment, Queue.fronts, Fronts.get,
            Queue.front, Queue.ready, empty]
  have none_wanted : ∀ waking, (k.agenda waking).get? q = none := by
    intro waking
    cases hq : k.queues.get? q with
    | none => exact w.get?_agenda_eq_none hq waking
    | some tq =>
        have idle : tq.nextWakeUp = none := by
          rcases h tq hq with disabled | empty
          · exact if_neg (ne_true_of_eq_false disabled)
          · unfold Queue.tickets at empty
            simp only [List.append_eq_nil_iff, List.map_eq_nil_iff] at empty
            simp [Queue.nextWakeUp, empty]
        rw [w.get?_agenda hq, idle, ite_self]
  have sets : ∀ h, (k.selector.sets h).WF := m.wf.sound.sets
  refine ⟨fun h => ?_, fun h l => ?_, fun waking => ?_⟩
  · rw [(sets h).levelOf?_eq, none_listed]
    rfl
  · refine ((sets h).heap l).tracked.lacks (Option.eq_none_iff_forall_ne_some.2 fun f hf => ?_)
    have listed := (sets h).member?_eq_some_iff.2 hf
    rw [none_listed] at listed
    cases listed
  · exact (w.holds waking).wf.tracked.lacks (none_wanted waking)

/-! ### Removed queues -/

/-- The id of the queue is spent, and no part of the scheduler knows of the queue. -/
structure Forgotten (k : Scheduler) (q : QueueId) : Prop extends Unlisted k q where
  spent : k.queues.Spent q
  queue : k.queues.get? q = none
  record : k.selector.queues.find? q = none
  names : ∀ name, k.names.find? name ≠ some q

theorem Reachable.forgotten (r : Reachable settings k) (spent : k.queues.Spent q) :
    k.Forgotten q := by
  have gone : k.queues.get? q = none := spent.get?_eq_none
  refine ⟨r.unlisted fun tq hq => ?_, spent, gone, ?_, fun name hn => ?_⟩
  · rw [gone] at hq
    cases hq
  · rw [r.mirrored.records, gone]
    rfl
  · obtain ⟨tq, hq, -⟩ := r.named name q hn
    rw [gone] at hq
    cases hq

/-- Everything that is asked of the queue is refused, because the queue is unknown. -/
structure Refuses (k : Scheduler) (q : QueueId) : Prop where
  levelOf : k.levelOf q = .error (.unknownQueue q)
  isEnabled : k.isEnabled q = .error (.unknownQueue q)
  pendingCount : k.pendingCount q = .error (.unknownQueue q)
  remove : ∀ now, k.remove q now = .error (.unknownQueue q)
  setLevel : ∀ l, k.setLevel q l = .error (.unknownQueue q)
  setEnabled : ∀ on now, k.setEnabled q on now = .error (.unknownQueue q)
  post : ∀ t, k.post q t = .error (.unknownQueue q)
  postDelayed : ∀ delay leeway policy now t,
    k.postDelayed q delay leeway policy now t = .error (.unknownQueue q)

theorem refuses (gone : k.queues.get? q = none) : k.Refuses q := by
  have unknown {α : Type} (f : Queue → α) : (k.queue q).map f = .error (.unknownQueue q) := by
    unfold queue
    rw [gone]
    rfl
  exact ⟨unknown _, unknown _, unknown _, fun _ => unknown _, fun _ => unknown _,
    fun _ _ => unknown _, fun _ => unknown _, fun _ _ _ _ _ => unknown _⟩

/-! ### New queues -/

/-- The queue is as a new one is: enabled, at the standard level, empty and listed nowhere. -/
structure Fresh (k : Scheduler) (q : QueueId) : Prop extends Unlisted k q where
  isEnabled : k.isEnabled q = .ok true
  levelOf : k.levelOf q = .ok .normal
  pendingCount : k.pendingCount q = .ok 0
  record : k.selector.queues.find? q = some ⟨.normal, true, ⟨none, none⟩⟩

theorem Reachable.fresh (r : Reachable settings k) (name : String) (waking : Bool) :
    (k.create name waking).2.Fresh (k.create name waking).1 := by
  let tq : Queue := { name := name, waking := waking }
  have r' := r.create name waking
  have hq : (k.create name waking).2.queues.get? (k.create name waking).1 = some tq :=
    (k.queues.get?_insert tq _).trans (if_pos rfl)
  have found : (k.create name waking).2.queue (k.create name waking).1 = .ok tq := by
    unfold queue
    rw [hq]
  refine ⟨r'.unlisted fun tq' hq' => ?_, ?_, ?_, ?_, ?_⟩
  · obtain rfl : tq = tq' := Option.some.inj (hq.symm.trans hq')
    exact Or.inr rfl
  · unfold Scheduler.isEnabled
    rw [found]
    rfl
  · unfold Scheduler.levelOf
    rw [found]
    rfl
  · unfold Scheduler.pendingCount
    rw [found]
    rfl
  · rw [r'.mirrored.records, hq]
    rfl

end Scheduler

end Dispatch
