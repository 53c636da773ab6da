import Dispatch.Proofs.Scheduler.Run
import Mathlib.Tactic.SplitIfs

/-!
# What operations do

`Outcome` says once for each operation what it makes of a scheduler: which queue it inserts, erases
or replaces, what it tells the selector and the agendas, and what it has found on the way.  There is
a lemma for each operation (`outcome_setLevel`, `outcome_promote` and so on), and what all
operations keep is proved by going through the list, as `Outcome.queues` does for the queues and
`Outcome.agenda` for the agendas.
-/

namespace Dispatch.Scheduler

variable {k k' : Scheduler} {op : Operation} {q : QueueId} {tq : Queue} {now : Ticks}
  {isCanceled : Ticket → Bool}

/-! ### What replacing queues and agendas leaves alone -/

section Frame

variable {α : Type} {f : Scheduler → α}

/-- What reads neither the agendas nor the timer. -/
theorem withAgenda_frame (ignores : ∀ (k : Scheduler) w n t,
      f { k with wakingAgenda := w, nonWakingAgenda := n, timer := t } = f k)
    (k : Scheduler) (waking : Bool) (ns : List Notice) (a : Agenda) :
    f (k.withAgenda waking ns a) = f k := by
  cases waking
  · exact ignores k k.wakingAgenda a _
  · exact ignores k a k.nonWakingAgenda _

/-- What reads neither the queues nor the agendas and the timer. -/
theorem withQueue_frame (ignores : ∀ (k : Scheduler) qs w n t,
      f { k with queues := qs, wakingAgenda := w, nonWakingAgenda := n, timer := t } = f k)
    (k : Scheduler) (q : QueueId) (tq : Queue) (now : Ticks) :
    f (k.withQueue q tq now) = f k :=
  (withAgenda_frame (fun k w n t => ignores k k.queues w n t) _ _ _ _).trans
    (ignores k (k.queues.set q tq) k.wakingAgenda k.nonWakingAgenda k.timer)

/-- What reads none of the things that passes work on. -/
theorem afterPasses_frame (ignores : ∀ (k : Scheduler) qs s w n t,
      f { k with
        queues := qs, selector := s, wakingAgenda := w, nonWakingAgenda := n, timer := t } = f k)
    (k : Scheduler) (p p' : Agenda.Pass Stores) : f (k.afterPasses p p') = f k := by
  have agendas (k : Scheduler) (waking : Bool) (ns : List Notice) (a : Agenda) :
      f (k.withAgenda waking ns a) = f k :=
    withAgenda_frame (fun k w n t => ignores k k.queues k.selector w n t) k waking ns a
  unfold afterPasses
  rw [agendas, agendas]
  exact ignores k p'.owner.queues p'.owner.selector k.wakingAgenda k.nonWakingAgenda k.timer

end Frame

@[simp] theorem queues_withAgenda (k : Scheduler) (waking : Bool) (ns : List Notice) (a : Agenda) :
    (k.withAgenda waking ns a).queues = k.queues :=
  withAgenda_frame (f := Scheduler.queues) (fun _ _ _ _ => rfl) k waking ns a

@[simp] theorem selector_withAgenda (k : Scheduler) (waking : Bool) (ns : List Notice)
    (a : Agenda) : (k.withAgenda waking ns a).selector = k.selector :=
  withAgenda_frame (f := Scheduler.selector) (fun _ _ _ _ => rfl) k waking ns a

theorem agenda_withAgenda (k : Scheduler) (waking : Bool) (ns : List Notice) (a : Agenda)
    (b : Bool) : (k.withAgenda waking ns a).agenda b = if b = waking then a else k.agenda b := by
  cases waking <;> cases b <;> rfl

@[simp] theorem queues_withQueue (k : Scheduler) (q : QueueId) (tq : Queue) (now : Ticks) :
    (k.withQueue q tq now).queues = k.queues.set q tq :=
  queues_withAgenda _ _ _ _

@[simp] theorem selector_withQueue (k : Scheduler) (q : QueueId) (tq : Queue) (now : Ticks) :
    (k.withQueue q tq now).selector = k.selector :=
  selector_withAgenda _ _ _ _

theorem agenda_withQueue (k : Scheduler) (q : QueueId) (tq : Queue) (now : Ticks) (b : Bool) :
    (k.withQueue q tq now).agenda b =
      if b = tq.waking then ((k.agenda b).set q now tq.nextWakeUp).2 else k.agenda b := by
  refine (agenda_withAgenda _ _ _ _ _).trans ?_
  split_ifs with same
  · subst same
    rfl
  · rfl

@[simp] theorem queues_afterPasses (k : Scheduler) (p p' : Agenda.Pass Stores) :
    (k.afterPasses p p').queues = p'.owner.queues := by
  unfold afterPasses
  rw [queues_withAgenda, queues_withAgenda]

@[simp] theorem selector_afterPasses (k : Scheduler) (p p' : Agenda.Pass Stores) :
    (k.afterPasses p p').selector = p'.owner.selector := by
  unfold afterPasses
  rw [selector_withAgenda, selector_withAgenda]

theorem agenda_afterPasses (k : Scheduler) (p p' : Agenda.Pass Stores) (b : Bool) :
    (k.afterPasses p p').agenda b = if b then p.agenda else p'.agenda := by
  cases b <;> rfl

/-! ### One operation -/

/-- What an operation makes of the scheduler `k`.  One that is refused changes nothing, nor does one
that asks for what is so already. -/
inductive Outcome (k : Scheduler) : Operation → Scheduler → Prop
  | same (op : Operation) : Outcome k op k
  | create (name : String) (waking : Bool) :
      Outcome k (.create name waking) (k.create name waking).2
  | remove {q : QueueId} {tq : Queue} (now : Ticks) (hq : k.queues.get? q = some tq) :
      Outcome k (.remove q now) <|
        ({ k with
          queues := k.queues.erase q
          selector := k.selector.remove q
          names := if k.names.find? tq.name = some q then k.names.erase tq.name else k.names } :
          Scheduler).withAgenda tq.waking ((k.agenda tq.waking).unregister q now).1
            ((k.agenda tq.waking).unregister q now).2
  | setLevel {q : QueueId} {tq : Queue} (l : Level) (hq : k.queues.get? q = some tq) :
      Outcome k (.setLevel q l)
        { k with
          queues := k.queues.set q { tq with level := l }, selector := k.selector.setLevel q l }
  | enable {q : QueueId} {tq : Queue} (now : Ticks) (hq : k.queues.get? q = some tq)
      (disabled : tq.enabled = false) :
      Outcome k (.setEnabled q true now) <|
        ({ k with
          selector := (k.selector.enable q).2
          workRequested := k.workRequested || (k.selector.enable q).1 } :
          Scheduler).withQueue q { tq with enabled := true } now
  | disable {q : QueueId} {tq : Queue} (now : Ticks) (hq : k.queues.get? q = some tq)
      (enabled : tq.enabled = true) :
      Outcome k (.setEnabled q false now) <|
        ({ k with selector := k.selector.disable q } :
          Scheduler).withQueue q { tq with enabled := false } now
  | post {q : QueueId} {tq : Queue} (t : Ticket) (hq : k.queues.get? q = some tq) :
      Outcome k (.post q t)
        { k with
          queues := k.queues.set q (tq.post ⟨k.stamps.issue.1, t⟩)
          selector :=
            if tq.immediate.isEmpty then
              k.selector.changeFront q .immediate (some k.stamps.issue.1)
            else k.selector
          stamps := k.stamps.issue.2
          workRequested := k.workRequested || tq.enabled }
  | postDelayed {q : QueueId} {tq : Queue} (delay leeway : Duration) (policy : Policy)
      (now : Ticks) (t : Ticket) (hq : k.queues.get? q = some tq) :
      Outcome k (.postDelayed q delay leeway policy now t) <|
        k.withQueue q (tq.postDelayed (now + delay) leeway policy
          (decide (delay < k.settings.highResolutionBelow)) t) now
  | promote {now : Ticks} {isCanceled : Ticket → Bool} (due : k.hasDueWakeUp now = true)
      {p p' : Agenda.Pass Stores}
      (first : p = k.wakingAgenda.promote (owner isCanceled) now k.stamps.issue.1
        (k.wakingAgenda.size + 1) k.stores)
      (second : p' = k.nonWakingAgenda.promote (owner isCanceled) now k.stamps.issue.1
        (k.nonWakingAgenda.size + 1) p.owner) :
      Outcome k (.promote now isCanceled)
        (({ k with stamps := k.stamps.issue.2 } : Scheduler).afterPasses p p')
  | sweep {now : Ticks} {isCanceled : Ticket → Bool} {p p' : Agenda.Pass Stores}
      (first : p = k.wakingAgenda.trim (owner isCanceled) now (k.tickets.length + 1) k.stores)
      (second : p' =
        k.nonWakingAgenda.trim (owner isCanceled) now (k.tickets.length + 1) p.owner) :
      Outcome k (.sweep now isCanceled) (k.afterPasses p p')
  | take (isCanceled : Ticket → Bool) {pick : Pick} {selector : Selector} {tq : Queue}
      {t : ReadyTask} {rest : List ReadyTask}
      (selected : k.selector.select .bothHalves = (some pick, selector))
      (hq : k.queues.get? pick.queue = some tq) (front : tq.ready pick.half = t :: rest) :
      Outcome k (.take isCanceled)
        { k with
          queues := k.queues.set pick.queue (tq.withReady pick.half rest)
          selector := selector.changeFront pick.queue pick.half
            ((tq.withReady pick.half rest).front pick.half)
          tasksRun := if isCanceled t.ticket then k.tasksRun else k.tasksRun + 1 }
  | takeWorkRequest : Outcome k .takeWorkRequest { k with workRequested := false }

/-- Only an id that names a queue is accepted. -/
theorem ok_of_queue {α : Type} {f : Queue → α} {a : α} (h : (k.queue q).map f = .ok a) :
    ∃ tq, k.queues.get? q = some tq ∧ f tq = a := by
  unfold queue at h
  cases hq : k.queues.get? q with
  | none =>
      rw [hq] at h
      cases h
  | some tq =>
      rw [hq] at h
      cases h
      exact ⟨tq, rfl, rfl⟩

theorem outcome_remove {ts : List Ticket} (h : k.remove q now = .ok (ts, k')) :
    Outcome k (.remove q now) k' := by
  obtain ⟨tq, hq, e⟩ := ok_of_queue h
  obtain ⟨-, rfl⟩ := Prod.mk.inj e
  exact .remove now hq

theorem outcome_setLevel {l : Level} (h : k.setLevel q l = .ok k') :
    Outcome k (.setLevel q l) k' := by
  obtain ⟨tq, hq, rfl⟩ := ok_of_queue h
  split_ifs
  · exact .same _
  · exact .setLevel l hq

theorem outcome_setEnabled {on : Bool} (h : k.setEnabled q on now = .ok k') :
    Outcome k (.setEnabled q on now) k' := by
  obtain ⟨tq, hq, rfl⟩ := ok_of_queue h
  by_cases same : tq.enabled = on
  · rw [if_pos same]
    exact .same _
  · rw [if_neg same]
    cases on with
    | true => exact .enable now hq (Bool.eq_false_iff.2 same)
    | false =>
        -- the selector has nothing to tell of a queue that is disabled
        have o := Outcome.disable now hq (by simpa using same)
        have unasked : (k.workRequested || false) = k.workRequested := Bool.or_false _
        rwa [← unasked] at o

theorem outcome_post {t : Ticket} (h : k.post q t = .ok k') : Outcome k (.post q t) k' := by
  obtain ⟨tq, hq, rfl⟩ := ok_of_queue h
  exact .post t hq

theorem outcome_postDelayed {delay leeway : Duration} {policy : Policy} {t : Ticket}
    (h : k.postDelayed q delay leeway policy now t = .ok k') :
    Outcome k (.postDelayed q delay leeway policy now t) k' := by
  obtain ⟨tq, hq, rfl⟩ := ok_of_queue h
  exact .postDelayed delay leeway policy now t hq

theorem outcome_promote (k : Scheduler) (now : Ticks) (isCanceled : Ticket → Bool) :
    Outcome k (.promote now isCanceled) (k.promote now isCanceled).2 := by
  unfold Scheduler.promote
  split_ifs with due
  · exact .promote due rfl rfl
  · exact .same _

theorem outcome_sweep (k : Scheduler) (now : Ticks) (isCanceled : Ticket → Bool) :
    Outcome k (.sweep now isCanceled) (k.sweep now isCanceled).2 :=
  .sweep rfl rfl

/-- What an operation does, except for taking a task, which relies on what the selector records. -/
theorem outcome (k : Scheduler) (op : Operation) (other : ∀ isCanceled, op ≠ .take isCanceled) :
    Outcome k op (k.perform op) := by
  have refused {op : Operation} {r : Except Fault Scheduler} :
      (∀ k', r = .ok k' → Outcome k op k') → Outcome k op (k.orUnchanged r) :=
    orUnchanged_cases (.same op)
  cases op with
  | create name waking => exact .create name waking
  | remove q now =>
      refine refused fun k' h => ?_
      obtain ⟨ts, h⟩ := exists_remove h
      exact outcome_remove h
  | setLevel q l => exact refused fun k' => outcome_setLevel
  | setEnabled q on now => exact refused fun k' => outcome_setEnabled
  | post q t => exact refused fun k' => outcome_post
  | postDelayed q delay leeway policy now t => exact refused fun k' => outcome_postDelayed
  | promote now isCanceled => exact k.outcome_promote now isCanceled
  | sweep now isCanceled => exact k.outcome_sweep now isCanceled
  | take isCanceled => exact absurd rfl (other isCanceled)
  | takeWorkRequest => exact .takeWorkRequest

end Dispatch.Scheduler
