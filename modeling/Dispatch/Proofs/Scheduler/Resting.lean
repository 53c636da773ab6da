import Dispatch.Proofs.Scheduler.Readiness

/-!
# When work is requested

A scheduler rests if no enabled queue has a ready task, which is so when no task was found to be
taken (`Mirrored.resting_take`).  It rests on until a task is posted to an enabled queue or a queue
is enabled (`Reachable.raises_of_not_resting`), and both request work
(`Reachable.workRequested_of_raises`) while nothing else does
(`Reachable.raises_of_workRequested`).  The request stays until it is taken
(`Reachable.workRequested_perform`).  For a waiting task that is due, the timer is ready
(`Scheduled.exists_timer_isReady`).
-/

namespace Dispatch.Scheduler

variable {settings : Settings} {k k' : Scheduler} {q : QueueId} {tq tq' : Queue} {op : Operation}
  {t : Ticket} {now : Ticks} {isCanceled : Ticket → Bool}

/-- No enabled queue has a ready task. -/
def Resting (k : Scheduler) : Prop :=
  ∀ q tq h, k.queues.get? q = some tq → tq.enabled = true → tq.ready h = []

theorem Mirrored.resting_take (m : Mirrored k) (none_taken : (k.take isCanceled).1 = none) :
    (k.take isCanceled).2.Resting := by
  rcases m.take_cases isCanceled with ⟨es, e⟩ | ⟨pick, selector, tq, t, rest, -, -, -, e⟩
  · rw [e]
    intro q tq h hq enabled
    exact (m.select_eq_none_iff .bothHalves).1 (by rw [es]) q tq h hq enabled trivial
  · rw [e] at none_taken
    cases none_taken

/-! ### Operations that request work -/

/-- The operation makes a task ready in an enabled queue, or enables a queue. -/
inductive Raises (k : Scheduler) : Operation → Prop
  | post {q : QueueId} {tq : Queue} (t : Ticket) (hq : k.queues.get? q = some tq)
      (enabled : tq.enabled = true) : Raises k (.post q t)
  | enable {q : QueueId} {tq : Queue} (now : Ticks) (hq : k.queues.get? q = some tq)
      (disabled : tq.enabled = false) : Raises k (.setEnabled q true now)

/-- Without a promotion, a scheduler stops resting only when work is requested. -/
theorem Reachable.raises_of_not_resting (r : Reachable settings k) (rest : k.Resting)
    (stays : ∀ now isCanceled, op ≠ .promote now isCanceled) (h : ¬ (k.perform op).Resting) :
    k.Raises op := by
  unfold Resting at h
  simp only [not_forall] at h
  obtain ⟨q, tq', g, hq, enabled, ready⟩ := h
  rcases r.treats hq with ⟨name, waking, -, rfl⟩ | ⟨tq, htq, e⟩
  · exact absurd (by cases g <;> rfl) ready
  · -- the ready tasks of an enabled queue are new ones
    cases e with
    | leave => exact absurd (rest q tq' g htq enabled) ready
    | setLevel => exact absurd (rest q tq g htq enabled) ready
    | setEnabled on now =>
        obtain rfl : on = true := enabled
        refine .enable now htq (Bool.eq_false_iff.2 fun before => ?_)
        exact absurd (rest q tq g htq before) ready
    | post t => exact .post t htq enabled
    | postDelayed => exact absurd (rest q tq g htq enabled) ready
    | promote now isCanceled => exact absurd rfl (stays now isCanceled)
    | sweep => exact absurd (rest q tq g htq enabled) ready
    | @take _ _ half t ts front =>
        have before : tq.enabled = true := by
          cases half <;> exact enabled
        rw [rest q tq half htq before] at front
        cases front

theorem exists_post (hq : k.queues.get? q = some tq) (enabled : tq.enabled = true) (t : Ticket) :
    ∃ k', k.post q t = .ok k' ∧ k'.workRequested = true := by
  unfold Scheduler.post queue
  rw [hq]
  refine ⟨_, rfl, ?_⟩
  dsimp only
  rw [enabled, Bool.or_true]

theorem Mirrored.exists_enable (m : Mirrored k) (hq : k.queues.get? q = some tq)
    (disabled : tq.enabled = false) (now : Ticks) :
    ∃ k', k.setEnabled q true now = .ok k' ∧ k'.workRequested = true := by
  have told : (k.selector.enable q).1 = true := by
    unfold Selector.enable
    rw [m.records, hq]
    show (if tq.enrolment.enabled then _ else _ : Bool × Selector).1 = true
    rw [show tq.enrolment.enabled = false from disabled]
    rfl
  have ok : k.setEnabled q true now = .ok (if tq.enabled = true then k else
      ({ k with
        selector := (k.selector.enable q).2
        workRequested := k.workRequested || (k.selector.enable q).1 } :
        Scheduler).withQueue q { tq with enabled := true } now) := by
    unfold Scheduler.setEnabled queue
    rw [hq]
    rfl
  refine ⟨_, ok, ?_⟩
  rw [if_neg (Bool.eq_false_iff.1 disabled),
    withQueue_frame (f := Scheduler.workRequested) fun _ _ _ _ _ => rfl]
  dsimp only
  rw [told, Bool.or_true]

/-! ### The request stays -/

theorem Reachable.workRequested_of_raises (r : Reachable settings k) (h : k.Raises op) :
    (k.perform op).workRequested = true := by
  cases h with
  | post t hq enabled =>
      obtain ⟨k', ok, requested⟩ := exists_post hq enabled t
      show (k.orUnchanged _).workRequested = true
      rw [ok]
      exact requested
  | enable now hq disabled =>
      obtain ⟨k', ok, requested⟩ := r.mirrored.exists_enable hq disabled now
      show (k.orUnchanged _).workRequested = true
      rw [ok]
      exact requested

/-- Whether work is requested changes only when a task is posted to an enabled queue, a queue is
enabled or the request is taken. -/
theorem Outcome.workRequested_cases (o : Outcome k op k') :
    k'.workRequested = k.workRequested ∨ k.Raises op ∨ op = .takeWorkRequest := by
  cases o with
  | same | create | setLevel | take => exact Or.inl rfl
  | remove =>
      exact Or.inl (withAgenda_frame (f := Scheduler.workRequested) (fun _ _ _ _ => rfl) _ _ _ _)
  | enable now hq disabled => exact Or.inr (Or.inl (.enable now hq disabled))
  | disable | postDelayed =>
      exact Or.inl (withQueue_frame (f := Scheduler.workRequested) (fun _ _ _ _ _ => rfl) _ _ _ _)
  | @post _ tq t hq =>
      cases enabled : tq.enabled with
      | true => exact Or.inr (Or.inl (.post t hq enabled))
      | false => exact Or.inl (Bool.or_false _)
  | promote | sweep =>
      exact Or.inl (afterPasses_frame (f := Scheduler.workRequested) (fun _ _ _ _ _ _ => rfl) _ _ _)
  | takeWorkRequest => exact Or.inr (Or.inr rfl)

/-- Work that has been requested stays so until the request is taken. -/
theorem Reachable.workRequested_perform (r : Reachable settings k) (op : Operation)
    (h : k.workRequested = true) (ne : op ≠ .takeWorkRequest) :
    (k.perform op).workRequested = true := by
  rcases (r.mirrored.outcome op).workRequested_cases with same | raises | taken
  · exact same.trans h
  · exact r.workRequested_of_raises raises
  · exact absurd taken ne

/-- Work is requested by nothing else. -/
theorem Reachable.raises_of_workRequested (r : Reachable settings k) (op : Operation)
    (before : k.workRequested = false) (after : (k.perform op).workRequested = true) :
    k.Raises op := by
  rcases (r.mirrored.outcome op).workRequested_cases with same | raises | rfl
  · rw [same, before] at after
    cases after
  · exact raises
  · cases after

/-! ### The timer -/

/-- If a task that may arm the timer is due, then the timer is ready. -/
theorem Scheduled.exists_timer_isReady (w : Scheduled k) {t : WaitingTask} (waits : k.Awaits t)
    (due : t.isDue now = true) : ∃ v, k.timer = some v ∧ v.isReady now = true := by
  have timer : k.timer = k.nextWakeUp := w.timer
  rw [timer]
  cases hv : k.nextWakeUp with
  | none => exact absurd waits (w.nextWakeUp_eq_none_iff.1 hv t)
  | some v =>
      have first := (w.nextWakeUp_eq_some hv).2.2 t waits
      exact ⟨v, rfl, decide_eq_true (Nat.le_trans first (of_decide_eq_true due))⟩

end Dispatch.Scheduler
