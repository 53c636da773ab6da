import Dispatch.Proofs.Scheduler.Removal
import Dispatch.Proofs.Scheduler.Resolution
import Dispatch.Proofs.Scheduler.Resting

/-!
# Queues that are disabled

An operation changes a disabled queue only if it is addressed to it, and then it changes its level,
adds the task that is posted or enables it (`received`, `Reachable.get?_perform_of_disabled`).
Promotions, sweeps and the taking of tasks pass it by, so it only gains tasks (`Gains`).  Meanwhile
the scheduler decides as if the queue were not there (`Excluded`).  When the queue is enabled, its
ready tasks can be selected at the level that it has by then, and the wake-up for its first waiting
task is entered (`Restored`).
-/

namespace Dispatch

/-! ### What a queue gains -/

/-- All tasks of the queue `tq` are where they were in `tq'`.  Some have been added at the end of
the immediate ones, and some among those that wait. -/
structure Queue.Gains (tq tq' : Queue) (immediate waiting : List Ticket) : Prop where
  delayed : tq'.delayed = tq.delayed
  immediate : ∃ new, tq'.immediate = tq.immediate ++ new ∧ new.map (·.ticket) = immediate
  waiting : ∃ new, tq'.waiting.Perm (tq.waiting ++ new) ∧ new.map (·.ticket) = waiting
  kept : tq.waiting.Sublist tq'.waiting

namespace Queue.Gains

variable {tq tq' tq'' : Queue} {ts ts' us us' : List Ticket}

theorem of_eq (delayed : tq'.delayed = tq.delayed) (immediate : tq'.immediate = tq.immediate)
    (waiting : tq'.waiting = tq.waiting) : tq.Gains tq' [] [] :=
  ⟨delayed, ⟨[], by rw [immediate, List.append_nil], rfl⟩,
    ⟨[], by rw [waiting, List.append_nil], rfl⟩, by rw [waiting]⟩

theorem trans (g : tq.Gains tq' ts us) (g' : tq'.Gains tq'' ts' us') :
    tq.Gains tq'' (ts ++ ts') (us ++ us') := by
  obtain ⟨posted, e, rfl⟩ := g.immediate
  obtain ⟨posted', e', rfl⟩ := g'.immediate
  obtain ⟨waiting, perm, rfl⟩ := g.waiting
  obtain ⟨waiting', perm', rfl⟩ := g'.waiting
  refine ⟨g'.delayed.trans g.delayed, ⟨posted ++ posted', ?_, List.map_append⟩,
    ⟨waiting ++ waiting', ?_, List.map_append⟩, g.kept.trans g'.kept⟩
  · rw [e', e, List.append_assoc]
  · rw [← List.append_assoc]
    exact perm'.trans (perm.append_right waiting')

end Queue.Gains

namespace Scheduler

variable {settings : Settings} {k k' : Scheduler} {q j : QueueId} {tq : Queue} {now : Ticks}

/-! ### What a disabled queue receives -/

/-- The queue `q`, which was `tq`, after an operation, if nothing but what is addressed to it
changes it. -/
def received (k : Scheduler) (q : QueueId) (tq : Queue) : Operation → Queue
  | .setLevel j l => if j = q then { tq with level := l } else tq
  | .setEnabled j on _ => if j = q then { tq with enabled := on } else tq
  | .post j t => if j = q then tq.post ⟨k.stamps.issue.1, t⟩ else tq
  | .postDelayed j delay leeway policy now t =>
    if j = q then
      tq.postDelayed (now + delay) leeway policy (decide (delay < k.settings.highResolutionBelow)) t
    else tq
  | _ => tq

theorem Scheduled.get?_sweep (w : Scheduled k) (hq : k.queues.get? q = some tq)
    (disabled : tq.enabled = false) (now : Ticks) (isCanceled : Ticket → Bool) :
    (k.sweep now isCanceled).2.queues.get? q = some tq := by
  have none_wanted : tq.nextWakeUp = none := by simp [Queue.nextWakeUp, disabled]
  have start := tends_start (s := k.stores) w.sorted w.waking
  have first := start.trim now isCanceled (k.tickets.length + 1)
  have hq₁ := start.get?_trim hq (fun _ => none_wanted) now isCanceled (k.tickets.length + 1)
  have second := tends_start first.sorted (w.nonWaking.congr first.other)
  unfold Scheduler.sweep
  dsimp only
  rw [queues_afterPasses]
  exact second.get?_trim hq₁ (fun _ => none_wanted) now isCanceled _

/-- An operation that replaces the queue to which it is addressed leaves all others. -/
theorem get?_orUnchanged {f : Queue → Scheduler} {g : Queue → Queue}
    (hq : k.queues.get? q = some tq)
    (replaces : ∀ tq, k.queues.get? j = some tq →
      ∀ i, (f tq).queues.get? i = (k.queues.set j (g tq)).get? i) :
    (k.orUnchanged ((k.queue j).map f)).queues.get? q = some (if j = q then g tq else tq) := by
  unfold queue
  cases hj : k.queues.get? j with
  | none =>
      rw [if_neg]
      · exact hq
      · rintro rfl
        rw [hq] at hj
        cases hj
  | some tq' =>
      show (f tq').queues.get? q = _
      rw [replaces tq' hj, Arena.get?_set]
      by_cases same : j = q
      · subst same
        obtain rfl : tq = tq' := Option.some.inj (hq.symm.trans hj)
        rw [if_pos rfl, if_pos ⟨rfl, by rw [hq]; rfl⟩]
      · rw [if_neg same, if_neg fun h => same h.1.symm, hq]

theorem get?_perform_remove (k : Scheduler) (q : QueueId) (now : Ticks) :
    (k.perform (.remove q now)).queues.get? q = none := by
  show (k.orUnchanged ((k.remove q now).map (·.2))).queues.get? q = none
  unfold remove queue
  cases hq : k.queues.get? q with
  | none => exact hq
  | some tq =>
      show (withAgenda _ _ _ _).queues.get? q = none
      rw [queues_withAgenda, Arena.get?_erase, if_pos rfl]

/-- A disabled queue changes only by what is addressed to it. -/
theorem Reachable.get?_perform_of_disabled (r : Reachable settings k)
    (hq : k.queues.get? q = some tq) (disabled : tq.enabled = false) (op : Operation)
    (kept : ∀ now, op ≠ .remove q now) :
    (k.perform op).queues.get? q = some (k.received q tq op) := by
  cases op with
  | create name waking =>
      show (k.queues.insert _).2.get? q = some tq
      rw [Arena.get?_insert, if_neg]
      · exact hq
      · rintro rfl
        rw [Arena.get?_fst_insert] at hq
        cases hq
  | remove j now =>
      have o := r.mirrored.outcome (.remove j now)
      generalize k.perform (.remove j now) = k' at o ⊢
      cases o with
      | same => exact hq
      | remove =>
          rw [queues_withAgenda, Arena.get?_erase, if_neg]
          · exact hq
          · rintro rfl
            exact kept now rfl
  | setLevel j l =>
      refine get?_orUnchanged (g := fun tq => { tq with level := l }) hq fun tq hj i => ?_
      split_ifs with same
      · rw [← same]
        exact congrArg (fun a => a.get? i) (Arena.set_self hj).symm
      · rfl
  | setEnabled j on now =>
      refine get?_orUnchanged (g := fun tq => { tq with enabled := on }) hq fun tq hj i => ?_
      by_cases same : tq.enabled = on
      · rw [if_pos same, ← same]
        exact congrArg (fun a => a.get? i) (Arena.set_self hj).symm
      · rw [if_neg same, queues_withQueue]
  | post j t =>
      exact get?_orUnchanged (g := fun tq => tq.post ⟨k.stamps.issue.1, t⟩) hq fun _ _ _ => rfl
  | postDelayed j delay leeway policy now t =>
      refine get?_orUnchanged (g := fun tq => tq.postDelayed (now + delay) leeway policy
        (decide (delay < k.settings.highResolutionBelow)) t) hq fun tq hj i => ?_
      rw [queues_withQueue]
  | promote now isCanceled =>
      show (k.promote now isCanceled).2.queues.get? q = some tq
      rw [r.scheduled.get?_promote, hq, Option.map_some, if_neg (ne_true_of_eq_false disabled)]
  | sweep now isCanceled => exact r.scheduled.get?_sweep hq disabled now isCanceled
  | take isCanceled =>
      show (k.take isCanceled).2.queues.get? q = some tq
      rcases r.mirrored.takes isCanceled with ⟨-, e⟩ | ⟨j, tq', h, t, rest, e⟩
      · rw [e]
        exact hq
      · rw [e.queues, Arena.get?_set, if_neg]
        · exact hq
        · rintro ⟨rfl, -⟩
          obtain rfl : tq = tq' := Option.some.inj (hq.symm.trans e.queue)
          rw [e.enabled] at disabled
          cases disabled
  | takeWorkRequest => exact hq

/-- The task that the operation posts to the queue, to be run at once. -/
def Operation.postedTo (q : QueueId) : Operation → List Ticket
  | .post j t => if j = q then [t] else []
  | _ => []

/-- The task that the operation posts to the queue, to be run after a delay. -/
def Operation.delayedTo (q : QueueId) : Operation → List Ticket
  | .postDelayed j _ _ _ _ t => if j = q then [t] else []
  | _ => []

theorem gains_received (k : Scheduler) (q : QueueId) (tq : Queue) (op : Operation) :
    tq.Gains (k.received q tq op) (op.postedTo q) (op.delayedTo q) := by
  unfold received Operation.postedTo Operation.delayedTo
  cases op with
  | post j t =>
      dsimp only
      split_ifs
      · exact ⟨rfl, ⟨[⟨k.stamps.issue.1, t⟩], rfl, rfl⟩, ⟨[], by simp [Queue.post], rfl⟩, .refl _⟩
      · exact .of_eq rfl rfl rfl
  | postDelayed j delay leeway policy now t =>
      dsimp only
      split_ifs
      · let x : WaitingTask := ⟨now + delay, leeway, policy,
          decide (delay < k.settings.highResolutionBelow), tq.posted, t⟩
        have perm := Queue.perm_insertWaiting x tq.waiting
        exact ⟨rfl, ⟨[], by simp [Queue.postDelayed], rfl⟩,
          ⟨[x], perm.trans (List.perm_append_singleton x _).symm, rfl⟩,
          Queue.sublist_insertWaiting x _⟩
      · exact .of_eq rfl rfl rfl
  | setLevel | setEnabled =>
      dsimp only
      split_ifs <;> exact .of_eq rfl rfl rfl
  | _ => exact .of_eq rfl rfl rfl

theorem Reachable.gains_perform (r : Reachable settings k) (hq : k.queues.get? q = some tq)
    (disabled : tq.enabled = false) (op : Operation) (kept : ∀ now, op ≠ .remove q now) :
    ∃ tq', (k.perform op).queues.get? q = some tq' ∧
      tq.Gains tq' (op.postedTo q) (op.delayedTo q) :=
  ⟨_, r.get?_perform_of_disabled hq disabled op kept, k.gains_received q tq op⟩

/-! ### What the scheduler decides meanwhile -/

theorem Scheduled.nextWakeUp_eq_none_iff_wants (w : Scheduled k) :
    k.nextWakeUp = none ↔ ∀ v, ¬ k.Wants v := by
  unfold nextWakeUp
  rw [w.waking.wf.next?_eq_none_iff]
  constructor
  · intro none v hv
    obtain ⟨q, hq⟩ := w.wants_iff.1 hv
    rw [none q] at hq
    cases hq
  · intro none q
    exact Option.eq_none_iff_forall_ne_some.2 fun v hv => none v (w.wants_iff.2 ⟨q, hv⟩)

/-- The timer is armed no later than for any wake-up that is wanted. -/
theorem Scheduled.timer_le (w : Scheduled k) {v : WakeUp} (hv : k.Wants v) :
    ∃ u, k.timer = some u ∧ u ≤ v := by
  cases hu : k.nextWakeUp with
  | none => exact absurd hv (w.nextWakeUp_eq_none_iff_wants.1 hu v)
  | some u => exact ⟨u, w.timer.trans hu, (w.nextWakeUp_eq_some hu).1.2 v hv⟩

/-- Some queue other than `q` that may arm the timer wants the wake-up. -/
def WantsBeside (k : Scheduler) (q : QueueId) (w : WakeUp) : Prop :=
  ∃ j tq, j ≠ q ∧ k.queues.get? j = some tq ∧ tq.waking = true ∧ tq.nextWakeUp = some w

/-- The queue is listed nowhere, and what the scheduler decides depends on the other
queues alone. -/
structure Excluded (k : Scheduler) (q : QueueId) : Prop extends Unlisted k q where
  selects : ∀ scope pick, (k.selector.select scope).1 = some pick → pick.queue ≠ q
  rests : ∀ scope, (k.selector.select scope).1 = none ↔
    ∀ j tq h, j ≠ q → k.queues.get? j = some tq → tq.enabled = true → scope.Covers h →
      tq.ready h = []
  wakes : ∀ w, k.nextWakeUp = some w → k.WantsBeside q w ∧ ∀ v, k.WantsBeside q v → w ≤ v
  sleeps : k.nextWakeUp = none ↔ ∀ w, ¬ k.WantsBeside q w
  resolves : k.hasHighResolution = true ↔ ∃ j tq, j ≠ q ∧ k.queues.get? j = some tq ∧
    tq.enabled = true ∧ ∃ t ∈ tq.waiting, t.highResolution = true

theorem Reachable.excluded (r : Reachable settings k) (hq : k.queues.get? q = some tq)
    (disabled : tq.enabled = false) : k.Excluded q := by
  have m := r.mirrored
  have w := r.scheduled
  have only : ∀ tq', k.queues.get? q = some tq' → tq'.enabled = false := by
    intro tq' hq'
    obtain rfl : tq = tq' := Option.some.inj (hq.symm.trans hq')
    exact disabled
  have ne : ∀ {j tq'}, k.queues.get? j = some tq' → tq'.enabled = true → j ≠ q := by
    rintro j tq' hj enabled rfl
    rw [only tq' hj] at enabled
    cases enabled
  have wants : ∀ v, k.Wants v ↔ k.WantsBeside q v := by
    intro v
    constructor
    · rintro ⟨j, tq', hj, waking, hv⟩
      exact ⟨j, tq', ne hj (Queue.head?_of_nextWakeUp hv).1, hj, waking, hv⟩
    · rintro ⟨j, tq', -, hj, waking, hv⟩
      exact ⟨j, tq', hj, waking, hv⟩
  refine ⟨r.unlisted fun tq' hq' => Or.inl (only tq' hq'), fun scope pick hp => ?_, fun scope => ?_,
    fun v hv => ?_, ?_, ?_⟩
  · obtain ⟨-, tq', hq', enabled, -⟩ := m.of_select hp
    exact ne hq' enabled
  · rw [m.select_eq_none_iff]
    exact ⟨fun empty j tq' h _ hj enabled => empty j tq' h hj enabled,
      fun empty j tq' h hj enabled => empty j tq' h (ne hj enabled) hj enabled⟩
  · obtain ⟨⟨wanted, least⟩, -⟩ := w.nextWakeUp_eq_some hv
    exact ⟨(wants v).1 wanted, fun u hu => least u ((wants u).2 hu)⟩
  · simp only [w.nextWakeUp_eq_none_iff_wants, wants]
  · rw [r.hasHighResolution_iff]
    constructor
    · rintro ⟨j, tq', hj, enabled, asks⟩
      exact ⟨j, tq', ne hj enabled, hj, enabled, asks⟩
    · rintro ⟨j, tq', -, hj, enabled, asks⟩
      exact ⟨j, tq', hj, enabled, asks⟩

/-! ### When the queue is enabled -/

/-- A half of the queue is in the ready set of the level. -/
def Selectable (k : Scheduler) (q : QueueId) (l : Level) : Prop :=
  ∃ h f, (k.selector.sets h).member? q = some (l, f)

theorem Mirrored.selectable_iff (m : Mirrored k) {l : Level} : k.Selectable q l ↔
    ∃ tq h, k.queues.get? q = some tq ∧ tq.enabled = true ∧ tq.level = l ∧ tq.ready h ≠ [] := by
  unfold Selectable
  simp only [← m.wf.isFront_iff, m.isFront_iff]
  constructor
  · rintro ⟨h, f, tq, hq, enabled, level, front⟩
    refine ⟨tq, h, hq, enabled, level, fun empty => ?_⟩
    rw [empty] at front
    cases front
  · rintro ⟨tq, h, hq, enabled, level, ready⟩
    obtain ⟨t, rest, front⟩ := List.exists_cons_of_ne_nil ready
    exact ⟨h, t.stamp, tq, hq, enabled, level, by rw [front]; rfl⟩

/-- A queue is selected if it can be, and no other can. -/
theorem Mirrored.select_of_alone (m : Mirrored k) {l : Level} (hl : k.Selectable q l)
    (alone : ∀ j l, j ≠ q → ¬ k.Selectable j l) :
    ∃ h, (k.selector.select .bothHalves).1 = some ⟨q, h⟩ := by
  cases hp : (k.selector.select .bothHalves).1 with
  | none =>
      obtain ⟨tq, h, hq, enabled, -, ready⟩ := m.selectable_iff.1 hl
      exact absurd ((m.select_eq_none_iff _).1 hp q tq h hq enabled trivial) ready
  | some pick =>
      obtain ⟨-, tq, hq, enabled, ready⟩ := m.of_select hp
      have same : pick.queue = q := by
        by_contra ne
        exact alone pick.queue tq.level ne
          (m.selectable_iff.2 ⟨tq, pick.half, hq, enabled, rfl, ready⟩)
      exact ⟨pick.half, by rw [← same]⟩

/-- A ready set knows of a queue the stamp of its oldest task. -/
theorem Reachable.oldest_of_member (r : Reachable settings k) (hq : k.queues.get? q = some tq)
    {h : Half} {l : Level} {f : Stamp} (hf : (k.selector.sets h).member? q = some (l, f)) :
    ∃ t rest, tq.ready h = t :: rest ∧ t.stamp = f ∧ ∀ u ∈ rest, f ≤ u.stamp := by
  have m := r.mirrored
  obtain ⟨tq', hq', -, -, front⟩ := m.isFront_iff.1 (m.wf.isFront_iff.2 hf)
  obtain rfl : tq = tq' := Option.some.inj (hq.symm.trans hq')
  obtain ⟨t, head, rfl⟩ := Option.map_eq_some_iff.1 front
  obtain ⟨rest, split⟩ := List.head?_eq_some_iff.1 head
  have ordered := (r.stamped q tq hq).ordered h
  rw [split] at ordered
  exact ⟨t, rest, split, rfl, (List.pairwise_cons.1 ordered).1⟩

/-- The wake-up that a queue wants is for the first of its waiting tasks. -/
theorem first_of_nextWakeUp (sorted : tq.Sorted) {w : WakeUp} (hw : tq.nextWakeUp = some w) :
    ∃ t rest, tq.waiting = t :: rest ∧ w.time = t.runTime ∧ w.leeway = t.leeway ∧
      w.policy = t.policy ∧ ∀ u ∈ rest, t.earliest ≤ u.earliest := by
  have enabled := (Queue.head?_of_nextWakeUp hw).1
  unfold Queue.nextWakeUp at hw
  rw [if_pos enabled] at hw
  obtain ⟨t, head, rfl⟩ := Option.map_eq_some_iff.1 hw
  obtain ⟨rest, split⟩ := List.head?_eq_some_iff.1 head
  unfold Queue.Sorted at sorted
  rw [split] at sorted
  exact ⟨t, rest, split, rfl, rfl, rfl, fun u hu =>
    WaitingTask.earliest_le_of_precedes ((List.pairwise_cons.1 sorted).1 u hu)⟩

/-- The scheduler knows of the enabled queue `q`, which was `tq` while it was disabled, what there
is to know: at which level it can be selected, the oldest task of each half, and when the first task
that waits is to be woken. -/
structure Restored (k : Scheduler) (q : QueueId) (tq : Queue) : Prop where
  queue : k.queues.get? q = some { tq with enabled := true }
  selectable : ∀ l, k.Selectable q l ↔ l = tq.level ∧ ∃ h, tq.ready h ≠ []
  front : ∀ h l f, (k.selector.sets h).member? q = some (l, f) →
    ∃ t rest, tq.ready h = t :: rest ∧ t.stamp = f ∧ ∀ u ∈ rest, f ≤ u.stamp
  /-- If nothing else can be selected, the queue is. -/
  selected : (∀ j l, j ≠ q → ¬ k.Selectable j l) → (∃ h, tq.ready h ≠ []) →
    ∃ h, (k.selector.select .bothHalves).1 = some ⟨q, h⟩
  wakeUp : (k.agenda tq.waking).get? q = ({ tq with enabled := true } : Queue).nextWakeUp
  first : ∀ w, (k.agenda tq.waking).get? q = some w → ∃ t rest, tq.waiting = t :: rest ∧
    w.time = t.runTime ∧ w.leeway = t.leeway ∧ w.policy = t.policy ∧
      ∀ u ∈ rest, t.earliest ≤ u.earliest
  asleep : (k.agenda tq.waking).get? q = none ↔ tq.waiting = []
  timer : ∀ w, tq.waking = true → (k.agenda tq.waking).get? q = some w →
    ∃ v, k.timer = some v ∧ v ≤ w
  requested : k.workRequested = true

theorem Reachable.restored (r : Reachable settings k) (hq : k.queues.get? q = some tq)
    (disabled : tq.enabled = false) (h : k.setEnabled q true now = .ok k') : k'.Restored q tq := by
  let tq' : Queue := { tq with enabled := true }
  have performed : k.perform (.setEnabled q true now) = k' := congrArg k.orUnchanged h
  have hq' : k'.queues.get? q = some tq' := by
    rw [← performed, r.get?_perform_of_disabled hq disabled (.setEnabled q true now) nofun]
    exact congrArg some (if_pos rfl)
  have r' := r.setEnabled h
  have m' := r'.mirrored
  have w' := r'.scheduled
  have ready : ∀ h, tq'.ready h = tq.ready h := fun h => by cases h <;> rfl
  have selectable : ∀ l, k'.Selectable q l ↔ l = tq.level ∧ ∃ h, tq.ready h ≠ [] := by
    intro l
    rw [m'.selectable_iff]
    constructor
    · rintro ⟨tq₁, h, hq₁, -, rfl, busy⟩
      obtain rfl : tq' = tq₁ := Option.some.inj (hq'.symm.trans hq₁)
      exact ⟨rfl, h, ready h ▸ busy⟩
    · rintro ⟨rfl, h, busy⟩
      exact ⟨tq', h, hq', rfl, rfl, (ready h).symm ▸ busy⟩
  have entry : (k'.agenda tq.waking).get? q = tq'.nextWakeUp :=
    (w'.get?_agenda hq' _).trans (if_pos rfl)
  refine ⟨hq', selectable, fun h l f hf => ?_, fun alone busy => ?_, entry, fun w hw => ?_, ?_,
    fun w waking hw => ?_, ?_⟩
  · rw [← ready]
    exact r'.oldest_of_member hq' hf
  · exact m'.select_of_alone ((selectable _).2 ⟨rfl, busy⟩) alone
  · exact first_of_nextWakeUp (w'.sorted q tq' hq') (entry.symm.trans hw)
  · rw [entry, Queue.nextWakeUp_eq_none_iff]
    exact ⟨fun empty => empty rfl, fun empty _ => empty⟩
  · rw [waking] at hw
    exact w'.timer_le (w'.wants_iff.2 ⟨q, hw⟩)
  · rw [← performed]
    exact r.workRequested_of_raises (.enable now hq disabled)

end Scheduler

end Dispatch
