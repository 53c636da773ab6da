import Dispatch.Proofs.Queue.Waiting
import Dispatch.Proofs.Scheduler.Mirror
import Dispatch.Proofs.Wake.Agenda

/-!
# The wake-ups of a scheduler

Each agenda holds what the queues of its kind want (`Holds`), and the timer is armed for the first
entry of the waking one (`Scheduled`).  A pass over one agenda keeps its agenda up to date while it
replaces queues of its kind, and touches no queue of the other kind (`Tends`), so that after two
passes both agendas are right.
-/

namespace Dispatch.Scheduler

variable {k k' : Scheduler} {queues queues' : Arena Queue} {b : Bool} {q : QueueId} {tq tq' : Queue}
  {a : Agenda} {now : Ticks}

/-- What a queue wants of the agenda of one kind. -/
def wanted (queues : Arena Queue) (b : Bool) (q : QueueId) : Option WakeUp :=
  (queues.get? q).bind fun tq => if tq.waking = b then tq.nextWakeUp else none

theorem wanted_of_get? (hq : queues.get? q = some tq) :
    wanted queues b q = if tq.waking = b then tq.nextWakeUp else none := by
  rw [wanted, hq]
  rfl

theorem wanted_of_get?_eq_none (hq : queues.get? q = none) : wanted queues b q = none := by
  rw [wanted, hq]
  rfl

theorem wanted_congr {j : QueueId} (h : queues'.get? j = queues.get? j) :
    wanted queues' b j = wanted queues b j := by
  rw [wanted, h, wanted]

/-- The agenda holds what the queues of its kind want, and nothing else. -/
structure Holds (a : Agenda) (queues : Arena Queue) (b : Bool) : Prop where
  wf : a.WF
  kind : a.waking = b
  entries : ∀ q, a.get? q = wanted queues b q

theorem Holds.exists_queue (h : Holds a queues b) {w : WakeUp} (hq : a.get? q = some w) :
    ∃ tq, queues.get? q = some tq ∧ tq.waking = b := by
  rw [h.entries] at hq
  obtain ⟨tq, hq, hw⟩ := Option.bind_eq_some_iff.1 hq
  refine ⟨tq, hq, ?_⟩
  split_ifs at hw with hb
  exact hb

theorem Holds.congr (h : Holds a queues b) (hw : ∀ q, wanted queues' b q = wanted queues b q) :
    Holds a queues' b :=
  ⟨h.wf, h.kind, fun q => by rw [h.entries, hw]⟩

/-- The agenda is up to date after it was told what a replaced queue wants. -/
theorem Holds.set (h : Holds a queues b) (now : Ticks) {x : Option WakeUp}
    (hx : wanted queues' b q = x)
    (hw : ∀ j, j ≠ q → wanted queues' b j = wanted queues b j) :
    Holds (a.set q now x).2 queues' b := by
  refine ⟨h.wf.set q now x, (Agenda.waking_set a q now x).trans h.kind, fun j => ?_⟩
  rw [h.wf.get?_set]
  split_ifs with hj
  · rw [hj, hx]
  · rw [h.entries, hw j hj]

/-- The agendas hold what the queues want, and the timer is armed for the first waking entry. -/
structure Scheduled (k : Scheduler) : Prop where
  sorted : ∀ q tq, k.queues.get? q = some tq → tq.Sorted
  waking : Holds k.wakingAgenda k.queues true
  nonWaking : Holds k.nonWakingAgenda k.queues false
  timer : k.timer = k.wakingAgenda.next?

theorem Scheduled.holds (w : Scheduled k) (b : Bool) : Holds (k.agenda b) k.queues b := by
  cases b with
  | true => exact w.waking
  | false => exact w.nonWaking

theorem scheduled_ofSettings (settings : Settings) : Scheduled (.ofSettings settings) := by
  have none_live : ∀ q, (Arena.get? {} q : Option Queue) = none := by
    rintro ⟨_ | i, v⟩ <;> rfl
  have holds : ∀ b, Holds { waking := b } {} b := fun b =>
    ⟨Agenda.wf_empty b, rfl, fun q => (wanted_of_get?_eq_none (none_live q)).symm⟩
  refine ⟨fun q tq hq => ?_, holds true, holds false, rfl⟩
  rw [show (Scheduler.ofSettings settings).queues = {} from rfl, none_live] at hq
  cases hq

/-! ### What the timer is armed for -/

/-- The task waits in an enabled queue that may arm the timer. -/
def Awaits (k : Scheduler) (t : WaitingTask) : Prop :=
  ∃ q tq, k.queues.get? q = some tq ∧ tq.waking = true ∧ tq.enabled = true ∧ t ∈ tq.waiting

/-- Some queue that may arm the timer wants the wake-up. -/
def Wants (k : Scheduler) (w : WakeUp) : Prop :=
  ∃ q tq, k.queues.get? q = some tq ∧ tq.waking = true ∧ tq.nextWakeUp = some w

theorem Scheduled.get?_agenda (w : Scheduled k) (hq : k.queues.get? q = some tq) (b : Bool) :
    (k.agenda b).get? q = if tq.waking = b then tq.nextWakeUp else none := by
  rw [(w.holds b).entries, wanted_of_get? hq]

theorem Scheduled.get?_agenda_eq_none (w : Scheduled k) (hq : k.queues.get? q = none) (b : Bool) :
    (k.agenda b).get? q = none := by
  rw [(w.holds b).entries, wanted_of_get?_eq_none hq]

theorem Scheduled.wants_iff (w : Scheduled k) {v : WakeUp} :
    k.Wants v ↔ ∃ q, k.wakingAgenda.get? q = some v := by
  constructor
  · rintro ⟨q, tq, hq, hb, hv⟩
    exact ⟨q, by rw [w.waking.entries, wanted_of_get? hq, if_pos hb, hv]⟩
  · rintro ⟨q, hv⟩
    obtain ⟨tq, hq, hb⟩ := w.waking.exists_queue hv
    rw [w.waking.entries, wanted_of_get? hq, if_pos hb] at hv
    exact ⟨q, tq, hq, hb, hv⟩

/-- A queue wants a wake-up exactly if a task waits, and none later than for that task. -/
theorem Scheduled.exists_wants (w : Scheduled k) {t : WaitingTask} (ht : k.Awaits t) :
    ∃ v, k.Wants v ∧ v.earliest ≤ t.earliest := by
  obtain ⟨q, tq, hq, hb, he, ht⟩ := ht
  cases hv : tq.nextWakeUp with
  | none =>
      rw [Queue.nextWakeUp_eq_none_iff.1 hv he] at ht
      cases ht
  | some v => exact ⟨v, ⟨q, tq, hq, hb, hv⟩, ((w.sorted q tq hq).earliest_nextWakeUp hv).2 t ht⟩

theorem Scheduled.exists_awaits (w : Scheduled k) {v : WakeUp} (hv : k.Wants v) :
    ∃ t, k.Awaits t ∧ t.earliest = v.earliest := by
  obtain ⟨q, tq, hq, hb, hv⟩ := hv
  obtain ⟨t, ht, e⟩ := ((w.sorted q tq hq).earliest_nextWakeUp hv).1
  exact ⟨t, ⟨q, tq, hq, hb, (Queue.head?_of_nextWakeUp hv).1, ht⟩, e⟩

theorem Scheduled.nextWakeUp_eq_none_iff (w : Scheduled k) :
    k.nextWakeUp = none ↔ ∀ t, ¬ k.Awaits t := by
  unfold nextWakeUp
  rw [w.waking.wf.next?_eq_none_iff]
  constructor
  · intro h t ht
    obtain ⟨v, hv, -⟩ := w.exists_wants ht
    obtain ⟨q, hq⟩ := w.wants_iff.1 hv
    rw [h q] at hq
    cases hq
  · intro h q
    rw [Option.eq_none_iff_forall_ne_some]
    intro v hv
    obtain ⟨t, ht, -⟩ := w.exists_awaits (w.wants_iff.2 ⟨q, hv⟩)
    exact h t ht

/-- The first wake-up is the least that is wanted, and begins when the first waiting task
may run. -/
theorem Scheduled.nextWakeUp_eq_some (w : Scheduled k) {v : WakeUp} (hv : k.nextWakeUp = some v) :
    (k.Wants v ∧ ∀ u, k.Wants u → v ≤ u) ∧
      (∃ t, k.Awaits t ∧ t.earliest = v.earliest) ∧ ∀ t, k.Awaits t → v.earliest ≤ t.earliest := by
  obtain ⟨found, least⟩ := w.waking.wf.next?_eq_some hv
  have least : ∀ u, k.Wants u → v ≤ u := fun u hu => by
    obtain ⟨q, hq⟩ := w.wants_iff.1 hu
    exact least q u hq
  have wanted := w.wants_iff.2 found
  refine ⟨⟨wanted, least⟩, w.exists_awaits wanted, fun t ht => ?_⟩
  obtain ⟨u, hu, hle⟩ := w.exists_wants ht
  exact Nat.le_trans (WakeUp.earliest_le (least u hu)) hle

/-! ### Replacing one queue -/

theorem wanted_set_of_ne {j : QueueId} (hj : j ≠ q) :
    wanted (queues.set q tq') b j = wanted queues b j :=
  wanted_congr (by rw [Arena.get?_set, if_neg fun h => hj h.1])

theorem wanted_set_self (hq : queues.get? q = some tq) :
    wanted (queues.set q tq') b q = if tq'.waking = b then tq'.nextWakeUp else none :=
  wanted_of_get? (by rw [Arena.get?_set, hq]; simp)

theorem sorted_set {s : tq'.Sorted} (h : ∀ q tq, queues.get? q = some tq → tq.Sorted) :
    ∀ j tq, (queues.set q tq').get? j = some tq → tq.Sorted := by
  intro j tq hj
  rw [Arena.get?_set] at hj
  split_ifs at hj
  · cases hj
    exact s
  · exact h j tq hj

/-- A queue may be replaced silently if it still wants the same. -/
theorem Scheduled.set (w : Scheduled k) (hq : k.queues.get? q = some tq)
    (hk : tq'.waking = tq.waking) (hw : tq'.nextWakeUp = tq.nextWakeUp) (s : tq'.Sorted)
    (queues_eq : k'.queues = k.queues.set q tq') (waking_eq : k'.wakingAgenda = k.wakingAgenda)
    (nonWaking_eq : k'.nonWakingAgenda = k.nonWakingAgenda) (timer_eq : k'.timer = k.timer) :
    Scheduled k' := by
  have same : ∀ b j, wanted k'.queues b j = wanted k.queues b j := by
    intro b j
    rw [queues_eq]
    by_cases hj : j = q
    · rw [hj, wanted_set_self hq, wanted_of_get? hq, hk, hw]
    · exact wanted_set_of_ne hj
  refine ⟨?_, ?_, ?_, ?_⟩
  · rw [queues_eq]
    exact sorted_set (s := s) w.sorted
  · rw [waking_eq]
    exact w.waking.congr (same true)
  · rw [nonWaking_eq]
    exact w.nonWaking.congr (same false)
  · rw [timer_eq, waking_eq, w.timer]

/-- Both agendas are right after one of them was replaced and the timer armed as it said. -/
theorem Scheduled.withAgenda (w : Scheduled k) {ns : List Notice} {k' : Scheduler}
    (queues_eq : k'.queues = queues) (agenda_eq : k'.agenda (!b) = k.agenda (!b))
    (timer_eq : k'.timer = k.timer)
    (sorted : ∀ q tq, queues.get? q = some tq → tq.Sorted) (own : Holds a queues b)
    (other : ∀ q, wanted queues (!b) q = wanted k.queues (!b) q)
    (told : b = true → armed (k.agenda b).next? ns = a.next?) (quiet : b = false → ns = []) :
    Scheduled (k'.withAgenda b ns a) := by
  have holds := (w.holds (!b)).congr other
  rw [← agenda_eq] at holds
  subst queues_eq
  cases b with
  | true =>
      refine ⟨sorted, own, holds, ?_⟩
      show armed k'.timer ns = a.next?
      rw [timer_eq, w.timer]
      exact told rfl
  | false =>
      refine ⟨sorted, holds, own, ?_⟩
      show armed k'.timer ns = k'.wakingAgenda.next?
      rw [quiet rfl, show k'.wakingAgenda = k.wakingAgenda from agenda_eq]
      exact timer_eq.trans w.timer

theorem told_set (hb : a.waking = b) (x : Option WakeUp) :
    b = true → armed a.next? (a.set q now x).1 = (a.set q now x).2.next? :=
  fun h => Agenda.armed_set (hb.trans h) q now x

theorem quiet_set (hb : a.waking = b) (x : Option WakeUp) :
    b = false → (a.set q now x).1 = [] :=
  fun h => Agenda.notices_set (hb.trans h) q now x

theorem Scheduled.withQueue (w : Scheduled k) (hq : k.queues.get? q = some tq)
    (hk : tq'.waking = tq.waking) (s : tq'.Sorted) (now : Ticks)
    (selector : Selector) (workRequested : Bool) :
    Scheduled (({ k with selector := selector, workRequested := workRequested } :
      Scheduler).withQueue q tq' now) := by
  have holds := w.holds tq'.waking
  refine w.withAgenda rfl rfl rfl (sorted_set (s := s) w.sorted) ?_ (fun j => ?_)
    (told_set holds.kind _) (quiet_set holds.kind _)
  · refine holds.set now ?_ fun j hj => wanted_set_of_ne hj
    rw [wanted_set_self hq, if_pos rfl]
  · by_cases hj : j = q
    · rw [hj, wanted_set_self hq, wanted_of_get? hq, hk, if_neg (by simp), if_neg (by simp)]
    · exact wanted_set_of_ne hj

/-! ### Operations -/

theorem Scheduled.create (w : Scheduled k) (name : String) (waking : Bool) :
    Scheduled (k.create name waking).2 := by
  let tq : Queue := { name := name, waking := waking }
  have get? : ∀ j, (k.create name waking).2.queues.get? j =
      if j = (k.queues.insert tq).1 then some tq else k.queues.get? j :=
    fun j => Arena.get?_insert k.queues tq j
  -- a new queue wants nothing, as did the id before
  have same : ∀ b j, wanted (k.create name waking).2.queues b j = wanted k.queues b j := by
    intro b j
    by_cases hj : j = (k.queues.insert tq).1
    · have before : k.queues.get? j = none := by
        rw [hj]
        exact Arena.get?_fst_insert k.queues tq
      have after : (k.create name waking).2.queues.get? j = some tq := by rw [get?, if_pos hj]
      rw [wanted_of_get?_eq_none before, wanted_of_get? after]
      cases b <;> cases waking <;> rfl
    · exact wanted_congr (by rw [get?, if_neg hj])
  refine ⟨fun j tq' hj => ?_, w.waking.congr (same true), w.nonWaking.congr (same false), w.timer⟩
  rw [get?] at hj
  split_ifs at hj
  · cases hj
    exact List.Pairwise.nil
  · exact w.sorted j tq' hj

theorem wanted_erase (queues : Arena Queue) (q : QueueId) (b : Bool) (j : QueueId) :
    wanted (queues.erase q) b j = if j = q then none else wanted queues b j := by
  split_ifs with hj
  · exact wanted_of_get?_eq_none (by rw [Arena.get?_erase, if_pos hj])
  · exact wanted_congr (by rw [Arena.get?_erase, if_neg hj])

theorem Holds.unregister (h : Holds a queues b) (q : QueueId) (now : Ticks) :
    Holds (a.unregister q now).2 (queues.erase q) b := by
  unfold Agenda.unregister
  split_ifs with hc
  · refine h.set now ?_ fun j hj => ?_
    · rw [wanted_erase, if_pos rfl]
    · rw [wanted_erase, if_neg hj]
  · -- a queue without an entry wanted nothing
    refine h.congr fun j => ?_
    rw [wanted_erase]
    split_ifs with hj
    · rw [hj, ← h.entries, eq_comm, Option.eq_none_iff_forall_ne_some]
      intro x hx
      exact hc (h.wf.tracked.contains_iff.2 ⟨x, hx⟩)
    · rfl

theorem told_unregister (hb : a.waking = b) :
    b = true → armed a.next? (a.unregister q now).1 = (a.unregister q now).2.next? := by
  intro h
  unfold Agenda.unregister
  split_ifs
  · exact told_set hb none h
  · rfl

theorem quiet_unregister (hb : a.waking = b) : b = false → (a.unregister q now).1 = [] := by
  intro h
  unfold Agenda.unregister
  split_ifs
  · exact quiet_set hb none h
  · rfl

theorem Scheduled.remove (w : Scheduled k) {now : Ticks} {ts : List Ticket}
    (h : k.remove q now = .ok (ts, k')) : Scheduled k' := by
  cases outcome_remove h with
  | same => exact w
  | @remove _ tq _ hq =>
      have holds := w.holds tq.waking
      refine w.withAgenda rfl (by cases tq.waking <;> rfl) rfl (fun j tq' hj => ?_)
        (holds.unregister q now) (fun j => ?_) (told_unregister holds.kind)
        (quiet_unregister holds.kind)
      · dsimp only at hj
        rw [Arena.get?_erase] at hj
        split_ifs at hj
        exact w.sorted j tq' hj
      · -- a queue of this kind wants nothing of the other agenda
        rw [wanted_erase]
        split_ifs with hj
        · rw [hj, wanted_of_get? hq, if_neg (by simp)]
        · rfl

theorem Scheduled.setLevel (w : Scheduled k) {l : Level} (h : k.setLevel q l = .ok k') :
    Scheduled k' := by
  cases outcome_setLevel h with
  | same => exact w
  | @setLevel _ tq _ hq =>
      have s : Queue.Sorted { tq with level := l } := w.sorted q tq hq
      exact w.set hq (by rfl) (by rfl) s rfl rfl rfl rfl

theorem Scheduled.setEnabled (w : Scheduled k) {on : Bool} {now : Ticks}
    (h : k.setEnabled q on now = .ok k') : Scheduled k' := by
  cases outcome_setEnabled h with
  | same => exact w
  | @enable _ tq _ hq =>
      have s : Queue.Sorted { tq with enabled := true } := w.sorted q tq hq
      exact w.withQueue hq (by rfl) s now _ _
  | @disable _ tq _ hq =>
      have s : Queue.Sorted { tq with enabled := false } := w.sorted q tq hq
      exact w.withQueue hq (by rfl) s now _ _

theorem Scheduled.post (w : Scheduled k) {t : Ticket} (h : k.post q t = .ok k') :
    Scheduled k' := by
  cases outcome_post h with
  | same => exact w
  | @post _ tq _ hq =>
      have s : (tq.post ⟨k.stamps.issue.1, t⟩).Sorted := w.sorted q tq hq
      exact w.set hq (by rfl) (by rfl) s rfl rfl rfl rfl

theorem Scheduled.postDelayed (w : Scheduled k) {delay leeway : Duration} {policy : Policy}
    {now : Ticks} {t : Ticket} (h : k.postDelayed q delay leeway policy now t = .ok k') :
    Scheduled k' := by
  cases outcome_postDelayed h with
  | same => exact w
  | @postDelayed _ tq _ _ _ _ _ hq =>
      have s := (w.sorted q tq hq).postDelayed (now + delay) leeway policy
        (decide (delay < k.settings.highResolutionBelow)) t
      exact w.withQueue hq (by rfl) s now k.selector k.workRequested

theorem Scheduled.take (w : Scheduled k) (m : Mirrored k) (isCanceled : Ticket → Bool) :
    Scheduled (k.take isCanceled).2 := by
  have o := m.outcome_take isCanceled
  generalize (k.take isCanceled).2 = k' at o ⊢
  cases o with
  | same => exact w
  | @take _ pick selector tq t rest _ hq =>
      have kept : ∀ h ts, (tq.withReady h ts).waking = tq.waking ∧
          (tq.withReady h ts).nextWakeUp = tq.nextWakeUp ∧
          (tq.withReady h ts).waiting = tq.waiting := fun h ts => by
        cases h <;> exact ⟨rfl, rfl, rfl⟩
      obtain ⟨hk, hw, hs⟩ := kept pick.half rest
      refine w.set hq hk hw ?_ rfl rfl rfl rfl
      unfold Queue.Sorted
      rw [hs]
      exact w.sorted _ tq hq

end Dispatch.Scheduler
