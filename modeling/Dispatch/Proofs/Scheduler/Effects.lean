import Dispatch.Proofs.Scheduler.Run
import Dispatch.Proofs.Scheduler.Waking

/-!
# What operations make of queues

`Treats` lists what an operation may make of a queue that was there before, and `Reachable.treats`
says that nothing else happens.  What holds of a queue through all of these is an invariant of all
queues, such as the numbers of the waiting tasks (`Reachable.numbered`).  What inserting, erasing
and replacing queues keeps holds of them after any operation (`Outcome.queues`).  No operation takes
a stamp back (`Reachable.stamps_perform`).
-/

namespace Dispatch

theorem Queue.dropWaiting_zero (q : Queue) : q.dropWaiting 0 = q := by
  simp [dropWaiting]

theorem Queue.dropWaiting_dropWaiting (q : Queue) (m n : Nat) :
    (q.dropWaiting m).dropWaiting n = q.dropWaiting (m + n) := by
  unfold dropWaiting
  simp only [List.drop_drop, List.take_add, List.countP_append, Nat.sub_sub]

namespace Scheduler

/-- What an operation from `k` to `k'` may make of the queue `q`. -/
inductive Treats (k k' : Scheduler) (q : QueueId) : Operation → Queue → Queue → Prop
  | leave (op : Operation) (tq : Queue) : Treats k k' q op tq tq
  | setLevel (l : Level) (tq : Queue) : Treats k k' q (.setLevel q l) tq { tq with level := l }
  | setEnabled (on : Bool) (now : Ticks) (tq : Queue) :
      Treats k k' q (.setEnabled q on now) tq { tq with enabled := on }
  | post (t : Ticket) (tq : Queue) (issued : k'.stamps = k.stamps.issue.2) :
      Treats k k' q (.post q t) tq (tq.post ⟨k.stamps.issue.1, t⟩)
  | postDelayed (delay leeway : Duration) (policy : Policy) (now : Ticks) (t : Ticket) (high : Bool)
      (tq : Queue) (precise : high = decide (delay < k.settings.highResolutionBelow)) :
      Treats k k' q (.postDelayed q delay leeway policy now t) tq
        (tq.postDelayed (now + delay) leeway policy high t)
  | promote (now : Ticks) (isCanceled : Ticket → Bool) {tq : Queue} (enabled : tq.enabled = true)
      (issued : k'.stamps = k.stamps.issue.2) :
      Treats k k' q (.promote now isCanceled) tq (tq.promoted now k.stamps.issue.1 isCanceled)
  | sweep (now : Ticks) (isCanceled : Ticket → Bool) {tq : Queue} {n : Nat}
      (canceled : ∀ t ∈ tq.waiting.take n, isCanceled t.ticket = true) :
      Treats k k' q (.sweep now isCanceled) tq (tq.dropWaiting n)
  | take (isCanceled : Ticket → Bool) {tq : Queue} {h : Half} {t : ReadyTask}
      {rest : List ReadyTask} (front : tq.ready h = t :: rest) :
      Treats k k' q (.take isCanceled) tq (tq.withReady h rest)

/-- Every queue that is there after an operation was there before, and was treated as it may be. -/
def Treated (k : Scheduler) (op : Operation) (k' : Scheduler) : Prop :=
  ∀ q tq', k'.queues.get? q = some tq' →
    ∃ tq, k.queues.get? q = some tq ∧ Treats k k' q op tq tq'

variable {settings : Settings} {k k' : Scheduler} {op : Operation} {q : QueueId} {tq tq' : Queue}

theorem treated_of_queues_eq (h : k'.queues = k.queues) : Treated k op k' := by
  intro q tq' hq
  rw [h] at hq
  exact ⟨tq', hq, .leave op tq'⟩

theorem treated_of_set (hq : k.queues.get? q = some tq) (t : Treats k k' q op tq tq')
    (h : k'.queues = k.queues.set q tq') : Treated k op k' := by
  intro j x hj
  rw [h, Arena.get?_set, hq] at hj
  split_ifs at hj with hjq
  · cases hj
    obtain ⟨rfl, -⟩ := hjq
    exact ⟨tq, hq, t⟩
  · exact ⟨x, hj, .leave op x⟩

theorem treated_postDelayed {delay leeway : Duration} {policy : Policy} {now : Ticks} {t : Ticket}
    (h : k.postDelayed q delay leeway policy now t = .ok k') :
    Treated k (.postDelayed q delay leeway policy now t) k' := by
  cases outcome_postDelayed h with
  | same => exact treated_of_queues_eq rfl
  | @postDelayed _ tq _ _ _ _ _ hq =>
      exact treated_of_set hq (.postDelayed delay leeway policy now t _ tq rfl)
        (queues_withQueue _ _ _ _)

/-- A promotion for which no wake-up is due changes nothing, and so issues no stamp. -/
theorem Scheduled.treated_promote {now : Ticks} (w : Scheduled k)
    (due : k.hasDueWakeUp now = true) (isCanceled : Ticket → Bool) :
    Treated k (.promote now isCanceled) (k.promote now isCanceled).2 := by
  intro q tq' hq
  rw [w.get?_promote] at hq
  obtain ⟨tq, htq, rfl⟩ := Option.map_eq_some_iff.1 hq
  refine ⟨tq, htq, ?_⟩
  split_ifs with enabled
  · refine .promote now isCanceled enabled ?_
    unfold Scheduler.promote
    rw [if_pos due]
    exact afterPasses_frame (f := Scheduler.stamps) (fun _ _ _ _ _ _ => rfl) _ _ _
  · exact .leave _ tq

/-- Compared with `k`, the queues have lost some tasks at the front of those that wait, which were
canceled. -/
def Stores.TrimmedFrom (k : Scheduler) (isCanceled : Ticket → Bool) (s : Stores) : Prop :=
  ∀ q tq', s.queues.get? q = some tq' → ∃ tq n, k.queues.get? q = some tq ∧
    tq' = tq.dropWaiting n ∧ ∀ t ∈ tq.waiting.take n, isCanceled t.ticket = true

/-- Trimming a queue twice takes the tasks away together. -/
theorem Stores.TrimmedFrom.trim {s : Stores} {isCanceled : Ticket → Bool}
    (h : s.TrimmedFrom k isCanceled) (q : QueueId) :
    (s.trim isCanceled q).2.TrimmedFrom k isCanceled := by
  unfold Stores.trim
  cases hq : s.queues.get? q with
  | none => exact h
  | some tq' =>
      intro j x hj
      dsimp only at hj
      rw [Arena.get?_set, hq] at hj
      split_ifs at hj with hjq
      · cases hj
        obtain ⟨rfl, -⟩ := hjq
        obtain ⟨tq, n, htq, rfl, canceled⟩ := h j tq' hq
        have more : ∀ t ∈ (tq.waiting.drop n).takeWhile fun t => isCanceled t.ticket,
            isCanceled t.ticket = true :=
          fun t ht => List.mem_takeWhile_imp (p := fun t : WaitingTask => isCanceled t.ticket) ht
        refine ⟨tq, n + ((tq.waiting.drop n).takeWhile fun t => isCanceled t.ticket).length, htq,
          Queue.dropWaiting_dropWaiting tq n _, fun t ht => ?_⟩
        rw [List.take_add, List.mem_append,
          ← List.prefix_iff_eq_take.1 (List.takeWhile_prefix _)] at ht
        exact ht.elim (canceled t) (more t)
      · exact h j x hj

theorem treated_sweep (k : Scheduler) (now : Ticks) (isCanceled : Ticket → Bool) :
    Treated k (.sweep now isCanceled) (k.sweep now isCanceled).2 := by
  have pass (a : Agenda) (n : Nat) (s : Stores) (h : s.TrimmedFrom k isCanceled) :
      (a.trim (owner isCanceled) now n s).owner.TrimmedFrom k isCanceled :=
    Agenda.owner_trim (o := owner isCanceled) (fun q _ h => h.trim q) (fun _ _ h => h) n h
  have start : k.stores.TrimmedFrom k isCanceled := fun q tq hq =>
    ⟨tq, 0, hq, tq.dropWaiting_zero.symm, by simp⟩
  intro q tq' hq
  unfold Scheduler.sweep at hq
  dsimp only at hq
  rw [queues_afterPasses] at hq
  obtain ⟨tq, n, htq, rfl, canceled⟩ := pass _ _ _ (pass _ _ _ start) q tq' hq
  exact ⟨tq, htq, .sweep now isCanceled canceled⟩

/-- Unless it makes a queue, an operation treats all queues as it may. -/
theorem Outcome.treated (o : Outcome k op k') (w : Scheduled k)
    (kept : ∀ name waking, op ≠ .create name waking) : Treated k op k' := by
  cases o with
  | same | takeWorkRequest => exact treated_of_queues_eq rfl
  | create name waking => exact absurd rfl (kept name waking)
  | remove =>
      intro j x hj
      rw [queues_withAgenda, Arena.get?_erase] at hj
      split_ifs at hj
      exact ⟨x, hj, .leave _ x⟩
  | @setLevel _ tq l hq => exact treated_of_set hq (.setLevel l tq) rfl
  | @enable _ tq now hq =>
      exact treated_of_set hq (.setEnabled true now tq) (queues_withQueue _ _ _ _)
  | @disable _ tq now hq =>
      exact treated_of_set hq (.setEnabled false now tq) (queues_withQueue _ _ _ _)
  | @post _ tq t hq => exact treated_of_set hq (.post t tq rfl) rfl
  | @postDelayed _ tq delay leeway policy now t hq =>
      exact treated_of_set hq (.postDelayed delay leeway policy now t _ tq rfl)
        (queues_withQueue _ _ _ _)
  | @promote now isCanceled due _ _ first second =>
      subst second first
      have promoted := w.treated_promote due isCanceled
      rwa [show k.promote now isCanceled = _ from if_pos due] at promoted
  | @sweep now isCanceled _ _ first second =>
      subst second first
      exact k.treated_sweep now isCanceled
  | take isCanceled _ hq front => exact treated_of_set hq (.take isCanceled front) rfl

/-- A queue that is there after an operation is new, or was treated as the operation may. -/
theorem Reachable.treats (r : Reachable settings k) (h : (k.perform op).queues.get? q = some tq') :
    (∃ name waking, op = .create name waking ∧ tq' = { name := name, waking := waking }) ∨
      ∃ tq, k.queues.get? q = some tq ∧ Treats k (k.perform op) q op tq tq' := by
  by_cases creates : ∃ name waking, op = .create name waking
  · obtain ⟨name, waking, rfl⟩ := creates
    change (k.queues.insert { name := name, waking := waking }).2.get? q = some tq' at h
    rw [Arena.get?_insert] at h
    split_ifs at h
    · cases h
      exact Or.inl ⟨name, waking, rfl, rfl⟩
    · exact Or.inr ⟨tq', h, .leave _ tq'⟩
  · have kept (name : String) (waking : Bool) : op ≠ .create name waking :=
      fun e => creates ⟨name, waking, e⟩
    exact Or.inr ((r.mirrored.outcome op).treated r.scheduled kept q tq' h)

/-! ### What all operations keep -/

section Queues

variable {P : Arena Queue → Prop}

/-- A pass that wakes queues replaces queues, and does nothing else to them. -/
theorem queues_promote (set : ∀ a q tq, P a → P (a.set q tq)) (a : Agenda) (now : Ticks)
    (stamp : Stamp) (isCanceled : Ticket → Bool) (rounds : Nat) {s : Stores} (h : P s.queues) :
    P (a.promote (owner isCanceled) now stamp rounds s).owner.queues := by
  refine Agenda.owner_promote (o := owner isCanceled) (I := fun s => P s.queues)
    (fun q s hs => ?_) (fun _ _ hs => hs) rounds h
  show P (s.wake isCanceled q now stamp).2.queues
  unfold Stores.wake
  cases s.queues.get? q with
  | none => exact hs
  | some tq => exact set _ q _ hs

/-- So does a pass that removes canceled tasks. -/
theorem queues_trim (set : ∀ a q tq, P a → P (a.set q tq)) (a : Agenda) (now : Ticks)
    (isCanceled : Ticket → Bool) (rounds : Nat) {s : Stores} (h : P s.queues) :
    P (a.trim (owner isCanceled) now rounds s).owner.queues := by
  refine Agenda.owner_trim (o := owner isCanceled) (I := fun s => P s.queues)
    (fun q s hs => ?_) (fun _ _ hs => hs) rounds h
  show P (s.trim isCanceled q).2.queues
  unfold Stores.trim
  cases s.queues.get? q with
  | none => exact hs
  | some tq => exact set _ q _ hs

/-- Operations insert, remove and replace queues, so what these three keep, all operations keep. -/
theorem Outcome.queues (o : Outcome k op k') (insert : ∀ a tq, P a → P (a.insert tq).2)
    (erase : ∀ a q now, op = .remove q now → P a → P (a.erase q))
    (set : ∀ a q tq, P a → P (a.set q tq)) (h : P k.queues) : P k'.queues := by
  cases o with
  | same | takeWorkRequest => exact h
  | create => exact insert _ _ h
  | remove now =>
      rw [queues_withAgenda]
      exact erase _ _ now rfl h
  | setLevel | post | take => exact set _ _ _ h
  | enable | disable | postDelayed =>
      rw [queues_withQueue]
      exact set _ _ _ h
  | promote _ first second =>
      rw [queues_afterPasses, second, first]
      exact queues_promote set _ _ _ _ _ (queues_promote set _ _ _ _ _ h)
  | sweep first second =>
      rw [queues_afterPasses, second, first]
      exact queues_trim set _ _ _ _ (queues_trim set _ _ _ _ h)

end Queues

/-- A queue stays until it is removed. -/
theorem Outcome.isSome_get? (o : Outcome k op k') (hq : (k.queues.get? q).isSome)
    (kept : ∀ now, op ≠ .remove q now) : (k'.queues.get? q).isSome := by
  refine o.queues (P := fun a => (a.get? q).isSome) (fun a tq h => ?_) (fun a j now e h => ?_)
    (fun a j tq h => ?_) hq
  · rw [Arena.get?_insert]
    split_ifs
    · rfl
    · exact h
  · rw [Arena.get?_erase, if_neg]
    · exact h
    · rintro rfl
      exact kept now e
  · rw [Arena.get?_set]
    split_ifs
    · rfl
    · exact h

/-- A queue that is not removed is treated as the operation may. -/
theorem Reachable.treats_get? (r : Reachable settings k) (hq : k.queues.get? q = some tq)
    (kept : ∀ now, op ≠ .remove q now) :
    ∃ tq', (k.perform op).queues.get? q = some tq' ∧ Treats k (k.perform op) q op tq tq' := by
  obtain ⟨tq', hq'⟩ := Option.isSome_iff_exists.1
    ((r.mirrored.outcome op).isSome_get? (by rw [hq]; rfl) kept)
  refine ⟨tq', hq', ?_⟩
  rcases r.treats hq' with ⟨name, waking, rfl, -⟩ | ⟨tq₀, hq₀, e⟩
  · -- the id of a new queue names nothing before
    change (k.queues.insert { name := name, waking := waking }).2.get? q = some tq' at hq'
    rw [Arena.get?_insert] at hq'
    split_ifs at hq' with new
    · rw [new, Arena.get?_fst_insert] at hq
      cases hq
    · obtain rfl : tq = tq' := Option.some.inj (hq.symm.trans hq')
      exact .leave _ tq
  · obtain rfl : tq₀ = tq := Option.some.inj (hq₀.symm.trans hq)
    exact e

theorem get?_ofSettings (settings : Settings) (q : QueueId) :
    (ofSettings settings).queues.get? q = none := by
  obtain ⟨_ | i, v⟩ := q <;> rfl

/-! ### The order of posting -/

theorem Treats.numbered (t : Treats k k' q op tq tq') (n : tq.Numbered) : tq'.Numbered := by
  cases t with
  | leave => exact n
  | setLevel => exact n.sublist (.refl _) rfl
  | setEnabled => exact n.sublist (.refl _) rfl
  | post => exact n.sublist (.refl _) rfl
  | postDelayed => exact n.postDelayed _ _ _ _ _
  | promote => exact n.sublist (List.filter_sublist ..) rfl
  | sweep => exact n.sublist (List.drop_sublist ..) rfl
  | @take _ _ h => cases h <;> exact n.sublist (.refl _) rfl

theorem Reachable.numbered (r : Reachable settings k) :
    ∀ q tq, k.queues.get? q = some tq → tq.Numbered := by
  refine r.induct_perform (P := fun k => ∀ q tq, k.queues.get? q = some tq → tq.Numbered)
    (fun q tq hq => ?_) fun k op r ih q tq' hq => ?_
  · rw [get?_ofSettings] at hq
    cases hq
  · rcases r.treats hq with ⟨name, waking, -, rfl⟩ | ⟨tq, htq, t⟩
    · exact ⟨List.nodup_nil, fun t ht => absurd ht List.not_mem_nil⟩
    · exact t.numbered (ih q tq htq)

/-! ### Stamps -/

/-- An operation issues one stamp or none. -/
theorem Reachable.stamps_perform (r : Reachable settings k) (op : Operation) :
    (k.perform op).stamps = k.stamps ∨ (k.perform op).stamps = k.stamps.issue.2 := by
  have o := r.mirrored.outcome op
  generalize k.perform op = k' at o ⊢
  cases o with
  | same | create | setLevel | take | takeWorkRequest => exact Or.inl rfl
  | remove =>
      exact Or.inl (withAgenda_frame (f := Scheduler.stamps) (fun _ _ _ _ => rfl) _ _ _ _)
  | enable | disable | postDelayed =>
      exact Or.inl (withQueue_frame (f := Scheduler.stamps) (fun _ _ _ _ _ => rfl) _ _ _ _)
  | post => exact Or.inr rfl
  | promote =>
      exact Or.inr (afterPasses_frame (f := Scheduler.stamps) (fun _ _ _ _ _ _ => rfl) _ _ _)
  | sweep =>
      exact Or.inl (afterPasses_frame (f := Scheduler.stamps) (fun _ _ _ _ _ _ => rfl) _ _ _)

end Scheduler

end Dispatch
