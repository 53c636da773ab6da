import Dispatch.Proofs.Queue.Due
import Dispatch.Proofs.Scheduler.Passes
import Dispatch.Proofs.Wake.Drain

/-!
# What a promotion does to the queues

A pass over the agenda of one kind wakes the enabled queues of that kind in which a task is due,
each once (`promote_pass`).  Waking a queue replaces it alone and answers its canceled tasks, so
waking several, no two of them the same, promotes each (`Stores.get?_wakeAll`).  Two passes together
promote every enabled queue (`Scheduled.get?_promote`).
-/

namespace Dispatch

/-- An entry on top stays there when it is entered again. -/
theorem Agenda.WF.first?_set {a : Agenda} {q : QueueId} {w : WakeUp} (h : a.WF)
    (top : a.entries.min? = some (q, w)) (now : Ticks) :
    (a.set q now (some w)).2.first? = some q := by
  show (a.entries.insert q w).min?.map Prod.fst = some q
  rw [KeyedHeap.WF.insert_of_min? h top, top]
  rfl

namespace Scheduler

variable {isCanceled : Ticket → Bool} {now : Ticks} {stamp : Stamp} {s : Stores} {q : QueueId}
  {qs : List QueueId}

/-! ### Waking several queues -/

namespace Stores

/-- Wakes queues one after the other. -/
def wakeAll (isCanceled : Ticket → Bool) (now : Ticks) (stamp : Stamp) (s : Stores)
    (qs : List QueueId) : Stores :=
  qs.foldl (fun s q => (s.wake isCanceled q now stamp).2) s

/-- The canceled tasks that are due in a queue. -/
def dueCanceled (s : Stores) (now : Ticks) (isCanceled : Ticket → Bool) (q : QueueId) :
    List Ticket :=
  (s.queues.get? q).elim [] fun tq => tq.dueCanceled now isCanceled

/-- In every queue the waiting tasks come in the order in which they may run. -/
def Sorted (s : Stores) : Prop := ∀ q tq, s.queues.get? q = some tq → tq.Sorted

theorem get?_wake (h : s.Sorted) (j : QueueId) :
    (s.wake isCanceled q now stamp).2.queues.get? j =
      if j = q then (s.queues.get? q).map fun tq => tq.promoted now stamp isCanceled
      else s.queues.get? j := by
  unfold wake
  cases hq : s.queues.get? q with
  | none =>
      by_cases hj : j = q
      · rw [if_pos hj, hj]
        exact hq
      · rw [if_neg hj]
  | some tq =>
      dsimp only
      rw [(h q tq hq).promote_eq, Arena.get?_set, hq]
      simp

theorem canceled_wake (h : s.Sorted) :
    (s.wake isCanceled q now stamp).2.canceled = s.canceled ++ s.dueCanceled now isCanceled q := by
  unfold wake dueCanceled
  cases hq : s.queues.get? q with
  | none => exact (List.append_nil _).symm
  | some tq =>
      dsimp only
      rw [(h q tq hq).promote_eq]
      rfl

theorem Sorted.wake (h : s.Sorted) (isCanceled : Ticket → Bool) (q : QueueId) (now : Ticks)
    (stamp : Stamp) : (s.wake isCanceled q now stamp).2.Sorted := by
  intro j tq hj
  rw [get?_wake h] at hj
  split_ifs at hj
  · obtain ⟨tq, hq, rfl⟩ := Option.map_eq_some_iff.1 hj
    have := (h q tq hq).promote now stamp isCanceled
    rwa [(h q tq hq).promote_eq] at this
  · exact h j tq hj

theorem get?_wakeAll (h : s.Sorted) (nodup : qs.Nodup) (j : QueueId) :
    (s.wakeAll isCanceled now stamp qs).queues.get? j =
      if j ∈ qs then (s.queues.get? j).map fun tq => tq.promoted now stamp isCanceled
      else s.queues.get? j := by
  induction qs generalizing s with
  | nil => rfl
  | cons q qs ih =>
      obtain ⟨hq, nodup⟩ := List.nodup_cons.1 nodup
      show ((s.wake isCanceled q now stamp).2.wakeAll isCanceled now stamp qs).queues.get? j = _
      rw [ih (h.wake isCanceled q now stamp) nodup, get?_wake h]
      by_cases hj : j = q
      · subst hj
        rw [if_neg hq, if_pos rfl, if_pos List.mem_cons_self]
      · simp [hj]

theorem canceled_wakeAll (h : s.Sorted) (nodup : qs.Nodup) :
    (s.wakeAll isCanceled now stamp qs).canceled =
      s.canceled ++ qs.flatMap (s.dueCanceled now isCanceled) := by
  induction qs generalizing s with
  | nil => exact (List.append_nil _).symm
  | cons q qs ih =>
      obtain ⟨hq, nodup⟩ := List.nodup_cons.1 nodup
      have others : ∀ j ∈ qs, (s.wake isCanceled q now stamp).2.dueCanceled now isCanceled j =
          s.dueCanceled now isCanceled j := by
        intro j hj
        unfold dueCanceled
        rw [get?_wake h, if_neg (by rintro rfl; exact hq hj)]
      show ((s.wake isCanceled q now stamp).2.wakeAll isCanceled now stamp qs).canceled = _
      rw [ih (h.wake isCanceled q now stamp) nodup, canceled_wake h, List.append_assoc,
        List.flatMap_cons, List.flatMap_congr others]

end Stores

/-! ### One pass -/

variable {a : Agenda} {b : Bool} {queues : Arena Queue} {p : Agenda.Pass Stores}

/-- An enabled queue of one kind, in which a task is due. -/
def HasDue (queues : Arena Queue) (b : Bool) (now : Ticks) (q : QueueId) : Prop :=
  ∃ tq, queues.get? q = some tq ∧ tq.waking = b ∧ tq.enabled = true ∧
    ∃ t ∈ tq.waiting, t.isDue now = true

/-- An agenda that is up to date has wake-ups that are ready for these queues alone. -/
theorem Holds.exists_isReady_iff (h : Holds a queues b)
    (sorted : ∀ q tq, queues.get? q = some tq → tq.Sorted) :
    (∃ w, a.get? q = some w ∧ w.isReady now = true) ↔ HasDue queues b now q := by
  constructor
  · rintro ⟨w, hw, hr⟩
    obtain ⟨tq, hq, hb⟩ := h.exists_queue hw
    rw [h.entries, wanted_of_get? hq, if_pos hb] at hw
    exact ⟨tq, hq, hb, (sorted q tq hq).exists_isReady_iff.1 ⟨w, hw, hr⟩⟩
  · rintro ⟨tq, hq, hb, due⟩
    obtain ⟨w, hw, hr⟩ := (sorted q tq hq).exists_isReady_iff.2 due
    exact ⟨w, by rw [h.entries, wanted_of_get? hq, if_pos hb, hw], hr⟩

/-- The queue on top stays there when it is asked again, because it wants what its entry says. -/
theorem Holds.first?_refresh (h : Holds p.agenda p.owner.queues b) (hf : p.agenda.first? = some q) :
    (p.refresh (owner isCanceled) q now).agenda.first? = some q := by
  obtain ⟨⟨q, w⟩, top, rfl⟩ := Option.map_eq_some_iff.1 hf
  have entry : p.agenda.get? q = some w := h.wf.get?_of_min? top
  obtain ⟨tq, hq, hb⟩ := h.exists_queue entry
  rw [h.entries, wanted_of_get? hq, if_pos hb] at entry
  rw [refresh_eq hq, entry]
  exact h.wf.first?_set top now

/-- Asking what queues want changes nothing else. -/
theorem settle_frame (n : Nat) (last : Option QueueId) :
    (Agenda.Pass.settle (owner isCanceled) now n last p).owner = p.owner ∧
      (Agenda.Pass.settle (owner isCanceled) now n last p).deferred = p.deferred :=
  Agenda.Pass.settle_induct (o := owner isCanceled)
    (P := fun p' => p'.owner = p.owner ∧ p'.deferred = p.deferred) (fun _ _ h _ => h) n last p
    ⟨rfl, rfl⟩

/-- A pass over an agenda that is up to date ends by itself and puts no wake-up aside.  The owner is
left as waking the queues with a due task leaves it, each once. -/
theorem promote_pass (sorted : s.Sorted) (own : Holds a s.queues b) (isCanceled : Ticket → Bool)
    (now : Ticks) (stamp : Stamp) :
    let p := a.promote (owner isCanceled) now stamp (a.size + 1) s
    ∃ ds, a.Promotes (owner isCanceled) now stamp s ds p ∧ p.deferred = [] ∧
      p.owner = s.wakeAll isCanceled now stamp (ds.map Prod.fst) ∧ (ds.map Prod.fst).Nodup ∧
      ∀ q, q ∈ ds.map Prod.fst ↔ HasDue s.queues b now q := by
  intro p
  have h : a.WF := own.wf
  obtain ⟨ds, drains⟩ := Agenda.Pass.exists_drains_start h (owner isCanceled) now stamp s
  have tends : Tends b s.queues a.next? (Agenda.Pass.drain (owner isCanceled) now stamp a.size
      { agenda := a, owner := s }) :=
    Agenda.Pass.drain_induct (fun _ _ _ t hm _ => t.wake hm) _ _ (tends_start sorted own)
  have hp : p = _ := Agenda.promote_eq a (owner isCanceled) now stamp (a.size + 1) s
  rw [Agenda.Pass.enterDeferred_of_nil _ tends.deferred] at hp
  generalize Agenda.Pass.drain (owner isCanceled) now stamp a.size { agenda := a, owner := s } = d
    at drains tends hp
  have woken : d.woken = ds.length := drains.woken_eq.trans (Nat.zero_add _)
  have frame : p.owner = d.owner ∧ p.deferred = d.deferred := by
    rw [hp]
    split_ifs
    · exact ⟨rfl, rfl⟩
    · exact settle_frame _ _
  refine ⟨ds, ⟨d, drains, ?_⟩, frame.2.trans tends.deferred, ?_, drains.nodup h, fun q => ?_⟩
  · rw [Agenda.Pass.enterDeferred_of_nil _ tends.deferred, hp]
    split_ifs with h₀
    · rfl
    · -- some queue was woken, so there are two rounds at least
      refine Agenda.Pass.settles_of_stays (fun _ => ?_) fun q hf => tends.own.first?_refresh hf
      obtain ⟨⟨q, w⟩, hm⟩ := List.exists_mem_of_length_pos (by omega : 0 < ds.length)
      have entry := ((drains.mem_iff h).1 hm).1
      have pos : 0 < a.size := Array.size_pos_of_mem (h.tracked.get?_eq_some_iff.1 entry)
      omega
  · rw [frame.1, drains.owner_eq]
    unfold Stores.wakeAll
    rw [List.foldl_map]
    rfl
  · rw [List.mem_map, ← own.exists_isReady_iff sorted]
    constructor
    · rintro ⟨⟨q, w⟩, hm, rfl⟩
      exact ⟨w, (drains.mem_iff h).1 hm⟩
    · rintro ⟨w, hw⟩
      exact ⟨(q, w), (drains.mem_iff h).2 hw, rfl⟩

/-! ### Both passes -/

variable {k : Scheduler}

/-- An enabled queue in which a task is due. -/
def Due (k : Scheduler) (now : Ticks) (q : QueueId) : Prop :=
  ∃ tq, k.queues.get? q = some tq ∧ tq.enabled = true ∧ ∃ t ∈ tq.waiting, t.isDue now = true

theorem due_iff : k.Due now q ↔ HasDue k.queues true now q ∨ HasDue k.queues false now q := by
  constructor
  · rintro ⟨tq, hq, due⟩
    cases hb : tq.waking with
    | true => exact Or.inl ⟨tq, hq, hb, due⟩
    | false => exact Or.inr ⟨tq, hq, hb, due⟩
  · rintro (⟨tq, hq, -, due⟩ | ⟨tq, hq, -, due⟩) <;> exact ⟨tq, hq, due⟩

theorem Scheduled.hasDueWakeUp_iff (w : Scheduled k) :
    k.hasDueWakeUp now = true ↔ ∃ q, k.Due now q := by
  have agenda : ∀ {a : Agenda} {b : Bool}, Holds a k.queues b →
      (a.next?.any (·.isReady now) = true ↔ ∃ q, HasDue k.queues b now q) := by
    intro a b h
    rw [Option.any_eq_true]
    constructor
    · rintro ⟨v, hv, hr⟩
      obtain ⟨q, hq⟩ := (h.wf.next?_eq_some hv).1
      exact ⟨q, (h.exists_isReady_iff w.sorted).1 ⟨v, hq, hr⟩⟩
    · rintro ⟨q, due⟩
      obtain ⟨v, hq, hr⟩ := (h.exists_isReady_iff w.sorted).2 due
      cases hn : a.next? with
      | none =>
          rw [h.wf.next?_eq_none_iff.1 hn] at hq
          cases hq
      | some u => exact ⟨u, rfl, WakeUp.isReady_of_le ((h.wf.next?_eq_some hn).2 q v hq) hr⟩
  unfold hasDueWakeUp
  simp only [Bool.or_eq_true, agenda w.waking, agenda w.nonWaking, due_iff, exists_or]

/-- If a wake-up is due, a promotion wakes the enabled queues in which a task is due, those that may
arm the timer first, each once, and puts no wake-up aside. -/
theorem Scheduled.exists_promotes (w : Scheduled k) (due : k.hasDueWakeUp now = true)
    (isCanceled : Ticket → Bool) :
    ∃ ds ds' p p', k.wakingAgenda.Promotes (owner isCanceled) now k.stamps.issue.1 k.stores ds p ∧
      k.nonWakingAgenda.Promotes (owner isCanceled) now k.stamps.issue.1 p.owner ds' p' ∧
      p.deferred = [] ∧ p'.deferred = [] ∧
      k.promote now isCanceled = (p'.owner.canceled,
        ({ k with stamps := k.stamps.issue.2 } : Scheduler).afterPasses p p') ∧
      p'.owner = k.stores.wakeAll isCanceled now k.stamps.issue.1 ((ds ++ ds').map Prod.fst) ∧
      ((ds ++ ds').map Prod.fst).Nodup ∧ ∀ q, q ∈ (ds ++ ds').map Prod.fst ↔ k.Due now q := by
  have tends := (tends_start (s := k.stores) w.sorted w.waking).promote now k.stamps.issue.1
    isCanceled (k.wakingAgenda.size + 1)
  obtain ⟨ds, first, apart, owner_eq, nodup, mem_iff⟩ :=
    promote_pass (s := k.stores) w.sorted w.waking isCanceled now k.stamps.issue.1
  have promote_eq : k.promote now isCanceled = _ := if_pos due
  dsimp only at promote_eq
  generalize k.wakingAgenda.promote (owner isCanceled) now k.stamps.issue.1
    (k.wakingAgenda.size + 1) k.stores = p at tends first apart owner_eq promote_eq
  have own := w.nonWaking.congr tends.other
  obtain ⟨ds', second, apart', owner_eq', nodup', mem_iff'⟩ :=
    promote_pass tends.sorted own isCanceled now k.stamps.issue.1
  -- the first pass did not touch the queues of the other kind
  have same : ∀ q, HasDue p.owner.queues false now q ↔ HasDue k.queues false now q := fun q => by
    rw [← own.exists_isReady_iff tends.sorted, ← w.nonWaking.exists_isReady_iff w.sorted]
  refine ⟨ds, ds', p, _, first, second, apart, apart', promote_eq, ?_, ?_, fun q => ?_⟩
  · rw [owner_eq', owner_eq, List.map_append]
    exact List.foldl_append.symm
  · rw [List.map_append]
    refine List.nodup_append.2 ⟨nodup, nodup', fun q hq j hj => ?_⟩
    rintro rfl
    obtain ⟨tq, hq, hb, -⟩ := (mem_iff q).1 hq
    obtain ⟨tq', hq', hb', -⟩ := (same q).1 ((mem_iff' q).1 hj)
    rw [show k.queues.get? q = some tq from hq] at hq'
    cases hq'
    rw [hb] at hb'
    cases hb'
  · rw [List.map_append, List.mem_append, mem_iff, mem_iff', same, due_iff]
    rfl

/-- A promotion promotes the enabled queues and leaves the others as they are. -/
theorem Scheduled.get?_promote (w : Scheduled k) (now : Ticks) (isCanceled : Ticket → Bool)
    (q : QueueId) :
    (k.promote now isCanceled).2.queues.get? q = (k.queues.get? q).map fun tq =>
      if tq.enabled then tq.promoted now k.stamps.issue.1 isCanceled else tq := by
  -- no task is due in an enabled queue that is not woken
  have rest : ¬ k.Due now q → k.queues.get? q = (k.queues.get? q).map fun tq =>
      if tq.enabled then tq.promoted now k.stamps.issue.1 isCanceled else tq := by
    intro hd
    cases hq : k.queues.get? q with
    | none => rfl
    | some tq =>
        rw [Option.map_some]
        split_ifs with he
        · have nothing : ∀ t ∈ tq.waiting, ¬ t.isDue now = true :=
            fun t ht hr => hd ⟨tq, hq, he, t, ht, hr⟩
          rw [Queue.promoted_of_not_due nothing]
        · rfl
  by_cases due : k.hasDueWakeUp now = true
  · obtain ⟨ds, ds', p, p', -, -, -, -, promote_eq, owner_eq, nodup, mem_iff⟩ :=
      w.exists_promotes due isCanceled
    rw [promote_eq, queues_afterPasses, owner_eq,
      Stores.get?_wakeAll (s := k.stores) w.sorted nodup]
    split_ifs with hm
    · obtain ⟨tq, hq, he, -⟩ := (mem_iff q).1 hm
      show (k.queues.get? q).map _ = _
      rw [hq, Option.map_some, Option.map_some, if_pos he]
    · exact rest fun hd => hm ((mem_iff q).2 hd)
  · have promote_eq : k.promote now isCanceled = ([], k) := if_neg due
    rw [promote_eq]
    exact rest fun hd => due (w.hasDueWakeUp_iff.2 ⟨q, hd⟩)

end Scheduler

end Dispatch
