import Dispatch.Proofs.Scheduler.WakeUps

/-!
# Passes keep the wake-ups up to date

During a pass over the agenda of one kind, the agenda holds what the queues of that kind want, what
the queues of the other kind want has not changed, and the notices given so far lead from the first
wake-up at the start to the present one (`Tends`).  A queue that has been woken is not due, so no
wake-up is ever deferred.
-/

namespace Dispatch.Scheduler

variable {k : Scheduler} {queues : Arena Queue} {start : Option WakeUp} {b : Bool} {q : QueueId}
  {tq tq' : Queue} {p p' : Agenda.Pass Stores} {isCanceled : Ticket → Bool} {now : Ticks}
  {stamp : Stamp}

/-- A pass over the agenda of one kind that began with the given queues and first wake-up. -/
structure Tends (b : Bool) (queues : Arena Queue) (start : Option WakeUp)
    (p : Agenda.Pass Stores) : Prop where
  sorted : ∀ q tq, p.owner.queues.get? q = some tq → tq.Sorted
  own : Holds p.agenda p.owner.queues b
  other : ∀ q, wanted p.owner.queues (!b) q = wanted queues (!b) q
  deferred : p.deferred = []
  told : b = true → armed start p.notices = p.agenda.next?
  quiet : b = false → p.notices = []

theorem tends_start {a : Agenda} {s : Stores}
    (sorted : ∀ q tq, s.queues.get? q = some tq → tq.Sorted) (own : Holds a s.queues b) :
    Tends b s.queues a.next? { agenda := a, owner := s } :=
  ⟨sorted, own, fun _ => rfl, rfl, fun _ => rfl, fun _ => rfl⟩

/-- A queue of the kind may be replaced if the agenda is told what it wants now. -/
theorem Tends.set (t : Tends b queues start p) (hq : p.owner.queues.get? q = some tq)
    (hb : tq.waking = b) (hk : tq'.waking = tq.waking) (s : tq'.Sorted)
    (get?_eq : ∀ j, p'.owner.queues.get? j = if j = q then some tq' else p.owner.queues.get? j)
    (agenda_eq : p'.agenda = p.agenda) (notices_eq : p'.notices = p.notices)
    (deferred_eq : p'.deferred = p.deferred) :
    Tends b queues start (p'.set q now tq'.nextWakeUp) := by
  have self : p'.owner.queues.get? q = some tq' := by rw [get?_eq, if_pos rfl]
  have others : ∀ j, j ≠ q → p'.owner.queues.get? j = p.owner.queues.get? j := fun j hj => by
    rw [get?_eq, if_neg hj]
  have own : Holds p'.agenda p.owner.queues b := agenda_eq ▸ t.own
  refine ⟨fun j tq hj => ?_, own.set now ?_ fun j hj => wanted_congr (others j hj), fun j => ?_,
    deferred_eq.trans t.deferred, fun h => ?_, fun h => ?_⟩
  · rw [Agenda.Pass.owner_set, get?_eq] at hj
    split_ifs at hj
    · cases hj
      exact s
    · exact t.sorted j tq hj
  · rw [Agenda.Pass.owner_set, wanted_of_get? self, if_pos (hk.trans hb)]
  · rw [Agenda.Pass.owner_set]
    by_cases hj : j = q
    · rw [hj, wanted_of_get? self, hk, hb, if_neg (by simp), ← t.other q, wanted_of_get? hq, hb,
        if_neg (by simp)]
    · rw [wanted_congr (others j hj), t.other]
  · change armed start (p'.notices ++ _) = _
    rw [armed_append, notices_eq, t.told h, ← agenda_eq]
    exact told_set own.kind _ h
  · change p'.notices ++ _ = []
    rw [notices_eq, t.quiet h]
    exact quiet_set own.kind _ h

theorem Tends.congr (t : Tends b queues start p)
    (get?_eq : ∀ j, p'.owner.queues.get? j = p.owner.queues.get? j)
    (agenda_eq : p'.agenda = p.agenda) (notices_eq : p'.notices = p.notices)
    (deferred_eq : p'.deferred = p.deferred) : Tends b queues start p' := by
  have same : ∀ b j, wanted p'.owner.queues b j = wanted p.owner.queues b j :=
    fun b j => wanted_congr (get?_eq j)
  refine ⟨fun j tq hj => t.sorted j tq (get?_eq j ▸ hj), ?_, fun j => (same _ j).trans (t.other j),
    deferred_eq.trans t.deferred, fun h => ?_, fun h => notices_eq.trans (t.quiet h)⟩
  · rw [agenda_eq]
    exact t.own.congr (same b)
  · rw [notices_eq, agenda_eq, t.told h]

/-! ### The steps of a pass -/

/-- The owner answers what the queue wants next, so no wake-up is deferred. -/
theorem wake_eq (hq : p.owner.queues.get? q = some tq) :
    p.wake (owner isCanceled) q now stamp =
      ({ p with
          owner := ((owner isCanceled).wake q now stamp p.owner).2
          woken := p.woken + 1 } : Agenda.Pass Stores).set q now
        (tq.promote now stamp isCanceled).2.nextWakeUp := by
  have e : ((owner isCanceled).wake q now stamp p.owner).1 =
      (tq.promote now stamp isCanceled).2.nextWakeUp := by
    show (p.owner.wake isCanceled q now stamp).1 = _
    unfold Stores.wake
    rw [hq]
  unfold Agenda.Pass.wake
  dsimp only
  rw [e]
  cases hw : (tq.promote now stamp isCanceled).2.nextWakeUp with
  | none => rfl
  | some w =>
      dsimp only
      rw [Queue.not_isReady_of_promote hw]
      rfl

theorem Tends.wake (t : Tends b queues start p) {w : WakeUp}
    (hm : p.agenda.entries.min? = some (q, w)) :
    Tends b queues start (p.wake (owner isCanceled) q now stamp) := by
  obtain ⟨tq, hq, hb⟩ := t.own.exists_queue (t.own.wf.get?_of_min? hm)
  rw [wake_eq hq]
  refine t.set hq hb ?_ ((t.sorted q tq hq).promote now stamp isCanceled) (fun j => ?_) rfl rfl rfl
  · rfl
  · change (p.owner.wake isCanceled q now stamp).2.queues.get? j = _
    unfold Stores.wake
    rw [hq]
    dsimp only
    rw [Arena.get?_set, hq]
    simp

theorem refresh_eq (hq : p.owner.queues.get? q = some tq) :
    p.refresh (owner isCanceled) q now = p.set q now tq.nextWakeUp := by
  have e : p.owner.want q = tq.nextWakeUp := by
    rw [Stores.want, hq]
    rfl
  unfold Agenda.Pass.refresh owner
  dsimp only
  rw [e]

theorem Tends.refresh (t : Tends b queues start p) (hf : p.agenda.first? = some q) :
    Tends b queues start (p.refresh (owner isCanceled) q now) := by
  obtain ⟨w, hw⟩ := t.own.wf.get?_of_first? hf
  obtain ⟨tq, hq, hb⟩ := t.own.exists_queue hw
  rw [refresh_eq hq]
  refine t.set hq hb rfl (t.sorted q tq hq) (fun j => ?_) rfl rfl rfl
  split_ifs with hj
  · rw [hj, hq]
  · rfl

theorem trim_of_nil (h : (tq.trim isCanceled).1 = []) : (tq.trim isCanceled).2 = tq := by
  have hn : tq.waiting.takeWhile (fun t => isCanceled t.ticket) = [] := List.map_eq_nil_iff.1 h
  unfold Queue.trim
  dsimp only
  rw [hn]
  unfold Queue.dropWaiting
  simp

theorem Tends.trimOnce (t : Tends b queues start p) (hf : p.agenda.first? = some q) :
    Tends b queues start (p.trimOnce (owner isCanceled) q now) := by
  obtain ⟨w, hw⟩ := t.own.wf.get?_of_first? hf
  obtain ⟨tq, hq, hb⟩ := t.own.exists_queue hw
  have e : (owner isCanceled).trim q now p.owner = (!(tq.trim isCanceled).1.isEmpty,
      { p.owner with
        queues := p.owner.queues.set q (tq.trim isCanceled).2
        canceled := p.owner.canceled ++ (tq.trim isCanceled).1 }) := by
    show p.owner.trim isCanceled q = _
    unfold Stores.trim
    rw [hq]
  have get? : ∀ j, (p.owner.queues.set q (tq.trim isCanceled).2).get? j =
      if j = q then some (tq.trim isCanceled).2 else p.owner.queues.get? j := fun j => by
    rw [Arena.get?_set, hq]
    simp
  unfold Agenda.Pass.trimOnce
  rw [e]
  dsimp only
  split_ifs with hc
  · have self : (p.owner.queues.set q (tq.trim isCanceled).2).get? q =
        some (tq.trim isCanceled).2 := by rw [get?, if_pos rfl]
    rw [refresh_eq self]
    exact t.set hq hb (by rfl) ((t.sorted q tq hq).trim isCanceled) get? rfl rfl rfl
  · -- nothing was removed, so the queue is what it was
    rw [Bool.not_eq_true, Bool.not_eq_false', List.isEmpty_iff] at hc
    refine t.congr (fun j => ?_) rfl rfl rfl
    rw [get?, trim_of_nil hc]
    split_ifs with hj
    · rw [hj, hq]
    · rfl

/-! ### Whole passes -/

theorem Tends.promote {a : Agenda} {s : Stores}
    (t : Tends b queues start { agenda := a, owner := s }) (now : Ticks) (stamp : Stamp)
    (isCanceled : Ticket → Bool) (rounds : Nat) :
    Tends b queues start (a.promote (owner isCanceled) now stamp rounds s) := by
  have drained : Tends b queues start (Agenda.Pass.drain (owner isCanceled) now stamp a.size
      { agenda := a, owner := s }) :=
    Agenda.Pass.drain_induct (fun _ _ _ t hm _ => t.wake hm) _ _ t
  unfold Agenda.promote
  dsimp only
  rw [Agenda.Pass.enterDeferred_of_nil _ drained.deferred]
  split_ifs
  · exact drained
  · exact Agenda.Pass.settle_induct (fun _ _ t hf => t.refresh hf) _ _ _ drained

theorem Tends.trim {a : Agenda} {s : Stores} (t : Tends b queues start { agenda := a, owner := s })
    (now : Ticks) (isCanceled : Ticket → Bool) (rounds : Nat) :
    Tends b queues start (a.trim (owner isCanceled) now rounds s) :=
  Agenda.Pass.trim_induct (fun _ _ t hf => t.trimOnce hf) _ _ t

/-- A pass that trims queues leaves those of the other kind, and those that want no wake-up. -/
theorem Tends.get?_trim {a : Agenda} {s : Stores}
    (t : Tends b queues start { agenda := a, owner := s }) (hq : s.queues.get? q = some tq)
    (none_wanted : tq.waking = b → tq.nextWakeUp = none) (now : Ticks)
    (isCanceled : Ticket → Bool) (rounds : Nat) :
    (a.trim (owner isCanceled) now rounds s).owner.queues.get? q = some tq := by
  refine (Agenda.Pass.trim_induct
    (P := fun p => Tends b queues start p ∧ p.owner.queues.get? q = some tq)
    (fun p j ⟨t, hq⟩ hf => ⟨t.trimOnce hf, ?_⟩) _ _ ⟨t, hq⟩).2
  -- the queue on top wants a wake-up, so it is another one
  have ne : q ≠ j := by
    rintro rfl
    obtain ⟨w, hw⟩ := t.own.wf.get?_of_first? hf
    rw [t.own.entries, wanted_of_get? hq] at hw
    split_ifs at hw with hb
    rw [none_wanted hb] at hw
    cases hw
  have trimmed (s : Stores) (hs : s.queues.get? q = some tq) :
      (s.trim isCanceled j).2.queues.get? q = some tq := by
    unfold Stores.trim
    cases s.queues.get? j with
    | none => exact hs
    | some tq' =>
        dsimp only
        rw [Arena.get?_set, if_neg fun h => ne h.1]
        exact hs
  exact p.owner_trimOnce (o := owner isCanceled) (I := fun s => s.queues.get? q = some tq) j
    trimmed (fun _ hs => hs) hq

/-- A pass over the waking agenda and then one over the other keep both up to date. -/
theorem Scheduled.afterPasses {k' : Scheduler} (w : Scheduled k) (timer_eq : k'.timer = k.timer)
    (t : Tends true k.queues k.wakingAgenda.next? p)
    (t' : Tends false p.owner.queues k.nonWakingAgenda.next? p') :
    Scheduled (k'.afterPasses p p') := by
  have own : Holds p.agenda p'.owner.queues true := t.own.congr t'.other
  refine ⟨t'.sorted, own, t'.own, ?_⟩
  show armed (armed k'.timer p.notices) p'.notices = p.agenda.next?
  rw [t'.quiet rfl, timer_eq, w.timer, ← t.told rfl]
  rfl

theorem Scheduled.promote (w : Scheduled k) (now : Ticks) (isCanceled : Ticket → Bool) :
    Scheduled (k.promote now isCanceled).2 := by
  unfold Scheduler.promote
  split_ifs
  · have first := (tends_start (s := k.stores) w.sorted w.waking).promote now k.stamps.issue.1
      isCanceled (k.wakingAgenda.size + 1)
    have second := (tends_start first.sorted (w.nonWaking.congr first.other)).promote now
      k.stamps.issue.1 isCanceled (k.nonWakingAgenda.size + 1)
    exact w.afterPasses rfl first second
  · exact w

theorem Scheduled.sweep (w : Scheduled k) (now : Ticks) (isCanceled : Ticket → Bool) :
    Scheduled (k.sweep now isCanceled).2 := by
  have first := (tends_start (s := k.stores) w.sorted w.waking).trim now isCanceled
    (k.tickets.length + 1)
  have second := (tends_start first.sorted (w.nonWaking.congr first.other)).trim now isCanceled
    (k.tickets.length + 1)
  exact w.afterPasses rfl first second

theorem Reachable.scheduled {settings : Settings} (r : Reachable settings k) : Scheduled k := by
  induction r with
  | start => exact scheduled_ofSettings settings
  | create _ name waking ih => exact ih.create name waking
  | remove _ h ih => exact ih.remove h
  | setLevel _ h ih => exact ih.setLevel h
  | setEnabled _ h ih => exact ih.setEnabled h
  | post _ h ih => exact ih.post h
  | postDelayed _ h ih => exact ih.postDelayed h
  | promote _ now isCanceled ih => exact ih.promote now isCanceled
  | sweep _ now isCanceled ih => exact ih.sweep now isCanceled
  | take r isCanceled ih => exact ih.take r.mirrored isCanceled
  | takeWorkRequest _ ih => exact ⟨ih.sorted, ih.waking, ih.nonWaking, ih.timer⟩

end Dispatch.Scheduler
