import Dispatch.Proofs.Scheduler.Disabled
import Dispatch.Proofs.Session.Awake
import Dispatch.Proofs.Session.Fates

/-!
# While a queue is disabled

A queue that stays disabled, and is not removed, keeps all of its tasks, whatever else is asked of
the session, and gains those that are posted to it (`retains_run`).  It is not on its behalf that
work is requested (`ne_of_raises`).  When it is enabled again, the scheduler knows of all that it
holds by then (`step_enable`).
-/

namespace Dispatch

/-- The task that has been accepted to be run at once, if the signal says so. -/
def Signal.posted? : Signal → Option Ticket
  | .answered (.posted t) => some t
  | _ => none

/-- The task that has been accepted to be run after a delay, if the signal says so. -/
def Signal.handle? : Signal → Option Ticket
  | .answered (.handle t) => some t
  | _ => none

namespace Session

variable {settings : Settings} {start : Ticks} {s : Session} {r : Request} {rs : List Request}
  {q j : QueueId} {k : Scheduler} {op : Scheduler.Operation} {tq : Queue} {x : Signal}
  {f : Signal → Option Ticket}

/-- The tasks that a queue has accepted, as far as `f` reads them from the signals. -/
def acceptedBy (f : Signal → Option Ticket) (h : List (Request × Signal)) (q : QueueId) :
    List Ticket :=
  (postings h).filterMap fun e => if e.1 = q then f e.2 else none

theorem acceptedBy_append (f : Signal → Option Ticket) (h h' : List (Request × Signal))
    (q : QueueId) : acceptedBy f (h ++ h') q = acceptedBy f h q ++ acceptedBy f h' q := by
  unfold acceptedBy postings
  rw [List.filterMap_append, List.filterMap_append]

theorem acceptedBy_singleton (target : r.target? = some j) (q : QueueId) :
    acceptedBy f [(r, x)] q = if j = q then (f x).toList else [] := by
  unfold acceptedBy postings
  simp only [List.filterMap_cons, List.filterMap_nil, target, Option.map_some]
  split_ifs
  · cases f x <;> rfl
  · rfl

theorem acceptedBy_eq_nil (target : r.target? = none) : acceptedBy f [(r, x)] q = [] := by
  unfold acceptedBy postings
  simp only [List.filterMap_cons, List.filterMap_nil, target, Option.map_none]

/-- The queue is there and disabled. -/
def Shut (s : Session) (q : QueueId) : Prop :=
  ∃ k tq, s.scheduler = some k ∧ k.queues.get? q = some tq ∧ tq.enabled = false

theorem shut_iff : s.Shut q ↔
    (s.scheduler.any fun k => (k.queues.get? q).any fun tq => !tq.enabled) = true := by
  unfold Shut
  simp only [Option.any_eq_true, Bool.not_eq_true']
  constructor
  · rintro ⟨k, tq, hk, hq, disabled⟩
    exact ⟨k, hk, tq, hq, disabled⟩
  · rintro ⟨k, hk, tq, hq, disabled⟩
    exact ⟨k, tq, hk, hq, disabled⟩

instance : Decidable (s.Shut q) := decidable_of_iff' _ shut_iff

/-! ### The tasks of the queue -/

/-- The queue, which was `tq` before, has kept its tasks and gained others. -/
def Retains (s : Session) (q : QueueId) (tq : Queue) (immediate waiting : List Ticket) : Prop :=
  ∃ k tq', s.scheduler = some k ∧ k.queues.get? q = some tq' ∧ tq.Gains tq' immediate waiting

/-- A request that hands in no task adds none. -/
theorem retains_of_target_eq_none (w : s.Sane settings) (hk : s.scheduler = some k)
    (hq : k.queues.get? q = some tq) (disabled : tq.enabled = false) (target : r.target? = none)
    (stays : (s.step r).2.Shut q) : (s.step r).2.Retains q tq [] [] := by
  obtain ⟨k', tq', hk', hq', -⟩ := stays
  have reachable := w k hk
  obtain ⟨k₀, hk₀, cases⟩ := scheduler_step_cases hk'
  obtain rfl : k = k₀ := Option.some.inj (hk.symm.trans hk₀)
  rcases cases with rfl | ⟨op, issued, rfl⟩ | ⟨mode, calls, -, rfl⟩
  · exact ⟨_, tq, hk', hq, .of_eq rfl rfl rfl⟩
  · have kept : ∀ now, op ≠ .remove q now := by
      rintro now rfl
      rw [k.get?_perform_remove] at hq'
      cases hq'
    obtain ⟨posted, delayed⟩ : op.postedTo q = [] ∧ op.delayedTo q = [] := by
      cases issued with
      | asks a => cases a <;> exact ⟨rfl, rfl⟩
      | post | postDelayed => cases target
      | remove | sweep | promote | take => exact ⟨rfl, rfl⟩
    obtain ⟨tq', hq', gains⟩ := reachable.gains_perform hq disabled op kept
    rw [posted, delayed] at gains
    exact ⟨_, tq', hk', hq', gains⟩
  · have promoted : (k.promote s.now s.isCanceled).2.queues.get? q = some tq :=
      reachable.get?_perform_of_disabled hq disabled (.promote s.now s.isCanceled) nofun
    have taken : ((k.promote s.now s.isCanceled).2.take s.isCanceled).2.queues.get? q = some tq :=
      (reachable.promote s.now s.isCanceled).get?_perform_of_disabled promoted disabled
        (.take s.isCanceled) nofun
    exact ⟨_, tq, hk', taken, .of_eq rfl rfl rfl⟩

/-- A task that is handed in for the queue is added if it is accepted. -/
theorem retains_of_target (w : s.Sane settings) (hk : s.scheduler = some k)
    (hq : k.queues.get? q = some tq) (disabled : tq.enabled = false)
    (target : r.target? = some j) :
    (s.step r).2.Retains q tq (acceptedBy Signal.posted? [(r, (s.step r).1)] q)
      (acceptedBy Signal.handle? [(r, (s.step r).1)] q) := by
  have gained (op : Scheduler.Operation) (kept : ∀ now, op ≠ .remove q now) {k' : Scheduler}
      (done : k.perform op = k') : ∃ tq', k'.queues.get? q = some tq' ∧
        tq.Gains tq' (op.postedTo q) (op.delayedTo q) :=
    done ▸ (w k hk).gains_perform hq disabled op kept
  rw [acceptedBy_singleton target, acceptedBy_singleton target]
  obtain ⟨s₁, ts, after, b, p⟩ := s.step_cases r
  generalize s.step r = out at p ⊢
  obtain ⟨x, s'⟩ := out
  cases b with
  | nothing target' | moveClock target' =>
      rw [target'] at target
      cases target
  | perform _ asks =>
      rw [asks.target?_eq_none] at target
      cases target
  | round _ seeks | gone _ seeks =>
      rw [seeks.target?_eq_none] at target
      cases target
  | cancel | remove | sweep | close | ran | resume => cases target
  | @post i _ k' scheduler accepted =>
      cases target
      cases p
      obtain rfl := Option.some.inj (hk.symm.trans scheduler)
      obtain ⟨tq', hq', gains⟩ :=
        gained (.post j ⟨s.issued⟩) nofun (congrArg k.orUnchanged accepted)
      refine ⟨k', tq', rfl, hq', ?_⟩
      simp only [Signal.posted?, Signal.handle?, Option.toList_none, ite_self]
      exact gains
  | @postDelayed i delay leeway policy _ k' scheduler accepted =>
      cases target
      cases p
      obtain rfl := Option.some.inj (hk.symm.trans scheduler)
      obtain ⟨tq', hq', gains⟩ := gained (.postDelayed j delay leeway policy s.now ⟨s.issued⟩)
        nofun (congrArg k.orUnchanged accepted)
      refine ⟨k', tq', rfl, hq', ?_⟩
      simp only [Signal.posted?, Signal.handle?, Option.toList_none, ite_self]
      exact gains
  | refuse =>
      cases p
      refine ⟨k, tq, hk, hq, ?_⟩
      simp only [Signal.posted?, Signal.handle?, Option.toList_none, ite_self]
      exact .of_eq rfl rfl rfl

theorem retains_step (w : s.Sane settings) (hk : s.scheduler = some k)
    (hq : k.queues.get? q = some tq) (disabled : tq.enabled = false)
    (stays : (s.step r).2.Shut q) :
    (s.step r).2.Retains q tq (acceptedBy Signal.posted? [(r, (s.step r).1)] q)
      (acceptedBy Signal.handle? [(r, (s.step r).1)] q) := by
  cases target : r.target? with
  | none =>
      rw [acceptedBy_eq_nil target, acceptedBy_eq_nil target]
      exact retains_of_target_eq_none w hk hq disabled target stays
  | some j => exact retains_of_target w hk hq disabled target

/-- While the queue is disabled, it gains what it accepts, and loses nothing. -/
theorem retains_run (w : s.Sane settings) (hk : s.scheduler = some k)
    (hq : k.queues.get? q = some tq) (shut : ∀ before, before <+: rs → (s.run before).2.Shut q) :
    (s.run rs).2.Retains q tq (acceptedBy Signal.posted? (s.history rs) q)
      (acceptedBy Signal.handle? (s.history rs) q) := by
  induction rs using List.reverseRecOn with
  | nil => exact ⟨k, tq, hk, hq, .of_eq rfl rfl rfl⟩
  | append_singleton rs r ih =>
      obtain ⟨k₁, tq₁, hk₁, hq₁, gains⟩ := ih fun before pre =>
        shut before (pre.trans (List.prefix_append rs [r]))
      obtain ⟨k₂, tq₂, hk₂, hq₂, disabled⟩ := shut rs (List.prefix_append rs [r])
      obtain rfl : k₁ = k₂ := Option.some.inj (hk₁.symm.trans hk₂)
      obtain rfl : tq₁ = tq₂ := Option.some.inj (hq₁.symm.trans hq₂)
      have stays := shut (rs ++ [r]) List.prefix_rfl
      rw [run_concat] at stays ⊢
      rw [history_concat, acceptedBy_append, acceptedBy_append]
      obtain ⟨k', tq', hk', hq', gains'⟩ := retains_step (w.run rs) hk₁ hq₁ disabled stays
      exact ⟨k', tq', hk', hq', gains.trans gains'⟩

/-- A task that is pending in a queue has not been taken, and has neither run nor been destroyed. -/
theorem untouched_of_mem_tickets (hk : ((new settings start).run rs).2.scheduler = some k)
    (hq : k.queues.get? q = some tq) {t : Ticket} (ht : t ∈ tq.tickets) :
    t ∉ ((new settings start).run rs).2.taken ∧ .started t ∉ ((new settings start).run rs).1 ∧
      .discarding t ∉ ((new settings start).run rs).1 := by
  have mem : t ∈ ((new settings start).run rs).2.pending := by
    rw [pending_of_scheduler hk]
    exact Scheduler.mem_tickets.2 ⟨q, Scheduler.mem_ticketsIn.2 ⟨tq, hq, ht⟩⟩
  have once := count_held_run settings start rs (lt_issued_of_held (Or.inl mem))
  have held := List.count_pos_iff.2 mem
  dsimp only at once
  refine ⟨?_, ?_, ?_⟩ <;> rw [← List.count_eq_zero] <;> omega

/-! ### When the queue is enabled -/

theorem step_enable (w : s.Sane settings) (hk : s.scheduler = some k)
    (hq : k.queues.get? q = some tq) (disabled : tq.enabled = false) :
    ∃ k', s.step (.setEnabled q true) = (.answered .done, { s with scheduler := some k' }) ∧
      k'.Restored q tq := by
  obtain ⟨k', ok, -⟩ := (w k hk).mirrored.exists_enable hq disabled s.now
  refine ⟨k', ?_, (w k hk).restored hq disabled ok⟩
  show s.update _ = _
  unfold Session.update
  rw [hk]
  dsimp only
  rw [ok]
  rfl

/-! ### Requests for work -/

/-- Work is requested by posting to an enabled queue, or by enabling one. -/
theorem Issues.of_raises (i : s.Issues r op) (h : k.Raises op) :
    ∃ j tq, k.queues.get? j = some tq ∧
      (r = .post j ∧ tq.enabled = true ∨ r = .setEnabled j true) := by
  cases h with
  | post t hj enabled =>
      cases i with
      | asks a => cases a
      | post => exact ⟨_, _, hj, Or.inl ⟨rfl, enabled⟩⟩
  | enable now hj _ =>
      cases i with
      | asks a =>
          cases a
          exact ⟨_, _, hj, Or.inr rfl⟩

/-- A step that requests work performs an operation that does. -/
theorem exists_raises (w : s.Sane settings) (hk : s.scheduler = some k) (raises : s.Raises r) :
    ∃ op, s.unrequested.Issues r op ∧ k.takeWorkRequest.2.Raises op := by
  have reachable := (w k hk).takeWorkRequest
  have calm : k.takeWorkRequest.2.workRequested = false := rfl
  obtain ⟨k', hk', requested⟩ := (Option.any_eq_true _ _).1 raises
  obtain ⟨k₀, hk₀, cases⟩ := scheduler_step_cases hk'
  obtain rfl : k.takeWorkRequest.2 = k₀ := by
    unfold unrequested at hk₀
    rw [hk] at hk₀
    exact Option.some.inj hk₀
  rcases cases with rfl | ⟨op, issued, rfl⟩ | ⟨mode, calls, seeks, rfl⟩
  · rw [calm] at requested
    cases requested
  · exact ⟨op, issued, reachable.raises_of_workRequested op calm requested⟩
  · -- neither promoting nor taking tasks requests work
    cases promoted : (k.takeWorkRequest.2.promote s.unrequested.now
        s.unrequested.isCanceled).2.workRequested with
    | true => exact ⟨_, .promote seeks, reachable.raises_of_workRequested _ calm promoted⟩
    | false =>
        cases (reachable.promote _ _).raises_of_workRequested (.take s.unrequested.isCanceled)
          promoted requested

/-- A step that leaves the queue disabled requests work only for another queue. -/
theorem ne_of_raises (w : s.Sane settings) (shut : s.Shut q) (stays : (s.step r).2.Shut q)
    (raises : s.Raises r) : ∃ j, j ≠ q ∧ (r = .post j ∨ r = .setEnabled j true) := by
  obtain ⟨k, tq, hk, hq, disabled⟩ := shut
  obtain ⟨op, issued, raises⟩ := exists_raises w hk raises
  obtain ⟨j, tq', hj, ⟨rfl, enabled⟩ | rfl⟩ := issued.of_raises raises
  · refine ⟨j, ?_, Or.inl rfl⟩
    rintro rfl
    obtain rfl : tq = tq' := Option.some.inj (hq.symm.trans hj)
    rw [enabled] at disabled
    cases disabled
  · refine ⟨j, ?_, Or.inr rfl⟩
    rintro rfl
    -- the queue would be enabled after the step
    obtain ⟨k', stepped, restored⟩ := step_enable w hk hq disabled
    obtain ⟨k₁, tq₁, hk₁, hq₁, still⟩ := stays
    rw [stepped] at hk₁
    cases hk₁
    rw [restored.queue] at hq₁
    cases hq₁
    cases still

/-- Let anything happen while a queue is disabled and not removed.  It keeps all of its tasks where
they are: the delayed ones that are ready do not change at all, what is posted comes behind the
other immediate tasks, and what is posted with a delay waits with the others.  None of its tasks is
taken or destroyed, the scheduler selects, wakes and asks for precision as if the queue were not
there, and work is requested for other queues only.  When the queue is enabled then, it can be
selected at the level that it has by then exactly if a task is ready, by the oldest of each half,
and a wake-up is entered for the first of those that wait. -/
theorem frozen_while_disabled (settings : Settings) (start : Ticks) (rs rs' : List Request)
    (hk : ((new settings start).run rs).2.scheduler = some k) (hq : k.queues.get? q = some tq)
    (shut : ∀ before, before <+: rs' → (((new settings start).run rs).2.run before).2.Shut q) :
    let s := ((new settings start).run rs).2
    let s' := (s.run rs').2
    let h := s.history rs'
    (∃ k' tq', s'.scheduler = some k' ∧ k'.queues.get? q = some tq' ∧
      tq.Gains tq' (acceptedBy Signal.posted? h q) (acceptedBy Signal.handle? h q) ∧
      (∀ t ∈ tq'.tickets, t ∉ s'.taken ∧
        .started t ∉ ((new settings start).run (rs ++ rs')).1 ∧
        .discarding t ∉ ((new settings start).run (rs ++ rs')).1) ∧
      k'.Excluded q ∧
      ∃ k'', s'.step (.setEnabled q true) = (.answered .done, { s' with scheduler := some k'' }) ∧
        k''.Restored q tq') ∧
    ∀ before r, before ++ [r] <+: rs' → (s.run before).2.Raises r →
      ∃ j, j ≠ q ∧ (r = .post j ∨ r = .setEnabled j true) := by
  intro s s' h
  have w : s.Sane settings := (sane_new settings start).run rs
  refine ⟨?_, fun before r pre raises => ?_⟩
  · obtain ⟨k', tq', hk', hq', gains⟩ := retains_run w hk hq shut
    obtain ⟨k₁, tq₁, hk₁, hq₁, disabled⟩ := shut rs' List.prefix_rfl
    obtain rfl : k' = k₁ := Option.some.inj (hk'.symm.trans hk₁)
    obtain rfl : tq' = tq₁ := Option.some.inj (hq'.symm.trans hq₁)
    refine ⟨k', tq', hk', hq', gains, fun t ht => ?_, ?_, step_enable (w.run rs') hk' hq' disabled⟩
    · have whole : ((new settings start).run (rs ++ rs')).2 = s' := by rw [run_append]
      rw [← whole]
      exact untouched_of_mem_tickets (whole ▸ hk') hq' ht
    · exact (w.run rs' k' hk').excluded hq' disabled
  · have now := shut before ((List.prefix_append before [r]).trans pre)
    have later := shut _ pre
    rw [run_concat] at later
    exact ne_of_raises (w.run before) now later raises

/-- A queue is disabled with a ready delayed task, and another queue is served.  In the meantime it
gets a task of either kind and another level, and the one that waits comes due. -/
theorem frozen_while_disabled_posted :
    let rs : List Request := [.create "main" true, .create "other" true, .post ⟨2, 1⟩,
      .postDelayed ⟨1, 1⟩ (.ofMillis 1) .zero .precise, .advance (.ofMillis 1), .runNext,
      .setEnabled ⟨1, 1⟩ false]
    let rs' : List Request := [.post ⟨1, 1⟩, .postDelayed ⟨1, 1⟩ (.ofMillis 5) .zero .precise,
      .setLevel ⟨1, 1⟩ .high, .advance (.ofMillis 5), .sweep, .finish, .post ⟨2, 1⟩, .runNext]
    let s' := (((new {} .zero).run rs).2.run rs').2
    ∃ k' tq' k'', s'.scheduler = some k' ∧ k'.queues.get? ⟨1, 1⟩ = some tq' ∧ tq'.level = .high ∧
      tq'.tickets = [⟨2⟩, ⟨1⟩, ⟨3⟩] ∧ k'.Excluded ⟨1, 1⟩ ∧
      s'.step (.setEnabled ⟨1, 1⟩ true) = (.answered .done, { s' with scheduler := some k'' }) ∧
      k''.Restored ⟨1, 1⟩ tq' := by
  intro rs rs' s'
  have before : ((new {} .zero).run rs).2.Shut ⟨1, 1⟩ := by decide +kernel
  have shut : ∀ before ∈ rs'.inits, (((new {} .zero).run rs).2.run before).2.Shut ⟨1, 1⟩ := by
    decide +kernel
  have found : s'.scheduler.any fun k => (k.queues.get? ⟨1, 1⟩).any fun tq =>
      tq.level = .high && tq.tickets = [⟨2⟩, ⟨1⟩, ⟨3⟩] := by decide +kernel
  obtain ⟨k, tq, hk, hq, -⟩ := before
  obtain ⟨⟨k', tq', hk', hq', -, -, excluded, k'', stepped, restored⟩, -⟩ :=
    frozen_while_disabled {} .zero rs rs' hk hq fun before pre =>
      shut before ((List.mem_inits _ _).2 pre)
  obtain ⟨k₁, hk₁, found⟩ := (Option.any_eq_true _ _).1 found
  obtain rfl : k' = k₁ := Option.some.inj (hk'.symm.trans hk₁)
  rw [hq', Option.any_some, Bool.and_eq_true] at found
  exact ⟨k', tq', k'', hk', hq', of_decide_eq_true found.1, of_decide_eq_true found.2, excluded,
    stepped, restored⟩

end Session

end Dispatch
