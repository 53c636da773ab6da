import Dispatch.Proofs.Scheduler.Readiness
import Dispatch.Proofs.Session.Fates

/-!
# No task starts early

A delayed task waits until its time has come, is ready only afterwards, and only a ready task is
taken to be launched (`Queue.HoldsUntil`, `Session.Defers`).  Nothing that can be asked of a session
changes that, because the clock does not go back.  So the code of a delayed task does not start
before the first moment at which the task may run (`started_not_early`).
-/

namespace Dispatch

/-- Tasks under the ticket wait until `e` or longer, and are ready only if `e` has passed. -/
structure Queue.HoldsUntil (tq : Queue) (t : Ticket) (e now : Ticks) : Prop where
  waiting : ∀ w ∈ tq.waiting, w.ticket = t → e ≤ w.earliest
  ready : ∀ h, ∀ u ∈ tq.ready h, u.ticket = t → e ≤ now

theorem Queue.HoldsUntil.mono {tq : Queue} {t : Ticket} {e now now' : Ticks}
    (h : tq.HoldsUntil t e now) (le : now ≤ now') : tq.HoldsUntil t e now' :=
  ⟨h.waiting, fun g u hu ht => Nat.le_trans (h.ready g u hu ht) le⟩

/-- A queue without tasks under the ticket. -/
theorem Queue.holdsUntil_of_not_mem {tq : Queue} {t : Ticket} (h : t ∉ tq.tickets) (e now : Ticks) :
    tq.HoldsUntil t e now where
  waiting w hw ht := absurd (Queue.mem_tickets.2 (Or.inr ⟨w, hw, ht⟩)) h
  ready g u hu ht := absurd (Queue.mem_tickets.2 (Or.inl ⟨g, u, hu, ht⟩)) h

/-- The task that is launched when the call goes on. -/
def Call.launches : Call → List Ticket
  | .running _ _ => []
  | .discarding _ _ after => after.owes

/-! ### The scheduler -/

namespace Scheduler

variable {settings : Settings} {k k' : Scheduler} {q : QueueId} {op : Operation} {tq tq' : Queue}
  {t : Ticket} {e now : Ticks} {isCanceled : Ticket → Bool}

/-- What holds of one queue holds of all. -/
def HoldsUntil (k : Scheduler) (t : Ticket) (e now : Ticks) : Prop :=
  ∀ q tq, k.queues.get? q = some tq → tq.HoldsUntil t e now

/-- The operation does not post the ticket, and promotes only what is due at the time. -/
structure Operation.Respects (op : Operation) (t : Ticket) (now : Ticks) : Prop where
  other : ∀ q, ¬ op.Posts q t
  timely : ∀ time isCanceled, op = .promote time isCanceled → time = now

theorem Treats.holdsUntil (tr : Treats k k' q op tq tq') (h : tq.HoldsUntil t e now)
    (respects : op.Respects t now) : tq'.HoldsUntil t e now := by
  cases tr with
  | leave => exact h
  | setLevel | setEnabled => exact ⟨h.waiting, h.ready⟩
  | post u =>
      refine ⟨h.waiting, fun g v hv hvt => ?_⟩
      cases g with
      | delayed => exact h.ready .delayed v hv hvt
      | immediate =>
          rcases List.mem_append.1 hv with hv | hv
          · exact h.ready .immediate v hv hvt
          · rw [List.mem_singleton.1 hv] at hvt
            cases hvt
            exact absurd (Or.inl rfl) (respects.other q)
  | postDelayed delay leeway policy time u =>
      refine ⟨fun w hw hwt => ?_, h.ready⟩
      rcases Queue.mem_insertWaiting.1 hw with rfl | hw
      · cases hwt
        exact absurd (Or.inr ⟨delay, leeway, policy, time, rfl⟩) (respects.other q)
      · exact h.waiting w hw hwt
  | promote time isCanceled =>
      obtain rfl := respects.timely time isCanceled rfl
      refine ⟨fun w hw => h.waiting w (List.mem_of_mem_filter hw), fun g v hv hvt => ?_⟩
      cases g with
      | immediate => exact h.ready .immediate v hv hvt
      | delayed =>
          rcases List.mem_append.1 hv with hv | hv
          · exact h.ready .delayed v hv hvt
          · -- a task that has just been moved was due
            obtain ⟨w, hw, rfl⟩ := List.mem_map.1 hv
            obtain ⟨hw, due⟩ := List.mem_filter.1 hw
            have due : w.earliest ≤ time := of_decide_eq_true (Bool.and_eq_true_iff.1 due).1
            exact Nat.le_trans (h.waiting w hw hvt) due
  | sweep => exact ⟨fun w hw => h.waiting w (List.mem_of_mem_drop hw), h.ready⟩
  | @take _ _ g u rest front =>
      refine ⟨?_, fun g' v hv => ?_⟩
      · cases g <;> exact h.waiting
      · rw [ready_withReady] at hv
        split_ifs at hv with same
        · refine h.ready g v ?_
          rw [front]
          exact List.mem_cons_of_mem u hv
        · exact h.ready g' v hv

theorem Reachable.holdsUntil_perform (r : Reachable settings k) (h : k.HoldsUntil t e now)
    (respects : op.Respects t now) : (k.perform op).HoldsUntil t e now := by
  intro q tq' hq
  rcases r.treats hq with ⟨name, waking, -, rfl⟩ | ⟨tq, htq, tr⟩
  · exact Queue.holdsUntil_of_not_mem List.not_mem_nil e now
  · exact tr.holdsUntil (h q tq htq) respects

theorem Reachable.holdsUntil_run (r : Reachable settings k) (h : k.HoldsUntil t e now)
    {ops : List Operation} (respect : ∀ op ∈ ops, op.Respects t now) :
    (k.run ops).HoldsUntil t e now := by
  induction ops generalizing k with
  | nil => exact h
  | cons op ops ih =>
      exact ih (r.perform op) (r.holdsUntil_perform h (respect op List.mem_cons_self))
        fun op' mem => respect op' (List.mem_cons_of_mem op mem)

/-- A task is taken only if its time has come. -/
theorem Mirrored.le_of_take (m : Mirrored k) (h : k.HoldsUntil t e now)
    (taken : (k.take isCanceled).1 = some t) : e ≤ now := by
  rcases m.take_cases isCanceled with ⟨-, eq⟩ | ⟨pick, selector, tq, u, rest, -, hq, front, eq⟩
  · rw [eq] at taken
    cases taken
  · rw [eq] at taken
    refine (h pick.queue tq hq).ready pick.half u ?_ (Option.some.inj taken)
    rw [front]
    exact List.mem_cons_self

end Scheduler

/-! ### The session -/

namespace Session

variable {settings : Settings} {start : Ticks} {s s' : Session} {r : Request} {ts : List Ticket}
  {after : After} {x : Signal} {t : Ticket} {q : QueueId} {e : Ticks} {rs : List Request}

/-- The tasks that are launched when calls go on. -/
def launching (s : Session) : List Ticket := s.calls.flatMap Call.launches

/-- What a call launches when it goes on, it has taken. -/
theorem launching_sublist (s : Session) : s.launching.Sublist s.taken := by
  unfold launching taken
  induction s.calls with
  | nil => exact .slnil
  | cons call calls ih =>
      rw [List.flatMap_cons, List.flatMap_cons]
      refine List.Sublist.append ?_ ih
      cases call with
      | running => exact .slnil
      | discarding t rest after => exact List.sublist_append_right rest after.owes

/-- No task under the ticket, which has been given out, starts before `e`. -/
structure Defers (s : Session) (t : Ticket) (e : Ticks) : Prop where
  queues : ∀ k, s.scheduler = some k → k.HoldsUntil t e s.now
  launches : t ∈ s.launching → e ≤ s.now
  past : t.number < s.issued

theorem launching_of_calls {call : Call} {calls : List Call} (top : s.calls = call :: calls) :
    s.launching = call.launches ++ calls.flatMap Call.launches :=
  flatMap_calls top _

theorem Seeks.launching_eq {mode : Mode} {calls : List Call} (a : s.Seeks r mode calls) :
    s.launching = calls.flatMap Call.launches :=
  a.flatMap_calls (fun _ _ => rfl) fun _ _ => rfl

theorem Begins.now_le (b : s.Begins r s' ts after) : s.now ≤ s'.now := by
  cases b with
  | moveClock _ le => exact le
  | cancel t => exact Nat.le_of_eq (congrArg Ticks.nanos (now_cancel s t).symm)
  | nothing | perform | post | postDelayed | refuse | remove | sweep | close | ran | resume | round
  | gone => exact Nat.le_refl _

theorem Proceeds.now_eq (p : s.Proceeds ts after x s') : s'.now = s.now := by
  cases p <;> rfl

theorem Issues.respects {op : Scheduler.Operation} (i : s.Issues r op)
    (past : t.number < s.issued) : op.Respects t s.now where
  other q posts := by
    obtain ⟨-, rfl⟩ := i.of_posts posts
    exact Nat.lt_irrefl _ past
  timely time isCanceled h := by
    subst h
    cases i with
    | asks a => cases a
    | promote => rfl

/-- What is to be launched was to be launched before, or has just been taken. -/
theorem Begins.origin_of_launches (b : s.Begins r s' ts after)
    (h : t ∈ after.owes ∨ t ∈ s'.launching) : t ∈ s.launching ∨
      ∃ k mode calls, s.scheduler = some k ∧ s.Seeks r mode calls ∧
        ((k.promote s.now s.isCanceled).2.take s.isCanceled).1 = some t ∧
        s'.scheduler = some ((k.promote s.now s.isCanceled).2.take s.isCanceled).2 ∧
        after.owes ++ s'.launching = t :: calls.flatMap Call.launches := by
  cases b with
  | nothing | perform | moveClock | post | postDelayed | refuse | remove | sweep | close =>
      exact Or.inl (h.resolve_left List.not_mem_nil)
  | cancel u =>
      unfold launching at h ⊢
      rw [calls_cancel] at h
      exact Or.inl (h.resolve_left List.not_mem_nil)
  | ran top =>
      rw [launching_of_calls top]
      exact Or.inl (h.resolve_left List.not_mem_nil)
  | resume top =>
      rw [launching_of_calls top]
      exact Or.inl (List.mem_append.2 h)
  | @round _ mode calls k scheduler seeks =>
      rcases h with h | h
      · rw [owes_afterRound, Option.mem_toList] at h
        refine Or.inr ⟨k, mode, calls, scheduler, seeks, h, rfl, ?_⟩
        rw [owes_afterRound, h]
        rfl
      · rw [seeks.launching_eq]
        exact Or.inl h
  | gone _ seeks =>
      rw [seeks.launching_eq]
      exact Or.inl (h.resolve_left List.not_mem_nil)

/-- What is to be launched is due. -/
theorem Begins.le_of_launches (w : s.Sane settings) (d : s.Defers t e)
    (b : s.Begins r s' ts after) (h : t ∈ after.owes ∨ t ∈ s'.launching) : e ≤ s.now := by
  rcases b.origin_of_launches h with h | ⟨k, mode, calls, scheduler, seeks, taken, -⟩
  · exact d.launches h
  · have promoted : (k.promote s.now s.isCanceled).2.HoldsUntil t e s.now :=
      (w k scheduler).holdsUntil_perform (d.queues k scheduler)
        ((Issues.promote seeks).respects d.past)
    exact ((w k scheduler).promote s.now s.isCanceled).mirrored.le_of_take promoted taken

/-- What is started, or is to be launched, was to be launched. -/
theorem Proceeds.launches (p : s.Proceeds ts after x s')
    (h : x = .started t ∨ t ∈ s'.launching) : t ∈ after.owes ∨ t ∈ s.launching := by
  cases p with
  | answer => exact Or.inr (h.resolve_left nofun)
  | start =>
      rcases h with h | h
      · cases h
        exact Or.inl List.mem_cons_self
      · exact Or.inr h
  | skip => exact Or.inr (h.resolve_left nofun)
  | discard => exact List.mem_append.1 (h.resolve_left nofun)

theorem Defers.step (w : s.Sane settings) (d : s.Defers t e) (r : Request) :
    (s.step r).2.Defers t e ∧ ((s.step r).1 = .started t → e ≤ (s.step r).2.now) := by
  obtain ⟨s₁, ts, after, b, p⟩ := s.step_cases r
  have later : s.now ≤ (s.step r).2.now := p.now_eq ▸ b.now_le
  have due (h : (s.step r).1 = .started t ∨ t ∈ (s.step r).2.launching) :
      e ≤ (s.step r).2.now :=
    Nat.le_trans (b.le_of_launches w d (p.launches h)) later
  refine ⟨⟨fun k' hk' => ?_, fun h => due (Or.inr h), ?_⟩, fun h => due (Or.inl h)⟩
  · obtain ⟨k, ops, hk, rfl, issues⟩ := exists_ops_step hk'
    have held := (w k hk).holdsUntil_run (d.queues k hk) fun op mem =>
      (issues op mem).respects d.past
    exact fun q tq hq => (held q tq hq).mono later
  · rw [issued_step]
    exact Nat.lt_of_lt_of_le d.past (Nat.le_add_right _ _)

theorem Defers.run (w : s.Sane settings) (d : s.Defers t e) (rs : List Request) :
    (s.run rs).2.Defers t e :=
  (run_induct (P := fun s => s.Sane settings ∧ s.Defers t e)
    (fun _ r ⟨w, d⟩ => ⟨w.step r, (d.step w r).1⟩) ⟨w, d⟩ rs).2

/-- A delayed task that has just been accepted waits for the first moment at which it may run. -/
theorem defers_of_accepted (settings : Settings) (start : Ticks) (rs : List Request)
    {delay leeway : Duration} {policy : Policy} :
    let s := ((new settings start).run rs).2
    let r : Request := .postDelayed q delay leeway policy
    (s.step r).1 = .answered (.handle t) →
      (s.step r).2.Defers t (policy.earliest (s.now + delay) leeway) := by
  intro s r posted
  have held : ∀ u, u ∈ s.pending ∨ u ∈ s.taken → u.number < s.issued :=
    fun u => lt_issued_of_held
  obtain ⟨rfl, k, k', hk, accepted, stepped⟩ := step_of_handle posted
  rw [stepped]
  refine ⟨?_, fun h => ?_, Nat.lt_succ_self _⟩
  · rintro _ ⟨rfl⟩ j tq' hj
    obtain ⟨tq, htq, tr⟩ := Scheduler.treated_postDelayed accepted j tq' hj
    have absent : (⟨s.issued⟩ : Ticket) ∉ tq.tickets := fun mem => by
      refine Nat.lt_irrefl _ (held ⟨s.issued⟩ (Or.inl ?_))
      rw [pending_of_scheduler hk]
      exact Scheduler.mem_tickets.2 ⟨j, Scheduler.mem_ticketsIn.2 ⟨tq, htq, mem⟩⟩
    have others := Queue.holdsUntil_of_not_mem absent (policy.earliest (s.now + delay) leeway) s.now
    cases tr with
    | leave => exact others
    | postDelayed =>
        refine ⟨fun w hw hwt => ?_, others.ready⟩
        rcases Queue.mem_insertWaiting.1 hw with rfl | hw
        · exact Nat.le_refl _
        · exact others.waiting w hw hwt
  · -- no call holds the ticket, which is new
    exact absurd (held ⟨s.issued⟩ (Or.inr (s.launching_sublist.subset h))) (Nat.lt_irrefl _)

/-- The code of a delayed task that was accepted does not start before its delay has passed or, if
it may run early, before its leeway allows it, whatever has been asked in between. -/
theorem started_not_early (settings : Settings) (start : Ticks) (rs rs' : List Request)
    (r : Request) {q : QueueId} {delay leeway : Duration} {policy : Policy} {t : Ticket} :
    let s := ((new settings start).run rs).2
    let post : Request := .postDelayed q delay leeway policy
    let s' := ((s.step post).2.run rs').2
    (s.step post).1 = .answered (.handle t) → (s'.step r).1 = .started t →
      (policy ≠ .preferEarly → s.now + delay ≤ (s'.step r).2.now) ∧
        (policy = .preferEarly → s.now + delay - leeway ≤ (s'.step r).2.now) := by
  intro s post s' posted starts
  have w : s.Sane settings := (sane_new settings start).run rs
  have d := (defers_of_accepted settings start rs posted).run (w.step post) rs'
  have le := (d.step ((w.step post).run rs') r).2 starts
  cases policy with
  | preferEarly => exact ⟨fun h => absurd rfl h, fun _ => le⟩
  | noSooner => exact ⟨fun _ => le, nofun⟩
  | precise => exact ⟨fun _ => le, nofun⟩

/-- Two tasks are promoted together.  The first may run early, and starts before its delay has
passed. -/
theorem started_not_early_within_leeway :
    let s := ((new {} .zero).run [.create "main" true]).2
    let post : Request := .postDelayed ⟨1, 1⟩ (.ofMillis 500) (.ofMillis 200) .preferEarly
    let s' := ((s.step post).2.run
      [.postDelayed ⟨1, 1⟩ (.ofMillis 300) .zero .precise, .advance (.ofMillis 300)]).2
    (s.step post).1 = .answered (.handle ⟨0⟩) ∧ (s'.step .runNext).1 = .started ⟨0⟩ ∧
      (s'.step .runNext).2.now = .ofMillis 300 ∧
      s.now + Duration.ofMillis 500 - Duration.ofMillis 200 ≤ (s'.step .runNext).2.now := by
  intro s post s'
  have posted : (s.step post).1 = .answered (.handle ⟨0⟩) := by decide +kernel
  have starts : (s'.step .runNext).1 = .started ⟨0⟩ := by decide +kernel
  exact ⟨posted, starts, by decide +kernel,
    (started_not_early {} .zero _ _ .runNext posted starts).2 rfl⟩

end Session

end Dispatch
