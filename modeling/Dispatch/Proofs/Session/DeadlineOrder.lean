import Dispatch.Proofs.Scheduler.Lines
import Dispatch.Proofs.Session.Awake
import Dispatch.Proofs.Session.Deadlines

/-!
# Delayed tasks start in the order of their deadlines

Of two delayed tasks of a queue that do not run early, the one that may run first stands before the
other one from the moment at which both are posted: if it comes later, the other one is not due yet
(`queued_of_accepted`).  Then it leaves the queue first, and it has started or will never start when
the other one is taken, provided that no task is taken while another one waits to be launched
(`Queued.step`).  This can happen only in code of a task that is being destroyed, so the tasks start
in the order of their deadlines if no such code asks to run tasks (`started_in_order`).
-/

namespace Dispatch.Session

variable {settings : Settings} {start : Ticks} {s s' : Session} {r : Request} {ts : List Ticket}
  {after : After} {x : Signal} {a b t : Ticket} {q : QueueId} {e f : Ticks} {rs rs' : List Request}
  {k : Scheduler} {i j m n : Nat}

/-! ### Calls in calls -/

/-- The code of a task that is being destroyed is running. -/
def inDestruction (s : Session) : Bool :=
  match s.calls with
  | .discarding _ _ _ :: _ => true
  | _ => false

/-- Code of a task that is being destroyed does not ask to run tasks. -/
def Permits (s : Session) (r : Request) : Prop :=
  r = .runNext ∨ r = .runUntilIdle → s.inDestruction = false

instance (s : Session) (r : Request) : Decidable (s.Permits r) :=
  inferInstanceAs (Decidable (_ → _))

/-- In a run, code of tasks that are being destroyed never asks to run tasks. -/
def Calm (s : Session) : List Request → Prop
  | [] => True
  | r :: rs => s.Permits r ∧ (s.step r).2.Calm rs

instance decidableCalm : (s : Session) → (rs : List Request) → Decidable (s.Calm rs)
  | _, [] => isTrue trivial
  | s, r :: rs =>
    have := decidableCalm (s.step r).2 rs
    inferInstanceAs (Decidable (_ ∧ _))

/-- A call that runs tasks has not interrupted one that is going to launch a task. -/
def Layered (s : Session) : Prop :=
  s.calls.Pairwise fun c d => c.reply? = none → d.launches = []

theorem Layered.flatMap_launches {call : Call} {calls : List Call} (l : s.Layered)
    (top : s.calls = call :: calls) (runs : call.reply? = none) :
    calls.flatMap Call.launches = [] := by
  unfold Layered at l
  rw [top] at l
  exact List.flatMap_eq_nil_iff.2 fun d hd => (List.pairwise_cons.1 l).1 d hd runs

/-- When a task is looked for, no other one waits to be launched. -/
theorem Layered.launches_of_seeks {mode : Mode} {calls : List Call} (l : s.Layered)
    (permits : s.Permits r) (seeks : s.Seeks r mode calls) : calls.flatMap Call.launches = [] := by
  have outermost (asks : r = .runNext ∨ r = .runUntilIdle) :
      s.calls.flatMap Call.launches = [] := by
    cases top : s.calls with
    | nil => rfl
    | cons call calls =>
        cases call with
        | running t mode =>
            show calls.flatMap Call.launches = []
            exact l.flatMap_launches top rfl
        | discarding t ts after =>
            have busy := permits asks
            unfold inDestruction at busy
            rw [top] at busy
            cases busy
  cases seeks with
  | runNext => exact outermost (Or.inl rfl)
  | runUntilIdle => exact outermost (Or.inr rfl)
  | more top => exact l.flatMap_launches top rfl
  | again top => exact l.flatMap_launches top rfl

theorem Begins.launches_of_layered (b : s.Begins r s' ts after) (l : s.Layered)
    (permits : s.Permits r) (runs : ∀ reply, after ≠ .answer reply) :
    s'.calls.flatMap Call.launches = [] := by
  cases b with
  | nothing | perform | cancel | moveClock | post | postDelayed | refuse | remove | sweep | close
  | ran | gone => exact absurd rfl (runs _)
  | @resume _ _ after _ top =>
      refine l.flatMap_launches top ?_
      cases after with
      | answer reply => exact absurd rfl (runs reply)
      | launch | again => rfl
  | round _ seeks => exact l.launches_of_seeks permits seeks

theorem Layered.step (l : s.Layered) (permits : s.Permits r) : (s.step r).2.Layered := by
  obtain ⟨s₁, ts, after, b, p⟩ := s.step_cases r
  have before : s₁.calls.Pairwise fun c d => c.reply? = none → d.launches = [] :=
    List.Pairwise.sublist b.calls_sublist l
  have none_below (runs : ∀ reply, after ≠ .answer reply) : ∀ d ∈ s₁.calls, d.launches = [] :=
    List.flatMap_eq_nil_iff.1 (b.launches_of_layered l permits runs)
  unfold Layered
  generalize s.step r = out at p ⊢
  obtain ⟨x, s'⟩ := out
  cases p with
  | answer => exact before
  | start | skip => exact List.pairwise_cons.2 ⟨fun d hd _ => none_below nofun d hd, before⟩
  | discard t ts after =>
      refine List.pairwise_cons.2 ⟨fun d hd runs => none_below (fun reply e => ?_) d hd, before⟩
      subst e
      cases runs

theorem Calm.drop (h : s.Calm rs) (m : Nat) : (s.run (rs.take m)).2.Calm (rs.drop m) := by
  induction rs generalizing s m with
  | nil => cases m <;> trivial
  | cons r rs ih =>
      cases m with
      | zero => exact h
      | succ m => exact ih h.2 m

theorem Calm.take (h : s.Calm rs) (m : Nat) : s.Calm (rs.take m) := by
  induction rs generalizing s m with
  | nil => cases m <;> trivial
  | cons r rs ih =>
      cases m with
      | zero => trivial
      | succ m => exact ⟨h.1, ih h.2 m⟩

theorem Layered.run (l : s.Layered) (calm : s.Calm rs) : (s.run rs).2.Layered := by
  induction rs generalizing s with
  | nil => exact l
  | cons r rs ih =>
      obtain ⟨now, later⟩ := calm
      exact ih (l.step now) later

/-! ### Tasks that are gone -/

/-- The task was handed in, and does not start any more. -/
structure Gone (s : Session) (t : Ticket) : Prop where
  pending : t ∉ s.pending
  launching : t ∉ s.launching
  past : t.number < s.issued

theorem Gone.step (w : s.Sane settings) (g : s.Gone t) (r : Request) :
    (s.step r).2.Gone t ∧ (s.step r).1 ≠ .started t := by
  obtain ⟨s₁, ts, after, b, p⟩ := s.step_cases r
  have stays : ¬ ((s.step r).1 = .started t ∨ t ∈ (s.step r).2.launching) := by
    intro h
    rcases b.origin_of_launches (p.launches h) with h | ⟨k, mode, calls, hk, -, taken, -⟩
    · exact g.launching h
    · refine g.pending ?_
      rw [pending_of_scheduler hk, ← (perm_tickets_round (w k hk).mirrored s.now
        s.isCanceled).mem_iff, taken]
      simp
  refine ⟨⟨fun h => ?_, fun h => stays (Or.inr h), ?_⟩, fun h => stays (Or.inl h)⟩
  · obtain ⟨q, hq⟩ := mem_pending.1 h
    rcases mem_pendingIn_of_step w hq with before | ⟨target, accepted⟩
    · exact g.pending (mem_pending.2 ⟨q, before⟩)
    · -- a task that is accepted has a new ticket
      rcases step_of_target target with accepted' | ⟨e, refused⟩
      · rw [accepted'] at accepted
        cases accepted
        exact Nat.lt_irrefl _ g.past
      · rw [refused] at accepted
        cases accepted
  · rw [issued_step]
    exact Nat.lt_of_lt_of_le g.past (Nat.le_add_right _ _)

theorem Gone.started_not_mem (w : s.Sane settings) (g : s.Gone t) (rs : List Request) :
    .started t ∉ (s.run rs).1 := by
  induction rs generalizing s with
  | nil => exact List.not_mem_nil
  | cons r rs ih =>
      obtain ⟨gone, other⟩ := g.step w r
      rw [run_cons, List.mem_cons, not_or]
      exact ⟨Ne.symm other, ih (w.step r) gone⟩

/-! ### Delayed tasks -/

/-- The task was posted to the queue with a delay, to run at `e` or later. -/
structure Delayed (s : Session) (q : QueueId) (t : Ticket) (e : Ticks) : Prop where
  delays : ∀ k, s.scheduler = some k → k.Delays q t e
  defers : s.Defers t e

theorem Issues.not_posts {op : Scheduler.Operation} (i : s.Issues r op)
    (past : t.number < s.issued) (j : QueueId) : ¬ op.Posts j t :=
  (i.respects past).other j

theorem Delayed.step (w : s.Sane settings) (d : s.Delayed q t e) (r : Request) :
    (s.step r).2.Delayed q t e where
  delays k' hk' := by
    obtain ⟨k, ops, hk, rfl, issues⟩ := exists_ops_step hk'
    exact (w k hk).delays_run (d.delays k hk) fun op mem => (issues op mem).not_posts d.defers.past
  defers := (d.defers.step w r).1

theorem Delayed.run (w : s.Sane settings) (d : s.Delayed q t e) (rs : List Request) :
    (s.run rs).2.Delayed q t e :=
  (run_induct (P := fun s => s.Sane settings ∧ s.Delayed q t e)
    (fun _ r ⟨w, d⟩ => ⟨w.step r, d.step w r⟩) ⟨w, d⟩ rs).2

/-- A ticket that was not given out is in no queue. -/
theorem not_mem_tickets_issued (hk : ((new settings start).run rs).2.scheduler = some k)
    {tq : Queue} (hq : k.queues.get? q = some tq) :
    (⟨((new settings start).run rs).2.issued⟩ : Ticket) ∉ tq.tickets := by
  intro mem
  have pending : (⟨((new settings start).run rs).2.issued⟩ : Ticket) ∈
      ((new settings start).run rs).2.pending := by
    rw [pending_of_scheduler hk]
    exact Scheduler.mem_tickets.2 ⟨q, Scheduler.mem_ticketsIn.2 ⟨tq, hq, mem⟩⟩
  exact Nat.lt_irrefl _ (lt_issued_of_held (Or.inl pending))

/-- A delayed task that has just been accepted. -/
theorem delayed_of_accepted (settings : Settings) (start : Ticks) (rs : List Request)
    {delay leeway : Duration} {policy : Policy} :
    let s := ((new settings start).run rs).2
    let r : Request := .postDelayed q delay leeway policy
    (s.step r).1 = .answered (.handle t) →
      (s.step r).2.Delayed q t (policy.earliest (s.now + delay) leeway) := by
  intro s r posted
  refine ⟨fun k' hk' => ⟨fun j tq' hj => ?_, fun j hj => ?_⟩,
    defers_of_accepted settings start rs posted⟩
  · obtain ⟨rfl, k, k'', hk, accepted, stepped⟩ := step_of_handle posted
    rw [stepped] at hk'
    cases hk'
    obtain ⟨tq, htq, tr⟩ := Scheduler.treated_postDelayed accepted j tq' hj
    have others := Queue.delays_of_not_mem (not_mem_tickets_issued hk htq)
      (policy.earliest (s.now + delay) leeway)
    cases tr with
    | leave => exact others
    | postDelayed =>
        refine ⟨others.immediate, fun w hw hwt => ?_⟩
        rcases Queue.mem_insertWaiting.1 hw with rfl | hw
        · rfl
        · exact others.waiting w hw hwt
  · rw [← pendingIn_of_scheduler hk'] at hj
    rcases mem_pendingIn_of_step ((sane_new settings start).run rs) hj with before | ⟨target, -⟩
    · obtain ⟨rfl, -⟩ := step_of_handle posted
      have pending : (⟨s.issued⟩ : Ticket) ∈ s.pending := mem_pending.2 ⟨j, before⟩
      exact absurd (lt_issued_of_held (Or.inl pending)) (Nat.lt_irrefl _)
    · exact (Option.some.inj target).symm

/-! ### Two tasks of a queue -/

/-- The task `b` has not been taken, and stands before `a` in no queue. -/
structure Queued (s : Session) (a b : Ticket) : Prop where
  lined : ∀ k, s.scheduler = some k → k.Lined a b
  waits : b ∉ s.launching

/-- When `b` is taken, `a` is gone. -/
theorem Queued.step (w : s.Sane settings) (l : s.Layered) (permits : s.Permits r)
    (h : s.Queued a b) (da : s.Delayed q a e) (db : s.Delayed q b f) (ne : a ≠ b) :
    (s.step r).2.Queued a b ∧ (s.step r).1 ≠ .started b ∨ (s.step r).2.Gone a := by
  have lined : ∀ k', (s.step r).2.scheduler = some k' → k'.Lined a b := by
    intro k' hk'
    obtain ⟨k, ops, hk, rfl, issues⟩ := exists_ops_step hk'
    exact (w k hk).lined_run (h.lined k hk) fun op mem j =>
      ⟨(issues op mem).not_posts da.defers.past j, (issues op mem).not_posts db.defers.past j⟩
  have past := (da.step w r).defers.past
  obtain ⟨s₁, ts, after, b', p⟩ := s.step_cases r
  by_cases taken : (s.step r).1 = .started b ∨ b ∈ (s.step r).2.launching
  · rcases b'.origin_of_launches (p.launches taken) with
      before | ⟨k, mode, calls, hk, seeks, taken, hk', launches⟩
    · exact absurd before h.waits
    · refine Or.inr ⟨?_, fun launched => ?_, past⟩
      · have none_posted (t : Ticket) (past : t.number < s.issued) :
            ∀ op ∈ [Scheduler.Operation.promote s.now s.isCanceled], ∀ j, ¬ op.Posts j t := by
          intro op mem
          rw [List.mem_singleton.1 mem]
          exact (Issues.promote seeks).not_posts past
        have lined' := (w k hk).lined_run (h.lined k hk) fun op mem j =>
          ⟨none_posted a da.defers.past op mem j, none_posted b db.defers.past op mem j⟩
        have da' := (w k hk).delays_run (da.delays k hk) (none_posted a da.defers.past)
        have db' := (w k hk).delays_run (db.delays k hk) (none_posted b db.defers.past)
        have m := ((w k hk).promote s.now s.isCanceled).mirrored
        rw [pending_of_scheduler (p.scheduler_eq.trans hk')]
        exact m.not_mem_of_take lined' da' db' taken
      · have launched := p.launches (Or.inr launched)
        rw [← List.mem_append, launches, l.launches_of_seeks permits seeks] at launched
        exact ne (List.mem_singleton.1 launched)
  · obtain ⟨other, waits⟩ := not_or.1 taken
    exact Or.inl ⟨⟨lined, waits⟩, other⟩

/-- Once both tasks are posted, `b` does not start before `a`. -/
theorem Queued.lt_of_started (w : s.Sane settings) (l : s.Layered) (calm : s.Calm rs)
    (h : s.Queued a b) (da : s.Delayed q a e) (db : s.Delayed q b f) (ne : a ≠ b)
    (hi : (s.run rs).1[i]? = some (.started a)) (hj : (s.run rs).1[j]? = some (.started b)) :
    i < j := by
  induction rs generalizing s i j with
  | nil => cases hi
  | cons r rs ih =>
      obtain ⟨permits, later⟩ := calm
      rw [run_cons] at hi hj
      rcases h.step w l permits da db ne with ⟨queued, other⟩ | gone
      · cases j with
        | zero => exact absurd (Option.some.inj hj) other
        | succ j =>
            cases i with
            | zero => exact Nat.succ_pos j
            | succ i =>
                exact Nat.succ_lt_succ (ih (w.step r) (l.step permits) later queued (da.step w r)
                  (db.step w r) hi hj)
      · -- the task that is gone can only have started in this step
        cases i with
        | succ i =>
            exact absurd (List.mem_of_getElem? (l := ((s.step r).2.run rs).1) hi)
              (gone.started_not_mem (w.step r) rs)
        | zero =>
            cases j with
            | succ j => exact Nat.succ_pos j
            | zero =>
                rw [hi] at hj
                cases hj
                exact absurd rfl ne

/-- A task that has just been posted stands behind one that was posted before and may run no
later. -/
theorem queued_behind (settings : Settings) (start : Ticks) (rs : List Request)
    {delay leeway : Duration} {policy : Policy} :
    let s := ((new settings start).run rs).2
    let r : Request := .postDelayed q delay leeway policy
    (s.step r).1 = .answered (.handle b) → s.Delayed q a e →
      e ≤ policy.earliest (s.now + delay) leeway → (s.step r).2.Queued a b := by
  intro s r posted da le
  have w : s.Sane settings := (sane_new settings start).run rs
  obtain ⟨rfl, k, k', hk, accepted, stepped⟩ := step_of_handle posted
  rw [stepped]
  refine ⟨?_, fun launched => ?_⟩
  · rintro _ ⟨rfl⟩ j tq' hj
    obtain ⟨tq, htq, tr⟩ := Scheduler.treated_postDelayed accepted j tq' hj
    have absent := not_mem_tickets_issued hk htq
    cases tr with
    | leave => exact Queue.lined_of_not_mem (Or.inr absent)
    | postDelayed =>
        have sorted := (w k hk).scheduled.sorted q tq htq
        refine (sorted.postDelayed _ _ _ _ _).lined (fun u hu e => ?_) fun u hu v hv hb ha => ?_
        · exact absent (Queue.mem_tickets.2 (Or.inl ⟨.delayed, u, hu, e⟩))
        · -- the new task comes after all that may run no later
          rcases Queue.mem_insertWaiting.1 hu with rfl | hu
          · rcases Queue.mem_insertWaiting.1 hv with rfl | hv
            · exact absurd da.defers.past (ha ▸ Nat.lt_irrefl _)
            · have first := ((da.delays k hk).delays q tq htq).waiting v hv ha
              have before := ((w k hk).numbered q tq htq).lt_posted v hv
              rw [WaitingTask.precedes_iff, first]
              rintro (lt | ⟨-, later⟩)
              · exact Nat.lt_irrefl _ (Nat.lt_of_lt_of_le lt le)
              · exact Nat.lt_irrefl _ (Nat.lt_of_lt_of_le before later)
          · exact absurd (Queue.mem_tickets.2 (Or.inr ⟨u, hu, hb⟩)) absent
  · have taken : (⟨s.issued⟩ : Ticket) ∈ s.taken := s.launching_sublist.subset launched
    exact Nat.lt_irrefl _ (lt_issued_of_held (Or.inr taken))

/-- A task that has just been posted stands before one that was posted before and may run only
later. -/
theorem queued_before (settings : Settings) (start : Ticks) (rs : List Request)
    {delay leeway : Duration} {policy : Policy} :
    let s := ((new settings start).run rs).2
    let r : Request := .postDelayed q delay leeway policy
    (s.step r).1 = .answered (.handle a) → s.Delayed q b f →
      policy.earliest (s.now + delay) leeway < f → s.now < f → (s.step r).2.Queued a b := by
  intro s r posted db lt now_lt
  have w : s.Sane settings := (sane_new settings start).run rs
  have not_due : ¬ f ≤ s.now := Nat.not_le.2 now_lt
  obtain ⟨rfl, k, k', hk, accepted, stepped⟩ := step_of_handle posted
  rw [stepped]
  refine ⟨?_, fun launched => not_due (db.defers.launches launched)⟩
  rintro _ ⟨rfl⟩ j tq' hj
  obtain ⟨tq, htq, tr⟩ := Scheduler.treated_postDelayed accepted j tq' hj
  have absent := not_mem_tickets_issued hk htq
  cases tr with
  | leave => exact Queue.lined_of_not_mem (Or.inl absent)
  | postDelayed =>
      have sorted := (w k hk).scheduled.sorted q tq htq
      refine (sorted.postDelayed _ _ _ _ _).lined (fun u hu e => ?_) fun u hu v hv hb ha => ?_
      · exact not_due ((db.defers.queues k hk q tq htq).ready .delayed u hu e)
      · rcases Queue.mem_insertWaiting.1 hv with rfl | hv
        · rcases Queue.mem_insertWaiting.1 hu with rfl | hu
          · exact absurd db.defers.past (hb ▸ Nat.lt_irrefl _)
          · have last := ((db.delays k hk).delays q tq htq).waiting u hu hb
            rw [WaitingTask.precedes_iff, last]
            rintro (before | ⟨same, -⟩)
            · exact Nat.lt_irrefl _ (Nat.lt_trans before lt)
            · rw [same] at lt
              exact Nat.lt_irrefl _ lt
        · exact absurd (Queue.mem_tickets.2 (Or.inr ⟨v, hv, ha⟩)) absent

/-! ### The order of two starts -/

/-- Request number `m` posts a delayed task to the queue that does not run early.  It gets the
ticket and is to run at `e`, which is the time of the request and its delay. -/
def PostedAt (s : Session) (rs : List Request) (m : Nat) (q : QueueId) (t : Ticket) (e : Ticks) :
    Prop :=
  ∃ delay leeway policy, rs[m]? = some (.postDelayed q delay leeway policy) ∧
    (s.run rs).1[m]? = some (.answered (.handle t)) ∧ policy ≠ .preferEarly ∧
    e = (s.run (rs.take m)).2.now + delay

theorem now_le_run (s : Session) (rs : List Request) : s.now ≤ (s.run rs).2.now :=
  run_induct (P := fun s' => s.now ≤ s'.now) (fun s' r h => by
    obtain ⟨s₁, ts, after, b, p⟩ := s'.step_cases r
    exact Nat.le_trans h (p.now_eq ▸ b.now_le)) (Nat.le_refl _) rs

theorem earliest_of_ne_preferEarly {policy : Policy} (h : policy ≠ .preferEarly) (time : Ticks)
    (leeway : Duration) : policy.earliest time leeway = time := by
  cases policy with
  | preferEarly => exact absurd rfl h
  | noSooner | precise => rfl

/-- The request of which `PostedAt` tells, and what it got. -/
theorem PostedAt.exists_step (h : s.PostedAt rs m q t e) : ∃ delay leeway policy,
    let s' := (s.run (rs.take m)).2
    let r : Request := .postDelayed q delay leeway policy
    rs[m]? = some r ∧ (s'.step r).1 = .answered (.handle t) ∧
      policy.earliest (s'.now + delay) leeway = e ∧ s'.now ≤ e := by
  obtain ⟨delay, leeway, policy, hr, posted, late, rfl⟩ := h
  rw [getElem?_run hr] at posted
  refine ⟨delay, leeway, policy, hr, Option.some.inj posted, earliest_of_ne_preferEarly late _ _,
    ?_⟩
  rw [Ticks.le_iff, Ticks.nanos_add]
  exact Nat.le_min.2 ⟨Nat.le_add_right _ _, Duration.nanos_le _⟩

theorem PostedAt.delayed (h : (new settings start).PostedAt rs m q t e) (lt : m < n) :
    ((new settings start).run (rs.take n)).2.Delayed q t e := by
  obtain ⟨delay, leeway, policy, hr, posted, rfl, -⟩ := h.exists_step
  have accepted := delayed_of_accepted settings start (rs.take m) posted
  rw [← run_take_succ hr] at accepted
  rw [run_take_of_le _ rs (Nat.succ_le_of_lt lt)]
  exact accepted.run ((sane_new settings start).run _) _

/-- Tasks that are posted by different requests have different tickets. -/
theorem PostedAt.ne (ha : (new settings start).PostedAt rs m q a e)
    (hb : (new settings start).PostedAt rs n q b f) (ne : m ≠ n) : a ≠ b := by
  have numbered : ∀ {a b m n e f}, (new settings start).PostedAt rs m q a e →
      (new settings start).PostedAt rs n q b f → m < n → a.number < b.number := by
    intro a b m n e f ha hb lt
    obtain ⟨delay, leeway, policy, -, posted, -⟩ := hb.exists_step
    obtain ⟨rfl, -⟩ := step_of_handle posted
    exact (ha.delayed lt).defers.past
  rintro rfl
  rcases Nat.lt_or_gt_of_ne ne with lt | gt
  · exact Nat.lt_irrefl _ (numbered ha hb lt)
  · exact Nat.lt_irrefl _ (numbered hb ha gt)

/-- A task starts after it was posted. -/
theorem PostedAt.lt_of_started (h : (new settings start).PostedAt rs m q t e)
    (hi : ((new settings start).run rs).1[i]? = some (.started t)) : m < i := by
  obtain ⟨delay, leeway, policy, hr, posted, -⟩ := h.exists_step
  rcases Nat.lt_trichotomy i m with lt | rfl | gt
  · -- the ticket had not been given out by then
    obtain ⟨rfl, -⟩ := step_of_handle posted
    have mem : .started ⟨((new settings start).run (rs.take m)).2.issued⟩ ∈
        ((new settings start).run (rs.take m)).1 := by
      rw [← take_run]
      exact List.mem_of_getElem? ((List.getElem?_take_of_lt lt).trans hi)
    have given := (perm_held_run settings start (rs.take m)).mem_iff.1
      (List.mem_append_left _ (List.mem_flatMap.2 ⟨_, mem, List.mem_cons_self⟩))
    obtain ⟨number, range, e⟩ := List.mem_map.1 given
    cases e
    exact absurd (List.mem_range.1 range) (Nat.lt_irrefl _)
  · rw [getElem?_run hr, posted] at hi
    cases hi
  · exact gt

/-- A task has started only if its time has come. -/
theorem PostedAt.le_now_of_started (h : (new settings start).PostedAt rs m q t e)
    (hi : ((new settings start).run rs).1[i]? = some (.started t)) (lt : i < n) :
    e ≤ ((new settings start).run (rs.take n)).2.now := by
  have posted := h.lt_of_started hi
  have length : i < rs.length := by
    rw [← length_run (new settings start)]
    exact (List.getElem?_eq_some_iff.1 hi).1
  have hr : rs[i]? = some rs[i] := List.getElem?_eq_getElem length
  rw [getElem?_run hr] at hi
  have due := ((h.delayed posted).defers.step ((sane_new settings start).run _) _).2
    (Option.some.inj hi)
  rw [← run_take_succ hr] at due
  rw [run_take_of_le _ rs (Nat.succ_le_of_lt lt)]
  exact Nat.le_trans due (now_le_run _ _)

/-- When both tasks are posted, the one that may run later, or was posted later to run at the same
time, stands behind the other one and has not started. -/
theorem PostedAt.queued (ha : (new settings start).PostedAt rs m q a e)
    (hb : (new settings start).PostedAt rs n q b f) (ne : m ≠ n) (first : e < f ∨ e = f ∧ m < n)
    (hj : ((new settings start).run rs).1[j]? = some (.started b)) :
    ∃ p, m < p ∧ n < p ∧ p ≤ j ∧ ((new settings start).run (rs.take p)).2.Queued a b := by
  rcases Nat.lt_or_gt_of_ne ne with lt | gt
  · obtain ⟨delay, leeway, policy, hr, posted, rfl, -⟩ := hb.exists_step
    have le : e ≤
        policy.earliest (((new settings start).run (rs.take n)).2.now + delay) leeway := by
      rcases first with less | ⟨same, -⟩
      · exact Nat.le_of_lt less
      · exact Nat.le_of_eq (congrArg Ticks.nanos same)
    refine ⟨n + 1, Nat.lt_succ_of_lt lt, Nat.lt_succ_self n, hb.lt_of_started hj, ?_⟩
    rw [run_take_succ hr]
    exact queued_behind settings start _ posted (ha.delayed lt) le
  · obtain ⟨delay, leeway, policy, hr, posted, rfl, now_le⟩ := ha.exists_step
    have less := first.resolve_right fun h => Nat.lt_asymm gt h.2
    have now_lt := Nat.lt_of_le_of_lt now_le less
    refine ⟨m + 1, Nat.lt_succ_self m, Nat.lt_succ_of_lt gt, ?_, ?_⟩
    · -- the task is not due yet when the other one is posted
      refine Nat.succ_le_of_lt (Nat.lt_of_not_le fun le => ?_)
      rcases Nat.lt_or_eq_of_le le with lt | rfl
      · exact absurd (hb.le_now_of_started hj lt) (Nat.not_le.2 now_lt)
      · rw [getElem?_run hr, posted] at hj
        cases hj
    · rw [run_take_succ hr]
      exact queued_before settings start _ posted (hb.delayed gt) less now_lt

/-- The task that may run first, or was posted first to run at the same time, starts first. -/
theorem PostedAt.starts_before (ha : (new settings start).PostedAt rs m q a e)
    (hb : (new settings start).PostedAt rs n q b f) (calm : (new settings start).Calm rs)
    (ne : m ≠ n) (first : e < f ∨ e = f ∧ m < n)
    (hi : ((new settings start).run rs).1[i]? = some (.started a))
    (hj : ((new settings start).run rs).1[j]? = some (.started b)) : i < j := by
  obtain ⟨p, hm, hn, hp, queued⟩ := ha.queued hb ne first hj
  rcases Nat.lt_or_ge i p with lt | ge
  · exact Nat.lt_of_lt_of_le lt hp
  · have layered : ((new settings start).run (rs.take p)).2.Layered :=
      Layered.run List.Pairwise.nil (calm.take p)
    have signal (l : Nat) (ge : p ≤ l) : ((new settings start).run rs).1[l]? =
        (((new settings start).run (rs.take p)).2.run (rs.drop p)).1[l - p]? := by
      rw [← drop_run, List.getElem?_drop, Nat.add_sub_cancel' ge]
    rw [signal i ge] at hi
    rw [signal j hp] at hj
    have before := queued.lt_of_started ((sane_new settings start).run _) layered (calm.drop p)
      (ha.delayed hm) (hb.delayed hn) (ha.ne hb ne) hi hj
    omega

/-- Let two tasks be posted to a queue with a delay, at any times, so that neither runs early, and
let both start in the end, while code of tasks that are being destroyed never asks to run tasks.
Then the first one starts before the second one exactly if its time comes earlier, or at the same
time and it was posted first.  Nothing else that happens in between changes the order. -/
theorem started_in_order (settings : Settings) (start : Ticks) (rs : List Request) {q : QueueId}
    {a b : Ticket} {e f : Ticks} {m n i j : Nat} :
    let s := new settings start
    s.Calm rs → s.PostedAt rs m q a e → s.PostedAt rs n q b f → m ≠ n →
      (s.run rs).1[i]? = some (.started a) → (s.run rs).1[j]? = some (.started b) →
      (i < j ↔ e < f ∨ e = f ∧ m < n) := by
  intro s calm ha hb ne hi hj
  refine ⟨fun lt => ?_, fun first => ha.starts_before hb calm ne first hi hj⟩
  by_contra not_first
  have first : f < e ∨ f = e ∧ n < m := by
    rcases Nat.lt_trichotomy f.nanos e.nanos with less | same | greater
    · exact Or.inl less
    · have same := Ticks.eq_of_nanos same
      refine Or.inr ⟨same, Nat.lt_of_le_of_ne (Nat.le_of_not_lt fun lt => ?_) ne.symm⟩
      exact not_first (Or.inr ⟨same.symm, lt⟩)
    · exact absurd (Or.inl greater) not_first
  exact Nat.lt_asymm lt (hb.starts_before ha calm ne.symm first hj hi)

/-- A task is posted after another one, to run earlier.  The queue is disabled and enabled again in
between, and the tasks are promoted one after the other. -/
theorem started_in_order_two_promotions :
    let s := new {} .zero
    let rs : List Request := [.create "main" true,
      .postDelayed ⟨1, 1⟩ (.ofMillis 30) .zero .noSooner, .advance (.ofMillis 10),
      .postDelayed ⟨1, 1⟩ (.ofMillis 10) .zero .precise, .setEnabled ⟨1, 1⟩ false,
      .advance (.ofMillis 10), .setEnabled ⟨1, 1⟩ true, .runNext, .finish, .advance (.ofMillis 10),
      .runNext]
    s.Calm rs ∧ s.PostedAt rs 3 ⟨1, 1⟩ ⟨1⟩ (.ofMillis 20) ∧
      s.PostedAt rs 1 ⟨1, 1⟩ ⟨0⟩ (.ofMillis 30) ∧ (s.run rs).1[7]? = some (.started ⟨1⟩) ∧
      (s.run rs).1[10]? = some (.started ⟨0⟩) ∧
      (7 < 10 ↔ Ticks.ofMillis 20 < Ticks.ofMillis 30 ∨
        Ticks.ofMillis 20 = Ticks.ofMillis 30 ∧ 3 < 1) := by
  intro s rs
  have calm : s.Calm rs := by decide +kernel
  have second : s.PostedAt rs 3 ⟨1, 1⟩ ⟨1⟩ (.ofMillis 20) :=
    ⟨.ofMillis 10, .zero, .precise, rfl, by decide +kernel, nofun, by decide +kernel⟩
  have first : s.PostedAt rs 1 ⟨1, 1⟩ ⟨0⟩ (.ofMillis 30) :=
    ⟨.ofMillis 30, .zero, .noSooner, rfl, by decide +kernel, nofun, by decide +kernel⟩
  have starts : (s.run rs).1[7]? = some (.started ⟨1⟩) := by decide +kernel
  have starts' : (s.run rs).1[10]? = some (.started ⟨0⟩) := by decide +kernel
  have order := started_in_order {} .zero rs calm second first (by decide) starts starts'
  exact ⟨calm, second, first, starts, starts', order⟩

end Dispatch.Session
