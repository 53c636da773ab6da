import Dispatch.Proofs.Session.Cancel
import Dispatch.Proofs.Session.Conservation

/-!
# What becomes of a task

A pending task is in the queue that accepted it (`mem_postedTo_of_pendingIn`).  A task is destroyed
only for a reason (`Dooms`): it is canceled, its queue is removed, the scheduler is given up, or the
task is refused.  Together with the count of the tasks that are held, this tells what can become of
a task (`task_fates`).
-/

namespace Dispatch

/-- The tasks that are to be destroyed before a call goes on. -/
def Call.doomed : Call → List Ticket
  | .running _ _ => []
  | .discarding _ rest _ => rest

namespace Session

variable {settings : Settings} {start : Ticks} {s s' : Session} {r : Request} {ts : List Ticket}
  {after : After} {x : Signal} {t : Ticket} {q : QueueId} {rs : List Request} {k : Scheduler}

/-! ### The queue of a task -/

theorem pendingIn_of_scheduler (hk : s.scheduler = some k) (q : QueueId) :
    s.pendingIn q = k.ticketsIn q := by
  unfold pendingIn
  rw [hk]
  rfl

theorem mem_pending : t ∈ s.pending ↔ ∃ q, t ∈ s.pendingIn q := by
  unfold pending pendingIn
  cases s.scheduler with
  | none => simp
  | some k => exact Scheduler.mem_tickets

theorem Issues.of_posts {op : Scheduler.Operation} (i : s.Issues r op) (h : op.Posts q t) :
    r.target? = some q ∧ t = ⟨s.issued⟩ := by
  rcases h with rfl | ⟨delay, leeway, policy, now, rfl⟩
  · cases i with
    | asks a => cases a
    | post => exact ⟨rfl, rfl⟩
  · cases i with
    | asks a => cases a
    | postDelayed => exact ⟨rfl, rfl⟩

/-- A task is pending in a queue after a step if it was before, or has just been accepted. -/
theorem mem_pendingIn_of_step (w : s.Sane settings) (h : t ∈ (s.step r).2.pendingIn q) :
    t ∈ s.pendingIn q ∨ r.target? = some q ∧ (s.step r).1.accepted? = some t := by
  cases hk' : (s.step r).2.scheduler with
  | none =>
      unfold pendingIn at h
      rw [hk'] at h
      cases h
  | some k' =>
      obtain ⟨k, ops, hk, rfl, issues⟩ := exists_ops_step hk'
      rw [pendingIn_of_scheduler hk'] at h
      rcases (w k hk).mem_ticketsIn_run h with before | ⟨op, mem, posts⟩
      · rw [pendingIn_of_scheduler hk]
        exact Or.inl before
      · obtain ⟨target, rfl⟩ := (issues op mem).of_posts posts
        rcases step_of_target target with accepted | ⟨e, refused⟩
        · exact Or.inr ⟨target, accepted⟩
        · rw [refused] at hk'
          rw [pendingIn_of_scheduler (s := s) hk']
          exact Or.inl h

theorem mem_postedTo_concat {h : List (Request × Signal)} : t ∈ postedTo (h ++ [(r, x)]) q ↔
    t ∈ postedTo h q ∨ r.target? = some q ∧ x.accepted? = some t := by
  simp only [mem_postedTo, mem_postings, List.mem_append, List.mem_singleton, Prod.mk.injEq]
  constructor
  · rintro ⟨y, ⟨r', mem | ⟨rfl, rfl⟩, target⟩, accepted⟩
    · exact Or.inl ⟨y, ⟨r', mem, target⟩, accepted⟩
    · exact Or.inr ⟨target, accepted⟩
  · rintro (⟨y, ⟨r', mem, target⟩, accepted⟩ | ⟨target, accepted⟩)
    · exact ⟨y, ⟨r', Or.inl mem, target⟩, accepted⟩
    · exact ⟨x, ⟨r, Or.inr ⟨rfl, rfl⟩, target⟩, accepted⟩

/-- A task that is pending in a queue was accepted by that queue. -/
theorem mem_postedTo_of_pendingIn (h : t ∈ ((new settings start).run rs).2.pendingIn q) :
    t ∈ postedTo ((new settings start).history rs) q := by
  induction rs using List.reverseRecOn with
  | nil =>
      obtain ⟨tq, hq, -⟩ := Scheduler.mem_ticketsIn.1 h
      rw [show (Scheduler.ofSettings settings).queues.get? q = none from
        Scheduler.get?_ofSettings settings q] at hq
      cases hq
  | append_singleton rs r ih =>
      rw [run_concat] at h
      rw [history_concat, mem_postedTo_concat]
      exact (mem_pendingIn_of_step ((sane_new settings start).run rs) h).imp_left ih

theorem lt_issued_of_mem_postedTo (h : t ∈ postedTo ((new settings start).history rs) q) :
    t.number < ((new settings start).run rs).2.issued := by
  obtain ⟨x, mem, accepted⟩ := mem_postedTo.1 h
  exact lt_issued_of_mem_postings mem (Signal.task?_of_accepted? accepted)

/-- A task that a queue has accepted is pending in that queue, if at all. -/
theorem mem_pending_iff (h : t ∈ postedTo ((new settings start).history rs) q) :
    t ∈ ((new settings start).run rs).2.pending ↔
      t ∈ ((new settings start).run rs).2.pendingIn q := by
  rw [mem_pending]
  constructor
  · rintro ⟨j, hj⟩
    rwa [eq_of_mem_postedTo h (mem_postedTo_of_pendingIn hj)]
  · exact fun hq => ⟨q, hq⟩

theorem count_pendingIn_le (s : Session) (q : QueueId) (t : Ticket) :
    (s.pendingIn q).count t ≤ s.pending.count t := by
  unfold pendingIn pending
  cases s.scheduler with
  | none => exact Nat.le_refl _
  | some k =>
      show (k.ticketsIn q).count t ≤ k.tickets.count t
      unfold Scheduler.ticketsIn
      cases hq : k.queues.get? q with
      | none => exact Nat.zero_le _
      | some tq =>
          rw [Scheduler.tickets_eq, ← (perm_ticketsOf_erase hq).count_eq, List.count_append]
          exact Nat.le_add_right _ _

theorem count_pending_le_one (settings : Settings) (start : Ticks) (rs : List Request)
    (t : Ticket) : ((new settings start).run rs).2.pending.count t ≤ 1 := by
  by_cases mem : t ∈ ((new settings start).run rs).2.pending
  · obtain ⟨q, hq⟩ := mem_pending.1 mem
    have once := count_held_run settings start rs
      (lt_issued_of_mem_postedTo (mem_postedTo_of_pendingIn hq))
    dsimp only at once
    omega
  · rw [List.count_eq_zero_of_not_mem mem]
    exact Nat.zero_le 1

theorem count_pendingIn (h : t ∈ postedTo ((new settings start).history rs) q) :
    (((new settings start).run rs).2.pendingIn q).count t =
      ((new settings start).run rs).2.pending.count t := by
  have le := ((new settings start).run rs).2.count_pendingIn_le q t
  have once := count_pending_le_one settings start rs t
  by_cases mem : t ∈ ((new settings start).run rs).2.pendingIn q
  · have pos := List.count_pos_iff.2 mem
    omega
  · rw [List.count_eq_zero_of_not_mem mem,
      List.count_eq_zero_of_not_mem ((mem_pending_iff h).not.2 mem)]

/-- The tasks that are pending in a queue are those of the tasks that it accepted that are
pending. -/
theorem length_pendingIn (settings : Settings) (start : Ticks) (rs : List Request) (q : QueueId) :
    let s := ((new settings start).run rs).2
    (s.pendingIn q).length =
      (postedTo ((new settings start).history rs) q).countP (· ∈ s.pending) := by
  intro s
  rw [List.countP_eq_length_filter]
  refine List.Perm.length_eq ((List.perm_ext_iff_of_nodup ?_ ?_).2 fun t => ?_)
  · refine List.nodup_iff_count_le_one.2 fun t => ?_
    exact Nat.le_trans (s.count_pendingIn_le q t) (count_pending_le_one settings start rs t)
  · exact (nodup_postedTo settings start rs q).filter _
  · rw [List.mem_filter, decide_eq_true_iff]
    constructor
    · exact fun h => ⟨mem_postedTo_of_pendingIn h, mem_pending.2 ⟨q, h⟩⟩
    · exact fun ⟨h, mem⟩ => (mem_pending_iff h).1 mem

/-! ### Why a task is destroyed -/

/-- A request is the reason for which a task is destroyed. -/
inductive Dooms (s : Session) (r : Request) (t : Ticket) : Prop
  | canceled (h : (s.step r).2.isCanceled t = true)
  | removed {q : QueueId} (h : r = .remove q) (mem : t ∈ s.pendingIn q)
  | closed (h : (s.step r).2.scheduler = none)
  | refused {q : QueueId} (h : r.target? = some q) (x : (s.step r).1 = .discarding t)

/-- The tasks that are to be destroyed before calls go on. -/
def doomed (s : Session) : List Ticket := s.calls.flatMap Call.doomed

theorem doomed_of_calls {call : Call} {calls : List Call} (top : s.calls = call :: calls) :
    s.doomed = call.doomed ++ calls.flatMap Call.doomed :=
  flatMap_calls top _

theorem Seeks.doomed_eq {mode : Mode} {calls : List Call} (a : s.Seeks r mode calls) :
    s.doomed = calls.flatMap Call.doomed :=
  a.flatMap_calls (fun _ _ => rfl) fun _ _ => rfl

theorem Begins.reason (b : s.Begins r s' ts after) (h : t ∈ ts ∨ t ∈ s'.doomed) :
    t ∈ s.doomed ∨ s'.isCanceled t = true ∨ (∃ q, r = .remove q ∧ t ∈ s.pendingIn q) ∨
      s'.scheduler = none ∨ ∃ q, r.target? = some q ∧ ts = [t] := by
  cases b with
  | nothing | perform | moveClock | post | postDelayed =>
      exact Or.inl (h.resolve_left List.not_mem_nil)
  | cancel u =>
      unfold doomed at h ⊢
      rw [calls_cancel] at h
      exact Or.inl (h.resolve_left List.not_mem_nil)
  | refuse target =>
      rcases h with h | h
      · exact Or.inr (Or.inr (Or.inr (Or.inr ⟨_, target, by rw [List.mem_singleton.1 h]⟩)))
      · exact Or.inl h
  | @remove q k k' ts scheduler removed =>
      rcases h with h | h
      · obtain ⟨tq, hq, e⟩ := Scheduler.ok_of_queue removed
        obtain ⟨rfl, -⟩ := Prod.mk.inj e
        refine Or.inr (Or.inr (Or.inl ⟨q, rfl, ?_⟩))
        rw [pendingIn_of_scheduler scheduler]
        exact Scheduler.mem_ticketsIn.2 ⟨tq, hq, h⟩
      · exact Or.inl h
  | sweep =>
      rcases h with h | h
      · exact Or.inr (Or.inl (Scheduler.isCanceled_of_mem_sweep h))
      · exact Or.inl h
  | close => exact Or.inr (Or.inr (Or.inr (Or.inl rfl)))
  | ran top =>
      rw [doomed_of_calls top]
      exact Or.inl (h.resolve_left List.not_mem_nil)
  | resume top =>
      rw [doomed_of_calls top]
      exact Or.inl (List.mem_append.2 h)
  | round _ seeks =>
      rw [seeks.doomed_eq]
      rcases h with h | h
      · exact Or.inr (Or.inl (Scheduler.isCanceled_of_mem_promote h))
      · exact Or.inl h
  | gone _ seeks =>
      rw [seeks.doomed_eq]
      exact Or.inl (h.resolve_left List.not_mem_nil)

theorem Proceeds.reason (p : s.Proceeds ts after x s') (h : x = .discarding t ∨ t ∈ s'.doomed) :
    (t ∈ ts ∨ t ∈ s.doomed) ∨ s'.isCanceled t = true := by
  cases p with
  | answer => exact Or.inl (Or.inr (h.resolve_left nofun))
  | start => exact Or.inl (Or.inr (h.resolve_left nofun))
  | skip canceled =>
      rcases h with h | h
      · cases h
        exact Or.inr canceled
      · exact Or.inl (Or.inr h)
  | discard u us after =>
      rcases h with h | h
      · cases h
        exact Or.inl (Or.inl List.mem_cons_self)
      · rcases List.mem_append.1 h with h | h
        · exact Or.inl (Or.inl (List.mem_cons_of_mem _ h))
        · exact Or.inl (Or.inr h)

/-- A task is destroyed in a step, or is to be destroyed after it, if it was to be destroyed before,
or if the request is the reason. -/
theorem doomed_step (h : (s.step r).1 = .discarding t ∨ t ∈ (s.step r).2.doomed) :
    t ∈ s.doomed ∨ s.Dooms r t := by
  obtain ⟨s₁, ts, after, b, p⟩ := s.step_cases r
  rcases p.reason h with h | canceled
  · rcases b.reason h with before | canceled | ⟨q, rfl, mem⟩ | closed | ⟨q, target, rfl⟩
    · exact Or.inl before
    · exact Or.inr (.canceled ((p.isCanceled_eq t).trans canceled))
    · exact Or.inr (.removed rfl mem)
    · exact Or.inr (.closed (p.scheduler_eq.trans closed))
    · refine Or.inr (.refused target ?_)
      generalize s.step r = out at p
      obtain ⟨x, s'⟩ := out
      cases p
      rfl
  · exact Or.inr (.canceled canceled)

/-- Some request was the reason for which a task was destroyed. -/
theorem exists_dooms (h : .discarding t ∈ (s.run rs).1 ∨ t ∈ (s.run rs).2.doomed)
    (start : s.doomed = []) :
    ∃ before r rest, rs = before ++ r :: rest ∧ (s.run before).2.Dooms r t := by
  induction rs using List.reverseRecOn with
  | nil =>
      rw [show (s.run []).2 = s from rfl, start] at h
      exact absurd h (not_or.2 ⟨List.not_mem_nil, List.not_mem_nil⟩)
  | append_singleton rs r ih =>
      have earlier (h : .discarding t ∈ (s.run rs).1 ∨ t ∈ (s.run rs).2.doomed) :
          ∃ before r' rest, rs ++ [r] = before ++ r' :: rest ∧ (s.run before).2.Dooms r' t := by
        obtain ⟨before, r', rest, rfl, dooms⟩ := ih h
        exact ⟨before, r', rest ++ [r], by simp, dooms⟩
      rw [run_concat, List.mem_append, List.mem_singleton] at h
      have now (h : ((s.run rs).2.step r).1 = .discarding t ∨
          t ∈ ((s.run rs).2.step r).2.doomed) :
          ∃ before r' rest, rs ++ [r] = before ++ r' :: rest ∧ (s.run before).2.Dooms r' t := by
        rcases doomed_step h with before | dooms
        · exact earlier (Or.inr before)
        · exact ⟨rs, r, [], rfl, dooms⟩
      rcases h with (h | h) | h
      · exact earlier (Or.inl h)
      · exact now (Or.inl h.symm)
      · exact now (Or.inr h)

theorem scheduler_run_eq_none (h : s.scheduler = none) (rs : List Request) :
    (s.run rs).2.scheduler = none := by
  refine run_induct (P := fun s => s.scheduler = none) (fun s r h => ?_) h rs
  refine Option.eq_none_iff_forall_ne_some.2 fun k' hk' => ?_
  obtain ⟨k, hk, -⟩ := scheduler_step_cases hk'
  rw [h] at hk
  cases hk

theorem mem_postedTo_append (h : t ∈ postedTo (s.history rs) q) (rs' : List Request) :
    t ∈ postedTo (s.history (rs ++ rs')) q := by
  obtain ⟨x, mem, accepted⟩ := mem_postedTo.1 h
  obtain ⟨r, mem, target⟩ := mem_postings.1 mem
  refine mem_postedTo.2 ⟨x, mem_postings.2 ⟨r, ?_, target⟩, accepted⟩
  rw [history_append]
  exact List.mem_append_left _ mem

/-- A task that was accepted is destroyed only if it was canceled, if it was in its queue when that
was removed, or if the scheduler was given up. -/
theorem reason_of_discarding (h : t ∈ postedTo ((new settings start).history rs) q)
    (gone : .discarding t ∈ ((new settings start).run rs).1) :
    ((new settings start).run rs).2.isCanceled t = true ∨
      (∃ before rest, rs = before ++ .remove q :: rest ∧
        t ∈ ((new settings start).run before).2.pendingIn q) ∨
      ((new settings start).run rs).2.scheduler = none := by
  obtain ⟨before, r, rest, rfl, dooms⟩ := exists_dooms (Or.inl gone) rfl
  have later : ((new settings start).run (before ++ r :: rest)).2 =
      ((((new settings start).run before).2.step r).2.run rest).2 := by
    rw [run_append]
    rfl
  cases dooms with
  | canceled canceled =>
      rw [later]
      exact Or.inl (isCanceled_run canceled rest)
  | @removed j e mem =>
      subst e
      have home := mem_postedTo_append (mem_postedTo_of_pendingIn mem) (.remove j :: rest)
      cases eq_of_mem_postedTo h home
      exact Or.inr (Or.inl ⟨before, rest, rfl, mem⟩)
  | closed closed =>
      rw [later]
      exact Or.inr (Or.inr (scheduler_run_eq_none closed rest))
  | @refused j target x =>
      -- the ticket of a refused task is not that of an accepted one
      have refusal := mem_postings.2 ⟨r, mem_history.2 ⟨before, rest, rfl, x⟩, target⟩
      obtain ⟨y, mem, accepted⟩ := mem_postedTo.1 h
      obtain ⟨-, rfl⟩ := eq_of_mem_postings mem refusal (Signal.task?_of_accepted? accepted)
      cases accepted

/-! ### All that can become of a task -/

/-- A task that a queue has accepted is at every moment in one condition, and has come to it once:
it is pending in one of the three stores of that queue, and in no other queue; or a call in progress
has taken it; or its code was started; or it was destroyed.  It is destroyed only if it was
canceled, if its queue was removed while it was there, or if the scheduler was given up.  A queue
counts the tasks that it has accepted and that are pending.  A task that is not accepted is
destroyed at once, and never comes into any other condition. -/
theorem task_fates (settings : Settings) (start : Ticks) (rs : List Request) :
    let signals := ((new settings start).run rs).1
    let s := ((new settings start).run rs).2
    let h := (new settings start).history rs
    (∀ q, ∀ t ∈ postedTo h q,
      (s.pendingIn q).count t + s.taken.count t + signals.count (.started t) +
          signals.count (.discarding t) = 1 ∧
        (∀ j, t ∈ s.pendingIn j → j = q) ∧
        (.discarding t ∈ signals →
          s.isCanceled t = true ∧ .cancel t ∈ rs ∨
          (∃ before rest, rs = before ++ .remove q :: rest ∧
            t ∈ ((new settings start).run before).2.pendingIn q) ∨
          s.scheduler = none)) ∧
      (∀ k q n, s.scheduler = some k → k.pendingCount q = .ok n →
        n = (postedTo h q).countP (· ∈ s.pending)) ∧
      ∀ q x, (q, x) ∈ postings h → x.accepted? = none →
        ∃ t, x = .discarding t ∧ signals.count (.discarding t) = 1 ∧ .started t ∉ signals ∧
          t ∉ s.pending ∧ t ∉ s.taken := by
  intro signals s h
  refine ⟨fun q t ht => ⟨?_, fun j hj => ?_, fun gone => ?_⟩, fun k q n hk hn => ?_,
    fun q x mem refused => ?_⟩
  · rw [count_pendingIn ht]
    exact count_held_run settings start rs (lt_issued_of_mem_postedTo ht)
  · exact (eq_of_mem_postedTo ht (mem_postedTo_of_pendingIn hj)).symm
  · exact (reason_of_discarding ht gone).imp_left fun canceled =>
      ⟨canceled, cancel_mem_of_isCanceled canceled⟩
  · obtain ⟨tq, hq, rfl⟩ := Scheduler.ok_of_queue hn
    rw [← length_pendingIn settings start rs q, pendingIn_of_scheduler hk,
      ← Queue.length_tickets]
    unfold Scheduler.ticketsIn
    rw [hq]
    rfl
  · obtain ⟨t, rfl⟩ := exists_discarding_of_mem_postings mem refused
    have once := count_held_run settings start rs (lt_issued_of_mem_postings mem rfl)
    obtain ⟨r, mem, -⟩ := mem_postings.1 mem
    have gone : 0 < signals.count (.discarding t) :=
      List.count_pos_iff.2 (List.of_mem_zip mem).2
    change s.pending.count t + s.taken.count t + signals.count (.started t) +
      signals.count (.discarding t) = 1 at once
    refine ⟨t, rfl, by omega, ?_, ?_, ?_⟩ <;> rw [← List.count_eq_zero] <;> omega

/-- Of the three tasks of a queue that is removed, the first is being destroyed, and what it does
then posts a task to another queue. -/
example :
    let out := (new {} .zero).run [.create "main" true, .create "other" true, .post ⟨1, 1⟩,
      .post ⟨1, 1⟩, .post ⟨1, 1⟩, .remove ⟨1, 1⟩, .post ⟨2, 1⟩]
    out.2.taken = [⟨1⟩, ⟨2⟩] ∧ out.2.pending = [⟨3⟩] ∧ out.1.count (.discarding ⟨0⟩) = 1 := by
  decide +kernel

end Session

end Dispatch
