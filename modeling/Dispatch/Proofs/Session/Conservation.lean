import Dispatch.Proofs.Scheduler.Conservation
import Dispatch.Proofs.Session.History

/-!
# A session loses no task

A task that was handed in is held by the session until its code runs or it is destroyed: it is
pending in the scheduler, or a call has taken it.  A step lets at most one task go, and holds all
others that were held before, and the one that it was handed (`perm_held_step`).  So after a run,
the tasks that have gone and those that are held are the tasks that were handed in, each once
(`perm_held_run`).
-/

namespace Dispatch

/-- The task that is launched when the call goes on. -/
def After.owes : After → List Ticket
  | .launch t _ => [t]
  | _ => []

/-- The tasks that a call has taken and has not yet started or destroyed. -/
def Call.owes : Call → List Ticket
  | .running _ _ => []
  | .discarding _ rest after => rest ++ after.owes

/-- The task that the session lets go. -/
def Signal.leaving : Signal → List Ticket
  | .answered _ => []
  | .started t => [t]
  | .discarding t => [t]

namespace Session

variable {settings : Settings} {start : Ticks} {s s' : Session} {r : Request} {ts : List Ticket}
  {after : After} {x : Signal} {t : Ticket} {q : QueueId} {rs : List Request}

/-- The tasks that are pending in the scheduler. -/
def pending (s : Session) : List Ticket := s.scheduler.elim [] Scheduler.tickets

/-- The tasks that are pending in one queue. -/
def pendingIn (s : Session) (q : QueueId) : List Ticket :=
  s.scheduler.elim [] fun k => k.ticketsIn q

/-- The tasks that calls in progress have taken. -/
def taken (s : Session) : List Ticket := s.calls.flatMap Call.owes

theorem pending_of_scheduler {k : Scheduler} (hk : s.scheduler = some k) :
    s.pending = k.tickets := by
  unfold pending
  rw [hk]
  rfl

theorem taken_of_calls {call : Call} {calls : List Call} (top : s.calls = call :: calls) :
    s.taken = call.owes ++ calls.flatMap Call.owes :=
  flatMap_calls top _

theorem Seeks.taken_eq {mode : Mode} {calls : List Call} (a : s.Seeks r mode calls) :
    s.taken = calls.flatMap Call.owes :=
  a.flatMap_calls (fun _ _ => rfl) fun _ _ => rfl

theorem owes_afterRound (mode : Mode) (canceled : List Ticket) (next : Option Ticket) :
    (afterRound mode canceled next).owes = next.toList := by
  unfold afterRound
  cases next with
  | none =>
      dsimp only
      split <;> rfl
  | some t => rfl

/-! ### One step -/

theorem Asks.perm_tickets {op : Scheduler.Operation} (a : s.Asks r op) (k : Scheduler) :
    (k.perform op).tickets.Perm k.tickets := by
  cases a with
  | create name waking => exact k.perm_tickets_create name waking
  | setLevel q l =>
      exact Scheduler.orUnchanged_cases (P := fun k' => k'.tickets.Perm k.tickets) (.refl _)
        fun k' h => Scheduler.perm_tickets_setLevel h
  | setEnabled q on =>
      exact Scheduler.orUnchanged_cases (P := fun k' => k'.tickets.Perm k.tickets) (.refl _)
        fun k' h => Scheduler.perm_tickets_setEnabled h
  | takeWorkRequest => exact .refl _

/-- A promotion answers canceled tasks, and then one task may be taken. -/
theorem perm_tickets_round {k : Scheduler} (m : Scheduler.Mirrored k) (now : Ticks)
    (isCanceled : Ticket → Bool) :
    ((k.promote now isCanceled).1 ++ ((k.promote now isCanceled).2.take isCanceled).1.toList ++
      ((k.promote now isCanceled).2.take isCanceled).2.tickets).Perm k.tickets := by
  rw [List.append_assoc]
  exact (((m.promote now isCanceled).perm_tickets_take isCanceled).append_left _).trans
    (k.perm_tickets_promote now isCanceled)

/-- The tasks that a step is to destroy or to launch, and those that are held then, are those that
were held before and the one that was handed in. -/
theorem Begins.perm_held (w : s.Sane settings) (b : s.Begins r s' ts after) :
    (ts ++ after.owes ++ (s'.pending ++ s'.taken)).Perm (s.handed r ++ (s.pending ++ s.taken)) := by
  -- often the same calls are in progress, and the scheduler lets tasks go or gets a new one
  have of_tickets : ∀ {k k' : Scheduler} {s' : Session} (out new : List Ticket),
      s.scheduler = some k → s'.scheduler = some k' → s'.taken = s.taken →
      (out ++ k'.tickets).Perm (new ++ k.tickets) →
      (out ++ (s'.pending ++ s'.taken)).Perm (new ++ (s.pending ++ s.taken)) := by
    intro k k' s' out new hk hk' calls perm
    rw [pending_of_scheduler hk, pending_of_scheduler hk', calls, ← List.append_assoc,
      ← List.append_assoc]
    exact perm.append_right s.taken
  cases b with
  | nothing target | moveClock target =>
      rw [handed_eq_nil target]
      exact .refl _
  | perform scheduler asks =>
      rw [handed_eq_nil asks.target?_eq_none]
      exact of_tickets [] [] scheduler rfl rfl (asks.perm_tickets _)
  | cancel t =>
      unfold pending taken
      rw [scheduler_cancel, calls_cancel]
      exact .refl _
  | post scheduler accepted =>
      exact of_tickets [] [_] scheduler rfl rfl (Scheduler.perm_tickets_post accepted)
  | postDelayed scheduler accepted =>
      exact of_tickets [] [_] scheduler rfl rfl (Scheduler.perm_tickets_postDelayed accepted)
  | refuse target =>
      rw [handed_eq target]
      exact .refl _
  | remove scheduler removed =>
      rw [show (After.answer Reply.done).owes = [] from rfl, List.append_nil]
      exact of_tickets ts [] scheduler rfl rfl (Scheduler.perm_tickets_remove removed)
  | @sweep k scheduler =>
      rw [show (After.answer Reply.done).owes = [] from rfl, List.append_nil]
      exact of_tickets _ [] scheduler rfl rfl (k.perm_tickets_sweep s.now s.isCanceled)
  | close scheduler =>
      rw [pending_of_scheduler scheduler, show (After.answer Reply.done).owes = [] from rfl,
        List.append_nil]
      exact .refl _
  | ran top =>
      rw [taken_of_calls top]
      exact .refl _
  | resume top =>
      rw [taken_of_calls top]
      exact List.perm_append_comm_assoc _ _ _
  | @round _ mode calls k scheduler seeks =>
      rw [handed_eq_nil seeks.target?_eq_none, owes_afterRound, pending_of_scheduler scheduler,
        seeks.taken_eq, ← List.append_assoc]
      exact (perm_tickets_round (w k scheduler).mirrored s.now s.isCanceled).append_right _
  | gone scheduler seeks =>
      rw [handed_eq_nil seeks.target?_eq_none, seeks.taken_eq]
      exact .refl _

theorem Proceeds.perm_held (p : s.Proceeds ts after x s') :
    (x.leaving ++ (s'.pending ++ s'.taken)).Perm (ts ++ after.owes ++ (s.pending ++ s.taken)) := by
  cases p with
  | answer => exact .refl _
  | start => exact .refl _
  | skip => exact .refl _
  | discard t ts after =>
      refine List.Perm.cons t ?_
      rw [taken_of_calls (s := { s with calls := .discarding t ts after :: s.calls }) rfl]
      exact List.perm_append_comm_assoc s.pending (ts ++ after.owes) s.taken

/-- A step lets at most one task go and holds the others, and the one that was handed in. -/
theorem perm_held_step (w : s.Sane settings) (r : Request) :
    ((s.step r).1.leaving ++ ((s.step r).2.pending ++ (s.step r).2.taken)).Perm
      (s.handed r ++ (s.pending ++ s.taken)) := by
  obtain ⟨s₁, ts, after, b, p⟩ := s.step_cases r
  exact p.perm_held.trans (b.perm_held w)

/-! ### A run -/

theorem range_issued_step (s : Session) (r : Request) :
    (List.range (s.step r).2.issued).map Ticket.mk =
      (List.range s.issued).map Ticket.mk ++ s.handed r := by
  rw [issued_step]
  unfold handed
  split
  · rw [List.length_singleton, List.range_succ, List.map_append]
    rfl
  · exact (List.append_nil _).symm

/-- The tasks that have gone and those that are held are all that were handed in, each once. -/
theorem perm_held_run (settings : Settings) (start : Ticks) (rs : List Request) :
    let out := (new settings start).run rs
    (out.1.flatMap Signal.leaving ++ (out.2.pending ++ out.2.taken)).Perm
      ((List.range out.2.issued).map Ticket.mk) := by
  induction rs using List.reverseRecOn with
  | nil => exact .refl _
  | append_singleton rs r ih =>
      rw [run_concat]
      have w : ((new settings start).run rs).2.Sane settings := (sane_new settings start).run rs
      generalize (new settings start).run rs = out at ih w ⊢
      obtain ⟨xs, s⟩ := out
      dsimp only at ih w ⊢
      rw [List.flatMap_append, List.flatMap_singleton, range_issued_step]
      calc (xs.flatMap Signal.leaving ++ (s.step r).1.leaving ++
              ((s.step r).2.pending ++ (s.step r).2.taken)).Perm
            (xs.flatMap Signal.leaving ++ (s.handed r ++ (s.pending ++ s.taken))) := by
              rw [List.append_assoc]
              exact (perm_held_step w r).append_left _
        List.Perm _ (s.handed r ++ (xs.flatMap Signal.leaving ++ (s.pending ++ s.taken))) :=
          List.perm_append_comm_assoc _ _ _
        List.Perm _ ((List.range s.issued).map Ticket.mk ++ s.handed r) :=
          (ih.append_left _).trans List.perm_append_comm

/-- A task that is held was handed in before. -/
theorem lt_issued_of_held
    (h : t ∈ ((new settings start).run rs).2.pending ∨ t ∈ ((new settings start).run rs).2.taken) :
    t.number < ((new settings start).run rs).2.issued := by
  have held := (perm_held_run settings start rs).mem_iff.1
    (List.mem_append_right _ (List.mem_append.2 h))
  obtain ⟨n, hn, rfl⟩ := List.mem_map.1 held
  exact List.mem_range.1 hn

theorem count_leaving (xs : List Signal) (t : Ticket) :
    (xs.flatMap Signal.leaving).count t = xs.count (.started t) + xs.count (.discarding t) := by
  induction xs with
  | nil => rfl
  | cons x xs ih =>
      rw [List.flatMap_cons, List.count_append, ih, List.count_cons, List.count_cons]
      rcases x with reply | u | u
      · simp [Signal.leaving]
      · simp [Signal.leaving, List.count_singleton]
        omega
      · simp [Signal.leaving, List.count_singleton]
        omega

/-- A task that was handed in is in one condition: it is pending, or taken, or it was started or
destroyed, in one place and once. -/
theorem count_held_run (settings : Settings) (start : Ticks) (rs : List Request)
    (lt : t.number < ((new settings start).run rs).2.issued) :
    let out := (new settings start).run rs
    out.2.pending.count t + out.2.taken.count t + out.1.count (.started t) +
      out.1.count (.discarding t) = 1 := by
  intro out
  have perm : (out.1.flatMap Signal.leaving ++ (out.2.pending ++ out.2.taken)).Perm
      ((List.range out.2.issued).map Ticket.mk) := perm_held_run settings start rs
  have once : ((List.range out.2.issued).map Ticket.mk).count t = 1 := by
    refine List.count_eq_one_of_mem (List.nodup_range.map fun m n e => ?_)
      (List.mem_map.2 ⟨t.number, List.mem_range.2 lt, rfl⟩)
    cases e
    rfl
  have split := perm.count_eq t
  rw [once, List.count_append, List.count_append, count_leaving] at split
  omega

end Session

end Dispatch
