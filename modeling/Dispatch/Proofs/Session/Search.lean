import Dispatch.Proofs.Scheduler.Search
import Dispatch.Proofs.Session.Origins

/-!
# Looking for a task

A session that looks for a task makes the rounds of a search.  When the canceled tasks that come up
do nothing as they are destroyed, these are all that is destroyed on the way, and then the call
starts the task that is found, or ends (`subsides_round`).  So a call that is to run one task runs
one exactly if there is one to run, and removes none but canceled delayed tasks besides
(`runNext_finds`).
-/

namespace Dispatch.Session

variable {settings : Settings} {s : Session} {r : Request} {ts us cs : List Ticket} {after : After}
  {out : Signal × Session} {k k' : Scheduler} {t : Ticket} {taken found : Option Ticket}
  {mode : Mode}

/-! ### Destroying tasks that do nothing -/

/-- If every task that is destroyed does nothing, then these are destroyed, and what follows is the
last signal with the session after it. -/
inductive Subsides : Signal × Session → List Ticket → Signal × Session → Prop
  | rest {x : Signal} {s : Session} (other : ∀ t, x ≠ .discarding t) : Subsides (x, s) [] (x, s)
  | discard {t : Ticket} {s : Session} {ts : List Ticket} {out : Signal × Session}
      (subsides : Subsides s.finish ts out) : Subsides (.discarding t, s) (t :: ts) out

/-- The code of a task that does nothing says only that it has finished. -/
theorem Subsides.run (h : Subsides (s.step r) ts out) :
    s.run (r :: List.replicate ts.length .finish) =
      (ts.map Signal.discarding ++ [out.1], out.2) := by
  generalize e : s.step r = first at h
  induction h generalizing s r with
  | rest =>
      rw [run_cons, e]
      rfl
  | @discard t s' ts out _ ih =>
      have rest := ih (s := s') (r := .finish) rfl
      rw [run_cons, e]
      show (Signal.discarding t :: (s'.run (.finish :: List.replicate ts.length .finish)).1,
        (s'.run (.finish :: List.replicate ts.length .finish)).2) = _
      rw [rest]
      rfl

/-- Tasks that were removed together are destroyed one after the other, and then the call
goes on. -/
theorem Subsides.discards (h : Subsides (s.resume after) us out) (ts : List Ticket) :
    Subsides (s.discard ts after) (ts ++ us) out := by
  induction ts with
  | nil => exact h
  | cons t ts ih => exact .discard ih

/-! ### Rounds and searches -/

/-- The canceled tasks that a round has removed are destroyed before the call goes on. -/
theorem round_eq (hk : s.scheduler = some k)
    (e : Scheduler.Round s.now s.isCanceled k cs taken k') (mode : Mode) :
    s.round mode = ({ s with scheduler := some k' } : Session).discard cs
      (afterRound mode cs taken) := by
  unfold Session.round
  rw [hk]
  dsimp only
  rw [e.canceled, e.taken, e.left]
  cases cs <;> cases taken <;> rfl

theorem launch_of_canceled (canceled : s.isCanceled t = true) (mode : Mode) :
    s.launch t mode =
      (.discarding t, { s with calls := .discarding t [] (.again mode) :: s.calls }) :=
  if_pos canceled

theorem launch_of_live (live : s.isCanceled t = false) (mode : Mode) :
    s.launch t mode = (.started t, { s with calls := .running t mode :: s.calls }) :=
  if_neg (Bool.eq_false_iff.1 live)

/-- What a search removes on the way is destroyed.  Then the call starts the task that is found, or
says that there is none.  Apart from the scheduler, every round finds the same session. -/
theorem subsides_round (h : Scheduler.Searches s.now s.isCanceled k ts found k') (mode : Mode) :
    Subsides (({ s with scheduler := some k } : Session).round mode) ts
      (found.elim (.answered (idleReply mode)) .started,
        { s with
          scheduler := some k', calls := (found.map (.running · mode)).toList ++ s.calls }) := by
  induction h with
  | @found k k' cs t round live =>
      have started : Subsides
          (({ s with scheduler := some k' } : Session).resume (.launch t mode)) []
          (.started t, { s with scheduler := some k', calls := .running t mode :: s.calls }) := by
        show Subsides (({ s with scheduler := some k' } : Session).launch t mode) [] _
        rw [launch_of_live (s := { s with scheduler := some k' }) live]
        exact .rest nofun
      rw [round_eq (s := { s with scheduler := some k }) rfl round]
      have discarded := started.discards cs
      rwa [List.append_nil] at discarded
  | @nothing k k' round =>
      rw [round_eq (s := { s with scheduler := some k }) rfl round]
      exact .rest nofun
  | @again k k₁ k' cs ts taken found round removed canceled _ ih =>
      rw [round_eq (s := { s with scheduler := some k }) rfl round, List.append_assoc]
      refine Subsides.discards ?_ cs
      cases taken with
      | some t =>
          show Subsides (({ s with scheduler := some k₁ } : Session).launch t mode) (t :: ts) _
          rw [launch_of_canceled (s := { s with scheduler := some k₁ }) (canceled t rfl)]
          exact .discard ih
      | none =>
          cases cs with
          | nil => exact absurd rfl removed
          | cons c cs => exact ih

/-! ### Running one task -/

/-- A canceled task was posted with a delay, so it is not an immediate one. -/
theorem delayed_of_canceled {start : Ticks} {rs : List Request} {now : Ticks}
    (hk : ((new settings start).run rs).2.scheduler = some k)
    (canceled : ((new settings start).run rs).2.isCanceled t = true) (ripe : k.Ripe now t) :
    ∃ q tq, k.queues.get? q = some tq ∧ tq.enabled = true ∧
      ((∃ u ∈ tq.delayed, u.ticket = t) ∨
        ∃ w ∈ tq.waiting, w.isDue now = true ∧ w.ticket = t) := by
  obtain ⟨q, tq, hq, enabled, ripe⟩ := ripe
  refine ⟨q, tq, hq, enabled, ripe.imp_left ?_⟩
  rintro ⟨h, u, hu, rfl⟩
  cases h with
  | immediate =>
      rw [not_isCanceled_of_mem_immediate hk hq hu] at canceled
      cases canceled
  | delayed => exact ⟨u, hu, rfl⟩

/-- When its task comes to its end, a call that was to run one task says that it has. -/
theorem step_finish_of_running {calls : List Call} (top : s.calls = .running t .once :: calls) :
    s.step .finish = (.answered (.ran true), { s with calls := calls }) := by
  show s.finish = _
  unfold Session.finish
  rw [top]

/-- When a session is asked to run a task, and the canceled tasks that it destroys on the way do
nothing, the call comes to an end.  If an enabled queue holds a task that is not canceled and is
ready, or waits and is due, the call starts exactly one task, of that kind, and answers that it has
run one as soon as the code of this task has come to its end, whatever the code has asked for.
Otherwise it answers that it has run none, and no enabled queue has a ready task or one that is due
any more.  All other tasks that are gone are destroyed, and they were canceled ones that were among
the delayed tasks of an enabled queue or waited in one and were due. -/
theorem runNext_finds (settings : Settings) (start : Ticks) (rs : List Request) {k : Scheduler} :
    let s := ((new settings start).run rs).2
    s.scheduler = some k → ∃ (ts : List Ticket) (found : Option Ticket) (k' : Scheduler),
      let s' : Session := { s with
        scheduler := some k', calls := (found.map (Call.running · .once)).toList ++ s.calls }
      s.run (.runNext :: List.replicate ts.length .finish) =
          (ts.map Signal.discarding ++ [found.elim (.answered (.ran false)) .started], s') ∧
        (found.isSome = true ↔ k.Runnable s.now s.isCanceled) ∧
        (∀ t ∈ found, k.Ripe s.now t ∧ s.isCanceled t = false ∧ ∀ code,
          let out := (s'.run code).2
          out.calls = s'.calls →
            out.step .finish = (.answered (.ran true), { out with calls := s.calls })) ∧
        (found = none → k'.Resting ∧ ∀ q, ¬ k'.Due s.now q) ∧
        (∀ t ∈ ts, s.isCanceled t = true ∧ ∃ q tq, k.queues.get? q = some tq ∧
          tq.enabled = true ∧ ((∃ u ∈ tq.delayed, u.ticket = t) ∨
            ∃ w ∈ tq.waiting, w.isDue s.now = true ∧ w.ticket = t)) ∧
        (ts ++ found.toList ++ k'.tickets).Perm k.tickets ∧
        ∀ q, k'.ticketsIn q ⊆ k.ticketsIn q := by
  intro s hk
  have r : Scheduler.Reachable settings k := reachable_run settings start rs hk
  obtain ⟨ts, found, k', search⟩ := r.exists_searches s.now s.isCanceled
  have removes := search.removes r
  have subsides := subsides_round search .once
  rw [← hk] at subsides
  refine ⟨ts, found, k', subsides.run (r := .runNext), search.isSome_iff r,
    fun t ht => ?_, ?_, fun t ht => ?_, removes.perm, removes.stay⟩
  · obtain rfl : found = some t := ht
    exact ⟨removes.ripe t (List.mem_append_right _ List.mem_cons_self), search.live rfl,
      fun code ended => step_finish_of_running ended⟩
  · rintro rfl
    exact (search.rests r).2
  · have canceled := search.isCanceled_of_mem ht
    exact ⟨canceled, delayed_of_canceled hk canceled (removes.ripe t (List.mem_append_left _ ht))⟩

/-- One canceled task of the first queue had become ready and one of the second queue is due.  Both
are destroyed before an immediate task is started. -/
theorem runNext_finds_canceled :
    let s := ((new {} .zero).run [.create "first" true, .create "second" true,
      .postDelayed ⟨1, 1⟩ (.ofMillis 10) .zero .noSooner,
      .postDelayed ⟨1, 1⟩ (.ofMillis 10) .zero .noSooner,
      .postDelayed ⟨2, 1⟩ (.ofMillis 20) .zero .noSooner, .advance (.ofMillis 10), .runNext,
      .finish, .cancel ⟨1⟩, .cancel ⟨2⟩, .advance (.ofMillis 10), .post ⟨1, 1⟩]).2
    (s.run [.runNext, .finish, .finish, .finish]).1 =
        [.discarding ⟨2⟩, .discarding ⟨1⟩, .started ⟨3⟩, .answered (.ran true)] ∧
      ∃ (k k' : Scheduler) (ts : List Ticket) (found : Option Ticket), s.scheduler = some k ∧
        (s.run (.runNext :: List.replicate ts.length .finish)).1 =
          ts.map Signal.discarding ++ [found.elim (.answered (.ran false)) .started] ∧
        (found.isSome = true ↔ k.Runnable s.now s.isCanceled) ∧
        (∀ t ∈ ts, s.isCanceled t = true) ∧
        (ts ++ found.toList ++ k'.tickets).Perm [⟨3⟩, ⟨1⟩, ⟨2⟩] := by
  intro s
  have signals : (s.run [.runNext, .finish, .finish, .finish]).1 =
      [.discarding ⟨2⟩, .discarding ⟨1⟩, .started ⟨3⟩, .answered (.ran true)] := by
    decide +kernel
  have state : s.scheduler.any fun k => k.tickets = [⟨3⟩, ⟨1⟩, ⟨2⟩] := by decide +kernel
  obtain ⟨k, hk, tickets⟩ := (Option.any_eq_true _ _).1 state
  obtain ⟨ts, found, k', run, finds, -, -, culled, perm, -⟩ := runNext_finds {} .zero _ hk
  rw [of_decide_eq_true tickets] at perm
  exact ⟨signals, k, k', ts, found, hk, congrArg Prod.fst run, finds,
    fun t ht => (culled t ht).1, perm⟩

end Dispatch.Session
