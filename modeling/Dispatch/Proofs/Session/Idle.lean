import Dispatch.Proofs.Session.Search

/-!
# Whether a session is idle

When a session looks for a task to run and every canceled task that comes up does nothing when it is
destroyed, the session finds one exactly if there is one to run (`endsIn_round`).  An idle session
finds none.  The converse holds unless a canceled task is ready, because only those that wait are
looked at one by one (`idle_iff_nothing_found`, `not_isIdle_of_canceled`).
-/

namespace Dispatch.Session

variable {settings : Settings} {s : Session} {k : Scheduler}

/-! ### Looking for a task -/

/-- Tasks of a certain kind are destroyed, and then comes something of a certain kind, if every task
that is destroyed does nothing. -/
def EndsIn (kind : Ticket → Bool) (P : Signal × Session → Prop) (first : Signal × Session) : Prop :=
  ∃ ts last, Subsides first ts last ∧ (∀ t ∈ ts, kind t = true) ∧ P last

/-- A call says that it has found no task if there is none to run, and starts one otherwise. -/
def Finds (mode : Mode) (task : Prop) (last : Signal × Session) : Prop :=
  last.1 = .answered (idleReply mode) ∧ ¬ task ∨ (∃ t, last.1 = .started t) ∧ task

/-- A session that looks for a task destroys canceled ones until it starts one that is not canceled,
if there is one to run, or says that there is none. -/
theorem endsIn_round (hk : s.scheduler = some k) (w : Scheduler.Reachable settings k)
    (mode : Mode) :
    EndsIn s.isCanceled (Finds mode (k.Runnable s.now s.isCanceled)) (s.round mode) := by
  obtain ⟨ts, found, k', search⟩ := w.exists_searches s.now s.isCanceled
  have subsides := subsides_round search mode
  rw [← hk] at subsides
  refine ⟨ts, _, subsides, fun t => search.isCanceled_of_mem, ?_⟩
  cases found with
  | none => exact Or.inl ⟨rfl, (search.rests w).1⟩
  | some t => exact Or.inr ⟨⟨t, rfl⟩, (search.isSome_iff w).1 rfl⟩

/-! ### Idle sessions -/

theorem isIdle_of_scheduler (hk : s.scheduler = some k) :
    s.isIdle = k.isIdle s.now s.isCanceled := by
  unfold isIdle
  rw [hk]
  rfl

/-- When a session is asked to run a task, and the canceled tasks that it destroys on the way do
nothing, it either answers that there was none to run, or starts one.  It is idle beforehand exactly
if it will answer that there was none and, moreover, no canceled task is ready in an enabled
queue. -/
theorem idle_iff_nothing_found (settings : Settings) (start : Ticks) (rs : List Request)
    {k : Scheduler} :
    let s := ((new settings start).run rs).2
    s.scheduler = some k → ∃ (ts : List Ticket) (x : Signal),
      (s.run (.runNext :: List.replicate ts.length .finish)).1 = ts.map Signal.discarding ++ [x] ∧
        (∀ t ∈ ts, s.isCanceled t = true) ∧
        (x = .answered (.ran false) ∧ ¬ k.Runnable s.now s.isCanceled ∨
          (∃ t, x = .started t) ∧ k.Runnable s.now s.isCanceled) ∧
        (s.isIdle = true ↔ x = .answered (.ran false) ∧
          ∀ q tq h, k.queues.get? q = some tq → tq.enabled = true →
            ∀ u ∈ tq.ready h, s.isCanceled u.ticket = false) := by
  intro s hk
  have w : Scheduler.Reachable settings k := reachable_run settings start rs hk
  obtain ⟨ts, ⟨x, s'⟩, subsides, canceled, found⟩ := endsIn_round hk w .once
  have signals : s.run (.runNext :: List.replicate ts.length .finish) =
      (ts.map Signal.discarding ++ [x], s') := Subsides.run (r := .runNext) subsides
  have answers_iff : x = .answered (.ran false) ↔ ¬ k.Runnable s.now s.isCanceled := by
    rcases found with ⟨e, nothing⟩ | ⟨⟨t, e⟩, task⟩
    · exact iff_of_true e nothing
    · refine iff_of_false (fun e' => ?_) (not_not.2 task)
      rw [show x = .started t from e] at e'
      cases e'
  refine ⟨ts, x, congrArg Prod.fst signals, canceled, found, ?_⟩
  rw [isIdle_of_scheduler hk, w.mirrored.isIdle_iff, answers_iff]

/-- A canceled task that is due is destroyed, and then another one is started. -/
theorem idle_iff_nothing_found_running :
    let s := ((new {} .zero).run [.create "main" true,
      .postDelayed ⟨1, 1⟩ (.ofMillis 10) .zero .noSooner,
      .postDelayed ⟨1, 1⟩ (.ofMillis 10) .zero .noSooner, .cancel ⟨0⟩,
      .advance (.ofMillis 10)]).2
    s.scheduler.isSome = true ∧ s.isIdle = false ∧ ∃ (ts : List Ticket) (x : Signal),
      (s.run (.runNext :: List.replicate ts.length .finish)).1 = ts.map Signal.discarding ++ [x] ∧
        (∀ t ∈ ts, s.isCanceled t = true) ∧
        (x = .answered (.ran false) ∨ ∃ t, x = .started t) := by
  intro s
  have held : s.scheduler.isSome = true := by decide +kernel
  have busy : s.isIdle = false := by decide +kernel
  obtain ⟨k, hk⟩ := Option.isSome_iff_exists.1 held
  obtain ⟨ts, x, signals, canceled, found, -⟩ := idle_iff_nothing_found {} .zero _ hk
  exact ⟨held, busy, ts, x, signals, canceled, found.imp And.left And.left⟩

/-- Two delayed tasks are promoted together and the first of them is run.  When the second one is
canceled, there is nothing to run any more, but the session is not idle. -/
theorem not_isIdle_of_canceled :
    let s := ((new {} .zero).run [.create "main" true,
      .postDelayed ⟨1, 1⟩ (.ofMillis 10) .zero .noSooner,
      .postDelayed ⟨1, 1⟩ (.ofMillis 10) .zero .noSooner, .advance (.ofMillis 10), .runNext,
      .finish, .cancel ⟨1⟩]).2
    s.calls = [] ∧ s.isIdle = false ∧
      (s.run [.runNext, .finish]).1 = [.discarding ⟨1⟩, .answered (.ran false)] := by
  decide +kernel

end Dispatch.Session
