import Dispatch.Proofs.Session.Deadlines

/-!
# How many tasks have been run

A task is counted when it is taken, unless it has been canceled by then.  Whether it is started is
decided later, after canceled tasks have been destroyed, and a request that comes in between can
recall it (`recalled`).  So the count is that of the tasks whose code was started and of those that
were recalled (`tasksRun_balance`), and it can be larger than the number of tasks that were run
(`tasksRun_ne_started`).
-/

namespace Dispatch

/-- The code of a task starts. -/
def Signal.starts : Signal → Bool
  | .started _ => true
  | _ => false

namespace Scheduler

variable {k : Scheduler}

/-- Only a task that is taken is counted. -/
theorem tasksRun_perform (k : Scheduler) (op : Operation)
    (other : ∀ isCanceled, op ≠ .take isCanceled) : (k.perform op).tasksRun = k.tasksRun := by
  have o := k.outcome op other
  generalize k.perform op = k' at o ⊢
  cases o with
  | remove => exact withAgenda_frame (f := Scheduler.tasksRun) (fun _ _ _ _ => rfl) _ _ _ _
  | enable | disable | postDelayed =>
      exact withQueue_frame (f := Scheduler.tasksRun) (fun _ _ _ _ _ => rfl) _ _ _ _
  | promote | sweep =>
      exact afterPasses_frame (f := Scheduler.tasksRun) (fun _ _ _ _ _ _ => rfl) _ _ _
  | take isCanceled => exact absurd rfl (other isCanceled)
  | _ => rfl

/-- A task that is taken is counted unless it has been canceled. -/
theorem Mirrored.tasksRun_take (m : Mirrored k) (isCanceled : Ticket → Bool) :
    (k.take isCanceled).2.tasksRun =
      k.tasksRun + (k.take isCanceled).1.toList.countP (!isCanceled ·) := by
  rcases m.take_cases isCanceled with ⟨-, e⟩ | ⟨pick, selector, tq, t, rest, -, -, -, e⟩
  · rw [e]
    rfl
  · rw [e]
    cases h : isCanceled t.ticket <;> simp [h]

end Scheduler

namespace Session

variable {settings : Settings} {start : Ticks} {s s' : Session} {r : Request} {ts : List Ticket}
  {after : After} {x : Signal} {t : Ticket} {rs : List Request} {k k' : Scheduler}

/-- The tasks that a request cancels after they were taken and before they are launched. -/
def recalled (s : Session) (r : Request) : List Ticket :=
  s.launching.filter fun t => !s.isCanceled t && (s.step r).2.isCanceled t

/-- The tasks that are recalled in a run. -/
def recalls (s : Session) : List Request → List Ticket
  | [] => []
  | r :: rs => s.recalled r ++ (s.step r).2.recalls rs

/-- How many of the tasks that wait to be launched have not been canceled. -/
def awaited (s : Session) : Nat := s.launching.countP (!s.isCanceled ·)

theorem mem_recalled : t ∈ s.recalled r ↔
    t ∈ s.launching ∧ s.isCanceled t = false ∧ (s.step r).2.isCanceled t = true := by
  unfold recalled
  simp [List.mem_filter]

/-! ### One step -/

/-- Mostly no task is taken, and the same tasks are to be launched. -/
theorem Begins.kept_or_round (b : s.Begins r s' ts after) (hk : s.scheduler = some k)
    (hk' : s'.scheduler = some k') :
    (k'.tasksRun = k.tasksRun ∧ after.owes ++ s'.launching = s.launching) ∨
      ∃ mode calls, s.Seeks r mode calls ∧
        s' = { s with
          scheduler := some ((k.promote s.now s.isCanceled).2.take s.isCanceled).2
          calls := calls } ∧
        after.owes = ((k.promote s.now s.isCanceled).2.take s.isCanceled).1.toList := by
  have performed {k₁ : Scheduler} (op : Scheduler.Operation) (scheduler : s.scheduler = some k₁)
      (other : ∀ isCanceled, op ≠ .take isCanceled) (done : k₁.perform op = k') :
      k'.tasksRun = k.tasksRun := by
    obtain rfl := Option.some.inj (hk.symm.trans scheduler)
    exact done ▸ k.tasksRun_perform op other
  have same (e : s'.scheduler = s.scheduler) : k'.tasksRun = k.tasksRun := by
    rw [hk, hk'] at e
    rw [Option.some.inj e]
  cases b with
  | nothing | moveClock | refuse => exact Or.inl ⟨same rfl, rfl⟩
  | cancel u =>
      refine Or.inl ⟨same (scheduler_cancel s u), ?_⟩
      unfold launching
      rw [calls_cancel]
      rfl
  | perform scheduler asks =>
      cases hk'
      exact Or.inl ⟨performed _ scheduler (fun _ e => by subst e; cases asks) rfl, rfl⟩
  | @post q _ _ scheduler accepted =>
      cases hk'
      exact Or.inl ⟨performed (.post q _) scheduler nofun
        (congrArg (Scheduler.orUnchanged _) accepted), rfl⟩
  | @postDelayed q delay leeway policy _ _ scheduler accepted =>
      cases hk'
      exact Or.inl ⟨performed (.postDelayed q delay leeway policy _ _) scheduler nofun
        (congrArg (Scheduler.orUnchanged _) accepted), rfl⟩
  | remove scheduler removed =>
      cases hk'
      exact Or.inl ⟨performed (.remove _ _) scheduler nofun
        (Scheduler.perform_remove_of_ok removed), rfl⟩
  | sweep scheduler =>
      cases hk'
      exact Or.inl ⟨performed (.sweep s.now s.isCanceled) scheduler nofun rfl, rfl⟩
  | close => cases hk'
  | ran top | resume top => exact Or.inl ⟨same rfl, (launching_of_calls top).symm⟩
  | round scheduler seeks =>
      rw [hk] at scheduler
      cases scheduler
      exact Or.inr ⟨_, _, seeks, rfl, owes_afterRound _ _ _⟩
  | gone scheduler =>
      rw [hk] at scheduler
      cases scheduler

/-- A task that is taken is counted if it is not canceled, and is then to be launched. -/
theorem Begins.tasksRun_eq (w : s.Sane settings) (b : s.Begins r s' ts after)
    (hk : s.scheduler = some k) (hk' : s'.scheduler = some k') :
    k'.tasksRun + s.launching.countP (!s'.isCanceled ·) =
      k.tasksRun + (after.owes ++ s'.launching).countP (!s'.isCanceled ·) := by
  rcases b.kept_or_round hk hk' with ⟨count, same⟩ | ⟨mode, calls, seeks, rfl, owes⟩
  · rw [count, same]
  · cases hk'
    have taken := ((w k hk).promote s.now s.isCanceled).mirrored.tasksRun_take s.isCanceled
    have promoted : (k.promote s.now s.isCanceled).2.tasksRun = k.tasksRun :=
      k.tasksRun_perform (.promote s.now s.isCanceled) nofun
    rw [owes, taken, promoted, seeks.launching_eq, List.countP_append, Nat.add_assoc]
    rfl

/-- A task that is to be launched is started, unless it has been canceled, or waits on. -/
theorem Proceeds.awaited_eq (p : s.Proceeds ts after x s') :
    s'.awaited + [x].countP Signal.starts =
      (after.owes ++ s.launching).countP (!s'.isCanceled ·) := by
  cases p with
  | answer => rfl
  | start live =>
      show s.launching.countP (!s.isCanceled ·) + 1 = _
      exact (List.countP_cons_of_pos (p := fun t => !s.isCanceled t) (by rw [live]; rfl)).symm
  | skip canceled =>
      show s.launching.countP (!s.isCanceled ·) + 0 = _
      refine (List.countP_cons_of_neg (p := fun t => !s.isCanceled t) ?_).symm
      rw [canceled]
      exact Bool.false_ne_true
  | discard => rfl

/-- A task that is to be launched stays uncanceled, or is recalled. -/
theorem awaited_eq (s : Session) (r : Request) : s.awaited =
    s.launching.countP (!(s.step r).2.isCanceled ·) + (s.recalled r).length := by
  unfold awaited recalled
  rw [← List.countP_eq_length_filter]
  have stays : ∀ t, s.isCanceled t = true → (s.step r).2.isCanceled t = true :=
    fun t h => isCanceled_step h r
  induction s.launching with
  | nil => rfl
  | cons t ts ih =>
      have stays := stays t
      rw [List.countP_cons, List.countP_cons, List.countP_cons, ih]
      cases before : s.isCanceled t with
      | true =>
          rw [stays before]
          rfl
      | false =>
          cases (s.step r).2.isCanceled t
          all_goals
            simp only [Bool.not_false, Bool.not_true, Bool.and_self, Bool.and_false,
              Bool.false_eq_true, if_true, if_false]
            omega

/-- A task that is counted in a step is started in it, or waits to be launched. -/
theorem tasksRun_step (w : s.Sane settings) (hk : s.scheduler = some k)
    (hk' : (s.step r).2.scheduler = some k') :
    k'.tasksRun + s.awaited = k.tasksRun + (s.recalled r).length +
      [(s.step r).1].countP Signal.starts + (s.step r).2.awaited := by
  obtain ⟨s₁, ts, after, b, p⟩ := s.step_cases r
  have begins := b.tasksRun_eq w hk (p.scheduler_eq ▸ hk')
  have proceeds := p.awaited_eq
  have waits := s.awaited_eq r
  simp only [p.isCanceled_eq] at proceeds waits
  omega

/-! ### A run -/

theorem tasksRun_run (w : s.Sane settings) (hk : s.scheduler = some k)
    (hk' : (s.run rs).2.scheduler = some k') :
    k'.tasksRun + s.awaited = k.tasksRun + (s.recalls rs).length +
      (s.run rs).1.countP Signal.starts + (s.run rs).2.awaited := by
  induction rs generalizing s k with
  | nil =>
      rw [show (s.run []).2 = s from rfl, hk] at hk'
      cases hk'
      rfl
  | cons r rs ih =>
      rw [run_cons] at hk' ⊢
      rcases Option.eq_none_or_eq_some (s.step r).2.scheduler with gone | ⟨k₁, hk₁⟩
      · rw [scheduler_run_eq_none gone rs] at hk'
        cases hk'
      · have now := tasksRun_step w hk hk₁
        have later := ih (w.step r) hk₁ hk'
        rw [List.countP_singleton] at now
        unfold recalls
        rw [List.length_append, List.countP_cons]
        dsimp only
        omega

/-! ### The tasks that are recalled -/

theorem recalls_append (s : Session) (rs rs' : List Request) :
    s.recalls (rs ++ rs') = s.recalls rs ++ (s.run rs).2.recalls rs' := by
  induction rs generalizing s with
  | nil => rfl
  | cons r rs ih =>
      show s.recalled r ++ (s.step r).2.recalls (rs ++ rs') = _
      rw [ih, ← List.append_assoc]
      rfl

theorem recalls_concat (s : Session) (rs : List Request) (r : Request) :
    s.recalls (rs ++ [r]) = s.recalls rs ++ (s.run rs).2.recalled r := by
  rw [recalls_append]
  exact congrArg _ (List.append_nil _)

/-- A task is recalled by a request that cancels it after it was taken and before it is launched. -/
theorem exists_cancel_of_mem_recalls (h : t ∈ s.recalls rs) :
    ∃ before rest, rs = before ++ .cancel t :: rest ∧ t ∈ (s.run before).2.launching ∧
      (s.run before).2.isCanceled t = false ∧
      ((s.run before).2.step (.cancel t)).2.isCanceled t = true := by
  induction rs using List.reverseRecOn with
  | nil => cases h
  | append_singleton rs r ih =>
      rw [recalls_concat] at h
      rcases List.mem_append.1 h with h | h
      · obtain ⟨before, rest, rfl, taken⟩ := ih h
        exact ⟨before, rest ++ [r], by simp, taken⟩
      · obtain ⟨taken, live, canceled⟩ := mem_recalled.1 h
        obtain rfl := (isCanceled_of_step canceled).resolve_left (by simp [live])
        exact ⟨rs, [], rfl, taken, live, canceled⟩

theorem isCanceled_of_mem_recalls (h : t ∈ s.recalls rs) : (s.run rs).2.isCanceled t = true := by
  obtain ⟨before, rest, rfl, -, -, canceled⟩ := exists_cancel_of_mem_recalls h
  rw [run_append]
  exact isCanceled_run canceled rest

theorem nodup_launching (settings : Settings) (start : Ticks) (rs : List Request) :
    ((new settings start).run rs).2.launching.Nodup := by
  refine (launching_sublist _).nodup (List.nodup_iff_count_le_one.2 fun t => ?_)
  by_cases mem : t ∈ ((new settings start).run rs).2.taken
  · have once := count_held_run settings start rs (lt_issued_of_held (Or.inr mem))
    dsimp only at once
    omega
  · rw [List.count_eq_zero_of_not_mem mem]
    exact Nat.zero_le 1

/-- A task is recalled once, because it is canceled from then on. -/
theorem nodup_recalls (settings : Settings) (start : Ticks) (rs : List Request) :
    ((new settings start).recalls rs).Nodup := by
  induction rs using List.reverseRecOn with
  | nil => exact List.nodup_nil
  | append_singleton rs r ih =>
      rw [recalls_concat]
      refine List.nodup_append'.2 ⟨ih, (nodup_launching settings start rs).filter _, ?_⟩
      intro t before now
      have live := (mem_recalled.1 now).2.1
      rw [isCanceled_of_mem_recalls before] at live
      cases live

/-- The code of a task that is recalled has not started by then, and does not start any more. -/
theorem started_not_mem_of_mem_recalls (h : t ∈ (new settings start).recalls rs) :
    .started t ∉ ((new settings start).run rs).1 := by
  obtain ⟨before, rest, rfl, launched, -, canceled⟩ := exists_cancel_of_mem_recalls h
  have mem := (launching_sublist _).subset launched
  have once := count_held_run settings start before (lt_issued_of_held (Or.inr mem))
  have held := List.count_pos_iff.2 mem
  have not_before : ((new settings start).run before).1.count (.started t) = 0 := by
    dsimp only at once
    omega
  rw [run_append, run_cons, List.mem_append, List.mem_cons]
  rintro (started | started | started)
  · exact List.count_eq_zero.1 not_before started
  · cases started
  · exact started_not_mem_run canceled rest started

/-- When no call is in progress, the count of a scheduler is the number of tasks whose code was
started, and of those that were recalled, each once: these were canceled after they had been taken,
while the canceled tasks that came up before them were destroyed, and their code never starts.  No
other canceled task is counted. -/
theorem tasksRun_balance (settings : Settings) (start : Ticks) (rs : List Request) {k : Scheduler} :
    let s := new settings start
    (s.run rs).2.scheduler = some k → (s.run rs).2.calls = [] →
      k.tasksRun = (s.run rs).1.countP Signal.starts + (s.recalls rs).length ∧
        (s.recalls rs).Nodup ∧
        ∀ t ∈ s.recalls rs, .started t ∉ (s.run rs).1 ∧
          ∃ before rest, rs = before ++ .cancel t :: rest ∧ t ∈ (s.run before).2.launching ∧
            (s.run before).2.isCanceled t = false := by
  intro s hk idle
  have count : k.tasksRun + 0 = 0 + (s.recalls rs).length +
      (s.run rs).1.countP Signal.starts + (s.run rs).2.awaited :=
    tasksRun_run (sane_new settings start) rfl hk
  have none_waits : (s.run rs).2.awaited = 0 := by
    unfold awaited launching
    rw [idle]
    rfl
  refine ⟨by omega, nodup_recalls settings start rs, fun t recalled => ?_⟩
  obtain ⟨before, rest, e, launched, live, -⟩ := exists_cancel_of_mem_recalls recalled
  exact ⟨started_not_mem_of_mem_recalls recalled, before, rest, e, launched, live⟩

/-- One of two tasks is canceled, and both come due.  The other one is taken, and the canceled one
cancels it when it is destroyed. -/
theorem tasksRun_balance_recalled :
    let rs : List Request := [.create "main" true,
      .postDelayed ⟨1, 1⟩ (.ofMillis 10) .zero .noSooner,
      .postDelayed ⟨1, 1⟩ (.ofMillis 10) .zero .noSooner, .cancel ⟨0⟩, .advance (.ofMillis 10),
      .runNext, .cancel ⟨1⟩, .finish, .finish]
    let out := (new {} .zero).run rs
    out.2.calls = [] ∧ (new {} .zero).recalls rs = [⟨1⟩] ∧ ∃ k, out.2.scheduler = some k ∧
      k.tasksRun = out.1.countP Signal.starts + ((new {} .zero).recalls rs).length := by
  intro rs out
  have idle : out.2.calls = [] := by decide +kernel
  have recalled : (new {} .zero).recalls rs = [⟨1⟩] := by decide +kernel
  have held : out.2.scheduler.isSome := by decide +kernel
  obtain ⟨k, hk⟩ := Option.isSome_iff_exists.1 held
  obtain ⟨count, -⟩ := tasksRun_balance {} .zero rs hk idle
  exact ⟨idle, recalled, k, hk, count⟩

/-- A task can be counted although no code of any task was started. -/
theorem tasksRun_ne_started :
    let out := (new {} .zero).run [.create "main" true,
      .postDelayed ⟨1, 1⟩ (.ofMillis 10) .zero .noSooner,
      .postDelayed ⟨1, 1⟩ (.ofMillis 10) .zero .noSooner, .cancel ⟨0⟩, .advance (.ofMillis 10),
      .runNext, .cancel ⟨1⟩, .finish, .finish]
    out.2.calls = [] ∧ out.2.scheduler.map (·.tasksRun) = some 1 ∧
      out.1.countP Signal.starts = 0 ∧ .discarding ⟨1⟩ ∈ out.1 := by
  decide +kernel

end Session

end Dispatch
