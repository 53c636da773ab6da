import Dispatch.Proofs.Scheduler.Resting
import Dispatch.Proofs.Session.History

/-!
# No work goes unnoticed

When a call has answered that there was nothing to run, the scheduler rests
(`resting_of_ran_false`).  As long as nobody asks to run tasks, it stops resting only in a step that
requests work (`Raises`), and the request stays until it is taken (`resting_or_raised`).  For tasks
that wait there is the timer.  So whoever waits for one of the two misses no task
(`no_lost_wakeUp`).
-/

namespace Dispatch

/-- The answer that is given when the call goes on, if nothing else is left to do. -/
def Call.reply? : Call → Option Reply
  | .discarding _ _ (.answer reply) => some reply
  | _ => none

namespace Session

variable {settings : Settings} {start : Ticks} {s s' : Session} {r : Request} {ts : List Ticket}
  {after : After} {x : Signal} {rs : List Request} {k k' : Scheduler}

/-! ### The answer that there is nothing to run -/

/-- No call that waits for the destruction of tasks has found out yet whether a task was run. -/
def Undecided (s : Session) : Prop := ∀ call ∈ s.calls, ∀ any, call.reply? ≠ some (.ran any)

theorem Proceeds.mem_calls (p : s.Proceeds ts after x s') {call : Call} (h : call ∈ s'.calls) :
    call ∈ s.calls ∨ (call.reply? = none ∧ ∀ reply, after ≠ .answer reply) ∨
      ∃ reply, after = .answer reply ∧ ts ≠ [] ∧ call.reply? = some reply := by
  cases p with
  | answer => exact Or.inl h
  | start | skip =>
      rcases List.mem_cons.1 h with rfl | h
      · exact Or.inr (Or.inl ⟨rfl, nofun⟩)
      · exact Or.inl h
  | discard t ts after =>
      rcases List.mem_cons.1 h with rfl | h
      · cases after with
        | answer reply => exact Or.inr (Or.inr ⟨reply, rfl, List.cons_ne_nil t ts, rfl⟩)
        | launch | again => exact Or.inr (Or.inl ⟨rfl, nofun⟩)
      · exact Or.inl h

/-- A call that has tasks to destroy has not found out whether a task was run. -/
theorem Begins.ne_ran (b : s.Begins r s' ts after) (u : s.Undecided) (h : ts ≠ []) (any : Bool) :
    after ≠ .answer (.ran any) := by
  cases b with
  | nothing | perform | cancel | moveClock | post | postDelayed | ran | gone => exact absurd rfl h
  | refuse | remove | sweep | close => nofun
  | resume top =>
      rintro rfl
      exact u _ (top ▸ List.mem_cons_self) any rfl
  | @round _ mode _ k _ _ =>
      cases ((k.promote s.now s.isCanceled).2.take s.isCanceled).1 with
      | some t => nofun
      | none =>
          unfold afterRound
          dsimp only
          rw [if_neg (by rwa [List.isEmpty_iff])]
          nofun

theorem Undecided.step (u : s.Undecided) (r : Request) : (s.step r).2.Undecided := by
  obtain ⟨s₁, ts, after, b, p⟩ := s.step_cases r
  intro call mem any
  rcases p.mem_calls mem with before | ⟨undecided, -⟩ | ⟨reply, rfl, ne, given⟩
  · exact u call (b.calls_sublist.subset before) any
  · rw [undecided]
    nofun
  · rw [given]
    rintro ⟨rfl⟩
    exact b.ne_ran u ne any rfl

theorem Undecided.run (u : s.Undecided) (rs : List Request) : (s.run rs).2.Undecided :=
  run_induct (fun _ r u => u.step r) u rs

/-- No enabled queue has a ready task, unless the scheduler was given up. -/
def Resting (s : Session) : Prop := ∀ k, s.scheduler = some k → k.Resting

theorem Proceeds.answered {reply : Reply} (p : s.Proceeds ts after (.answered reply) s') :
    after = .answer reply ∧ s' = s := by
  cases p
  exact ⟨rfl, rfl⟩

/-- When a call answers that there was nothing to run, the scheduler rests. -/
theorem resting_of_ran_false (w : s.Sane settings) (u : s.Undecided)
    (h : (s.step r).1 = .answered (.ran false)) : (s.step r).2.Resting := by
  obtain ⟨s₁, ts, after, b, p⟩ := s.step_cases r
  rw [h] at p
  obtain ⟨found, e⟩ := p.answered
  rw [e]
  cases b with
  | nothing _ plain | perform _ _ plain => exact absurd found (by simpa using plain false)
  | cancel | moveClock | post | postDelayed | refuse | remove | sweep | close | ran | gone =>
      cases found
  | resume top =>
      subst found
      exact absurd rfl (u _ (top ▸ List.mem_cons_self) false)
  | @round _ mode _ k scheduler _ =>
      rintro _ ⟨rfl⟩
      refine ((w k scheduler).promote s.now s.isCanceled).mirrored.resting_take ?_
      cases taken : ((k.promote s.now s.isCanceled).2.take s.isCanceled).1 with
      | none => rfl
      | some t =>
          rw [taken] at found
          cases found

/-! ### Steps that request work -/

/-- The session in which the request for work has just been taken. -/
def unrequested (s : Session) : Session :=
  { s with scheduler := s.scheduler.map fun k => k.takeWorkRequest.2 }

/-- The step requests work, whether or not it had been requested before. -/
def Raises (s : Session) (r : Request) : Prop :=
  (s.unrequested.step r).2.scheduler.any (·.workRequested) = true

theorem step_post_of_ok {q : QueueId} (hk : s.scheduler = some k)
    (ok : k.post q ⟨s.issued⟩ = .ok k') : (s.step (.post q)).2.scheduler = some k' := by
  show (s.post q).2.scheduler = some k'
  unfold Session.post Session.accept
  dsimp only
  rw [hk]
  dsimp only
  rw [ok]

theorem step_setEnabled_of_ok {q : QueueId} {on : Bool} (hk : s.scheduler = some k)
    (ok : k.setEnabled q on s.now = .ok k') :
    (s.step (.setEnabled q on)).2.scheduler = some k' := by
  show (s.update fun k => (k.setEnabled q on s.now).map fun k => (Reply.done, k)).2.scheduler = _
  unfold Session.update
  rw [hk]
  dsimp only
  rw [ok]
  rfl

theorem raises_of_issues {op : Scheduler.Operation} (w : s.Sane settings)
    (hk : s.scheduler = some k) (i : s.Issues r op) (h : k.Raises op) : s.Raises r := by
  have hk₀ : s.unrequested.scheduler = some k.takeWorkRequest.2 := by
    unfold unrequested
    rw [hk]
    rfl
  have raises : ∀ {k'}, (s.unrequested.step r).2.scheduler = some k' →
      k'.workRequested = true → s.Raises r := by
    intro k' hk' requested
    unfold Raises
    rw [hk']
    exact requested
  cases h with
  | @post q tq t hq enabled =>
      cases i with
      | asks a => cases a
      | post =>
          obtain ⟨k', ok, requested⟩ :=
            Scheduler.exists_post (k := k.takeWorkRequest.2) hq enabled ⟨s.issued⟩
          exact raises (step_post_of_ok hk₀ ok) requested
  | @enable q tq now hq disabled =>
      cases i with
      | asks a =>
          cases a
          obtain ⟨k', ok, requested⟩ :=
            (w k hk).takeWorkRequest.mirrored.exists_enable hq disabled s.now
          exact raises (step_setEnabled_of_ok hk₀ ok) requested

/-! ### While nobody asks to run tasks -/

/-- No call that is in progress runs tasks. -/
def Plain (s : Session) : Prop := ∀ call ∈ s.calls, call.reply? ≠ none

theorem Plain.not_seeks (plain : s.Plain) (ne : r ≠ .runNext ∧ r ≠ .runUntilIdle) (mode : Mode)
    (calls : List Call) : ¬ s.Seeks r mode calls := by
  intro a
  cases a with
  | runNext => exact ne.1 rfl
  | runUntilIdle => exact ne.2 rfl
  | more top | again top => exact plain _ (top ▸ List.mem_cons_self) rfl

theorem Begins.exists_answer (b : s.Begins r s' ts after) (plain : s.Plain)
    (ne : r ≠ .runNext ∧ r ≠ .runUntilIdle) : ∃ reply, after = .answer reply := by
  cases b with
  | nothing | perform | cancel | moveClock | post | postDelayed | refuse | remove | sweep | close
  | ran => exact ⟨_, rfl⟩
  | @resume _ _ after _ top =>
      have answers := plain _ (top ▸ List.mem_cons_self)
      cases after with
      | answer reply => exact ⟨reply, rfl⟩
      | launch | again => exact absurd rfl answers
  | round _ seeks | gone _ seeks => exact absurd seeks (plain.not_seeks ne _ _)

theorem Plain.step (plain : s.Plain) (ne : r ≠ .runNext ∧ r ≠ .runUntilIdle) :
    (s.step r).2.Plain := by
  obtain ⟨s₁, ts, after, b, p⟩ := s.step_cases r
  obtain ⟨reply, rfl⟩ := b.exists_answer plain ne
  intro call mem
  rcases p.mem_calls mem with before | ⟨-, other⟩ | ⟨reply, -, -, given⟩
  · exact plain call (b.calls_sublist.subset before)
  · exact absurd rfl (other reply)
  · rw [given]
    nofun

/-- A session that does not run tasks stops resting only in a step that requests work. -/
theorem resting_step (w : s.Sane settings) (rest : s.Resting) (plain : s.Plain)
    (ne : r ≠ .runNext ∧ r ≠ .runUntilIdle) :
    (s.step r).2.Resting ∨ s.Raises r ∧
      ∀ k', (s.step r).2.scheduler = some k' → k'.workRequested = true := by
  rcases Classical.em (s.step r).2.Resting with rests | h
  · exact Or.inl rests
  · refine Or.inr ?_
    unfold Resting at h
    simp only [not_forall] at h
    obtain ⟨k', hk', h⟩ := h
    obtain ⟨k, hk, rfl | ⟨op, i, rfl⟩ | ⟨mode, calls, seeks, -⟩⟩ := scheduler_step_cases hk'
    · exact absurd (rest k' hk) h
    · have raises : k.Raises op := by
        refine (w k hk).raises_of_not_resting (rest k hk) (fun now isCanceled e => ?_) h
        subst e
        cases i with
        | asks a => cases a
        | promote seeks => exact plain.not_seeks ne _ _ seeks
      refine ⟨raises_of_issues w hk i raises, fun k'' hk'' => ?_⟩
      rw [hk'] at hk''
      cases hk''
      exact (w k hk).workRequested_of_raises raises
    · exact absurd seeks (plain.not_seeks ne _ _)

/-- Work that has been requested stays so until the request is taken. -/
theorem workRequested_step (w : s.Sane settings)
    (h : ∀ k, s.scheduler = some k → k.workRequested = true) (ne : r ≠ .takeWorkRequest) :
    ∀ k', (s.step r).2.scheduler = some k' → k'.workRequested = true := by
  intro k' hk'
  obtain ⟨k, hk, rfl | ⟨op, i, rfl⟩ | ⟨mode, calls, -, rfl⟩⟩ := scheduler_step_cases hk'
  · exact h k' hk
  · refine (w k hk).workRequested_perform op (h k hk) fun e => ?_
    subst e
    cases i with
    | asks a =>
        cases a
        exact ne rfl
  · have promoted : (k.promote s.now s.isCanceled).2.workRequested = true :=
      (w k hk).workRequested_perform (.promote s.now s.isCanceled) (h k hk) nofun
    exact ((w k hk).promote s.now s.isCanceled).workRequested_perform (.take s.isCanceled) promoted
      nofun

/-- Some of the requests made the session request work, which it still does unless the request was
taken afterwards. -/
def Raised (s : Session) (rs : List Request) : Prop :=
  ∃ before r rest, rs = before ++ r :: rest ∧ (s.run before).2.Raises r ∧
    (.takeWorkRequest ∈ rest ∨
      ∀ k, (s.run rs).2.scheduler = some k → k.workRequested = true)

theorem Raised.concat (w : s.Sane settings) (h : s.Raised rs) (r : Request) :
    s.Raised (rs ++ [r]) := by
  obtain ⟨before, r', rest, rfl, raises, h⟩ := h
  refine ⟨before, r', rest ++ [r], by simp, raises, ?_⟩
  rcases h with taken | requested
  · exact Or.inl (List.mem_append_left _ taken)
  · by_cases e : r = .takeWorkRequest
    · exact Or.inl (e ▸ List.mem_concat_self)
    · rw [run_concat]
      exact Or.inr (workRequested_step (w.run _) requested e)

theorem resting_or_raised (w : s.Sane settings) (rest : s.Resting) (plain : s.Plain)
    (others : ∀ r ∈ rs, r ≠ .runNext ∧ r ≠ .runUntilIdle) :
    (s.run rs).2.Plain ∧ ((s.run rs).2.Resting ∨ s.Raised rs) := by
  induction rs using List.reverseRecOn with
  | nil => exact ⟨plain, Or.inl rest⟩
  | append_singleton rs r ih =>
      obtain ⟨plain, h⟩ := ih fun r' mem => others r' (List.mem_append_left _ mem)
      have ne := others r List.mem_concat_self
      rw [run_concat]
      refine ⟨plain.step ne, ?_⟩
      rcases h with rest | raised
      · refine (resting_step (w.run rs) rest plain ne).imp_right fun ⟨raises, requested⟩ => ?_
        refine ⟨rs, r, [], rfl, raises, Or.inr ?_⟩
        rw [run_concat]
        exact requested
      · exact Or.inr (raised.concat w r)

/-- After an outermost call has answered that there was nothing to run, let anything happen except
that tasks are run.  If an enabled queue has a ready task then, work has been requested since, and
is still requested unless the request was taken after that.  If a task is due that waits in an
enabled queue which may arm the timer, then the timer is ready. -/
theorem no_lost_wakeUp (settings : Settings) (start : Ticks) (rs rs' : List Request) (r : Request)
    {k : Scheduler} :
    let out := ((new settings start).run rs).2.step r
    let s' := (out.2.run rs').2
    out.1 = .answered (.ran false) → out.2.calls = [] →
      (∀ r' ∈ rs', r' ≠ .runNext ∧ r' ≠ .runUntilIdle) → s'.scheduler = some k →
      ((∃ q tq h, k.queues.get? q = some tq ∧ tq.enabled = true ∧ tq.ready h ≠ []) →
        ∃ before r' rest, rs' = before ++ r' :: rest ∧ (out.2.run before).2.Raises r' ∧
          (.takeWorkRequest ∈ rest ∨ k.workRequested = true)) ∧
      ∀ t, k.Awaits t → t.isDue s'.now = true →
        ∃ w, k.timer = some w ∧ w.isReady s'.now = true := by
  intro out s' idle outermost others hk
  have w : ((new settings start).run rs).2.Sane settings := (sane_new settings start).run rs
  have undecided : ((new settings start).run rs).2.Undecided :=
    Undecided.run (fun _ mem => absurd mem List.not_mem_nil) rs
  have plain : out.2.Plain := fun call mem => by
    rw [outermost] at mem
    cases mem
  have sane : s'.Sane settings := (w.step r).run rs'
  refine ⟨fun ⟨q, tq, h, hq, enabled, ready⟩ => ?_, fun t waits due => ?_⟩
  · rcases (resting_or_raised (w.step r) (resting_of_ran_false w undecided idle) plain others).2
      with rest | ⟨before, r', rest, e, raises, requested⟩
    · exact absurd (rest k hk q tq h hq enabled) ready
    · exact ⟨before, r', rest, e, raises, requested.imp_right fun h => h k hk⟩
  · exact (sane k hk).scheduled.exists_timer_isReady waits due

/-- A disabled queue with a ready task is enabled, and then a delayed task is posted and
comes due. -/
theorem no_lost_wakeUp_enable :
    let out := ((new {} .zero).run [.create "main" true, .setEnabled ⟨1, 1⟩ false,
      .post ⟨1, 1⟩]).2.step .runNext
    let rs' : List Request := [.setEnabled ⟨1, 1⟩ true,
      .postDelayed ⟨1, 1⟩ (.ofMillis 500) .zero .noSooner, .advance (.ofMillis 500)]
    let s' := (out.2.run rs').2
    out.1 = .answered (.ran false) ∧ out.2.calls = [] ∧ ∃ k, s'.scheduler = some k ∧
      (∃ tq, k.queues.get? ⟨1, 1⟩ = some tq ∧ tq.enabled = true ∧ tq.ready .immediate ≠ []) ∧
      (∃ before r' rest, rs' = before ++ r' :: rest ∧ (out.2.run before).2.Raises r' ∧
        (.takeWorkRequest ∈ rest ∨ k.workRequested = true)) ∧
      ∃ w, k.timer = some w ∧ w.isReady s'.now = true := by
  intro out rs' s'
  have idle : out.1 = .answered (.ran false) := by decide +kernel
  have outermost : out.2.calls = [] := by decide +kernel
  have found : s'.scheduler.any fun k => (k.queues.get? ⟨1, 1⟩).any fun tq =>
      tq.enabled && tq.waking && !tq.immediate.isEmpty && tq.waiting.any (·.isDue s'.now) := by
    decide +kernel
  obtain ⟨k, hk, found⟩ := (Option.any_eq_true _ _).1 found
  obtain ⟨tq, hq, found⟩ := (Option.any_eq_true _ _).1 found
  simp only [Bool.and_eq_true] at found
  obtain ⟨⟨⟨enabled, waking⟩, ready⟩, waiting⟩ := found
  obtain ⟨t, ht, due⟩ := List.any_eq_true.1 waiting
  have ready : tq.ready .immediate ≠ [] := fun e => by
    rw [show tq.immediate = [] from e] at ready
    cases ready
  obtain ⟨requested, timer⟩ := no_lost_wakeUp {} .zero _ rs' .runNext idle outermost
    (by decide) hk
  exact ⟨idle, outermost, k, hk, ⟨tq, hq, enabled, ready⟩,
    requested ⟨_, tq, .immediate, hq, enabled, ready⟩,
    timer t ⟨_, tq, hq, waking, enabled, ht⟩ due⟩

end Session

end Dispatch
