import Dispatch.Proofs.Scheduler.Origins
import Dispatch.Proofs.Session.Cancel

/-!
# The posting of a task

Every task in a queue was posted by a request of the history (`stems_run`), and by one only
(`eq_of_mem_history`).  So the history tells of a waiting task with which delay it was posted, and
whether that is below the bound of the settings (`mem_shortlyPosted`).  Only tasks that were posted
with a delay can be canceled, so a task of an immediate half never is one
(`not_isCanceled_of_mem_immediate`).
-/

namespace Dispatch.Session

variable {settings : Settings} {start : Ticks} {s s' : Session} {r r' : Request} {ts : List Ticket}
  {after : After} {x y : Signal} {t : Ticket} {q : QueueId} {rs : List Request} {k : Scheduler}
  {tq : Queue} {h : List (Request × Signal)}

/-! ### One posting for each ticket -/

theorem postings_eq (h : List (Request × Signal)) : (postings h).map (·.2.task?) =
    (h.filter fun e => e.1.target?.isSome).map (·.2.task?) := by
  induction h with
  | nil => rfl
  | cons e h ih =>
      unfold postings at ih ⊢
      rw [List.filterMap_cons, List.filter_cons]
      cases e.1.target? with
      | none => exact ih
      | some q => exact congrArg _ ih

/-- No two requests hand in tasks under one ticket. -/
theorem eq_of_mem_history (hr : (r, x) ∈ (new settings start).history rs)
    (hr' : (r', y) ∈ (new settings start).history rs) (target : r.target?.isSome)
    (target' : r'.target?.isSome) (e : x.task? = y.task?) : r = r' := by
  have nodup := nodup_tasks_postings settings start rs
  rw [postings_eq] at nodup
  exact (Prod.mk.inj (List.inj_on_of_nodup_map nodup
    (List.mem_filter.2 ⟨hr, target⟩) (List.mem_filter.2 ⟨hr', target'⟩) e)).1

/-! ### How a task was posted -/

/-- The task was posted to the queue to run at once. -/
def PostedAtOnce (h : List (Request × Signal)) (q : QueueId) (t : Ticket) : Prop :=
  (.post q, .answered (.posted t)) ∈ h

/-- The task was posted to the queue with a delay, and the flag says whether that is so short that
the task asks for a precise timer. -/
def PostedLater (settings : Settings) (h : List (Request × Signal)) (q : QueueId) (t : Ticket)
    (high : Bool) : Prop :=
  ∃ delay leeway policy, (.postDelayed q delay leeway policy, .answered (.handle t)) ∈ h ∧
    decide (delay < settings.highResolutionBelow) = high

/-- All tasks of the queues were posted by requests of the history. -/
def Stems (settings : Settings) (h : List (Request × Signal)) (s : Session) : Prop :=
  ∀ k, s.scheduler = some k → ∀ q tq, k.queues.get? q = some tq →
    tq.Stems (PostedAtOnce h q) (PostedLater settings h q)

theorem Stems.mono (st : s.Stems settings h) (h' : List (Request × Signal)) :
    s.Stems settings (h ++ h') := fun k hk q tq hq =>
  (st k hk q tq hq).mono (fun _ => List.mem_append_left h')
    fun _ _ ⟨delay, leeway, policy, mem, e⟩ =>
      ⟨delay, leeway, policy, List.mem_append_left h' mem, e⟩

theorem step_post_of_get? (hk : s.scheduler = some k) (hq : k.queues.get? q = some tq) :
    (s.step (.post q)).1 = .answered (.posted ⟨s.issued⟩) := by
  show (s.post q).1 = _
  unfold Session.post accept Scheduler.post Scheduler.queue
  simp only [hk, hq]
  rfl

theorem step_postDelayed_of_get? (hk : s.scheduler = some k) (hq : k.queues.get? q = some tq)
    (delay leeway : Duration) (policy : Policy) :
    (s.step (.postDelayed q delay leeway policy)).1 = .answered (.handle ⟨s.issued⟩) := by
  show (s.postDelayed q delay leeway policy).1 = _
  unfold Session.postDelayed accept Scheduler.postDelayed Scheduler.queue
  simp only [hk, hq]
  rfl

theorem stems_step (w : s.Sane settings) (st : s.Stems settings h) (r : Request) :
    (s.step r).2.Stems settings (h ++ [(r, (s.step r).1)]) := by
  intro k' hk'
  obtain ⟨k, hk, rfl | ⟨op, i, rfl⟩ | ⟨mode, calls, seeks, rfl⟩⟩ := scheduler_step_cases hk'
  · exact st.mono _ k' hk
  · refine (w k hk).stems_perform (st.mono _ k hk) op ?_ ?_
    · rintro q t tq rfl hq
      cases i with
      | asks a => cases a
      | post =>
          refine List.mem_append_right h (List.mem_singleton.2 ?_)
          rw [step_post_of_get? hk hq]
    · rintro q delay leeway policy now t tq rfl hq
      cases i with
      | asks a => cases a
      | postDelayed =>
          refine ⟨delay, leeway, policy, List.mem_append_right h (List.mem_singleton.2 ?_), rfl⟩
          rw [step_postDelayed_of_get? hk hq]
  · exact ((w k hk).promote s.now s.isCanceled).stems_perform
      ((w k hk).stems_perform (st.mono _ k hk) (.promote s.now s.isCanceled) nofun nofun)
      (.take s.isCanceled) nofun nofun

theorem stems_run (settings : Settings) (start : Ticks) (rs : List Request) :
    ((new settings start).run rs).2.Stems settings ((new settings start).history rs) := by
  induction rs using List.reverseRecOn with
  | nil =>
      rintro k ⟨rfl⟩ q tq hq
      rw [show (Scheduler.ofSettings settings).queues.get? q = none from
        Scheduler.get?_ofSettings settings q] at hq
      cases hq
  | append_singleton rs r ih =>
      rw [run_concat, history_concat]
      exact stems_step ((sane_new settings start).run rs) ih r

/-! ### Short delays -/

/-- The tasks that were posted with a delay below the bound of the settings. -/
def shortlyPosted (settings : Settings) (h : List (Request × Signal)) : List Ticket :=
  h.filterMap fun
    | (.postDelayed _ delay _ _, .answered (.handle t)) =>
      if delay < settings.highResolutionBelow then some t else none
    | _ => none

theorem mem_shortlyPosted :
    t ∈ shortlyPosted settings h ↔ ∃ q, PostedLater settings h q t true := by
  unfold shortlyPosted PostedLater
  rw [List.mem_filterMap]
  constructor
  · rintro ⟨⟨r, x⟩, mem, e⟩
    split at e
    · rename_i q delay leeway policy u same
      split_ifs at e with short
      cases e
      cases same
      exact ⟨q, delay, leeway, policy, mem, decide_eq_true short⟩
    · cases e
  · rintro ⟨q, delay, leeway, policy, mem, short⟩
    exact ⟨_, mem, if_pos (of_decide_eq_true short)⟩

/-- Whether a task asks for a precise timer is told by the delay with which it was posted. -/
theorem PostedLater.mem_shortlyPosted_iff {high : Bool}
    (p : PostedLater settings ((new settings start).history rs) q t high) :
    t ∈ shortlyPosted settings ((new settings start).history rs) ↔ high = true := by
  rw [mem_shortlyPosted]
  constructor
  · rintro ⟨j, delay, leeway, policy, mem, short⟩
    obtain ⟨delay', leeway', policy', mem', rfl⟩ := p
    cases eq_of_mem_history mem mem' rfl rfl rfl
    exact short
  · rintro rfl
    exact ⟨q, p⟩

/-! ### Tasks that can be canceled -/

theorem isCanceled_imp_mem_handles (settings : Settings) (start : Ticks) (rs : List Request)
    (canceled : ((new settings start).run rs).2.isCanceled t = true) :
    t ∈ ((new settings start).run rs).2.handles := by
  induction rs using List.reverseRecOn with
  | nil => cases canceled
  | append_singleton rs r ih =>
      rw [run_concat] at canceled ⊢
      rcases isCanceled_step_cases ((new settings start).run rs).2 r with e | ⟨u, rfl, e⟩
      · exact mem_handles_step (ih (e t ▸ canceled)) r
      · rw [e, isCanceled_cancel] at canceled
        rcases canceled with canceled | ⟨rfl, found⟩
        · exact mem_handles_step (ih canceled) _
        · exact mem_handles_step found _

theorem Begins.mem_handles_cases (b : s.Begins r s' ts after) (mem : t ∈ s'.handles) :
    t ∈ s.handles ∨ t = ⟨s.issued⟩ ∧ r.target?.isSome ∧ ts = [] ∧
      after = .answer (.handle t) := by
  cases b with
  | postDelayed =>
      rcases List.mem_cons.1 mem with rfl | mem
      · exact Or.inr ⟨rfl, rfl, rfl, rfl⟩
      · exact Or.inl mem
  | cancel u => exact Or.inl (handles_cancel s u ▸ mem)
  | nothing | perform | moveClock | post | refuse | remove | sweep | close | ran | resume | round
  | gone => exact Or.inl mem

/-- What can be canceled was posted with a delay. -/
theorem exists_posting_of_mem_handles (mem : t ∈ ((new settings start).run rs).2.handles) :
    ∃ r, (r, .answered (.handle t)) ∈ (new settings start).history rs ∧ r.target?.isSome := by
  induction rs using List.reverseRecOn with
  | nil => cases mem
  | append_singleton rs r ih =>
      rw [run_concat] at mem
      rw [history_concat]
      obtain ⟨s₁, ts, after, b, p⟩ := ((new settings start).run rs).2.step_cases r
      rw [p.handles_eq] at mem
      rcases b.mem_handles_cases mem with mem | ⟨-, target, rfl, rfl⟩
      · obtain ⟨r', mem', target'⟩ := ih mem
        exact ⟨r', List.mem_append_left _ mem', target'⟩
      · refine ⟨r, List.mem_append_right _ (List.mem_singleton.2 ?_), target⟩
        generalize ((new settings start).run rs).2.step r = out at p ⊢
        obtain ⟨x, s'⟩ := out
        cases p
        rfl

/-- No task of an immediate half is canceled. -/
theorem not_isCanceled_of_mem_immediate (hk : ((new settings start).run rs).2.scheduler = some k)
    (hq : k.queues.get? q = some tq) {u : ReadyTask} (hu : u ∈ tq.immediate) :
    ((new settings start).run rs).2.isCanceled u.ticket = false := by
  rw [← Bool.not_eq_true]
  intro canceled
  have posted := (stems_run settings start rs k hk q tq hq).immediate u hu
  obtain ⟨r, mem, target⟩ :=
    exists_posting_of_mem_handles (isCanceled_imp_mem_handles settings start rs canceled)
  obtain ⟨j, hj⟩ := Option.isSome_iff_exists.1 target
  obtain ⟨-, e⟩ := eq_of_mem_postings (mem_postings.2 ⟨_, posted, rfl⟩)
    (mem_postings.2 ⟨r, mem, hj⟩) rfl
  cases e

end Dispatch.Session
