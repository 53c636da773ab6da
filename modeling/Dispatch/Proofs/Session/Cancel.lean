import Dispatch.Proofs.Session.History

/-!
# Canceled tasks

A delayed task can be canceled from the moment at which it is accepted, and it stays canceled
(`isCanceled_step`).  Whether it is canceled is asked when its code is about to start, when no other
code can run any more (`Proceeds.isCanceled_eq_false`).  So the code of a canceled task never starts
(`canceled_never_starts`).
-/

namespace Dispatch.Session

variable {settings : Settings} {start : Ticks} {s s' : Session} {r : Request} {ts : List Ticket}
  {after : After} {x : Signal} {t u : Ticket} {rs : List Request}

/-! ### One step -/

theorem isCanceled_cancel :
    (s.cancel t).isCanceled u = true ↔ s.isCanceled u = true ∨ u = t ∧ t ∈ s.handles := by
  unfold cancel
  split
  · rename_i h
    have found : t ∈ s.handles := by simpa using (Bool.and_eq_true_iff.1 h).1
    simp [isCanceled, found, or_comm]
  · rename_i h
    refine ⟨Or.inl, ?_⟩
    rintro (hu | ⟨rfl, found⟩)
    · exact hu
    · simpa [found] using h

theorem Begins.canceled_cases (b : s.Begins r s' ts after) :
    s'.canceled = s.canceled ∨ ∃ t, r = .cancel t ∧ s' = s.cancel t := by
  cases b with
  | cancel t => exact Or.inr ⟨t, rfl, rfl⟩
  | nothing | perform | moveClock | post | postDelayed | refuse | remove | sweep | close | ran
  | resume | round | gone => exact Or.inl rfl

theorem Proceeds.isCanceled_eq (p : s.Proceeds ts after x s') (t : Ticket) :
    s'.isCanceled t = s.isCanceled t := by
  cases p <;> rfl

theorem Proceeds.handles_eq (p : s.Proceeds ts after x s') : s'.handles = s.handles := by
  cases p <;> rfl

/-- The code of a task starts only if the task is not canceled in that moment. -/
theorem Proceeds.isCanceled_eq_false (p : s.Proceeds ts after (.started t) s') :
    s'.isCanceled t = false := by
  cases p with
  | start live => exact live

theorem isCanceled_step_cases (s : Session) (r : Request) :
    (∀ u, (s.step r).2.isCanceled u = s.isCanceled u) ∨
      ∃ t, r = .cancel t ∧ ∀ u, (s.step r).2.isCanceled u = (s.cancel t).isCanceled u := by
  obtain ⟨s₁, ts, after, b, p⟩ := s.step_cases r
  rcases b.canceled_cases with e | ⟨t, rfl, rfl⟩
  · refine Or.inl fun u => (p.isCanceled_eq u).trans ?_
    unfold isCanceled
    rw [e]
  · exact Or.inr ⟨t, rfl, p.isCanceled_eq⟩

/-- A canceled task stays canceled. -/
theorem isCanceled_step (h : s.isCanceled t = true) (r : Request) :
    (s.step r).2.isCanceled t = true := by
  rcases s.isCanceled_step_cases r with e | ⟨u, -, e⟩
  · rw [e, h]
  · rw [e, isCanceled_cancel]
    exact Or.inl h

/-- A task becomes canceled only when that is asked for. -/
theorem isCanceled_of_step (h : (s.step r).2.isCanceled t = true) :
    s.isCanceled t = true ∨ r = .cancel t := by
  rcases s.isCanceled_step_cases r with e | ⟨u, rfl, e⟩
  · exact Or.inl (e t ▸ h)
  · rw [e, isCanceled_cancel] at h
    rcases h with h | ⟨rfl, -⟩
    · exact Or.inl h
    · exact Or.inr rfl

theorem Begins.mem_handles (b : s.Begins r s' ts after) (h : t ∈ s.handles) : t ∈ s'.handles := by
  cases b with
  | postDelayed => exact List.mem_cons_of_mem _ h
  | cancel u => exact handles_cancel s u ▸ h
  | nothing | perform | moveClock | post | refuse | remove | sweep | close | ran | resume | round
  | gone => exact h

theorem mem_handles_step (h : t ∈ s.handles) (r : Request) : t ∈ (s.step r).2.handles := by
  obtain ⟨s₁, ts, after, b, p⟩ := s.step_cases r
  rw [p.handles_eq]
  exact b.mem_handles h

/-! ### A run -/

theorem isCanceled_run (h : s.isCanceled t = true) (rs : List Request) :
    (s.run rs).2.isCanceled t = true :=
  run_induct (P := fun s => s.isCanceled t = true) (fun _ r h => isCanceled_step h r) h rs

theorem cancel_mem_of_isCanceled (h : ((new settings start).run rs).2.isCanceled t = true) :
    .cancel t ∈ rs := by
  induction rs using List.reverseRecOn with
  | nil => cases h
  | append_singleton rs r ih =>
      rw [run_concat] at h
      rcases isCanceled_of_step h with h | rfl
      · exact List.mem_append_left _ (ih h)
      · exact List.mem_concat_self

theorem mem_handles_run {q : QueueId} {delay leeway : Duration} {policy : Policy}
    (h : (.postDelayed q delay leeway policy, .answered (.handle t)) ∈ s.history rs) :
    t ∈ (s.run rs).2.handles := by
  induction rs using List.reverseRecOn with
  | nil => cases h
  | append_singleton rs r ih =>
      rw [history_concat] at h
      rw [run_concat]
      rcases List.mem_append.1 h with h | h
      · exact mem_handles_step (ih h) r
      · obtain ⟨rfl, e⟩ := Prod.mk.inj (List.mem_singleton.1 h)
        obtain ⟨-, k, k', -, -, stepped⟩ := step_of_handle e.symm
        rw [stepped]
        exact List.mem_cons_self

/-- The code of a canceled task does not start. -/
theorem started_not_mem_run (h : s.isCanceled t = true) (rs : List Request) :
    .started t ∉ (s.run rs).1 := by
  induction rs generalizing s with
  | nil => exact List.not_mem_nil
  | cons r rs ih =>
      have later := isCanceled_step h r
      rw [run_cons, List.mem_cons]
      rintro (e | started)
      · obtain ⟨s₁, ts, after, b, p⟩ := s.step_cases r
        rw [← e] at p
        rw [p.isCanceled_eq_false] at later
        cases later
      · exact ih later started

/-- Once it has been asked to cancel a delayed task, its code does not start any more, whatever is
asked from then on and by whom: by the code of another task, in a nested call, or by a canceled task
that is destroyed after this one was taken.  If its code had not started before, it never starts. -/
theorem canceled_never_starts (settings : Settings) (start : Ticks) (rs rs' : List Request)
    {q : QueueId} {delay leeway : Duration} {policy : Policy} {t : Ticket}
    (posted : (.postDelayed q delay leeway policy, .answered (.handle t)) ∈
      (new settings start).history rs) :
    .started t ∉ (((new settings start).run (rs ++ [.cancel t])).2.run rs').1 ∧
      (.started t ∉ ((new settings start).run rs).1 →
        .started t ∉ ((new settings start).run (rs ++ .cancel t :: rs')).1) := by
  have canceled : ((new settings start).run (rs ++ [.cancel t])).2.isCanceled t = true := by
    rw [run_concat]
    exact isCanceled_cancel.2 (Or.inr ⟨rfl, mem_handles_run posted⟩)
  have never := started_not_mem_run canceled rs'
  refine ⟨never, fun before => ?_⟩
  rw [show rs ++ .cancel t :: rs' = rs ++ [.cancel t] ++ rs' by simp, run_append, run_concat,
    List.mem_append, List.mem_append]
  rintro ((h | h) | h)
  · exact before h
  · cases List.mem_singleton.1 h
  · rw [run_concat] at never
    exact never h

/-- The first of two tasks is canceled, and cancels the second one when it is destroyed, after the
second one has been taken to be run. -/
theorem canceled_never_starts_taken :
    let first : List Request := [.create "main" true,
      .postDelayed ⟨1, 1⟩ .zero .zero .noSooner, .postDelayed ⟨1, 1⟩ .zero .zero .noSooner,
      .cancel ⟨0⟩, .runNext]
    let s := ((new {} .zero).run first).2
    s.calls = [.discarding ⟨0⟩ [] (.launch ⟨1⟩ .once)] ∧
      (((new {} .zero).run (first ++ [.cancel ⟨1⟩])).2.run [.finish, .finish]).1 =
        [.discarding ⟨1⟩, .answered (.ran false)] ∧
      .started ⟨1⟩ ∉
        (((new {} .zero).run (first ++ [.cancel ⟨1⟩])).2.run [.finish, .finish]).1 := by
  intro first s
  have posted : (.postDelayed ⟨1, 1⟩ .zero .zero .noSooner, .answered (.handle ⟨1⟩)) ∈
      (new {} .zero).history first := by decide +kernel
  exact ⟨by decide +kernel, by decide +kernel,
    (canceled_never_starts {} .zero first [.finish, .finish] posted).1⟩

end Dispatch.Session
