import Dispatch.Proofs.Session.Steps

/-!
# The scheduler of a session

Whatever is asked of a session, its scheduler is in a reachable state (`Session.reachable_run`), so
a property that all operations of the scheduler keep holds between any two requests, also between
those that a task makes while it runs or is destroyed.
-/

namespace Dispatch

namespace Session

variable {settings : Settings} {s : Session}

/-- What every step keeps holds after a run. -/
theorem run_induct {P : Session → Prop} (step : ∀ s r, P s → P (s.step r).2) (h : P s)
    (rs : List Request) : P (s.run rs).2 := by
  induction rs generalizing s with
  | nil => exact h
  | cons r rs ih => exact ih (step s r h)

/-- The scheduler, unless it was given up, is in a reachable state. -/
def Sane (settings : Settings) (s : Session) : Prop :=
  ∀ k, s.scheduler = some k → Scheduler.Reachable settings k

theorem sane_new (settings : Settings) (start : Ticks) : Sane settings (new settings start) := by
  rintro k ⟨rfl⟩
  exact .start

theorem Sane.step (w : s.Sane settings) (r : Request) : (s.step r).2.Sane settings := by
  intro k' hk'
  obtain ⟨k, ops, hk, rfl, -⟩ := exists_ops_step hk'
  exact (w k hk).run ops

theorem Sane.run (w : s.Sane settings) (rs : List Request) : (s.run rs).2.Sane settings :=
  run_induct (fun _ r w => w.step r) w rs

/-- Whatever is asked of a session, its scheduler stays in a reachable state. -/
theorem reachable_run (settings : Settings) (start : Ticks) (rs : List Request) {k : Scheduler}
    (h : ((new settings start).run rs).2.scheduler = some k) : Scheduler.Reachable settings k :=
  (sane_new settings start).run rs k h

/-- The scheduler of a session has a history of operations. -/
theorem exists_run (settings : Settings) (start : Ticks) (rs : List Request) {k : Scheduler}
    (h : ((new settings start).run rs).2.scheduler = some k) :
    ∃ ops, (Scheduler.ofSettings settings).run ops = k :=
  Scheduler.reachable_iff.1 (reachable_run settings start rs h)

end Session

end Dispatch
