import Dispatch.Time.Ticks

/-!
# Wake-ups

A wake-up is a time at which something is to happen, with a leeway within which it may be moved as
the policy allows, and the precision that the timer needs.  `WakeUp.earliest` and `WakeUp.latest`
are the ends of the window that results.  Wake-ups are ordered by `WakeUp.rank`: first by the start
of the window, then by its end, and then by the remaining parts, so that only equal wake-ups are
level.
-/

namespace Dispatch

/-- How precise a timer has to be. -/
inductive Resolution where
  | low
  | high
deriving DecidableEq, Inhabited

namespace Resolution

/-- The name of the resolution in texts. -/
def name : Resolution → String
  | low => "low"
  | high => "high"

/-- High resolution comes first. -/
def rank : Resolution → Nat
  | high => 0
  | low => 1

end Resolution

/-- In which direction a time may be moved within its leeway. -/
inductive Policy where
  /-- Later, never earlier. -/
  | noSooner
  /-- Earlier, never later. -/
  | preferEarly
  /-- Not at all. -/
  | precise
deriving DecidableEq, Inhabited

namespace Policy

/-- The name of the policy in texts. -/
def name : Policy → String
  | noSooner => "no_sooner"
  | preferEarly => "prefer_early"
  | precise => "precise"

/-- The stricter policy comes first. -/
def rank : Policy → Nat
  | precise => 0
  | preferEarly => 1
  | noSooner => 2

/-- The start of the window around `t`. -/
def earliest (p : Policy) (t : Ticks) (leeway : Duration) : Ticks :=
  match p with
  | preferEarly => t - leeway
  | noSooner | precise => t

/-- The end of the window around `t`. -/
def latest (p : Policy) (t : Ticks) (leeway : Duration) : Ticks :=
  match p with
  | noSooner => t + leeway
  | preferEarly | precise => t

end Policy

/-- A time at which to be woken. -/
structure WakeUp where
  time : Ticks
  leeway : Duration := .zero
  resolution : Resolution := .low
  policy : Policy := .noSooner
deriving DecidableEq

namespace WakeUp

/-- The first moment at which the wake-up may come. -/
def earliest (w : WakeUp) : Ticks := w.policy.earliest w.time w.leeway

/-- The last moment at which the wake-up should come. -/
def latest (w : WakeUp) : Ticks := w.policy.latest w.time w.leeway

/-- The window has begun. -/
def isReady (w : WakeUp) (now : Ticks) : Bool := decide (w.earliest ≤ now)

/-- What wake-ups are compared by, the first part first. -/
def rank (w : WakeUp) : List Nat :=
  [w.earliest.nanos, w.latest.nanos, w.time.nanos, w.leeway.nanos, w.resolution.rank, w.policy.rank]

/-- The order of the ranks, compared part by part. -/
instance : LE WakeUp := ⟨fun a b => List.instLE.le a.rank b.rank⟩

instance : DecidableLE WakeUp := fun a b => List.decidableLE a.rank b.rank

theorem le_total (a b : WakeUp) : a ≤ b ∨ b ≤ a := List.le_total a.rank b.rank

theorem le_trans {a b c : WakeUp} (h : a ≤ b) (k : b ≤ c) : a ≤ c := List.le_trans h k

theorem le_antisymm {a b : WakeUp} (h : a ≤ b) (k : b ≤ a) : a = b := by
  have e := List.le_antisymm h k
  cases a with | mk t l r p =>
  cases b with | mk t' l' r' p' =>
  simp only [rank, List.cons.injEq, and_true] at e
  obtain ⟨-, -, ht, hl, hr, hp⟩ := e
  have ht : t = t' := Ticks.eq_of_nanos ht
  have hl : l = l' := Duration.ext hl
  have hr : r = r' := by cases r <;> cases r' <;> simp_all [Resolution.rank]
  have hp : p = p' := by cases p <;> cases p' <;> simp_all [Policy.rank]
  subst ht hl hr hp
  rfl

end WakeUp

end Dispatch
