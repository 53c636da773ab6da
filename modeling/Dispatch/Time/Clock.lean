import Dispatch.Time.Ticks

/-!
# Clocks driven by hand

A `Clock` shows the time it was last moved to and never goes back.  It counts its readings, so that
a `Reading`, which looks at the clock at most once, can be told from one that looks every time.
-/

namespace Dispatch

/-- A clock that stands still until it is moved. -/
structure Clock where
  now : Ticks := .zero
  readings : Nat := 0
deriving DecidableEq, Inhabited

namespace Clock

/-- A clock that shows `t` and has not been read. -/
def startingAt (t : Ticks) : Clock := ⟨t, 0⟩

/-- Moves the clock on by `d`, to the latest point at most. -/
def advance (c : Clock) (d : Duration) : Clock := { c with now := c.now + d }

/-- Moves the clock to `t`, unless that is earlier than it shows. -/
def moveTo (c : Clock) (t : Ticks) : Clock := if c.now < t then { c with now := t } else c

/-- Reads the clock, which counts it. -/
def read (c : Clock) : Ticks × Clock := (c.now, { c with readings := c.readings + 1 })

theorem le_advance (c : Clock) (d : Duration) : c.now ≤ (c.advance d).now := by
  have := c.now.sinceOrigin.nanos_le
  simp only [advance, Ticks.le_iff, Ticks.nanos_add]
  unfold Ticks.nanos
  omega

theorem le_moveTo (c : Clock) (t : Ticks) : c.now ≤ (c.moveTo t).now := by
  unfold moveTo
  split
  · rename_i h
    exact Nat.le_of_lt h
  · exact Nat.le_refl _

end Clock

/-- A look at the clock that is put off until it is first needed and kept from then on. -/
inductive Reading where
  | pending
  | taken (time : Ticks)
deriving DecidableEq

namespace Reading

/-- The clock has been looked at. -/
def isTaken : Reading → Bool
  | pending => false
  | taken _ => true

/-- The time of the reading, taken from the clock if it was still pending. -/
def get : Reading → Clock → Ticks × Reading × Clock
  | pending, c => let (t, c) := c.read; (t, taken t, c)
  | taken t, c => (t, taken t, c)

end Reading

end Dispatch
