import Dispatch.Time.Duration

/-!
# Points in time

A point in time is the duration since an origin that the clock chose.  Moving a point later stops
at the latest point, moving it earlier stops at the origin, and the distance back to a later point
is zero.
-/

namespace Dispatch

/-- A point on the timeline of one clock. -/
@[ext]
structure Ticks where
  sinceOrigin : Duration
deriving DecidableEq

namespace Ticks

/-- The origin itself. -/
def zero : Ticks := ⟨.zero⟩

/-- The latest point there is. -/
def max : Ticks := ⟨.max⟩

instance : Inhabited Ticks := ⟨zero⟩

/-- The point so many milliseconds after the origin. -/
def ofMillis (n : Nat) : Ticks := ⟨.ofMillis n⟩

/-- The point so many microseconds after the origin. -/
def ofMicros (n : Nat) : Ticks := ⟨.ofMicros n⟩

/-- The nanoseconds since the origin. -/
def nanos (t : Ticks) : Nat := t.sinceOrigin.nanos

/-- The point is the origin. -/
def isZero (t : Ticks) : Bool := t.nanos == 0

instance : HAdd Ticks Duration Ticks := ⟨fun t d => ⟨t.sinceOrigin + d⟩⟩

instance : HSub Ticks Duration Ticks := ⟨fun t d => ⟨t.sinceOrigin - d⟩⟩

instance : HSub Ticks Ticks Duration := ⟨fun t u => t.sinceOrigin - u.sinceOrigin⟩

instance : LE Ticks := ⟨fun t u => t.nanos ≤ u.nanos⟩

instance : LT Ticks := ⟨fun t u => t.nanos < u.nanos⟩

instance (t u : Ticks) : Decidable (t ≤ u) := inferInstanceAs (Decidable (t.nanos ≤ u.nanos))

instance (t u : Ticks) : Decidable (t < u) := inferInstanceAs (Decidable (t.nanos < u.nanos))

instance : Ord Ticks := ⟨fun t u => compare t.nanos u.nanos⟩

theorem le_iff {t u : Ticks} : t ≤ u ↔ t.nanos ≤ u.nanos := Iff.rfl

theorem lt_iff {t u : Ticks} : t < u ↔ t.nanos < u.nanos := Iff.rfl

theorem eq_of_nanos {t u : Ticks} (h : t.nanos = u.nanos) : t = u := by
  ext; exact h

@[simp] theorem nanos_add (t : Ticks) (d : Duration) :
    (t + d).nanos = min (t.nanos + d.nanos) maxNanos := rfl

@[simp] theorem nanos_sub (t : Ticks) (d : Duration) : (t - d).nanos = t.nanos - d.nanos := rfl

@[simp] theorem nanos_diff (t u : Ticks) : (t - u).nanos = t.nanos - u.nanos := rfl

/-- A point in time is written as the duration since the origin. -/
def text (t : Ticks) : String := t.sinceOrigin.text

/-- Points in time from the earliest to the latest. -/
def sort (ts : List Ticks) : List Ticks := ts.mergeSort (fun t u => decide (t ≤ u))

end Ticks

end Dispatch
