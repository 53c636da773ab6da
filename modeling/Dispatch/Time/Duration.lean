/-!
# Durations

Lengths of time in whole nanoseconds, from zero up to `Duration.max`, which is 2^64 - 1 seconds and
999999999 nanoseconds.  Sums stop at `max` and differences stop at zero, so arithmetic never leaves
the type; `nanos_add` and `nanos_sub` say so in `Nat`.  `Duration.text` writes a duration exactly,
in the largest unit that it reaches.
-/

namespace Dispatch

/-- The nanoseconds of the longest duration. -/
def maxNanos : Nat := 18446744073709551615999999999

/-- A length of time that is at most `maxNanos` nanoseconds. -/
@[ext]
structure Duration where
  nanos : Nat
  nanos_le : nanos ≤ maxNanos
deriving DecidableEq

namespace Duration

/-- A number of nanoseconds as a duration, cut off at the longest one. -/
def ofNanos (n : Nat) : Duration := ⟨min n maxNanos, Nat.min_le_right _ _⟩

/-- So many microseconds. -/
def ofMicros (n : Nat) : Duration := ofNanos (n * 1000)

/-- So many milliseconds. -/
def ofMillis (n : Nat) : Duration := ofNanos (n * 1000000)

/-- No time at all. -/
def zero : Duration := ofNanos 0

/-- The longest duration there is. -/
def max : Duration := ⟨maxNanos, Nat.le_refl _⟩

instance : Inhabited Duration := ⟨zero⟩

instance : Add Duration := ⟨fun a b => ofNanos (a.nanos + b.nanos)⟩

instance : Sub Duration :=
  ⟨fun a b => ⟨a.nanos - b.nanos, Nat.le_trans (Nat.sub_le _ _) a.nanos_le⟩⟩

instance : LE Duration := ⟨fun a b => a.nanos ≤ b.nanos⟩

instance : LT Duration := ⟨fun a b => a.nanos < b.nanos⟩

instance (a b : Duration) : Decidable (a ≤ b) := inferInstanceAs (Decidable (a.nanos ≤ b.nanos))

instance (a b : Duration) : Decidable (a < b) := inferInstanceAs (Decidable (a.nanos < b.nanos))

theorem le_iff {a b : Duration} : a ≤ b ↔ a.nanos ≤ b.nanos := Iff.rfl

theorem lt_iff {a b : Duration} : a < b ↔ a.nanos < b.nanos := Iff.rfl

@[simp] theorem nanos_ofNanos (n : Nat) : (ofNanos n).nanos = min n maxNanos := rfl

@[simp] theorem nanos_add (a b : Duration) : (a + b).nanos = min (a.nanos + b.nanos) maxNanos := rfl

@[simp] theorem nanos_sub (a b : Duration) : (a - b).nanos = a.nanos - b.nanos := rfl

/-! ### Text -/

/-- The digits after the point of `rest / 10 ^ width`, with no zero at the end. -/
def fractionDigits (rest width : Nat) : List Char :=
  let digits := Nat.toDigits 10 rest
  let padded := List.replicate (width - digits.length) '0' ++ digits
  (padded.reverse.dropWhile (· == '0')).reverse

/-- The number `whole + rest / 10 ^ width`, exactly, followed by a unit. -/
def decimalText (whole rest width : Nat) (unit : String) : String :=
  match fractionDigits rest width with
  | [] => toString whole ++ unit
  | digits => toString whole ++ "." ++ String.ofList digits ++ unit

/-- A duration is written in the largest of seconds, milliseconds, microseconds and nanoseconds of
which it holds at least one, zero in nanoseconds. -/
def text (d : Duration) : String :=
  if 1000000000 ≤ d.nanos then decimalText (d.nanos / 1000000000) (d.nanos % 1000000000) 9 "s"
  else if 1000000 ≤ d.nanos then decimalText (d.nanos / 1000000) (d.nanos % 1000000) 6 "ms"
  else if 1000 ≤ d.nanos then decimalText (d.nanos / 1000) (d.nanos % 1000) 3 "µs"
  else decimalText d.nanos 0 0 "ns"

example : (ofNanos 0).text = "0ns" := by cbv
example : (ofNanos 1500000).text = "1.5ms" := by cbv
example : (ofNanos 1000000001).text = "1.000000001s" := by cbv

end Duration

end Dispatch
