/-!
# Stamps

A stamp records when a task became ready: of two tasks the one with the smaller stamp became ready
first.  A `StampSource` issues every stamp once, in ascending order, starting with 1.
-/

namespace Dispatch

/-- The place of a task in the order in which tasks became ready. -/
structure Stamp where
  raw : Nat
deriving DecidableEq

namespace Stamp

instance : LE Stamp := ⟨fun a b => a.raw ≤ b.raw⟩

instance : LT Stamp := ⟨fun a b => a.raw < b.raw⟩

instance : DecidableLE Stamp := fun a b => inferInstanceAs (Decidable (a.raw ≤ b.raw))

instance : DecidableLT Stamp := fun a b => inferInstanceAs (Decidable (a.raw < b.raw))

instance : Ord Stamp := ⟨fun a b => compare a.raw b.raw⟩

theorem le_iff {a b : Stamp} : a ≤ b ↔ a.raw ≤ b.raw := Iff.rfl

theorem lt_iff {a b : Stamp} : a < b ↔ a.raw < b.raw := Iff.rfl

/-- The stamp as texts name it. -/
def text (s : Stamp) : String := "#" ++ toString s.raw

end Stamp

/-- Knows the next stamp to issue. -/
structure StampSource where
  next : Nat := 1
deriving DecidableEq, Inhabited

namespace StampSource

/-- The next stamp, and the source that goes on after it. -/
def issue (s : StampSource) : Stamp × StampSource := (⟨s.next⟩, ⟨s.next + 1⟩)

end StampSource

end Dispatch
