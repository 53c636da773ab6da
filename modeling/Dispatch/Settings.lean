import Dispatch.Queue.Level
import Dispatch.Time.Duration

/-!
# Settings

The numbers that tune how fair selection is and how precise wake-ups are.
-/

namespace Dispatch

/-- What a scheduler can be tuned by. -/
structure Settings where
  /-- For how many more selections a level may be passed over.  The most and the least urgent level
  do not look at it. -/
  tolerance : PerLevel Int := ⟨0, 0, 3, 8, 33, 0⟩
  /-- How many delayed tasks in a row may be taken past an immediate one. -/
  maxStreak : Nat := 3
  /-- A delayed task that is posted with a shorter delay than this asks for a precise timer. -/
  highResolutionBelow : Duration := .ofMillis 32
deriving DecidableEq

namespace Settings

instance : Inhabited Settings := ⟨{}⟩

end Settings

end Dispatch
