import Dispatch.Collection.Ranking
import Dispatch.Selection.ReadySets
import Dispatch.Settings

/-!
# The selector

The selector knows for every enrolled queue its level, whether it is enabled, and the front tasks of
its halves.  The halves of enabled queues that hold tasks are kept in ready sets.

Every level with ready work has a key in a ranking.  The most urgent level always has the smallest
possible key and the least urgent one the largest.  The key of any other level is the number of
selections so far plus the tolerance of the level, fixed when the level was last filled or served,
so a level that keeps losing has the smallest key in the end.

Naming a queue that is not enrolled, enrolling one again, and enabling or disabling one that is so
already changes nothing.
-/

namespace Dispatch

/-- What the selector knows about a queue. -/
structure Enrolment where
  level : Level
  enabled : Bool
  fronts : Fronts
deriving DecidableEq

/-- The smallest key of a level, -2^63. -/
def minKey : Int := -9223372036854775808

/-- The largest key of a level, 2^63 - 1. -/
def maxKey : Int := 9223372036854775807

/-- The nearest key to a number. -/
def clampKey (n : Int) : Int := max minKey (min n maxKey)

/-- The state of selection. -/
structure Selector where
  settings : Settings := {}
  queues : Table QueueId Enrolment := .empty
  immediate : ReadySets := { half := .immediate }
  delayed : ReadySets := { half := .delayed }
  /-- The levels with ready work. -/
  active : Ranking := .empty Level.count
  /-- How many selections there have been. -/
  selections : Nat := 0
  /-- How many of the last selections in a row took a delayed task past an immediate one. -/
  streak : Nat := 0
deriving DecidableEq

namespace Selector

instance : Inhabited Selector := ⟨{}⟩

/-- The ready sets of one half. -/
def sets (s : Selector) : Half → ReadySets
  | .immediate => s.immediate
  | .delayed => s.delayed

/-- The selector with other ready sets of one half. -/
def withSets (s : Selector) (h : Half) (r : ReadySets) : Selector :=
  match h with
  | .immediate => { s with immediate := r }
  | .delayed => { s with delayed := r }

/-- The key that level `l` gets when it is filled or served now. -/
def freshKey (s : Selector) (l : Level) : Int :=
  match l with
  | .control => minKey
  | .bestEffort => maxKey
  | _ => clampKey (min (s.selections : Int) maxKey + s.settings.tolerance.get l)

/-- Brings the ranking of levels up to date with a change of one set. -/
def apply (s : Selector) : Transition → Selector
  | .filled l =>
    if s.active.contains l.index then s
    else { s with active := (s.active.insert? l.index (s.freshKey l)).getD s.active }
  | .emptied l =>
    -- the other half may still have work at this level
    if s.immediate.isSetEmpty l && s.delayed.isSetEmpty l then
      { s with active := s.active.erase l.index }
    else s

/-! ### Changing one half of a queue -/

/-- Adds a queue to the set of a level for one half, in which its front task has the given stamp,
and brings the ranking up to date. -/
def addToHalf (s : Selector) (q : QueueId) (l : Level) (h : Half) (front : Stamp) : Selector :=
  let (t, r) := (s.sets h).add q l front
  t.toList.foldl apply (s.withSets h r)

/-- Takes a queue out of its set for one half and brings the ranking up to date. -/
def removeFromHalf (s : Selector) (q : QueueId) (h : Half) : Selector :=
  let (t, r) := (s.sets h).remove q
  t.toList.foldl apply (s.withSets h r)

/-- Moves a queue to the set of another level for one half, if it is in a set.  The ranking is told
of both levels, in the order in which the sets report. -/
def moveInHalf (s : Selector) (q : QueueId) (l : Level) (h : Half) : Selector :=
  let (ts, r) := (s.sets h).move q l
  ts.foldl apply (s.withSets h r)

/-- Adds the halves of a queue that hold tasks to the sets of its level. -/
def addToSets (s : Selector) (q : QueueId) (l : Level) (f : Fronts) : Selector :=
  let s := f.immediate.elim s (s.addToHalf q l .immediate)
  f.delayed.elim s (s.addToHalf q l .delayed)

/-- Takes a queue out of the sets of both halves. -/
def removeFromSets (s : Selector) (q : QueueId) : Selector :=
  (s.removeFromHalf q .immediate).removeFromHalf q .delayed

/-! ### Queues -/

/-- Enrols a queue at the standard level, enabled; a queue that is enrolled is left as it is. -/
def add (s : Selector) (q : QueueId) (f : Fronts) : Selector :=
  if s.queues.contains q then s
  else
    let s : Selector := { s with queues := s.queues.insert q ⟨.standard, true, f⟩ }
    s.addToSets q .standard f

/-- Strikes a queue off. -/
def remove (s : Selector) (q : QueueId) : Selector :=
  match s.queues.find? q with
  | none => s
  | some e =>
    let s : Selector := { s with queues := s.queues.erase q }
    if e.enabled then s.removeFromSets q else s

/-- Makes a disabled queue selectable again.  Answers whether there was such a queue. -/
def enable (s : Selector) (q : QueueId) : Bool × Selector :=
  match s.queues.find? q with
  | none => (false, s)
  | some e =>
    if e.enabled then (false, s)
    else
      let s : Selector := { s with queues := s.queues.insert q { e with enabled := true } }
      (true, s.addToSets q e.level e.fronts)

/-- Keeps an enabled queue from being selected. -/
def disable (s : Selector) (q : QueueId) : Selector :=
  match s.queues.find? q with
  | none => s
  | some e =>
    if e.enabled then
      let s : Selector := { s with queues := s.queues.insert q { e with enabled := false } }
      s.removeFromSets q
    else s

/-- Records another level for a queue.  Its halves keep the stamps of their fronts in the sets of
the new level, so it does not lose its turn to queues whose tasks became ready later. -/
def setLevel (s : Selector) (q : QueueId) (l : Level) : Selector :=
  match s.queues.find? q with
  | none => s
  | some e =>
    if e.level = l then s
    else
      let s : Selector := { s with queues := s.queues.insert q { e with level := l } }
      -- a disabled queue is in no set, and is added at this level when it is enabled
      if e.enabled then (s.moveInHalf q l .immediate).moveInHalf q l .delayed else s

/-- Records the front of one half of a queue, `none` if the half is empty now. -/
def changeFront (s : Selector) (q : QueueId) (h : Half) (front : Option Stamp) : Selector :=
  match s.queues.find? q with
  | none => s
  | some e =>
    let e : Enrolment := { e with fronts := e.fronts.set h front }
    let s : Selector := { s with queues := s.queues.insert q e }
    if e.enabled then
      match front with
      | none => s.removeFromHalf q h
      | some stamp =>
        -- a half that was empty is in no set yet
        if (s.sets h).contains q then s.withSets h ((s.sets h).changeFront q stamp)
        else s.addToHalf q e.level h stamp
    else s

/-- The queue is known. -/
def isEnrolled (s : Selector) (q : QueueId) : Bool := s.queues.contains q

/-- The queue is known and can be selected. -/
def isEnabled (s : Selector) (q : QueueId) : Bool := (s.queues.find? q).any (·.enabled)

/-- The level that is recorded for a queue. -/
def levelOf? (s : Selector) (q : QueueId) : Option Level := (s.queues.find? q).map (·.level)

/-- No enabled queue has ready work. -/
def isIdle (s : Selector) : Bool := s.active.isEmpty

end Selector

end Dispatch
