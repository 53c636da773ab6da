import Dispatch.Collection.KeyedHeap
import Dispatch.Queue.Half
import Dispatch.Queue.Level

/-!
# Ready sets

`ReadySets` keeps, for one of the two halves that queues have, the queues in which it holds tasks: a
set for each level, ordered by the stamp of the front task.  Whoever needs to know at which levels
there is work folds the transitions that the operations report.
-/

namespace Dispatch

/-- The set of a level gained its first member or lost its last one. -/
inductive Transition where
  | filled (level : Level)
  | emptied (level : Level)
deriving DecidableEq

/-- The queues with tasks in one half, by level and stamp. -/
structure ReadySets where
  half : Half
  sets : PerLevel (KeyedHeap QueueId Stamp) := .const {}
  membership : Table QueueId Level := .empty
deriving DecidableEq

namespace ReadySets

/-- The queue is in the set of some level. -/
def contains (s : ReadySets) (q : QueueId) : Bool := s.membership.contains q

/-- The level in whose set the queue is. -/
def levelOf? (s : ReadySets) (q : QueueId) : Option Level := s.membership.find? q

/-- How many queues are in the sets of all levels together. -/
def size (s : ReadySets) : Nat := s.membership.size

/-- No queue is in a set. -/
def isEmpty (s : ReadySets) : Bool := s.membership.isEmpty

/-- No queue is in the set of the level. -/
def isSetEmpty (s : ReadySets) (l : Level) : Bool := (s.sets.get l).isEmpty

/-- The queue of level `l` whose front task became ready first. -/
def oldest? (s : ReadySets) (l : Level) : Option (QueueId × Stamp) := (s.sets.get l).min?

/-- Adds a queue with the stamp of its front task; a member is left as it is. -/
def add (s : ReadySets) (q : QueueId) (l : Level) (front : Stamp) :
    Option Transition × ReadySets :=
  if s.contains q then (none, s)
  else
    (if s.isSetEmpty l then some (.filled l) else none,
      { s with
        sets := s.sets.set l ((s.sets.get l).insert q front)
        membership := s.membership.insert q l })

/-- Takes a queue out; nothing changes if it is no member. -/
def remove (s : ReadySets) (q : QueueId) : Option Transition × ReadySets :=
  match s.levelOf? q with
  | some l =>
    let set := (s.sets.get l).erase q
    (if set.isEmpty then some (.emptied l) else none,
      { s with sets := s.sets.set l set, membership := s.membership.erase q })
  | none => (none, s)

/-- Records a new front stamp of a member. -/
def changeFront (s : ReadySets) (q : QueueId) (front : Stamp) : ReadySets :=
  match s.levelOf? q with
  | some l => { s with sets := s.sets.set l ((s.sets.get l).insert q front) }
  | none => s

/-- Moves a member to another level with the front stamp that it has. -/
def move (s : ReadySets) (q : QueueId) (l : Level) : List Transition × ReadySets :=
  match s.levelOf? q with
  | none => ([], s)
  | some old =>
    if old = l then ([], s)
    else
      match (s.sets.get old).get? q with
      | none => ([], s)
      | some front =>
        -- whoever folds the reports hears of the level that is left before the one that is entered
        let (out, s) := s.remove q
        let (into, s) := s.add q l front
        (out.toList ++ into.toList, s)

end ReadySets

end Dispatch
