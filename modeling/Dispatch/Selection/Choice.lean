import Dispatch.Selection.Selector

/-!
# Selection

The selector decides which half of which queue the next task is taken from: it serves the level with
the smallest key, or, if only immediate tasks are wanted, the most urgent level that has one.

Within the level the task that became ready first wins, of whichever half it is, except that after
`Settings.maxStreak` delayed tasks in a row that were taken past an immediate one, an immediate task
is taken.
-/

namespace Dispatch

/-- Which halves a selection considers. -/
inductive Scope where
  | bothHalves
  | immediateOnly
deriving DecidableEq

namespace Selector

/-- The level that the next selection serves. -/
def nextLevel? (s : Selector) : Scope → Option Level
  | .bothHalves => s.active.min?.bind fun e => Level.ofIndex? e.1
  | .immediateOnly => Level.all.find? fun l => !s.immediate.isSetEmpty l

/-- The half that is served at level `l`. -/
def choose (s : Selector) (l : Level) (scope : Scope) : Option Pick :=
  let immediate := s.immediate.oldest? l
  let delayed := s.delayed.oldest? l
  let takeImmediate := immediate.map fun e => (⟨e.1, .immediate⟩ : Pick)
  let takeDelayed := delayed.map fun e => (⟨e.1, .delayed⟩ : Pick)
  match scope with
  | .immediateOnly => takeImmediate
  | .bothHalves =>
    match immediate, delayed with
    | some i, some d =>
      -- the older front, unless delayed ones have been preferred as often as is allowed
      if s.settings.maxStreak ≤ s.streak || decide (i.2 ≤ d.2) then takeImmediate else takeDelayed
    | some _, none => takeImmediate
    | none, _ => takeDelayed

/-- Chooses the half whose front task is to run next, and counts the selection. -/
def select (s : Selector) (scope : Scope) : Option Pick × Selector :=
  match s.nextLevel? scope with
  | none => (none, s)
  | some l =>
    match s.choose l scope with
    | none => (none, s)
    | some pick =>
      -- an immediate task was ready at the level and is left behind
      let passedOver := pick.half = .delayed && !s.immediate.isSetEmpty l
      let s : Selector :=
        { s with
          streak := if passedOver then s.streak + 1 else 0
          selections := s.selections + 1 }
      (some pick, { s with active := s.active.changeKey l.index (s.freshKey l) })

/-- Selects `n` times in a row. -/
def selectTimes (s : Selector) (scope : Scope) : Nat → List (Option Pick) × Selector
  | 0 => ([], s)
  | n + 1 =>
    let (pick, s) := s.select scope
    let (picks, s) := s.selectTimes scope n
    (pick :: picks, s)

/-- Selects a half and records `next` as its front, as when its front task is taken. -/
def serve (s : Selector) (scope : Scope) (next : Option Stamp) : Option Pick × Selector :=
  match s.select scope with
  | (none, s) => (none, s)
  | (some pick, s) => (some pick, s.changeFront pick.queue pick.half next)

end Selector

end Dispatch
