/-!
# Levels of urgency

Every queue stands at one of six levels, `control` being the most urgent and `bestEffort` the least.
`PerLevel α` holds one value for each level.
-/

namespace Dispatch

/-- How urgent the tasks of a queue are. -/
inductive Level where
  | control
  | highest
  | high
  | normal
  | low
  | bestEffort
deriving DecidableEq

namespace Level

/-- All levels, from the most to the least urgent. -/
def all : List Level := [control, highest, high, normal, low, bestEffort]

/-- The number of levels. -/
def count : Nat := 6

/-- The level of a queue for which none was chosen. -/
def standard : Level := normal

instance : Inhabited Level := ⟨standard⟩

/-- The rank of a level, zero for the most urgent. -/
def index : Level → Nat
  | control => 0
  | highest => 1
  | high => 2
  | normal => 3
  | low => 4
  | bestEffort => 5

/-- The level of that index, if there is one. -/
def ofIndex? (n : Nat) : Option Level := all[n]?

/-- The name of the level in texts. -/
def name : Level → String
  | control => "control"
  | highest => "highest"
  | high => "high"
  | normal => "normal"
  | low => "low"
  | bestEffort => "best_effort"

instance : Ord Level := ⟨fun a b => compare a.index b.index⟩

@[simp] theorem mem_all (l : Level) : l ∈ all := by cases l <;> decide

theorem index_lt_count (l : Level) : l.index < count := by cases l <;> decide

@[simp] theorem ofIndex?_index (l : Level) : ofIndex? l.index = some l := by cases l <;> rfl

theorem index_injective {a b : Level} (h : a.index = b.index) : a = b := by
  have := congrArg ofIndex? h
  simpa using this

@[simp] theorem index_inj {a b : Level} : a.index = b.index ↔ a = b :=
  ⟨index_injective, congrArg index⟩

end Level

/-- One value for each level. -/
structure PerLevel (α : Type) where
  control : α
  highest : α
  high : α
  normal : α
  low : α
  bestEffort : α
deriving DecidableEq

namespace PerLevel

variable {α : Type}

/-- The same value at every level. -/
def const (a : α) : PerLevel α := ⟨a, a, a, a, a, a⟩

/-- The value at one level. -/
def get (t : PerLevel α) : Level → α
  | .control => t.control
  | .highest => t.highest
  | .high => t.high
  | .normal => t.normal
  | .low => t.low
  | .bestEffort => t.bestEffort

/-- The values with the one at a level replaced. -/
def set (t : PerLevel α) (l : Level) (a : α) : PerLevel α :=
  match l with
  | .control => { t with control := a }
  | .highest => { t with highest := a }
  | .high => { t with high := a }
  | .normal => { t with normal := a }
  | .low => { t with low := a }
  | .bestEffort => { t with bestEffort := a }

/-- The values from the most to the least urgent level. -/
def toList (t : PerLevel α) : List α := Level.all.map t.get

@[simp] theorem get_const (a : α) (l : Level) : (const a).get l = a := by cases l <;> rfl

theorem get_set (t : PerLevel α) (l m : Level) (a : α) :
    (t.set l a).get m = if m = l then a else t.get m := by
  cases l <;> cases m <;> rfl

@[simp] theorem get_set_self (t : PerLevel α) (l : Level) (a : α) : (t.set l a).get l = a := by
  simp [get_set]

end PerLevel

end Dispatch
