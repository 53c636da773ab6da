import Dispatch.Collection.Table

/-!
# Keyed heaps

A binary min-heap of values with at most one value for each key.  The entries lie level by level in
an array, and a table records at which position each key lies, so that a value can be found,
replaced and removed by its key without a search.  Both are kept in step on every swap.

A replaced value moves up as far as it can and then down.  A removed entry is swapped with the last
one, which then moves up or down from the hole.  An entry moves up past a parent, or down past a
child, only when it is strictly out of order, and of two equal children the left one is preferred.
-/

namespace Dispatch

/-- A heap of values of type `V`, each under a key of type `κ`. -/
structure KeyedHeap (κ V : Type) where
  entries : Array (κ × V) := #[]
  positions : Table κ Nat := .empty
deriving DecidableEq

namespace KeyedHeap

variable {κ V : Type}

instance : Inhabited (KeyedHeap κ V) := ⟨{}⟩

/-- The position above `i`. -/
def parent (i : Nat) : Nat := (i - 1) / 2

/-- The left position below `i`. -/
def left (i : Nat) : Nat := 2 * i + 1

/-- The right position below `i`. -/
def right (i : Nat) : Nat := 2 * i + 2

theorem parent_lt {i : Nat} (h : i ≠ 0) : parent i < i := by
  unfold parent
  omega

/-- How many entries there are. -/
def size (h : KeyedHeap κ V) : Nat := h.entries.size

/-- There is no entry. -/
def isEmpty (h : KeyedHeap κ V) : Bool := h.entries.isEmpty

/-- The entry with the least value. -/
def min? (h : KeyedHeap κ V) : Option (κ × V) := h.entries[0]?

/-- The entries in the order of their positions. -/
def toList (h : KeyedHeap κ V) : List (κ × V) := h.entries.toList

section Keys

variable [DecidableEq κ]

/-- The key has an entry. -/
def contains (h : KeyedHeap κ V) (k : κ) : Bool := h.positions.contains k

/-- The value of a key, which is looked up by its position. -/
def get? (h : KeyedHeap κ V) (k : κ) : Option V :=
  (h.positions.find? k).bind fun i => h.entries[i]?.map Prod.snd

/-- Records the position of the entry at `i`. -/
def record (h : KeyedHeap κ V) (i : Nat) : KeyedHeap κ V :=
  match h.entries[i]? with
  | some e => { h with positions := h.positions.insert e.1 i }
  | none => h

/-- Swaps the entries at `i` and `j` and records where they lie now. -/
def swap (h : KeyedHeap κ V) (i j : Nat) : KeyedHeap κ V :=
  (({ h with entries := h.entries.swapIfInBounds i j } : KeyedHeap κ V).record i).record j

@[simp] theorem entries_record (h : KeyedHeap κ V) (i : Nat) :
    (h.record i).entries = h.entries := by
  unfold record
  split <;> rfl

@[simp] theorem entries_swap (h : KeyedHeap κ V) (i j : Nat) :
    (h.swap i j).entries = h.entries.swapIfInBounds i j := by
  simp [swap]

@[simp] theorem size_swap (h : KeyedHeap κ V) (i j : Nat) : (h.swap i j).size = h.size := by
  simp [size]

end Keys

section Comparison

variable [LE V] [DecidableLE V]

/-- The value at `i` is at most the value at `j`; nothing is claimed of a position outside. -/
def ordered (h : KeyedHeap κ V) (i j : Nat) : Bool :=
  match h.entries[i]?, h.entries[j]? with
  | some x, some y => decide (x.2 ≤ y.2)
  | _, _ => true

/-- The position below `i` with the smaller value. -/
def smallerChild (h : KeyedHeap κ V) (i : Nat) : Nat :=
  if right i < h.size && !h.ordered (left i) (right i) then right i else left i

theorem lt_smallerChild (h : KeyedHeap κ V) (i : Nat) : i < h.smallerChild i := by
  unfold smallerChild left right
  split <;> omega

end Comparison

section Sifting

variable [DecidableEq κ] [LE V] [DecidableLE V]

/-- Moves the entry at `i` up until its parent is no larger, and answers where it came to lie. -/
def siftUp (h : KeyedHeap κ V) (i : Nat) : KeyedHeap κ V × Nat :=
  if i = 0 then (h, i)
  else if h.ordered (parent i) i then (h, i)
  else (h.swap i (parent i)).siftUp (parent i)
termination_by i
decreasing_by exact parent_lt (by assumption)

/-- Moves the entry at `i` down until no child is smaller. -/
def siftDown (h : KeyedHeap κ V) (i : Nat) : KeyedHeap κ V :=
  if left i < h.size then
    let c := h.smallerChild i
    if h.ordered i c then h else (h.swap i c).siftDown c
  else h
termination_by h.size - i
decreasing_by
  have := h.lt_smallerChild i
  have : i < h.size := by unfold left at *; omega
  simp only [size_swap]
  omega

/-- Moves the entry at `i` to where its value belongs. -/
def restore (h : KeyedHeap κ V) (i : Nat) : KeyedHeap κ V :=
  let (h, j) := h.siftUp i
  h.siftDown j

/-- Gives `k` the value `v`, in place of the one that it had. -/
def insert (h : KeyedHeap κ V) (k : κ) (v : V) : KeyedHeap κ V :=
  match h.positions.find? k with
  | some i => ({ h with entries := h.entries.setIfInBounds i (k, v) } : KeyedHeap κ V).restore i
  | none =>
    (({ entries := h.entries.push (k, v), positions := h.positions.insert k h.size } :
      KeyedHeap κ V).siftUp h.size).1

/-- Takes the entry at `i` away: the last entry moves into its place. -/
def eraseAt (h : KeyedHeap κ V) (k : κ) (i : Nat) : KeyedHeap κ V :=
  let last := h.size - 1
  let h : KeyedHeap κ V := { h with positions := h.positions.erase k }
  let h : KeyedHeap κ V :=
    if i = last then h
    else ({ h with entries := h.entries.swapIfInBounds i last } : KeyedHeap κ V).record i
  let h : KeyedHeap κ V := { h with entries := h.entries.pop }
  -- the entry that moved in comes from another branch, so it may have to go up as well as down
  if i < h.size then h.restore i else h

/-- Removes `k` and its value; nothing changes if it has none. -/
def erase (h : KeyedHeap κ V) (k : κ) : KeyedHeap κ V :=
  match h.positions.find? k with
  | some i => h.eraseAt k i
  | none => h

/-- Removes `k` and answers the value that it had. -/
def remove (h : KeyedHeap κ V) (k : κ) : Option V × KeyedHeap κ V := (h.get? k, h.erase k)

/-- Removes the entry with the least value and answers it. -/
def pop (h : KeyedHeap κ V) : Option (κ × V) × KeyedHeap κ V :=
  match h.min? with
  | some e => (some e, h.erase e.1)
  | none => (none, h)

end Sifting

end KeyedHeap

end Dispatch
