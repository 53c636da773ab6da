/-!
# Rankings

A ranking orders some of the ids below a fixed capacity by a key, the smallest key first.  An entry
comes after the entries whose keys are equal to its own and that were there before it.  For each id
the ranking records at which position its entry lies, so that the entry is found without a search.
-/

namespace Dispatch

/-- Ids with keys, in ascending order of the keys. -/
structure Ranking where
  entries : List (Nat × Int)
  /-- For each id below the capacity, the position of its entry. -/
  places : List (Option Nat)
deriving DecidableEq

namespace Ranking

/-- The ranking without entries of the ids below `capacity`. -/
def empty (capacity : Nat) : Ranking := ⟨[], List.replicate capacity none⟩

instance : Inhabited Ranking := ⟨empty 0⟩

/-- Ids from here on cannot be ranked. -/
def capacity (r : Ranking) : Nat := r.places.length

/-- How many ids are ranked. -/
def size (r : Ranking) : Nat := r.entries.length

/-- No id is ranked. -/
def isEmpty (r : Ranking) : Bool := r.entries.isEmpty

/-- The position at which the entry of `id` lies. -/
def place? (r : Ranking) (id : Nat) : Option Nat := r.places[id]?.join

/-- The id is ranked. -/
def contains (r : Ranking) (id : Nat) : Bool := (r.place? id).isSome

/-- The key under which an id is ranked. -/
def keyOf? (r : Ranking) (id : Nat) : Option Int :=
  (r.place? id).bind fun i => r.entries[i]?.map Prod.snd

/-- The first entry, which has the smallest key. -/
def min? (r : Ranking) : Option (Nat × Int) := r.entries.head?

/-- Records the position of the entry at `i`. -/
def record (r : Ranking) (i : Nat) : Ranking :=
  match r.entries[i]? with
  | some e => { r with places := r.places.set e.1 (some i) }
  | none => r

/-- Records the positions of all entries from `i` on, which have shifted. -/
def recordFrom (r : Ranking) (i : Nat) : Ranking :=
  (List.range' i (r.entries.length - i)).foldl record r

/-- The position of a new entry with the given key: behind all that are no larger. -/
def position (r : Ranking) (key : Int) : Nat := (r.entries.takeWhile (·.2 ≤ key)).length

/-- Adds an entry for `id`, which has none yet.  There is no room for an id beyond the capacity. -/
def insert? (r : Ranking) (id : Nat) (key : Int) : Option Ranking :=
  if id < r.capacity then
    let i := r.position key
    some (({ r with entries := r.entries.insertIdx i (id, key) } : Ranking).recordFrom i)
  else none

/-- Takes the entry of `id` away; nothing changes if it has none. -/
def erase (r : Ranking) (id : Nat) : Ranking :=
  match r.place? id with
  | some i => (⟨r.entries.eraseIdx i, r.places.set id none⟩ : Ranking).recordFrom i
  | none => r

/-- Takes the entry of `id` away and answers the key that it had. -/
def remove (r : Ranking) (id : Nat) : Option Int × Ranking := (r.keyOf? id, r.erase id)

/-- Gives the entry of `id` a new key, behind all equal ones; nothing changes if it has none. -/
def changeKey (r : Ranking) (id : Nat) (key : Int) : Ranking :=
  if r.contains id then ((r.erase id).insert? id key).getD r else r

/-- Gives the first entry a new key. -/
def changeMinKey (r : Ranking) (key : Int) : Ranking :=
  match r.min? with
  | some e => r.changeKey e.1 key
  | none => r

end Ranking

end Dispatch
