/-!
# Tables

Finite maps with decidable equality of keys.  A table is a list of pairs in which no key occurs
twice.  Its view is `find?`: `find?_insert` and `find?_erase` say what the two updates do to it.
-/

namespace Dispatch

/-- A finite map from `κ` to `α`. -/
structure Table (κ α : Type) where
  entries : List (κ × α)
  nodup : (entries.map Prod.fst).Nodup

namespace Table

variable {κ α : Type} [DecidableEq κ]

instance [DecidableEq α] : DecidableEq (Table κ α) := fun s t =>
  decidable_of_iff (s.entries = t.entries) ⟨fun h => by cases s; cases t; congr, fun h => by rw [h]⟩

/-- The table without entries. -/
def empty : Table κ α := ⟨[], List.nodup_nil⟩

instance : Inhabited (Table κ α) := ⟨empty⟩

/-- The value under a key. -/
def find? (t : Table κ α) (k : κ) : Option α := (t.entries.find? (·.1 = k)).map Prod.snd

/-- There is a value under the key. -/
def contains (t : Table κ α) (k : κ) : Bool := (t.find? k).isSome

/-- How many keys have a value. -/
def size (t : Table κ α) : Nat := t.entries.length

/-- No key has a value. -/
def isEmpty (t : Table κ α) : Bool := t.entries.isEmpty

/-- The keys that have a value. -/
def keys (t : Table κ α) : List κ := t.entries.map Prod.fst

/-- Takes a key and its value out. -/
def erase (t : Table κ α) (k : κ) : Table κ α :=
  ⟨t.entries.filter (·.1 ≠ k), List.Nodup.sublist (List.filter_sublist.map _) t.nodup⟩

/-- Adds an entry, in place of the one that `k` had. -/
def insert (t : Table κ α) (k : κ) (a : α) : Table κ α :=
  ⟨(k, a) :: (t.erase k).entries, by
    refine List.nodup_cons.2 ⟨?_, (t.erase k).nodup⟩
    simp [erase]⟩

theorem find?_eq_some_iff {t : Table κ α} {k : κ} {a : α} :
    t.find? k = some a ↔ (k, a) ∈ t.entries := by
  obtain ⟨l, nd⟩ := t
  unfold find?
  induction l with
  | nil => simp
  | cons e l ih =>
      rw [List.map_cons, List.nodup_cons] at nd
      have ih := ih nd.2
      rw [List.find?_cons]
      by_cases h : e.1 = k
      · subst h
        have hn : (e.1, a) ∉ l := fun h => nd.1 (List.mem_map.2 ⟨_, h, rfl⟩)
        simp [hn, Prod.ext_iff, eq_comm]
      · simpa [h, Prod.ext_iff, Ne.symm h] using ih

@[simp] theorem find?_empty (k : κ) : (empty : Table κ α).find? k = none := rfl

theorem find?_erase (t : Table κ α) (k j : κ) :
    (t.erase k).find? j = if j = k then none else t.find? j := by
  unfold find? erase
  rw [List.find?_filter]
  split
  · rename_i h
    subst h
    simp [List.find?_eq_none]
  · rename_i h
    congr 2
    funext e
    by_cases he : e.1 = j
    · simp [he, h]
    · simp [he]

theorem find?_insert (t : Table κ α) (k j : κ) (a : α) :
    (t.insert k a).find? j = if j = k then some a else t.find? j := by
  have h : (t.insert k a).find? j = if k = j then some a else (t.erase k).find? j := by
    unfold insert find?
    simp only [List.find?_cons]
    by_cases hk : k = j <;> simp [hk]
  rw [h, find?_erase]
  by_cases hk : j = k
  · simp [hk]
  · have hk' : ¬ k = j := fun e => hk e.symm
    simp [hk, hk']

@[simp] theorem find?_insert_self (t : Table κ α) (k : κ) (a : α) :
    (t.insert k a).find? k = some a := by
  simp [find?_insert]

@[simp] theorem find?_erase_self (t : Table κ α) (k : κ) : (t.erase k).find? k = none := by
  simp [find?_erase]

end Table

end Dispatch
