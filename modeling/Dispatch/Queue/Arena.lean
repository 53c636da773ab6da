import Dispatch.Queue.Id

/-!
# Arenas

An arena keeps values in numbered slots and names each by a `QueueId`.  A freed slot goes on top of
a stack of free slots, from which the next value is placed; its version is raised by two when it is
freed, so an id that was freed finds nothing ever again.  The view of an arena is `get?`, and
`get?_set`, `get?_erase` and `get?_insert` say what the operations do to it.
-/

namespace Dispatch

/-- A place for one value.  The version is that of the occupant, or of the next one. -/
structure Slot (α : Type) where
  version : Nat := 1
  occupant : Option α := none
deriving DecidableEq

/-- Values in slots.  The slot at index `i` has the number `i + 1`. -/
structure Arena (α : Type) where
  slots : List (Slot α) := []
  /-- The indices of the free slots, the one freed last first. -/
  free : List Nat := []
deriving DecidableEq

namespace Arena

variable {α : Type}

instance : Inhabited (Arena α) := ⟨{}⟩

/-- The slot with a given number. -/
def slot? (a : Arena α) : Nat → Option (Slot α)
  | 0 => none
  | i + 1 => a.slots[i]?

/-- The value that an id names, if its slot has the version of the id and is not free. -/
def get? (a : Arena α) (id : QueueId) : Option α :=
  (a.slot? id.slot).bind fun s => if s.version = id.version then s.occupant else none

/-- Replaces the slot at an index. -/
def put (a : Arena α) (i : Nat) (s : Slot α) : Arena α := { a with slots := a.slots.set i s }

/-- Puts a value into a fresh slot and names it. -/
def append (a : Arena α) (x : α) : QueueId × Arena α :=
  (⟨a.slots.length + 1, 1⟩, { a with slots := a.slots ++ [⟨1, some x⟩] })

/-- Puts a value into the slot freed last, or into a fresh one, and names it. -/
def insert (a : Arena α) (x : α) : QueueId × Arena α :=
  match a.free with
  | [] => a.append x
  | i :: rest =>
    match a.slots[i]? with
    | some ⟨v, none⟩ => (⟨i + 1, v⟩, { a.put i ⟨v, some x⟩ with free := rest })
    | _ => a.append x

/-- Replaces the value that `id` names; without one, nothing changes. -/
def set (a : Arena α) (id : QueueId) (x : α) : Arena α :=
  match a.get? id with
  | some _ => a.put (id.slot - 1) ⟨id.version, some x⟩
  | none => a

/-- Frees the slot that `id` names; without a value in it, nothing changes. -/
def erase (a : Arena α) (id : QueueId) : Arena α :=
  match a.get? id with
  | some _ =>
    -- the next value in this slot gets the raised version, so `id` stays without one
    { a.put (id.slot - 1) ⟨id.version + 2, none⟩ with free := (id.slot - 1) :: a.free }
  | none => a

/-- The values with their ids, in the order of the slots. -/
def toList (a : Arena α) : List (QueueId × α) :=
  a.slots.zipIdx.filterMap fun (s, i) => s.occupant.map fun x => (⟨i + 1, s.version⟩, x)

/-! ### The view -/

theorem get?_eq_some_iff {a : Arena α} {id : QueueId} {x : α} :
    a.get? id = some x ↔ ∃ i, id.slot = i + 1 ∧ a.slots[i]? = some ⟨id.version, some x⟩ := by
  obtain ⟨n, v⟩ := id
  cases n with
  | zero => simp [get?, slot?]
  | succ i =>
    constructor
    · intro h
      simp only [get?, slot?, Option.bind_eq_some_iff] at h
      obtain ⟨⟨w, o⟩, hs, ho⟩ := h
      split at ho
      · rename_i hv
        simp only at hv ho
        subst hv ho
        exact ⟨i, rfl, hs⟩
      · exact absurd ho (by simp)
    · rintro ⟨j, hj, hs⟩
      simp only [Nat.add_right_cancel_iff] at hj
      subst hj
      simp [get?, slot?, hs]

theorem get?_of_slot {a : Arena α} {i : Nat} {s : Slot α} (h : a.slots[i]? = some s) (v : Nat) :
    a.get? ⟨i + 1, v⟩ = if s.version = v then s.occupant else none := by
  simp [get?, slot?, h]

/-- A change of the free list alone is not seen. -/
theorem get?_withFree (a : Arena α) (f : List Nat) (id : QueueId) :
    ({ a with free := f } : Arena α).get? id = a.get? id := rfl

/-- What an arena holds after one of its slots has been replaced. -/
theorem get?_put {a : Arena α} {i : Nat} {s : Slot α} (hi : i < a.slots.length) (id : QueueId) :
    (a.put i s).get? id =
      if id.slot = i + 1 then (if s.version = id.version then s.occupant else none)
      else a.get? id := by
  obtain ⟨n, v⟩ := id
  cases n with
  | zero => simp [get?, slot?]
  | succ j =>
    by_cases h : j = i
    · subst h
      simp [get?, slot?, put, hi]
    · have h' : ¬ i = j := fun e => h e.symm
      simp [get?, slot?, put, h, h']

/-- A slot that is given an occupant, in place of one of the same version or of none, is seen under
that version only. -/
theorem get?_put_some {a : Arena α} {i v : Nat} {o : Option α} (hs : a.slots[i]? = some ⟨v, o⟩)
    (x : α) (j : QueueId) :
    (a.put i ⟨v, some x⟩).get? j = if j = ⟨i + 1, v⟩ then some x else a.get? j := by
  have hlt : i < a.slots.length := (List.getElem?_eq_some_iff.1 hs).1
  obtain ⟨m, w⟩ := j
  rw [get?_put hlt]
  by_cases hm : m = i + 1
  · subst hm
    rw [get?_of_slot hs]
    by_cases hw : w = v
    · simp [hw]
    · have hw' : ¬ v = w := fun e => hw e.symm
      simp [hw, hw']
  · simp [hm]

theorem get?_set (a : Arena α) (id j : QueueId) (x : α) :
    (a.set id x).get? j = if j = id ∧ (a.get? id).isSome then some x else a.get? j := by
  unfold set
  cases h : a.get? id with
  | none => simp
  | some y =>
    obtain ⟨i, hi, hs⟩ := get?_eq_some_iff.1 h
    obtain ⟨n, v⟩ := id
    simp only at hi hs
    subst hi
    simp [get?_put_some hs]

theorem get?_erase (a : Arena α) (id j : QueueId) :
    (a.erase id).get? j = if j = id then none else a.get? j := by
  unfold erase
  cases h : a.get? id with
  | none =>
    by_cases hj : j = id
    · simp [hj, h]
    · simp [hj]
  | some y =>
    obtain ⟨i, hi, hs⟩ := get?_eq_some_iff.1 h
    have hlt : i < a.slots.length := (List.getElem?_eq_some_iff.1 hs).1
    obtain ⟨n, v⟩ := id
    obtain ⟨m, w⟩ := j
    simp only at hi hs
    subst hi
    simp only [Nat.add_sub_cancel, get?_withFree, get?_put hlt, QueueId.mk.injEq]
    by_cases hm : m = i + 1
    · subst hm
      rw [get?_of_slot hs]
      by_cases hw : w = v
      · simp [hw]
      · have hw' : ¬ v = w := fun e => hw e.symm
        simp [hw, hw']
    · simp [hm]

theorem get?_append (a : Arena α) (x : α) (j : QueueId) :
    (a.append x).2.get? j = if j = (a.append x).1 then some x else a.get? j := by
  obtain ⟨m, w⟩ := j
  cases m with
  | zero => simp [append, get?, slot?]
  | succ i =>
    simp only [append, get?, slot?, QueueId.mk.injEq, Nat.add_right_cancel_iff]
    rcases Nat.lt_trichotomy i a.slots.length with h | h | h
    · rw [List.getElem?_append_left h]
      simp [Nat.ne_of_lt h]
    · subst h
      by_cases hw : 1 = w
      · simp [← hw]
      · have hw' : ¬ w = 1 := fun e => hw e.symm
        simp [hw, hw']
    · have h₁ : (a.slots ++ [⟨1, some x⟩])[i]? = none :=
        List.getElem?_eq_none (by simp only [List.length_append, List.length_singleton]; omega)
      have h₂ : a.slots[i]? = none := List.getElem?_eq_none (Nat.le_of_lt h)
      simp [h₁, h₂, Nat.ne_of_gt h]

/-- A new value is seen under the id that it was given, and nothing else changes. -/
theorem get?_insert (a : Arena α) (x : α) (j : QueueId) :
    (a.insert x).2.get? j = if j = (a.insert x).1 then some x else a.get? j := by
  cases hf : a.free with
  | nil => simpa only [insert, hf] using get?_append a x j
  | cons i rest =>
    cases hs : a.slots[i]? with
    | none => simpa only [insert, hf, hs] using get?_append a x j
    | some s =>
      obtain ⟨v, o⟩ := s
      cases o with
      | some y => simpa only [insert, hf, hs] using get?_append a x j
      | none => simpa only [insert, hf, hs, get?_withFree] using get?_put_some hs x j

/-- The id that a new value is given named nothing before. -/
theorem get?_fst_insert (a : Arena α) (x : α) : a.get? (a.insert x).1 = none := by
  have fresh : a.get? (a.append x).1 = none := by simp [append, get?, slot?]
  cases hf : a.free with
  | nil => simpa only [insert, hf] using fresh
  | cons i rest =>
    cases hs : a.slots[i]? with
    | none => simpa only [insert, hf, hs] using fresh
    | some s =>
      obtain ⟨v, o⟩ := s
      cases o with
      | some y => simpa only [insert, hf, hs] using fresh
      | none => simp [insert, hf, hs, get?_of_slot hs]

end Arena

end Dispatch
