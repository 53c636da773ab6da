import Dispatch.Collection.Ranking
import Mathlib.Data.List.InsertIdx
import Mathlib.Tactic.SplitIfs

/-!
# Rankings in place

A shelf keeps a ranking in three arrays of fixed size: the keys, the ids beside them, and for each
id the position of its entry.  An entry finds or leaves its place by shifts of those behind it, one
by one.  Every access to an array is checked, and an operation that would reach outside has no
answer.

While entries are shifted there is a gap between them.  `Holds` says which entry lies at which
position and that the positions of the ids say the same, and a shift moves the gap by one
(`Holds.move`).  So a shelf that shows a list shows it with one more entry after `insert?`, and with
one less after `erase?`, and no access is outside.
-/

namespace Dispatch

/-- A ranking of ids below the capacity, in arrays. -/
structure Shelf (capacity : Nat) where
  keys : Vector Int capacity := .replicate capacity 0
  ids : Vector Nat capacity := .replicate capacity 0
  /-- For each id the position of its entry. -/
  places : Vector (Option Nat) capacity := .replicate capacity none
  /-- What lies from this position on is not an entry. -/
  count : Nat := 0

namespace Shelf

variable {capacity : Nat}

/-- The entry at a place, if both arrays reach that far. -/
def entry? (s : Shelf capacity) (i : Nat) : Option (Nat × Int) := do
  let id ← s.ids[i]?
  let key ← s.keys[i]?
  return (id, key)

/-- An id beyond the capacity has no position. -/
def place? (s : Shelf capacity) (id : Nat) : Option Nat := s.places[id]?.join

/-- The id is on the shelf. -/
def contains (s : Shelf capacity) (id : Nat) : Bool := (s.place? id).isSome

/-- There are two ways to have no key: the position is outside (`none`), or there is no position. -/
def keyOf? (s : Shelf capacity) (id : Nat) : Option (Option Int) :=
  match s.place? id with
  | none => some none
  | some i => do
    let key ← s.keys[i]?
    return some key

/-- The first entry, if the shelf is not empty. -/
def min? (s : Shelf capacity) : Option (Option (Nat × Int)) :=
  if s.count = 0 then some none
  else do
    let e ← s.entry? 0
    return some e

/-- The entries from the first place on, if there are no more of them than places. -/
def toList? (s : Shelf capacity) : Option (List (Nat × Int)) :=
  if s.count ≤ capacity then
    some ((s.ids.toList.take s.count).zip (s.keys.toList.take s.count))
  else none

/-- The position of a new entry with the given key: behind all that are no larger. -/
def position? (s : Shelf capacity) (key : Int) : Option Nat :=
  if s.count ≤ capacity then some ((s.keys.toList.take s.count).takeWhile (· ≤ key)).length
  else none

/-- Writes an entry and its position. -/
def put? (s : Shelf capacity) (e : Nat × Int) (i : Nat) : Option (Shelf capacity) :=
  if inside : i < capacity ∧ e.1 < capacity then
    some { s with
      keys := s.keys.set i e.2 inside.1
      ids := s.ids.set i e.1 inside.1
      places := s.places.set e.1 (some i) inside.2 }
  else none

/-- Writes the entry at `i` once more at `j`. -/
def move? (s : Shelf capacity) (i j : Nat) : Option (Shelf capacity) := do
  let e ← s.entry? i
  s.put? e j

/-- Shifts the `n` entries from `i` on away from the front, the last one first. -/
def shiftBack? (i : Nat) : Nat → Shelf capacity → Option (Shelf capacity)
  | 0, s => some s
  | n + 1, s => do
    let s ← s.move? (i + n) (i + n + 1)
    shiftBack? i n s

/-- Shifts the `n` entries behind `i` towards the front, the first one first. -/
def shiftForth? : Nat → Nat → Shelf capacity → Option (Shelf capacity)
  | _, 0, s => some s
  | i, n + 1, s => do
    let s ← s.move? (i + 1) i
    shiftForth? (i + 1) n s

/-- Adds an entry for `id`, which has none yet. -/
def insert? (s : Shelf capacity) (id : Nat) (key : Int) : Option (Shelf capacity) := do
  let i ← s.position? key
  let s ← shiftBack? i (s.count - i) s
  let s ← s.put? (id, key) i
  return { s with count := s.count + 1 }

/-- The id has no position any more. -/
def forget (s : Shelf capacity) (id : Nat) : Shelf capacity :=
  { s with places := s.places.setIfInBounds id none }

/-- Takes the entry of `id` away and answers the key that it had; nothing changes if it has none. -/
def erase? (s : Shelf capacity) (id : Nat) : Option (Option Int × Shelf capacity) :=
  match s.place? id with
  | none => some (none, s)
  | some i => do
    let key ← s.keys[i]?
    let s ← shiftForth? i (s.count - (i + 1)) (s.forget id)
    return (some key, { s with count := s.count - 1 })

/-- Gives the entry of `id` a new key, behind all equal ones; nothing changes if it has none. -/
def changeKey? (s : Shelf capacity) (id : Nat) (key : Int) : Option (Shelf capacity) := do
  let (old, s) ← s.erase? id
  if old.isSome then s.insert? id key else return s

/-- Gives the first entry a new key. -/
def changeMinKey? (s : Shelf capacity) (key : Int) : Option (Shelf capacity) := do
  match ← s.min? with
  | some e => s.changeKey? e.1 key
  | none => return s

/-! ### What lies where -/

variable {s : Shelf capacity} {l : List (Nat × Int)} {m m' : Nat → Option (Nat × Int)}
  {e : Nat × Int} {id i j : Nat} {key : Int}

theorem entry?_eq_some_iff :
    s.entry? i = some e ↔ s.ids[i]? = some e.1 ∧ s.keys[i]? = some e.2 := by
  unfold entry?
  cases s.ids[i]? <;> cases s.keys[i]? <;> simp [Prod.ext_iff]

theorem lt_of_entry? (h : s.entry? i = some e) : i < capacity :=
  (Vector.getElem?_eq_some_iff.1 (entry?_eq_some_iff.1 h).1).1

theorem lt_of_place? (h : s.place? id = some i) : id < capacity := by
  by_contra outside
  unfold place? at h
  rw [Vector.getElem?_eq_none (Nat.le_of_not_lt outside)] at h
  cases h

/-- At each position lies the entry that `m` names, and these are the positions of the ids. -/
structure Holds (s : Shelf capacity) (m : Nat → Option (Nat × Int)) : Prop where
  entry : ∀ {i e}, m i = some e → s.entry? i = some e
  place : ∀ {id i}, s.place? id = some i ↔ ∃ key, m i = some (id, key)

theorem Holds.lt (h : s.Holds m) (he : m i = some e) : i < capacity := lt_of_entry? (h.entry he)

theorem Holds.id_lt (h : s.Holds m) (he : m i = some e) : e.1 < capacity :=
  lt_of_place? (h.place.2 ⟨e.2, he⟩)

theorem Holds.unique (h : s.Holds m) {e' : Nat × Int} (he : m i = some e) (he' : m j = some e')
    (same : e.1 = e'.1) : i = j := by
  have first : s.place? e.1 = some i := h.place.2 ⟨e.2, he⟩
  have second : s.place? e'.1 = some j := h.place.2 ⟨e'.2, he'⟩
  rw [same] at first
  exact Option.some.inj (first.symm.trans second)

theorem Holds.put (h : s.Holds m) (free : m i = none) (inside : i < capacity)
    (id_inside : e.1 < capacity) (here : m' i = some e)
    (elsewhere : ∀ k ≠ i, ∀ e', m' k = some e' ↔ m k = some e' ∧ e'.1 ≠ e.1) :
    ∃ s', s.put? e i = some s' ∧ s'.count = s.count ∧ s'.Holds m' := by
  refine ⟨_, dif_pos ⟨inside, id_inside⟩, rfl, fun {k e'} he' => ?_, fun {id k} => ?_⟩
  · rw [entry?_eq_some_iff, Vector.getElem?_set, Vector.getElem?_set]
    by_cases hk : k = i
    · rw [hk, here] at he'
      rw [hk, if_pos rfl, if_pos rfl, Option.some.inj he']
      exact ⟨rfl, rfl⟩
    · rw [if_neg (Ne.symm hk), if_neg (Ne.symm hk), ← entry?_eq_some_iff]
      exact h.entry ((elsewhere k hk e').1 he').1
  · unfold place?
    rw [Vector.getElem?_set]
    by_cases hid : id = e.1
    · rw [if_pos hid.symm, Option.join_some, hid]
      by_cases hk : k = i
      · rw [hk, here]
        exact ⟨fun _ => ⟨e.2, rfl⟩, fun _ => rfl⟩
      · refine ⟨fun hi => absurd (Option.some.inj hi).symm hk, fun ⟨key, hkey⟩ => ?_⟩
        exact absurd rfl ((elsewhere k hk _).1 hkey).2
    · rw [if_neg (Ne.symm hid)]
      refine h.place.trans (exists_congr fun key => ?_)
      by_cases hk : k = i
      · rw [hk, free, here]
        refine ⟨nofun, fun some_eq => ?_⟩
        exact absurd (congrArg Prod.fst (Option.some.inj some_eq)).symm hid
      · rw [elsewhere k hk]
        exact ⟨fun hkey => ⟨hkey, hid⟩, And.left⟩

/-- An entry can be moved to a free position. -/
theorem Holds.move (h : s.Holds m) (he : m i = some e) (free : m j = none) (inside : j < capacity)
    (here : m' j = some e) (elsewhere : ∀ k ≠ j, m' k = if k = i then none else m k) :
    ∃ s', s.move? i j = some s' ∧ s'.count = s.count ∧ s'.Holds m' := by
  unfold move?
  rw [h.entry he]
  refine h.put free inside (h.id_lt he) here fun k hk e' => ?_
  rw [elsewhere k hk]
  by_cases hki : k = i
  · rw [if_pos hki, hki, he]
    refine ⟨nofun, fun ⟨same, other⟩ => ?_⟩
    exact absurd (congrArg Prod.fst (Option.some.inj same)).symm other
  · rw [if_neg hki]
    exact ⟨fun he' => ⟨he', fun same => hki (h.unique he' he same)⟩, And.left⟩

theorem Holds.forget (h : s.Holds m) (he : m i = some (id, key))
    (elsewhere : ∀ k, m' k = if k = i then none else m k) : (s.forget id).Holds m' := by
  have kept : ∀ {k e'}, m' k = some e' ↔ m k = some e' ∧ k ≠ i := by
    intro k e'
    rw [elsewhere]
    by_cases hk : k = i <;> simp [hk]
  refine ⟨fun he' => h.entry (kept.1 he').1, fun {id' k} => ?_⟩
  simp only [kept]
  unfold place? Shelf.forget
  by_cases same : id' = id
  · rw [same, Vector.getElem?_setIfInBounds_self_of_lt (h.id_lt he)]
    refine ⟨nofun, fun ⟨key', hkey, other⟩ => ?_⟩
    exact absurd (h.unique hkey he rfl) other
  · rw [Vector.getElem?_setIfInBounds_ne (Ne.symm same)]
    refine h.place.trans (exists_congr fun key' => ⟨fun hkey => ⟨hkey, ?_⟩, And.left⟩)
    rintro rfl
    rw [he] at hkey
    exact same (congrArg Prod.fst (Option.some.inj hkey)).symm

/-! ### The gap -/

/-- The entries of a list, those from `g` on one further back. -/
def gapped (l : List (Nat × Int)) (g i : Nat) : Option (Nat × Int) :=
  if i < g then l[i]? else if i = g then none else l[i - 1]?

theorem gapped_at (l : List (Nat × Int)) (g : Nat) : gapped l g g = none := by
  simp [gapped]

theorem gapped_before (l : List (Nat × Int)) (g : Nat) : gapped l (g + 1) g = l[g]? := by
  simp [gapped]

theorem gapped_behind (l : List (Nat × Int)) (g : Nat) : gapped l g (g + 1) = l[g]? := by
  unfold gapped
  rw [if_neg (by omega), if_neg (by omega), Nat.add_sub_cancel]

theorem mem_of_gapped (h : gapped l j i = some e) : e ∈ l := by
  unfold gapped at h
  split_ifs at h
  · exact List.mem_of_getElem? h
  · exact List.mem_of_getElem? h

/-- Neighbouring gaps differ in the entry between them only. -/
theorem gapped_succ (l : List (Nat × Int)) {g i : Nat} (hg : i ≠ g) (hg' : i ≠ g + 1) :
    gapped l (g + 1) i = gapped l g i := by
  unfold gapped
  by_cases h : i < g
  · rw [if_pos h, if_pos (Nat.lt_succ_of_lt h)]
  · rw [if_neg h, if_neg hg, if_neg (by omega), if_neg hg']

theorem gapped_length (l : List (Nat × Int)) : gapped l l.length = (l[·]?) := by
  funext i
  unfold gapped
  split_ifs with h h'
  · rfl
  · rw [h', List.getElem?_eq_none (Nat.le_refl _)]
  · rw [List.getElem?_eq_none (by omega), List.getElem?_eq_none (by omega)]

theorem getElem?_insertIdx_of_ne (e : Nat × Int) (hi : i ≠ j) :
    (l.insertIdx i e)[j]? = gapped l i j := by
  unfold gapped
  rw [List.getElem?_insertIdx, if_neg (Ne.symm hi), if_neg (Ne.symm hi)]

theorem gapped_eraseIdx (l : List (Nat × Int)) (i j : Nat) :
    gapped (l.eraseIdx i) i j = if j = i then none else l[j]? := by
  unfold gapped
  rw [List.getElem?_eraseIdx, List.getElem?_eraseIdx]
  rcases Nat.lt_trichotomy j i with before | rfl | behind
  · rw [if_pos before, if_pos before, if_neg (Nat.ne_of_lt before)]
  · rw [if_neg (Nat.lt_irrefl j), if_pos rfl, if_pos rfl]
  · rw [if_neg (Nat.lt_asymm behind), if_neg (Nat.ne_of_gt behind), if_neg (Nat.ne_of_gt behind),
      if_neg (by omega), Nat.sub_add_cancel (Nat.zero_lt_of_lt behind)]

/-- The entry in front of the gap is moved behind it. -/
theorem Holds.moveBack (h : s.Holds (gapped l (i + 1))) (hi : i < l.length)
    (room : l.length < capacity) :
    ∃ s', s.move? i (i + 1) = some s' ∧ s'.count = s.count ∧ s'.Holds (gapped l i) := by
  have he : l[i]? = some l[i] := List.getElem?_eq_getElem hi
  refine h.move ((gapped_before l i).trans he) (gapped_at l _) (Nat.lt_of_le_of_lt hi room)
    ((gapped_behind l i).trans he) fun k hk => ?_
  split_ifs with hki
  · rw [hki, gapped_at]
  · exact (gapped_succ l hki hk).symm

/-- The entry behind the gap is moved in front of it. -/
theorem Holds.moveForth (h : s.Holds (gapped l i)) (hi : i < l.length) :
    ∃ s', s.move? (i + 1) i = some s' ∧ s'.count = s.count ∧ s'.Holds (gapped l (i + 1)) := by
  have he : l[i]? = some l[i] := List.getElem?_eq_getElem hi
  have behind := (gapped_behind l i).trans he
  refine h.move behind (gapped_at l i) (Nat.lt_of_succ_lt (h.lt behind))
    ((gapped_before l i).trans he) fun k hk => ?_
  split_ifs with hki
  · rw [hki, gapped_at]
  · exact gapped_succ l hk hki

theorem Holds.shiftBack (n : Nat) : ∀ {s : Shelf capacity}, s.Holds (gapped l (i + n)) →
    i + n ≤ l.length → l.length < capacity →
      ∃ s', s.shiftBack? i n = some s' ∧ s'.count = s.count ∧ s'.Holds (gapped l i) := by
  induction n with
  | zero => exact fun h _ _ => ⟨_, rfl, rfl, h⟩
  | succ n ih =>
      intro s h le room
      obtain ⟨s₁, moved, count, h₁⟩ := Holds.moveBack h le room
      obtain ⟨s₂, shifted, count', h₂⟩ := ih h₁ (Nat.le_of_succ_le le) room
      exact ⟨s₂, Option.bind_eq_some_iff.2 ⟨s₁, moved, shifted⟩, count'.trans count, h₂⟩

theorem Holds.shiftForth (n : Nat) : ∀ {i : Nat} {s : Shelf capacity}, s.Holds (gapped l i) →
    i + n = l.length →
      ∃ s', s.shiftForth? i n = some s' ∧ s'.count = s.count ∧ s'.Holds (l[·]?) := by
  induction n with
  | zero =>
      intro i s h e
      rw [show i = l.length from e, gapped_length] at h
      exact ⟨s, rfl, rfl, h⟩
  | succ n ih =>
      intro i s h e
      obtain ⟨s₁, moved, count, h₁⟩ := h.moveForth (by omega)
      obtain ⟨s₂, shifted, count', h₂⟩ := ih h₁ (by omega)
      exact ⟨s₂, Option.bind_eq_some_iff.2 ⟨s₁, moved, shifted⟩, count'.trans count, h₂⟩

/-! ### Lists on a shelf -/

/-- The entries of the shelf are those of the list, in its order. -/
structure Shows (s : Shelf capacity) (l : List (Nat × Int)) : Prop where
  holds : s.Holds (l[·]?)
  count_eq : s.count = l.length

theorem shows_empty : ({} : Shelf capacity).Shows [] := by
  refine ⟨⟨nofun, fun {id i} => ?_⟩, rfl⟩
  unfold place?
  rw [Vector.getElem?_replicate]
  split_ifs <;> simp

theorem Shows.length_le (h : s.Shows l) : l.length ≤ capacity := by
  by_contra more
  obtain ⟨e, he⟩ : ∃ e, l[capacity]? = some e :=
    ⟨_, List.getElem?_eq_getElem (Nat.lt_of_not_le more)⟩
  exact Nat.lt_irrefl _ (h.holds.lt he)

theorem Shows.count_le (h : s.Shows l) : s.count ≤ capacity := h.count_eq ▸ h.length_le

theorem Shows.toList_eq (h : s.Shows l) : s.toList? = some l := by
  unfold toList?
  rw [if_pos h.count_le]
  refine congrArg some (List.ext_getElem? fun i => Option.ext fun e => ?_)
  rw [List.getElem?_zip_eq_some, List.getElem?_take, List.getElem?_take, Vector.getElem?_toList,
    Vector.getElem?_toList, h.count_eq]
  by_cases hi : i < l.length
  · have he : l[i]? = some l[i] := List.getElem?_eq_getElem hi
    rw [if_pos hi, if_pos hi, ← entry?_eq_some_iff, h.holds.entry he, he]
  · rw [if_neg hi, List.getElem?_eq_none (Nat.le_of_not_lt hi)]
    simp

theorem Shows.keys_eq (h : s.Shows l) : s.keys.toList.take s.count = l.map Prod.snd := by
  have list := h.toList_eq
  unfold toList? at list
  rw [if_pos h.count_le] at list
  rw [← Option.some.inj list, List.map_snd_zip]
  simp

theorem Shows.position_eq (h : s.Shows l) (key : Int) :
    s.position? key = some (l.takeWhile (·.2 ≤ key)).length := by
  unfold position?
  rw [if_pos h.count_le, h.keys_eq, List.takeWhile_map, List.length_map]
  rfl

theorem Shows.place_eq_none (h : s.Shows l) (absent : id ∉ l.map Prod.fst) :
    s.place? id = none := by
  refine Option.eq_none_iff_forall_ne_some.2 fun i hi => ?_
  obtain ⟨key, he⟩ := h.holds.place.1 hi
  exact absent (List.mem_map.2 ⟨_, List.mem_of_getElem? he, rfl⟩)

/-- All entries from `i` on make room for one more. -/
theorem Shows.makeRoom (h : s.Shows l) (le : i ≤ l.length) (room : l.length < capacity) :
    ∃ s', s.shiftBack? i (s.count - i) = some s' ∧ s'.count = s.count ∧ s'.Holds (gapped l i) := by
  have whole : i + (s.count - i) = l.length := by
    rw [h.count_eq]
    omega
  have start : s.Holds (gapped l (i + (s.count - i))) := by
    rw [whole, gapped_length]
    exact h.holds
  exact start.shiftBack _ (Nat.le_of_eq whole) room

/-- A new entry is written into the gap. -/
theorem Holds.fill (h : s.Holds (gapped l i)) (le : i ≤ l.length) (room : l.length < capacity)
    (id_inside : id < capacity) (absent : id ∉ l.map Prod.fst) (key : Int) :
    ∃ s', s.put? (id, key) i = some s' ∧ s'.count = s.count ∧
      s'.Holds ((l.insertIdx i (id, key))[·]?) := by
  have here : (l.insertIdx i (id, key))[i]? = some (id, key) := by
    rw [List.getElem?_insertIdx_self, if_pos le]
  refine h.put (gapped_at l i) (Nat.lt_of_le_of_lt le room) id_inside here fun k hk e => ?_
  rw [getElem?_insertIdx_of_ne _ (Ne.symm hk)]
  refine ⟨fun he => ⟨he, fun same => absent ?_⟩, And.left⟩
  exact List.mem_map.2 ⟨e, mem_of_gapped he, same⟩

theorem Shows.insert (h : s.Shows l) (id_inside : id < capacity) (room : l.length < capacity)
    (absent : id ∉ l.map Prod.fst) (key : Int) :
    ∃ s', s.insert? id key = some s' ∧
      s'.Shows (l.insertIdx (l.takeWhile (·.2 ≤ key)).length (id, key)) := by
  have position := h.position_eq key
  have le : (l.takeWhile (·.2 ≤ key)).length ≤ l.length := (List.takeWhile_prefix _).length_le
  generalize (l.takeWhile (·.2 ≤ key)).length = i at position le ⊢
  obtain ⟨s₁, shifted, count₁, h₁⟩ := h.makeRoom le room
  obtain ⟨s₂, written, count₂, h₂⟩ := h₁.fill le room id_inside absent key
  refine ⟨{ s₂ with count := s₂.count + 1 }, ?_, ⟨h₂.entry, h₂.place⟩, ?_⟩
  · unfold insert?
    refine Option.bind_eq_some_iff.2 ⟨i, position, ?_⟩
    refine Option.bind_eq_some_iff.2 ⟨s₁, shifted, ?_⟩
    exact Option.bind_eq_some_iff.2 ⟨s₂, written, rfl⟩
  · rw [List.length_insertIdx_of_le_length le, count₂, count₁, h.count_eq]

theorem Shows.erase_absent (h : s.Shows l) (absent : id ∉ l.map Prod.fst) :
    s.erase? id = some (none, s) := by
  unfold erase?
  rw [h.place_eq_none absent]

theorem Shows.erase (h : s.Shows l) (he : l[i]? = some (id, key)) :
    ∃ s', s.erase? id = some (some key, s') ∧ s'.Shows (l.eraseIdx i) := by
  have lt : i < l.length := (List.getElem?_eq_some_iff.1 he).1
  have gap : (s.forget id).Holds (gapped (l.eraseIdx i) i) :=
    h.holds.forget he fun k => gapped_eraseIdx l i k
  have length : (l.eraseIdx i).length = l.length - 1 := List.length_eraseIdx_of_lt lt
  have whole : i + (s.count - (i + 1)) = (l.eraseIdx i).length := by
    rw [length, h.count_eq]
    omega
  obtain ⟨s₁, shifted, count, h₁⟩ := gap.shiftForth _ whole
  refine ⟨{ s₁ with count := s₁.count - 1 }, ?_, ⟨h₁.entry, h₁.place⟩, ?_⟩
  · unfold erase?
    rw [h.holds.place.2 ⟨key, he⟩]
    refine Option.bind_eq_some_iff.2 ⟨key, (entry?_eq_some_iff.1 (h.holds.entry he)).2, ?_⟩
    exact Option.bind_eq_some_iff.2 ⟨s₁, shifted, rfl⟩
  · rw [length]
    exact congrArg (· - 1) (count.trans h.count_eq)

end Shelf

end Dispatch
