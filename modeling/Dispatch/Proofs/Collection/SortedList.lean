import Dispatch.Proofs.Collection.Ranking
import Dispatch.Proofs.Collection.Shelf
import Mathlib.Data.List.Nodup
import Mathlib.Data.List.Perm.Subperm

/-!
# Rankings and shelves as sorted lists

What the updates of a ranking do to its entries is said of a list of ids with keys (`after`): a new
entry comes behind all whose keys are no larger and before all others, an erased one leaves the
order of the rest alone, and an entry with a new key is erased and entered anew.
`stable_sorted_list` says that rankings and shelves do the same, that the list is always one that
fits, and that no access to the arrays of a shelf is ever outside.
-/

namespace Dispatch

namespace Ranking

/-- One change of a ranking, with all that is passed to it. -/
inductive Update where
  | insert (id : Nat) (key : Int)
  | erase (id : Nat)
  | changeKey (id : Nat) (key : Int)
  | changeMinKey (key : Int)

/-! ### Updates of lists -/

/-- The list with an entry behind all whose keys are no larger than its own and before
all others. -/
def withEntry (l : List (Nat × Int)) (id : Nat) (key : Int) : List (Nat × Int) :=
  l.filter (·.2 ≤ key) ++ (id, key) :: l.filter (key < ·.2)

/-- The list without the entries of an id. -/
def without (l : List (Nat × Int)) (id : Nat) : List (Nat × Int) := l.filter (·.1 ≠ id)

/-- The list in which the entry of `id` is erased and entered with a new key. -/
def rekeyed (l : List (Nat × Int)) (id : Nat) (key : Int) : List (Nat × Int) :=
  if id ∈ l.map Prod.fst then withEntry (without l id) id key else l

/-- The list after an update. -/
def after (l : List (Nat × Int)) : Update → List (Nat × Int)
  | .insert id key => withEntry l id key
  | .erase id => without l id
  | .changeKey id key => rekeyed l id key
  | .changeMinKey key => l.head?.elim l fun e => rekeyed l e.1 key

/-- Only an id below the capacity that has no entry is inserted. -/
def Admissible (capacity : Nat) (l : List (Nat × Int)) : Update → Prop
  | .insert id _ => id < capacity ∧ id ∉ l.map Prod.fst
  | _ => True

/-- Every update of the sequence is admissible when its turn comes. -/
def Valid (capacity : Nat) : List (Nat × Int) → List Update → Prop
  | _, [] => True
  | l, u :: us => Admissible capacity l u ∧ Valid capacity (after l u) us

instance (capacity : Nat) (l : List (Nat × Int)) : ∀ u, Decidable (Admissible capacity l u)
  | .insert _ _ => inferInstanceAs (Decidable (_ ∧ _))
  | .erase _ => inferInstanceAs (Decidable True)
  | .changeKey _ _ => inferInstanceAs (Decidable True)
  | .changeMinKey _ => inferInstanceAs (Decidable True)

instance decidableValid (capacity : Nat) : ∀ l us, Decidable (Valid capacity l us)
  | _, [] => inferInstanceAs (Decidable True)
  | l, u :: us =>
      have := decidableValid capacity (after l u) us
      inferInstanceAs (Decidable (_ ∧ _))

variable {capacity : Nat} {l : List (Nat × Int)} {id : Nat} {key : Int} {u : Update}

theorem mem_ids : id ∈ l.map Prod.fst ↔ ∃ key, (id, key) ∈ l := by
  simp

theorem lookup_eq_some_iff (nd : (l.map Prod.fst).Nodup) :
    l.lookup id = some key ↔ (id, key) ∈ l := by
  rw [List.lookup_eq_some_iff, List.mem_iff_append]
  refine exists_congr fun before => exists_congr fun behind => and_iff_left_of_imp ?_
  rintro rfl e he
  rw [List.map_append, List.map_cons, List.nodup_middle, List.nodup_cons] at nd
  rw [bne_iff_ne]
  rintro rfl
  exact nd.1 (List.mem_append_left _ (List.mem_map.2 ⟨e, he, rfl⟩))

theorem lookup_eq_none (absent : id ∉ l.map Prod.fst) : l.lookup id = none := by
  rw [List.lookup_eq_none_iff]
  intro e he
  rw [bne_iff_ne]
  rintro rfl
  exact absent (List.mem_map.2 ⟨e, he, rfl⟩)

theorem perm_withEntry (l : List (Nat × Int)) (id : Nat) (key : Int) :
    (withEntry l id key).Perm ((id, key) :: l) := by
  refine List.perm_middle.trans (.cons _ ?_)
  have larger : (fun e : Nat × Int => decide (key < e.2)) = fun e => !decide (e.2 ≤ key) := by
    funext e
    rw [← decide_not, decide_eq_decide, Int.not_le]
  rw [larger]
  exact List.filter_append_perm _ l

theorem notMem_without (l : List (Nat × Int)) (id : Nat) : id ∉ (without l id).map Prod.fst := by
  simp [without]

/-- In a list in ascending order the entries whose keys are no larger come first. -/
theorem inserted_eq_withEntry (ascending : l.Pairwise fun a b => a.2 ≤ b.2) (id : Nat) (key : Int) :
    inserted l id key = withEntry l id key := by
  unfold inserted withEntry
  induction l with
  | nil => rfl
  | cons e l ih =>
      obtain ⟨first, ascending⟩ := List.pairwise_cons.1 ascending
      by_cases he : e.2 ≤ key
      · -- both go past the first entry
        simpa [he, Int.not_lt.2 he] using ih ascending
      · -- no key behind the first one is smaller, so the new entry comes at the front
        have larger : ∀ x ∈ l, key < x.2 := fun x hx =>
          Int.lt_of_lt_of_le (Int.not_le.1 he) (first x hx)
        have none_first : l.filter (·.2 ≤ key) = [] := by
          simpa [List.filter_eq_nil_iff] using larger
        have all_behind : l.filter (key < ·.2) = l := by
          simpa [List.filter_eq_self] using larger
        simp [he, Int.not_le.1 he, none_first, all_behind]

/-! ### Lists that fit -/

/-- The entries have different ids below the capacity, and their keys are in ascending order. -/
structure Fits (capacity : Nat) (l : List (Nat × Int)) : Prop where
  nodup : (l.map Prod.fst).Nodup
  lt : ∀ id ∈ l.map Prod.fst, id < capacity
  ascending : l.Pairwise fun a b => a.2 ≤ b.2

theorem Fits.length_le (f : Fits capacity l) : l.length ≤ capacity := by
  have := (List.subperm_of_subset f.nodup fun id hid => List.mem_range.2 (f.lt id hid)).length_le
  simpa using this

theorem Fits.without (f : Fits capacity l) (id : Nat) : Fits capacity (without l id) where
  nodup := f.nodup.sublist (List.filter_sublist.map _)
  lt j hj := f.lt j ((List.filter_sublist.map _).subset hj)
  ascending := f.ascending.sublist List.filter_sublist

theorem Fits.withEntry (f : Fits capacity l) (id_lt : id < capacity)
    (absent : id ∉ l.map Prod.fst) (key : Int) : Fits capacity (withEntry l id key) where
  nodup := by
    rw [((perm_withEntry l id key).map Prod.fst).nodup_iff]
    exact List.nodup_cons.2 ⟨absent, f.nodup⟩
  lt j hj := by
    rw [((perm_withEntry l id key).map Prod.fst).mem_iff] at hj
    rcases List.mem_cons.1 hj with rfl | hj
    · exact id_lt
    · exact f.lt j hj
  ascending := by
    unfold Ranking.withEntry
    rw [List.pairwise_append, List.pairwise_cons]
    refine ⟨f.ascending.sublist List.filter_sublist,
      ⟨fun b hb => ?_, f.ascending.sublist List.filter_sublist⟩, fun a ha b hb => ?_⟩
    · exact Int.le_of_lt (by simpa using (List.mem_filter.1 hb).2)
    · have small : a.2 ≤ key := by simpa using (List.mem_filter.1 ha).2
      rcases List.mem_cons.1 hb with rfl | hb
      · exact small
      · have large : key < b.2 := by simpa using (List.mem_filter.1 hb).2
        exact Int.le_of_lt (Int.lt_of_le_of_lt small large)

/-- There is room for one more entry. -/
theorem Fits.room (f : Fits capacity l) (id_lt : id < capacity) (absent : id ∉ l.map Prod.fst) :
    l.length < capacity := by
  have length := (f.withEntry id_lt absent 0).length_le
  rwa [(perm_withEntry l id 0).length_eq] at length

theorem Fits.rekeyed (f : Fits capacity l) (id : Nat) (key : Int) :
    Fits capacity (rekeyed l id key) := by
  unfold Ranking.rekeyed
  split_ifs with present
  · exact (f.without id).withEntry (f.lt id present) (notMem_without l id) key
  · exact f

theorem Fits.after (f : Fits capacity l) (ok : Admissible capacity l u) :
    Fits capacity (after l u) := by
  cases u with
  | insert id key => exact f.withEntry ok.1 ok.2 key
  | erase id => exact f.without id
  | changeKey id key => exact f.rekeyed id key
  | changeMinKey key =>
      cases l with
      | nil => exact f
      | cons e l => exact f.rekeyed e.1 key

/-! ### Rankings -/

/-- The ranking after an update, unless it has no room left for a new id. -/
def update? (r : Ranking) : Update → Option Ranking
  | .insert id key => r.insert? id key
  | .erase id => some (r.remove id).2
  | .changeKey id key => some (r.changeKey id key)
  | .changeMinKey key => some (r.changeMinKey key)

/-- The entries of the ranking are those of the list, in its order. -/
structure Lists (r : Ranking) (capacity : Nat) (l : List (Nat × Int)) : Prop where
  placed : r.Placed
  capacity_eq : r.capacity = capacity
  entries_eq : r.entries = l

variable {r : Ranking}

theorem Lists.contains_eq (h : r.Lists capacity l) (id : Nat) :
    r.contains id = decide (id ∈ l.map Prod.fst) := by
  rw [Bool.eq_iff_iff, h.placed.contains_iff, h.entries_eq, decide_eq_true_eq, mem_ids]

theorem Lists.contains_eq_false (h : r.Lists capacity l) (absent : id ∉ l.map Prod.fst) :
    r.contains id = false := by
  rw [h.contains_eq, decide_eq_false absent]

theorem Lists.keyOf?_eq (h : r.Lists capacity l) (id : Nat) : r.keyOf? id = l.lookup id := by
  have nd := h.placed.nodup
  rw [h.entries_eq] at nd
  ext key
  rw [h.placed.keyOf?_eq_some_iff, h.entries_eq, lookup_eq_some_iff nd]

theorem Lists.insert (h : r.Lists capacity l) (f : Fits capacity l) (id_lt : id < capacity)
    (absent : id ∉ l.map Prod.fst) (key : Int) :
    ∃ r', r.insert? id key = some r' ∧ r'.Lists capacity (withEntry l id key) := by
  rw [← h.capacity_eq] at id_lt
  obtain ⟨r', inserted, placed, capacity_eq, entries⟩ :=
    @Placed.insert? _ id key h.placed id_lt (h.contains_eq_false absent)
  refine ⟨r', inserted, placed, capacity_eq.trans h.capacity_eq, ?_⟩
  rw [entries, h.entries_eq, inserted_eq_withEntry f.ascending]

theorem Lists.erase (h : r.Lists capacity l) (id : Nat) :
    (r.erase id).Lists capacity (without l id) where
  placed := h.placed.erase id
  capacity_eq := (capacity_erase r id).trans h.capacity_eq
  entries_eq := by
    rw [h.placed.entries_erase, h.entries_eq]
    rfl

theorem Lists.erase_absent (h : r.Lists capacity l) (absent : id ∉ l.map Prod.fst) :
    r.erase id = r := by
  have missing := h.contains_eq_false absent
  unfold contains at missing
  unfold Ranking.erase
  rw [Option.isNone_iff_eq_none.1 (Option.isSome_eq_false_iff.1 missing)]

theorem Lists.changeKey_absent (h : r.Lists capacity l) (absent : id ∉ l.map Prod.fst) (key : Int) :
    r.changeKey id key = r := by
  unfold Ranking.changeKey
  rw [h.contains_eq_false absent]
  rfl

theorem Lists.changeKey (h : r.Lists capacity l) (f : Fits capacity l) (id : Nat) (key : Int) :
    (r.changeKey id key).Lists capacity (rekeyed l id key) := by
  unfold rekeyed
  split_ifs with present
  · have contained : r.contains id = true := by rw [h.contains_eq, decide_eq_true present]
    obtain ⟨placed, capacity_eq, entries⟩ := @Placed.changeKey _ id key h.placed contained
    refine ⟨placed, capacity_eq.trans h.capacity_eq, ?_⟩
    rw [entries, h.entries_eq]
    exact inserted_eq_withEntry (f.without id).ascending id key
  · rwa [h.changeKey_absent present]

theorem Lists.min?_eq (h : r.Lists capacity l) : r.min? = l.head? :=
  congrArg List.head? h.entries_eq

theorem Lists.update (h : r.Lists capacity l) (f : Fits capacity l) (ok : Admissible capacity l u) :
    ∃ r', r.update? u = some r' ∧ r'.Lists capacity (after l u) := by
  cases u with
  | insert id key => exact h.insert f ok.1 ok.2 key
  | erase id => exact ⟨_, rfl, h.erase id⟩
  | changeKey id key => exact ⟨_, rfl, h.changeKey f id key⟩
  | changeMinKey key =>
      refine ⟨_, rfl, ?_⟩
      unfold changeMinKey
      rw [h.min?_eq]
      cases l with
      | nil => exact h
      | cons e l => exact h.changeKey f e.1 key

end Ranking

/-! ### Shelves -/

namespace Shelf

open Ranking

variable {capacity : Nat} {s : Shelf capacity} {l : List (Nat × Int)} {id : Nat} {key : Int}
  {u : Update}

/-- The shelf after an update, unless it has no room left or looks for an entry where none is. -/
def update? (s : Shelf capacity) : Update → Option (Shelf capacity)
  | .insert id key => s.insert? id key
  | .erase id => (s.erase? id).map Prod.snd
  | .changeKey id key => s.changeKey? id key
  | .changeMinKey key => s.changeMinKey? key

theorem Shows.place_of_mem (h : s.Shows l) (hm : (id, key) ∈ l) :
    ∃ i, s.place? id = some i ∧ l[i]? = some (id, key) := by
  obtain ⟨i, hi⟩ := List.mem_iff_getElem?.1 hm
  exact ⟨i, h.holds.place.2 ⟨key, hi⟩, hi⟩

theorem Shows.contains_eq (h : s.Shows l) (id : Nat) :
    s.contains id = decide (id ∈ l.map Prod.fst) := by
  unfold contains
  by_cases present : id ∈ l.map Prod.fst
  · obtain ⟨key, hm⟩ := mem_ids.1 present
    obtain ⟨i, place, -⟩ := h.place_of_mem hm
    rw [place, decide_eq_true present]
    rfl
  · rw [h.place_eq_none present, decide_eq_false present]
    rfl

theorem Shows.keyOf?_eq (h : s.Shows l) (nd : (l.map Prod.fst).Nodup) (id : Nat) :
    s.keyOf? id = some (l.lookup id) := by
  unfold keyOf?
  by_cases present : id ∈ l.map Prod.fst
  · obtain ⟨key, hm⟩ := mem_ids.1 present
    obtain ⟨i, place, he⟩ := h.place_of_mem hm
    rw [place, (lookup_eq_some_iff nd).2 hm]
    exact Option.bind_eq_some_iff.2 ⟨key, (entry?_eq_some_iff.1 (h.holds.entry he)).2, rfl⟩
  · rw [h.place_eq_none present, lookup_eq_none present]

theorem Shows.min?_eq (h : s.Shows l) : s.min? = some l.head? := by
  unfold min?
  rw [h.count_eq]
  cases l with
  | nil => rfl
  | cons e l => exact Option.bind_eq_some_iff.2 ⟨e, h.holds.entry rfl, rfl⟩

theorem Shows.withEntry (h : s.Shows l) (f : Fits capacity l) (id_lt : id < capacity)
    (absent : id ∉ l.map Prod.fst) (key : Int) :
    ∃ s', s.insert? id key = some s' ∧ s'.Shows (withEntry l id key) := by
  rw [← inserted_eq_withEntry f.ascending, ← insertIdx_position ⟨l, []⟩]
  exact h.insert id_lt (f.room id_lt absent) absent key

theorem Shows.without (h : s.Shows l) (nd : (l.map Prod.fst).Nodup) (id : Nat) :
    ∃ s', s.erase? id = some (l.lookup id, s') ∧ s'.Shows (without l id) := by
  by_cases present : id ∈ l.map Prod.fst
  · obtain ⟨key, hm⟩ := mem_ids.1 present
    obtain ⟨i, -, he⟩ := h.place_of_mem hm
    rw [(lookup_eq_some_iff nd).2 hm, Ranking.without, ← eraseIdx_eq_filter nd he]
    exact h.erase he
  · have all : Ranking.without l id = l := by
      refine List.filter_eq_self.2 fun e he => decide_eq_true fun same => present ?_
      exact List.mem_map.2 ⟨e, he, same⟩
    rw [lookup_eq_none present, all]
    exact ⟨s, h.erase_absent present, h⟩

theorem Shows.changeKey_absent (h : s.Shows l) (absent : id ∉ l.map Prod.fst) (key : Int) :
    s.changeKey? id key = some s :=
  Option.bind_eq_some_iff.2 ⟨_, h.erase_absent absent, rfl⟩

theorem Shows.rekeyed (h : s.Shows l) (f : Fits capacity l) (id : Nat) (key : Int) :
    ∃ s', s.changeKey? id key = some s' ∧ s'.Shows (rekeyed l id key) := by
  unfold Ranking.rekeyed
  split_ifs with present
  · obtain ⟨old, hm⟩ := mem_ids.1 present
    obtain ⟨s₁, erased, h₁⟩ := h.without f.nodup id
    rw [(lookup_eq_some_iff f.nodup).2 hm] at erased
    obtain ⟨s₂, inserted, h₂⟩ :=
      h₁.withEntry (f.without id) (f.lt id present) (notMem_without l id) key
    exact ⟨s₂, Option.bind_eq_some_iff.2 ⟨_, erased, inserted⟩, h₂⟩
  · exact ⟨s, h.changeKey_absent present key, h⟩

theorem Shows.update (h : s.Shows l) (f : Fits capacity l) (ok : Admissible capacity l u) :
    ∃ s', s.update? u = some s' ∧ s'.Shows (after l u) := by
  cases u with
  | insert id key => exact h.withEntry f ok.1 ok.2 key
  | erase id =>
      obtain ⟨s', erased, h'⟩ := h.without f.nodup id
      exact ⟨s', Option.map_eq_some_iff.2 ⟨_, erased, rfl⟩, h'⟩
  | changeKey id key => exact h.rekeyed f id key
  | changeMinKey key =>
      unfold update? changeMinKey?
      rw [h.min?_eq]
      cases l with
      | nil => exact ⟨s, rfl, h⟩
      | cons e l => exact h.rekeyed f e.1 key

end Shelf

/-! ### Both together -/

namespace Ranking

/-- A ranking and a shelf that both keep the list. -/
structure Kept {capacity : Nat} (r : Ranking) (s : Shelf capacity) (l : List (Nat × Int)) :
    Prop where
  fits : Fits capacity l
  lists : r.Lists capacity l
  shows : s.Shows l

variable {capacity : Nat} {r : Ranking} {s : Shelf capacity} {l : List (Nat × Int)}

theorem kept_empty (capacity : Nat) : Kept (empty capacity) ({} : Shelf capacity) [] where
  fits := ⟨List.nodup_nil, nofun, .nil⟩
  lists := ⟨placed_empty capacity, List.length_replicate, rfl⟩
  shows := Shelf.shows_empty

theorem Kept.update (k : Kept r s l) {u : Update} (ok : Admissible capacity l u) :
    ∃ r' s', r.update? u = some r' ∧ s.update? u = some s' ∧ Kept r' s' (after l u) := by
  obtain ⟨r', updated, lists⟩ := k.lists.update k.fits ok
  obtain ⟨s', updated', shows'⟩ := k.shows.update k.fits ok
  exact ⟨r', s', updated, updated', k.fits.after ok, lists, shows'⟩

theorem Kept.run (us : List Update) : ∀ {r : Ranking} {s : Shelf capacity} {l : List (Nat × Int)},
    Kept r s l → Valid capacity l us →
      ∃ r' s', us.foldlM update? r = some r' ∧ us.foldlM Shelf.update? s = some s' ∧
        Kept r' s' (us.foldl after l) := by
  induction us with
  | nil => exact fun k _ => ⟨_, _, rfl, rfl, k⟩
  | cons u us ih =>
      intro r s l k ⟨ok, valid⟩
      obtain ⟨r₁, s₁, updated, updated', k₁⟩ := k.update ok
      obtain ⟨r₂, s₂, ran, ran', k₂⟩ := ih k₁ valid
      exact ⟨r₂, s₂, Option.bind_eq_some_iff.2 ⟨r₁, updated, ran⟩,
        Option.bind_eq_some_iff.2 ⟨s₁, updated', ran'⟩, k₂⟩

/-- After any valid updates of an empty ranking, the list with the same updates has different ids
below the capacity, and ascending keys.  A ranking and a shelf come through the updates, keep this
list, and answer from it.  What is done to an id without an entry changes nothing. -/
theorem stable_sorted_list (capacity : Nat) (us : List Update) (valid : Valid capacity [] us) :
    let l := us.foldl after []
    Fits capacity l ∧ l.length ≤ capacity ∧
      ∃ (r : Ranking) (s : Shelf capacity),
        (us.foldlM update? (empty capacity) = some r ∧ us.foldlM Shelf.update? {} = some s) ∧
        (r.entries = l ∧ s.toList? = some l) ∧
        (r.size = l.length ∧ s.count = l.length) ∧
        (∀ id i, (r.place? id = some i ↔ ∃ key, l[i]? = some (id, key)) ∧
          (s.place? id = some i ↔ ∃ key, l[i]? = some (id, key))) ∧
        (∀ id, r.contains id = decide (id ∈ l.map Prod.fst) ∧
          s.contains id = decide (id ∈ l.map Prod.fst)) ∧
        (∀ id, r.keyOf? id = l.lookup id ∧ s.keyOf? id = some (l.lookup id)) ∧
        (r.min? = l.head? ∧ s.min? = some l.head?) ∧
        (∀ id, (r.remove id).1 = l.lookup id ∧ ∃ s', s.erase? id = some (l.lookup id, s')) ∧
        (∀ id, id ∉ l.map Prod.fst →
          (r.erase id = r ∧ s.erase? id = some (none, s)) ∧
            ∀ key, r.changeKey id key = r ∧ s.changeKey? id key = some s) ∧
        (l = [] → ∀ key, r.changeMinKey key = r ∧ s.changeMinKey? key = some s) := by
  intro l
  obtain ⟨r, s, ran, ran', fits, lists, shelf⟩ := (kept_empty capacity).run us valid
  refine ⟨fits, fits.length_le, r, s, ⟨ran, ran'⟩, ⟨lists.entries_eq, shelf.toList_eq⟩,
    ⟨congrArg List.length lists.entries_eq, shelf.count_eq⟩, fun id i => ⟨?_, shelf.holds.place⟩,
    fun id => ⟨lists.contains_eq id, shelf.contains_eq id⟩,
    fun id => ⟨lists.keyOf?_eq id, shelf.keyOf?_eq fits.nodup id⟩, ⟨lists.min?_eq, shelf.min?_eq⟩,
    fun id => ⟨lists.keyOf?_eq id, ?_⟩, fun id absent => ⟨?_, fun key => ?_⟩, fun nothing key => ?_⟩
  · rw [lists.placed id i, lists.entries_eq]
  · obtain ⟨s', erased, -⟩ := shelf.without fits.nodup id
    exact ⟨s', erased⟩
  · exact ⟨lists.erase_absent absent, shelf.erase_absent absent⟩
  · exact ⟨lists.changeKey_absent absent key, shelf.changeKey_absent absent key⟩
  · unfold changeMinKey Shelf.changeMinKey?
    rw [lists.min?_eq, shelf.min?_eq, show us.foldl after [] = [] from nothing]
    exact ⟨rfl, rfl⟩

/-- All ids have entries, three of them come to have equal keys, and two that have no entry are
erased and given a new key. -/
theorem stable_sorted_list_full :
    let us : List Update := [.insert 2 10, .insert 0 7, .insert 3 7, .insert 1 10, .erase 3,
      .changeMinKey 10, .changeKey 2 10, .changeKey 9 1, .erase 3, .insert 3 5]
    let l := us.foldl after []
    Valid 4 [] us ∧ l = [(3, 5), (1, 10), (0, 10), (2, 10)] ∧ Fits 4 l ∧
      ∃ (r : Ranking) (s : Shelf 4),
        us.foldlM update? (empty 4) = some r ∧ us.foldlM Shelf.update? {} = some s ∧
        r.entries = l ∧ s.toList? = some l ∧ s.keyOf? 0 = some (some 10) ∧
        s.changeKey? 9 1 = some s := by
  intro us l
  have valid : Valid 4 [] us := by decide
  obtain ⟨fits, -, r, s, ⟨ran, ran'⟩, ⟨entries, list⟩, -, -, -, keys, -, -, absent, -⟩ :=
    stable_sorted_list 4 us valid
  exact ⟨valid, by decide, fits, r, s, ran, ran', entries, list, (keys 0).2,
    ((absent 9 (by decide)).2 1).2⟩

end Ranking

end Dispatch
