import Dispatch.Collection.KeyedHeap
import Mathlib.Tactic.SplitIfs

/-!
# The order and the positions of a keyed heap

A heap is well formed (`WF`) when its table of positions is the inverse of its array (`Tracked`) and
no entry is larger than the ones below it (`Ordered`).  Every operation keeps this.  The view of a
well-formed heap is `get?`: `get?_insert` and `get?_erase` say what the updates do to it, and
`WF.min?_le` that the entry on top has the least value of all.

An update leaves one entry that may lie in the wrong place (`Misplaced`).  Moving it up ends with an
entry that can only be too high (`Heavy`), and moving that one down restores the order.
-/

namespace Dispatch

namespace KeyedHeap

variable {κ V : Type}

/-- The position that `k` goes to when `i` and `j` are exchanged. -/
def exchange (i j k : Nat) : Nat := if k = i then j else if k = j then i else k

theorem parent_eq_iff {i j : Nat} (h : j ≠ 0) : parent j = i ↔ j = left i ∨ j = right i := by
  unfold parent left right
  omega

theorem exchange_of_ne {i j k : Nat} (hi : k ≠ i) (hj : k ≠ j) : exchange i j k = k := by
  simp [exchange, hi, hj]

@[simp] theorem exchange_left (i j : Nat) : exchange i j i = j := by simp [exchange]

@[simp] theorem exchange_right (i j : Nat) : exchange i j j = i := by
  by_cases h : j = i <;> simp [exchange, h]

theorem exchange_eq_left_iff {i j k : Nat} : exchange i j k = i ↔ k = j := by
  unfold exchange
  split_ifs <;> omega

theorem exchange_eq_right_iff {i j k : Nat} : exchange i j k = j ↔ k = i := by
  unfold exchange
  split_ifs <;> omega

theorem min?_eq_none_iff {h : KeyedHeap κ V} : h.min? = none ↔ h.isEmpty = true := by
  unfold isEmpty min?
  rw [Array.isEmpty_iff_size_eq_zero, Array.getElem?_eq_none_iff]
  omega

section Tracking

variable [DecidableEq κ] {h h' : KeyedHeap κ V}

/-- The table of positions says of every key where its entry lies, and of no other key anything. -/
def Tracked (h : KeyedHeap κ V) : Prop :=
  ∀ k i, h.positions.find? k = some i ↔ ∃ v, h.entries[i]? = some (k, v)

theorem tracked_empty : Tracked ({} : KeyedHeap κ V) := by
  intro k i
  simp

theorem Tracked.get?_eq_some_iff (t : h.Tracked) {k : κ} {v : V} :
    h.get? k = some v ↔ (k, v) ∈ h.entries := by
  rw [Array.mem_iff_getElem?]
  constructor
  · intro hv
    simp only [get?, Option.bind_eq_some_iff, Option.map_eq_some_iff] at hv
    obtain ⟨i, hi, e, he, rfl⟩ := hv
    obtain ⟨w, hw⟩ := (t k i).1 hi
    rw [he] at hw
    cases hw
    exact ⟨i, he⟩
  · rintro ⟨i, hi⟩
    simp [get?, (t k i).2 ⟨v, hi⟩, hi]

theorem Tracked.contains_iff (t : h.Tracked) {k : κ} :
    h.contains k = true ↔ ∃ v, h.get? k = some v := by
  unfold contains Table.contains
  rw [Option.isSome_iff_exists]
  constructor
  · rintro ⟨i, hi⟩
    obtain ⟨v, hv⟩ := (t k i).1 hi
    exact ⟨v, t.get?_eq_some_iff.2 (Array.mem_of_getElem? hv)⟩
  · rintro ⟨v, hv⟩
    obtain ⟨i, hi⟩ := Array.mem_iff_getElem?.1 (t.get?_eq_some_iff.1 hv)
    exact ⟨i, (t k i).2 ⟨v, hi⟩⟩

/-- Two positions do not hold the same key. -/
theorem Tracked.position_unique (t : h.Tracked) {k : κ} {v w : V} {i j : Nat}
    (hi : h.entries[i]? = some (k, v)) (hj : h.entries[j]? = some (k, w)) : i = j := by
  have hi' := (t k i).2 ⟨v, hi⟩
  have hj' := (t k j).2 ⟨w, hj⟩
  rw [hi'] at hj'
  exact Option.some.inj hj'

theorem Tracked.get?_of_min? (t : h.Tracked) {e : κ × V} (he : h.min? = some e) :
    h.get? e.1 = some e.2 :=
  t.get?_eq_some_iff.2 (Array.mem_of_getElem? he)

theorem Tracked.isEmpty_iff (t : h.Tracked) : h.isEmpty = true ↔ ∀ k, h.get? k = none := by
  unfold isEmpty
  rw [Array.isEmpty_iff]
  constructor
  · intro he k
    rw [Option.eq_none_iff_forall_ne_some]
    intro v hv
    have := t.get?_eq_some_iff.1 hv
    rw [he] at this
    exact absurd this (by simp)
  · intro hk
    rw [Array.eq_empty_iff_forall_not_mem]
    rintro ⟨k, v⟩ hv
    have := t.get?_eq_some_iff.2 hv
    rw [hk] at this
    cases this

/-- Two tracked heaps with the same entries have the same view. -/
theorem Tracked.get?_congr (t : h.Tracked) (t' : h'.Tracked) (p : h'.entries.Perm h.entries)
    (k : κ) :
    h'.get? k = h.get? k := by
  ext v
  rw [t.get?_eq_some_iff, t'.get?_eq_some_iff]
  exact p.mem_iff

/-! ### Swapping -/

theorem getElem?_entries_swap {i j : Nat} (hi : i < h.size) (hj : j < h.size) (k : Nat) :
    (h.swap i j).entries[k]? = h.entries[exchange i j k]? := by
  unfold size at hi hj
  rw [entries_swap, Array.swapIfInBounds_def, dif_pos hi, dif_pos hj, Array.getElem?_swap]
  unfold exchange
  by_cases hki : k = i
  · subst hki
    by_cases hjk : j = k
    · subst hjk
      simp [hi]
    · simp [hjk, hj]
  · by_cases hkj : k = j
    · subst hkj
      simp [hki, hi]
    · simp [hki, hkj, Ne.symm hki, Ne.symm hkj]

theorem perm_swap (h : KeyedHeap κ V) (i j : Nat) : (h.swap i j).entries.Perm h.entries := by
  rw [entries_swap, Array.swapIfInBounds_def]
  split_ifs
  · exact Array.swap_perm _ _
  · exact Array.Perm.refl _
  · exact Array.Perm.refl _

theorem record_eq {i : Nat} {e : κ × V} (he : h.entries[i]? = some e) :
    h.record i = { h with positions := h.positions.insert e.1 i } := by
  unfold record
  rw [he]

theorem find?_positions_swap {i j : Nat} {a b : κ × V} (ha : h.entries[i]? = some a)
    (hb : h.entries[j]? = some b) (k : κ) :
    (h.swap i j).positions.find? k =
      if k = a.1 then some j else if k = b.1 then some i else h.positions.find? k := by
  have hi : i < h.size := (Array.getElem?_eq_some_iff.1 ha).1
  have hj : j < h.size := (Array.getElem?_eq_some_iff.1 hb).1
  have swapped := getElem?_entries_swap (h := h) hi hj
  rw [entries_swap] at swapped
  have hi' : (h.entries.swapIfInBounds i j)[i]? = some b := by rw [swapped, exchange_left, hb]
  have hj' : (h.entries.swapIfInBounds i j)[j]? = some a := by rw [swapped, exchange_right, ha]
  unfold swap
  rw [record_eq (i := i) (e := b) (by exact hi'), record_eq (i := j) (e := a) (by exact hj')]
  simp only [Table.find?_insert]

theorem Tracked.swap (t : h.Tracked) {i j : Nat} (hi : i < h.size) (hj : j < h.size) :
    (h.swap i j).Tracked := by
  obtain ⟨a, ha⟩ : ∃ a, h.entries[i]? = some a := ⟨_, Array.getElem?_eq_getElem hi⟩
  obtain ⟨b, hb⟩ : ∃ b, h.entries[j]? = some b := ⟨_, Array.getElem?_eq_getElem hj⟩
  intro k n
  rw [find?_positions_swap ha hb, getElem?_entries_swap hi hj]
  by_cases hka : k = a.1
  · -- the key that lay at `i` lies at `j` now, and nowhere else
    subst hka
    simp only [if_true, Option.some.injEq]
    constructor
    · rintro rfl
      exact ⟨a.2, by rw [exchange_right, ha]⟩
    · rintro ⟨v, hv⟩
      exact (exchange_eq_left_iff.1 (t.position_unique hv ha)).symm
  · rw [if_neg hka]
    by_cases hkb : k = b.1
    · subst hkb
      simp only [if_true, Option.some.injEq]
      constructor
      · rintro rfl
        exact ⟨b.2, by rw [exchange_left, hb]⟩
      · rintro ⟨v, hv⟩
        exact (exchange_eq_right_iff.1 (t.position_unique hv hb)).symm
    · rw [if_neg hkb, t k n]
      have key : ∀ m, (∃ v, h.entries[m]? = some (k, v)) → m ≠ i ∧ m ≠ j := by
        rintro m ⟨v, hv⟩
        constructor
        · rintro rfl
          rw [ha] at hv
          cases hv
          exact hka rfl
        · rintro rfl
          rw [hb] at hv
          cases hv
          exact hkb rfl
      constructor
      · intro hn
        obtain ⟨hni, hnj⟩ := key n hn
        rwa [exchange_of_ne hni hnj]
      · intro hn
        obtain ⟨hni, hnj⟩ := key _ hn
        rw [ne_eq, exchange_eq_left_iff] at hni
        rw [ne_eq, exchange_eq_right_iff] at hnj
        rwa [exchange_of_ne hnj hni] at hn

/-! ### Changing entries -/

/-- The heap with another value at `i`, whose key is `k`. -/
theorem Tracked.set (t : h.Tracked) {k : κ} {i : Nat} {w : V} (hi : h.entries[i]? = some (k, w))
    (v : V) : Tracked { h with entries := h.entries.setIfInBounds i (k, v) } := by
  intro j n
  rw [t j n]
  simp only [Array.getElem?_setIfInBounds]
  have hlt : i < h.entries.size := (Array.getElem?_eq_some_iff.1 hi).1
  by_cases hn : i = n
  · subst hn
    simp only [hi, hlt, if_true, Option.some.injEq, Prod.mk.injEq]
    exact ⟨fun ⟨_, hk, _⟩ => ⟨v, hk, rfl⟩, fun ⟨_, hk, _⟩ => ⟨w, hk, rfl⟩⟩
  · simp [hn]

theorem Tracked.get?_set (t : h.Tracked) {k : κ} {i : Nat} {w : V}
    (hi : h.entries[i]? = some (k, w)) (v : V) (j : κ) :
    get? { h with entries := h.entries.setIfInBounds i (k, v) } j =
      if j = k then some v else h.get? j := by
  have hlt : i < h.entries.size := (Array.getElem?_eq_some_iff.1 hi).1
  unfold get?
  by_cases hj : j = k
  · simp [hj, (t k i).2 ⟨w, hi⟩, hlt]
  · cases hp : h.positions.find? j with
    | none => simp [hj]
    | some n =>
        have hn : i ≠ n := by
          rintro rfl
          obtain ⟨x, hx⟩ := (t j i).1 hp
          rw [hi] at hx
          cases hx
          exact hj rfl
        simp [hj, hn]

theorem Tracked.push (t : h.Tracked) {k : κ} (hk : h.positions.find? k = none) (v : V) :
    Tracked ⟨h.entries.push (k, v), h.positions.insert k h.size⟩ := by
  intro j n
  simp only [Table.find?_insert, Array.getElem?_push]
  by_cases hj : j = k
  · subst hj
    simp only [if_true, Option.some.injEq]
    constructor
    · rintro rfl
      exact ⟨v, by rw [if_pos]; rfl⟩
    · rintro ⟨w, hw⟩
      split_ifs at hw with hn
      · exact hn.symm
      · rw [(t j n).2 ⟨w, hw⟩] at hk
        cases hk
  · rw [if_neg hj, t j n]
    split_ifs with hn
    · subst hn
      simp [Ne.symm hj]
    · rfl

theorem Tracked.get?_push (t : h.Tracked) (k : κ) (v : V) (j : κ) :
    get? ⟨h.entries.push (k, v), h.positions.insert k h.size⟩ j =
      if j = k then some v else h.get? j := by
  simp only [get?, Table.find?_insert]
  by_cases hj : j = k
  · simp [hj, size]
  · cases hp : h.positions.find? j with
    | none => simp [hj]
    | some n =>
        obtain ⟨x, hx⟩ := (t j n).1 hp
        have hn : n < h.entries.size := (Array.getElem?_eq_some_iff.1 hx).1
        simp [hj, Array.getElem?_push, Nat.ne_of_lt hn]

/-- The heap without the entry of `k` at `i`, into whose place the last entry has moved. -/
def cut (h : KeyedHeap κ V) (k : κ) (i : Nat) : KeyedHeap κ V :=
  let last := h.size - 1
  let h : KeyedHeap κ V := { h with positions := h.positions.erase k }
  let h : KeyedHeap κ V :=
    if i = last then h
    else ({ h with entries := h.entries.swapIfInBounds i last } : KeyedHeap κ V).record i
  { h with entries := h.entries.pop }

@[simp] theorem size_cut (h : KeyedHeap κ V) (k : κ) (i : Nat) : (h.cut k i).size = h.size - 1 := by
  unfold cut size
  by_cases hi : i = h.entries.size - 1 <;> simp [hi]

theorem getElem?_cut {k : κ} {i : Nat} (hi : i < h.size) (j : Nat) :
    (h.cut k i).entries[j]? =
      if j < h.size - 1 then (if j = i then h.entries[h.size - 1]? else h.entries[j]?)
      else none := by
  unfold size at hi
  have hl : h.entries.size - 1 < h.entries.size := by omega
  unfold cut size
  by_cases hil : i = h.entries.size - 1
  · simp only [hil, if_true, Array.getElem?_pop]
    split_ifs with h1 h2
    · omega
    · rfl
    · rfl
  · simp only [if_neg hil, entries_record, Array.getElem?_pop, Array.size_swapIfInBounds]
    split_ifs with h1 h2
    · subst h2
      rw [Array.swapIfInBounds_def, dif_pos hi, dif_pos hl, Array.getElem?_swap]
      simp [Ne.symm hil, hl]
    · rw [Array.swapIfInBounds_def, dif_pos hi, dif_pos hl, Array.getElem?_swap,
        if_neg (by omega), if_neg (Ne.symm h2)]
    · rfl

theorem find?_positions_cut {k : κ} {i : Nat} {e : κ × V} (hi : i < h.size)
    (hl : h.entries[h.size - 1]? = some e) (j : κ) :
    (h.cut k i).positions.find? j =
      if i ≠ h.size - 1 ∧ j = e.1 then some i else if j = k then none else h.positions.find? j := by
  unfold cut
  by_cases hil : i = h.size - 1
  · simp [hil, Table.find?_erase]
  · simp only [if_neg hil]
    have he : (h.entries.swapIfInBounds i (h.size - 1))[i]? = some e := by
      have := getElem?_entries_swap (j := h.size - 1) hi (by omega) i
      rwa [entries_swap, exchange_left, hl] at this
    rw [record_eq (e := e) (by exact he)]
    simp [hil, Table.find?_insert, Table.find?_erase]

theorem Tracked.cut (t : h.Tracked) {k : κ} {i : Nat} {w : V} (hi : h.entries[i]? = some (k, w)) :
    (h.cut k i).Tracked := by
  have hlt : i < h.size := (Array.getElem?_eq_some_iff.1 hi).1
  obtain ⟨e, he⟩ : ∃ e, h.entries[h.size - 1]? = some e :=
    ⟨_, Array.getElem?_eq_getElem (by unfold size at hlt ⊢; omega)⟩
  intro j n
  rw [find?_positions_cut hlt he, getElem?_cut hlt]
  constructor
  · intro hn
    split_ifs at hn with h1 h2
    · cases hn
      exact ⟨e.2, by rw [if_pos (by omega), if_pos rfl, he, h1.2]⟩
    · -- the entry lay at `n` before, and that was neither the hole nor the last position
      obtain ⟨v, hv⟩ := (t j n).1 hn
      have hns : n < h.size := (Array.getElem?_eq_some_iff.1 hv).1
      have hni : n ≠ i := by
        rintro rfl
        rw [hi] at hv
        cases hv
        exact h2 rfl
      have hnl : n ≠ h.size - 1 := by
        rintro rfl
        rw [he] at hv
        cases hv
        exact h1 ⟨fun e => hni e.symm, rfl⟩
      exact ⟨v, by rw [if_pos (by omega), if_neg hni, hv]⟩
  · rintro ⟨v, hv⟩
    split_ifs at hv with h1 h2
    · rw [he] at hv
      cases hv
      rw [if_pos ⟨by omega, rfl⟩, h2]
    · have hjk : j ≠ k := by
        rintro rfl
        exact h2 (t.position_unique hv hi)
      have hje : j ≠ e.1 := by
        rintro rfl
        have := t.position_unique hv he
        omega
      rw [if_neg (fun h => hje h.2), if_neg hjk]
      exact (t j n).2 ⟨v, hv⟩

theorem Tracked.get?_cut (t : h.Tracked) {k : κ} {i : Nat} {w : V}
    (hi : h.entries[i]? = some (k, w)) (j : κ) :
    (h.cut k i).get? j = if j = k then none else h.get? j := by
  have hlt : i < h.size := (Array.getElem?_eq_some_iff.1 hi).1
  ext v
  rw [(t.cut hi).get?_eq_some_iff, Array.mem_iff_getElem?]
  simp only [getElem?_cut hlt]
  constructor
  · rintro ⟨n, hn⟩
    split_ifs at hn with h1 h2
    · have hjk : j ≠ k := by
        rintro rfl
        have := t.position_unique hi hn
        omega
      rw [if_neg hjk]
      exact t.get?_eq_some_iff.2 (Array.mem_of_getElem? hn)
    · have hjk : j ≠ k := by
        rintro rfl
        exact h2 (t.position_unique hn hi)
      rw [if_neg hjk]
      exact t.get?_eq_some_iff.2 (Array.mem_of_getElem? hn)
  · intro hv
    split_ifs at hv with hjk
    obtain ⟨n, hn⟩ := Array.mem_iff_getElem?.1 (t.get?_eq_some_iff.1 hv)
    have hns : n < h.size := (Array.getElem?_eq_some_iff.1 hn).1
    have hni : n ≠ i := by
      rintro rfl
      rw [hi] at hn
      cases hn
      exact hjk rfl
    by_cases hnl : n = h.size - 1
    · exact ⟨i, by rw [if_pos (by omega), if_pos rfl, ← hnl, hn]⟩
    · exact ⟨n, by rw [if_pos (by omega), if_neg hni, hn]⟩

end Tracking

/-! ### The order -/

section Comparison

variable [LE V] [DecidableLE V] {h : KeyedHeap κ V}

/-- No entry is larger than the ones below it. -/
def Ordered (h : KeyedHeap κ V) : Prop := ∀ i, i ≠ 0 → h.ordered (parent i) i = true

/-- All entries but the one at `i` are in order, those above `i` and below `i` among them. -/
structure Misplaced (h : KeyedHeap κ V) (i : Nat) : Prop where
  away : ∀ j, j ≠ 0 → j ≠ i → parent j ≠ i → h.ordered (parent j) j = true
  across : i ≠ 0 → ∀ j, j ≠ 0 → parent j = i → h.ordered (parent i) j = true

/-- The entry at `i` is at most too low. -/
structure Light (h : KeyedHeap κ V) (i : Nat) : Prop extends h.Misplaced i where
  below : ∀ j, j ≠ 0 → parent j = i → h.ordered i j = true

/-- The entry at `i` is at most too high. -/
structure Heavy (h : KeyedHeap κ V) (i : Nat) : Prop extends h.Misplaced i where
  above : i ≠ 0 → h.ordered (parent i) i = true

theorem ordered_iff {i j : Nat} :
    h.ordered i j = true ↔
      ∀ x y, h.entries[i]? = some x → h.entries[j]? = some y → x.2 ≤ y.2 := by
  unfold ordered
  cases hi : h.entries[i]? with
  | none => simp
  | some x =>
      cases hj : h.entries[j]? with
      | none => simp
      | some y => simp

theorem ordered_of_size_le {i j : Nat} (hj : h.size ≤ j) : h.ordered i j = true := by
  rw [ordered_iff]
  intro x y _ hy
  rw [Array.getElem?_eq_none hj] at hy
  cases hy

theorem ordered_congr {h' : KeyedHeap κ V} {i j i' j' : Nat}
    (hi : h'.entries[i]? = h.entries[i']?) (hj : h'.entries[j]? = h.entries[j']?) :
    h'.ordered i j = h.ordered i' j' := by
  unfold ordered
  rw [hi, hj]

theorem Ordered.misplaced_of_eq {h' : KeyedHeap κ V} {i : Nat}
    (o : h.Ordered) (same : ∀ j, j ≠ i → h'.entries[j]? = h.entries[j]?)
    (across : i ≠ 0 → ∀ j, j ≠ 0 → parent j = i → h.ordered (parent i) j = true) :
    h'.Misplaced i where
  away j h0 hj hp := by
    rw [ordered_congr (same _ hp) (same _ hj)]
    exact o j h0
  across h0 j hj0 hj := by
    have hp : parent i ≠ i := Nat.ne_of_lt (parent_lt h0)
    have hji : j ≠ i := by have := parent_lt hj0; omega
    rw [ordered_congr (same _ hp) (same _ hji)]
    exact across h0 j hj0 hj

theorem smallerChild_eq (h : KeyedHeap κ V) (i : Nat) :
    h.smallerChild i = left i ∨ h.smallerChild i = right i ∧ right i < h.size := by
  unfold smallerChild
  split_ifs with hr
  · simp only [Bool.and_eq_true, decide_eq_true_eq] at hr
    exact Or.inr ⟨rfl, hr.1⟩
  · exact Or.inl rfl

theorem parent_smallerChild (h : KeyedHeap κ V) (i : Nat) : parent (h.smallerChild i) = i := by
  have := h.smallerChild_eq i
  unfold parent left right at *
  omega

theorem smallerChild_lt {i : Nat} (hl : left i < h.size) : h.smallerChild i < h.size := by
  rcases h.smallerChild_eq i with e | ⟨e, hr⟩
  · rwa [e]
  · rwa [e]

theorem Light.ordered {i : Nat} (m : h.Light i) (hi : i ≠ 0 → h.ordered (parent i) i = true) :
    h.Ordered := by
  intro j hj0
  by_cases hj : j = i
  · subst hj
    exact hi hj0
  · by_cases hp : parent j = i
    · rw [hp]
      exact m.below j hj0 hp
    · exact m.away j hj0 hj hp

theorem Heavy.ordered {i : Nat} (m : h.Heavy i)
    (hi : ∀ j, j ≠ 0 → parent j = i → h.ordered i j = true) : h.Ordered := by
  have m' : h.Light i := ⟨m.toMisplaced, hi⟩
  exact m'.ordered m.above

variable [Std.IsLinearPreorder V]

theorem ordered_refl (h : KeyedHeap κ V) (i : Nat) : h.ordered i i = true := by
  rw [ordered_iff]
  intro x y hx hy
  rw [hx] at hy
  cases hy
  exact Std.le_refl _

theorem ordered_trans {i j k : Nat} (hj : j < h.size) (hij : h.ordered i j = true)
    (hjk : h.ordered j k = true) : h.ordered i k = true := by
  rw [ordered_iff] at hij hjk ⊢
  intro x z hx hz
  have hy : h.entries[j]? = some h.entries[j] := Array.getElem?_eq_getElem hj
  exact Std.le_trans (hij _ _ hx hy) (hjk _ _ hy hz)

theorem ordered_of_not_ordered {i j : Nat} (hij : ¬ h.ordered i j = true) :
    h.ordered j i = true := by
  rw [ordered_iff]
  intro y x hy hx
  rcases Std.le_total (a := x.2) (b := y.2) with hxy | hyx
  · refine absurd (ordered_iff.2 ?_) hij
    intro x' y' hx' hy'
    rw [hx] at hx'
    rw [hy] at hy'
    cases hx'
    cases hy'
    exact hxy
  · exact hyx

/-- In an ordered heap an entry is no larger than the ones two levels below it. -/
theorem Ordered.across (o : h.Ordered) {i j : Nat} (hi : i ≠ 0) (hj : j ≠ 0) (hp : parent j = i) :
    h.ordered (parent i) j = true := by
  by_cases hs : j < h.size
  · have hlt : i < h.size := by have := parent_lt hj; omega
    exact ordered_trans hlt (o i hi) (by have := o j hj; rwa [hp] at this)
  · exact ordered_of_size_le (by omega)

theorem Ordered.root_le (o : h.Ordered) (i : Nat) : h.ordered 0 i = true := by
  induction i using Nat.strongRecOn with
  | ind i ih =>
    by_cases hi : i = 0
    · subst hi
      exact ordered_refl h 0
    · by_cases hs : i < h.size
      · have hp := parent_lt hi
        exact ordered_trans (by omega) (ih (parent i) hp) (o i hi)
      · exact ordered_of_size_le (by omega)

theorem Ordered.heavy (o : h.Ordered) (i : Nat) : h.Heavy i where
  away j hj0 _ _ := o j hj0
  across hi _ hj0 hp := o.across hi hj0 hp
  above hi := o i hi

theorem ordered_smallerChild (h : KeyedHeap κ V) {i j : Nat} (hj0 : j ≠ 0) (hp : parent j = i) :
    h.ordered (h.smallerChild i) j = true := by
  rw [parent_eq_iff hj0] at hp
  unfold smallerChild
  split_ifs with hr
  · simp only [Bool.and_eq_true, decide_eq_true_eq, Bool.not_eq_true'] at hr
    rcases hp with rfl | rfl
    · exact ordered_of_not_ordered (by simp [hr.2])
    · exact ordered_refl h _
  · simp only [Bool.and_eq_true, decide_eq_true_eq, Bool.not_eq_true', not_and,
      Bool.not_eq_false] at hr
    rcases hp with rfl | rfl
    · exact ordered_refl h _
    · by_cases hs : right i < h.size
      · exact hr hs
      · exact ordered_of_size_le (by omega)

end Comparison

/-! ### Sifting -/

section Sifting

variable [DecidableEq κ] [LE V] [DecidableLE V] {h : KeyedHeap κ V}

theorem ordered_swap {i j : Nat} (hi : i < h.size) (hj : j < h.size) (a b : Nat) :
    (h.swap i j).ordered a b = h.ordered (exchange i j a) (exchange i j b) :=
  ordered_congr (getElem?_entries_swap hi hj a) (getElem?_entries_swap hi hj b)

theorem perm_siftUp (h : KeyedHeap κ V) (i : Nat) : (h.siftUp i).1.entries.Perm h.entries := by
  induction h, i using siftUp.induct with
  | case1 h => rw [siftUp, if_pos rfl]
  | case2 h i hi ho => rw [siftUp, if_neg hi, if_pos ho]
  | case3 h i hi ho ih =>
    rw [siftUp, if_neg hi, if_neg ho]
    exact ih.trans (perm_swap h i (parent i))

theorem perm_siftDown (h : KeyedHeap κ V) (i : Nat) : (h.siftDown i).entries.Perm h.entries := by
  induction h, i using siftDown.induct with
  | case1 h i hl c ho => rw [siftDown, if_pos hl, if_pos ho]
  | case2 h i hl c ho ih =>
    rw [siftDown, if_pos hl, if_neg ho]
    exact ih.trans (perm_swap h i c)
  | case3 h i hl => rw [siftDown, if_neg hl]

theorem perm_restore (h : KeyedHeap κ V) (i : Nat) : (h.restore i).entries.Perm h.entries :=
  (perm_siftDown _ _).trans (perm_siftUp h i)

theorem Tracked.siftUp (t : h.Tracked) {i : Nat} (hi : i < h.size) : (h.siftUp i).1.Tracked := by
  induction h, i using siftUp.induct with
  | case1 h => rwa [KeyedHeap.siftUp, if_pos rfl]
  | case2 h i h0 ho => rwa [KeyedHeap.siftUp, if_neg h0, if_pos ho]
  | case3 h i h0 ho ih =>
    rw [KeyedHeap.siftUp, if_neg h0, if_neg ho]
    have hp : parent i < h.size := by have := parent_lt h0; omega
    exact ih (t.swap hi hp) (by rwa [size_swap])

theorem Tracked.siftDown (t : h.Tracked) {i : Nat} (hi : i < h.size) : (h.siftDown i).Tracked := by
  induction h, i using siftDown.induct with
  | case1 h i hl c ho => rwa [KeyedHeap.siftDown, if_pos hl, if_pos ho]
  | case2 h i hl c ho ih =>
    rw [KeyedHeap.siftDown, if_pos hl, if_neg ho]
    have hc : c < h.size := smallerChild_lt hl
    exact ih (t.swap hi hc) (by rwa [size_swap])
  | case3 h i hl => rwa [KeyedHeap.siftDown, if_neg hl]

theorem siftUp_lt {i : Nat} (hi : i < h.size) : (h.siftUp i).2 < h.size := by
  induction h, i using siftUp.induct with
  | case1 h => rwa [siftUp, if_pos rfl]
  | case2 h i h0 ho => rwa [siftUp, if_neg h0, if_pos ho]
  | case3 h i h0 ho ih =>
    rw [siftUp, if_neg h0, if_neg ho]
    have hp : parent i < h.size := by have := parent_lt h0; omega
    have := ih (by rwa [size_swap])
    rwa [size_swap] at this

theorem Tracked.restore (t : h.Tracked) {i : Nat} (hi : i < h.size) : (h.restore i).Tracked := by
  have hs : (h.siftUp i).1.size = h.size := (perm_siftUp h i).size_eq
  exact (t.siftUp hi).siftDown (by rw [hs]; exact siftUp_lt hi)

variable [Std.IsLinearPreorder V]

/-- An entry that is smaller than the one above it changes places with it. -/
theorem Misplaced.swap_parent {i : Nat} (m : h.Misplaced i) (h0 : i ≠ 0) (hi : i < h.size)
    (ho : ¬ h.ordered (parent i) i = true) : (h.swap i (parent i)).Light (parent i) := by
  have hlt := parent_lt h0
  have hp : parent i < h.size := by omega
  have flipped : h.ordered i (parent i) = true := ordered_of_not_ordered ho
  have up : parent i ≠ 0 → h.ordered (parent (parent i)) (parent i) = true := fun hp0 =>
    m.away (parent i) hp0 (by omega) (by have := parent_lt hp0; omega)
  -- what lies below the old parent is no smaller than it
  have under : ∀ j, j ≠ 0 → parent j = parent i →
      h.ordered (parent i) (exchange i (parent i) j) = true := by
    intro j hj0 hj
    have hjlt := parent_lt hj0
    by_cases hji : j = i
    · rw [hji, exchange_left]
      exact ordered_refl h _
    · rw [exchange_of_ne hji (by omega)]
      have := m.away j hj0 hji (by omega)
      rwa [hj] at this
  constructor
  · constructor
    · intro j hj0 hj hpj
      have hjlt := parent_lt hj0
      rw [ordered_swap hi hp]
      have hji : j ≠ i := fun e => hpj (by rw [e])
      rw [exchange_of_ne hji hj]
      by_cases hpi : parent j = i
      · rw [hpi, exchange_left]
        exact m.across h0 j hj0 hpi
      · rw [exchange_of_ne hpi hpj]
        exact m.away j hj0 hji hpi
    · intro hp0 j hj0 hj
      have hplt := parent_lt hp0
      rw [ordered_swap hi hp, exchange_of_ne (k := parent (parent i)) (by omega) (by omega)]
      exact ordered_trans hp (up hp0) (under j hj0 hj)
  · intro j hj0 hj
    rw [ordered_swap hi hp, exchange_right]
    exact ordered_trans hp flipped (under j hj0 hj)

theorem Light.siftUp_ordered {i : Nat} (m : h.Light i) (hi : i < h.size) :
    (h.siftUp i).1.Ordered := by
  induction h, i using siftUp.induct with
  | case1 h =>
    rw [siftUp, if_pos rfl]
    exact m.ordered fun h0 => absurd rfl h0
  | case2 h i h0 ho =>
    rw [siftUp, if_neg h0, if_pos ho]
    exact m.ordered fun _ => ho
  | case3 h i h0 ho ih =>
    rw [siftUp, if_neg h0, if_neg ho]
    have hp : parent i < h.size := by have := parent_lt h0; omega
    exact ih (m.toMisplaced.swap_parent h0 hi ho) (by rwa [size_swap])

/-- After moving up, an entry is at most too high. -/
theorem Misplaced.siftUp_heavy {i : Nat} (m : h.Misplaced i) (hi : i < h.size) :
    (h.siftUp i).1.Heavy (h.siftUp i).2 := by
  rw [siftUp]
  split_ifs with h0 ho
  · exact ⟨m, fun h => absurd h0 h⟩
  · exact ⟨m, fun _ => ho⟩
  · have hp : parent i < h.size := by have := parent_lt h0; omega
    exact ((m.swap_parent h0 hi ho).siftUp_ordered (by rwa [size_swap])).heavy _

theorem Heavy.swap_smallerChild {i : Nat} (m : h.Heavy i) (hl : left i < h.size)
    (ho : ¬ h.ordered i (h.smallerChild i) = true) :
    (h.swap i (h.smallerChild i)).Heavy (h.smallerChild i) := by
  have hc := smallerChild_lt hl
  have hpc := h.parent_smallerChild i
  have hlt := h.lt_smallerChild i
  have least := fun j => h.ordered_smallerChild (i := i) (j := j)
  generalize h.smallerChild i = c at hc hpc hlt ho least ⊢
  have hi : i < h.size := by omega
  have flipped : h.ordered c i = true := ordered_of_not_ordered ho
  have hc0 : c ≠ 0 := by omega
  constructor
  · constructor
    · intro j hj0 hj hpj
      have hjlt := parent_lt hj0
      rw [ordered_swap hi hc]
      by_cases hji : j = i
      · subst hji
        rw [exchange_left, exchange_of_ne (by omega) (by omega)]
        exact m.across hj0 c hc0 hpc
      · rw [exchange_of_ne hji hj]
        by_cases hpi : parent j = i
        · rw [hpi, exchange_left]
          exact least j hj0 hpi
        · rw [exchange_of_ne hpi hpj]
          exact m.away j hj0 hji hpi
    · intro _ j hj0 hj
      have hjlt := parent_lt hj0
      rw [hpc, ordered_swap hi hc, exchange_left, exchange_of_ne (by omega) (by omega)]
      have := m.away j hj0 (by omega) (by omega)
      rwa [hj] at this
  · intro _
    rw [hpc, ordered_swap hi hc, exchange_left, exchange_right]
    exact flipped

theorem Heavy.siftDown_ordered {i : Nat} (m : h.Heavy i) : (h.siftDown i).Ordered := by
  induction h, i using siftDown.induct with
  | case1 h i hl c ho =>
    rw [siftDown, if_pos hl, if_pos ho]
    exact m.ordered fun j hj0 hp =>
      ordered_trans (smallerChild_lt hl) ho (h.ordered_smallerChild hj0 hp)
  | case2 h i hl c ho ih =>
    rw [siftDown, if_pos hl, if_neg ho]
    exact ih (m.swap_smallerChild hl ho)
  | case3 h i hl =>
    rw [siftDown, if_neg hl]
    refine m.ordered fun j hj0 hp => ordered_of_size_le ?_
    rw [parent_eq_iff hj0] at hp
    unfold left right at *
    omega

theorem Misplaced.restore_ordered {i : Nat} (m : h.Misplaced i) (hi : i < h.size) :
    (h.restore i).Ordered :=
  (m.siftUp_heavy hi).siftDown_ordered

end Sifting

/-! ### Updates -/

section Updates

variable [DecidableEq κ] [LE V] [DecidableLE V] {h : KeyedHeap κ V}

/-- The positions are right and the entries are in order. -/
structure WF (h : KeyedHeap κ V) : Prop where
  tracked : h.Tracked
  ordered : h.Ordered

theorem wf_empty : WF ({} : KeyedHeap κ V) where
  tracked := tracked_empty
  ordered i _ := ordered_of_size_le (Nat.zero_le i)

theorem eraseAt_eq (h : KeyedHeap κ V) (k : κ) (i : Nat) :
    h.eraseAt k i = if i < (h.cut k i).size then (h.cut k i).restore i else h.cut k i := rfl

theorem Tracked.insert (t : h.Tracked) (k : κ) (v : V) : (h.insert k v).Tracked := by
  unfold KeyedHeap.insert
  cases hk : h.positions.find? k with
  | none => exact (t.push hk v).siftUp (by simp [size])
  | some i =>
      obtain ⟨w, hw⟩ := (t k i).1 hk
      exact (t.set hw v).restore (by simpa [size] using (Array.getElem?_eq_some_iff.1 hw).1)

theorem Tracked.eraseAt (t : h.Tracked) {k : κ} {i : Nat} {w : V}
    (hi : h.entries[i]? = some (k, w)) : (h.eraseAt k i).Tracked := by
  rw [eraseAt_eq]
  split_ifs with hs
  · exact (t.cut hi).restore hs
  · exact t.cut hi

theorem get?_insert (t : h.Tracked) (k j : κ) (v : V) :
    (h.insert k v).get? j = if j = k then some v else h.get? j := by
  have t' := t.insert k v
  unfold insert at t' ⊢
  cases hk : h.positions.find? k with
  | none =>
      simp only [hk] at t' ⊢
      rw [(t.push hk v).get?_congr t' (perm_siftUp _ _), t.get?_push]
  | some i =>
      simp only [hk] at t' ⊢
      obtain ⟨w, hw⟩ := (t k i).1 hk
      rw [(t.set hw v).get?_congr t' (perm_restore _ _), t.get?_set hw]

theorem get?_erase (t : h.Tracked) (k j : κ) :
    (h.erase k).get? j = if j = k then none else h.get? j := by
  unfold erase
  cases hk : h.positions.find? k with
  | none =>
      simp only
      split_ifs with hj
      · simp [hj, get?, hk]
      · rfl
  | some i =>
      obtain ⟨w, hw⟩ := (t k i).1 hk
      have p : (h.eraseAt k i).entries.Perm (h.cut k i).entries := by
        rw [eraseAt_eq]
        split_ifs
        · exact perm_restore _ _
        · exact Array.Perm.refl _
      rw [(t.cut hw).get?_congr (t.eraseAt hw) p, t.get?_cut hw]

theorem Ordered.siftDown_eq (o : h.Ordered) (i : Nat) : h.siftDown i = h := by
  unfold siftDown
  dsimp only
  split_ifs with hl hc
  · rfl
  · have lt := h.lt_smallerChild i
    have below := o (h.smallerChild i) (by omega)
    rw [parent_smallerChild] at below
    exact absurd below hc
  · rfl

/-- Nothing changes if the entry on top is given the value that it has. -/
theorem WF.insert_of_min? (w : h.WF) {k : κ} {v : V} (he : h.min? = some (k, v)) :
    h.insert k v = h := by
  have position : h.positions.find? k = some 0 := (w.tracked k 0).2 ⟨v, he⟩
  have same : ({ h with entries := h.entries.setIfInBounds 0 (k, v) } : KeyedHeap κ V) = h := by
    have entries : h.entries.setIfInBounds 0 (k, v) = h.entries := by
      obtain ⟨lt, top⟩ := Array.getElem?_eq_some_iff.1 he
      rw [Array.setIfInBounds_def, dif_pos lt, ← top, Array.set_getElem_self]
    rw [entries]
  unfold KeyedHeap.insert
  rw [position]
  dsimp only
  rw [same]
  unfold restore siftUp
  exact w.ordered.siftDown_eq 0

variable [Std.IsLinearPreorder V]

theorem WF.insert (w : h.WF) (k : κ) (v : V) : (h.insert k v).WF := by
  refine ⟨w.tracked.insert k v, ?_⟩
  unfold KeyedHeap.insert
  cases hk : h.positions.find? k with
  | none =>
      -- the new entry is the last one, so nothing lies below it
      have bottom : ∀ j, j ≠ 0 → parent j = h.size → h.size + 1 ≤ j := by
        intro j hj0 hj
        have := parent_lt hj0
        omega
      have same : ∀ j, j ≠ h.size → (h.entries.push (k, v))[j]? = h.entries[j]? := by
        intro j hj
        unfold size at hj
        rw [Array.getElem?_push, if_neg hj]
      refine Light.siftUp_ordered ⟨w.ordered.misplaced_of_eq same fun h0 j hj0 hj =>
        w.ordered.across h0 hj0 hj, fun j hj0 hj => ordered_of_size_le ?_⟩ (by simp [size])
      simpa [size] using bottom j hj0 hj
  | some i =>
      obtain ⟨x, hx⟩ := (w.tracked k i).1 hk
      have hlt : i < h.entries.size := (Array.getElem?_eq_some_iff.1 hx).1
      have same : ∀ j, j ≠ i → (h.entries.setIfInBounds i (k, v))[j]? = h.entries[j]? := by
        intro j hj
        rw [Array.getElem?_setIfInBounds, if_neg (Ne.symm hj)]
      exact (w.ordered.misplaced_of_eq same fun h0 j hj0 hj =>
        w.ordered.across h0 hj0 hj).restore_ordered (by simpa [size] using hlt)

/-- In the place of a removed entry, only the entry that has moved there may be out of order. -/
theorem Ordered.cut_misplaced (o : h.Ordered) (k : κ) {i : Nat} (hi : i < h.size) :
    (h.cut k i).Misplaced i where
  away j hj0 hj hp := by
    by_cases hs : j < h.size - 1
    · have hlt := parent_lt hj0
      refine (ordered_congr ?_ ?_).trans (o j hj0)
      · rw [getElem?_cut hi, if_pos (by omega), if_neg hp]
      · rw [getElem?_cut hi, if_pos hs, if_neg hj]
    · exact ordered_of_size_le (by rw [size_cut]; omega)
  across hi0 j hj0 hj := by
    by_cases hs : j < h.size - 1
    · have hlt := parent_lt hj0
      have hlt' := parent_lt hi0
      refine (ordered_congr ?_ ?_).trans (o.across hi0 hj0 hj)
      · rw [getElem?_cut hi, if_pos (by omega), if_neg (by omega)]
      · rw [getElem?_cut hi, if_pos hs, if_neg (by omega)]
    · exact ordered_of_size_le (by rw [size_cut]; omega)

theorem WF.erase (w : h.WF) (k : κ) : (h.erase k).WF := by
  unfold KeyedHeap.erase
  cases hk : h.positions.find? k with
  | none => exact w
  | some i =>
      obtain ⟨x, hx⟩ := (w.tracked k i).1 hk
      have hlt : i < h.size := (Array.getElem?_eq_some_iff.1 hx).1
      have m := w.ordered.cut_misplaced k hlt
      refine ⟨w.tracked.eraseAt hx, ?_⟩
      simp only [eraseAt_eq]
      split_ifs with hs
      · exact m.restore_ordered hs
      · -- the removed entry was the last one
        intro j hj0
        by_cases hj : j < (h.cut k i).size
        · have hlt := parent_lt hj0
          exact m.away j hj0 (by omega) (by omega)
        · exact ordered_of_size_le (by omega)

/-- The entry on top has the least value. -/
theorem WF.min?_le (w : h.WF) {e : κ × V} (he : h.min? = some e) {k : κ} {v : V}
    (hk : h.get? k = some v) : e.2 ≤ v := by
  obtain ⟨i, hi⟩ := Array.mem_iff_getElem?.1 (w.tracked.get?_eq_some_iff.1 hk)
  exact ordered_iff.1 (w.ordered.root_le i) e (k, v) he hi

end Updates

end KeyedHeap

end Dispatch
