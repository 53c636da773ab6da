import Dispatch.Proofs.Collection.KeyedHeap

/-!
# No lookup in a heap fails

The operations of a heap look up entries by their positions and positions by their keys, and take it
for granted that there is something to find.  `Checked` holds the same operations once more, with
`none` for an answer when a lookup finds nothing: a position outside the array, an entry whose key
has no position, or the last entry of an empty array.  While the positions are tracked this never
happens, and a checked operation answers what the operation itself does (`Tracked.checked_insert`,
`Tracked.checked_remove`, `Tracked.checked_pop`).
-/

namespace Dispatch.KeyedHeap

variable {κ V : Type}

namespace Checked

section

variable [LE V] [DecidableLE V]

/-- The entry at `i` may stand above the one at `j`, if there are entries at both places. -/
def ordered (h : KeyedHeap κ V) (i j : Nat) : Option Bool := do
  let x ← h.entries[i]?
  let y ← h.entries[j]?
  return decide (x.2 ≤ y.2)

/-- The place of the smaller child of `i`, the left one if they are equal.  The left child is taken
to be there. -/
def smallerChild (h : KeyedHeap κ V) (i : Nat) : Option Nat :=
  if right i < h.size then do
    let le ← ordered h (left i) (right i)
    return if le then left i else right i
  else some (left i)

theorem lt_of_smallerChild {h : KeyedHeap κ V} {i c : Nat} (e : smallerChild h i = some c) :
    i < c := by
  unfold smallerChild left right at e
  split_ifs at e
  · obtain ⟨le, -, e⟩ := Option.bind_eq_some_iff.1 e
    have e : (if le then 2 * i + 1 else 2 * i + 2) = c := Option.some.inj e
    split_ifs at e <;> omega
  · have e : 2 * i + 1 = c := Option.some.inj e
    omega

end

variable [DecidableEq κ]

/-- Records the position of the entry at `i`, whose key must have one already. -/
def record (h : KeyedHeap κ V) (i : Nat) : Option (KeyedHeap κ V) := do
  let e ← h.entries[i]?
  let _ ← h.positions.find? e.1
  return { h with positions := h.positions.insert e.1 i }

/-- Exchanges two entries and leaves their positions as they were. -/
def exchange (h : KeyedHeap κ V) (i j : Nat) : Option (KeyedHeap κ V) := do
  let _ ← h.entries[i]?
  let _ ← h.entries[j]?
  return { h with entries := h.entries.swapIfInBounds i j }

/-- Exchanges two entries, and records their places one after the other. -/
def swap (h : KeyedHeap κ V) (i j : Nat) : Option (KeyedHeap κ V) := do
  let h ← exchange h i j
  let h ← record h i
  record h j

theorem entries_of_record {h h' : KeyedHeap κ V} {i : Nat} (e : record h i = some h') :
    h'.entries = h.entries := by
  obtain ⟨x, -, e⟩ := Option.bind_eq_some_iff.1 e
  obtain ⟨n, -, e⟩ := Option.bind_eq_some_iff.1 e
  rw [← Option.some.inj e]

theorem size_of_swap {h h' : KeyedHeap κ V} {i j : Nat} (e : swap h i j = some h') :
    h'.size = h.size := by
  obtain ⟨h₁, e₁, e⟩ := Option.bind_eq_some_iff.1 e
  obtain ⟨h₂, e₂, e⟩ := Option.bind_eq_some_iff.1 e
  obtain ⟨x, -, e₁⟩ := Option.bind_eq_some_iff.1 e₁
  obtain ⟨y, -, e₁⟩ := Option.bind_eq_some_iff.1 e₁
  unfold size
  rw [entries_of_record e, entries_of_record e₂, ← Option.some.inj e₁]
  exact Array.size_swapIfInBounds

/-- There are two ways to have no answer: a lookup fails (`none`), or there is nothing under the
key. -/
def get (h : KeyedHeap κ V) (k : κ) : Option (Option V) :=
  match h.positions.find? k with
  | none => some none
  | some i => do
    let e ← h.entries[i]?
    return some e.2

variable [LE V] [DecidableLE V]

/-- Moves an entry up until the one above it is not larger, and answers where it stops. -/
def siftUp (h : KeyedHeap κ V) (i : Nat) : Option (KeyedHeap κ V × Nat) :=
  if i = 0 then some (h, i)
  else do
    let le ← ordered h (parent i) i
    if le then return (h, i)
    let h ← swap h i (parent i)
    siftUp h (parent i)
termination_by i
decreasing_by exact parent_lt (by assumption)

/-- Moves an entry down until no child of it is smaller. -/
def siftDown (h : KeyedHeap κ V) (i : Nat) : Option (KeyedHeap κ V) :=
  if left i < h.size then
    -- the recursion ends because the child is further down and a swap keeps the size
    match _ : smallerChild h i with
    | none => none
    | some c => do
      let le ← ordered h i c
      if le then return h
      match _ : swap h i c with
      | none => none
      | some h' => siftDown h' c
  else some h
termination_by h.size - i
decreasing_by
  have lower : i < c := lt_of_smallerChild (by assumption)
  have same : h'.size = h.size := size_of_swap (by assumption)
  unfold left at *
  omega

/-- The equations in the two cases matter to the recursion only. -/
theorem siftDown_eq (h : KeyedHeap κ V) (i : Nat) : siftDown h i =
    if left i < h.size then do
      let c ← smallerChild h i
      let le ← ordered h i c
      if le then return h
      let h ← swap h i c
      siftDown h c
    else some h := by
  rw [siftDown]
  split_ifs with hl
  · split
    · next failed => rw [failed]; rfl
    · next c found =>
      rw [found]
      refine congrArg (Option.bind (ordered h i c)) (funext fun le => ?_)
      split_ifs
      · rfl
      · split
        · next failed => rw [failed]; rfl
        · next h' swapped => rw [swapped]; rfl
  · rfl

/-- Puts the entry at `i`, which may be out of order in either direction, in its place. -/
def restore (h : KeyedHeap κ V) (i : Nat) : Option (KeyedHeap κ V) := do
  let (h, j) ← siftUp h i
  siftDown h j

/-- Enters a value, in the place of the one that the key has, if it has one. -/
def insert (h : KeyedHeap κ V) (k : κ) (v : V) : Option (KeyedHeap κ V) :=
  match h.positions.find? k with
  | some i => do
    let e ← h.entries[i]?
    restore { h with entries := h.entries.setIfInBounds i (e.1, v) } i
  | none => do
    let (h, _) ← siftUp ⟨h.entries.push (k, v), h.positions.insert k h.size⟩ h.size
    return h

/-- Takes the entry at `i` away, whose key is `k`, and answers its value.  The last entry moves into
its place. -/
def cut (h : KeyedHeap κ V) (k : κ) (i : Nat) : Option (V × KeyedHeap κ V) := do
  -- there is a last entry before the exchange, and it is read again after it
  let _ ← h.entries.back?
  let last := h.size - 1
  let h : KeyedHeap κ V := { h with positions := h.positions.erase k }
  let h ← if i = last then some h else (exchange h i last).bind fun h => record h i
  let e ← h.entries.back?
  return (e.2, { h with entries := h.entries.pop })

/-- Takes the entry of a key out.  The last entry fills the gap and is put in order. -/
def remove (h : KeyedHeap κ V) (k : κ) : Option (Option V × KeyedHeap κ V) :=
  match h.positions.find? k with
  | none => some (none, h)
  | some i => do
    let (v, h) ← cut h k i
    let h ← if i < h.size then restore h i else some h
    return (some v, h)

/-- Takes the least entry out, which is found by its key. -/
def pop (h : KeyedHeap κ V) : Option (Option (κ × V) × KeyedHeap κ V) :=
  match h.min? with
  | none => some (none, h)
  | some e => do
    let (v, h) ← remove h e.1
    return (v.map fun v => (e.1, v), h)

end Checked

variable {h : KeyedHeap κ V} {k : κ} {i j : Nat}

section

variable [LE V] [DecidableLE V]

theorem checked_ordered (hi : i < h.size) (hj : j < h.size) :
    Checked.ordered h i j = some (h.ordered i j) := by
  unfold Checked.ordered ordered
  rw [Array.getElem?_eq_getElem hi, Array.getElem?_eq_getElem hj]
  rfl

theorem checked_smallerChild (hl : left i < h.size) :
    Checked.smallerChild h i = some (h.smallerChild i) := by
  unfold Checked.smallerChild smallerChild
  by_cases hr : right i < h.size
  · rw [if_pos hr, checked_ordered hl hr]
    cases h.ordered (left i) (right i) <;> simp [hr]
  · simp [hr]

end

theorem checked_exchange (hi : i < h.size) (hj : j < h.size) : Checked.exchange h i j =
    some { h with entries := h.entries.swapIfInBounds i j } := by
  unfold Checked.exchange
  rw [Array.getElem?_eq_getElem hi, Array.getElem?_eq_getElem hj]
  rfl

variable [DecidableEq κ]

/-! ### Swapping -/

theorem checked_record {e : κ × V} {n : Nat} (he : h.entries[i]? = some e)
    (known : h.positions.find? e.1 = some n) : Checked.record h i = some (h.record i) := by
  rw [record_eq he]
  unfold Checked.record
  rw [he]
  show (h.positions.find? e.1).bind _ = _
  rw [known]
  rfl

theorem getElem?_swapIfInBounds (hi : i < h.size) (hj : j < h.size) (k : Nat) :
    (h.entries.swapIfInBounds i j)[k]? = h.entries[exchange i j k]? := by
  rw [← getElem?_entries_swap hi hj, entries_swap]

theorem Tracked.checked_swap (t : h.Tracked) (hi : i < h.size) (hj : j < h.size) :
    Checked.swap h i j = some (h.swap i j) := by
  obtain ⟨a, ha⟩ : ∃ a, h.entries[i]? = some a := ⟨_, Array.getElem?_eq_getElem hi⟩
  obtain ⟨b, hb⟩ : ∃ b, h.entries[j]? = some b := ⟨_, Array.getElem?_eq_getElem hj⟩
  let h' : KeyedHeap κ V := { h with entries := h.entries.swapIfInBounds i j }
  have hi' : h'.entries[i]? = some b :=
    (getElem?_swapIfInBounds hi hj i).trans (by rw [exchange_left, hb])
  have hj' : h'.entries[j]? = some a :=
    (getElem?_swapIfInBounds hi hj j).trans (by rw [exchange_right, ha])
  have first : Checked.record h' i = some (h'.record i) :=
    checked_record hi' ((t b.1 j).2 ⟨b.2, hb⟩)
  -- the other key has still a position when the first one is recorded
  obtain ⟨n, known⟩ : ∃ n, (h'.record i).positions.find? a.1 = some n := by
    rw [record_eq hi', Table.find?_insert]
    split_ifs
    · exact ⟨i, rfl⟩
    · exact ⟨i, (t a.1 i).2 ⟨a.2, ha⟩⟩
  have second : Checked.record (h'.record i) j = some ((h'.record i).record j) :=
    checked_record (by rwa [entries_record]) known
  unfold Checked.swap
  rw [checked_exchange hi hj]
  show (Checked.record h' i).bind (Checked.record · j) = _
  rw [first]
  exact second

theorem Tracked.checked_get (t : h.Tracked) (k : κ) : Checked.get h k = some (h.get? k) := by
  unfold Checked.get get?
  cases hk : h.positions.find? k with
  | none => rfl
  | some i =>
      obtain ⟨v, hv⟩ := (t k i).1 hk
      simp [hv]

/-! ### Taking an entry away -/

theorem Tracked.checked_cut (t : h.Tracked) {w : V} (hi : h.entries[i]? = some (k, w)) :
    Checked.cut h k i = some (w, h.cut k i) := by
  have lt : i < h.size := (Array.getElem?_eq_some_iff.1 hi).1
  have last : h.size - 1 < h.size := by omega
  obtain ⟨e, he⟩ : ∃ e, h.entries[h.size - 1]? = some e := ⟨_, Array.getElem?_eq_getElem last⟩
  have back : h.entries.back? = some e := he
  unfold Checked.cut KeyedHeap.cut
  rw [back]
  by_cases same : i = h.size - 1
  · have removed : h.entries.back? = some (k, w) := by
      rw [same] at hi
      exact hi
    simp [same, removed]
  · let h' : KeyedHeap κ V :=
      ⟨h.entries.swapIfInBounds i (h.size - 1), h.positions.erase k⟩
    have moved : h'.entries[i]? = some e :=
      (getElem?_swapIfInBounds lt last i).trans (by rw [exchange_left, he])
    have removed : h'.entries[h.size - 1]? = some (k, w) :=
      (getElem?_swapIfInBounds lt last (h.size - 1)).trans (by rw [exchange_right, hi])
    have other : e.1 ≠ k := by
      rintro rfl
      exact same (t.position_unique hi he)
    have known : h'.positions.find? e.1 = some (h.size - 1) := by
      rw [Table.find?_erase, if_neg other]
      exact (t e.1 _).2 ⟨e.2, he⟩
    have exchanged : Checked.exchange { h with positions := h.positions.erase k } i (h.size - 1) =
        some h' := checked_exchange (h := { h with positions := h.positions.erase k }) lt last
    have recorded : Checked.record h' i = some (h'.record i) := checked_record moved known
    have popped : (h'.record i).entries.back? = some (k, w) := by
      have size : h'.entries.size = h.size := Array.size_swapIfInBounds
      rw [entries_record, Array.back?_eq_getElem?, size, removed]
    simp only [same, if_false]
    show ((Checked.exchange _ i (h.size - 1)).bind fun h => Checked.record h i).bind _ = _
    rw [exchanged, Option.bind_some, recorded, Option.bind_some]
    show ((h'.record i).entries.back?).bind _ = _
    rw [popped]
    rfl

/-! ### Sifting -/

variable [LE V] [DecidableLE V]

theorem Tracked.checked_siftUp (t : h.Tracked) (hi : i < h.size) :
    Checked.siftUp h i = some (h.siftUp i) := by
  induction h, i using KeyedHeap.siftUp.induct with
  | case1 h => rw [Checked.siftUp, KeyedHeap.siftUp, if_pos rfl, if_pos rfl]
  | case2 h i h0 ho =>
    have hp : parent i < h.size := by have := parent_lt h0; omega
    rw [Checked.siftUp, KeyedHeap.siftUp, if_neg h0, if_neg h0, checked_ordered hp hi]
    simp [ho]
  | case3 h i h0 ho ih =>
    have hp : parent i < h.size := by have := parent_lt h0; omega
    rw [Checked.siftUp, KeyedHeap.siftUp, if_neg h0, if_neg h0, checked_ordered hp hi,
      t.checked_swap hi hp]
    simpa [ho] using ih (t.swap hi hp) (by rwa [size_swap])

theorem Tracked.checked_siftDown (t : h.Tracked) (hi : i < h.size) :
    Checked.siftDown h i = some (h.siftDown i) := by
  induction h, i using KeyedHeap.siftDown.induct with
  | case1 h i hl c ho =>
    have hc : c < h.size := smallerChild_lt hl
    rw [Checked.siftDown_eq, KeyedHeap.siftDown, if_pos hl, if_pos hl, if_pos ho,
      checked_smallerChild hl]
    show (Checked.ordered h i c).bind _ = _
    rw [checked_ordered hi hc]
    simp [ho]
  | case2 h i hl c ho ih =>
    have hc : c < h.size := smallerChild_lt hl
    rw [Checked.siftDown_eq, KeyedHeap.siftDown, if_pos hl, if_pos hl, if_neg ho,
      checked_smallerChild hl]
    have swapped : Checked.swap h i (h.smallerChild i) = some (h.swap i (h.smallerChild i)) :=
      t.checked_swap hi hc
    show (Checked.ordered h i c).bind _ = _
    rw [checked_ordered hi hc]
    simpa [ho, swapped] using ih (t.swap hi hc) (by rwa [size_swap])
  | case3 h i hl => rw [Checked.siftDown_eq, KeyedHeap.siftDown, if_neg hl, if_neg hl]

theorem Tracked.checked_restore (t : h.Tracked) (hi : i < h.size) :
    Checked.restore h i = some (h.restore i) := by
  have size : (h.siftUp i).1.size = h.size := (perm_siftUp h i).size_eq
  unfold Checked.restore
  rw [t.checked_siftUp hi]
  exact (t.siftUp hi).checked_siftDown (by rw [size]; exact siftUp_lt hi)

/-! ### Updates -/

theorem Tracked.checked_insert (t : h.Tracked) (k : κ) (v : V) :
    Checked.insert h k v = some (h.insert k v) := by
  unfold Checked.insert KeyedHeap.insert
  cases hk : h.positions.find? k with
  | none =>
      dsimp only
      rw [(t.push hk v).checked_siftUp (by simp [size])]
      rfl
  | some i =>
      obtain ⟨w, hw⟩ := (t k i).1 hk
      have hi : i < h.entries.size := (Array.getElem?_eq_some_iff.1 hw).1
      dsimp only
      rw [hw]
      exact (t.set hw v).checked_restore (by simpa [size] using hi)

theorem Tracked.checked_remove (t : h.Tracked) (k : κ) :
    Checked.remove h k = some (h.remove k) := by
  unfold Checked.remove KeyedHeap.remove KeyedHeap.erase
  cases hk : h.positions.find? k with
  | none => simp [get?, hk]
  | some i =>
      obtain ⟨w, hw⟩ := (t k i).1 hk
      have value : h.get? k = some w := t.get?_eq_some_iff.2 (Array.mem_of_getElem? hw)
      simp only [t.checked_cut hw, value, eraseAt_eq]
      show (if i < (h.cut k i).size then (Checked.restore (h.cut k i) i).bind _ else _) = _
      split_ifs with hs
      · rw [(t.cut hw).checked_restore hs]
        rfl
      · rfl

theorem Tracked.checked_pop (t : h.Tracked) : Checked.pop h = some h.pop := by
  unfold Checked.pop KeyedHeap.pop
  cases hm : h.min? with
  | none => rfl
  | some e =>
      dsimp only
      rw [t.checked_remove]
      simp [KeyedHeap.remove, t.get?_of_min? hm]

end Dispatch.KeyedHeap
