import Dispatch.Collection.Ranking
import Mathlib.Data.List.InsertIdx
import Mathlib.Data.List.TakeWhile
import Mathlib.Tactic.SplitIfs

/-!
# Rankings as sorted lists

The positions that a ranking records are the inverse of its list of entries (`Placed`), so what it
answers about an id is what the list says, and its updates are those of a list without repeated ids:
`erase` is a filter (`entries_erase`), and a new entry comes behind all whose keys are no larger
(`entries_insert?`).

When every entry carries the moment at which it was last given its key, entries with equal keys are
in the order of these moments.  `OrderedBy` says so, and erasing and inserting keep it.
-/

namespace Dispatch

namespace Ranking

variable {r : Ranking} {id : Nat} {key : Int}

theorem position_unique_of_nodup {l : List (Nat × Int)} (nd : (l.map Prod.fst).Nodup) {key' : Int}
    {i j : Nat} (hi : l[i]? = some (id, key)) (hj : l[j]? = some (id, key')) : i = j := by
  have hi' : (l.map Prod.fst)[i]? = some id := by simp [hi]
  have hj' : (l.map Prod.fst)[j]? = some id := by simp [hj]
  exact (List.getElem?_inj (List.getElem?_eq_some_iff.1 hi').1 nd).1 (hi'.trans hj'.symm)

/-- The ranking records of every id where its entry lies, and of no other id anything. -/
def Placed (r : Ranking) : Prop :=
  ∀ id i, r.place? id = some i ↔ ∃ key, r.entries[i]? = some (id, key)

theorem placed_empty (capacity : Nat) : (empty capacity).Placed := by
  intro id i
  simp only [place?, empty, List.getElem?_replicate]
  split_ifs <;> simp

theorem Placed.position_unique (p : r.Placed) {key' : Int} {i j : Nat}
    (hi : r.entries[i]? = some (id, key)) (hj : r.entries[j]? = some (id, key')) : i = j := by
  have hi' := (p id i).2 ⟨key, hi⟩
  rw [(p id j).2 ⟨key', hj⟩] at hi'
  exact (Option.some.inj hi').symm

theorem Placed.nodup (p : r.Placed) : (r.entries.map Prod.fst).Nodup := by
  rw [List.nodup_iff_pairwise_ne, List.pairwise_iff_getElem]
  intro i j hi hj hij e
  simp only [List.length_map] at hi hj
  simp only [List.getElem_map] at e
  have hi' : r.entries[i]? = some (r.entries[i].1, r.entries[i].2) := List.getElem?_eq_getElem hi
  have hj' : r.entries[j]? = some (r.entries[j].1, r.entries[j].2) := List.getElem?_eq_getElem hj
  rw [← e] at hj'
  have := p.position_unique hi' hj'
  omega

theorem lt_capacity_of_place? {i : Nat} (h : r.place? id = some i) : id < r.capacity := by
  unfold place? at h
  by_contra hc
  rw [List.getElem?_eq_none (by unfold capacity at hc; omega)] at h
  cases h

theorem Placed.lt_capacity (p : r.Placed) (h : (id, key) ∈ r.entries) : id < r.capacity := by
  obtain ⟨i, hi⟩ := List.mem_iff_getElem?.1 h
  exact lt_capacity_of_place? ((p id i).2 ⟨key, hi⟩)

theorem Placed.keyOf?_eq_some_iff (p : r.Placed) :
    r.keyOf? id = some key ↔ (id, key) ∈ r.entries := by
  rw [List.mem_iff_getElem?]
  constructor
  · intro h
    simp only [keyOf?, Option.bind_eq_some_iff, Option.map_eq_some_iff] at h
    obtain ⟨i, hi, e, he, rfl⟩ := h
    obtain ⟨k, hk⟩ := (p id i).1 hi
    rw [he] at hk
    cases hk
    exact ⟨i, he⟩
  · rintro ⟨i, hi⟩
    simp [keyOf?, (p id i).2 ⟨key, hi⟩, hi]

theorem Placed.contains_iff (p : r.Placed) :
    r.contains id = true ↔ ∃ key, (id, key) ∈ r.entries := by
  unfold contains
  rw [Option.isSome_iff_exists]
  constructor
  · rintro ⟨i, hi⟩
    obtain ⟨key, hk⟩ := (p id i).1 hi
    exact ⟨key, List.mem_of_getElem? hk⟩
  · rintro ⟨key, hk⟩
    obtain ⟨i, hi⟩ := List.mem_iff_getElem?.1 hk
    exact ⟨i, (p id i).2 ⟨key, hi⟩⟩

/-! ### Recording positions -/

@[simp] theorem entries_record (r : Ranking) (i : Nat) : (r.record i).entries = r.entries := by
  unfold record
  split <;> rfl

@[simp] theorem capacity_record (r : Ranking) (i : Nat) : (r.record i).capacity = r.capacity := by
  unfold record capacity
  split <;> simp

theorem place?_record {i : Nat} {e : Nat × Int} (he : r.entries[i]? = some e)
    (hc : e.1 < r.capacity) :
    (r.record i).place? id = if id = e.1 then some i else r.place? id := by
  unfold capacity at hc
  unfold record place?
  rw [he]
  simp only [List.getElem?_set]
  by_cases h : id = e.1
  · simp [h, hc]
  · simp [h, Ne.symm h]

@[simp] theorem entries_recordRange (n : Nat) : ∀ (r : Ranking) (i : Nat),
    ((List.range' i n).foldl record r).entries = r.entries := by
  induction n with
  | zero => intro r i; rfl
  | succ n ih =>
      intro r i
      rw [List.range'_succ, List.foldl_cons, ih, entries_record]

@[simp] theorem capacity_recordRange (n : Nat) : ∀ (r : Ranking) (i : Nat),
    ((List.range' i n).foldl record r).capacity = r.capacity := by
  induction n with
  | zero => intro r i; rfl
  | succ n ih =>
      intro r i
      rw [List.range'_succ, List.foldl_cons, ih, capacity_record]

/-- Recording positions says nothing new about an id that lies at none of them. -/
theorem place?_recordRange_of_forall_ne (n : Nat) : ∀ (r : Ranking) (i : Nat),
    (∀ e ∈ r.entries, e.1 < r.capacity) → (∀ j, i ≤ j → ∀ key, r.entries[j]? ≠ some (id, key)) →
      ((List.range' i n).foldl record r).place? id = r.place? id := by
  induction n with
  | zero => intro r i _ _; rfl
  | succ n ih =>
      intro r i hc hne
      rw [List.range'_succ, List.foldl_cons, ih (r.record i) (i + 1) (by simpa using hc)
        (by simpa using fun j hj => hne j (by omega))]
      cases he : r.entries[i]? with
      | none =>
          unfold record
          rw [he]
      | some e =>
          rw [place?_record he (hc e (List.mem_of_getElem? he)), if_neg]
          rintro rfl
          exact hne i (Nat.le_refl i) e.2 he

theorem place?_recordRange_of_mem (n : Nat) : ∀ (r : Ranking) (i : Nat),
    (∀ e ∈ r.entries, e.1 < r.capacity) → (r.entries.map Prod.fst).Nodup →
      ∀ j, i ≤ j → j < i + n → r.entries[j]? = some (id, key) →
        ((List.range' i n).foldl record r).place? id = some j := by
  induction n with
  | zero => intro r i _ _ j _ _; omega
  | succ n ih =>
      intro r i hc nd j hij hj he
      rw [List.range'_succ, List.foldl_cons]
      by_cases hji : j = i
      · subst hji
        rw [place?_recordRange_of_forall_ne]
        · rw [place?_record he (hc _ (List.mem_of_getElem? he)), if_pos rfl]
        · simpa using hc
        · -- the id lies at one position only
          intro m hm key' he'
          rw [entries_record] at he'
          have := position_unique_of_nodup nd he he'
          omega
      · exact ih (r.record i) (i + 1) (by simpa using hc) (by simpa using nd) j (by omega)
          (by omega) (by simpa using he)

@[simp] theorem entries_recordFrom (r : Ranking) (i : Nat) : (r.recordFrom i).entries = r.entries :=
  entries_recordRange _ _ _

@[simp] theorem capacity_recordFrom (r : Ranking) (i : Nat) :
    (r.recordFrom i).capacity = r.capacity :=
  capacity_recordRange _ _ _

/-- When the entries before `i` are recorded rightly and absent ids not at all, recording the rest
makes all positions right. -/
theorem placed_recordFrom {i : Nat} (hc : ∀ e ∈ r.entries, e.1 < r.capacity)
    (nd : (r.entries.map Prod.fst).Nodup)
    (before : ∀ id key j, j < i → r.entries[j]? = some (id, key) → r.place? id = some j)
    (absent : ∀ id, (∀ key, (id, key) ∉ r.entries) → r.place? id = none) :
    (r.recordFrom i).Placed := by
  have right : ∀ id key j, r.entries[j]? = some (id, key) →
      (r.recordFrom i).place? id = some j := by
    intro id key j he
    have hlt : j < r.entries.length := (List.getElem?_eq_some_iff.1 he).1
    by_cases hj : j < i
    · unfold recordFrom
      rw [place?_recordRange_of_forall_ne _ _ _ hc]
      · exact before id key j hj he
      · intro m hm key' he'
        have := position_unique_of_nodup nd he he'
        omega
    · exact place?_recordRange_of_mem _ _ _ hc nd j (by omega) (by omega) he
  intro id j
  rw [entries_recordFrom]
  constructor
  · intro hp
    by_cases hm : ∃ key, (id, key) ∈ r.entries
    · obtain ⟨key, hm⟩ := hm
      obtain ⟨m, he⟩ := List.mem_iff_getElem?.1 hm
      rw [right id key m he] at hp
      cases hp
      exact ⟨key, he⟩
    · simp only [not_exists] at hm
      unfold recordFrom at hp
      rw [place?_recordRange_of_forall_ne _ _ _ hc fun m _ key he =>
        hm key (List.mem_of_getElem? he), absent id hm] at hp
      cases hp
  · rintro ⟨key, he⟩
    exact right id key j he

/-! ### Inserting and erasing -/

/-- The list with an entry behind all those whose keys are no larger than its own. -/
def inserted (l : List (Nat × Int)) (id : Nat) (key : Int) : List (Nat × Int) :=
  l.takeWhile (·.2 ≤ key) ++ (id, key) :: l.dropWhile (·.2 ≤ key)

theorem insertIdx_position (r : Ranking) (id : Nat) (key : Int) :
    r.entries.insertIdx (r.position key) (id, key) = inserted r.entries id key := by
  unfold position inserted
  induction r.entries with
  | nil => rfl
  | cons e l ih => by_cases he : e.2 ≤ key <;> simp [he, ih]

theorem perm_inserted (l : List (Nat × Int)) (id : Nat) (key : Int) :
    (inserted l id key).Perm ((id, key) :: l) := by
  unfold inserted
  refine List.perm_middle.trans ?_
  rw [List.takeWhile_append_dropWhile]

theorem mem_inserted {l : List (Nat × Int)} {e : Nat × Int} :
    e ∈ inserted l id key ↔ e = (id, key) ∨ e ∈ l := by
  rw [(perm_inserted l id key).mem_iff, List.mem_cons]

theorem Placed.insert? (p : r.Placed) (hc : id < r.capacity) (hn : r.contains id = false) :
    ∃ r', r.insert? id key = some r' ∧ r'.Placed ∧ r'.capacity = r.capacity ∧
      r'.entries = inserted r.entries id key := by
  have hne : ∀ k, (id, k) ∉ r.entries := by
    intro k hk
    rw [p.contains_iff.2 ⟨k, hk⟩] at hn
    cases hn
  let q : Ranking := { r with entries := r.entries.insertIdx (r.position key) (id, key) }
  have hpos : r.position key ≤ r.entries.length := (List.takeWhile_prefix _).length_le
  have hq : q.entries.Perm ((id, key) :: r.entries) := List.perm_insertIdx _ _ hpos
  have hmem : ∀ e, e ∈ q.entries ↔ e = (id, key) ∨ e ∈ r.entries := fun e => by
    rw [hq.mem_iff, List.mem_cons]
  refine ⟨q.recordFrom (r.position key), if_pos hc, ?_, capacity_recordFrom _ _,
    (entries_recordFrom _ _).trans (insertIdx_position r id key)⟩
  apply placed_recordFrom
  · rintro ⟨i, k⟩ he
    rcases (hmem _).1 he with h | h
    · cases h
      exact hc
    · exact p.lt_capacity h
  · rw [(hq.map Prod.fst).nodup_iff, List.map_cons, List.nodup_cons]
    refine ⟨?_, p.nodup⟩
    simpa using hne
  · intro i k j hj he
    have he' : r.entries[j]? = some (i, k) := by
      rwa [List.getElem?_insertIdx_of_lt hj] at he
    exact (p i j).2 ⟨k, he'⟩
  · intro i hi
    show r.place? i = none
    cases h : r.place? i with
    | none => rfl
    | some j =>
        obtain ⟨k, hk⟩ := (p i j).1 h
        exact absurd ((hmem _).2 (Or.inr (List.mem_of_getElem? hk))) (hi k)

theorem eraseIdx_eq_filter {l : List (Nat × Int)} (nd : (l.map Prod.fst).Nodup) : ∀ {i : Nat},
    l[i]? = some (id, key) → l.eraseIdx i = l.filter (·.1 ≠ id) := by
  induction l with
  | nil => simp
  | cons e l ih =>
      intro i hi
      rw [List.map_cons, List.nodup_cons] at nd
      rcases i with _ | i
      · simp only [List.getElem?_cons_zero, Option.some.injEq] at hi
        subst hi
        have hl : ∀ e ∈ l, e.1 ≠ id := by
          rintro e' he rfl
          exact nd.1 (List.mem_map.2 ⟨e', he, rfl⟩)
        rw [List.eraseIdx_cons_zero, List.filter_cons_of_neg (by simp)]
        exact (List.filter_eq_self.2 (by simpa using hl)).symm
      · rw [List.getElem?_cons_succ] at hi
        have he : e.1 ≠ id := by
          rintro rfl
          exact nd.1 (List.mem_map.2 ⟨_, List.mem_of_getElem? hi, rfl⟩)
        rw [List.eraseIdx_cons_succ, List.filter_cons_of_pos (by simpa using he), ih nd.2 hi]

theorem Placed.entries_erase (p : r.Placed) (id : Nat) :
    (r.erase id).entries = r.entries.filter (·.1 ≠ id) := by
  unfold erase
  cases hi : r.place? id with
  | none =>
      refine (List.filter_eq_self.2 ?_).symm
      rintro ⟨j, k⟩ he
      obtain ⟨m, hm⟩ := List.mem_iff_getElem?.1 he
      have := (p j m).2 ⟨k, hm⟩
      simp only [ne_eq, decide_eq_true_eq]
      rintro rfl
      rw [hi] at this
      cases this
  | some i =>
      obtain ⟨k, hk⟩ := (p id i).1 hi
      exact (entries_recordFrom _ _).trans (eraseIdx_eq_filter p.nodup hk)

@[simp] theorem capacity_erase (r : Ranking) (id : Nat) : (r.erase id).capacity = r.capacity := by
  unfold erase
  split
  · rw [capacity_recordFrom]
    simp [capacity]
  · rfl

theorem Placed.erase (p : r.Placed) (id : Nat) : (r.erase id).Placed := by
  cases hi : r.place? id with
  | none =>
      unfold Ranking.erase
      rwa [hi]
  | some i =>
      obtain ⟨k, hk⟩ := (p id i).1 hi
      have hlt := lt_capacity_of_place? hi
      have he : r.erase id =
          (⟨r.entries.eraseIdx i, r.places.set id none⟩ : Ranking).recordFrom i := by
        unfold Ranking.erase
        rw [hi]
      have hmem : ∀ e, e ∈ r.entries.eraseIdx i ↔ e ∈ r.entries ∧ e.1 ≠ id := by
        intro e
        rw [eraseIdx_eq_filter p.nodup hk, List.mem_filter]
        simp
      have hplace : ∀ j, (⟨r.entries.eraseIdx i, r.places.set id none⟩ : Ranking).place? j =
          if j = id then none else r.place? j := by
        intro j
        unfold capacity at hlt
        simp only [place?, List.getElem?_set]
        by_cases hj : j = id
        · simp [hj, hlt]
        · simp [hj, Ne.symm hj]
      rw [he]
      apply placed_recordFrom
      · intro e h
        have he : (e.1, e.2) ∈ r.entries := ((hmem e).1 h).1
        simpa [capacity] using p.lt_capacity he
      · exact p.nodup.sublist ((List.eraseIdx_sublist _ _).map _)
      · intro j key m hm h
        have hj : j ≠ id := ((hmem _).1 (List.mem_of_getElem? h)).2
        rw [hplace, if_neg hj]
        exact (p j m).2 ⟨key, by rwa [List.getElem?_eraseIdx_of_lt hm] at h⟩
      · intro j hj
        rw [hplace]
        split_ifs with hji
        · rfl
        · cases h : r.place? j with
          | none => rfl
          | some m =>
              obtain ⟨key, hkey⟩ := (p j m).1 h
              exact absurd ((hmem _).2 ⟨List.mem_of_getElem? hkey, hji⟩) (hj key)

/-- Changing a key takes the entry out and puts it behind all whose keys are no larger. -/
theorem Placed.changeKey (p : r.Placed) (hm : r.contains id = true) :
    (r.changeKey id key).Placed ∧ (r.changeKey id key).capacity = r.capacity ∧
      (r.changeKey id key).entries = inserted (r.entries.filter (·.1 ≠ id)) id key := by
  obtain ⟨k, hk⟩ := p.contains_iff.1 hm
  have hn : (r.erase id).contains id = false := by
    rw [Bool.eq_false_iff]
    intro h
    obtain ⟨k', hk'⟩ := (p.erase id).contains_iff.1 h
    rw [p.entries_erase] at hk'
    simp at hk'
  have hlt : id < (r.erase id).capacity := by
    rw [capacity_erase]
    exact p.lt_capacity hk
  obtain ⟨r', hr, hp, hc, he⟩ := @Placed.insert? _ id key (p.erase id) hlt hn
  unfold Ranking.changeKey
  rw [if_pos hm, hr, Option.getD_some, hc, capacity_erase, he, p.entries_erase]
  exact ⟨hp, rfl, rfl⟩

/-! ### The keys after an update -/

theorem Placed.contains_eq (p : r.Placed) (id : Nat) : r.contains id = (r.keyOf? id).isSome := by
  rw [Bool.eq_iff_iff, p.contains_iff, Option.isSome_iff_exists]
  simp only [p.keyOf?_eq_some_iff]

theorem Placed.keyOf?_erase (p : r.Placed) (id j : Nat) :
    (r.erase id).keyOf? j = if j = id then none else r.keyOf? j := by
  ext k
  rw [(p.erase id).keyOf?_eq_some_iff, p.entries_erase, List.mem_filter]
  split_ifs with hj
  · simp [hj]
  · simp [hj, p.keyOf?_eq_some_iff]

theorem Placed.keyOf?_of_inserted {r' : Ranking} {l : List (Nat × Int)} (p' : r'.Placed)
    (he : r'.entries = inserted l id key) (hn : ∀ k, (id, k) ∉ l) (j : Nat) (k : Int) :
    r'.keyOf? j = some k ↔ if j = id then k = key else (j, k) ∈ l := by
  rw [p'.keyOf?_eq_some_iff, he, mem_inserted, Prod.mk.injEq]
  split_ifs with hj
  · subst hj
    simp [hn]
  · simp [hj]

theorem Placed.keyOf?_insert? (p : r.Placed) (hn : r.contains id = false) {r' : Ranking}
    (p' : r'.Placed) (he : r'.entries = inserted r.entries id key) (j : Nat) :
    r'.keyOf? j = if j = id then some key else r.keyOf? j := by
  have hne : ∀ k, (id, k) ∉ r.entries := by
    intro k hk
    rw [p.contains_iff.2 ⟨k, hk⟩] at hn
    cases hn
  ext k
  rw [p'.keyOf?_of_inserted he hne]
  split_ifs
  · rw [Option.some.injEq, eq_comm]
  · rw [p.keyOf?_eq_some_iff]

theorem Placed.keyOf?_changeKey (p : r.Placed) (hm : r.contains id = true) (j : Nat) :
    (r.changeKey id key).keyOf? j = if j = id then some key else r.keyOf? j := by
  obtain ⟨p', -, he⟩ := @Placed.changeKey _ id key p hm
  ext k
  rw [p'.keyOf?_of_inserted he (by simp)]
  split_ifs with hj
  · rw [Option.some.injEq, eq_comm]
  · simp [hj, p.keyOf?_eq_some_iff]

/-! ### The order of equal keys -/

/-- The entry `a` has a smaller key than `b`, or an equal one that it was given earlier. -/
def Before (moment : Nat → Nat) (a b : Nat × Int) : Prop :=
  a.2 < b.2 ∨ a.2 = b.2 ∧ moment a.1 < moment b.1

/-- Entries come in the order of their keys, equal keys in the order in which they were given. -/
def OrderedBy (moment : Nat → Nat) (l : List (Nat × Int)) : Prop := l.Pairwise (Before moment)

theorem OrderedBy.congr {moment moment' : Nat → Nat} {l : List (Nat × Int)}
    (o : OrderedBy moment l) (h : ∀ e ∈ l, moment' e.1 = moment e.1) : OrderedBy moment' l := by
  refine List.Pairwise.imp_of_mem (fun {a b} ha hb hab => ?_) o
  unfold Before at hab ⊢
  rwa [h a ha, h b hb]

theorem OrderedBy.filter {moment : Nat → Nat} {l : List (Nat × Int)} (o : OrderedBy moment l)
    (q : Nat × Int → Bool) : OrderedBy moment (l.filter q) :=
  List.Pairwise.sublist List.filter_sublist o

theorem OrderedBy.lt_of_mem_dropWhile {moment : Nat → Nat} {l : List (Nat × Int)}
    (o : OrderedBy moment l) : ∀ e ∈ l.dropWhile (·.2 ≤ key), key < e.2 := by
  induction l with
  | nil => simp
  | cons a l ih =>
      obtain ⟨ha, hl⟩ := List.pairwise_cons.1 o
      by_cases hk : a.2 ≤ key
      · rw [List.dropWhile_cons_of_pos (by simpa using hk)]
        exact ih hl
      · rw [List.dropWhile_cons_of_neg (by simpa using hk)]
        intro e he
        rcases List.mem_cons.1 he with rfl | he
        · omega
        · have := ha e he
          unfold Before at this
          omega

/-- An entry with a new key comes behind all equal ones. -/
theorem OrderedBy.inserted {moment : Nat → Nat} {l : List (Nat × Int)} (o : OrderedBy moment l)
    (h : ∀ e ∈ l, moment e.1 < moment id) : OrderedBy moment (inserted l id key) := by
  unfold OrderedBy Ranking.inserted
  rw [List.pairwise_append, List.pairwise_cons]
  have hl : OrderedBy moment (l.takeWhile (·.2 ≤ key) ++ l.dropWhile (·.2 ≤ key)) := by
    rwa [List.takeWhile_append_dropWhile]
  obtain ⟨h₁, h₂, h₁₂⟩ := List.pairwise_append.1 hl
  refine ⟨h₁, ⟨fun e he => Or.inl (o.lt_of_mem_dropWhile e he), h₂⟩, ?_⟩
  intro a ha b hb
  rcases List.mem_cons.1 hb with rfl | hb
  · have hak : a.2 ≤ key := by simpa using List.mem_takeWhile_imp ha
    have hm := h a ((List.takeWhile_sublist _).subset ha)
    rcases Int.lt_or_eq_of_le hak with hlt | heq
    · exact Or.inl hlt
    · exact Or.inr ⟨heq, hm⟩
  · exact h₁₂ a ha b hb

theorem OrderedBy.head_before {moment : Nat → Nat} {l : List (Nat × Int)} (o : OrderedBy moment l)
    {e e' : Nat × Int} (he : l.head? = some e) (he' : e' ∈ l) : e' = e ∨ Before moment e e' := by
  rcases l with _ | ⟨a, l⟩
  · cases he
  · cases he
    rcases List.mem_cons.1 he' with h | h
    · exact Or.inl h
    · exact Or.inr ((List.pairwise_cons.1 o).1 e' h)

end Ranking

end Dispatch
