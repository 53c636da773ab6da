import Dispatch.Proofs.Collection.Lookups
import Mathlib.Data.List.Induction
import Mathlib.Data.List.Nodup
import Mathlib.Data.List.Perm.Basic

/-!
# The contents of a heap

A heap holds what a plain table with the same updates holds (`Models`), and answers from it: a value
by its key, and the least of all values.  Popping until nothing is left gives every entry once, in
ascending order (`WF.exists_empties`).  `finite_map_with_least` says so of every heap to which
updates lead, and that no lookup fails on the way.
-/

namespace Dispatch.KeyedHeap

variable {κ V : Type} [DecidableEq κ] {h h' : KeyedHeap κ V} {t : Table κ V} {k : κ} {v : V}

/-! ### The list of entries -/

theorem Tracked.nodup_toList (t : h.Tracked) : h.toList.Nodup := by
  refine List.nodup_iff_injective_getElem.2 fun i j e => Fin.ext ?_
  have entry (n : Fin h.toList.length) : h.entries[n.1]? = some h.toList[n.1] :=
    Array.getElem?_eq_getElem n.2
  exact t.position_unique (entry i) ((entry j).trans (congrArg some e.symm))

theorem Tracked.mem_toList (t : h.Tracked) : (k, v) ∈ h.toList ↔ h.get? k = some v := by
  rw [t.get?_eq_some_iff]
  exact Array.mem_toList_iff

/-- A heap with one more key has one more entry. -/
theorem Tracked.perm_toList (t : h.Tracked) (t' : h'.Tracked) (fresh : h'.get? k = none)
    (get?_eq : ∀ j, h.get? j = if j = k then some v else h'.get? j) :
    h.toList.Perm ((k, v) :: h'.toList) := by
  have absent : (k, v) ∉ h'.toList := by
    rw [t'.mem_toList, fresh]
    nofun
  refine (List.perm_ext_iff_of_nodup t.nodup_toList
    (List.nodup_cons.2 ⟨absent, t'.nodup_toList⟩)).2 ?_
  rintro ⟨j, w⟩
  rw [List.mem_cons, t.mem_toList, t'.mem_toList, get?_eq, Prod.mk.injEq]
  by_cases same : j = k
  · rw [if_pos same, same, fresh]
    simp [eq_comm]
  · simp [same]

/-! ### Updates -/

/-- What can be done to a heap. -/
inductive Update (κ V : Type) where
  | insert (k : κ) (v : V)
  | remove (k : κ)
  | pop

section

variable [LE V] [DecidableLE V]

/-- A heap, and beside it a table with the same updates.  What the heap answers when it is popped is
taken out of the table. -/
def update (s : KeyedHeap κ V × Table κ V) : Update κ V → KeyedHeap κ V × Table κ V
  | .insert k v => (s.1.insert k v, s.2.insert k v)
  | .remove k => ((s.1.remove k).2, s.2.erase k)
  | .pop => (s.1.pop.2, s.1.pop.1.elim s.2 fun e => s.2.erase e.1)

/-- The heap and the table to which updates lead from empty ones. -/
def run (us : List (Update κ V)) : KeyedHeap κ V × Table κ V := us.foldl update ({}, .empty)

theorem run_concat (us : List (Update κ V)) (u : Update κ V) :
    run (us ++ [u]) = update (run us) u :=
  List.foldl_append

/-- Popping the heap until nothing is left gives the entries of the list, in this order. -/
inductive Empties : KeyedHeap κ V → List (κ × V) → Prop
  | stop {h : KeyedHeap κ V} (nothing : h.pop.1 = none) : Empties h []
  | pop {h : KeyedHeap κ V} {e : κ × V} {es : List (κ × V)} (popped : h.pop.1 = some e)
      (rest : Empties h.pop.2 es) : Empties h (e :: es)

theorem Empties.unique {es es' : List (κ × V)} (a : h.Empties es) (b : h.Empties es') :
    es' = es := by
  induction a generalizing es' with
  | stop nothing =>
      cases b with
      | stop => rfl
      | pop popped => rw [nothing] at popped; cases popped
  | pop popped _ ih =>
      cases b with
      | stop nothing => rw [popped] at nothing; cases nothing
      | pop popped' rest =>
          obtain rfl := Option.some.inj (popped.symm.trans popped')
          rw [ih rest]

/-- The heap is well formed and holds the entries of the table. -/
structure Models (h : KeyedHeap κ V) (t : Table κ V) : Prop where
  wf : h.WF
  get?_eq : ∀ k, h.get? k = t.find? k

theorem fst_pop (h : KeyedHeap κ V) : h.pop.1 = h.min? := by
  unfold pop
  cases h.min? <;> rfl

theorem snd_pop {e : κ × V} (he : h.min? = some e) : h.pop.2 = h.erase e.1 := by
  unfold pop
  rw [he]

theorem snd_pop_of_none (he : h.min? = none) : h.pop.2 = h := by
  unfold pop
  rw [he]

theorem Models.perm (m : Models h t) : h.toList.Perm t.entries := by
  refine (List.perm_ext_iff_of_nodup m.wf.tracked.nodup_toList (.of_map _ t.nodup)).2 ?_
  rintro ⟨k, v⟩
  rw [m.wf.tracked.mem_toList, m.get?_eq, Table.find?_eq_some_iff]

theorem Models.contains_eq (m : Models h t) (k : κ) : h.contains k = t.contains k := by
  rw [Bool.eq_iff_iff, m.wf.tracked.contains_iff, m.get?_eq]
  unfold Table.contains
  rw [Option.isSome_iff_exists]

variable [Std.IsLinearPreorder V]

theorem Models.insert (m : Models h t) (k : κ) (v : V) : Models (h.insert k v) (t.insert k v) where
  wf := m.wf.insert k v
  get?_eq j := by rw [get?_insert m.wf.tracked, Table.find?_insert, m.get?_eq]

theorem Models.erase (m : Models h t) (k : κ) : Models (h.erase k) (t.erase k) where
  wf := m.wf.erase k
  get?_eq j := by rw [get?_erase m.wf.tracked, Table.find?_erase, m.get?_eq]

theorem Models.update (m : Models h t) (u : Update κ V) :
    Models (update (h, t) u).1 (update (h, t) u).2 := by
  cases u with
  | insert k v => exact m.insert k v
  | remove k => exact m.erase k
  | pop =>
      show Models h.pop.2 (h.pop.1.elim t fun e => t.erase e.1)
      rw [fst_pop]
      cases he : h.min? with
      | none => rwa [snd_pop_of_none he]
      | some e =>
          rw [snd_pop he]
          exact m.erase e.1

theorem models_run (us : List (Update κ V)) : Models (run us).1 (run us).2 := by
  induction us using List.reverseRecOn with
  | nil => exact ⟨wf_empty, fun k => rfl⟩
  | append_singleton us u ih =>
      rw [run_concat]
      exact ih.update u

/-! ### Popping -/

/-- Popping gives all entries, and none before a smaller one. -/
theorem WF.exists_empties (w : h.WF) :
    ∃ es, h.Empties es ∧ es.Perm h.toList ∧ es.Pairwise fun a b => a.2 ≤ b.2 := by
  -- on the number of entries
  induction hn : h.toList.length generalizing h with
  | zero =>
      have nothing : h.min? = none := by
        rw [min?_eq_none_iff, isEmpty, Array.isEmpty_iff_size_eq_zero]
        exact hn
      refine ⟨[], .stop (h.fst_pop.trans nothing), ?_, .nil⟩
      rw [List.length_eq_zero_iff.1 hn]
  | succ n ih =>
      obtain ⟨e, he⟩ : ∃ e, h.min? = some e := by
        refine Option.ne_none_iff_exists'.1 fun nothing => ?_
        rw [min?_eq_none_iff, isEmpty, Array.isEmpty_iff_size_eq_zero] at nothing
        exact absurd (hn.symm.trans nothing) (Nat.succ_ne_zero n)
      have erased := get?_erase w.tracked e.1
      have w' := w.erase e.1
      have perm : h.toList.Perm (e :: (h.erase e.1).toList) := by
        refine w.tracked.perm_toList w'.tracked (by rw [erased, if_pos rfl]) fun j => ?_
        rw [erased]
        split_ifs with hj
        · rw [hj, w.tracked.get?_of_min? he]
        · rfl
      have length : (h.erase e.1).toList.length = n := by
        have := perm.length_eq
        rw [hn, List.length_cons] at this
        omega
      obtain ⟨es, empties, all, ascending⟩ := ih w' length
      refine ⟨e :: es, .pop (h.fst_pop.trans he) (by rwa [snd_pop he]),
        (all.cons e).trans perm.symm, List.pairwise_cons.2 ⟨fun x hx => ?_, ascending⟩⟩
      have kept : (h.erase e.1).get? x.1 = some x.2 := w'.tracked.mem_toList.1 (all.mem_iff.1 hx)
      rw [erased] at kept
      split_ifs at kept
      exact w.min?_le he kept

/-- After any updates of an empty heap: the table of positions is the inverse of the array, no entry
is smaller than the one above it, and no lookup fails, whatever is done next.  The heap holds what a
table with the same updates holds and answers from it.  The entry on top has the least value, and
popping until nothing is left gives every entry once, in ascending order of the values. -/
theorem finite_map_with_least (us : List (Update κ V)) :
    let h := (run us).1
    let t := (run us).2
    (∀ k i, h.positions.find? k = some i ↔ ∃ v, h.entries[i]? = some (k, v)) ∧
      (∀ i x y, i ≠ 0 → h.entries[parent i]? = some x → h.entries[i]? = some y → x.2 ≤ y.2) ∧
      ((∀ k, Checked.get h k = some (h.get? k)) ∧
        (∀ k v, Checked.insert h k v = some (h.insert k v)) ∧
        (∀ k, Checked.remove h k = some (h.remove k)) ∧ Checked.pop h = some h.pop) ∧
      (∀ k, h.get? k = t.find? k ∧ h.contains k = t.contains k ∧ (h.remove k).1 = t.find? k) ∧
      (h.size = t.size ∧ h.toList.Perm t.entries) ∧
      (h.pop.1 = h.min? ∧ (h.min? = none ↔ t.entries = []) ∧
        ∀ e, h.min? = some e →
          t.find? e.1 = some e.2 ∧ ∀ k v, t.find? k = some v → e.2 ≤ v) ∧
      ∃ es, h.Empties es ∧ (∀ es', h.Empties es' → es' = es) ∧ es.Perm t.entries ∧
        es.Pairwise fun a b => a.2 ≤ b.2 := by
  intro h t
  have m : Models h t := models_run us
  have tracked := m.wf.tracked
  have size : h.size = t.size := Array.length_toList.symm.trans m.perm.length_eq
  refine ⟨tracked, fun i x y hi hx hy => ordered_iff.1 (m.wf.ordered i hi) x y hx hy,
    ⟨tracked.checked_get, tracked.checked_insert, tracked.checked_remove, tracked.checked_pop⟩,
    fun k => ⟨m.get?_eq k, m.contains_eq k, m.get?_eq k⟩, ⟨size, m.perm⟩,
    ⟨h.fst_pop, ?_, fun e he => ?_⟩, ?_⟩
  · rw [min?_eq_none_iff, isEmpty, Array.isEmpty_iff_size_eq_zero, ← List.length_eq_zero_iff]
    exact iff_of_eq (congrArg (· = 0) size)
  · rw [← m.get?_eq]
    refine ⟨tracked.get?_of_min? he, fun k v hk => ?_⟩
    rw [← m.get?_eq] at hk
    exact m.wf.min?_le he hk
  · obtain ⟨es, empties, all, ascending⟩ := m.wf.exists_empties
    exact ⟨es, empties, fun _ => empties.unique, all.trans m.perm, ascending⟩

/-- The entry that takes the place of a removed one comes from another subtree and has to move up;
then the value in the other subtree is replaced by a larger one, and the least entry is popped. -/
theorem finite_map_with_least_removed :
    let us : List (Update Nat Nat) := [.insert 0 1, .insert 1 10, .insert 2 2, .insert 3 11,
      .insert 4 12, .insert 5 3, .insert 6 4, .remove 3, .insert 2 20, .pop]
    let h := (run us).1
    let t := (run us).2
    (run (us.take 8)).1.toList = [(0, 1), (6, 4), (2, 2), (1, 10), (4, 12), (5, 3)] ∧
      h.toList = [(5, 3), (6, 4), (2, 20), (1, 10), (4, 12)] ∧
      Checked.remove h 6 = some (h.remove 6) ∧ (h.remove 6).1 = t.find? 6 ∧ t.find? 2 = some 20 ∧
      h.toList.Perm t.entries ∧
      ∃ es, h.Empties es ∧ es.Perm t.entries ∧ es.Pairwise fun a b => a.2 ≤ b.2 := by
  intro us h t
  obtain ⟨-, -, ⟨-, -, removes, -⟩, holds, ⟨-, contents⟩, -, es, empties, -, all, ascending⟩ :=
    finite_map_with_least us
  exact ⟨by decide +kernel, by decide +kernel, removes 6, (holds 6).2.2, by decide +kernel,
    contents, es, empties, all, ascending⟩

end

end Dispatch.KeyedHeap
