import Dispatch.Queue.Arena
import Mathlib.Algebra.GroupWithZero.Nat
import Mathlib.Algebra.Order.BigOperators.Group.Finset
import Mathlib.Data.List.Nodup
import Mathlib.Data.List.Perm.Basic

/-!
# The contents of an arena

`Arena.toList` lists every value that `get?` finds, under its id and once (`mem_toList`,
`nodup_toList`).  So the list is known up to its order from `get?` alone: an update changes one
entry of it and leaves the others (`perm_toList_set`, `perm_toList_erase`, `perm_toList_insert`).
Two arenas are compared by a sum over the values of each, which falls if it does at every id
(`sum_toList_le`, `sum_toList_lt`).

The version of a slot only ever grows, so an id whose slot has a later version (`Spent`) finds
nothing and is never given again.
-/

namespace Dispatch.Arena

variable {α : Type} {a b : Arena α} {id : QueueId} {x y : α}

/-- The entry that a slot contributes. -/
theorem mem_toList_slot {s : Slot α} {i : Nat} :
    (s.occupant.map fun x => ((⟨i + 1, s.version⟩ : QueueId), x)) = some (id, x) ↔
      id.slot = i + 1 ∧ s = ⟨id.version, some x⟩ := by
  obtain ⟨v, o⟩ := s
  obtain ⟨n, w⟩ := id
  cases o with
  | none => simp
  | some y =>
      simp only [Option.map_some, Option.some.injEq, Prod.mk.injEq, QueueId.mk.injEq, Slot.mk.injEq]
      constructor
      · rintro ⟨⟨rfl, rfl⟩, rfl⟩
        exact ⟨rfl, rfl, rfl⟩
      · rintro ⟨rfl, rfl, rfl⟩
        exact ⟨⟨rfl, rfl⟩, rfl⟩

theorem mem_toList : (id, x) ∈ a.toList ↔ a.get? id = some x := by
  unfold toList
  rw [List.mem_filterMap, get?_eq_some_iff]
  constructor
  · rintro ⟨⟨s, i⟩, hs, e⟩
    obtain ⟨hi, rfl⟩ := mem_toList_slot.1 e
    exact ⟨i, hi, List.mem_zipIdx_iff_getElem?.1 hs⟩
  · rintro ⟨i, hi, hs⟩
    exact ⟨(⟨id.version, some x⟩, i), List.mem_zipIdx_iff_getElem?.2 hs,
      mem_toList_slot.2 ⟨hi, rfl⟩⟩

/-- To replace a value by itself changes nothing. -/
theorem set_self (h : a.get? id = some x) : a.set id x = a := by
  obtain ⟨i, hi, hs⟩ := get?_eq_some_iff.1 h
  obtain ⟨lt, e⟩ := List.getElem?_eq_some_iff.1 hs
  unfold set
  rw [h, hi, Nat.add_sub_cancel]
  unfold put
  rw [← e, List.set_getElem_self]

theorem nodup_toList (a : Arena α) : a.toList.Nodup := by
  have slots : a.slots.zipIdx.Nodup := by
    refine List.Nodup.of_map Prod.snd ?_
    rw [List.zipIdx_map_snd]
    exact List.nodup_range'
  refine slots.filterMap ?_
  rintro ⟨s, i⟩ ⟨s', i'⟩ ⟨id, x⟩ h h'
  obtain ⟨hi, rfl⟩ := mem_toList_slot.1 h
  obtain ⟨hi', rfl⟩ := mem_toList_slot.1 h'
  rw [Nat.succ.inj (hi.symm.trans hi')]

/-- Lists that hold the same entries, each once, differ in their order alone. -/
theorem perm_toList (fresh : b.get? id = none)
    (get?_eq : ∀ j, a.get? j = if j = id then some x else b.get? j) :
    a.toList.Perm ((id, x) :: b.toList) := by
  have fresh' : (id, x) ∉ b.toList := by
    rw [mem_toList, fresh]
    exact fun e => by cases e
  refine (List.perm_ext_iff_of_nodup a.nodup_toList
    (List.nodup_cons.2 ⟨fresh', b.nodup_toList⟩)).2 ?_
  rintro ⟨j, y⟩
  rw [List.mem_cons, mem_toList, mem_toList, get?_eq, Prod.mk.injEq]
  by_cases hj : j = id
  · rw [if_pos hj, hj, fresh]
    simp [eq_comm]
  · simp [hj]

theorem perm_toList_erase (h : a.get? id = some x) :
    a.toList.Perm ((id, x) :: (a.erase id).toList) := by
  refine perm_toList (by rw [get?_erase, if_pos rfl]) fun j => ?_
  rw [get?_erase]
  split_ifs with hj
  · rw [hj, h]
  · rfl

theorem perm_toList_set (h : a.get? id = some x) (y : α) :
    (a.set id y).toList.Perm ((id, y) :: (a.erase id).toList) := by
  refine perm_toList (by rw [get?_erase, if_pos rfl]) fun j => ?_
  rw [get?_set, get?_erase, h]
  by_cases hj : j = id <;> simp [hj]

theorem perm_toList_insert (a : Arena α) (x : α) :
    (a.insert x).2.toList.Perm (((a.insert x).1, x) :: a.toList) :=
  perm_toList (get?_fst_insert a x) (get?_insert a x)

/-! ### Sums -/

/-- The ids in use, each once. -/
def ids (a : Arena α) : List QueueId := a.toList.map Prod.fst

theorem mem_ids : id ∈ a.ids ↔ ∃ x, a.get? id = some x := by
  unfold ids
  simp [mem_toList]

theorem nodup_ids (a : Arena α) : a.ids.Nodup := by
  refine List.Nodup.map_on ?_ a.nodup_toList
  rintro ⟨id, x⟩ hx ⟨_, y⟩ hy rfl
  rw [mem_toList] at hx hy
  rw [Option.some.inj (hx.symm.trans hy)]

/-- A sum over the values runs over the ids in use, and over any others. -/
theorem sum_toList (a : Arena α) (f : α → Nat) {s : Finset QueueId} (h : ∀ id ∈ a.ids, id ∈ s) :
    (a.toList.map fun e => f e.2).sum = ∑ id ∈ s, (a.get? id).elim 0 f := by
  calc (a.toList.map fun e => f e.2).sum
      = (a.ids.map fun id => (a.get? id).elim 0 f).sum := by
        unfold ids
        rw [List.map_map]
        refine congrArg List.sum (List.map_congr_left fun ⟨id, x⟩ hx => ?_)
        rw [mem_toList] at hx
        simp [hx]
    _ = ∑ id ∈ a.ids.toFinset, (a.get? id).elim 0 f := (List.sum_toFinset _ a.nodup_ids).symm
    _ = ∑ id ∈ s, (a.get? id).elim 0 f := by
        refine Finset.sum_subset (fun id hid => h id (List.mem_toFinset.1 hid)) fun id _ hid => ?_
        rw [List.mem_toFinset, mem_ids] at hid
        rw [Option.eq_none_iff_forall_ne_some.2 fun x hx => hid ⟨x, hx⟩]
        rfl

/-- What is no larger at any id is no larger in sum. -/
theorem sum_toList_le {f : α → Nat}
    (h : ∀ id, (b.get? id).elim 0 f ≤ (a.get? id).elim 0 f) :
    (b.toList.map fun e => f e.2).sum ≤ (a.toList.map fun e => f e.2).sum := by
  rw [a.sum_toList f (s := (a.ids ++ b.ids).toFinset) (by simp +contextual),
    b.sum_toList f (s := (a.ids ++ b.ids).toFinset) (by simp +contextual)]
  exact Finset.sum_le_sum fun id _ => h id

theorem sum_toList_lt {f : α → Nat}
    (h : ∀ id, (b.get? id).elim 0 f ≤ (a.get? id).elim 0 f) (id : QueueId)
    (hlt : (b.get? id).elim 0 f < (a.get? id).elim 0 f) :
    (b.toList.map fun e => f e.2).sum < (a.toList.map fun e => f e.2).sum := by
  have used : id ∈ a.ids := by
    rw [mem_ids]
    cases ha : a.get? id with
    | none =>
        rw [ha] at hlt
        exact absurd hlt (Nat.not_lt_zero _)
    | some x => exact ⟨x, rfl⟩
  rw [a.sum_toList f (s := (a.ids ++ b.ids).toFinset) (by simp +contextual),
    b.sum_toList f (s := (a.ids ++ b.ids).toFinset) (by simp +contextual)]
  exact Finset.sum_lt_sum (fun id _ => h id)
    ⟨id, List.mem_toFinset.2 (List.mem_append_left _ used), hlt⟩

/-! ### Spent ids -/

/-- The slot has come to a later version than that of the id. -/
def Spent (a : Arena α) (id : QueueId) : Prop :=
  ∃ s, a.slot? id.slot = some s ∧ id.version < s.version

theorem spent_iff : a.Spent id ↔
    ∃ i s, id.slot = i + 1 ∧ a.slots[i]? = some s ∧ id.version < s.version := by
  obtain ⟨n, v⟩ := id
  unfold Spent slot?
  cases n <;> simp

theorem Spent.get?_eq_none (h : a.Spent id) : a.get? id = none := by
  obtain ⟨s, hs, lt⟩ := h
  unfold get?
  rw [hs, Option.bind_some, if_neg (Nat.ne_of_gt lt)]

/-- A slot may be replaced by one that is no older. -/
theorem Spent.put (h : a.Spent id) {i : Nat} {s s' : Slot α} (hs : a.slots[i]? = some s)
    (le : s.version ≤ s'.version) : (a.put i s').Spent id := by
  obtain ⟨j, t, hj, ht, lt⟩ := spent_iff.1 h
  have hi : i < a.slots.length := (List.getElem?_eq_some_iff.1 hs).1
  rw [spent_iff]
  by_cases same : j = i
  · subst same
    obtain rfl : s = t := Option.some.inj (hs.symm.trans ht)
    exact ⟨j, s', hj, List.getElem?_set_self hi, Nat.lt_of_lt_of_le lt le⟩
  · exact ⟨j, t, hj, (List.getElem?_set_ne (Ne.symm same)).trans ht, lt⟩

theorem Spent.append (h : a.Spent id) (x : α) : (a.append x).2.Spent id := by
  obtain ⟨j, t, hj, ht, lt⟩ := spent_iff.1 h
  have old : j < a.slots.length := (List.getElem?_eq_some_iff.1 ht).1
  exact spent_iff.2 ⟨j, t, hj, (List.getElem?_append_left old).trans ht, lt⟩

theorem Spent.insert (h : a.Spent id) (x : α) : (a.insert x).2.Spent id := by
  unfold Arena.insert
  split
  · exact h.append x
  · split
    · rename_i hs
      exact h.put hs (Nat.le_refl _)
    · exact h.append x

theorem Spent.set (h : a.Spent id) (j : QueueId) (x : α) : (a.set j x).Spent id := by
  unfold Arena.set
  cases hj : a.get? j with
  | none => exact h
  | some y =>
      obtain ⟨i, hi, hs⟩ := get?_eq_some_iff.1 hj
      dsimp only
      rw [hi, Nat.add_sub_cancel]
      exact h.put hs (Nat.le_refl _)

theorem Spent.erase (h : a.Spent id) (j : QueueId) : (a.erase j).Spent id := by
  unfold Arena.erase
  cases hj : a.get? j with
  | none => exact h
  | some y =>
      obtain ⟨i, hi, hs⟩ := get?_eq_some_iff.1 hj
      dsimp only
      rw [hi, Nat.add_sub_cancel]
      exact h.put hs (Nat.le_add_right _ 2)

theorem spent_erase (h : a.get? id = some x) : (a.erase id).Spent id := by
  obtain ⟨i, hi, hs⟩ := get?_eq_some_iff.1 h
  have lt : i < a.slots.length := (List.getElem?_eq_some_iff.1 hs).1
  unfold Arena.erase
  rw [h]
  refine spent_iff.2 ⟨i, ⟨id.version + 2, none⟩, hi, ?_, Nat.lt_add_of_pos_right Nat.two_pos⟩
  show (a.slots.set (id.slot - 1) _)[i]? = _
  rw [hi, Nat.add_sub_cancel]
  exact List.getElem?_set_self lt

end Dispatch.Arena
