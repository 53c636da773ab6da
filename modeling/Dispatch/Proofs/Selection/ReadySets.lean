import Dispatch.Proofs.Collection.KeyedHeap
import Dispatch.Selection.ReadySets

/-!
# The members of ready sets

A ready set is well formed (`WF`) when every queue is in the heap of the level that the table of
members names, and in no other.  The view is `member?`, the level and the front stamp of a queue,
and there is one equation for each operation.  `Tells` says that the transitions which an operation
reports are exactly the levels whose set it filled or emptied.
-/

namespace Dispatch

instance : Std.IsLinearPreorder Stamp where
  le_refl a := Nat.le_refl a.raw
  le_trans _ _ _ h k := Nat.le_trans h k
  le_total a b := Nat.le_total a.raw b.raw

namespace ReadySets

variable {s s' : ReadySets} {q j : QueueId} {l m : Level} {f : Stamp}

/-- The level at which a queue is a member, and the stamp of its front task. -/
def member? (s : ReadySets) (q : QueueId) : Option (Level × Stamp) :=
  (s.levelOf? q).bind fun l => ((s.sets.get l).get? q).map fun f => (l, f)

/-- Some queue is a member at level `l`. -/
def Occupied (s : ReadySets) (l : Level) : Prop := ∃ q f, s.member? q = some (l, f)

/-- Every member is in the heap of its level and in no other. -/
structure WF (s : ReadySets) : Prop where
  heap : ∀ l, (s.sets.get l).WF
  levelOf?_eq_some_iff : ∀ q l, s.levelOf? q = some l ↔ ∃ f, (s.sets.get l).get? q = some f

theorem wf_new (h : Half) : WF { half := h } where
  heap l := by
    rw [PerLevel.get_const]
    exact KeyedHeap.wf_empty
  levelOf?_eq_some_iff q l := by simp [levelOf?, KeyedHeap.get?]

theorem WF.member?_eq_some_iff (w : s.WF) :
    s.member? q = some (l, f) ↔ (s.sets.get l).get? q = some f := by
  unfold member?
  constructor
  · intro h
    simp only [Option.bind_eq_some_iff, Option.map_eq_some_iff, Prod.mk.injEq] at h
    obtain ⟨l', -, f', hf, rfl, rfl⟩ := h
    exact hf
  · intro h
    rw [(w.levelOf?_eq_some_iff q l).2 ⟨f, h⟩]
    simp [h]

theorem WF.levelOf?_eq (w : s.WF) (q : QueueId) : s.levelOf? q = (s.member? q).map Prod.fst := by
  cases h : s.levelOf? q with
  | none => simp [member?, h]
  | some l =>
      obtain ⟨f, hf⟩ := (w.levelOf?_eq_some_iff q l).1 h
      rw [w.member?_eq_some_iff.2 hf]
      rfl

theorem WF.contains_eq (w : s.WF) (q : QueueId) : s.contains q = (s.member? q).isSome := by
  have : s.contains q = (s.levelOf? q).isSome := rfl
  rw [this, w.levelOf?_eq, Option.isSome_map]

theorem WF.isSetEmpty_iff (w : s.WF) : s.isSetEmpty l = true ↔ ¬ s.Occupied l := by
  unfold isSetEmpty Occupied
  rw [(w.heap l).tracked.isEmpty_iff]
  simp only [w.member?_eq_some_iff, not_exists, Option.eq_none_iff_forall_ne_some]

theorem WF.isSetEmpty_eq_false_iff (w : s.WF) : s.isSetEmpty l = false ↔ s.Occupied l := by
  rw [← Bool.not_eq_true, w.isSetEmpty_iff, Classical.not_not]

/-! ### The oldest member -/

theorem WF.member?_of_oldest? (w : s.WF) {e : QueueId × Stamp} (h : s.oldest? l = some e) :
    s.member? e.1 = some (l, e.2) :=
  w.member?_eq_some_iff.2 ((w.heap l).tracked.get?_of_min? h)

theorem WF.oldest?_le (w : s.WF) {e : QueueId × Stamp} (h : s.oldest? l = some e)
    (hq : s.member? q = some (l, f)) : e.2 ≤ f :=
  (w.heap l).min?_le h (w.member?_eq_some_iff.1 hq)

theorem WF.oldest?_eq_none_iff (w : s.WF) : s.oldest? l = none ↔ ¬ s.Occupied l := by
  rw [← w.isSetEmpty_iff]
  exact KeyedHeap.min?_eq_none_iff

/-! ### Updates -/

/-- The levels whose sets were filled or emptied are exactly those that the transitions name. -/
structure Tells (s s' : ReadySets) (ts : List Transition) : Prop where
  filled : ∀ l, s'.Occupied l → s.Occupied l ∨ .filled l ∈ ts
  emptied : ∀ l, s.Occupied l → s'.Occupied l ∨ .emptied l ∈ ts
  true_filled : ∀ l, .filled l ∈ ts → s'.Occupied l ∧ ¬ s.Occupied l
  true_emptied : ∀ l, .emptied l ∈ ts → s.Occupied l ∧ ¬ s'.Occupied l

theorem WF.add (w : s.WF) (q : QueueId) (l : Level) (f : Stamp) : (s.add q l f).2.WF := by
  unfold ReadySets.add
  split
  · exact w
  · rename_i hc
    rw [w.contains_eq, Bool.not_eq_true, Option.isSome_eq_false_iff,
      Option.isNone_iff_eq_none] at hc
    constructor
    · intro m
      simp only [PerLevel.get_set]
      split
      · exact (w.heap l).insert q f
      · exact w.heap m
    · intro j m
      have old := w.levelOf?_eq_some_iff j m
      have none_at : ∀ m, (s.sets.get m).get? q = none := by
        intro m
        rw [Option.eq_none_iff_forall_ne_some]
        intro g hg
        rw [w.member?_eq_some_iff.2 hg] at hc
        cases hc
      simp only [levelOf?, Table.find?_insert, PerLevel.get_set] at old ⊢
      by_cases hj : j = q
      · subst hj
        by_cases hm : m = l
        · simp [hm, KeyedHeap.get?_insert (w.heap l).tracked]
        · simp [hm, Ne.symm hm, none_at]
      · by_cases hm : m = l
        · subst hm
          simp [hj, old, KeyedHeap.get?_insert (w.heap m).tracked]
        · simp [hj, hm, old]

theorem WF.member?_add (w : s.WF) (hq : s.member? q = none) (l : Level) (f : Stamp) (j : QueueId) :
    (s.add q l f).2.member? j = if j = q then some (l, f) else s.member? j := by
  have hc : s.contains q = false := by rw [w.contains_eq, hq]; rfl
  have w' := w.add q l f
  unfold ReadySets.add at w' ⊢
  simp only [hc, Bool.false_eq_true, if_false] at w' ⊢
  split_ifs with hj
  · subst hj
    rw [w'.member?_eq_some_iff, PerLevel.get_set_self, KeyedHeap.get?_insert (w.heap l).tracked,
      if_pos rfl]
  · ext ⟨m, g⟩
    rw [w'.member?_eq_some_iff, w.member?_eq_some_iff, PerLevel.get_set]
    by_cases hm : m = l
    · subst hm
      rw [if_pos rfl, KeyedHeap.get?_insert (w.heap m).tracked, if_neg hj]
    · rw [if_neg hm]

theorem WF.remove (w : s.WF) (q : QueueId) : (s.remove q).2.WF := by
  unfold ReadySets.remove
  split
  · rename_i l hl
    constructor
    · intro m
      simp only [PerLevel.get_set]
      split
      · exact (w.heap l).erase q
      · exact w.heap m
    · intro j m
      have old := w.levelOf?_eq_some_iff j m
      simp only [levelOf?, Table.find?_erase, PerLevel.get_set] at old hl ⊢
      by_cases hj : j = q
      · subst hj
        by_cases hm : m = l
        · simp [hm, KeyedHeap.get?_erase (w.heap l).tracked]
        · have : ¬ ∃ f, (s.sets.get m).get? j = some f := by
            rw [← old, hl]
            simp [Ne.symm hm]
          simpa [hm] using this
      · by_cases hm : m = l
        · subst hm
          simp [hj, old, KeyedHeap.get?_erase (w.heap m).tracked]
        · simp [hj, hm, old]
  · exact w

theorem WF.member?_remove (w : s.WF) (q j : QueueId) :
    (s.remove q).2.member? j = if j = q then none else s.member? j := by
  have w' := w.remove q
  unfold ReadySets.remove at w' ⊢
  cases hl : s.levelOf? q with
  | none =>
      dsimp only
      split_ifs with hj
      · simp [member?, hj, hl]
      · rfl
  | some l =>
      simp only [hl] at w' ⊢
      ext ⟨m, g⟩
      rw [w'.member?_eq_some_iff, PerLevel.get_set]
      by_cases hm : m = l
      · subst hm
        rw [if_pos rfl, KeyedHeap.get?_erase (w.heap m).tracked]
        split_ifs
        · simp
        · rw [w.member?_eq_some_iff]
      · rw [if_neg hm]
        split_ifs with hj
        · subst hj
          have : s.levelOf? j ≠ some m := by
            rw [hl]
            simp [Ne.symm hm]
          rw [ne_eq, w.levelOf?_eq_some_iff, not_exists] at this
          simpa using this g
        · rw [w.member?_eq_some_iff]

theorem WF.changeFront (w : s.WF) (q : QueueId) (f : Stamp) : (s.changeFront q f).WF := by
  unfold ReadySets.changeFront
  cases hl : s.levelOf? q with
  | none => exact w
  | some l =>
      constructor
      · intro m
        simp only [PerLevel.get_set]
        split
        · exact (w.heap l).insert q f
        · exact w.heap m
      · intro j m
        have old := w.levelOf?_eq_some_iff j m
        simp only [levelOf?, PerLevel.get_set] at old hl ⊢
        by_cases hm : m = l
        · subst hm
          by_cases hj : j = q
          · subst hj
            simp [hl, KeyedHeap.get?_insert (w.heap m).tracked]
          · simp [hj, old, KeyedHeap.get?_insert (w.heap m).tracked]
        · simp [hm, old]

theorem WF.member?_changeFront (w : s.WF) (hq : s.member? q = some (l, f)) (g : Stamp)
    (j : QueueId) :
    (s.changeFront q g).member? j = if j = q then some (l, g) else s.member? j := by
  have hl : s.levelOf? q = some l := by rw [w.levelOf?_eq, hq]; rfl
  have w' := w.changeFront q g
  unfold ReadySets.changeFront at w' ⊢
  simp only [hl] at w' ⊢
  split_ifs with hj
  · subst hj
    rw [w'.member?_eq_some_iff, PerLevel.get_set_self, KeyedHeap.get?_insert (w.heap l).tracked,
      if_pos rfl]
  · ext ⟨m, k⟩
    rw [w'.member?_eq_some_iff, w.member?_eq_some_iff, PerLevel.get_set]
    by_cases hm : m = l
    · subst hm
      rw [if_pos rfl, KeyedHeap.get?_insert (w.heap m).tracked, if_neg hj]
    · rw [if_neg hm]

/-- A move takes a member of another level out and adds it with the stamp that it had. -/
theorem WF.move_of_ne (w : s.WF) (hq : s.member? q = some (m, f)) (hm : m ≠ l) :
    s.move q l = ((s.remove q).1.toList ++ ((s.remove q).2.add q l f).1.toList,
      ((s.remove q).2.add q l f).2) := by
  have hl : s.levelOf? q = some m := by rw [w.levelOf?_eq, hq]; rfl
  unfold ReadySets.move
  simp only [hl, if_neg hm, w.member?_eq_some_iff.1 hq]

theorem WF.move_of_eq (w : s.WF) (hq : ∀ m f, s.member? q = some (m, f) → m = l) :
    s.move q l = ([], s) := by
  unfold ReadySets.move
  rcases h : s.member? q with _ | ⟨m, f⟩
  · have hl : s.levelOf? q = none := by rw [w.levelOf?_eq, h]; rfl
    simp only [hl]
  · have hl : s.levelOf? q = some m := by rw [w.levelOf?_eq, h]; rfl
    simp only [hl, if_pos (hq m f h)]

theorem WF.move (w : s.WF) (q : QueueId) (l : Level) : (s.move q l).2.WF := by
  by_cases hq : ∀ m f, s.member? q = some (m, f) → m = l
  · rw [w.move_of_eq hq]
    exact w
  · simp only [Classical.not_forall] at hq
    obtain ⟨m, f, hmf, hm⟩ := hq
    rw [w.move_of_ne hmf hm]
    exact (w.remove q).add q l f

theorem WF.member?_move (w : s.WF) (q : QueueId) (l : Level) (j : QueueId) :
    (s.move q l).2.member? j =
      if j = q then (s.member? q).map fun e => (l, e.2) else s.member? j := by
  by_cases hq : ∀ m f, s.member? q = some (m, f) → m = l
  · rw [w.move_of_eq hq]
    split_ifs with hj
    · subst hj
      rcases h : s.member? j with _ | ⟨m, f⟩
      · rfl
      · rw [hq m f h]
        rfl
    · rfl
  · simp only [Classical.not_forall] at hq
    obtain ⟨m, f, hmf, hm⟩ := hq
    have hnone : (s.remove q).2.member? q = none := by rw [w.member?_remove, if_pos rfl]
    rw [w.move_of_ne hmf hm, (w.remove q).member?_add hnone, w.member?_remove, hmf]
    split_ifs <;> rfl

/-! ### What the updates report -/

theorem tells_nil (h : ∀ l, s'.Occupied l ↔ s.Occupied l) : Tells s s' [] where
  filled l hl := Or.inl ((h l).1 hl)
  emptied l hl := Or.inl ((h l).2 hl)
  true_filled l hl := by simp at hl
  true_emptied l hl := by simp at hl

theorem tells_filled (h : ∀ m, m ≠ l → (s'.Occupied m ↔ s.Occupied m)) (hl : ¬ s.Occupied l)
    (hl' : s'.Occupied l) : Tells s s' [.filled l] where
  filled m hm := by
    by_cases e : m = l
    · exact Or.inr (by simp [e])
    · exact Or.inl ((h m e).1 hm)
  emptied m hm := Or.inl ((h m fun e => hl (e ▸ hm)).2 hm)
  true_filled m hm := by
    obtain rfl : m = l := by simpa using hm
    exact ⟨hl', hl⟩
  true_emptied m hm := by simp at hm

theorem tells_emptied (h : ∀ m, m ≠ l → (s'.Occupied m ↔ s.Occupied m)) (hl : s.Occupied l)
    (hl' : ¬ s'.Occupied l) : Tells s s' [.emptied l] where
  filled m hm := Or.inl ((h m fun e => hl' (e ▸ hm)).1 hm)
  emptied m hm := by
    by_cases e : m = l
    · exact Or.inr (by simp [e])
    · exact Or.inl ((h m e).2 hm)
  true_filled m hm := by simp at hm
  true_emptied m hm := by
    obtain rfl : m = l := by simpa using hm
    exact ⟨hl, hl'⟩

theorem WF.occupied_add_of_ne (w : s.WF) (hq : s.member? q = none) (hm : m ≠ l) :
    (s.add q l f).2.Occupied m ↔ s.Occupied m := by
  unfold Occupied
  simp only [w.member?_add hq]
  constructor
  · rintro ⟨j, g, hj⟩
    split_ifs at hj
    · cases hj
      exact absurd rfl hm
    · exact ⟨j, g, hj⟩
  · rintro ⟨j, g, hj⟩
    refine ⟨j, g, ?_⟩
    rw [if_neg, hj]
    rintro rfl
    rw [hq] at hj
    cases hj

theorem WF.occupied_remove_of_ne (w : s.WF) (hq : s.member? q = some (l, f)) (hm : m ≠ l) :
    (s.remove q).2.Occupied m ↔ s.Occupied m := by
  unfold Occupied
  simp only [w.member?_remove]
  constructor
  · rintro ⟨j, g, hj⟩
    split_ifs at hj
    exact ⟨j, g, hj⟩
  · rintro ⟨j, g, hj⟩
    refine ⟨j, g, ?_⟩
    rw [if_neg, hj]
    rintro rfl
    rw [hq] at hj
    cases hj
    exact hm rfl

theorem WF.tells_add (w : s.WF) (q : QueueId) (l : Level) (f : Stamp) :
    Tells s (s.add q l f).2 (s.add q l f).1.toList := by
  by_cases hc : s.contains q = true
  · have e : s.add q l f = (none, s) := if_pos hc
    rw [e]
    exact tells_nil fun _ => Iff.rfl
  · have hq : s.member? q = none := by
      rwa [w.contains_eq, Bool.not_eq_true, Option.isSome_eq_false_iff, Option.isNone_iff_eq_none]
        at hc
    have hts : (s.add q l f).1 = if s.isSetEmpty l then some (.filled l) else none := by
      unfold ReadySets.add
      rw [if_neg hc]
    have hl' : (s.add q l f).2.Occupied l := ⟨q, f, by rw [w.member?_add hq, if_pos rfl]⟩
    rw [hts]
    split_ifs with he
    · exact tells_filled (fun m => w.occupied_add_of_ne hq) (w.isSetEmpty_iff.1 he) hl'
    · -- the level had members already
      have hl := w.isSetEmpty_eq_false_iff.1 (Bool.not_eq_true _ ▸ he)
      refine tells_nil fun m => ?_
      by_cases hm : m = l
      · subst hm
        exact ⟨fun _ => hl, fun _ => hl'⟩
      · exact w.occupied_add_of_ne hq hm

theorem WF.tells_remove (w : s.WF) (q : QueueId) :
    Tells s (s.remove q).2 (s.remove q).1.toList := by
  rcases hq : s.member? q with _ | ⟨l, f⟩
  · have hl : s.levelOf? q = none := by rw [w.levelOf?_eq, hq]; rfl
    have e : s.remove q = (none, s) := by
      unfold ReadySets.remove
      rw [hl]
    rw [e]
    exact tells_nil fun _ => Iff.rfl
  · have hl : s.levelOf? q = some l := by rw [w.levelOf?_eq, hq]; rfl
    have hts : (s.remove q).1 =
        if (s.remove q).2.isSetEmpty l then some (.emptied l) else none := by
      unfold ReadySets.remove isSetEmpty
      rw [hl]
      simp only [PerLevel.get_set_self]
    have hocc : s.Occupied l := ⟨q, f, hq⟩
    rw [hts]
    split_ifs with he
    · exact tells_emptied (fun m => w.occupied_remove_of_ne hq) hocc
        ((w.remove q).isSetEmpty_iff.1 he)
    · -- the level keeps other members
      have hl' := (w.remove q).isSetEmpty_eq_false_iff.1 (Bool.not_eq_true _ ▸ he)
      refine tells_nil fun m => ?_
      by_cases hm : m = l
      · subst hm
        exact ⟨fun _ => hocc, fun _ => hl'⟩
      · exact w.occupied_remove_of_ne hq hm

theorem WF.tells_changeFront (w : s.WF) (hq : s.member? q = some (l, f)) (g : Stamp) :
    Tells s (s.changeFront q g) [] := by
  refine tells_nil fun m => ?_
  unfold Occupied
  simp only [w.member?_changeFront hq]
  constructor
  · rintro ⟨j, k, hj⟩
    split_ifs at hj with hjq
    · cases hj
      exact ⟨q, f, hq⟩
    · exact ⟨j, k, hj⟩
  · rintro ⟨j, k, hj⟩
    by_cases hjq : j = q
    · subst hjq
      rw [hq] at hj
      cases hj
      exact ⟨j, g, by rw [if_pos rfl]⟩
    · exact ⟨j, k, by rw [if_neg hjq, hj]⟩

theorem Tells.trans {s'' : ReadySets} {ts ts' : List Transition} (a : Tells s s' ts)
    (b : Tells s' s'' ts') (he : ∀ l, .emptied l ∈ ts → .filled l ∉ ts')
    (hf : ∀ l, .filled l ∈ ts → .emptied l ∉ ts') : Tells s s'' (ts ++ ts') where
  filled l h := by
    rw [List.mem_append]
    rcases b.filled l h with h | h
    · rcases a.filled l h with h | h
      · exact Or.inl h
      · exact Or.inr (Or.inl h)
    · exact Or.inr (Or.inr h)
  emptied l h := by
    rw [List.mem_append]
    rcases a.emptied l h with h | h
    · rcases b.emptied l h with h | h
      · exact Or.inl h
      · exact Or.inr (Or.inr h)
    · exact Or.inr (Or.inl h)
  true_filled l h := by
    rcases List.mem_append.1 h with h | h
    · obtain ⟨h', hn⟩ := a.true_filled l h
      exact ⟨(b.emptied l h').resolve_right (hf l h), hn⟩
    · obtain ⟨h', hn⟩ := b.true_filled l h
      exact ⟨h', fun hs => ((a.emptied l hs).elim hn fun h'' => he l h'' h)⟩
  true_emptied l h := by
    rcases List.mem_append.1 h with h | h
    · obtain ⟨h', hn⟩ := a.true_emptied l h
      exact ⟨h', fun hs => (b.filled l hs).elim hn (he l h)⟩
    · obtain ⟨h', hn⟩ := b.true_emptied l h
      exact ⟨(a.filled l h').resolve_right fun h'' => hf l h'' h, hn⟩

/-- Adding a queue fills at most the level that it is added to. -/
theorem eq_of_mem_add {t : Transition} (h : t ∈ (s.add q l f).1.toList) : t = .filled l := by
  unfold ReadySets.add at h
  split at h
  · simp at h
  · have h : s.isSetEmpty l = true ∧ .filled l = t := by simpa using h
    exact h.2.symm

/-- Removing a queue empties at most the level that it was at. -/
theorem WF.eq_of_mem_remove (w : s.WF) (hq : s.member? q = some (l, f)) {t : Transition}
    (h : t ∈ (s.remove q).1.toList) : t = .emptied l := by
  have hl : s.levelOf? q = some l := by rw [w.levelOf?_eq, hq]; rfl
  unfold ReadySets.remove at h
  rw [hl] at h
  have h : ((s.sets.get l).erase q).isEmpty = true ∧ .emptied l = t := by simpa using h
  exact h.2.symm

theorem WF.tells_move (w : s.WF) (q : QueueId) (l : Level) :
    Tells s (s.move q l).2 (s.move q l).1 := by
  by_cases hq : ∀ m f, s.member? q = some (m, f) → m = l
  · rw [w.move_of_eq hq]
    exact tells_nil fun _ => Iff.rfl
  · simp only [Classical.not_forall] at hq
    obtain ⟨m, f, hmf, hm⟩ := hq
    rw [w.move_of_ne hmf hm]
    refine (w.tells_remove q).trans ((w.remove q).tells_add q l f) ?_ ?_
    · intro k hk hk'
      have e := w.eq_of_mem_remove hmf hk
      have e' := eq_of_mem_add hk'
      cases e
      cases e'
      exact hm rfl
    · intro k hk
      cases w.eq_of_mem_remove hmf hk

/-- A move fills at most the level that it leads to and empties at most another one. -/
theorem WF.cases_of_mem_move (w : s.WF) {t : Transition} (h : t ∈ (s.move q l).1) :
    t = .filled l ∨ ∃ m, m ≠ l ∧ t = .emptied m := by
  by_cases hq : ∀ m f, s.member? q = some (m, f) → m = l
  · rw [w.move_of_eq hq] at h
    simp at h
  · simp only [Classical.not_forall] at hq
    obtain ⟨m, f, hmf, hm⟩ := hq
    rw [w.move_of_ne hmf hm] at h
    rcases List.mem_append.1 h with h | h
    · exact Or.inr ⟨m, hm, w.eq_of_mem_remove hmf h⟩
    · exact Or.inl (eq_of_mem_add h)

theorem WF.exists_emptied_of_mem_remove (w : s.WF) {t : Transition}
    (h : t ∈ (s.remove q).1.toList) : ∃ m, t = .emptied m := by
  rcases hq : s.member? q with _ | ⟨l, f⟩
  · have hl : s.levelOf? q = none := by rw [w.levelOf?_eq, hq]; rfl
    unfold ReadySets.remove at h
    rw [hl] at h
    simp at h
  · exact ⟨l, w.eq_of_mem_remove hq h⟩

end ReadySets

end Dispatch
