import Dispatch.Proofs.Collection.Ranking
import Dispatch.Proofs.Selection.ReadySets
import Dispatch.Selection.Selector

/-!
# The ranking of levels

The selector learns only from transitions at which levels there is ready work.  While a list of
transitions is being applied the ranking may be behind the sets, but only at the levels that the
rest of the list names (`Settling`); once the list is used up it holds exactly the occupied levels
(`Sound`).

`Rekeyed s n s'` says what an operation that can bring work to no level but `n` does to the keys:
no other level gets a key or a new one, `n` keeps a key that it has and otherwise gets the fresh
one, and equal keys stay in the order in which they were given.
-/

namespace Dispatch

namespace Selector

variable {s s' : Selector} {l n : Level} {h g : Half} {q j : QueueId} {f : Stamp}

/-- The key of a level with ready work. -/
def keyOf? (s : Selector) (l : Level) : Option Int := s.active.keyOf? l.index

/-- Some enabled queue of level `l` holds a ready task. -/
def Occupied (s : Selector) (l : Level) : Prop := ∃ h, (s.sets h).Occupied l

/-- Equal keys are in the order of the moments at which the levels were given them. -/
def OrderedBy (s : Selector) (moment : Level → Nat) : Prop :=
  Ranking.OrderedBy (fun i => (Level.ofIndex? i).elim 0 moment) s.active.entries

/-- The ranking holds the occupied levels, up to the transitions that are still to be applied. -/
structure Settling (s : Selector) (ts : List Transition) : Prop where
  sets : ∀ h, (s.sets h).WF
  placed : s.active.Placed
  capacity : s.active.capacity = Level.count
  ranked : ∀ l, s.Occupied l → s.keyOf? l ≠ none ∨ .filled l ∈ ts
  occupied : ∀ l, s.keyOf? l ≠ none → s.Occupied l ∨ .emptied l ∈ ts
  filled : ∀ l, .filled l ∈ ts → s.Occupied l

/-- The ranking holds exactly the occupied levels. -/
def Sound (s : Selector) : Prop := s.Settling []

theorem Sound.occupied_iff (w : s.Sound) : s.Occupied l ↔ s.keyOf? l ≠ none := by
  constructor
  · intro h
    simpa using w.ranked l h
  · intro h
    simpa using w.occupied l h

theorem sound_new (settings : Settings) : Sound { settings := settings } where
  sets h := by cases h <;> exact ReadySets.wf_new _
  placed := Ranking.placed_empty _
  capacity := rfl
  ranked l h := by
    obtain ⟨h, q, f, hq⟩ := h
    cases h <;> cases hq
  occupied l h := by
    refine absurd ?_ h
    cases l <;> rfl
  filled l h := by simp at h

theorem Settling.contains_iff {ts : List Transition} (w : s.Settling ts) :
    s.active.contains l.index = true ↔ s.keyOf? l ≠ none := by
  rw [Ranking.Placed.contains_eq w.placed, Option.isSome_iff_ne_none]
  rfl

/-- Every entry of the ranking is that of a level. -/
theorem Settling.exists_level {ts : List Transition} (w : s.Settling ts) {e : Nat × Int}
    (he : e ∈ s.active.entries) : ∃ l : Level, l.index = e.1 ∧ s.keyOf? l = some e.2 := by
  have hlt : e.1 < Level.count := w.capacity ▸ w.placed.lt_capacity he
  obtain ⟨l, hl⟩ : ∃ l : Level, l.index = e.1 := by
    revert hlt
    generalize e.1 = i
    intro hlt
    match i, hlt with
    | 0, _ => exact ⟨.control, rfl⟩
    | 1, _ => exact ⟨.highest, rfl⟩
    | 2, _ => exact ⟨.high, rfl⟩
    | 3, _ => exact ⟨.normal, rfl⟩
    | 4, _ => exact ⟨.low, rfl⟩
    | 5, _ => exact ⟨.bestEffort, rfl⟩
  refine ⟨l, hl, ?_⟩
  unfold keyOf?
  rw [hl]
  exact w.placed.keyOf?_eq_some_iff.2 he

/-! ### Sets and ranking are changed apart from each other -/

/-- A transition concerns nothing but the ranking. -/
theorem apply_eq (s : Selector) (t : Transition) :
    s.apply t = { s with active := (s.apply t).active } := by
  cases t <;> simp only [apply] <;> split <;> rfl

theorem foldl_apply_eq (ts : List Transition) (s : Selector) :
    ts.foldl apply s = { s with active := (ts.foldl apply s).active } := by
  induction ts generalizing s with
  | nil => rfl
  | cons t ts ih =>
      rw [List.foldl_cons, ih]
      generalize ((ts.foldl apply (s.apply t)).active) = a
      rw [apply_eq]

@[simp] theorem sets_apply (s : Selector) (t : Transition) (h : Half) :
    (s.apply t).sets h = s.sets h := by
  rw [apply_eq]
  rfl

@[simp] theorem sets_foldl_apply (ts : List Transition) (s : Selector) (h : Half) :
    (ts.foldl apply s).sets h = s.sets h := by
  rw [foldl_apply_eq]
  rfl

@[simp] theorem queues_foldl_apply (ts : List Transition) (s : Selector) :
    (ts.foldl apply s).queues = s.queues := by
  rw [foldl_apply_eq]

theorem sets_withSets (s : Selector) (h g : Half) (r : ReadySets) :
    (s.withSets h r).sets g = if g = h then r else s.sets g := by
  cases h <;> cases g <;> rfl

@[simp] theorem sets_withSets_self (s : Selector) (h : Half) (r : ReadySets) :
    (s.withSets h r).sets h = r := by
  rw [sets_withSets, if_pos rfl]

@[simp] theorem queues_withSets (s : Selector) (h : Half) (r : ReadySets) :
    (s.withSets h r).queues = s.queues := by
  cases h <;> rfl

@[simp] theorem active_withSets (s : Selector) (h : Half) (r : ReadySets) :
    (s.withSets h r).active = s.active := by
  cases h <;> rfl

theorem keyOf?_withSets (s : Selector) (h : Half) (r : ReadySets) (l : Level) :
    (s.withSets h r).keyOf? l = s.keyOf? l := by
  cases h <;> rfl

/-! ### Applying one transition -/

section Apply

variable {t : Transition} {ts : List Transition}

theorem Settling.apply_filled_of_none (w : s.Settling ts) (hl : s.keyOf? l = none) :
    ∃ r, s.apply (.filled l) = { s with active := r } ∧ r.Placed ∧ r.capacity = s.active.capacity ∧
      r.entries = Ranking.inserted s.active.entries l.index (s.freshKey l) := by
  have hc : s.active.contains l.index = false := by
    rw [← Bool.not_eq_true, w.contains_iff, Classical.not_not]
    exact hl
  have hlt : l.index < s.active.capacity := w.capacity ▸ l.index_lt_count
  obtain ⟨r, hr, hp, hcap, he⟩ := @Ranking.Placed.insert? _ _ (s.freshKey l) w.placed hlt hc
  refine ⟨r, ?_, hp, hcap, he⟩
  simp only [apply, hc, hr, Option.getD_some]
  rfl

theorem Settling.apply_filled_of_some (w : s.Settling ts) (hl : s.keyOf? l ≠ none) :
    s.apply (.filled l) = s :=
  if_pos (w.contains_iff.2 hl)

theorem Settling.apply_emptied_of_occupied (w : s.Settling ts) (hl : s.Occupied l) :
    s.apply (.emptied l) = s := by
  refine if_neg ?_
  rw [Bool.and_eq_true]
  rintro ⟨hi, hd⟩
  obtain ⟨h, ho⟩ := hl
  cases h with
  | immediate => exact (w.sets .immediate).isSetEmpty_iff.1 hi ho
  | delayed => exact (w.sets .delayed).isSetEmpty_iff.1 hd ho

theorem Settling.apply_emptied_of_not_occupied (w : s.Settling ts) (hl : ¬ s.Occupied l) :
    s.apply (.emptied l) = { s with active := s.active.erase l.index } := by
  refine if_pos ?_
  rw [Bool.and_eq_true]
  exact ⟨(w.sets .immediate).isSetEmpty_iff.2 fun ho => hl ⟨.immediate, ho⟩,
    (w.sets .delayed).isSetEmpty_iff.2 fun ho => hl ⟨.delayed, ho⟩⟩

theorem Settling.keyOf?_apply_filled (w : s.Settling ts) (l m : Level) :
    (s.apply (.filled l)).keyOf? m =
      if m = l ∧ s.keyOf? l = none then some (s.freshKey l) else s.keyOf? m := by
  by_cases hl : s.keyOf? l = none
  · have hc : s.active.contains l.index = false := by
      rw [← Bool.not_eq_true, w.contains_iff, Classical.not_not]
      exact hl
    obtain ⟨r, hr, hp, -, he⟩ := w.apply_filled_of_none hl
    rw [hr]
    unfold keyOf?
    rw [Ranking.Placed.keyOf?_insert? w.placed hc hp he]
    by_cases hm : m = l
    · simp [hm, show s.active.keyOf? l.index = none from hl]
    · simp [hm]
  · rw [w.apply_filled_of_some hl, if_neg fun h => hl h.2]

open scoped Classical in
theorem Settling.keyOf?_apply_emptied (w : s.Settling ts) (l m : Level) :
    (s.apply (.emptied l)).keyOf? m = if m = l ∧ ¬ s.Occupied l then none else s.keyOf? m := by
  by_cases hl : s.Occupied l
  · rw [w.apply_emptied_of_occupied hl, if_neg fun h => h.2 hl]
  · rw [w.apply_emptied_of_not_occupied hl]
    unfold keyOf?
    rw [Ranking.Placed.keyOf?_erase w.placed]
    by_cases hm : m = l
    · simp [hm, hl]
    · simp [hm]

theorem occupied_apply (s : Selector) (t : Transition) (l : Level) :
    (s.apply t).Occupied l ↔ s.Occupied l := by
  unfold Occupied
  simp only [sets_apply]

theorem Settling.placed_apply (w : s.Settling ts) (t : Transition) :
    (s.apply t).active.Placed ∧ (s.apply t).active.capacity = s.active.capacity := by
  cases t with
  | filled l =>
      by_cases hl : s.keyOf? l = none
      · obtain ⟨r, hr, hp, hc, -⟩ := w.apply_filled_of_none hl
        rw [hr]
        exact ⟨hp, hc⟩
      · rw [w.apply_filled_of_some hl]
        exact ⟨w.placed, rfl⟩
  | emptied l =>
      by_cases hl : s.Occupied l
      · rw [w.apply_emptied_of_occupied hl]
        exact ⟨w.placed, rfl⟩
      · rw [w.apply_emptied_of_not_occupied hl]
        exact ⟨w.placed.erase _, Ranking.capacity_erase _ _⟩

/-- An occupied level is ranked after the transition, or by one that is still to come. -/
theorem Settling.ranked_apply (w : s.Settling (t :: ts)) (hl : s.Occupied l) :
    (s.apply t).keyOf? l ≠ none ∨ .filled l ∈ ts := by
  cases t with
  | filled m =>
      rw [w.keyOf?_apply_filled]
      split_ifs with h
      · exact Or.inl (by simp)
      · rcases w.ranked l hl with hk | hk
        · exact Or.inl hk
        · rcases List.mem_cons.1 hk with e | hk
          · cases e
            exact Or.inl fun hn => h ⟨rfl, hn⟩
          · exact Or.inr hk
  | emptied m =>
      rw [w.keyOf?_apply_emptied, if_neg fun h => h.2 (h.1 ▸ hl)]
      rcases w.ranked l hl with hk | hk
      · exact Or.inl hk
      · exact Or.inr (by simpa using hk)

/-- A ranked level is occupied, or taken out by a transition that is still to come. -/
theorem Settling.occupied_of_apply (w : s.Settling (t :: ts)) (hl : (s.apply t).keyOf? l ≠ none) :
    s.Occupied l ∨ .emptied l ∈ ts := by
  cases t with
  | filled m =>
      have hm : s.Occupied m := w.filled m List.mem_cons_self
      rw [w.keyOf?_apply_filled] at hl
      split_ifs at hl with h
      · exact Or.inl (h.1 ▸ hm)
      · rcases w.occupied l hl with ho | ho
        · exact Or.inl ho
        · exact Or.inr (by simpa using ho)
  | emptied m =>
      rw [w.keyOf?_apply_emptied] at hl
      split_ifs at hl with h
      · exact absurd rfl hl
      · rcases w.occupied l hl with ho | ho
        · exact Or.inl ho
        · rcases List.mem_cons.1 ho with e | ho
          · cases e
            exact Or.inl (Classical.byContradiction fun hn => h ⟨rfl, hn⟩)
          · exact Or.inr ho

theorem Settling.apply (w : s.Settling (t :: ts)) : (s.apply t).Settling ts where
  sets h := by
    rw [sets_apply]
    exact w.sets h
  placed := (w.placed_apply t).1
  capacity := (w.placed_apply t).2.trans w.capacity
  ranked l hl := w.ranked_apply ((occupied_apply s t l).1 hl)
  occupied l hl := by
    rw [occupied_apply]
    exact w.occupied_of_apply hl
  filled l hl := by
    rw [occupied_apply]
    exact w.filled l (List.mem_cons_of_mem t hl)

theorem Settling.foldl (w : s.Settling ts) : (ts.foldl Selector.apply s).Sound := by
  induction ts generalizing s with
  | nil => exact w
  | cons t ts ih =>
      rw [List.foldl_cons]
      exact ih w.apply

end Apply

/-! ### The keys after a change of the sets -/

/-- Compared with `s`, no level but `n` has a new key, and `n` has the one that it had or, if it had
none, the fresh one. -/
structure Rekeyed (s : Selector) (n : Option Level) (s' : Selector) : Prop where
  settings : s'.settings = s.settings
  selections : s'.selections = s.selections
  streak : s'.streak = s.streak
  old : ∀ l, n ≠ some l → ∀ k, s'.keyOf? l = some k → s.keyOf? l = some k
  kept : ∀ l, n = some l → s.keyOf? l ≠ none → s'.keyOf? l = s.keyOf? l
  fresh : ∀ l, n = some l → s.keyOf? l = none → ∀ k, s'.keyOf? l = some k → k = s.freshKey l
  ordered : ∀ moment, s.OrderedBy moment →
    (∀ l, n = some l → s.keyOf? l = none → ∀ m, s.keyOf? m ≠ none → moment m < moment l) →
      s'.OrderedBy moment

theorem freshKey_congr (hs : s'.settings = s.settings) (hn : s'.selections = s.selections)
    (l : Level) : s'.freshKey l = s.freshKey l := by
  cases l <;> simp [freshKey, hs, hn]

theorem Rekeyed.of_active_eq {n : Option Level} (hs : s'.settings = s.settings)
    (hn : s'.selections = s.selections) (hr : s'.streak = s.streak) (ha : s'.active = s.active) :
    Rekeyed s n s' where
  settings := hs
  selections := hn
  streak := hr
  old l _ k hk := by rwa [keyOf?, ha] at hk
  kept l _ _ := by rw [keyOf?, ha, ← keyOf?]
  fresh l _ hl k hk := by
    rw [keyOf?, ha, ← keyOf?, hl] at hk
    cases hk
  ordered moment h _ := by rwa [OrderedBy, ha]

theorem Rekeyed.refl (s : Selector) (n : Option Level) : Rekeyed s n s :=
  .of_active_eq rfl rfl rfl rfl

theorem Rekeyed.trans {n : Option Level} {s'' : Selector} (a : Rekeyed s n s')
    (b : Rekeyed s' n s'') : Rekeyed s n s'' where
  settings := b.settings.trans a.settings
  selections := b.selections.trans a.selections
  streak := b.streak.trans a.streak
  old l hl k hk := a.old l hl k (b.old l hl k hk)
  kept l hl hk := by
    have ha := a.kept l hl hk
    rw [b.kept l hl (ha ▸ hk), ha]
  fresh l hl hn k hk := by
    by_cases h : s'.keyOf? l = none
    · rw [b.fresh l hl h k hk, freshKey_congr a.settings a.selections]
    · rw [b.kept l hl h] at hk
      exact a.fresh l hl hn k hk
  ordered moment h hm := by
    refine b.ordered moment (a.ordered moment h hm) fun l hl hn m hk => ?_
    have hml : n ≠ some m := by
      rintro rfl
      cases hl
      exact hk hn
    refine hm l hl (Classical.byContradiction fun h => h (a.kept l hl h ▸ hn)) m ?_
    obtain ⟨k, hk⟩ := Option.ne_none_iff_exists'.1 hk
    simp [a.old m hml k hk]

theorem Settling.rekeyed_filled {ts : List Transition} (w : s.Settling ts) (n : Level) :
    Rekeyed s (some n) (s.apply (.filled n)) := by
  by_cases hn : s.keyOf? n = none
  · refine ⟨by rw [apply_eq], by rw [apply_eq], by rw [apply_eq], ?_, ?_, ?_, ?_⟩
    · intro l hl k hk
      have hne : ¬ (l = n ∧ s.keyOf? n = none) := fun h => hl (congrArg some h.1.symm)
      rwa [w.keyOf?_apply_filled, if_neg hne] at hk
    · rintro l ⟨rfl⟩ hk
      exact absurd hn hk
    · rintro l ⟨rfl⟩ - k hk
      rw [w.keyOf?_apply_filled, if_pos ⟨rfl, hn⟩] at hk
      exact (Option.some.inj hk).symm
    · intro moment ho hlt
      obtain ⟨r, hr, -, -, he⟩ := w.apply_filled_of_none hn
      rw [hr]
      unfold OrderedBy
      rw [he]
      refine Ranking.OrderedBy.inserted ho fun e hem => ?_
      obtain ⟨l, hl, hk⟩ := w.exists_level hem
      rw [← hl, Level.ofIndex?_index, Level.ofIndex?_index]
      exact hlt n rfl hn l (by simp [hk])
  · rw [w.apply_filled_of_some hn]
    exact .refl s _

theorem Settling.rekeyed_emptied {ts : List Transition} {n : Option Level} (w : s.Settling ts)
    {m : Level} (hm : n ≠ some m) : Rekeyed s n (s.apply (.emptied m)) := by
  by_cases ho : s.Occupied m
  · rw [w.apply_emptied_of_occupied ho]
    exact .refl s n
  · have hne : ∀ l, n = some l → ¬ (l = m ∧ ¬ s.Occupied m) := by
      rintro l hl ⟨rfl, -⟩
      exact hm hl
    refine ⟨by rw [apply_eq], by rw [apply_eq], by rw [apply_eq], ?_, ?_, ?_, ?_⟩
    · intro l hl k hk
      rw [w.keyOf?_apply_emptied] at hk
      split_ifs at hk
      exact hk
    · intro l hl hk
      rw [w.keyOf?_apply_emptied, if_neg (hne l hl)]
    · intro l hl hk k hk'
      rw [w.keyOf?_apply_emptied, if_neg (hne l hl), hk] at hk'
      cases hk'
    · intro moment h _
      rw [w.apply_emptied_of_not_occupied ho]
      unfold OrderedBy
      rw [Ranking.Placed.entries_erase w.placed]
      exact Ranking.OrderedBy.filter h _

/-- The transitions that a change which brings work to no level but `n` can report. -/
def Toward (n : Option Level) : Transition → Prop
  | .filled l => n = some l
  | .emptied l => n ≠ some l

theorem Settling.rekeyed_apply {ts : List Transition} {n : Option Level} {t : Transition}
    (w : s.Settling ts) (ht : Toward n t) : Rekeyed s n (s.apply t) := by
  cases t with
  | filled m =>
      obtain rfl : n = some m := ht
      exact w.rekeyed_filled m
  | emptied m => exact w.rekeyed_emptied ht

theorem Settling.rekeyed_foldl {ts : List Transition} {n : Option Level} (w : s.Settling ts)
    (ht : ∀ t ∈ ts, Toward n t) : Rekeyed s n (ts.foldl Selector.apply s) := by
  induction ts generalizing s with
  | nil => exact .refl s n
  | cons t ts ih =>
      rw [List.foldl_cons]
      exact (w.rekeyed_apply (ht t List.mem_cons_self)).trans
        (ih w.apply fun t' h => ht t' (List.mem_cons_of_mem t h))

theorem Sound.settling_withSets (w : s.Sound) {ts : List Transition} {r : ReadySets} (wr : r.WF)
    (ht : (s.sets h).Tells r ts) : (s.withSets h r).Settling ts where
  sets g := by
    rw [sets_withSets]
    split_ifs
    · exact wr
    · exact w.sets g
  placed := by
    rw [active_withSets]
    exact w.placed
  capacity := by
    rw [active_withSets]
    exact w.capacity
  ranked l hl := by
    rw [keyOf?_withSets, ← w.occupied_iff]
    obtain ⟨g, hg⟩ := hl
    rw [sets_withSets] at hg
    split_ifs at hg with e
    · subst e
      exact (ht.filled l hg).imp_left fun ho => ⟨g, ho⟩
    · exact Or.inl ⟨g, hg⟩
  occupied l hl := by
    rw [keyOf?_withSets, ← w.occupied_iff] at hl
    obtain ⟨g, hg⟩ := hl
    by_cases e : g = h
    · subst e
      refine (ht.emptied l hg).imp_left fun ho => ⟨g, ?_⟩
      rwa [sets_withSets_self]
    · refine Or.inl ⟨g, ?_⟩
      rwa [sets_withSets, if_neg e]
  filled l hl := by
    refine ⟨h, ?_⟩
    rw [sets_withSets_self]
    exact (ht.true_filled l hl).1

/-- An update of one half that brings work to no level but `n`. -/
structure Settled (s : Selector) (n : Option Level) (s' : Selector) : Prop where
  sound : s'.Sound
  rekeyed : Rekeyed s n s'

theorem Sound.settled (w : s.Sound) {n : Option Level} {ts : List Transition} {r : ReadySets}
    (wr : r.WF) (ht : (s.sets h).Tells r ts) (hn : ∀ t ∈ ts, Toward n t) :
    Settled s n (ts.foldl apply (s.withSets h r)) where
  sound := (w.settling_withSets wr ht).foldl
  rekeyed := by
    refine Rekeyed.trans ?_ ((w.settling_withSets wr ht).rekeyed_foldl hn)
    cases h <;> exact .of_active_eq rfl rfl rfl rfl

theorem Settled.trans {n : Option Level} {s'' : Selector} (a : Settled s n s')
    (b : Settled s' n s'') : Settled s n s'' :=
  ⟨b.sound, a.rekeyed.trans b.rekeyed⟩

theorem Sound.settled_refl (w : s.Sound) (n : Option Level) : Settled s n s := ⟨w, .refl s n⟩

theorem Sound.withQueues (w : s.Sound) (t : Table QueueId Enrolment) :
    Sound { s with queues := t } :=
  ⟨w.sets, w.placed, w.capacity, w.ranked, w.occupied, w.filled⟩

theorem Settled.rekeyed_of_queues {n : Option Level} {t : Table QueueId Enrolment}
    (a : Settled { s with queues := t } n s') : Rekeyed s n s' := by
  have base : Rekeyed s n { s with queues := t } := .of_active_eq rfl rfl rfl rfl
  exact base.trans a.rekeyed

end Selector

end Dispatch
