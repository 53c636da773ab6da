import Dispatch.Proofs.Selection.Selector
import Dispatch.Selection.Choice

/-!
# What a selection serves

The fronts that the table of queues records (`IsFront`) are the members of the ready sets, so there
is no level to serve only when no queue has work (`WF.nextLevel?_eq_none_iff`), and the half that is
chosen at a level with work holds an oldest front there (`WF.choose_spec`).

A selection gives the level that it serves the fresh key, behind all equal ones, and leaves the
other keys and the table of queues as they are (`Serves`).
-/

namespace Dispatch

theorem Enrolment.listed_eq_some_iff {e : Enrolment} {h : Half} {l : Level} {f : Stamp} :
    e.listed h = some (l, f) ↔ e.enabled = true ∧ e.level = l ∧ e.fronts.get h = some f := by
  unfold Enrolment.listed
  cases e.enabled <;> simp [and_comm]

/-- A selection considers the half. -/
def Scope.Covers : Scope → Half → Prop
  | .bothHalves, _ => True
  | .immediateOnly, h => h = .immediate

instance (scope : Scope) (h : Half) : Decidable (scope.Covers h) :=
  match scope with
  | .bothHalves => inferInstanceAs (Decidable True)
  | .immediateOnly => inferInstanceAs (Decidable (h = .immediate))

namespace Selector

variable {s s' : Selector} {l p : Level} {h g : Half} {q : QueueId} {f : Stamp} {scope : Scope}
  {pick : Pick}

/-- The enabled queue `q` stands at level `l`, and `f` is the front of its half `h`. -/
def IsFront (s : Selector) (l : Level) (h : Half) (q : QueueId) (f : Stamp) : Prop :=
  ∃ e, s.queues.find? q = some e ∧ e.enabled = true ∧ e.level = l ∧ e.fronts.get h = some f

/-- Among the fronts of all halves `h` at level `l`, that of `q` is a least one. -/
def IsOldest (s : Selector) (l : Level) (h : Half) (q : QueueId) (f : Stamp) : Prop :=
  s.IsFront l h q f ∧ ∀ q' f', s.IsFront l h q' f' → f ≤ f'

/-- Some enabled queue at level `l` has a front that a selection considers. -/
def HasWork (s : Selector) (scope : Scope) (l : Level) : Prop :=
  ∃ h q f, scope.Covers h ∧ s.IsFront l h q f

theorem hasWork_iff : s.HasWork scope l ↔ ∃ e ∈ s.queues.entries, e.2.enabled = true ∧
    e.2.level = l ∧ ∃ h ∈ [Half.immediate, Half.delayed], scope.Covers h ∧
      (e.2.fronts.get h).isSome = true := by
  unfold HasWork IsFront
  simp only [Table.find?_eq_some_iff, Option.isSome_iff_exists]
  constructor
  · rintro ⟨h, q, f, hc, e, he, hb, hl, hf⟩
    exact ⟨(q, e), he, hb, hl, h, by cases h <;> simp, hc, f, hf⟩
  · rintro ⟨⟨q, e⟩, he, hb, hl, h, -, hc, f, hf⟩
    exact ⟨h, q, f, hc, e, he, hb, hl, hf⟩

instance : Decidable (s.HasWork scope l) := decidable_of_iff' _ hasWork_iff

theorem WF.isFront_iff (w : s.WF) : s.IsFront l h q f ↔ (s.sets h).member? q = some (l, f) := by
  rw [w.mirrors, Option.bind_eq_some_iff]
  simp only [Enrolment.listed_eq_some_iff]
  rfl

theorem WF.occupied_sets_iff (w : s.WF) : (s.sets h).Occupied l ↔ ∃ q f, s.IsFront l h q f := by
  simp only [w.isFront_iff]
  rfl

theorem WF.hasWork_immediateOnly_iff (w : s.WF) :
    s.HasWork .immediateOnly l ↔ s.immediate.isSetEmpty l = false := by
  have e : s.immediate = s.sets .immediate := rfl
  rw [e, (w.sound.sets .immediate).isSetEmpty_eq_false_iff, w.occupied_sets_iff]
  constructor
  · rintro ⟨h, q, f, rfl, hf⟩
    exact ⟨q, f, hf⟩
  · rintro ⟨q, f, hf⟩
    exact ⟨.immediate, q, f, rfl, hf⟩

theorem WF.hasWork_bothHalves_iff (w : s.WF) : s.HasWork .bothHalves l ↔ s.keyOf? l ≠ none := by
  rw [← w.sound.occupied_iff]
  unfold Occupied
  simp only [w.occupied_sets_iff]
  constructor
  · rintro ⟨h, q, f, -, hf⟩
    exact ⟨h, q, f, hf⟩
  · rintro ⟨h, q, f, hf⟩
    exact ⟨h, q, f, trivial, hf⟩

/-- A selector is idle if no level has work. -/
theorem WF.isIdle_iff (w : s.WF) : s.isIdle = true ↔ ∀ l, ¬ s.HasWork .bothHalves l := by
  have empty : s.isIdle = true ↔ s.active.entries = [] := List.isEmpty_iff
  rw [empty]
  simp only [w.hasWork_bothHalves_iff, not_not]
  constructor
  · intro none l
    refine Option.eq_none_iff_forall_ne_some.2 fun key found => ?_
    have mem := (Ranking.Placed.keyOf?_eq_some_iff w.sound.placed).1 found
    rw [none] at mem
    cases mem
  · intro none
    refine List.eq_nil_iff_forall_not_mem.2 fun e mem => ?_
    obtain ⟨l, -, key⟩ := w.sound.exists_level mem
    rw [none l] at key
    cases key

/-! ### The next level -/

theorem WF.exists_entry (w : s.WF) {e : Nat × Int} (he : s.active.min? = some e) :
    ∃ l : Level, l.index = e.1 ∧ s.keyOf? l = some e.2 :=
  w.sound.exists_level (List.mem_of_head? he)

theorem WF.nextLevel?_bothHalves_eq_some (w : s.WF) (hp : s.nextLevel? .bothHalves = some p) :
    ∃ k, s.active.min? = some (p.index, k) ∧ s.keyOf? p = some k := by
  obtain ⟨e, he, hl⟩ := Option.bind_eq_some_iff.1 hp
  obtain ⟨l, hi, hk⟩ := w.exists_entry he
  rw [← hi, Level.ofIndex?_index] at hl
  cases hl
  exact ⟨e.2, by rw [hi, he], hk⟩

theorem WF.nextLevel?_eq_none_iff (w : s.WF) :
    s.nextLevel? scope = none ↔ ∀ l, ¬ s.HasWork scope l := by
  cases scope with
  | immediateOnly =>
      unfold nextLevel?
      rw [List.find?_eq_none]
      constructor
      · intro h l hl
        rw [w.hasWork_immediateOnly_iff] at hl
        exact h l (Level.mem_all l) (by simp [hl])
      · intro h l _
        have := h l
        rw [w.hasWork_immediateOnly_iff] at this
        simpa using this
  | bothHalves =>
      simp only [w.hasWork_bothHalves_iff]
      constructor
      · intro h l hl
        obtain ⟨k, hk⟩ := Option.ne_none_iff_exists'.1 hl
        have hm : (l.index, k) ∈ s.active.entries :=
          (Ranking.Placed.keyOf?_eq_some_iff w.sound.placed).1 hk
        obtain ⟨e, he⟩ : ∃ e, s.active.min? = some e := by
          unfold Ranking.min?
          cases hs : s.active.entries with
          | nil => simp [hs] at hm
          | cons e es => exact ⟨e, rfl⟩
        obtain ⟨m, hi, -⟩ := w.exists_entry he
        simp [nextLevel?, he, ← hi] at h
      · intro h
        cases hp : s.nextLevel? .bothHalves with
        | none => rfl
        | some p =>
            obtain ⟨k, -, hk⟩ := w.nextLevel?_bothHalves_eq_some hp
            exact absurd (by simp [hk]) (h p)

theorem WF.hasWork_nextLevel? (w : s.WF) (hp : s.nextLevel? scope = some p) :
    s.HasWork scope p := by
  cases scope with
  | immediateOnly =>
      rw [w.hasWork_immediateOnly_iff]
      simpa using List.find?_some hp
  | bothHalves =>
      obtain ⟨k, -, hk⟩ := w.nextLevel?_bothHalves_eq_some hp
      rw [w.hasWork_bothHalves_iff, hk]
      simp

/-- The levels are searched from the most urgent one on. -/
theorem index_le_of_find?_all {P : Level → Bool} (hp : Level.all.find? P = some p) (hl : P l) :
    p.index ≤ l.index := by
  obtain ⟨-, before, after, he, hb⟩ := List.find?_eq_some_iff_append.1 hp
  have sorted : Level.all.Pairwise fun a b => a.index < b.index := by decide
  have hmem : l ∈ Level.all := Level.mem_all l
  rw [he] at sorted hmem
  rcases List.mem_append.1 hmem with h | h
  · have := hb l h
    simp [hl] at this
  · rcases List.mem_cons.1 h with rfl | h
    · exact Nat.le_refl _
    · exact Nat.le_of_lt ((List.pairwise_cons.1 (List.pairwise_append.1 sorted).2.1).1 l h)

/-- If only immediate tasks are wanted, no more urgent level has one. -/
theorem WF.nextLevel?_immediateOnly_le (w : s.WF) (hp : s.nextLevel? .immediateOnly = some p)
    (hl : s.HasWork .immediateOnly l) : p.index ≤ l.index := by
  rw [w.hasWork_immediateOnly_iff] at hl
  unfold nextLevel? at hp
  exact index_le_of_find?_all hp (by simp [hl])

/-- The first entry of the ranking has the least key, and of equal keys the one given first. -/
theorem WF.nextLevel?_bothHalves_before (w : s.WF) {moment : Level → Nat}
    (ho : s.OrderedBy moment) (hp : s.nextLevel? .bothHalves = some p) (hlp : l ≠ p) {k k' : Int}
    (hk : s.keyOf? p = some k) (hk' : s.keyOf? l = some k') :
    k < k' ∨ k = k' ∧ moment p < moment l := by
  obtain ⟨k₀, he, hk₀⟩ := w.nextLevel?_bothHalves_eq_some hp
  obtain rfl : k = k₀ := Option.some.inj (hk.symm.trans hk₀)
  have hm : (l.index, k') ∈ s.active.entries :=
    (Ranking.Placed.keyOf?_eq_some_iff w.sound.placed).1 hk'
  rcases Ranking.OrderedBy.head_before ho he hm with h | h
  · exact absurd (Level.index_injective (congrArg Prod.fst h)) hlp
  · simpa [Ranking.Before] using h

/-! ### The choice of a half -/

theorem WF.isOldest_of_oldest? (w : s.WF) (h : Half) {e : QueueId × Stamp}
    (he : (s.sets h).oldest? l = some e) : s.IsOldest l h e.1 e.2 := by
  refine ⟨w.isFront_iff.2 ((w.sound.sets h).member?_of_oldest? he), fun q f hf => ?_⟩
  exact (w.sound.sets h).oldest?_le he (w.isFront_iff.1 hf)

theorem WF.oldest?_eq_none_iff (w : s.WF) (h : Half) :
    (s.sets h).oldest? l = none ↔ ∀ q f, ¬ s.IsFront l h q f := by
  rw [(w.sound.sets h).oldest?_eq_none_iff, w.occupied_sets_iff]
  simp only [not_exists]

/-- The half that is due at level `l`, with an oldest front.  A delayed one is due only if all
immediate fronts are later and the streak has not come to its limit. -/
inductive Due (s : Selector) (l : Level) : Scope → Pick → Prop
  | immediateOnly {q i} (hi : s.IsOldest l .immediate q i) : Due s l .immediateOnly ⟨q, .immediate⟩
  | starved {q i} (hi : s.IsOldest l .immediate q i) (hs : s.settings.maxStreak ≤ s.streak) :
      Due s l .bothHalves ⟨q, .immediate⟩
  | immediate {q i} (hi : s.IsOldest l .immediate q i)
      (hd : ∀ q' d, s.IsFront l .delayed q' d → i ≤ d) : Due s l .bothHalves ⟨q, .immediate⟩
  | delayed {q d} (hd : s.IsOldest l .delayed q d)
      (hi : ∀ q' i, s.IsFront l .immediate q' i → d < i ∧ s.streak < s.settings.maxStreak) :
      Due s l .bothHalves ⟨q, .delayed⟩

theorem WF.due_of_choose (w : s.WF) (hc : s.choose l scope = some pick) : s.Due l scope pick := by
  have immediate : ∀ {e}, s.immediate.oldest? l = some e → s.IsOldest l .immediate e.1 e.2 :=
    w.isOldest_of_oldest? .immediate
  have delayed : ∀ {e}, s.delayed.oldest? l = some e → s.IsOldest l .delayed e.1 e.2 :=
    w.isOldest_of_oldest? .delayed
  have no_immediate : s.immediate.oldest? l = none → ∀ q f, ¬ s.IsFront l .immediate q f :=
    (w.oldest?_eq_none_iff .immediate).1
  have no_delayed : s.delayed.oldest? l = none → ∀ q f, ¬ s.IsFront l .delayed q f :=
    (w.oldest?_eq_none_iff .delayed).1
  unfold choose at hc
  rcases hi : s.immediate.oldest? l with _ | ⟨q, i⟩ <;>
    rcases hd : s.delayed.oldest? l with _ | ⟨q', d⟩ <;>
      cases scope <;> simp only [hi, hd, Option.map_some, Option.map_none, reduceCtorEq] at hc
  · cases hc
    exact .delayed (delayed hd) fun q' i' hi' => absurd hi' (no_immediate hi q' i')
  · cases hc
    exact .immediate (immediate hi) fun q' d' hd' => absurd hd' (no_delayed hd q' d')
  · cases hc
    exact .immediateOnly (immediate hi)
  · split_ifs at hc with hle
    · cases hc
      rw [Bool.or_eq_true, decide_eq_true_eq, decide_eq_true_eq] at hle
      rcases hle with hs | hle
      · exact .starved (immediate hi) hs
      · refine .immediate (immediate hi) fun q'' d' hd' => ?_
        exact Nat.le_trans hle ((delayed hd).2 q'' d' hd')
    · cases hc
      rw [Bool.or_eq_true, decide_eq_true_eq, decide_eq_true_eq, not_or] at hle
      refine .delayed (delayed hd) fun q'' i' hi' => ⟨?_, Nat.lt_of_not_le hle.1⟩
      have hle' : i ≤ i' := (immediate hi).2 q'' i' hi'
      exact Nat.lt_of_lt_of_le (Nat.lt_of_not_le hle.2) hle'
  · cases hc
    exact .immediateOnly (immediate hi)

theorem WF.choose_ne_none (w : s.WF) (hl : s.HasWork scope l) : s.choose l scope ≠ none := by
  have no_immediate : s.immediate.oldest? l = none → ∀ q f, ¬ s.IsFront l .immediate q f :=
    (w.oldest?_eq_none_iff .immediate).1
  have no_delayed : s.delayed.oldest? l = none → ∀ q f, ¬ s.IsFront l .delayed q f :=
    (w.oldest?_eq_none_iff .delayed).1
  obtain ⟨h, q, f, hc, hf⟩ := hl
  unfold choose
  rcases hi : s.immediate.oldest? l with _ | ⟨q', i⟩
  · cases h with
    | immediate => exact absurd hf (no_immediate hi q f)
    | delayed =>
        cases scope with
        | immediateOnly => cases hc
        | bothHalves =>
            cases hd : s.delayed.oldest? l with
            | none => exact absurd hf (no_delayed hd q f)
            | some e => simp
  · cases scope with
    | immediateOnly => simp
    | bothHalves =>
        cases hd : s.delayed.oldest? l with
        | none => simp
        | some e =>
            dsimp only
            split_ifs <;> simp

/-! ### The selection -/

/-- The pick of a selection, and what a selection at level `l` changes. -/
structure Serves (s : Selector) (scope : Scope) (l : Level) (pick : Pick) (s' : Selector) :
    Prop where
  next : s.nextLevel? scope = some l
  due : s.Due l scope pick
  queues : s'.queues = s.queues
  sets : ∀ h, s'.sets h = s.sets h
  settings : s'.settings = s.settings
  selections : s'.selections = s.selections + 1
  streak : s'.streak = if pick.half = .delayed ∧ s.HasWork .immediateOnly l then s.streak + 1 else 0
  active : s'.active = s.active.changeKey l.index (s'.freshKey l)

theorem WF.select_cases (w : s.WF) (scope : Scope) :
    s.nextLevel? scope = none ∧ s.select scope = (none, s) ∨
      ∃ l pick s', s.select scope = (some pick, s') ∧ Serves s scope l pick s' := by
  unfold select
  cases hn : s.nextLevel? scope with
  | none => exact Or.inl ⟨rfl, rfl⟩
  | some l =>
      refine Or.inr ?_
      dsimp only
      cases hc : s.choose l scope with
      | none => exact absurd hc (w.choose_ne_none (w.hasWork_nextLevel? hn))
      | some pick =>
          refine ⟨l, pick, _, rfl, ?_⟩
          refine ⟨hn, w.due_of_choose hc, rfl, fun h => ?_, rfl, rfl, ?_, ?_⟩
          · cases h <;> rfl
          · simp [w.hasWork_immediateOnly_iff]
          · cases l <;> rfl

theorem WF.contains_of_hasWork (w : s.WF) (hl : s.HasWork scope l) :
    s.active.contains l.index = true := by
  rw [w.sound.contains_iff, ← w.hasWork_bothHalves_iff]
  obtain ⟨h, q, f, -, hf⟩ := hl
  exact ⟨h, q, f, trivial, hf⟩

theorem Serves.keyOf? (v : Serves s scope l pick s') (w : s.WF) (m : Level) :
    s'.keyOf? m = if m = l then some (s'.freshKey l) else s.keyOf? m := by
  unfold Selector.keyOf?
  rw [v.active, Ranking.Placed.keyOf?_changeKey w.sound.placed
    (w.contains_of_hasWork (w.hasWork_nextLevel? v.next))]
  simp

theorem Serves.wf (v : Serves s scope l pick s') (w : s.WF) : s'.WF := by
  have hc := w.contains_of_hasWork (w.hasWork_nextLevel? v.next)
  obtain ⟨placed, capacity, -⟩ := @Ranking.Placed.changeKey _ _ (s'.freshKey l) w.sound.placed hc
  have occupied : ∀ m, s'.Occupied m ↔ s.Occupied m := fun m => by
    unfold Occupied
    simp only [v.sets]
  have ranked : ∀ m, s'.keyOf? m ≠ none ↔ s.keyOf? m ≠ none := by
    intro m
    rw [v.keyOf? w]
    split_ifs with hm
    · have := w.sound.contains_iff.1 hc
      simp [hm, this]
    · rfl
  refine ⟨⟨fun h => v.sets h ▸ w.sound.sets h, v.active ▸ placed,
    v.active ▸ capacity.trans w.sound.capacity, fun m hm => ?_, fun m hm => ?_, by simp⟩,
    fun h q => ?_⟩
  · rw [occupied, w.sound.occupied_iff, ← ranked] at hm
    exact Or.inl hm
  · rw [ranked, ← w.sound.occupied_iff, ← occupied] at hm
    exact Or.inl hm
  · rw [v.sets, v.queues]
    exact w.mirrors h q

/-- The level that is served comes behind all equal keys. -/
theorem Serves.orderedBy (v : Serves s scope l pick s') (w : s.WF) {moment : Level → Nat}
    (ho : s.OrderedBy moment) {moment' : Level → Nat} (hs : ∀ m, m ≠ l → moment' m = moment m)
    (hl : ∀ m, m ≠ l → moment m < moment' l) : s'.OrderedBy moment' := by
  have hc := w.contains_of_hasWork (w.hasWork_nextLevel? v.next)
  obtain ⟨-, -, he⟩ := @Ranking.Placed.changeKey _ _ (s'.freshKey l) w.sound.placed hc
  have level : ∀ e ∈ s.active.entries.filter (·.1 ≠ l.index),
      ∃ m : Level, m.index = e.1 ∧ m ≠ l := by
    intro e hm
    rw [List.mem_filter] at hm
    obtain ⟨m, hi, -⟩ := w.sound.exists_level hm.1
    refine ⟨m, hi, ?_⟩
    rintro rfl
    simp [hi] at hm
  unfold OrderedBy
  rw [v.active, he]
  refine Ranking.OrderedBy.inserted ?_ fun e hm => ?_
  · refine (Ranking.OrderedBy.filter ho _).congr fun e hm => ?_
    obtain ⟨m, hi, hne⟩ := level e hm
    rw [← hi, Level.ofIndex?_index]
    exact hs m hne
  · obtain ⟨m, hi, hne⟩ := level e hm
    rw [← hi, Level.ofIndex?_index, Level.ofIndex?_index]
    show moment' m < moment' l
    rw [hs m hne]
    exact hl m hne

end Selector

end Dispatch
