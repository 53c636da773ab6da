import Dispatch.Proofs.Selection.Starvation
import Mathlib.Data.List.Induction

/-!
# What a selector holds after a run

A selector may be asked for any actions in any order.  One that breaks the contract (`Breaches`)
changes nothing.  After all of them the ready sets and the ranking are what the table of queues and
the run determine (`represents_records`): a half of a queue is in the set of a level exactly if the
table has it as a front there, a level is ranked exactly if one of its two sets has a member, and
its key is the one that it was given when it was last filled or served (`LastKeyed`).  The level has
had work ever since, so no key outlives the work for which it was given.
-/

namespace Dispatch

/-- The key that a level is given when there have been `c` selections. -/
def Settings.keyAt (settings : Settings) (c : Nat) : Level → Int
  | .control => minKey
  | .bestEffort => maxKey
  | l => clampKey (min (c : Int) maxKey + settings.tolerance.get l)

namespace Selector

variable {s : Selector} {l : Level} {h : Half} {q : QueueId} {f : Stamp} {a b : Action}
  {before after : List Action}

theorem freshKey_eq_keyAt (s : Selector) (l : Level) :
    s.freshKey l = s.settings.keyAt s.selections l := by
  cases l <;> rfl

/-! ### Actions that break the contract -/

/-- The action enrols a queue again, names one that is not enrolled, or enables or disables one that
is so already. -/
def Breaches (s : Selector) : Action → Prop
  | .add q _ => s.isEnrolled q = true
  | .remove q | .setLevel q _ | .changeFront q _ _ => s.isEnrolled q = false
  | .enable q => s.isEnrolled q = false ∨ s.isEnabled q = true
  | .disable q => s.isEnrolled q = false ∨ s.isEnabled q = false
  | .select _ => False

theorem isEnrolled_eq_false_iff : s.isEnrolled q = false ↔ s.queues.find? q = none := by
  unfold isEnrolled Table.contains
  exact Option.isSome_eq_false_iff.trans Option.isNone_iff_eq_none

/-- Whoever listens for queues that are enabled is told nothing either. -/
theorem enable_of_breaches (breach : s.Breaches (.enable q)) : s.enable q = (false, s) := by
  unfold Selector.enable
  rcases breach with out | enabled
  · rw [isEnrolled_eq_false_iff.1 out]
  · obtain ⟨e, found, enabled⟩ := (Option.any_eq_true _ _).1 enabled
    simp only [found, enabled, if_true]

theorem act_of_breaches (breach : s.Breaches a) : s.act a = s := by
  cases a with
  | add q fronts => exact if_pos breach
  | remove q =>
      show s.remove q = s
      unfold Selector.remove
      rw [isEnrolled_eq_false_iff.1 breach]
  | enable q => exact congrArg Prod.snd (enable_of_breaches breach)
  | disable q =>
      show s.disable q = s
      unfold Selector.disable
      cases found : s.queues.find? q with
      | none => rfl
      | some e =>
          have disabled : e.enabled = false := by
            rcases breach with out | disabled
            · rw [isEnrolled_eq_false_iff.1 out] at found
              cases found
            · simpa [isEnabled, found] using disabled
          simp only [disabled, Bool.false_eq_true, if_false]
  | setLevel q l =>
      show s.setLevel q l = s
      unfold Selector.setLevel
      rw [isEnrolled_eq_false_iff.1 breach]
  | changeFront q h x =>
      show s.changeFront q h x = s
      unfold Selector.changeFront
      rw [isEnrolled_eq_false_iff.1 breach]
  | select scope => exact breach.elim

/-! ### Sets and levels -/

theorem WF.mem_entries_iff (w : s.WF) :
    (q, f) ∈ ((s.sets h).sets.get l).entries ↔ s.IsFront l h q f := by
  have sets := w.sound.sets h
  rw [w.isFront_iff, sets.member?_eq_some_iff, (sets.heap l).tracked.get?_eq_some_iff]

theorem WF.levelOf?_sets_iff (w : s.WF) :
    (s.sets h).levelOf? q = some l ↔ ∃ f, s.IsFront l h q f := by
  rw [(w.sound.sets h).levelOf?_eq_some_iff]
  simp only [w.isFront_iff, (w.sound.sets h).member?_eq_some_iff]

theorem WF.contains_active_iff (w : s.WF) : s.active.contains l.index = true ↔
    s.immediate.isSetEmpty l = false ∨ s.delayed.isSetEmpty l = false := by
  have immediate : s.immediate.isSetEmpty l = false ↔ s.immediate.Occupied l :=
    (w.sound.sets .immediate).isSetEmpty_eq_false_iff
  have delayed : s.delayed.isSetEmpty l = false ↔ s.delayed.Occupied l :=
    (w.sound.sets .delayed).isSetEmpty_eq_false_iff
  rw [w.sound.contains_iff, ← w.sound.occupied_iff, immediate, delayed]
  constructor
  · rintro ⟨_ | _, member⟩
    · exact Or.inl member
    · exact Or.inr member
  · rintro (member | member)
    · exact ⟨.immediate, member⟩
    · exact ⟨.delayed, member⟩

/-! ### Keys -/

/-- Action `a`, between the runs `before` and `after`, is the last one that gave level `l` a key,
and the level has had work ever since. -/
structure LastKeyed (s : Selector) (l : Level) (before : List Action) (a : Action)
    (after : List Action) : Prop where
  keys : (s.run before).Keys a l
  hasWork : ∀ as, as <+: after → (s.run (before ++ a :: as)).HasWork .bothHalves l
  not_keys : ∀ as b, as ++ [b] <+: after → ¬ (s.run (before ++ a :: as)).Keys b l

theorem lastKeyed_nil (keys : (s.run before).Keys a l)
    (work : (s.run (before ++ [a])).HasWork .bothHalves l) : LastKeyed s l before a [] where
  keys := keys
  hasWork as sub := by rwa [List.prefix_nil.1 sub]
  not_keys as b sub := by simp at sub

/-- The level keeps its key while it keeps its work and is not served. -/
theorem LastKeyed.concat (last : LastKeyed s l before a after)
    (work : (s.run (before ++ a :: (after ++ [b]))).HasWork .bothHalves l)
    (keys : ¬ (s.run (before ++ a :: after)).Keys b l) :
    LastKeyed s l before a (after ++ [b]) where
  keys := last.keys
  hasWork as sub := by
    rcases List.prefix_concat_iff.1 sub with rfl | sub
    · exact work
    · exact last.hasWork as sub
  not_keys as c sub := by
    rcases List.prefix_concat_iff.1 sub with e | sub
    · obtain ⟨rfl, rfl⟩ : as = after ∧ c = b := by simpa using e
      exact keys
    · exact last.not_keys as c sub

/-- The key in the log is the one that the last such action gave. -/
theorem exists_lastKeyed (settings : Settings) (as : List Action)
    (work : (run { settings := settings } as).HasWork .bothHalves l) :
    ∃ before a after, as = before ++ a :: after ∧
      LastKeyed { settings := settings } l before a after ∧
      (Log.run settings as).key l =
        settings.keyAt (run { settings := settings } (before ++ [a])).selections l := by
  induction as using List.reverseRecOn with
  | nil => exact absurd work ((Log.wf_start settings).selector.nextLevel?_eq_none_iff.1 rfl l)
  | append_singleton as b ih =>
      have log := Log.selector_run settings as
      have now : (Log.run settings as).step b = Log.run settings (as ++ [b]) :=
        (Log.run_concat settings as b).symm
      by_cases keys : (run { settings := settings } as).Keys b l
      · refine ⟨as, b, [], rfl, lastKeyed_nil keys work, ?_⟩
        have key : (Log.run settings (as ++ [b])).key l =
            (Log.run settings (as ++ [b])).selector.freshKey l := by
          rw [← now]
          exact if_pos (log ▸ keys)
        rw [key, freshKey_eq_keyAt, Log.settings_run, Log.selector_run]
      · have worked : (run { settings := settings } as).HasWork .bothHalves l := by
          by_contra none
          exact keys (Or.inl ⟨none, run_concat _ as b ▸ work⟩)
        obtain ⟨before, a, after, rfl, last, key⟩ := ih worked
        rw [List.append_assoc, List.cons_append] at work ⊢
        refine ⟨before, a, after ++ [b], rfl, last.concat work keys, ?_⟩
        rw [← key, ← List.cons_append, ← List.append_assoc, ← now]
        exact (Log.step_of_not_keys (log ▸ keys)).1

/-! ### Runs -/

/-- After any run, the ready sets hold what the table of queues records, the ranked levels are those
with a member, and each has the key for the number of selections at which it was last filled or
served. -/
theorem represents_records (settings : Settings) (as : List Action) :
    let start : Selector := { settings := settings }
    let s := start.run as
    (∀ a, s.Breaches a → s.act a = s) ∧
      (∀ q, s.Breaches (.enable q) → (s.enable q).1 = false) ∧
      (∀ h l q f, (q, f) ∈ ((s.sets h).sets.get l).entries ↔ s.IsFront l h q f) ∧
      (∀ h l q, (s.sets h).levelOf? q = some l ↔ ∃ f, s.IsFront l h q f) ∧
      (∀ l, s.active.contains l.index = true ↔
        s.immediate.isSetEmpty l = false ∨ s.delayed.isSetEmpty l = false) ∧
      (s.isIdle = true ↔ ∀ l h q f, ¬ s.IsFront l h q f) ∧
      ∀ l, s.active.contains l.index = true →
        ∃ before a after, as = before ++ a :: after ∧ LastKeyed start l before a after ∧
          s.keyOf? l = some (settings.keyAt (start.run (before ++ [a])).selections l) := by
  intro start s
  have w : s.WF := wf_run settings as
  refine ⟨fun a => act_of_breaches, fun q breach => ?_, fun h l q f => w.mem_entries_iff,
    fun h l q => w.levelOf?_sets_iff, fun l => w.contains_active_iff, ?_, fun l active => ?_⟩
  · rw [enable_of_breaches breach]
  · rw [w.isIdle_iff]
    constructor
    · intro none l h q f front
      exact none l ⟨h, q, f, trivial, front⟩
    · rintro none l ⟨h, q, f, -, front⟩
      exact none l h q f front
  · have work : s.HasWork .bothHalves l :=
      w.hasWork_bothHalves_iff.2 (w.sound.contains_iff.1 active)
    obtain ⟨before, a, after, split, last, key⟩ := exists_lastKeyed settings as work
    have log := Log.selector_run settings as
    refine ⟨before, a, after, split, last, ?_⟩
    have ranked := (Log.wf_run settings as).keys l (log ▸ work)
    rwa [log, key] at ranked

-- The level `normal` runs empty under the key 17 and is filled again after 19 selections.
example :
    let past : List Action :=
      [.add ⟨1, 1⟩ ⟨some ⟨1⟩, none⟩, .add ⟨2, 1⟩ ⟨some ⟨2⟩, none⟩, .setLevel ⟨1, 1⟩ .highest] ++
        List.replicate 9 (.select .bothHalves)
    let empty := past ++
      .changeFront ⟨2, 1⟩ .immediate none :: List.replicate 10 (.select .bothHalves)
    let filled := empty ++ [.changeFront ⟨2, 1⟩ .immediate (some ⟨100⟩)]
    (run {} past).keyOf? .normal = some 17 ∧ (run {} empty).keyOf? .normal = none ∧
      (run {} filled).keyOf? .normal = some 27 := by
  decide +kernel

end Selector

end Dispatch
