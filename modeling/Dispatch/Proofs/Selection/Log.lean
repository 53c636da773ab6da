import Dispatch.Proofs.Selection.Choice

/-!
# Runs of the selector

A run is a list of actions.  The log of a run (`Log`) says for every level when it was last given a
key, and which one.  An action gives a level a key when it brings the level its first work or serves
it (`Keys`).  These two are all that the order of the levels is made of: the ranking of the selector
holds the levels with work, under the keys in the log, and orders equal keys by the moments in the
log (`Log.wf_run`).
-/

namespace Dispatch

/-- What can be asked of a selector. -/
inductive Action where
  | add (q : QueueId) (fronts : Fronts)
  | remove (q : QueueId)
  | enable (q : QueueId)
  | disable (q : QueueId)
  | setLevel (q : QueueId) (l : Level)
  | changeFront (q : QueueId) (h : Half) (front : Option Stamp)
  | select (scope : Scope)
deriving DecidableEq

namespace Selector

variable {s s' : Selector} {l p : Level} {scope : Scope} {pick : Pick} {a : Action}

/-- The selector after an action.  What the action answers is left out. -/
def act (s : Selector) : Action → Selector
  | .add q f => s.add q f
  | .remove q => s.remove q
  | .enable q => (s.enable q).2
  | .disable q => s.disable q
  | .setLevel q l => s.setLevel q l
  | .changeFront q h x => s.changeFront q h x
  | .select scope => (s.select scope).2

/-- The selector after a list of actions. -/
def run (s : Selector) (as : List Action) : Selector := as.foldl act s

theorem run_append (s : Selector) (as bs : List Action) : s.run (as ++ bs) = (s.run as).run bs :=
  List.foldl_append

theorem run_concat (s : Selector) (as : List Action) (a : Action) :
    s.run (as ++ [a]) = (s.run as).act a :=
  s.run_append as [a]

/-- The level of the queue that an action selects. -/
def served? (s : Selector) : Action → Option Level
  | .select scope => (s.select scope).1.bind fun pick => s.levelOf? pick.queue
  | _ => none

/-- The action gives the level a key: it brings it the first work or serves it. -/
def Keys (s : Selector) (a : Action) (l : Level) : Prop :=
  ¬ s.HasWork .bothHalves l ∧ (s.act a).HasWork .bothHalves l ∨ s.served? a = some l

instance : Decidable (s.Keys a l) := inferInstanceAs (Decidable (_ ∨ _))

/-- A selector, with the key that each level was last given and the step at which it was. -/
structure Log where
  selector : Selector
  steps : Nat := 0
  key : Level → Int := fun _ => 0
  keyedAt : Level → Nat := fun _ => 0

namespace Log

/-- The log after an action.  The levels that are given a key by it are those that it fills or
serves. -/
def step (r : Log) (a : Action) : Log where
  selector := r.selector.act a
  steps := r.steps + 1
  key l := if r.selector.Keys a l then (r.selector.act a).freshKey l else r.key l
  keyedAt l := if r.selector.Keys a l then r.steps + 1 else r.keyedAt l

/-- The log of a run from a new selector. -/
def run (settings : Settings) (as : List Action) : Log :=
  as.foldl step { selector := { settings := settings } }

theorem selector_foldl_step (as : List Action) (r : Log) :
    (as.foldl step r).selector = r.selector.run as := by
  induction as generalizing r with
  | nil => rfl
  | cons a as ih => exact ih (r.step a)

theorem selector_run (settings : Settings) (as : List Action) :
    (run settings as).selector = Selector.run { settings := settings } as :=
  selector_foldl_step as _

/-- The ranking is what the log says. -/
structure WF (r : Log) : Prop where
  selector : r.selector.WF
  keys : ∀ l, r.selector.HasWork .bothHalves l → r.selector.keyOf? l = some (r.key l)
  ordered : r.selector.OrderedBy r.keyedAt
  past : ∀ l, r.keyedAt l ≤ r.steps
  fresh : ∀ l, r.selector.HasWork .bothHalves l → ∃ c ≤ r.selector.selections,
    r.key l = freshKey { settings := r.selector.settings, selections := c } l

theorem wf_start (settings : Settings) : WF { selector := { settings := settings } } := by
  have none_works : ∀ l, ¬ Selector.HasWork { settings := settings } .bothHalves l := by
    rintro l ⟨h, q, f, -, e, he, -⟩
    cases he
  refine ⟨wf_new settings, fun l hl => absurd hl (none_works l), ?_, fun l => Nat.le_refl 0,
    fun l hl => absurd hl (none_works l)⟩
  exact List.Pairwise.nil

end Log

/-! ### One action -/

theorem Serves.levelOf? (v : Serves s scope l pick s') : s.levelOf? pick.queue = some l := by
  have level : ∀ {h q f}, s.IsFront l h q f → s.levelOf? q = some l := by
    rintro h q f ⟨e, he, -, rfl, -⟩
    simp [Selector.levelOf?, he]
  rcases v.due with hi | ⟨hi, -⟩ | ⟨hi, -⟩ | ⟨hd, -⟩
  · exact level hi.1
  · exact level hi.1
  · exact level hi.1
  · exact level hd.1

/-- An action serves a level, or brings work to one level at most. -/
theorem WF.act_cases (w : s.WF) (a : Action) :
    Follows s (s.act a) ∧ s.served? a = none ∨
      ∃ scope l pick, a = .select scope ∧ Serves s scope l pick (s.act a) ∧
        s.served? a = some l := by
  cases a with
  | add q f => exact Or.inl ⟨w.add q f, rfl⟩
  | remove q => exact Or.inl ⟨w.remove q, rfl⟩
  | enable q => exact Or.inl ⟨w.enable q, rfl⟩
  | disable q => exact Or.inl ⟨w.disable q, rfl⟩
  | setLevel q l => exact Or.inl ⟨w.setLevel q l, rfl⟩
  | changeFront q h x => exact Or.inl ⟨w.changeFront q h x, rfl⟩
  | select scope =>
      have hs : s.act (.select scope) = (s.select scope).2 := rfl
      have hp : s.served? (.select scope) =
          (s.select scope).1.bind fun pick => s.levelOf? pick.queue := rfl
      rw [hs, hp]
      rcases w.select_cases scope with ⟨-, e⟩ | ⟨l, pick, s', e, v⟩
      · rw [e]
        exact Or.inl ⟨w.follows_refl, rfl⟩
      · rw [e]
        exact Or.inr ⟨scope, l, pick, rfl, v, v.levelOf?⟩

theorem Serves.hasWork_iff (v : Serves s scope l pick s') (m : Level) :
    s'.HasWork .bothHalves m ↔ s.HasWork .bothHalves m := by
  unfold HasWork IsFront
  rw [v.queues]

theorem Serves.keys_iff (v : Serves s scope l pick (s.act a)) (ha : s.served? a = some l)
    (m : Level) : s.Keys a m ↔ m = l := by
  unfold Keys
  rw [v.hasWork_iff, ha, Option.some.injEq, eq_comm]
  exact ⟨fun h => h.resolve_left fun h => h.1 h.2, Or.inr⟩

/-- What was not given a key has the one that it had. -/
theorem Follows.keyOf?_eq (v : Follows s s') (w : s.WF) (hl : s.HasWork .bothHalves l)
    (hl' : s'.HasWork .bothHalves l) : s'.keyOf? l = s.keyOf? l := by
  obtain ⟨n, rekeyed⟩ := v.rekeyed
  rw [w.hasWork_bothHalves_iff] at hl
  rw [v.wf.hasWork_bothHalves_iff] at hl'
  by_cases hn : n = some l
  · exact rekeyed.kept l hn hl
  · obtain ⟨k, hk⟩ := Option.ne_none_iff_exists'.1 hl'
    rw [hk, rekeyed.old l hn k hk]

theorem Follows.keyOf?_eq_freshKey (v : Follows s s') (w : s.WF)
    (hl : ¬ s.HasWork .bothHalves l) (hl' : s'.HasWork .bothHalves l) :
    s'.keyOf? l = some (s'.freshKey l) := by
  obtain ⟨n, rekeyed⟩ := v.rekeyed
  rw [w.hasWork_bothHalves_iff, Classical.not_not] at hl
  rw [v.wf.hasWork_bothHalves_iff] at hl'
  obtain ⟨k, hk⟩ := Option.ne_none_iff_exists'.1 hl'
  have hn : n = some l := by
    by_contra hn
    rw [rekeyed.old l hn k hk] at hl
    cases hl
  rw [hk, rekeyed.fresh l hn hl k hk, freshKey_congr rekeyed.settings rekeyed.selections]

/-- A level that gets its first work comes behind all equal keys. -/
theorem Follows.orderedBy (v : Follows s s') (w : s.WF) {moment moment' : Level → Nat} {now : Nat}
    (ho : s.OrderedBy moment) (past : ∀ l, moment l < now)
    (old : ∀ l, s.HasWork .bothHalves l → moment' l = moment l)
    (new : ∀ l, ¬ s.HasWork .bothHalves l → s'.HasWork .bothHalves l → moment' l = now) :
    s'.OrderedBy moment' := by
  obtain ⟨n, rekeyed⟩ := v.rekeyed
  let shifted : Level → Nat := fun l => if s.HasWork .bothHalves l then moment l else now
  have h₀ : s.OrderedBy shifted := by
    refine ho.congr fun e he => ?_
    obtain ⟨l, hi, hk⟩ := w.sound.exists_level he
    have hl : s.HasWork .bothHalves l := w.hasWork_bothHalves_iff.2 (by simp [hk])
    rw [← hi, Level.ofIndex?_index]
    exact if_pos hl
  have h₁ : s'.OrderedBy shifted := by
    refine rekeyed.ordered shifted h₀ fun l _ hk m hm => ?_
    have hl : ¬ s.HasWork .bothHalves l := fun h => w.hasWork_bothHalves_iff.1 h hk
    have hm : s.HasWork .bothHalves m := w.hasWork_bothHalves_iff.2 hm
    simpa [shifted, hl, hm] using past m
  refine h₁.congr fun e he => ?_
  obtain ⟨l, hi, hk⟩ := v.wf.sound.exists_level he
  have hl' : s'.HasWork .bothHalves l := v.wf.hasWork_bothHalves_iff.2 (by simp [hk])
  rw [← hi, Level.ofIndex?_index]
  by_cases hl : s.HasWork .bothHalves l
  · exact (old l hl).trans (if_pos hl).symm
  · exact (new l hl hl').trans (if_neg hl).symm

theorem WF.selections_le_run (w : s.WF) (as : List Action) :
    s.selections ≤ (s.run as).selections := by
  induction as generalizing s with
  | nil => exact Nat.le_refl _
  | cons a as ih =>
      rcases w.act_cases a with ⟨v, -⟩ | ⟨scope, l, pick, -, v, -⟩
      · obtain ⟨n, rekeyed⟩ := v.rekeyed
        exact rekeyed.selections.symm.trans_le (ih v.wf)
      · exact (Nat.le_succ _).trans (v.selections.symm.trans_le (ih (v.wf w)))

/-- A new front of a delayed half leaves those of the immediate ones. -/
theorem IsFront.changeFront_delayed {q : QueueId} {f : Stamp} (a : s.IsFront l .immediate q f)
    (j : QueueId) (x : Option Stamp) : (s.changeFront j .delayed x).IsFront l .immediate q f := by
  obtain ⟨e, he, enabled, level, front⟩ := a
  unfold IsFront
  rw [find?_queues_changeFront]
  split_ifs with same
  · subst same
    exact ⟨_, congrArg _ he, enabled, level, front⟩
  · exact ⟨e, he, enabled, level, front⟩

theorem IsFront.run {q : QueueId} {f : Stamp} {as : List Action}
    (front : s.IsFront l .immediate q f)
    (fronts : ∀ a ∈ as, ∃ j x, a = .changeFront j .delayed x) :
    (s.run as).IsFront l .immediate q f := by
  induction as generalizing s with
  | nil => exact front
  | cons a as ih =>
      obtain ⟨j, x, rfl⟩ := fronts a List.mem_cons_self
      exact ih (front.changeFront_delayed j x) fun a ha => fronts a (.tail _ ha)

namespace Log

variable {r : Log}

theorem WF.past_step (w : r.WF) (a : Action) (l : Level) :
    (r.step a).keyedAt l ≤ (r.step a).steps := by
  simp only [Log.step]
  split_ifs
  · exact Nat.le_refl _
  · exact Nat.le_succ_of_le (w.past l)

/-- An action that serves nothing gives a key to the level to which it brings the first work. -/
theorem WF.step_of_follows (w : r.WF) (v : Follows r.selector (r.selector.act a))
    (ha : r.selector.served? a = none) : (r.step a).WF := by
  have ws := w.selector
  have unkeyed : ∀ l, r.selector.HasWork .bothHalves l → ¬ r.selector.Keys a l := by
    rintro l hl (h | h)
    · exact h.1 hl
    · rw [ha] at h
      cases h
  have keyed : ∀ l, ¬ r.selector.HasWork .bothHalves l →
      (r.selector.act a).HasWork .bothHalves l → r.selector.Keys a l :=
    fun l hl hl' => Or.inl ⟨hl, hl'⟩
  obtain ⟨n, rekeyed⟩ := v.rekeyed
  refine ⟨v.wf, fun l hl' => ?_, ?_, w.past_step a, fun l hl' => ?_⟩
  · by_cases hl : r.selector.HasWork .bothHalves l
    · simp only [Log.step, if_neg (unkeyed l hl)]
      rw [v.keyOf?_eq ws hl hl', w.keys l hl]
    · simp only [Log.step, if_pos (keyed l hl hl')]
      exact v.keyOf?_eq_freshKey ws hl hl'
  · refine v.orderedBy ws w.ordered (fun l => Nat.lt_succ_of_le (w.past l)) (fun l hl => ?_)
      fun l hl hl' => ?_
    · simp only [Log.step, if_neg (unkeyed l hl)]
    · simp only [Log.step, if_pos (keyed l hl hl')]
  · by_cases hl : r.selector.HasWork .bothHalves l
    · obtain ⟨c, hc, hk⟩ := w.fresh l hl
      refine ⟨c, hc.trans_eq rekeyed.selections.symm, ?_⟩
      simp only [Log.step, if_neg (unkeyed l hl)]
      rw [hk, ← rekeyed.settings]
    · refine ⟨_, Nat.le_refl _, ?_⟩
      simp only [Log.step, if_pos (keyed l hl hl')]
      exact freshKey_congr rfl rfl l

/-- A selection gives a key to the level that it serves. -/
theorem WF.step_of_serves (w : r.WF) (v : Serves r.selector scope p pick (r.selector.act a))
    (ha : r.selector.served? a = some p) : (r.step a).WF := by
  have ws := w.selector
  have keys : ∀ l, r.selector.Keys a l ↔ l = p := v.keys_iff ha
  refine ⟨v.wf ws, fun l hl' => ?_, ?_, w.past_step a, fun l hl' => ?_⟩
  · have hl := (v.hasWork_iff l).1 hl'
    simp only [Log.step, keys, v.keyOf? ws l, w.keys l hl]
    split_ifs with h
    · rw [h]
    · rfl
  · refine v.orderedBy ws w.ordered (fun l hl => ?_) fun l hl => ?_
    · simp only [Log.step, keys, if_neg hl]
    · simp only [Log.step, keys, if_true]
      exact Nat.lt_succ_of_le (w.past l)
  · simp only [Log.step, keys]
    split_ifs with h
    · exact ⟨_, Nat.le_refl _, freshKey_congr rfl rfl l⟩
    · obtain ⟨c, hc, hk⟩ := w.fresh l ((v.hasWork_iff l).1 hl')
      refine ⟨c, hc.trans (v.selections ▸ Nat.le_succ _), ?_⟩
      rw [hk, ← v.settings]

theorem WF.step (w : r.WF) (a : Action) : (r.step a).WF := by
  rcases w.selector.act_cases a with ⟨v, ha⟩ | ⟨scope, p, pick, -, v, ha⟩
  · exact w.step_of_follows v ha
  · exact w.step_of_serves v ha

theorem WF.foldl_step (w : r.WF) (as : List Action) : (as.foldl Log.step r).WF := by
  induction as generalizing r with
  | nil => exact w
  | cons a as ih => exact ih (w.step a)

theorem wf_run (settings : Settings) (as : List Action) : (run settings as).WF :=
  (wf_start settings).foldl_step as

theorem run_concat (settings : Settings) (as : List Action) (a : Action) :
    run settings (as ++ [a]) = (run settings as).step a :=
  List.foldl_append

end Log

theorem wf_run (settings : Settings) (as : List Action) : (run { settings := settings } as).WF :=
  Log.selector_run settings as ▸ (Log.wf_run settings as).selector

end Selector

end Dispatch
