import Dispatch.Proofs.Selection.Starvation

/-!
# The shares of the levels

A service gives a level a fresh key, and a fresh key is no smaller than one that a level of at most
the same tolerance was given before.  So once a level has been served, every such level that keeps
its work comes before it (`Log.Precedes`), until that level is served in turn: between two services
of the one lies a service of the other (`served_between`).  Keys that reach the largest or smallest
key are no exception, since equal keys are ordered by the moments at which they were given.
-/

namespace Dispatch

namespace Selector

variable {s : Selector} {l p q : Level} {a : Action}

/-! ### Services -/

theorem services_append (s : Selector) (as bs : List Action) :
    s.services (as ++ bs) = s.services as ++ (s.run as).services bs := by
  induction as generalizing s with
  | nil => rfl
  | cons a as ih =>
      rw [List.cons_append, services, services, ih, List.append_assoc]
      rfl

/-- Where a run serves a level, one of its actions does. -/
theorem exists_action_of_services {as : List Action} {xs ys : List Level}
    (h : s.services as = xs ++ l :: ys) :
    ∃ as₁ a as₂, as = as₁ ++ a :: as₂ ∧ s.services as₁ = xs ∧ (s.run as₁).served? a = some l ∧
      ((s.run as₁).act a).services as₂ = ys := by
  induction as generalizing s xs with
  | nil => simp [services] at h
  | cons b as ih =>
      rw [services] at h
      cases hb : s.served? b with
      | none =>
          rw [hb] at h
          obtain ⟨as₁, a, as₂, rfl, h₁, ha, h₂⟩ := ih h
          refine ⟨b :: as₁, a, as₂, rfl, ?_, ha, h₂⟩
          rw [services, hb]
          exact h₁
      | some m =>
          rw [hb, Option.toList_some, List.singleton_append] at h
          cases xs with
          | nil =>
              rw [List.nil_append, List.cons.injEq] at h
              obtain ⟨rfl, h⟩ := h
              exact ⟨[], b, as, rfl, rfl, hb, h⟩
          | cons x xs =>
              rw [List.cons_append, List.cons.injEq] at h
              obtain ⟨rfl, h⟩ := h
              obtain ⟨as₁, a, as₂, rfl, h₁, ha, h₂⟩ := ih h
              refine ⟨b :: as₁, a, as₂, rfl, ?_, ha, h₂⟩
              rw [services, hb, h₁]
              rfl

/-! ### Precedence -/

/-- A key given later to a level of at least the same tolerance is no smaller. -/
theorem freshKey_mono (hp : p ∈ Level.tolerant) (hq : q ∈ Level.tolerant) {settings : Settings}
    (ht : settings.tolerance.get p ≤ settings.tolerance.get q) {m n : Nat} (h : m ≤ n) :
    freshKey { settings := settings, selections := m } p ≤
      freshKey { settings := settings, selections := n } q := by
  rw [freshKey_of_tolerant _ hp, freshKey_of_tolerant _ hq]
  unfold clampKey minKey maxKey
  dsimp only
  omega

namespace Log

variable {r : Log}

/-- The key of `p` comes before that of `q`. -/
def Precedes (r : Log) (p q : Level) : Prop :=
  r.key p < r.key q ∨ r.key p = r.key q ∧ r.keyedAt p < r.keyedAt q

instance (r : Log) (p q : Level) : Decidable (r.Precedes p q) := inferInstanceAs (Decidable (_ ∨ _))

/-- A level that has work comes before one that is given a key now. -/
theorem WF.precedes_of_keys (w : r.WF) (hp : p ∈ Level.tolerant) (hq : q ∈ Level.tolerant)
    (ht : r.selector.settings.tolerance.get p ≤ r.selector.settings.tolerance.get q)
    (hw : r.selector.HasWork .bothHalves p) (hkp : ¬ r.selector.Keys a p)
    (hkq : r.selector.Keys a q) : (r.step a).Precedes p q := by
  obtain ⟨key_p, keyedAt_p⟩ := step_of_not_keys hkp
  have key_q : (r.step a).key q = freshKey
      { settings := r.selector.settings, selections := (r.step a).selector.selections } q := by
    rw [← w.settings_step a]
    exact (if_pos hkq).trans (freshKey_congr rfl rfl q)
  have keyedAt_q : (r.step a).keyedAt q = r.steps + 1 := if_pos hkq
  obtain ⟨c, hc, fresh⟩ := w.fresh p hw
  have count := w.selections_step a
  have mono := freshKey_mono hp hq ht (m := c) (n := (r.step a).selector.selections) (by omega)
  have past := w.past p
  unfold Precedes
  omega

/-- A level that keeps its work comes before another one until it is served. -/
theorem WF.precedes_step (w : r.WF) (hp : p ∈ Level.tolerant) (hq : q ∈ Level.tolerant)
    (ht : r.selector.settings.tolerance.get p ≤ r.selector.settings.tolerance.get q)
    (hw : r.selector.HasWork .bothHalves p) (hs : r.selector.served? a ≠ some p)
    (h : r.Precedes p q ∨ r.selector.served? a = some q) : (r.step a).Precedes p q := by
  have hkp := not_keys hw hs
  by_cases hkq : r.selector.Keys a q
  · exact w.precedes_of_keys hp hq ht hw hkp hkq
  · have h := h.resolve_right fun h => hkq (Or.inr h)
    obtain ⟨key_p, keyedAt_p⟩ := step_of_not_keys hkp
    obtain ⟨key_q, keyedAt_q⟩ := step_of_not_keys hkq
    unfold Precedes
    rwa [key_p, key_q, keyedAt_p, keyedAt_q]

/-- No level is served while one with work comes before it. -/
theorem WF.not_precedes_of_served? (w : r.WF) (hpq : p ≠ q)
    (hw : r.selector.HasWork .bothHalves p)
    (hs : r.selector.served? (.select .bothHalves) = some q) : ¬ r.Precedes p q := by
  obtain ⟨-, least⟩ := w.isNext_of_served? hs
  have := least p hpq hw
  unfold Precedes
  omega

/-- Only selections serve a level. -/
theorem WF.eq_select_of_served? (w : r.WF) (hs : r.selector.served? a = some l) :
    ∃ scope, a = .select scope := by
  rcases w.selector.act_cases a with ⟨-, h⟩ | ⟨scope, -, -, ha, -, -⟩
  · rw [hs] at h
    cases h
  · exact ⟨scope, ha⟩

/-- While `p` keeps its work, `q` is served at most once more than `p`, and no more often if `p`
comes first. -/
theorem WF.count_services_le (w : r.WF) (hp : p ∈ Level.tolerant) (hq : q ∈ Level.tolerant)
    (hpq : p ≠ q)
    (ht : r.selector.settings.tolerance.get p ≤ r.selector.settings.tolerance.get q)
    (as : List Action) (hw : ∀ n < as.length, (r.selector.run (as.take n)).HasWork .bothHalves p)
    (ha : ∀ scope, .select scope ∈ as → scope = .bothHalves) :
    (r.selector.services as).count q + (if r.Precedes p q then 1 else 0) ≤
      (r.selector.services as).count p + 1 := by
  induction as generalizing r with
  | nil =>
      simp only [services, List.count_nil]
      split_ifs <;> omega
  | cons a as ih =>
      have hw₀ : r.selector.HasWork .bothHalves p := hw 0 (by simp)
      have rest := ih (w.step a) (w.settings_step a ▸ ht)
        (fun n hn => hw (n + 1) (by simpa using hn))
        fun scope h => ha scope (List.mem_cons_of_mem a h)
      change ((r.selector.act a).services as).count q + _ ≤
        ((r.selector.act a).services as).count p + 1 at rest
      have step := w.precedes_step (a := a) hp hq ht hw₀
      rw [services, List.count_append, List.count_append]
      cases hs : r.selector.served? a with
      | none =>
          rw [hs] at step
          simp only [Option.toList_none, List.count_nil]
          by_cases h : r.Precedes p q
          · rw [if_pos (step (by simp) (Or.inl h))] at rest
            rw [if_pos h]
            omega
          · rw [if_neg h]
            omega
      | some l =>
          obtain ⟨scope, rfl⟩ := w.eq_select_of_served? hs
          obtain rfl := ha scope List.mem_cons_self
          have behind := fun e : l = q => w.not_precedes_of_served? hpq hw₀ (e ▸ hs)
          rw [hs] at step
          simp only [Option.toList_some, List.count_singleton, beq_iff_eq]
          by_cases hlp : l = p
          · rw [if_pos hlp, if_neg fun e => hpq (hlp.symm.trans e)]
            split_ifs <;> omega
          · have step := step fun e => hlp (Option.some.inj e)
            by_cases hlq : l = q
            · rw [if_pos (step (Or.inr (congrArg some hlq)))] at rest
              rw [if_pos hlq, if_neg hlp, if_neg (behind hlq)]
              omega
            · rw [if_neg hlq, if_neg hlp]
              by_cases h : r.Precedes p q
              · rw [if_pos (step (Or.inl h))] at rest
                rw [if_pos h]
                omega
              · rw [if_neg h]
                omega

end Log

theorem count_services_le_of_run (settings : Settings) (past as : List Action)
    (hp : p ∈ Level.tolerant) (hq : q ∈ Level.tolerant) (hpq : p ≠ q)
    (ht : settings.tolerance.get p ≤ settings.tolerance.get q)
    (hs : s = run { settings := settings } past)
    (hw : ∀ n < as.length, (s.run (as.take n)).HasWork .bothHalves p)
    (ha : ∀ scope, .select scope ∈ as → scope = .bothHalves) :
    (s.services as).count q ≤ (s.services as).count p + 1 := by
  have hr : (Log.run settings past).selector = s := hs ▸ Log.selector_run settings past
  have hset := Log.settings_run settings past
  have bound := (Log.wf_run settings past).count_services_le hp hq hpq (by rwa [hset]) as
    (by rwa [hr]) ha
  rw [hr] at bound
  omega

/-- While a level keeps its work, it is served between any two services of a level that is not more
urgent, so the other one is served at most once more than it. -/
theorem served_between (settings : Settings) (past as : List Action)
    (hp : p ∈ Level.tolerant) (hq : q ∈ Level.tolerant) (hpq : p ≠ q)
    (ht : settings.tolerance.get p ≤ settings.tolerance.get q)
    (hs : s = run { settings := settings } past)
    (hw : ∀ n < as.length, (s.run (as.take n)).HasWork .bothHalves p)
    (ha : ∀ scope, .select scope ∈ as → scope = .bothHalves) :
    (∀ xs ys zs, s.services as = xs ++ q :: (ys ++ q :: zs) → p ∈ ys) ∧
      (s.services as).count q ≤ (s.services as).count p + 1 := by
  refine ⟨fun xs ys zs h => ?_, count_services_le_of_run settings past as hp hq hpq ht hs hw ha⟩
  obtain ⟨as₁, a, as₂, rfl, -, ha₁, h⟩ := exists_action_of_services h
  obtain ⟨as₃, b, as₄, rfl, h₃, hb, -⟩ := exists_action_of_services h
  -- the window from the first of the two services to the second
  let window := a :: (as₃ ++ [b])
  have services : (s.run as₁).services window = q :: (ys ++ [q]) := by
    have last : (((s.run as₁).act a).run as₃).services [b] = [q] := by
      rw [Selector.services, hb]
      rfl
    show ((s.run as₁).served? a).toList ++ _ = _
    rw [ha₁, services_append, h₃, last]
    rfl
  have whole : as₁ ++ a :: (as₃ ++ b :: as₄) = as₁ ++ (window ++ as₄) := by simp [window]
  rw [whole] at hw ha
  have bound := count_services_le_of_run settings (past ++ as₁) window hp hq hpq ht
    (s := s.run as₁) (by rw [hs, run, run, run, List.foldl_append]) (fun n hn => ?_)
    fun scope h => ha scope (by simp [h])
  · rw [services, List.count_cons_self, List.count_append, List.count_singleton_self,
      List.count_cons_of_ne (Ne.symm hpq), List.count_append] at bound
    have none_of_p : [q].count p = 0 := List.count_eq_zero.2 (by simpa using hpq)
    exact List.count_pos_iff.1 (by omega)
  · have work := hw (as₁.length + n) (by simp only [List.length_append]; omega)
    rw [List.take_length_add_append, List.take_append_of_le_length (Nat.le_of_lt hn), run,
      List.foldl_append] at work
    exact work

/-- Of eight selections the level `high` gets the fourth and the last, and `highest` the others. -/
theorem served_between_two_services_of_high :
    let past : List Action :=
      [.add ⟨1, 1⟩ ⟨some ⟨2⟩, none⟩, .setLevel ⟨1, 1⟩ .highest,
        .add ⟨2, 1⟩ ⟨some ⟨3⟩, none⟩, .setLevel ⟨2, 1⟩ .high]
    let as : List Action := List.replicate 8 (.select .bothHalves)
    let s := run {} past
    let rounds : List Level := [.highest, .highest, .highest]
    ({} : Settings).tolerance.get .highest ≤ ({} : Settings).tolerance.get .high ∧
      s.services as = rounds ++ .high :: (rounds ++ [.high]) ∧ .highest ∈ rounds ∧
      (s.services as).count .high ≤ (s.services as).count .highest + 1 := by
  intro past as s rounds
  have services : s.services as = rounds ++ .high :: (rounds ++ [.high]) := by decide +kernel
  have between := served_between {} past as (p := .highest) (q := .high) (by decide) (by decide)
    (by decide) (by decide) (s := s) rfl (by decide +kernel) (by simp [as])
  exact ⟨by decide, services, between.1 _ _ _ services, between.2⟩

end Selector

end Dispatch
