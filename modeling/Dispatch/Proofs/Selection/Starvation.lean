import Dispatch.Proofs.Selection.Scan
import Mathlib.Data.List.Count

/-!
# No level starves

A level that keeps its work keeps its key until it is served.  Every other level that is served
meanwhile gets a key that is no smaller than the number of selections, so once this number has come
up to the key of the waiting level, each of the other three levels with a tolerance goes ahead of it
at most once more.  `Log.lead` is the number of services that can still come first.
-/

namespace Dispatch

/-- The levels that have a tolerance. -/
def Level.tolerant : List Level := [.highest, .high, .normal, .low]

namespace Selector

variable {s : Selector} {l p : Level} {a : Action} {c : Nat}

/-- The levels that are served by a run, in order. -/
def services (s : Selector) : List Action → List Level
  | [] => []
  | a :: as => (s.served? a).toList ++ (s.act a).services as

/-- Only a selection serves. -/
theorem services_of_quiet {as : List Action} (quiet : ∀ scope, .select scope ∉ as) :
    s.services as = [] := by
  induction as generalizing s with
  | nil => rfl
  | cons a as ih =>
      have unserved : s.served? a = none := by
        cases a with
        | select scope => exact absurd List.mem_cons_self (quiet scope)
        | _ => rfl
      unfold services
      rw [unserved, ih fun scope h => quiet scope (.tail a h)]
      rfl

/-! ### The size of keys -/

theorem freshKey_of_tolerant (s : Selector) (hl : l ∈ Level.tolerant) :
    s.freshKey l = clampKey (min (s.selections : Int) maxKey + s.settings.tolerance.get l) := by
  cases l <;> first | rfl | simp [Level.tolerant] at hl

theorem le_freshKey (hl : l ∈ Level.tolerant) (ht : 0 ≤ s.settings.tolerance.get l) :
    min (s.selections : Int) maxKey ≤ s.freshKey l := by
  rw [freshKey_of_tolerant s hl]
  unfold clampKey minKey maxKey
  omega

theorem freshKey_le (hl : l ∈ Level.tolerant) (ht : 0 ≤ s.settings.tolerance.get l) :
    s.freshKey l ≤ s.selections + s.settings.tolerance.get l := by
  rw [freshKey_of_tolerant s hl]
  unfold clampKey minKey maxKey
  omega

theorem freshKey_bestEffort (s : Selector) : s.freshKey .bestEffort = maxKey := rfl

namespace Log

variable {r : Log}

/-- Level `l` has work and comes before `p`. -/
def Ahead (r : Log) (p l : Level) : Prop :=
  r.selector.HasWork .bothHalves l ∧
    (r.key l < r.key p ∨ r.key l = r.key p ∧ r.keyedAt l < r.keyedAt p)

instance (r : Log) (p l : Level) : Decidable (r.Ahead p l) := inferInstanceAs (Decidable (_ ∧ _))

/-- How many of the levels with a tolerance come before `p`. -/
def ahead (r : Log) (p : Level) : Nat := Level.tolerant.countP fun l => r.Ahead p l

/-- How many services of levels other than `control` can still come before one of `p`. -/
def lead (r : Log) (p : Level) : Nat :=
  if (r.selector.selections : Int) < r.key p then (r.key p - r.selector.selections).toNat + 3
  else r.ahead p

theorem ahead_le (r : Log) (hp : p ∈ Level.tolerant) : r.ahead p ≤ 3 := by
  have self : ¬ r.Ahead p p := by
    rintro ⟨-, h | h⟩
    · omega
    · omega
  unfold ahead Level.tolerant
  simp only [Level.tolerant, List.mem_cons, List.not_mem_nil, or_false] at hp
  rcases hp with rfl | rfl | rfl | rfl <;> simp only [List.countP_cons, List.countP_nil, self,
    decide_false, Bool.false_eq_true, if_false] <;> split_ifs <;> omega

/-- What is served is the level that comes next. -/
theorem WF.isNext_of_served? (w : r.WF) {scope : Scope}
    (hp : r.selector.served? (.select scope) = some p) : r.IsNext scope p := by
  rcases w.selector.act_cases (.select scope) with ⟨-, h⟩ | ⟨scope', l, pick, e, v, h⟩
  · rw [hp] at h
    cases h
  · rw [hp] at h
    cases h
    cases e
    exact w.isNext v.next

/-! ### One action -/

theorem step_of_not_keys (hk : ¬ r.selector.Keys a l) :
    (r.step a).key l = r.key l ∧ (r.step a).keyedAt l = r.keyedAt l :=
  ⟨if_neg hk, if_neg hk⟩

theorem not_keys (hw : r.selector.HasWork .bothHalves p) (hs : r.selector.served? a ≠ some p) :
    ¬ r.selector.Keys a p := by
  rintro (h | h)
  · exact h.1 hw
  · exact hs h

theorem WF.settings_step (w : r.WF) (a : Action) :
    (r.step a).selector.settings = r.selector.settings := by
  rcases w.selector.act_cases a with ⟨v, -⟩ | ⟨scope, l, pick, -, v, -⟩
  · obtain ⟨n, rekeyed⟩ := v.rekeyed
    exact rekeyed.settings
  · exact v.settings

theorem WF.selections_step (w : r.WF) (a : Action) : (r.step a).selector.selections =
    r.selector.selections + (r.selector.served? a).toList.length := by
  rcases w.selector.act_cases a with ⟨v, h⟩ | ⟨scope, l, pick, -, v, h⟩
  · obtain ⟨n, rekeyed⟩ := v.rekeyed
    rw [h]
    exact rekeyed.selections
  · rw [h]
    exact v.selections

/-- Once the selections have come up to the key of `p`, no new key comes before it. -/
theorem WF.ahead_of_step (w : r.WF)
    (ht : ∀ l ∈ Level.tolerant, 0 ≤ r.selector.settings.tolerance.get l)
    (hmax : r.key p < maxKey) (hk : ¬ r.selector.Keys a p)
    (hc : r.key p ≤ (r.step a).selector.selections) (hl : l ∈ Level.tolerant)
    (h : (r.step a).Ahead p l) : r.Ahead p l ∧ ¬ r.selector.Keys a l := by
  obtain ⟨key_p, keyedAt_p⟩ := step_of_not_keys hk
  obtain ⟨hw, h⟩ := h
  rw [key_p, keyedAt_p] at h
  by_cases hkl : r.selector.Keys a l
  · have key_l : (r.step a).key l = (r.step a).selector.freshKey l := if_pos hkl
    have keyedAt_l : (r.step a).keyedAt l = r.steps + 1 := if_pos hkl
    have fresh := le_freshKey (s := (r.step a).selector) hl (w.settings_step a ▸ ht l hl)
    have past := w.past p
    omega
  · obtain ⟨key_l, keyedAt_l⟩ := step_of_not_keys hkl
    rw [key_l, keyedAt_l] at h
    refine ⟨⟨?_, h⟩, hkl⟩
    by_contra hn
    exact hkl (Or.inl ⟨hn, hw⟩)

/-- Another level that is served comes before `p`, and has a tolerance unless it is `control`. -/
theorem WF.ahead_of_served? (w : r.WF) (hmax : r.key p < maxKey)
    (hw : r.selector.HasWork .bothHalves p)
    (hs : r.selector.served? (.select .bothHalves) = some l) (hlp : l ≠ p) (hl : l ≠ .control) :
    l ∈ Level.tolerant ∧ r.Ahead p l := by
  obtain ⟨hwl, least⟩ := w.isNext_of_served? hs
  have hlt := least p (Ne.symm hlp) hw
  refine ⟨?_, hwl, hlt⟩
  cases l with
  | control => exact absurd rfl hl
  | bestEffort =>
      obtain ⟨c, -, hk⟩ := w.fresh .bestEffort hwl
      rw [freshKey_bestEffort] at hk
      omega
  | highest | high | normal | low => decide

theorem countP_lt_countP {α : Type} {P Q : α → Bool} {xs : List α} {x : α}
    (h : ∀ y ∈ xs, P y = true → Q y = true) (hx : x ∈ xs) (hQ : Q x = true) (hP : P x = false) :
    xs.countP P < xs.countP Q := by
  have e : xs.countP P = (xs.filter Q).countP P := by
    rw [List.countP_filter]
    refine List.countP_congr fun y hy => ?_
    rw [Bool.and_eq_true]
    exact ⟨fun hp => ⟨hp, h y hy hp⟩, And.left⟩
  have e' : xs.countP Q = (xs.filter Q).length := List.countP_eq_length_filter
  rw [e, e']
  exact List.countP_lt_length_iff.2 ⟨x, List.mem_filter.2 ⟨hx, hQ⟩, hP⟩

theorem WF.ahead_step_le (w : r.WF)
    (ht : ∀ l ∈ Level.tolerant, 0 ≤ r.selector.settings.tolerance.get l) (hmax : r.key p < maxKey)
    (hk : ¬ r.selector.Keys a p) (hc : r.key p ≤ (r.step a).selector.selections) :
    (r.step a).ahead p ≤ r.ahead p := by
  refine List.countP_mono_left fun l hl h => ?_
  rw [decide_eq_true_eq] at h ⊢
  exact (w.ahead_of_step ht hmax hk hc hl h).1

/-- A level that is served before `p` is not ahead of it afterwards. -/
theorem WF.ahead_step_lt (w : r.WF)
    (ht : ∀ l ∈ Level.tolerant, 0 ≤ r.selector.settings.tolerance.get l) (hmax : r.key p < maxKey)
    (hw : r.selector.HasWork .bothHalves p)
    (hs : r.selector.served? (.select .bothHalves) = some l) (hlp : l ≠ p) (hl : l ≠ .control)
    (hc : r.key p ≤ (r.step (.select .bothHalves)).selector.selections) :
    (r.step (.select .bothHalves)).ahead p < r.ahead p := by
  obtain ⟨hlt, hah⟩ := w.ahead_of_served? hmax hw hs hlp hl
  have hk : ¬ r.selector.Keys (.select .bothHalves) p := by
    refine not_keys hw fun h => hlp ?_
    rw [hs] at h
    exact Option.some_inj.1 h
  have hkl : r.selector.Keys (.select .bothHalves) l := Or.inr hs
  refine countP_lt_countP (fun m hm h => ?_) hlt (decide_eq_true hah) ?_
  · rw [decide_eq_true_eq] at h ⊢
    exact (w.ahead_of_step ht hmax hk hc hm h).1
  · exact decide_eq_false fun h => (w.ahead_of_step ht hmax hk hc hlt h).2 hkl

/-- Every service of a level other than `p` and `control` takes one off the lead. -/
theorem WF.lead_step (w : r.WF)
    (ht : ∀ l ∈ Level.tolerant, 0 ≤ r.selector.settings.tolerance.get l) (hp : p ∈ Level.tolerant)
    (hmax : r.key p < maxKey) (hw : r.selector.HasWork .bothHalves p)
    (ha : ∀ scope, a = .select scope → scope = .bothHalves)
    (hs : r.selector.served? a ≠ some p) :
    (r.step a).lead p + (r.selector.served? a).toList.countP (· ≠ .control) ≤ r.lead p := by
  have hk := not_keys hw hs
  obtain ⟨key_p, -⟩ := step_of_not_keys hk
  have ahead_le' := (r.step a).ahead_le hp
  have count := w.selections_step a
  have mono := w.ahead_step_le ht hmax hk
  unfold lead
  rw [key_p]
  cases hsv : r.selector.served? a with
  | none =>
      rw [hsv] at count
      simp only [Option.toList_none, List.length_nil, List.countP_nil] at count ⊢
      split_ifs <;> omega
  | some l =>
      obtain ⟨scope, -, -, rfl, -, -⟩ := (w.selector.act_cases a).resolve_left fun h => by
        rw [hsv] at h
        cases h.2
      obtain rfl := ha scope rfl
      rw [hsv] at count
      simp only [Option.toList_some, List.length_singleton, List.countP_singleton] at count ⊢
      by_cases hl : l = .control
      · simp only [hl, ne_eq, not_true_eq_false, decide_false, Bool.false_eq_true, if_false]
        split_ifs <;> omega
      · have hlp : l ≠ p := fun e => hs (hsv.trans (congrArg some e))
        have strict := w.ahead_step_lt ht hmax hw hsv hlp hl
        simp only [ne_eq, hl, not_false_eq_true, decide_true, if_true]
        split_ifs <;> omega

/-- Over a run in which `p` keeps its work and is not served, every service takes one off the
lead. -/
theorem WF.lead_run (w : r.WF)
    (ht : ∀ l ∈ Level.tolerant, 0 ≤ r.selector.settings.tolerance.get l)
    (hp : p ∈ Level.tolerant) (hmax : r.key p < maxKey) (as : List Action)
    (hw : ∀ n, (r.selector.run (as.take n)).HasWork .bothHalves p)
    (ha : ∀ scope, .select scope ∈ as → scope = .bothHalves)
    (hs : p ∉ r.selector.services as) :
    (as.foldl Log.step r).lead p + (r.selector.services as).countP (· ≠ .control) ≤ r.lead p := by
  induction as generalizing r with
  | nil => exact Nat.le_refl _
  | cons a as ih =>
      have hw₀ : r.selector.HasWork .bothHalves p := hw 0
      unfold services at hs ⊢
      rw [List.mem_append, not_or, Option.mem_toList] at hs
      have first := w.lead_step ht hp hmax hw₀
        (fun scope e => ha scope (e ▸ List.mem_cons_self)) hs.1
      have rest := ih (w.step a) (w.settings_step a ▸ ht)
        ((step_of_not_keys (not_keys hw₀ hs.1)).1.symm ▸ hmax) (fun n => hw (n + 1))
        (fun scope h => ha scope (List.mem_cons_of_mem a h)) hs.2
      rw [List.countP_append, List.foldl_cons]
      change _ + ((r.selector.act a).services as).countP _ ≤ _ at rest
      omega

/-- Over a run in which `p` keeps its work, the lead bounds the services that come before it. -/
theorem WF.services_le (w : r.WF)
    (ht : ∀ l ∈ Level.tolerant, 0 ≤ r.selector.settings.tolerance.get l)
    (hp : p ∈ Level.tolerant) (hmax : r.key p < maxKey) (as : List Action)
    (hw : ∀ n, (r.selector.run (as.take n)).HasWork .bothHalves p)
    (ha : ∀ scope, .select scope ∈ as → scope = .bothHalves) :
    ((r.selector.services as).takeWhile (· ≠ p)).countP (· ≠ .control) ≤ r.lead p := by
  induction as generalizing r with
  | nil => exact Nat.zero_le _
  | cons a as ih =>
      have hw₀ : r.selector.HasWork .bothHalves p := hw 0
      unfold services
      by_cases hs : r.selector.served? a = some p
      · rw [hs]
        simp
      · have hk := not_keys hw₀ hs
        have skip : ∀ l ∈ (r.selector.served? a).toList, decide (l ≠ p) = true := by
          intro l hl
          rw [Option.mem_toList] at hl
          exact decide_eq_true fun e => hs (e ▸ hl)
        have step := w.lead_step ht hp hmax hw₀
          (fun scope e => ha scope (e ▸ List.mem_cons_self)) hs
        have rest := ih (w.step a) (w.settings_step a ▸ ht)
          ((step_of_not_keys hk).1.symm ▸ hmax) (fun n => hw (n + 1))
          fun scope h => ha scope (List.mem_cons_of_mem a h)
        rw [List.takeWhile_append_of_pos skip, List.countP_append]
        change (((r.selector.act a).services as).takeWhile (· ≠ p)).countP (· ≠ .control) ≤ _
          at rest
        omega

theorem WF.key_le (w : r.WF) (hp : p ∈ Level.tolerant)
    (ht : 0 ≤ r.selector.settings.tolerance.get p) (hw : r.selector.HasWork .bothHalves p) :
    r.key p ≤ r.selector.selections + r.selector.settings.tolerance.get p := by
  obtain ⟨c, hc, hk⟩ := w.fresh p hw
  have := freshKey_le (s := { settings := r.selector.settings, selections := c }) hp ht
  dsimp only at this
  omega

/-- At most three services come before one of `p` after those that its tolerance allows. -/
theorem WF.lead_le (w : r.WF) (hp : p ∈ Level.tolerant)
    (ht : 0 ≤ r.selector.settings.tolerance.get p) (hw : r.selector.HasWork .bothHalves p) :
    r.lead p ≤ (r.selector.settings.tolerance.get p).toNat + 3 := by
  have key_le := w.key_le hp ht hw
  have ahead := r.ahead_le hp
  unfold lead
  split_ifs <;> omega

theorem settings_run (settings : Settings) (as : List Action) :
    (run settings as).selector.settings = settings := by
  have h : ∀ (as : List Action) (r : Log), r.WF →
      (as.foldl Log.step r).selector.settings = r.selector.settings := by
    intro as
    induction as with
    | nil => exact fun r _ => rfl
    | cons a as ih => exact fun r w => (ih (r.step a) (w.step a)).trans (w.settings_step a)
  exact h as _ (wf_start settings)

end Log

/-- A level with a tolerance that keeps its work is served after a bounded number of services of
other levels, those of `control` not counted. -/
theorem services_before_le (settings : Settings)
    (ht : ∀ l ∈ Level.tolerant, 0 ≤ settings.tolerance.get l) (past as : List Action)
    (hp : p ∈ Level.tolerant) (hs : s = run { settings := settings } past)
    (hmax : s.selections + settings.tolerance.get p < maxKey)
    (hw : ∀ n, (s.run (as.take n)).HasWork .bothHalves p)
    (ha : ∀ scope, .select scope ∈ as → scope = .bothHalves) :
    ∃ k, s.keyOf? p = some k ∧
      (((s.services as).takeWhile (· ≠ p)).countP (· ≠ .control) : Int) ≤
        max 0 (k - s.selections) + 3 ∧
      max 0 (k - s.selections) + 3 ≤ settings.tolerance.get p + 3 := by
  have w := Log.wf_run settings past
  have hr : (Log.run settings past).selector = s := hs ▸ Log.selector_run settings past
  have hset := Log.settings_run settings past
  generalize Log.run settings past = r at w hr hset
  subst hr
  have hw₀ : r.selector.HasWork .bothHalves p := hw 0
  have key_le := w.key_le hp (hset ▸ ht p hp) hw₀
  rw [hset] at key_le
  have bound := w.services_le (hset ▸ ht) hp (by omega) as hw ha
  have ahead := r.ahead_le hp
  have tol := ht p hp
  refine ⟨r.key p, w.keys p hw₀, ?_, by omega⟩
  unfold Log.lead at bound
  split_ifs at bound <;> omega

/-- A queue at level `low` waits while one at level `normal` is served twice. -/
theorem services_before_low_le :
    let past : List Action :=
      [.add ⟨1, 1⟩ ⟨some ⟨2⟩, none⟩, .add ⟨2, 1⟩ ⟨some ⟨3⟩, none⟩, .setLevel ⟨2, 1⟩ .low]
    let as : List Action := [.select .bothHalves, .select .bothHalves]
    let s := run {} past
    s.HasWork .bothHalves .low ∧ s.services as = [.normal, .normal] ∧
      ∃ k, s.keyOf? .low = some k ∧
        (((s.services as).takeWhile (· ≠ .low)).countP (· ≠ .control) : Int) ≤
          max 0 (k - s.selections) + 3 ∧
        max 0 (k - s.selections) + 3 ≤ ({} : Settings).tolerance.get .low + 3 := by
  intro past as s
  refine ⟨by decide +kernel, by decide +kernel, ?_⟩
  refine services_before_le {} (by decide) past as (by decide) rfl (by decide +kernel) ?_
    (by simp [as])
  rintro (_ | _ | n)
  · decide +kernel
  · decide +kernel
  · rw [List.take_of_length_le (Nat.le_add_left 2 n)]
    decide +kernel

end Selector

end Dispatch
