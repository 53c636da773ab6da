import Dispatch.Proofs.Selection.Starvation

/-!
# The most and the least urgent level

The key of `control` is the least of all keys and that of `bestEffort` the largest.  Keys are
clamped, so a level between them could come to one of these keys as well, and then the order in
which the two were given would decide.  It stays above the least key if its tolerance does, and
below the largest one as long as the number of selections and its tolerance do not add up to it.
So `control` is served whenever it has work, and `bestEffort` only when nothing else has
(`control_preempts_bestEffort_yields`).
-/

namespace Dispatch

theorem Level.cases_tolerant (l : Level) : l = .control ∨ l ∈ tolerant ∨ l = .bestEffort := by
  cases l <;> decide

namespace Selector

variable {s : Selector} {l : Level} {scope : Scope}

/-! ### Keys between the extremes -/

theorem minKey_lt_freshKey (ht : ∀ l ∈ Level.tolerant, minKey < s.settings.tolerance.get l)
    (hl : l ≠ .control) : minKey < s.freshKey l := by
  rcases l.cases_tolerant with rfl | tolerant | rfl
  · exact absurd rfl hl
  · have tolerance := ht l tolerant
    rw [freshKey_of_tolerant s tolerant]
    unfold clampKey
    unfold minKey maxKey at *
    omega
  · rw [freshKey_bestEffort]
    decide

theorem freshKey_lt_maxKey
    (ht : ∀ l ∈ Level.tolerant, s.selections + s.settings.tolerance.get l < maxKey)
    (hl : l ≠ .bestEffort) : s.freshKey l < maxKey := by
  rcases l.cases_tolerant with rfl | tolerant | rfl
  · show minKey < maxKey
    decide
  · have tolerance := ht l tolerant
    rw [freshKey_of_tolerant s tolerant]
    unfold clampKey
    unfold minKey maxKey at *
    omega
  · exact absurd rfl hl

/-! ### What is served -/

theorem WF.exists_served? (w : s.WF) (work : s.HasWork scope l) :
    ∃ p, s.served? (.select scope) = some p := by
  rcases w.select_cases scope with ⟨none, -⟩ | ⟨p, pick, s', e, v⟩
  · exact absurd work (w.nextLevel?_eq_none_iff.1 none l)
  · refine ⟨p, ?_⟩
    show ((s.select scope).1.bind fun pick => s.levelOf? pick.queue) = some p
    rw [e]
    exact v.levelOf?

namespace Log

variable {r : Log}

theorem WF.key_control (w : r.WF) (work : r.selector.HasWork .bothHalves .control) :
    r.key .control = minKey := by
  obtain ⟨c, -, key⟩ := w.fresh .control work
  exact key

theorem WF.key_bestEffort (w : r.WF) (work : r.selector.HasWork .bothHalves .bestEffort) :
    r.key .bestEffort = maxKey := by
  obtain ⟨c, -, key⟩ := w.fresh .bestEffort work
  exact key

theorem WF.served?_control (w : r.WF)
    (ht : ∀ l ∈ Level.tolerant, minKey < r.selector.settings.tolerance.get l)
    (work : r.selector.HasWork .bothHalves .control) :
    r.selector.served? (.select .bothHalves) = some .control := by
  obtain ⟨p, served⟩ := w.selector.exists_served? work
  obtain ⟨work', least⟩ := w.isNext_of_served? served
  by_cases hp : p = .control
  · rwa [hp] at served
  · have before := least .control (Ne.symm hp) work
    obtain ⟨c, -, key⟩ := w.fresh p work'
    have above : minKey < r.key p := key ▸ minKey_lt_freshKey ht hp
    rw [w.key_control work] at before
    omega

theorem WF.exists_served?_ne_bestEffort (w : r.WF)
    (ht : ∀ l ∈ Level.tolerant,
      r.selector.selections + r.selector.settings.tolerance.get l < maxKey)
    (hl : l ≠ .bestEffort) (work : r.selector.HasWork .bothHalves l) :
    ∃ p, p ≠ .bestEffort ∧ r.selector.served? (.select .bothHalves) = some p := by
  obtain ⟨p, served⟩ := w.selector.exists_served? work
  obtain ⟨work', least⟩ := w.isNext_of_served? served
  refine ⟨p, ?_, served⟩
  rintro rfl
  have before := least l hl work
  obtain ⟨c, past, key⟩ := w.fresh l work
  have below : r.key l < maxKey := by
    refine key ▸ freshKey_lt_maxKey (fun m hm => ?_) hl
    have bound := ht m hm
    dsimp only
    omega
  rw [w.key_bestEffort work'] at before
  omega

end Log

/-- After any run, `control` is served if it has work; and as long as no key has come to the
largest one, what is served is `bestEffort` only if no other level has work. -/
theorem control_preempts_bestEffort_yields (settings : Settings)
    (ht : ∀ l ∈ Level.tolerant, minKey < settings.tolerance.get l) (as : List Action) :
    let s := run { settings := settings } as
    (s.HasWork .bothHalves .control → s.served? (.select .bothHalves) = some .control) ∧
      ((∀ l ∈ Level.tolerant, s.selections + settings.tolerance.get l < maxKey) →
        (∃ l, l ≠ .bestEffort ∧ s.HasWork .bothHalves l) →
          ∃ p, p ≠ .bestEffort ∧ s.served? (.select .bothHalves) = some p) := by
  intro s
  have w := Log.wf_run settings as
  have hr : (Log.run settings as).selector = s := Log.selector_run settings as
  have hset := Log.settings_run settings as
  generalize Log.run settings as = r at w hr hset
  subst hset
  rw [← hr]
  exact ⟨w.served?_control ht, fun unsaturated ⟨l, hl, work⟩ =>
    w.exists_served?_ne_bestEffort unsaturated hl work⟩

/-- `control` runs empty and is filled again, and a queue moves to it from `highest`, whose keys are
next to the least one. -/
theorem control_preempts_highest :
    let settings : Settings := { tolerance := ⟨0, minKey + 1, 3, 8, 33, 0⟩ }
    let past : List Action :=
      [.add ⟨1, 1⟩ ⟨some ⟨1⟩, none⟩, .add ⟨2, 1⟩ ⟨none, some ⟨2⟩⟩, .add ⟨3, 1⟩ ⟨some ⟨3⟩, none⟩,
        .setLevel ⟨1, 1⟩ .highest, .setLevel ⟨2, 1⟩ .control, .setLevel ⟨3, 1⟩ .bestEffort,
        .select .bothHalves, .changeFront ⟨2, 1⟩ .delayed none]
    let as := past ++ [.select .immediateOnly, .setLevel ⟨1, 1⟩ .control]
    let s := run { settings := settings } past
    let s' := run { settings := settings } as
    (s.keyOf? .highest = some (minKey + 1) ∧ ∃ p, p ≠ .bestEffort ∧
      s.served? (.select .bothHalves) = some p) ∧
      s'.selections = 2 ∧ s'.served? (.select .bothHalves) = some .control := by
  intro settings past as s s'
  have ht : ∀ l ∈ Level.tolerant, minKey < settings.tolerance.get l := by decide
  obtain ⟨-, yields⟩ := control_preempts_bestEffort_yields settings ht past
  obtain ⟨preempts, -⟩ := control_preempts_bestEffort_yields settings ht as
  refine ⟨⟨by decide +kernel, yields (by decide +kernel) ⟨.highest, by decide, by decide +kernel⟩⟩,
    by decide +kernel, preempts (by decide +kernel)⟩

-- With the least tolerance, `highest` can get the least key, and before `control` does.
example :
    let settings : Settings := { tolerance := ⟨0, minKey, 3, 8, 33, 0⟩ }
    let s := run { settings := settings }
      [.add ⟨1, 1⟩ ⟨some ⟨1⟩, none⟩, .setLevel ⟨1, 1⟩ .highest, .add ⟨2, 1⟩ ⟨some ⟨2⟩, none⟩,
        .setLevel ⟨2, 1⟩ .control]
    s.HasWork .bothHalves .control ∧ s.served? (.select .bothHalves) = some .highest := by
  decide +kernel

end Selector

end Dispatch
