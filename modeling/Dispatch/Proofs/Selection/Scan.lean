import Dispatch.Proofs.Selection.Log

/-!
# Selection refines a scan

After any run a selection answers what a scan of the table of queues would: a level with work whose
key in the log is least, or the most urgent one with an immediate task (`Log.IsNext`), and at that
level the half that is due (`Due`).  Neither the ready sets nor the ranking occur in what is said
about the answer.
-/

namespace Dispatch

namespace Selector

variable {p : Level} {scope : Scope}

/-- The level that comes next: the one with the least key, of equal keys the one that was given
first, or, if only immediate tasks are wanted, the most urgent one that has one. -/
def Log.IsNext (r : Log) : Scope → Level → Prop
  | .bothHalves, p => r.selector.HasWork .bothHalves p ∧
      ∀ l, l ≠ p → r.selector.HasWork .bothHalves l →
        r.key p < r.key l ∨ r.key p = r.key l ∧ r.keyedAt p < r.keyedAt l
  | .immediateOnly, p => r.selector.HasWork .immediateOnly p ∧
      ∀ l, r.selector.HasWork .immediateOnly l → p.index ≤ l.index

theorem Log.WF.isNext {r : Log} (w : r.WF) (hp : r.selector.nextLevel? scope = some p) :
    r.IsNext scope p := by
  have hw := w.selector.hasWork_nextLevel? hp
  cases scope with
  | immediateOnly => exact ⟨hw, fun l hl => w.selector.nextLevel?_immediateOnly_le hp hl⟩
  | bothHalves =>
      refine ⟨hw, fun l hlp hl => ?_⟩
      exact w.selector.nextLevel?_bothHalves_before w.ordered hp hlp (w.keys p hw) (w.keys l hl)

/-- A selection after any run: there is none, and nothing changes, exactly if no enabled queue has a
front to select; otherwise the level that comes next is served, at the half that is due there, and
the selection is counted. -/
theorem select_refines_scan (settings : Settings) (as : List Action) (scope : Scope) :
    let r := Log.run settings as
    let s := run { settings := settings } as
    r.selector = s ∧ (∀ l, s.keyOf? l = if s.HasWork .bothHalves l then some (r.key l) else none) ∧
      ((s.select scope).1 = none ↔ ∀ l, ¬ s.HasWork scope l) ∧
      ((s.select scope).1 = none → (s.select scope).2 = s) ∧
      ∀ pick, (s.select scope).1 = some pick →
        ∃ p, s.nextLevel? scope = some p ∧ r.IsNext scope p ∧ s.Due p scope pick ∧
          (s.select scope).2.selections = s.selections + 1 ∧
          (s.select scope).2.streak =
            if pick.half = .delayed ∧ s.HasWork .immediateOnly p then s.streak + 1 else 0 := by
  intro r s
  have hr : r.selector = s := Log.selector_run settings as
  have w : r.WF := Log.wf_run settings as
  have ws : s.WF := hr ▸ w.selector
  refine ⟨hr, fun l => ?_, ?_⟩
  · split_ifs with hl
    · exact hr ▸ w.keys l (hr ▸ hl)
    · rwa [ws.hasWork_bothHalves_iff, Classical.not_not] at hl
  · rcases ws.select_cases scope with ⟨hn, e⟩ | ⟨p, pick, s', e, v⟩
    · rw [e]
      refine ⟨⟨fun _ => ws.nextLevel?_eq_none_iff.1 hn, fun _ => rfl⟩, fun _ => rfl, ?_⟩
      intro pick h
      cases h
    · rw [e]
      have hw := ws.hasWork_nextLevel? v.next
      refine ⟨⟨fun h => ?_, fun h => absurd hw (h p)⟩, fun h => ?_, fun pick' h => ?_⟩
      · cases h
      · cases h
      · cases h
        exact ⟨p, v.next, w.isNext (hr ▸ v.next), v.due, v.selections, v.streak⟩

end Selector

end Dispatch
