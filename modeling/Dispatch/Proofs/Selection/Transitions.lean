import Dispatch.Proofs.Collection.Changes
import Dispatch.Proofs.Selection.ReadySets
import Mathlib.Data.List.Induction
import Mathlib.Logic.Function.Basic

/-!
# What the transitions say

Whoever folds the transitions that ready sets report knows at all times at which levels there is
work (`transitions_tell_all`).  At one level the reports are filled, emptied, filled and so on,
because each of them is made when the set of the level changes from one state to the other (`Told`).

What the sets hold is compared with plain notes of the updates (`Update.note`), which record for
each queue the level that it was last moved to and the front that it was last given.
-/

namespace Dispatch

namespace Transition

/-- The level whose set was filled or emptied. -/
def level : Transition → Level
  | filled l | emptied l => l

/-- The set has members afterwards. -/
def fills : Transition → Bool
  | filled _ => true
  | emptied _ => false

/-- A view of the levels at which there is work, brought up to date. -/
def observe (view : Level → Bool) (t : Transition) : Level → Bool :=
  Function.update view t.level t.fills

/-- What is reported of one level. -/
def reports (ts : List Transition) (l : Level) : List Bool := (ts.filter (·.level = l)).map fills

theorem reports_append (ts us : List Transition) (l : Level) :
    reports (ts ++ us) l = reports ts l ++ reports us l := by
  unfold reports
  rw [List.filter_append, List.map_append]

/-- The view holds of each level what was reported of it last. -/
theorem foldl_observe (view : Level → Bool) (ts : List Transition) (l : Level) :
    ts.foldl observe view l = (reports ts l).foldl (fun _ x => x) (view l) := by
  induction ts generalizing view with
  | nil => rfl
  | cons t ts ih =>
      rw [List.foldl_cons, ih]
      unfold reports observe
      by_cases hl : t.level = l
      · subst hl
        rw [List.filter_cons_of_pos (by simp), Function.update_self]
        rfl
      · rw [List.filter_cons_of_neg (by simpa using hl), Function.update_of_ne (Ne.symm hl)]

end Transition

namespace ReadySets

/-- What can be done to ready sets. -/
inductive Update where
  | add (q : QueueId) (l : Level) (front : Stamp)
  | remove (q : QueueId)
  | changeFront (q : QueueId) (front : Stamp)
  | move (q : QueueId) (l : Level)
deriving DecidableEq

/-- The transitions that an update reports, and the sets that it leaves. -/
def update (s : ReadySets) : Update → List Transition × ReadySets
  | .add q l f => ((s.add q l f).1.toList, (s.add q l f).2)
  | .remove q => ((s.remove q).1.toList, (s.remove q).2)
  | .changeFront q f => ([], s.changeFront q f)
  | .move q l => s.move q l

/-- All that one update after the other reports, and the sets that they leave. -/
def run (s : ReadySets) (us : List Update) : List Transition × ReadySets :=
  us.foldl (fun r u => (r.1 ++ (r.2.update u).1, (r.2.update u).2)) ([], s)

theorem run_concat (s : ReadySets) (us : List Update) (u : Update) :
    s.run (us ++ [u]) = ((s.run us).1 ++ ((s.run us).2.update u).1, ((s.run us).2.update u).2) :=
  List.foldl_append

/-- The queue that an update is about. -/
def Update.queue : Update → QueueId
  | .add q _ _ | .remove q | .changeFront q _ | .move q _ => q

/-- What an update makes of the level and the front of its queue.  One that is there is not added
again, and nothing is made of one that is not. -/
def Update.change : Update → Option (Level × Stamp) → Option (Level × Stamp)
  | .add _ l f, e => e.or (some (l, f))
  | .remove _, _ => none
  | .changeFront _ f, e => e.map fun e => (e.1, f)
  | .move _ l, e => e.map fun e => (l, e.2)

/-- Notes of the level and the front of each queue, brought up to date. -/
def Update.note (notes : QueueId → Option (Level × Stamp)) (u : Update) :
    QueueId → Option (Level × Stamp) :=
  Function.update notes u.queue (u.change (notes u.queue))

/-- The notes of one update after the other, from none at all. -/
def noted (us : List Update) : QueueId → Option (Level × Stamp) :=
  us.foldl Update.note fun _ => none

theorem noted_concat (us : List Update) (u : Update) : noted (us ++ [u]) = u.note (noted us) :=
  List.foldl_append

/-- The update adds a member again or names a queue that is no member. -/
def Update.Idle (s : ReadySets) : Update → Prop
  | .add q _ _ => s.contains q = true
  | .remove q | .changeFront q _ | .move q _ => s.contains q = false

variable {s s' s'' : ReadySets} {q : QueueId} {l : Level} {f : Stamp} {u : Update}
  {ts us : List Transition}

/-! ### The members -/

theorem levelOf?_of_not_contains (h : s.contains q = false) : s.levelOf? q = none :=
  Option.isNone_iff_eq_none.1 (Option.isSome_eq_false_iff.1 h)

theorem update_of_idle (h : u.Idle s) : s.update u = ([], s) := by
  cases u with
  | add q l f =>
      have e : s.add q l f = (none, s) := if_pos h
      show ((s.add q l f).1.toList, (s.add q l f).2) = ([], s)
      rw [e]
      rfl
  | remove q =>
      have e : s.remove q = (none, s) := by
        unfold ReadySets.remove
        rw [levelOf?_of_not_contains h]
      show ((s.remove q).1.toList, (s.remove q).2) = ([], s)
      rw [e]
      rfl
  | changeFront q f =>
      show ([], s.changeFront q f) = ([], s)
      unfold ReadySets.changeFront
      rw [levelOf?_of_not_contains h]
  | move q l =>
      show s.move q l = ([], s)
      unfold ReadySets.move
      rw [levelOf?_of_not_contains h]

theorem WF.update (w : s.WF) (u : Update) : (s.update u).2.WF := by
  cases u with
  | add q l f => exact w.add q l f
  | remove q => exact w.remove q
  | changeFront q f => exact w.changeFront q f
  | move q l => exact w.move q l

theorem WF.contains_eq_false (w : s.WF) (h : s.member? q = none) : s.contains q = false := by
  rw [w.contains_eq, h]
  rfl

/-- An update changes the entry of its queue as noted, and no other one. -/
theorem WF.member?_update (w : s.WF) (u : Update) : (s.update u).2.member? = u.note s.member? := by
  funext j
  unfold Update.note
  rw [Function.update_apply]
  cases u with
  | add q l f =>
      cases hq : s.member? q with
      | none => exact (w.member?_add hq l f j).trans (by simp [Update.queue, Update.change, hq])
      | some e =>
          have same : s.add q l f = (none, s) := if_pos (by rw [w.contains_eq, hq]; rfl)
          show (s.add q l f).2.member? j = _
          rw [same]
          split_ifs with hj
          · simp [hj, Update.queue, Update.change, hq]
          · rfl
  | remove q => exact w.member?_remove q j
  | changeFront q f =>
      cases hq : s.member? q with
      | none =>
          have idle : (Update.changeFront q f).Idle s := w.contains_eq_false hq
          rw [update_of_idle idle]
          split_ifs with hj
          · simp [hj, Update.queue, Update.change, hq]
          · rfl
      | some e =>
          refine (w.member?_changeFront (l := e.1) (f := e.2) hq f j).trans ?_
          simp [Update.queue, Update.change, hq]
  | move q l => exact w.member?_move q l j

theorem wf_run (h : Half) (us : List Update) : (run { half := h } us).2.WF := by
  induction us using List.reverseRecOn with
  | nil => exact wf_new h
  | append_singleton us u ih =>
      rw [run_concat]
      exact ih.update u

theorem member?_run (h : Half) (us : List Update) :
    (run { half := h } us).2.member? = noted us := by
  induction us using List.reverseRecOn with
  | nil => rfl
  | append_singleton us u ih =>
      rw [run_concat, noted_concat, ← ih]
      exact (wf_run h us).member?_update u

/-! ### The reports -/

/-- The reports say of each level how the state of its set has changed. -/
def Told (s : ReadySets) (ts : List Transition) (s' : ReadySets) : Prop :=
  ∀ l, Changes (!s.isSetEmpty l) (Transition.reports ts l) (!s'.isSetEmpty l)

theorem told_refl (s : ReadySets) : Told s [] s := fun _ => .none _

theorem Told.trans (h : Told s ts s') (k : Told s' us s'') : Told s (ts ++ us) s'' := by
  intro l
  rw [Transition.reports_append]
  exact (h l).append (k l)

theorem WF.isSetEmpty_eq (w : s.WF) (w' : s'.WF) (h : s'.Occupied l ↔ s.Occupied l) :
    s'.isSetEmpty l = s.isSetEmpty l := by
  rw [Bool.eq_iff_iff, w.isSetEmpty_iff, w'.isSetEmpty_iff, h]

/-- If the levels that an update fills or empties are those that it names, and it names one at most,
it tells how each level has changed. -/
theorem Tells.told {t : Option Transition} (h : Tells s s' t.toList) (w : s.WF) (w' : s'.WF) :
    Told s t.toList s' := by
  -- a level that is not named keeps its state
  have kept (l : Level) (other : ∀ x, t = some x → x.level ≠ l) :
      s'.isSetEmpty l = s.isSetEmpty l := by
    refine w.isSetEmpty_eq w' ⟨fun ho => ?_, fun ho => ?_⟩
    · refine (h.filled l ho).resolve_right fun mem => ?_
      exact other _ (Option.mem_toList.1 mem) rfl
    · refine (h.emptied l ho).resolve_right fun mem => ?_
      exact other _ (Option.mem_toList.1 mem) rfl
  intro l
  cases t with
  | none =>
      rw [kept l nofun]
      exact .none _
  | some t =>
      unfold Transition.reports
      rw [Option.toList_some]
      by_cases hl : t.level = l
      · rw [List.filter_cons_of_pos (by simpa using hl), List.filter_nil]
        cases t with
        | filled m =>
            obtain rfl : m = l := hl
            obtain ⟨now, before⟩ := h.true_filled m List.mem_cons_self
            rw [w.isSetEmpty_iff.2 before, w'.isSetEmpty_eq_false_iff.2 now]
            exact .once Bool.false_ne_true
        | emptied m =>
            obtain rfl : m = l := hl
            obtain ⟨before, now⟩ := h.true_emptied m List.mem_cons_self
            rw [w'.isSetEmpty_iff.2 now, w.isSetEmpty_eq_false_iff.2 before]
            exact .once Bool.false_ne_true.symm
      · rw [List.filter_cons_of_neg (by simpa using hl), List.filter_nil,
          kept l fun x e => Option.some.inj e ▸ hl]
        exact .none _

theorem WF.tells_update (w : s.WF) (u : Update) : Tells s (s.update u).2 (s.update u).1 := by
  cases u with
  | add q l f => exact w.tells_add q l f
  | remove q => exact w.tells_remove q
  | changeFront q f =>
      cases hq : s.member? q with
      | none =>
          have idle : (Update.changeFront q f).Idle s := w.contains_eq_false hq
          rw [update_of_idle idle]
          exact tells_nil fun _ => Iff.rfl
      | some e => exact w.tells_changeFront (l := e.1) (f := e.2) hq f
  | move q l => exact w.tells_move q l

theorem WF.told_update (w : s.WF) (u : Update) : Told s (s.update u).1 (s.update u).2 := by
  cases u with
  | add q l f => exact (w.tells_add q l f).told w (w.add q l f)
  | remove q => exact (w.tells_remove q).told w (w.remove q)
  | changeFront q f =>
      exact Tells.told (t := none) (w.tells_update (.changeFront q f)) w (w.changeFront q f)
  | move q l =>
      -- it leaves one level and then enters the other
      show Told s (s.move q l).1 (s.move q l).2
      by_cases hq : ∀ m f, s.member? q = some (m, f) → m = l
      · rw [w.move_of_eq hq]
        exact told_refl s
      · simp only [Classical.not_forall] at hq
        obtain ⟨m, f, hmf, hm⟩ := hq
        rw [w.move_of_ne hmf hm]
        have w' := w.remove q
        exact ((w.tells_remove q).told w w').trans ((w'.tells_add q l f).told w' (w'.add q l f))

theorem told_run (h : Half) (us : List Update) :
    Told { half := h } (run { half := h } us).1 (run { half := h } us).2 := by
  induction us using List.reverseRecOn with
  | nil => exact told_refl _
  | append_singleton us u ih =>
      rw [run_concat]
      exact ih.trans ((wf_run h us).told_update u)

/-- After any updates of new ready sets, each queue is in the set of the level that was noted last,
with the front that was noted last, and in no other; the oldest member of a level has the least
front there.  Whoever folds all that was reported, from a view without work, has the levels that
have members.  Of each level it was reported in turns that it was filled and that it was emptied.
The next update reports the levels that it fills and empties, and nothing if it is idle. -/
theorem transitions_tell_all (h : Half) (us : List Update) :
    let s := (run { half := h } us).2
    let ts := (run { half := h } us).1
    let notes := noted us
    (∀ q, s.contains q = (notes q).isSome ∧ s.levelOf? q = (notes q).map Prod.fst) ∧
      (∀ q l f, (q, f) ∈ (s.sets.get l).entries ↔ notes q = some (l, f)) ∧
      (∀ l, s.isSetEmpty l = true ↔ ∀ q f, notes q ≠ some (l, f)) ∧
      (∀ l, s.oldest? l = none ↔ s.isSetEmpty l = true) ∧
      (∀ l q f, s.oldest? l = some (q, f) →
        notes q = some (l, f) ∧ ∀ j g, notes j = some (l, g) → f ≤ g) ∧
      (∀ l, ts.foldl Transition.observe (fun _ => false) l = !s.isSetEmpty l) ∧
      (∀ l, (false :: Transition.reports ts l).IsChain (· ≠ ·)) ∧
      ∀ u, (u.Idle s → s.update u = ([], s)) ∧ Tells s (s.update u).2 (s.update u).1 := by
  intro s ts notes
  have w : s.WF := wf_run h us
  have members : s.member? = notes := member?_run h us
  have told : Told { half := h } ts s := told_run h us
  -- no set has members at the start
  have start (l : Level) : (!isSetEmpty { half := h } l) = false := by cases l <;> rfl
  refine ⟨fun q => ?_, fun q l f => ?_, fun l => ?_, fun l => ?_, fun l q f oldest => ?_,
    fun l => ?_, fun l => start l ▸ (told l).isChain, fun u => ⟨update_of_idle, w.tells_update u⟩⟩
  · rw [w.contains_eq, w.levelOf?_eq, members]
    exact ⟨rfl, rfl⟩
  · rw [← members, w.member?_eq_some_iff, (w.heap l).tracked.get?_eq_some_iff]
  · rw [w.isSetEmpty_iff, ← members]
    unfold Occupied
    simp only [not_exists, ne_eq]
  · rw [w.oldest?_eq_none_iff, w.isSetEmpty_iff]
  · rw [← members]
    exact ⟨w.member?_of_oldest? oldest, fun j g hj => w.oldest?_le oldest hj⟩
  · rw [Transition.foldl_observe, ← start l]
    exact (told l).foldl_eq

end ReadySets

end Dispatch
