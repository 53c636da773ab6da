import Dispatch.Proofs.Collection.Contents
import Dispatch.Proofs.Wake.Agenda
import Dispatch.Proofs.Wake.Pass

/-!
# Wake-ups that need high resolution

An agenda counts the entries that need high resolution one by one, as they come and go.  The count
is exact (`Counted`): entering a wake-up takes the entry that a queue has off the count and puts the
new one on it (`Counted.set`), and a pass changes the agenda in no other way, whatever its owner
answers (`Counted.promote`, `Counted.trim`).  So high resolution is needed exactly if the entry of
some queue needs it (`hasHighResolution_iff`).
-/

namespace Dispatch

namespace Agenda

variable {σ : Type} {a : Agenda} {q : QueueId} {now : Ticks} {o : Owner σ} {p : Pass σ}

/-- The number of entries that need high resolution. -/
def highEntries (entries : KeyedHeap QueueId WakeUp) : Nat :=
  entries.toList.countP fun e => e.2.resolution = .high

/-- The agenda is well formed, and its count of the entries that need high resolution is exact. -/
structure Counted (a : Agenda) : Prop where
  wf : a.WF
  count : a.highResolution = highEntries a.entries

theorem counted_empty (waking : Bool) : Counted { waking := waking } := ⟨wf_empty waking, rfl⟩

/-- The entry of a queue counts for itself. -/
theorem highEntries_erase (h : a.WF) (q : QueueId) :
    highEntries a.entries = highEntries (a.entries.erase q) + highCount (a.get? q) := by
  have erased := KeyedHeap.get?_erase h.tracked q
  have t : (a.entries.erase q).Tracked := (h.erase q).tracked
  unfold Agenda.get?
  cases hq : a.entries.get? q with
  | none =>
      have same : a.entries.toList.Perm (a.entries.erase q).toList := by
        refine (List.perm_ext_iff_of_nodup h.tracked.nodup_toList t.nodup_toList).2 ?_
        rintro ⟨j, w⟩
        rw [h.tracked.mem_toList, t.mem_toList, erased]
        by_cases hj : j = q
        · rw [if_pos hj, hj, hq]
        · rw [if_neg hj]
      exact same.countP_eq _
  | some w =>
      have perm : a.entries.toList.Perm ((q, w) :: (a.entries.erase q).toList) := by
        refine h.tracked.perm_toList t ((erased q).trans (if_pos rfl)) fun j => ?_
        rw [erased]
        split_ifs with hj
        · rw [hj, hq]
        · rfl
      unfold highEntries highCount
      rw [perm.countP_eq, List.countP_cons]
      simp

theorem highEntries_insert (h : a.WF) (q : QueueId) (w : WakeUp) :
    highEntries (a.entries.insert q w) = highEntries (a.entries.erase q) + highCount (some w) := by
  have erased := KeyedHeap.get?_erase h.tracked q
  have perm : (a.entries.insert q w).toList.Perm ((q, w) :: (a.entries.erase q).toList) := by
    refine (h.insert q w).tracked.perm_toList (h.erase q).tracked
      ((erased q).trans (if_pos rfl)) fun j => ?_
    rw [KeyedHeap.get?_insert h.tracked, erased]
    split_ifs <;> rfl
  unfold highEntries highCount
  rw [perm.countP_eq, List.countP_cons]
  simp

theorem Counted.set (c : a.Counted) (q : QueueId) (now : Ticks) (x : Option WakeUp) :
    (a.set q now x).2.Counted := by
  refine ⟨c.wf.set q now x, ?_⟩
  have taken_off := highEntries_erase c.wf q
  have put_on : highEntries (a.set q now x).2.entries =
      highEntries (a.entries.erase q) + highCount x := by
    cases x with
    | none => rfl
    | some w => exact highEntries_insert c.wf q w
  show a.highResolution - highCount (a.get? q) + highCount x = _
  rw [put_on, c.count]
  omega

theorem Counted.unregister (c : a.Counted) (q : QueueId) (now : Ticks) :
    (a.unregister q now).2.Counted := by
  unfold Agenda.unregister
  split_ifs
  · exact c.set q now none
  · exact c

/-! ### Passes -/

theorem Counted.pass_set (c : p.agenda.Counted) (q : QueueId) (now : Ticks) (x : Option WakeUp) :
    (p.set q now x).agenda.Counted :=
  c.set q now x

theorem Counted.wake (c : p.agenda.Counted) (q : QueueId) (now : Ticks) (stamp : Stamp) :
    (p.wake o q now stamp).agenda.Counted := by
  unfold Pass.wake
  dsimp only
  split
  · split_ifs <;> exact c.set q now _
  · exact c.set q now none

/-- Whatever the owner answers, the count is exact after a promotion pass. -/
theorem Counted.promote (c : a.Counted) (o : Owner σ) (now : Ticks) (stamp : Stamp) (rounds : Nat)
    (s : σ) : (a.promote o now stamp rounds s).agenda.Counted := by
  have entered : ((Pass.drain o now stamp a.size { agenda := a, owner := s }).enterDeferred
      now).agenda.Counted := by
    refine Pass.enterDeferred_induct (P := fun p => p.agenda.Counted)
      (fun p q w c => c.pass_set q now _) _ ?_
    exact Pass.drain_induct (P := fun p => p.agenda.Counted) (fun p q w c _ _ => c.wake q now stamp)
      _ _ c
  unfold Agenda.promote
  dsimp only
  split_ifs
  · exact entered
  · exact Pass.settle_induct (P := fun p => p.agenda.Counted) (fun p q c _ => c.set q now _) _ _ _
      entered

/-- Whatever the owner answers, the count is exact after a trimming pass. -/
theorem Counted.trim (c : a.Counted) (o : Owner σ) (now : Ticks) (rounds : Nat) (s : σ) :
    (a.trim o now rounds s).agenda.Counted := by
  refine Pass.trim_induct (P := fun p => p.agenda.Counted) (fun p q c _ => ?_) _ _ c
  unfold Pass.trimOnce
  dsimp only
  split_ifs
  · exact c.set q now _
  · exact c

/-- High resolution is needed exactly if the entry of some queue needs it. -/
theorem Counted.hasHighResolution_iff (c : a.Counted) :
    a.hasHighResolution = true ↔ ∃ q w, a.get? q = some w ∧ w.resolution = .high := by
  unfold Agenda.hasHighResolution
  rw [decide_eq_true_eq, c.count]
  unfold highEntries
  rw [List.countP_pos_iff]
  constructor
  · rintro ⟨⟨q, w⟩, mem, high⟩
    exact ⟨q, w, c.wf.tracked.mem_toList.1 mem, of_decide_eq_true high⟩
  · rintro ⟨q, w, hq, high⟩
    exact ⟨(q, w), c.wf.tracked.mem_toList.2 hq, decide_eq_true high⟩

end Agenda

end Dispatch
