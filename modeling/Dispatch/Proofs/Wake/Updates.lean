import Dispatch.Proofs.Wake.Answers
import Dispatch.Proofs.Wake.Resolution

/-!
# Passes as updates

Whoever owns the queues, a pass changes an agenda in one way only: it enters the wake-ups of queues
or takes entries out, one after the other (`Counted.updates_promote`, `Counted.updates_trim`).  Each
of these updates takes the entry that a queue has off the count of those that need high resolution.
The count is exact at every moment, so there is always something to take off (`Counted.covers`).
-/

namespace Dispatch.Agenda

variable {σ : Type} {o : Owner σ} {a : Agenda} {p : Pass σ} {q : QueueId} {now : Ticks}

/-- Any entry that needs high resolution is on the count, so that it can be taken off. -/
def Covers (a : Agenda) : Prop := ∀ q, highCount (a.get? q) ≤ a.highResolution

/-- Entering wake-ups one after the other leads to the agenda and gives the notices, and the entries
that are replaced can be taken off the count. -/
inductive Updates (now : Ticks) : Agenda → List Notice → Agenda → Prop
  | none (a : Agenda) : Updates now a [] a
  | set {a b : Agenda} {ns : List Notice} (u : Updates now a ns b) (covered : b.Covers)
      (q : QueueId) (w : Option WakeUp) : Updates now a (ns ++ (b.set q now w).1) (b.set q now w).2

theorem Counted.covers (c : a.Counted) : a.Covers := by
  intro q
  rw [c.count, highEntries_erase c.wf q]
  exact Nat.le_add_left _ _

theorem Reachable.counted (r : Reachable a) : a.Counted := by
  induction r with
  | start waking => exact counted_empty waking
  | set _ q now w c => exact c.set q now w
  | unregister _ q now c => exact c.unregister q now
  | promote _ o now stamp rounds s c => exact c.promote o now stamp rounds s
  | trim _ o now rounds s c => exact c.trim o now rounds s

/-- The pass has made nothing but updates so far. -/
structure Pass.Updating (a : Agenda) (now : Ticks) (p : Pass σ) : Prop where
  counted : p.agenda.Counted
  updates : Updates now a p.notices p.agenda

theorem Pass.Updating.set (u : p.Updating a now) (q : QueueId) (w : Option WakeUp) :
    (p.set q now w).Updating a now :=
  ⟨u.counted.set q now w, u.updates.set u.counted.covers q w⟩

theorem Pass.Updating.wake (u : p.Updating a now) (q : QueueId) (stamp : Stamp) :
    (p.wake o q now stamp).Updating a now := by
  have answered (s : σ) : ({ p with owner := s, woken := p.woken + 1 } : Pass σ).Updating a now :=
    ⟨u.counted, u.updates⟩
  unfold Pass.wake
  dsimp only
  split
  · split_ifs
    · have taken_out := (answered (o.wake q now stamp p.owner).2).set q none
      exact ⟨taken_out.counted, taken_out.updates⟩
    · exact (answered _).set q _
  · exact (answered _).set q none

theorem Pass.Updating.refresh (u : p.Updating a now) (o : Owner σ) (q : QueueId) :
    (p.refresh o q now).Updating a now :=
  Pass.Updating.set (p := { p with owner := (o.want q now p.owner).2 })
    ⟨u.counted, u.updates⟩ q (o.want q now p.owner).1

theorem Pass.Updating.drain (u : p.Updating a now) (o : Owner σ) (stamp : Stamp) (n : Nat) :
    (Pass.drain o now stamp n p).Updating a now :=
  Pass.drain_induct (P := fun p => p.Updating a now) (fun _ q _ u _ _ => u.wake q stamp) n p u

theorem Pass.Updating.enterDeferred (u : p.Updating a now) : (p.enterDeferred now).Updating a now :=
  Pass.enterDeferred_induct (P := fun p => p.Updating a now) (fun _ q w u => u.set q (some w)) p u

theorem Pass.Updating.settle (u : p.Updating a now) (o : Owner σ) (n : Nat)
    (last : Option QueueId) : (Pass.settle o now n last p).Updating a now :=
  Pass.settle_induct (P := fun p => p.Updating a now) (fun _ q u _ => u.refresh o q) n last p u

theorem Pass.Updating.trimOnce (u : p.Updating a now) (o : Owner σ) (q : QueueId) :
    (p.trimOnce o q now).Updating a now := by
  have trimmed : ({ p with owner := (o.trim q now p.owner).2 } : Pass σ).Updating a now :=
    ⟨u.counted, u.updates⟩
  unfold Pass.trimOnce
  dsimp only
  split_ifs
  · exact trimmed.refresh o q
  · exact trimmed

theorem Pass.Updating.trim (u : p.Updating a now) (o : Owner σ) (n : Nat) :
    (Pass.trim o now n p).Updating a now :=
  Pass.trim_induct (P := fun p => p.Updating a now) (fun _ q u _ => u.trimOnce o q) n p u

theorem Counted.updating_start (c : a.Counted) (now : Ticks) (s : σ) :
    ({ agenda := a, owner := s } : Pass σ).Updating a now :=
  ⟨c, .none a⟩

theorem Counted.updating_promote (c : a.Counted) (o : Owner σ) (now : Ticks) (stamp : Stamp)
    (rounds : Nat) (s : σ) : (a.promote o now stamp rounds s).Updating a now := by
  have entered := ((c.updating_start now s).drain o stamp a.size).enterDeferred
  unfold Agenda.promote
  dsimp only
  split_ifs
  · exact entered
  · exact entered.settle o rounds none

theorem Counted.updates_promote (c : a.Counted) (o : Owner σ) (now : Ticks) (stamp : Stamp)
    (rounds : Nat) (s : σ) : Updates now a (a.promote o now stamp rounds s).notices
      (a.promote o now stamp rounds s).agenda :=
  (c.updating_promote o now stamp rounds s).updates

theorem Counted.updates_trim (c : a.Counted) (o : Owner σ) (now : Ticks) (rounds : Nat) (s : σ) :
    Updates now a (a.trim o now rounds s).notices (a.trim o now rounds s).agenda :=
  ((c.updating_start now s).trim o rounds).updates

end Dispatch.Agenda
