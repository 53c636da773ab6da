import Dispatch.Wake.Pass
import Mathlib.Tactic.SplitIfs

/-!
# Induction over passes

A pass repeats one step, so what the step keeps holds when the pass has ended: there is one
principle of induction for each of the three loops.  What the owner keeps under all questions that
it is asked holds of the owner after a pass, whatever the agenda is (`owner_promote`, `owner_trim`).
-/

namespace Dispatch.Agenda

variable {σ : Type} {o : Owner σ} {now : Ticks} {stamp : Stamp} {a : Agenda}

namespace Pass

variable {P : Pass σ → Prop}

theorem drain_induct (wake : ∀ p q w, P p → p.agenda.entries.min? = some (q, w) →
    w.isReady now = true → P (p.wake o q now stamp)) (n : Nat) (p : Pass σ) (hp : P p) :
    P (drain o now stamp n p) := by
  induction n generalizing p with
  | zero => exact hp
  | succ n ih =>
      unfold drain
      rcases hm : p.agenda.entries.min? with _ | ⟨q, w⟩
      · exact hp
      · dsimp only
        split_ifs with hw
        · exact ih _ (wake p q w hp hm hw)
        · exact hp

theorem settle_induct (refresh : ∀ p q, P p → p.agenda.first? = some q → P (p.refresh o q now))
    (n : Nat) (last : Option QueueId) (p : Pass σ) (hp : P p) : P (settle o now n last p) := by
  induction n generalizing last p with
  | zero => exact hp
  | succ n ih =>
      unfold settle
      cases hf : p.agenda.first? with
      | none => exact hp
      | some q =>
          dsimp only
          split_ifs
          · exact hp
          · exact ih _ _ (refresh p q hp hf)

/-- Trims the queue, and asks it what it wants if anything was removed. -/
def trimOnce (p : Pass σ) (o : Owner σ) (q : QueueId) (now : Ticks) : Pass σ :=
  let (removed, s) := o.trim q now p.owner
  let p : Pass σ := { p with owner := s }
  if removed then p.refresh o q now else p

theorem trim_induct (once : ∀ p q, P p → p.agenda.first? = some q → P (p.trimOnce o q now))
    (n : Nat) (p : Pass σ) (hp : P p) : P (trim o now n p) := by
  induction n generalizing p with
  | zero => exact hp
  | succ n ih =>
      unfold trim
      cases hf : p.agenda.first? with
      | none => exact hp
      | some q =>
          have step := once p q hp hf
          unfold trimOnce at step
          dsimp only at step ⊢
          split_ifs at step ⊢
          · exact ih _ step
          · exact step

theorem enterDeferred_induct (enter : ∀ p q w, P p → P (p.set q now (some w))) (p : Pass σ)
    (hp : P p) : P (p.enterDeferred now) := by
  unfold enterDeferred
  generalize p.deferred = l
  induction l generalizing p with
  | nil => exact hp
  | cons e l ih => exact ih _ (enter p e.1 e.2 hp)

theorem enterDeferred_of_nil (p : Pass σ) (hp : p.deferred = []) : p.enterDeferred now = p := by
  unfold enterDeferred
  rw [hp]
  rfl

@[simp] theorem owner_set (p : Pass σ) (q : QueueId) (now : Ticks) (w : Option WakeUp) :
    (p.set q now w).owner = p.owner := rfl

theorem owner_wake (p : Pass σ) (q : QueueId) :
    (p.wake o q now stamp).owner = (o.wake q now stamp p.owner).2 := by
  unfold wake
  dsimp only
  split
  · split_ifs <;> rfl
  · rfl

variable {I : σ → Prop}

theorem owner_trimOnce (p : Pass σ) (q : QueueId) (trim : ∀ s, I s → I (o.trim q now s).2)
    (want : ∀ s, I s → I (o.want q now s).2) (hp : I p.owner) :
    I (p.trimOnce o q now).owner := by
  unfold trimOnce
  dsimp only
  split_ifs
  · exact want _ (trim p.owner hp)
  · exact trim p.owner hp

end Pass

variable {I : σ → Prop}

/-- What waking and asking keep holds of the owner after a promotion pass. -/
theorem owner_promote (wake : ∀ q s, I s → I (o.wake q now stamp s).2)
    (want : ∀ q s, I s → I (o.want q now s).2) (rounds : Nat) {s : σ} (hs : I s) :
    I (a.promote o now stamp rounds s).owner := by
  have woken : I ((Pass.drain o now stamp a.size { agenda := a, owner := s }).enterDeferred
      now).owner := by
    refine Pass.enterDeferred_induct (P := fun p => I p.owner) (fun p q w hp => hp) _ ?_
    refine Pass.drain_induct (P := fun p => I p.owner) (fun p q w hp _ _ => ?_) _ _ hs
    rw [Pass.owner_wake]
    exact wake q p.owner hp
  unfold promote
  dsimp only
  split_ifs
  · exact woken
  · exact Pass.settle_induct (P := fun p => I p.owner) (fun p q hp _ => want q p.owner hp) _ _ _
      woken

/-- What trimming and asking keep holds of the owner after a trimming pass. -/
theorem owner_trim (trim : ∀ q s, I s → I (o.trim q now s).2)
    (want : ∀ q s, I s → I (o.want q now s).2) (rounds : Nat) {s : σ} (hs : I s) :
    I (a.trim o now rounds s).owner :=
  Pass.trim_induct (P := fun p => I p.owner)
    (fun p q hp _ => p.owner_trimOnce q (trim q) (want q) hp) _ _ hs

end Dispatch.Agenda
