import Dispatch.Proofs.Wake.Pass

/-!
# The loop of a trimming pass

`Trims` is the loop of a trimming pass without a bound on its rounds.  It ends whenever removing
something lowers a measure of the owner's state, and then the pass with enough rounds is the loop
(`trims_trim`).  It ends when the queue on top has nothing to remove, so if an owner with nothing to
remove changes nothing, a pass right after it does nothing at all (`Trims.cleared`, `trim_cleared`).
-/

namespace Dispatch.Agenda.Pass

variable {σ : Type} {o : Owner σ} {now : Ticks} {p p' : Pass σ} {q : QueueId}

/-- The loop that trims the queue on top for as long as something is removed. -/
inductive Trims (o : Owner σ) (now : Ticks) : Pass σ → Pass σ → Prop
  | empty {p : Pass σ} (none_left : p.agenda.first? = none) : Trims o now p p
  | stop {p : Pass σ} {q : QueueId} (top : p.agenda.first? = some q)
      (nothing : (o.trim q now p.owner).1 = false) : Trims o now p (p.trimOnce o q now)
  | more {p p' : Pass σ} {q : QueueId} (top : p.agenda.first? = some q)
      (removed : (o.trim q now p.owner).1 = true) (rest : Trims o now (p.trimOnce o q now) p') :
      Trims o now p p'

theorem trim_succ (o : Owner σ) (now : Ticks) (n : Nat) (p : Pass σ) :
    trim o now (n + 1) p = match p.agenda.first? with
      | none => p
      | some q =>
        if (o.trim q now p.owner).1 then trim o now n (p.trimOnce o q now)
        else p.trimOnce o q now := by
  rw [trim]
  cases p.agenda.first? with
  | none => rfl
  | some q =>
      unfold trimOnce
      dsimp only
      split_ifs <;> rfl

theorem owner_trimOnce_of_removed (removed : (o.trim q now p.owner).1 = true) :
    (p.trimOnce o q now).owner = (o.want q now (o.trim q now p.owner).2).2 := by
  unfold trimOnce
  dsimp only
  rw [if_pos removed]
  rfl

/-- Every round but the last lowers the measure, so with more rounds than that the pass comes to the
end of the loop. -/
theorem trims_trim (measure : σ → Nat) (lowers : ∀ q s, (o.trim q now s).1 = true →
    measure (o.want q now (o.trim q now s).2).2 < measure s) (n : Nat) (p : Pass σ)
    (enough : measure p.owner < n) : Trims o now p (trim o now n p) := by
  induction n generalizing p with
  | zero => exact absurd enough (Nat.not_lt_zero _)
  | succ n ih =>
      rw [trim_succ]
      cases top : p.agenda.first? with
      | none => exact .empty top
      | some q =>
          dsimp only
          split_ifs with removed
          · refine .more top removed (ih _ ?_)
            rw [owner_trimOnce_of_removed removed]
            exact Nat.lt_of_lt_of_le (lowers q p.owner removed) (Nat.le_of_lt_succ enough)
          · exact .stop top (Bool.eq_false_iff.2 removed)

/-- The queue on top has nothing to remove. -/
def Cleared (o : Owner σ) (now : Ticks) (p : Pass σ) : Prop :=
  ∀ q, p.agenda.first? = some q → (o.trim q now p.owner).1 = false

theorem trimOnce_of_nothing (same : (o.trim q now p.owner).2 = p.owner)
    (nothing : (o.trim q now p.owner).1 = false) : p.trimOnce o q now = p := by
  unfold trimOnce
  dsimp only
  rw [same, if_neg (by simp [nothing])]

section

variable (same : ∀ q s, (o.trim q now s).1 = false → (o.trim q now s).2 = s)
include same

theorem Trims.cleared (t : Trims o now p p') : p'.Cleared o now := by
  induction t with
  | empty none_left =>
      intro q top
      rw [none_left] at top
      cases top
  | stop top nothing =>
      rw [trimOnce_of_nothing (same _ _ nothing) nothing]
      intro q top'
      cases top.symm.trans top'
      exact nothing
  | more _ _ _ ih => exact ih

theorem trim_cleared (c : p.Cleared o now) (n : Nat) : trim o now n p = p := by
  cases n with
  | zero => rfl
  | succ n =>
      rw [trim_succ]
      cases top : p.agenda.first? with
      | none => rfl
      | some q =>
          have nothing := c q top
          dsimp only
          rw [if_neg (by simp [nothing]), trimOnce_of_nothing (same _ _ nothing) nothing]

end

end Dispatch.Agenda.Pass
