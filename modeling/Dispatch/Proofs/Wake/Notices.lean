import Dispatch.Proofs.Collection.Changes
import Dispatch.Proofs.Wake.Updates
import Mathlib.Data.List.Induction

/-!
# What the notices say

A waking agenda gives notice of its earliest wake-up whenever that changes, also in the middle of a
pass.  So a timer that is armed as the last notice says is right after every single update
(`notices_tell_next`), and no notice repeats the one before.  What holds of one update
(`changes_set`) holds of any number of them (`Updates.changes`), and an operation makes nothing but
updates (`Moment.updating`).
-/

namespace Dispatch.Agenda

/-! ### Commands -/

/-- What an agenda can be told to do.  The queues may have another owner each time. -/
inductive Command : Type 1 where
  | set (q : QueueId) (now : Ticks) (w : Option WakeUp)
  | unregister (q : QueueId) (now : Ticks)
  | promote {σ : Type} (o : Owner σ) (now : Ticks) (stamp : Stamp) (rounds : Nat) (s : σ)
  | trim {σ : Type} (o : Owner σ) (now : Ticks) (rounds : Nat) (s : σ)

/-- The time at which the agenda is told so. -/
def Command.now : Command → Ticks
  | set _ now _ | unregister _ now | promote _ now _ _ _ | trim _ now _ _ => now

/-- The notices that an agenda gives while it does what it is told, and how that leaves it. -/
def obey (a : Agenda) : Command → List Notice × Agenda
  | .set q now w => a.set q now w
  | .unregister q now => a.unregister q now
  | .promote o now stamp rounds s =>
    let p := a.promote o now stamp rounds s
    (p.notices, p.agenda)
  | .trim o now rounds s =>
    let p := a.trim o now rounds s
    (p.notices, p.agenda)

/-- The notices of one command after the other, and how all of them leave the agenda. -/
def run (a : Agenda) (cs : List Command) : List Notice × Agenda :=
  cs.foldl (fun r c => (r.1 ++ (r.2.obey c).1, (r.2.obey c).2)) ([], a)

theorem run_concat (a : Agenda) (cs : List Command) (c : Command) :
    a.run (cs ++ [c]) = ((a.run cs).1 ++ ((a.run cs).2.obey c).1, ((a.run cs).2.obey c).2) :=
  List.foldl_append

/-! ### The course of a command -/

/-- How far a promotion pass has come after some of its steps, each of which makes one update: it
wakes a queue, enters a deferred wake-up or, when it has woken a queue, refreshes the one on top. -/
inductive Promoting (a : Agenda) (o : Owner σ) (now : Ticks) (stamp : Stamp) (s : σ) : Pass σ → Prop
  | wake (n : Nat) : Promoting a o now stamp s (.drain o now stamp n { agenda := a, owner := s })
  | enter {d : Pass σ} (drained : d = .drain o now stamp a.size { agenda := a, owner := s })
      (n : Nat) : Promoting a o now stamp s
        (Pass.enterDeferred { d with deferred := d.deferred.take n } now)
  | refresh {d : Pass σ} (drained : d = .drain o now stamp a.size { agenda := a, owner := s })
      (woken : d.woken ≠ 0) (n : Nat) :
      Promoting a o now stamp s (.settle o now n none (d.enterDeferred now))

/-- The notices that an agenda has given since it was told to do something, and how it is at that
moment: before it begins, after any one of the updates that it makes, or when it is done. -/
inductive Moment (a : Agenda) : Command → List Notice → Agenda → Prop
  | start (c : Command) : Moment a c [] a
  | promote {σ : Type} {o : Owner σ} {now : Ticks} {stamp : Stamp} {s : σ} {p : Pass σ}
      (h : a.Promoting o now stamp s p) (rounds : Nat) :
      Moment a (.promote o now stamp rounds s) p.notices p.agenda
  | trim {σ : Type} (o : Owner σ) (now : Ticks) (rounds : Nat) (s : σ) (n : Nat) {p : Pass σ}
      (trimmed : p = .trim o now n { agenda := a, owner := s }) :
      Moment a (.trim o now rounds s) p.notices p.agenda
  | finish (c : Command) : Moment a c (a.obey c).1 (a.obey c).2

variable {σ : Type} {o : Owner σ} {a b : Agenda} {p : Pass σ} {q : QueueId} {now : Ticks}
  {stamp : Stamp} {s : σ} {ns : List Notice}

theorem Promoting.updating (h : a.Promoting o now stamp s p) (c : a.Counted) :
    p.Updating a now := by
  have start := c.updating_start now s
  cases h with
  | wake n => exact start.drain o stamp n
  | enter drained n =>
      subst drained
      have d := start.drain o stamp a.size
      exact Pass.Updating.enterDeferred ⟨d.counted, d.updates⟩
  | refresh drained _ n =>
      subst drained
      exact (start.drain o stamp a.size).enterDeferred.settle o n none

theorem Updates.once (c : a.Counted) (q : QueueId) (now : Ticks) (w : Option WakeUp) :
    Updates now a (a.set q now w).1 (a.set q now w).2 :=
  Updates.set (.none a) c.covers q w

/-- At every moment, all that was done to the agenda are updates. -/
theorem Moment.updating {c : Command} (m : Moment a c ns b) (k : a.Counted) :
    b.Counted ∧ Updates c.now a ns b := by
  cases m with
  | start => exact ⟨k, .none a⟩
  | promote h rounds => exact ⟨(h.updating k).counted, (h.updating k).updates⟩
  | trim o now rounds s n trimmed =>
      subst trimmed
      have u := (k.updating_start now s).trim o n
      exact ⟨u.counted, u.updates⟩
  | finish c =>
      cases c with
      | set q now w => exact ⟨k.set q now w, .once k q now w⟩
      | unregister q now =>
          refine ⟨k.unregister q now, ?_⟩
          show Updates now a (a.unregister q now).1 (a.unregister q now).2
          unfold Agenda.unregister
          split_ifs
          · exact .once k q now none
          · exact .none a
      | promote o now stamp rounds s =>
          have u := k.updating_promote o now stamp rounds s
          exact ⟨u.counted, u.updates⟩
      | trim o now rounds s => exact ⟨k.trim o now rounds s, k.updates_trim o now rounds s⟩

/-! ### What updates give notice of -/

/-- An update gives notice of the earliest wake-up if it has changed, and else of nothing. -/
theorem changes_set (hw : a.waking = true) (q : QueueId) (now : Ticks) (w : Option WakeUp) :
    Changes a.next? ((a.set q now w).1.map Notice.next) (a.set q now w).2.next? := by
  have told := armed_set hw q now w
  unfold Agenda.set at told ⊢
  dsimp only at told ⊢
  split_ifs at told ⊢ with new
  · rw [hw, Bool.true_and, bne_iff_ne] at new
    exact .once new.symm
  · rw [← told]
    exact .none a.next?

theorem time_of_mem_set {n : Notice} {w : Option WakeUp} (h : n ∈ (a.set q now w).1) :
    n.time = now := by
  unfold Agenda.set at h
  dsimp only at h
  split_ifs at h
  · rw [List.mem_singleton.1 h]
  · cases h

theorem Updates.waking_eq (u : Updates now a ns b) : b.waking = a.waking := by
  induction u with
  | none => rfl
  | set _ _ _ _ ih => exact ih

theorem Updates.changes (u : Updates now a ns b) (hw : a.waking = true) :
    Changes a.next? (ns.map Notice.next) b.next? := by
  induction u with
  | none => exact .none a.next?
  | set u _ q w ih =>
      rw [List.map_append]
      exact ih.append (changes_set (u.waking_eq.trans hw) q now w)

theorem Updates.time_eq (u : Updates now a ns b) {n : Notice} (h : n ∈ ns) : n.time = now := by
  induction u with
  | none => cases h
  | set _ _ _ _ ih =>
      rcases List.mem_append.1 h with h | h
      · exact ih h
      · exact time_of_mem_set h

/-! ### Runs -/

theorem Counted.run (k : a.Counted) (cs : List Command) : (a.run cs).2.Counted := by
  induction cs using List.reverseRecOn with
  | nil => exact k
  | append_singleton cs c ih =>
      rw [run_concat]
      exact ((Moment.finish c).updating ih).1

theorem Counted.waking_run (k : a.Counted) (cs : List Command) :
    (a.run cs).2.waking = a.waking := by
  induction cs using List.reverseRecOn with
  | nil => rfl
  | append_singleton cs c ih =>
      rw [run_concat]
      exact ((Moment.finish c).updating (k.run cs)).2.waking_eq.trans ih

theorem Counted.changes_run (k : a.Counted) (hw : a.waking = true) (cs : List Command) :
    Changes a.next? ((a.run cs).1.map Notice.next) (a.run cs).2.next? := by
  induction cs using List.reverseRecOn with
  | nil => exact .none a.next?
  | append_singleton cs c ih =>
      have u := ((Moment.finish c).updating (k.run cs)).2
      rw [run_concat, List.map_append]
      exact ih.append (u.changes ((k.waking_run cs).trans hw))

theorem WF.next?_eq_some_iff (h : a.WF) {w : WakeUp} : a.next? = some w ↔
    (∃ q, a.get? q = some w) ∧ ∀ q v, a.get? q = some v → w ≤ v := by
  refine ⟨h.next?_eq_some, fun ⟨⟨q, hq⟩, least⟩ => ?_⟩
  cases hn : a.next? with
  | none => rw [h.next?_eq_none_iff.1 hn q] at hq; cases hq
  | some v =>
      obtain ⟨⟨j, hj⟩, first⟩ := h.next?_eq_some hn
      rw [WakeUp.le_antisymm (least j v hj) (first q w hq)]

/-- A waking agenda, whatever it was told to do since it was created and whoever owned the queues,
at any moment while it does one thing more.  The last notice that it gave, if there was one, says
what its earliest wake-up is, which is the least of all its entries.  No notice repeats the one
before, and each has the time of the command on which it was given. -/
theorem notices_tell_next (cs : List Command) (c : Command) {ns : List Notice} {b : Agenda} :
    let r := run { waking := true } cs
    Moment r.2 c ns b →
      armed none (r.1 ++ ns) = b.next? ∧
      (b.next? = none ↔ ∀ q, b.get? q = none) ∧
      (∀ w, b.next? = some w ↔
        (∃ q, b.get? q = some w) ∧ ∀ q v, b.get? q = some v → w ≤ v) ∧
      (none :: (r.1 ++ ns).map Notice.next).IsChain (· ≠ ·) ∧ ∀ n ∈ ns, n.time = c.now := by
  intro r moment
  have fresh : Counted { waking := true } := counted_empty true
  obtain ⟨counted, updates⟩ := moment.updating (fresh.run cs)
  have changes : Changes none ((r.1 ++ ns).map Notice.next) b.next? := by
    rw [List.map_append]
    exact (fresh.changes_run rfl cs).append (updates.changes (fresh.waking_run cs))
  refine ⟨?_, counted.wf.next?_eq_none_iff, fun w => counted.wf.next?_eq_some_iff,
    changes.isChain, fun n => updates.time_eq⟩
  rw [← changes.foldl_eq, List.foldl_map]
  rfl

/-- Two queues are due at once.  Waking the first one leaves it due, so its wake-up is put off until
the second one is woken, and entering it again is one of the three changes of which notice
is given. -/
theorem notices_tell_next_deferred :
    let w (n : Nat) : WakeUp := { time := .ofMillis n }
    let o : Owner Unit :=
      { wake := fun q _ _ s => (if q = ⟨1, 1⟩ then some (w 10) else none, s)
        want := fun q _ s => (if q = ⟨1, 1⟩ then some (w 50) else some (w 30), s)
        trim := fun _ _ s => (false, s) }
    let cs : List Command := [.set ⟨1, 1⟩ .zero (some (w 10)), .set ⟨2, 1⟩ .zero (some (w 10)),
      .set ⟨3, 1⟩ .zero (some (w 30))]
    let r := run { waking := true } cs
    let d := Pass.drain o (.ofMillis 10) ⟨1⟩ r.2.size { agenda := r.2, owner := () }
    let p := Pass.enterDeferred { d with deferred := d.deferred.take 1 } (.ofMillis 10)
    let given := r.1 ++ p.notices
    Moment r.2 (.promote o (.ofMillis 10) ⟨1⟩ 3 ()) p.notices p.agenda ∧
      given = [⟨.zero, some (w 10)⟩, ⟨.ofMillis 10, some (w 30)⟩, ⟨.ofMillis 10, some (w 10)⟩] ∧
      armed none given = p.agenda.next? ∧ (none :: given.map Notice.next).IsChain (· ≠ ·) := by
  intro w o cs r d p given
  have moment : Moment r.2 (.promote o (.ofMillis 10) ⟨1⟩ 3 ()) p.notices p.agenda :=
    .promote (.enter rfl 1) 3
  obtain ⟨told, -, -, new, -⟩ := notices_tell_next cs _ moment
  exact ⟨moment, by decide +kernel, told, new⟩

end Dispatch.Agenda
