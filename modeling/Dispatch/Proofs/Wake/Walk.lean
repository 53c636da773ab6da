import Dispatch.Proofs.Wake.Answers

/-!
# The walk over the queue on top

After queues have been woken, the queue on top is asked again what it wants, until the same queue
stays on top.  If the answers are those of a fixed function, the loop ends: every round but the last
gives an entry its answer that did not have it yet, and a queue that is asked once more keeps its
entry and its place on top (`Refreshed.first?_refresh`).  So there is one more round than there are
entries at most (`Refreshed.exists_settles`), and the entry on top is what its queue wants.

The other entries may be out of date.  If every queue wants to be woken no earlier than its entry
says, they are too early rather than too late, so the entry on top is the least of all answers,
also of those that were not asked for (`Refreshed.next?_eq_some_iff`).
-/

namespace Dispatch.Agenda

variable {σ : Type} {o : Owner σ} {now : Ticks} {stamp : Stamp} {a d : Agenda} {q : QueueId}
  {qs : List QueueId} {f : QueueId → Option WakeUp} {last : Option QueueId}

/-- The agenda `a` is `d` after the queues in the list have been given the entries that `f` says. -/
structure Refreshed (d : Agenda) (f : QueueId → Option WakeUp) (qs : List QueueId) (a : Agenda) :
    Prop where
  wf : a.WF
  listed : ∀ q ∈ qs, d.get? q ≠ none
  entries : ∀ q, a.get? q = if q ∈ qs then f q else d.get? q

theorem refreshed_nil (h : d.WF) (f : QueueId → Option WakeUp) : Refreshed d f [] d where
  wf := h
  listed _ hq := absurd hq List.not_mem_nil
  entries q := by simp

theorem Refreshed.get?_of_mem (t : Refreshed d f qs a) (hq : q ∈ qs) : a.get? q = f q := by
  rw [t.entries, if_pos hq]

theorem Refreshed.get?_of_not_mem (t : Refreshed d f qs a) (hq : q ∉ qs) : a.get? q = d.get? q := by
  rw [t.entries, if_neg hq]

/-- Only queues that had an entry have one. -/
theorem Refreshed.get?_ne_none (t : Refreshed d f qs a) (hq : a.get? q ≠ none) :
    d.get? q ≠ none := by
  by_cases mem : q ∈ qs
  · exact t.listed q mem
  · rwa [t.get?_of_not_mem mem] at hq

theorem Refreshed.refresh {p : Pass σ} (t : Refreshed d f qs p.agenda)
    (top : p.agenda.first? = some q) (answer : (o.want q now p.owner).1 = f q) :
    Refreshed d f (q :: qs) (p.refresh o q now).agenda where
  wf := t.wf.set q now _
  listed j hj := by
    rcases List.mem_cons.1 hj with rfl | hj
    · obtain ⟨w, hw⟩ := t.wf.get?_of_first? top
      exact t.get?_ne_none (by simp [hw])
    · exact t.listed j hj
  entries j := by
    have set : (p.refresh o q now).agenda.get? j =
        if j = q then (o.want q now p.owner).1 else p.agenda.get? j := t.wf.get?_set q now _ j
    rw [set, answer, t.entries]
    by_cases hj : j = q <;> simp [hj]

/-- A queue on top that is asked once more stays there. -/
theorem Refreshed.first?_refresh {p : Pass σ} (t : Refreshed d f qs p.agenda)
    (top : p.agenda.first? = some q) (hq : q ∈ qs) (answer : (o.want q now p.owner).1 = f q) :
    (p.refresh o q now).agenda.first? = some q := by
  obtain ⟨⟨j, w⟩, he, rfl⟩ := Option.map_eq_some_iff.1 top
  have entry : f j = some w := (t.get?_of_mem hq).symm.trans (t.wf.get?_of_min? he)
  have same : p.agenda.entries.insert j w = p.agenda.entries := KeyedHeap.WF.insert_of_min? t.wf he
  have entries : (p.refresh o j now).agenda.entries = p.agenda.entries := by
    show (o.want j now p.owner).1.elim (p.agenda.entries.erase j) (p.agenda.entries.insert j) = _
    rw [answer, entry]
    exact same
  unfold first?
  rw [entries, he, Option.map_some]

/-! ### The least of the answers -/

section Least

/-- If no queue wants to be woken earlier than its entry says, no answer is before the entry on
top. -/
theorem Refreshed.le_of_next? (t : Refreshed d f qs a)
    (later : ∀ q w v, d.get? q = some w → f q = some v → w ≤ v) {w v : WakeUp}
    (next : a.next? = some w) (hq : d.get? q ≠ none) (hv : f q = some v) : w ≤ v := by
  obtain ⟨-, least⟩ := t.wf.next?_eq_some next
  by_cases mem : q ∈ qs
  · exact least q v ((t.get?_of_mem mem).trans hv)
  · obtain ⟨u, hu⟩ := Option.ne_none_iff_exists'.1 hq
    exact WakeUp.le_trans (least q u ((t.get?_of_not_mem mem).trans hu)) (later q u v hu hv)

theorem Refreshed.next?_eq_none_iff (t : Refreshed d f qs a)
    (top : ∀ q, a.first? = some q → q ∈ qs) :
    a.next? = none ↔ ∀ q, d.get? q ≠ none → f q = none := by
  constructor
  · intro next q hq
    have gone := t.wf.next?_eq_none_iff.1 next q
    by_cases mem : q ∈ qs
    · exact (t.get?_of_mem mem).symm.trans gone
    · exact absurd ((t.get?_of_not_mem mem).symm.trans gone) hq
  · intro none_wanted
    cases he : a.entries.min? with
    | none => rw [next?, he, Option.map_none]
    | some e =>
        have mem : e.1 ∈ qs := top e.1 (by rw [first?, he, Option.map_some])
        have entry := t.wf.get?_of_min? he
        rw [t.get?_of_mem mem, none_wanted e.1 (t.listed e.1 mem)] at entry
        cases entry

theorem Refreshed.next?_eq_some_iff (t : Refreshed d f qs a)
    (top : ∀ q, a.first? = some q → q ∈ qs)
    (later : ∀ q w v, d.get? q = some w → f q = some v → w ≤ v) {v : WakeUp} :
    a.next? = some v ↔ (∃ q, d.get? q ≠ none ∧ f q = some v) ∧
      ∀ q u, d.get? q ≠ none → f q = some u → v ≤ u := by
  have wanted : ∀ {w}, a.next? = some w → ∃ q, d.get? q ≠ none ∧ f q = some w := by
    intro w next
    obtain ⟨e, he, rfl⟩ := Option.map_eq_some_iff.1 next
    have mem : e.1 ∈ qs := top e.1 (by rw [first?, he, Option.map_some])
    exact ⟨e.1, t.listed e.1 mem, (t.get?_of_mem mem).symm.trans (t.wf.get?_of_min? he)⟩
  constructor
  · intro next
    exact ⟨wanted next, fun q u hq hu => t.le_of_next? later next hq hu⟩
  · rintro ⟨⟨q, hq, hv⟩, least⟩
    cases next : a.next? with
    | none =>
        rw [(t.next?_eq_none_iff top).1 next q hq] at hv
        cases hv
    | some w =>
        obtain ⟨j, hj, hw⟩ := wanted next
        exact congrArg some
          (WakeUp.le_antisymm (t.le_of_next? later next hq hv) (least j w hj hw))

end Least

/-! ### The rounds of the walk -/

namespace Pass

variable {r r' : Pass (σ × List Exchange)}

theorem record_refresh (r : Pass (σ × List Exchange)) (q : QueueId) :
    (r.refresh o.recorded q now).owner.2 =
      r.owner.2 ++ [⟨.want q now, (o.want q now r.owner.1).1⟩] := rfl

/-- Every question of the walk is in the record with the answer of the owner. -/
theorem record_settle (o : Owner σ) (now : Ticks) (n : Nat) (last : Option QueueId)
    (r : Pass (σ × List Exchange)) :
    ∃ rest, (settle o.recorded now n last r).owner.2 = r.owner.2 ++ rest ∧
      ∀ e ∈ rest, ∃ q s, e = ⟨.want q now, (o.want q now s).1⟩ := by
  refine settle_induct (P := fun p : Pass (σ × List Exchange) => ∃ rest,
    p.owner.2 = r.owner.2 ++ rest ∧ ∀ e ∈ rest, ∃ q s, e = ⟨.want q now, (o.want q now s).1⟩)
    (fun p q ⟨rest, record, wants⟩ _ => ?_) n last r ⟨[], by simp, by simp⟩
  refine ⟨rest ++ [⟨.want q now, (o.want q now p.owner.1).1⟩], ?_, fun e he => ?_⟩
  · rw [record_refresh, record, List.append_assoc]
  · rcases List.mem_append.1 he with he | he
    · exact wants e he
    · exact ⟨q, p.owner.1, List.mem_singleton.1 he⟩

/-- The answers that the walk gets are those of `f`. -/
def Fixed (o : Owner σ) (now : Ticks) (f : QueueId → Option WakeUp) (last : Option QueueId)
    (r : Pass (σ × List Exchange)) : Prop :=
  ∀ n rest, (settle o.recorded now n last r).owner.2 = r.owner.2 ++ rest →
    ∀ e ∈ rest, e.answer = f e.question.queue

theorem Fixed.answer (h : Fixed o now f last r) (top : r.agenda.first? = some q)
    (other : last ≠ some q) : (o.want q now r.owner.1).1 = f q :=
  h 1 [_] (by rw [settle_succ top other, settle, record_refresh]) _ List.mem_cons_self

theorem Fixed.refresh (h : Fixed o now f last r) (top : r.agenda.first? = some q)
    (other : last ≠ some q) : Fixed o now f (some q) (r.refresh o.recorded q now) := by
  intro n rest record e he
  refine h (n + 1) (⟨.want q now, (o.want q now r.owner.1).1⟩ :: rest) ?_ e (.tail _ he)
  rw [settle_succ top other, record, record_refresh, List.append_assoc]
  rfl

/-- The record shows how many rounds the walk takes. -/
theorem Settles.exists_record (t : Settles o.recorded now last r r') :
    ∃ rest, r'.owner.2 = r.owner.2 ++ rest ∧
      ∀ n, rest.length ≤ n → settle o.recorded now n last r = r' := by
  induction t with
  | stop stop => exact ⟨[], by simp, fun n _ => settle_of_stop stop n⟩
  | @refresh last r r' q top other _ ih =>
      obtain ⟨rest, record, rounds⟩ := ih
      refine ⟨⟨.want q now, (o.want q now r.owner.1).1⟩ :: rest, ?_, fun n hn => ?_⟩
      · rw [record, record_refresh, List.append_assoc]
        rfl
      · obtain ⟨m, rfl⟩ : ∃ m, n = m + 1 := ⟨n - 1, by rw [List.length_cons] at hn; omega⟩
        rw [settle_succ top other, rounds m (by simpa using hn)]

/-- With fixed answers the walk ends, after one more round at most than there are queues with an
entry that have not been refreshed.  The queue on top has been refreshed then. -/
theorem exists_settles (h : Fixed o now f last r) (t : Refreshed d f qs r.agenda)
    (latest : ∀ q, last = some q → q ∈ qs) (left : List QueueId)
    (covers : ∀ q, r.agenda.get? q ≠ none → q ∉ qs → q ∈ left) :
    ∃ r' qs', Settles o.recorded now last r r' ∧
      r'.owner.2.length ≤ r.owner.2.length + left.length + 1 ∧
      Refreshed d f qs' r'.agenda ∧ ∀ q, r'.agenda.first? = some q → q ∈ qs' := by
  -- on the number of queues that have not been refreshed
  induction hn : left.length using Nat.strongRecOn generalizing r last qs left with
  | _ n ih =>
    by_cases stop : ∀ q, r.agenda.first? = some q → last = some q
    · exact ⟨r, qs, .stop stop, by omega, t, fun q hq => latest q (stop q hq)⟩
    push Not at stop
    obtain ⟨q, top, other⟩ := stop
    have answer := h.answer top other
    have asked : (r.refresh o.recorded q now).owner.2.length = r.owner.2.length + 1 := by
      rw [record_refresh, List.length_append, List.length_singleton]
    have t' : Refreshed d f (q :: qs) (r.refresh o.recorded q now).agenda :=
      t.refresh (o := o.recorded) top answer
    by_cases hq : q ∈ qs
    · -- it has its answer already, so it stays on top and this is the last round
      have again : (r.refresh o.recorded q now).agenda.first? = some q :=
        t.first?_refresh (o := o.recorded) top hq answer
      have stop : ∀ j, (r.refresh o.recorded q now).agenda.first? = some j → some q = some j :=
        fun j hj => again.symm.trans hj
      refine ⟨_, _, .refresh top other (.stop stop), by omega, t', fun j hj => ?_⟩
      cases stop j hj
      exact List.mem_cons_self
    · have mem : q ∈ left := by
        obtain ⟨w, hw⟩ := t.wf.get?_of_first? top
        exact covers q (by simp [hw]) hq
      have fewer : (left.erase q).length + 1 = left.length := by
        have pos := List.length_pos_of_mem mem
        rw [List.length_erase_of_mem mem]
        omega
      have covers' : ∀ j, (r.refresh o.recorded q now).agenda.get? j ≠ none → j ∉ q :: qs →
          j ∈ left.erase q := by
        intro j hj fresh
        rw [t'.get?_of_not_mem fresh] at hj
        rw [List.mem_cons, not_or] at fresh
        rw [← t.get?_of_not_mem fresh.2] at hj
        exact (List.mem_erase_of_ne fresh.1).2 (covers j hj fresh.2)
      obtain ⟨r', qs', ends, bound, done, topmost⟩ := ih _ (by omega) (h.refresh top other) t'
        (fun j hj => by cases hj; exact List.mem_cons_self) (left.erase q) covers' rfl
      exact ⟨r', qs', .refresh top other ends, by omega, done, topmost⟩

theorem fixed_of_constant (h : ∀ q s, (o.want q now s).1 = f q) (last : Option QueueId)
    (r : Pass (σ × List Exchange)) : Fixed o now f last r := by
  intro n rest record e he
  obtain ⟨rest', record', wants⟩ := record_settle o now n last r
  obtain rfl : rest = rest' := List.append_cancel_left (record.symm.trans record')
  obtain ⟨q, s, rfl⟩ := wants e he
  exact h q s

end Pass

/-- A promotion pass that has woken a queue, with an owner whose answers are then those of a fixed
function.  It ends by itself after one more question at most than there are entries when the loop
that wakes queues has ended, and leaves no entry or, on top, one that is what its queue wants.  If
no queue wants to be woken earlier than its entry says, the earliest wake-up is the least of all
that queues with an entry want, whether they were asked or not. -/
theorem promote_settles (reachable : Reachable a) (o : Owner σ) (now : Ticks) (stamp : Stamp)
    (s : σ) (f : QueueId → Option WakeUp) :
    let start : Pass (σ × List Exchange) := { agenda := a, owner := (s, []) }
    let d := (Pass.drain o.recorded now stamp a.size start).enterDeferred now
    d.woken ≠ 0 → Pass.Fixed o now f none d →
      ∃ p rest, (∃ ds, a.Promotes o.recorded now stamp (s, []) ds p) ∧
        (∀ rounds, d.agenda.size + 1 ≤ rounds →
          a.promote o.recorded now stamp rounds (s, []) = p ∧
            a.promote o now stamp rounds s = p.forget) ∧
        p.owner.2 = d.owner.2 ++ rest ∧ rest.length ≤ d.agenda.size + 1 ∧
        (∀ e ∈ rest, ∃ q, e = ⟨.want q now, f q⟩) ∧
        (∀ q, p.agenda.first? = some q → p.agenda.get? q = f q) ∧
        ((∀ q w v, d.agenda.get? q = some w → f q = some v → w ≤ v) →
          (p.agenda.next? = none ↔ ∀ q, d.agenda.get? q ≠ none → f q = none) ∧
          ∀ v, p.agenda.next? = some v ↔ (∃ q, d.agenda.get? q ≠ none ∧ f q = some v) ∧
            ∀ q u, d.agenda.get? q ≠ none → f q = some u → v ≤ u) := by
  intro start d woken fixed
  have h : a.WF := reachable.wf
  obtain ⟨ds, drains⟩ := Pass.exists_drains_start h o.recorded now stamp (s, [])
  have wf : d.agenda.WF := Pass.enterDeferred_induct (P := fun p => p.agenda.WF)
    (fun p q w hp => hp.set q now (some w)) _ (drains.wf h)
  have unwoken : (Pass.drain o.recorded now stamp a.size start).woken ≠ 0 :=
    Pass.woken_enterDeferred _ now ▸ woken
  obtain ⟨left, length, listed⟩ := wf.exists_queues
  obtain ⟨p, qs, ends, bound, done, top⟩ := Pass.exists_settles fixed (refreshed_nil wf f)
    (fun q hq => by cases hq) left fun q hq _ => listed q hq
  obtain ⟨rest, record, rounds⟩ := ends.exists_record
  rw [length, record, List.length_append] at bound
  have promote : ∀ n, rest.length ≤ n → a.promote o.recorded now stamp n (s, []) = p := by
    intro n hn
    rw [promote_eq, if_neg unwoken]
    exact rounds n hn
  refine ⟨p, rest, ⟨ds, _, drains, ?_⟩, fun n hn => ?_, record, by omega, fun e he => ?_,
    fun q hq => done.get?_of_mem (top q hq), fun later => ?_⟩
  · rw [if_neg unwoken]
    exact ends
  · have e := promote n (by omega)
    exact ⟨e, (Pass.forget_promote a o now stamp n s).symm.trans (congrArg Pass.forget e)⟩
  · obtain ⟨rest', record', wants⟩ := Pass.record_settle o now rest.length none d
    have ended : Pass.settle o.recorded now rest.length none d = p := rounds _ (Nat.le_refl _)
    rw [ended, record] at record'
    obtain rfl : rest = rest' := List.append_cancel_left record'
    obtain ⟨q, s, rfl⟩ := wants e he
    exact ⟨q, congrArg _ (fixed rest.length rest (by rw [ended, record]) _ he)⟩
  · exact ⟨done.next?_eq_none_iff top, fun v => done.next?_eq_some_iff top later⟩

/-- Of four queues one is due, and two others are put off.  The second is asked and the fourth is
not, and still the earliest wake-up is that of the third. -/
theorem promote_settles_put_off :
    let w (n : Nat) : WakeUp := { time := .ofMillis n }
    let f : QueueId → Option WakeUp := fun q =>
      if q = ⟨2, 1⟩ then some (w 50) else if q = ⟨3, 1⟩ then some (w 30)
      else if q = ⟨4, 1⟩ then some (w 60) else none
    let o : Owner Unit :=
      { wake := fun _ _ _ s => (none, s), want := fun q _ s => (f q, s),
        trim := fun _ _ s => (false, s) }
    let a : Agenda := [1, 2, 3, 4].foldl (fun a n => (a.set ⟨n, 1⟩ .zero (some (w (10 * n)))).2)
      { waking := true }
    let start : Pass (Unit × List Exchange) := { agenda := a, owner := ((), []) }
    let d := (Pass.drain o.recorded (.ofMillis 10) ⟨1⟩ a.size start).enterDeferred (.ofMillis 10)
    let p := a.promote o.recorded (.ofMillis 10) ⟨1⟩ 4 ((), [])
    Reachable a ∧ d.woken = 1 ∧ d.agenda.size = 3 ∧ Pass.Fixed o (.ofMillis 10) f none d ∧
      p.owner.2.length = d.owner.2.length + 2 ∧ p.agenda.get? ⟨4, 1⟩ = some (w 40) ∧
      p.agenda.next? = some (w 30) := by
  intro w f o a start d p
  have reachable : Reachable a :=
    .set (.set (.set (.set (.start true) _ _ _) _ _ _) _ _ _) _ _ _
  have woken : d.woken = 1 := by decide +kernel
  have size : d.agenda.size = 3 := by decide +kernel
  have fixed : Pass.Fixed o (.ofMillis 10) f none d :=
    Pass.fixed_of_constant (fun q s => rfl) none d
  obtain ⟨p', rest, -, ends, -, -, -, -, least⟩ := promote_settles reachable o (.ofMillis 10) ⟨1⟩ ()
    f (by rw [woken]; decide) fixed
  obtain rfl : p = p' := (ends 4 (Nat.le_of_eq (congrArg (· + 1) size))).1
  have wanted : ∀ q v, f q = some v →
      q = ⟨2, 1⟩ ∧ v = w 50 ∨ q = ⟨3, 1⟩ ∧ v = w 30 ∨ q = ⟨4, 1⟩ ∧ v = w 60 := by
    intro q v hv
    simp only [f] at hv
    split_ifs at hv with h₂ h₃ h₄
    · exact Or.inl ⟨h₂, (Option.some.inj hv).symm⟩
    · exact Or.inr (Or.inl ⟨h₃, (Option.some.inj hv).symm⟩)
    · exact Or.inr (Or.inr ⟨h₄, (Option.some.inj hv).symm⟩)
  have later : ∀ q u v, d.agenda.get? q = some u → f q = some v → u ≤ v := by
    have entries : d.agenda.get? ⟨2, 1⟩ = some (w 20) ∧ d.agenda.get? ⟨3, 1⟩ = some (w 30) ∧
        d.agenda.get? ⟨4, 1⟩ = some (w 40) := by decide +kernel
    intro q u v hu hv
    rcases wanted q v hv with ⟨rfl, rfl⟩ | ⟨rfl, rfl⟩ | ⟨rfl, rfl⟩
    · obtain rfl := Option.some.inj (entries.1.symm.trans hu)
      decide +kernel
    · obtain rfl := Option.some.inj (entries.2.1.symm.trans hu)
      decide +kernel
    · obtain rfl := Option.some.inj (entries.2.2.symm.trans hu)
      decide +kernel
  refine ⟨reachable, woken, size, fixed, by decide +kernel, by decide +kernel, ?_⟩
  refine ((least later).2 (w 30)).2 ⟨⟨⟨3, 1⟩, by decide +kernel, rfl⟩, fun q u _ hu => ?_⟩
  rcases wanted q u hu with ⟨-, rfl⟩ | ⟨-, rfl⟩ | ⟨-, rfl⟩ <;> decide +kernel

end Dispatch.Agenda
