import Dispatch.Proofs.Wake.Agenda
import Dispatch.Proofs.Wake.Pass
import Mathlib.Data.List.Nodup

/-!
# The loops of a promotion pass

`Drains` is the loop that wakes queues, and `Settles` the one that asks the queue on top again,
without a bound on their steps: they say with what a loop ends, if it ends.  The first always does
(`exists_drains_start`), whatever the owner answers, for no queue is due after it has been woken.
It wakes the queues that are due at the start, each once and in the order of their entries
(`Drains.mem_iff`, `Drains.nodup`, `Drains.pairwise`), so the owner ends in the state to which
waking them one after the other leads (`Drains.owner_eq`).  The second may go on for ever, but if it
ends, enough rounds lead to its end (`Promotes.exists_rounds`).
-/

namespace Dispatch

theorem WakeUp.isReady_of_le {v w : WakeUp} {now : Ticks} (h : v ≤ w) (hw : w.isReady now = true) :
    v.isReady now = true :=
  decide_eq_true (Nat.le_trans (WakeUp.earliest_le h) (of_decide_eq_true hw))

namespace Agenda

variable {σ : Type} {o : Owner σ} {now : Ticks} {stamp : Stamp} {a : Agenda} {q : QueueId}
  {w : WakeUp}

/-- If the first wake-up is not due, none is. -/
theorem WF.not_isReady (h : a.WF)
    (top : ∀ q w, a.entries.min? = some (q, w) → w.isReady now = false) {v : WakeUp}
    (hv : a.get? q = some v) : v.isReady now = false := by
  rw [← Bool.not_eq_true]
  intro hr
  cases hm : a.entries.min? with
  | none =>
      have he := h.next?_eq_none_iff.1 (by rw [next?, hm]; rfl) q
      rw [hv] at he
      cases he
  | some e =>
      have first := KeyedHeap.WF.min?_le h hm hv
      have := top e.1 e.2 hm
      rw [WakeUp.isReady_of_le first hr] at this
      cases this

namespace Pass

variable {p p' : Pass σ} {ds : List (QueueId × WakeUp)}

/-! ### Waking one queue -/

/-- The wake-up that is entered after a queue was woken: what it wants, unless that is due. -/
def entered (now : Ticks) (answer : Option WakeUp) : Option WakeUp :=
  answer.filter fun v => !v.isReady now

theorem not_isReady_of_entered {answer : Option WakeUp} (h : entered now answer = some w) :
    w.isReady now = false := by
  have := (Option.filter_eq_some_iff.1 h).2
  simpa using this

theorem agenda_wake (p : Pass σ) (o : Owner σ) (q : QueueId) (now : Ticks) (stamp : Stamp) :
    (p.wake o q now stamp).agenda =
      (p.agenda.set q now (entered now (o.wake q now stamp p.owner).1)).2 := by
  unfold wake entered
  dsimp only
  cases (o.wake q now stamp p.owner).1 with
  | none => rfl
  | some v => cases h : v.isReady now <;> simp [h, Option.filter, Pass.set]

theorem deferred_wake (p : Pass σ) (o : Owner σ) (q : QueueId) (now : Ticks) (stamp : Stamp) :
    (p.wake o q now stamp).deferred = p.deferred ++
      ((o.wake q now stamp p.owner).1.filter (·.isReady now)).toList.map fun v => (q, v) := by
  unfold wake
  dsimp only
  cases (o.wake q now stamp p.owner).1 with
  | none => simp [Pass.set]
  | some v => cases h : v.isReady now <;> simp [h, Option.filter, Pass.set]

theorem woken_wake (p : Pass σ) (o : Owner σ) (q : QueueId) (now : Ticks) (stamp : Stamp) :
    (p.wake o q now stamp).woken = p.woken + 1 := by
  unfold wake
  dsimp only
  split
  · split <;> rfl
  · rfl

theorem wf_wake (h : p.agenda.WF) (o : Owner σ) (q : QueueId) (now : Ticks) (stamp : Stamp) :
    (p.wake o q now stamp).agenda.WF := by
  rw [agenda_wake]
  exact h.set q now _

theorem get?_wake (h : p.agenda.WF) (o : Owner σ) (q : QueueId) (now : Ticks) (stamp : Stamp)
    (j : QueueId) : (p.wake o q now stamp).agenda.get? j =
      if j = q then entered now (o.wake q now stamp p.owner).1 else p.agenda.get? j := by
  rw [agenda_wake]
  exact h.get?_set q now _ j

/-- Waking a queue settles its own entry and touches no other. -/
theorem isReady_wake_iff (h : p.agenda.WF) (o : Owner σ) (q : QueueId) (now : Ticks)
    (stamp : Stamp) (j : QueueId) (v : WakeUp) :
    (p.wake o q now stamp).agenda.get? j = some v ∧ v.isReady now = true ↔
      j ≠ q ∧ p.agenda.get? j = some v ∧ v.isReady now = true := by
  rw [get?_wake h]
  by_cases hj : j = q
  · rw [if_pos hj]
    constructor
    · rintro ⟨hv, hr⟩
      rw [not_isReady_of_entered hv] at hr
      cases hr
    · exact fun h => absurd hj h.1
  · rw [if_neg hj]
    exact ⟨fun h => ⟨hj, h⟩, And.right⟩

/-! ### The loop that wakes queues -/

/-- The loop wakes the queues of the given entries one after the other and then ends, because no
queue on top is due. -/
inductive Drains (o : Owner σ) (now : Ticks) (stamp : Stamp) :
    Pass σ → List (QueueId × WakeUp) → Pass σ → Prop
  | stop {p : Pass σ} (top : ∀ q w, p.agenda.entries.min? = some (q, w) → w.isReady now = false) :
      Drains o now stamp p [] p
  | wake {p p' : Pass σ} {q : QueueId} {w : WakeUp} {ds : List (QueueId × WakeUp)}
      (top : p.agenda.entries.min? = some (q, w)) (due : w.isReady now = true)
      (rest : Drains o now stamp (p.wake o q now stamp) ds p') :
      Drains o now stamp p ((q, w) :: ds) p'

/-- As many steps are enough as queues can be due. -/
theorem exists_drains (o : Owner σ) (stamp : Stamp) {n : Nat} (h : p.agenda.WF) (qs : List QueueId)
    (covers : ∀ q w, p.agenda.get? q = some w → w.isReady now = true → q ∈ qs)
    (enough : qs.length ≤ n) : ∃ ds, Drains o now stamp p ds (drain o now stamp n p) := by
  induction n generalizing p qs with
  | zero =>
      obtain rfl := List.length_eq_zero_iff.1 (Nat.le_zero.1 enough)
      refine ⟨[], .stop fun q w hm => ?_⟩
      rw [← Bool.not_eq_true]
      intro hr
      exact absurd (covers q w (h.get?_of_min? hm) hr) List.not_mem_nil
  | succ n ih =>
      unfold drain
      rcases hm : p.agenda.entries.min? with _ | ⟨q, w⟩
      · refine ⟨[], .stop fun q w hm' => ?_⟩
        rw [hm] at hm'
        cases hm'
      · dsimp only
        split_ifs with hr
        · have hq : q ∈ qs := covers q w (h.get?_of_min? hm) hr
          have enough' : (qs.erase q).length ≤ n := by
            rw [List.length_erase_of_mem hq]
            omega
          obtain ⟨ds, d⟩ := ih (p := p.wake o q now stamp) (wf_wake h o q now stamp) (qs.erase q)
            (fun j v hv hr => by
              obtain ⟨hj, hv, hr⟩ := (isReady_wake_iff h o q now stamp j v).1 ⟨hv, hr⟩
              exact (List.mem_erase_of_ne hj).2 (covers j v hv hr)) enough'
          exact ⟨_, .wake hm hr d⟩
        · refine ⟨[], .stop fun j v hm' => ?_⟩
          rw [hm] at hm'
          cases hm'
          simpa using hr

/-- From the start of a pass the loop ends, whatever the owner answers. -/
theorem exists_drains_start (h : a.WF) (o : Owner σ) (now : Ticks) (stamp : Stamp) (s : σ) :
    ∃ ds, Drains o now stamp { agenda := a, owner := s } ds
      (drain o now stamp a.size { agenda := a, owner := s }) := by
  obtain ⟨qs, length, listed⟩ := h.exists_queues
  exact exists_drains o stamp h qs (fun q w hw _ => listed q (by simp [hw])) (Nat.le_of_eq length)

theorem Drains.wf (d : Drains o now stamp p ds p') (h : p.agenda.WF) : p'.agenda.WF := by
  induction d with
  | stop => exact h
  | wake _ _ _ ih => exact ih (wf_wake h _ _ _ _)

/-- Exactly the entries are woken that are due at the start. -/
theorem Drains.mem_iff (d : Drains o now stamp p ds p') (h : p.agenda.WF) :
    (q, w) ∈ ds ↔ p.agenda.get? q = some w ∧ w.isReady now = true := by
  induction d with
  | stop top =>
      refine ⟨fun h => absurd h List.not_mem_nil, fun ⟨hw, hr⟩ => ?_⟩
      rw [h.not_isReady top hw] at hr
      cases hr
  | @wake p p' j v ds top due rest ih =>
      have entry : p.agenda.get? j = some v := h.get?_of_min? top
      rw [List.mem_cons, ih (wf_wake h _ _ _ _), isReady_wake_iff h]
      by_cases hq : q = j
      · subst hq
        constructor
        · rintro (e | ⟨hq, -⟩)
          · cases e
            exact ⟨entry, due⟩
          · exact absurd rfl hq
        · rintro ⟨hw, -⟩
          rw [entry] at hw
          cases hw
          exact Or.inl rfl
      · simp [hq]

theorem Drains.nodup (d : Drains o now stamp p ds p') (h : p.agenda.WF) :
    (ds.map Prod.fst).Nodup := by
  induction d with
  | stop => exact List.nodup_nil
  | @wake p p' j v ds top due rest ih =>
      have h' := wf_wake h o j now stamp
      refine List.nodup_cons.2 ⟨fun hj => ?_, ih h'⟩
      obtain ⟨⟨q, w⟩, hm, rfl⟩ := List.mem_map.1 hj
      exact ((isReady_wake_iff h o q now stamp q w).1 ((rest.mem_iff h').1 hm)).1 rfl

/-- The entries are woken in their order. -/
theorem Drains.pairwise (d : Drains o now stamp p ds p') (h : p.agenda.WF) :
    ds.Pairwise fun e f => e.2 ≤ f.2 := by
  induction d with
  | stop => exact List.Pairwise.nil
  | @wake p p' j v ds top due rest ih =>
      have h' := wf_wake h o j now stamp
      refine List.pairwise_cons.2 ⟨fun ⟨q, w⟩ hm => ?_, ih h'⟩
      obtain ⟨-, hw, -⟩ := (isReady_wake_iff h o j now stamp q w).1 ((rest.mem_iff h').1 hm)
      exact KeyedHeap.WF.min?_le h top hw

theorem Drains.woken_eq (d : Drains o now stamp p ds p') : p'.woken = p.woken + ds.length := by
  induction d with
  | stop => rfl
  | wake _ _ _ ih =>
      rw [ih, woken_wake, List.length_cons]
      omega

/-- The owner is left as waking the queues one after the other leaves it. -/
theorem Drains.owner_eq (d : Drains o now stamp p ds p') :
    p'.owner = ds.foldl (fun s e => (o.wake e.1 now stamp s).2) p.owner := by
  induction d with
  | stop => rfl
  | wake _ _ _ ih => rw [ih, owner_wake, List.foldl_cons]

/-- There is one way only in which the loop goes. -/
theorem Drains.unique {p'' : Pass σ} {ds' : List (QueueId × WakeUp)}
    (d : Drains o now stamp p ds p') (e : Drains o now stamp p ds' p'') : ds = ds' ∧ p' = p'' := by
  induction d generalizing ds' with
  | stop top =>
      cases e with
      | stop => exact ⟨rfl, rfl⟩
      | wake top' due =>
          rw [top _ _ top'] at due
          cases due
  | wake top due _ ih =>
      cases e with
      | stop top' =>
          rw [top' _ _ top] at due
          cases due
      | wake top' _ rest =>
          rw [top] at top'
          cases top'
          obtain ⟨rfl, rfl⟩ := ih rest
          exact ⟨rfl, rfl⟩

theorem Drains.eq_of_nil (d : Drains o now stamp p [] p') : p' = p := by
  cases d
  rfl

theorem woken_enterDeferred (p : Pass σ) (now : Ticks) : (p.enterDeferred now).woken = p.woken :=
  enterDeferred_induct (P := fun p' => p'.woken = p.woken) (fun _ _ _ h => h) p rfl

/-! ### The loop that asks again -/

/-- The loop refreshes the queue on top until it is the one refreshed last, and then ends. -/
inductive Settles (o : Owner σ) (now : Ticks) : Option QueueId → Pass σ → Pass σ → Prop
  | stop {last : Option QueueId} {p : Pass σ}
      (top : ∀ q, p.agenda.first? = some q → last = some q) : Settles o now last p p
  | refresh {last : Option QueueId} {p p' : Pass σ} {q : QueueId}
      (top : p.agenda.first? = some q) (other : last ≠ some q)
      (rest : Settles o now (some q) (p.refresh o q now) p') : Settles o now last p p'

theorem settle_of_stop {last : Option QueueId}
    (stop : ∀ q, p.agenda.first? = some q → last = some q) (n : Nat) :
    settle o now n last p = p := by
  cases n with
  | zero => rfl
  | succ n =>
      unfold settle
      cases hf : p.agenda.first? with
      | none => rfl
      | some q => exact if_pos (stop q hf)

theorem settle_succ {last : Option QueueId} (top : p.agenda.first? = some q)
    (other : last ≠ some q) (n : Nat) :
    settle o now (n + 1) last p = settle o now n (some q) (p.refresh o q now) := by
  rw [settle, top]
  exact if_neg other

/-- If the loop ends, it does so within some number of rounds. -/
theorem Settles.exists_rounds {last : Option QueueId} (h : Settles o now last p p') :
    ∃ n, ∀ m, n ≤ m → settle o now m last p = p' := by
  induction h with
  | stop stop => exact ⟨0, fun m _ => settle_of_stop stop m⟩
  | refresh top other _ ih =>
      obtain ⟨n, hn⟩ := ih
      refine ⟨n + 1, fun m hm => ?_⟩
      obtain ⟨m, rfl⟩ : ∃ i, m = i + 1 := ⟨m - 1, by omega⟩
      rw [settle_succ top other, hn m (by omega)]

/-- If the queue on top stays there when it is refreshed, two rounds are enough. -/
theorem settles_of_stays {n : Nat} (hn : p.agenda.first? ≠ none → 2 ≤ n)
    (stays : ∀ q, p.agenda.first? = some q → (p.refresh o q now).agenda.first? = some q) :
    Settles o now none p (settle o now n none p) := by
  cases hf : p.agenda.first? with
  | none =>
      have e : settle o now n none p = p := by
        cases n with
        | zero => rfl
        | succ n => simp only [settle, hf]
      rw [e]
      exact .stop fun q h => by rw [hf] at h; cases h
  | some q =>
      obtain ⟨n, rfl⟩ : ∃ m, n = m + 2 := ⟨n - 2, by have := hn (by simp [hf]); omega⟩
      have e : settle o now (n + 2) none p = p.refresh o q now := by
        simp only [settle, hf, stays q hf, reduceCtorEq, if_false, if_true]
      rw [e]
      refine .refresh hf (by simp) (.stop fun j hj => ?_)
      rw [stays q hf] at hj
      exact hj

end Pass

variable {ds : List (QueueId × WakeUp)} {s : σ}

/-- A promotion pass asks again only if it has woken a queue. -/
theorem promote_eq (a : Agenda) (o : Owner σ) (now : Ticks) (stamp : Stamp) (rounds : Nat) (s : σ) :
    let d := Pass.drain o now stamp a.size { agenda := a, owner := s }
    a.promote o now stamp rounds s =
      if d.woken = 0 then d.enterDeferred now
      else Pass.settle o now rounds none (d.enterDeferred now) := by
  intro d
  rw [← Pass.woken_enterDeferred d now]
  rfl

/-- A promotion pass without a bound on its steps, which wakes the queues of the given entries. -/
def Promotes (a : Agenda) (o : Owner σ) (now : Ticks) (stamp : Stamp) (s : σ)
    (ds : List (QueueId × WakeUp)) (p : Pass σ) : Prop :=
  ∃ d, Pass.Drains o now stamp { agenda := a, owner := s } ds d ∧
    if d.woken = 0 then p = d.enterDeferred now else Pass.Settles o now none (d.enterDeferred now) p

/-- A pass that ends by itself is the one that is bounded by any large enough number of rounds. -/
theorem Promotes.exists_rounds {p : Pass σ} (h : a.WF) (e : a.Promotes o now stamp s ds p) :
    ∃ n, ∀ rounds, n ≤ rounds → a.promote o now stamp rounds s = p := by
  obtain ⟨d, drains, ends⟩ := e
  obtain ⟨ds', drains'⟩ := Pass.exists_drains_start h o now stamp s
  obtain ⟨-, rfl⟩ := drains.unique drains'
  split_ifs at ends with h₀
  · exact ⟨0, fun rounds _ => by rw [promote_eq, if_pos h₀, ends]⟩
  · obtain ⟨n, hn⟩ := ends.exists_rounds
    exact ⟨n, fun rounds hr => by rw [promote_eq, if_neg h₀, hn rounds hr]⟩

end Agenda

end Dispatch
