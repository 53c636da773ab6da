import Dispatch.Proofs.Scheduler.Actions
import Dispatch.Proofs.Scheduler.Promotion
import Mathlib.Data.Nat.Find

/-!
# Which task is taken first

A task becomes ready when it is posted, or when a promotion moves it, and then gets the stamp that
is issued in that moment (`BecameReady.issued`).  So the order of the stamps is that of the moments
(`BecameReady.le`), each half of a queue is sorted by it (`Reachable.stamped`), and the selector,
which compares the fronts alone, finds the first of all ready tasks at a level
(`take_first_ready`).
-/

namespace Dispatch

/-- Ready tasks stand in the order of their stamps, all of which have been issued. -/
structure Queue.Stamped (tq : Queue) (next : Nat) : Prop where
  ordered : ∀ h, (tq.ready h).Pairwise fun t u => t.stamp ≤ u.stamp
  past : ∀ h, ∀ t ∈ tq.ready h, t.stamp.raw < next

/-- The half that is due has the oldest front of all at its level, or of the immediate ones if there
are any and the limit of delayed tasks in a row is reached. -/
theorem Selector.Due.least {s : Selector} {l : Level} {pick : Pick} (d : s.Due l .bothHalves pick) :
    ∃ f, s.IsFront l pick.half pick.queue f ∧
      (s.settings.maxStreak ≤ s.streak ∧ (∃ q i, s.IsFront l .immediate q i) →
        pick.half = .immediate ∧ ∀ q i, s.IsFront l .immediate q i → f ≤ i) ∧
      (¬ (s.settings.maxStreak ≤ s.streak ∧ ∃ q i, s.IsFront l .immediate q i) →
        ∀ q h i, s.IsFront l h q i → f ≤ i) := by
  cases d with
  | @starved q i hi hs =>
      exact ⟨i, hi.1, fun _ => ⟨rfl, hi.2⟩, fun h => absurd ⟨hs, q, i, hi.1⟩ h⟩
  | @immediate q i hi hd =>
      refine ⟨i, hi.1, fun _ => ⟨rfl, hi.2⟩, fun _ j h f hf => ?_⟩
      cases h with
      | immediate => exact hi.2 j f hf
      | delayed => exact hd j f hf
  | @delayed q d hd hi =>
      refine ⟨d, hd.1, fun ⟨hs, j, i, hf⟩ => ?_, fun _ j h f hf => ?_⟩
      · exact absurd hs (Nat.not_le.2 (hi j i hf).2)
      · cases h with
        | immediate => exact Nat.le_of_lt (hi j f hf).1
        | delayed => exact hd.2 j f hf

namespace Scheduler

variable {settings : Settings} {k k' : Scheduler} {ops : List Operation} {op : Operation}
  {q j : QueueId} {tq tq' : Queue} {h : Half} {t u : ReadyTask} {n m : Nat}
  {isCanceled : Ticket → Bool}

/-! ### New ready tasks -/

theorem ready_withReady (tq : Queue) (g h : Half) (ts : List ReadyTask) :
    (tq.withReady g ts).ready h = if h = g then ts else tq.ready h := by
  cases g <;> cases h <;> rfl

/-- The operation makes the task ready in the given half: it posts the task to the queue, or it is a
promotion. -/
def Operation.Readies (op : Operation) (q : QueueId) (t : ReadyTask) : Half → Prop
  | .immediate => op = .post q t.ticket
  | .delayed => ∃ now isCanceled, op = .promote now isCanceled

/-- An operation keeps some of the ready tasks in their order and adds new ones behind them, all
under the stamp that it issues. -/
theorem Treats.ready (e : Treats k k' q op tq tq') (h : Half) :
    ∃ kept new, tq'.ready h = kept ++ new ∧ kept.Sublist (tq.ready h) ∧
      ∀ x ∈ new, x.stamp = k.stamps.issue.1 ∧ k'.stamps = k.stamps.issue.2 ∧ op.Readies q x h := by
  have none_new (sub : (tq'.ready h).Sublist (tq.ready h)) : ∃ kept new,
      tq'.ready h = kept ++ new ∧ kept.Sublist (tq.ready h) ∧ ∀ x ∈ new,
        x.stamp = k.stamps.issue.1 ∧ k'.stamps = k.stamps.issue.2 ∧ op.Readies q x h :=
    ⟨tq'.ready h, [], (List.append_nil _).symm, sub, fun x hx => absurd hx List.not_mem_nil⟩
  cases e with
  | leave => exact none_new (.refl _)
  | setLevel => exact none_new (by cases h <;> exact .refl _)
  | setEnabled => exact none_new (by cases h <;> exact .refl _)
  | post t _ issued =>
      cases h with
      | immediate =>
          refine ⟨tq.immediate, [⟨k.stamps.issue.1, t⟩], rfl, .refl _, fun x hx => ?_⟩
          rw [List.mem_singleton.1 hx]
          exact ⟨rfl, issued, rfl⟩
      | delayed => exact none_new (.refl _)
  | postDelayed => exact none_new (by cases h <;> exact .refl _)
  | promote now isCanceled _ issued =>
      cases h with
      | immediate => exact none_new (.refl _)
      | delayed =>
          refine ⟨tq.delayed, _, rfl, .refl _, fun x hx => ?_⟩
          obtain ⟨t, -, rfl⟩ := List.mem_map.1 hx
          exact ⟨rfl, issued, now, isCanceled, rfl⟩
  | sweep => exact none_new (by cases h <;> exact .refl _)
  | @take _ _ g t rest front =>
      refine none_new ?_
      rw [ready_withReady]
      split_ifs with hg
      · rw [hg, front]
        exact List.sublist_cons_self t rest
      · exact .refl _

theorem Treats.stamped (e : Treats k k' q op tq tq') (s : tq.Stamped k.stamps.next)
    (mono : k.stamps.next ≤ k'.stamps.next) : tq'.Stamped k'.stamps.next := by
  refine ⟨fun h => ?_, fun h x hx => ?_⟩ <;>
    obtain ⟨kept, new, split, sub, fresh⟩ := e.ready h
  · rw [split, List.pairwise_append]
    refine ⟨(s.ordered h).sublist sub, ?_, fun x hx y hy => ?_⟩
    · refine List.pairwise_of_forall_mem_list fun x hx y hy => ?_
      rw [(fresh x hx).1, (fresh y hy).1]
      exact Nat.le_refl _
    · rw [(fresh y hy).1]
      exact Nat.le_of_lt (s.past h x (sub.subset hx))
  · rw [split, List.mem_append] at hx
    rcases hx with hx | hx
    · exact Nat.lt_of_lt_of_le (s.past h x (sub.subset hx)) mono
    · obtain ⟨stamp, issued, -⟩ := fresh x hx
      rw [stamp, issued]
      exact Nat.lt_succ_self _

theorem Reachable.stamped (r : Reachable settings k) :
    ∀ q tq, k.queues.get? q = some tq → tq.Stamped k.stamps.next := by
  refine r.induct_perform (P := fun k => ∀ q tq, k.queues.get? q = some tq →
    tq.Stamped k.stamps.next) (fun q tq hq => ?_) fun k op r ih q tq' hq => ?_
  · rw [get?_ofSettings] at hq
    cases hq
  · rcases r.treats hq with ⟨name, waking, -, rfl⟩ | ⟨tq, htq, e⟩
    · refine ⟨fun h => ?_, fun h t ht => ?_⟩
      · cases h <;> exact List.Pairwise.nil
      · cases h <;> exact absurd ht List.not_mem_nil
    · exact e.stamped (ih q tq htq) (r.next_le_run [op])

/-- The task is ready in one half of a queue. -/
def ReadyIn (k : Scheduler) (q : QueueId) (h : Half) (t : ReadyTask) : Prop :=
  ∃ tq, k.queues.get? q = some tq ∧ t ∈ tq.ready h

theorem Reachable.readyIn_perform (r : Reachable settings k) (ready : (k.perform op).ReadyIn q h t)
    (before : ¬ k.ReadyIn q h t) : t.stamp = k.stamps.issue.1 ∧
      (k.perform op).stamps = k.stamps.issue.2 ∧ op.Readies q t h := by
  obtain ⟨tq', hq, ht⟩ := ready
  rcases r.treats hq with ⟨name, waking, -, rfl⟩ | ⟨tq, htq, e⟩
  · cases h <;> exact absurd ht List.not_mem_nil
  · obtain ⟨kept, new, split, sub, fresh⟩ := e.ready h
    rw [split, List.mem_append] at ht
    rcases ht with ht | ht
    · exact absurd ⟨tq, htq, sub.subset ht⟩ before
    · exact fresh t ht

/-! ### Moments -/

/-- The scheduler after the first `n` operations. -/
def after (settings : Settings) (ops : List Operation) (n : Nat) : Scheduler :=
  (ofSettings settings).run (ops.take n)

theorem reachable_after (settings : Settings) (ops : List Operation) (n : Nat) :
    Reachable settings (after settings ops n) :=
  Reachable.start.run (ops.take n)

theorem after_succ (settings : Settings) (ops : List Operation) (n : Nat) :
    after settings ops (n + 1) = match ops[n]? with
      | some op => (after settings ops n).perform op
      | none => after settings ops n := by
  unfold after
  rw [List.take_add_one, run_append]
  cases ops[n]? <;> rfl

theorem next_after_le (settings : Settings) (ops : List Operation) (le : m ≤ n) :
    (after settings ops m).stamps.next ≤ (after settings ops n).stamps.next := by
  have split : after settings ops n = (after settings ops m).run ((ops.take n).drop m) := by
    unfold after
    rw [← run_append]
    conv => lhs; rw [← List.take_append_drop m (ops.take n), List.take_take, Nat.min_eq_left le]
  rw [split]
  exact (reachable_after settings ops m).next_le_run _

/-- The task is ready after `n` operations, and was not after fewer. -/
def BecameReady (settings : Settings) (ops : List Operation) (q : QueueId) (h : Half)
    (t : ReadyTask) (n : Nat) : Prop :=
  (after settings ops n).ReadyIn q h t ∧ ∀ m < n, ¬ (after settings ops m).ReadyIn q h t

theorem exists_becameReady (ready : ((ofSettings settings).run ops).ReadyIn q h t) :
    ∃ n, BecameReady settings ops q h t n := by
  classical
  have once : ∃ n, (after settings ops n).ReadyIn q h t := by
    refine ⟨ops.length, ?_⟩
    unfold after
    rwa [List.take_length]
  exact ⟨Nat.find once, Nat.find_spec once, fun m hm => Nat.find_min once hm⟩

/-- The operation that makes a task ready posts or promotes it, and issues its stamp. -/
theorem BecameReady.issued (b : BecameReady settings ops q h t n) :
    ∃ m op, n = m + 1 ∧ ops[m]? = some op ∧ op.Readies q t h ∧
      t.stamp = (after settings ops m).stamps.issue.1 ∧
      (after settings ops n).stamps = (after settings ops m).stamps.issue.2 := by
  obtain ⟨ready, before⟩ := b
  cases n with
  | zero =>
      obtain ⟨tq, hq, -⟩ := ready
      rw [show after settings ops 0 = ofSettings settings from rfl, get?_ofSettings] at hq
      cases hq
  | succ m =>
      have fresh := before m (Nat.lt_succ_self m)
      rw [after_succ] at ready ⊢
      cases hop : ops[m]? with
      | none =>
          rw [hop] at ready
          exact absurd ready fresh
      | some op =>
          rw [hop] at ready
          obtain ⟨stamp, issued, readies⟩ :=
            (reachable_after settings ops m).readyIn_perform ready fresh
          exact ⟨m, op, rfl, hop, readies, stamp, issued⟩

/-- Of two tasks the one with the smaller stamp became ready first. -/
theorem BecameReady.le {g : Half} (b : BecameReady settings ops q h t n)
    (c : BecameReady settings ops j g u m) (le : t.stamp ≤ u.stamp) : n ≤ m := by
  obtain ⟨n, -, rfl, -, -, stamp, -⟩ := b.issued
  obtain ⟨m, -, rfl, -, -, stamp', issued'⟩ := c.issued
  by_contra hlt
  have later := next_after_le settings ops (show m + 1 ≤ n by omega)
  rw [issued'] at later
  rw [stamp, stamp'] at le
  exact absurd le (Nat.not_le.2 later)

/-- Immediate tasks become ready one by one. -/
theorem BecameReady.eq_of_immediate (b : BecameReady settings ops q .immediate t n)
    (c : BecameReady settings ops j .immediate u n) : q = j ∧ t = u := by
  obtain ⟨m, op, rfl, hop, readies, stamp, -⟩ := b.issued
  obtain ⟨m', op', e, hop', readies', stamp', -⟩ := c.issued
  obtain rfl : m = m' := Nat.succ.inj e
  rw [hop] at hop'
  cases hop'
  have posted : Operation.post q t.ticket = .post j u.ticket := readies.symm.trans readies'
  injection posted with hq ht
  obtain ⟨s, x⟩ := t
  obtain ⟨s', x'⟩ := u
  simp only at ht stamp stamp'
  rw [ht, stamp, stamp']
  exact ⟨hq, rfl⟩

/-! ### The task that is taken -/

/-- The task is ready in one half of an enabled queue at the level. -/
def ReadyAt (k : Scheduler) (l : Level) (q : QueueId) (h : Half) (t : ReadyTask) : Prop :=
  ∃ tq, k.queues.get? q = some tq ∧ tq.enabled = true ∧ tq.level = l ∧ t ∈ tq.ready h

/-- The selector knows the fronts of the enabled queues. -/
theorem Mirrored.isFront_iff (m : Mirrored k) {l : Level} {f : Stamp} :
    k.selector.IsFront l h q f ↔ ∃ tq, k.queues.get? q = some tq ∧ tq.enabled = true ∧
      tq.level = l ∧ (tq.ready h).head?.map (·.stamp) = some f := by
  have front : ∀ tq : Queue, tq.enrolment.fronts.get h = (tq.ready h).head?.map (·.stamp) := by
    cases h <;> exact fun tq => rfl
  unfold Selector.IsFront
  simp only [m.records, Option.map_eq_some_iff]
  constructor
  · rintro ⟨e, ⟨tq, hq, rfl⟩, he, hl, hf⟩
    exact ⟨tq, hq, he, hl, Option.map_eq_some_iff.1 (front tq ▸ hf)⟩
  · rintro ⟨tq, hq, he, hl, hf⟩
    exact ⟨_, ⟨tq, hq, rfl⟩, he, hl, (front tq).trans (Option.map_eq_some_iff.2 hf)⟩

/-- Whatever is selected belongs to an enabled queue and holds a task. -/
theorem Mirrored.of_select (m : Mirrored k) {scope : Scope} {pick : Pick}
    (hp : (k.selector.select scope).1 = some pick) : scope.Covers pick.half ∧
      ∃ tq, k.queues.get? pick.queue = some tq ∧ tq.enabled = true ∧ tq.ready pick.half ≠ [] := by
  rcases m.wf.select_cases scope with ⟨-, e⟩ | ⟨l, pick', s', e, v⟩
  · rw [e] at hp
    cases hp
  · rw [e] at hp
    obtain rfl : pick' = pick := Option.some.inj hp
    have front : scope.Covers pick'.half ∧ ∃ f, k.selector.IsFront l pick'.half pick'.queue f := by
      cases v.due with
      | immediateOnly hi => exact ⟨rfl, _, hi.1⟩
      | starved hi | immediate hi => exact ⟨trivial, _, hi.1⟩
      | delayed hd => exact ⟨trivial, _, hd.1⟩
    obtain ⟨covers, f, hf⟩ := front
    obtain ⟨tq, hq, enabled, -, ready⟩ := m.isFront_iff.1 hf
    refine ⟨covers, tq, hq, enabled, fun empty => ?_⟩
    rw [empty] at ready
    cases ready

/-- Nothing is selected exactly if no enabled queue has a task in the halves that are considered. -/
theorem Mirrored.select_eq_none_iff (m : Mirrored k) (scope : Scope) :
    (k.selector.select scope).1 = none ↔ ∀ q tq h, k.queues.get? q = some tq →
      tq.enabled = true → scope.Covers h → tq.ready h = [] := by
  constructor
  · intro none_selected q tq h hq enabled covers
    refine Queue.front_eq_none_iff.1 (Option.eq_none_iff_forall_ne_some.2 fun f hf => ?_)
    rcases m.wf.select_cases scope with ⟨idle, -⟩ | ⟨l, pick, s', e, -⟩
    · exact m.wf.nextLevel?_eq_none_iff.1 idle tq.level
        ⟨h, q, f, covers, m.isFront_iff.2 ⟨tq, hq, enabled, rfl, hf⟩⟩
    · rw [e] at none_selected
      cases none_selected
  · intro empty
    refine Option.eq_none_iff_forall_ne_some.2 fun pick hp => ?_
    obtain ⟨covers, tq, hq, enabled, ready⟩ := m.of_select hp
    exact ready (empty _ tq _ hq enabled covers)

/-- No ready task at a level became ready before all fronts there. -/
theorem Reachable.exists_isFront (r : Reachable settings k) {l : Level} (a : k.ReadyAt l q h t) :
    ∃ f, k.selector.IsFront l h q f ∧ f ≤ t.stamp := by
  obtain ⟨tq, hq, he, hl, ht⟩ := a
  have ordered := (r.stamped q tq hq).ordered h
  cases hr : tq.ready h with
  | nil =>
      rw [hr] at ht
      cases ht
  | cons x xs =>
      rw [hr] at ht ordered
      refine ⟨x.stamp, r.mirrored.isFront_iff.2 ⟨tq, hq, he, hl, by rw [hr]; rfl⟩, ?_⟩
      rcases List.mem_cons.1 ht with rfl | ht
      · exact Nat.le_refl _
      · exact (List.pairwise_cons.1 ordered).1 t ht

theorem Mirrored.eq_of_isFront (m : Mirrored k) {l : Level} {f : Stamp} {rest : List ReadyTask}
    (hq : k.queues.get? q = some tq) (front : tq.ready h = t :: rest)
    (a : k.selector.IsFront l h q f) : tq.enabled = true ∧ tq.level = l ∧ f = t.stamp := by
  obtain ⟨tq', hq', he, hl, hf⟩ := m.isFront_iff.1 a
  rw [hq] at hq'
  cases hq'
  rw [front] at hf
  exact ⟨he, hl, (Option.some.inj hf).symm⟩

/-- The limit of delayed tasks that are taken past an immediate one is reached, and an immediate
task is ready at the level. -/
def Starved (settings : Settings) (k : Scheduler) (l : Level) : Prop :=
  settings.maxStreak ≤ k.selector.streak ∧ ∃ q t, k.ReadyAt l q .immediate t

/-- The task `t` is taken from the front of a half that is due, with `rest` behind it, and the level
of its queue is served. -/
structure Takes (k : Scheduler) (isCanceled : Ticket → Bool) (q : QueueId) (tq : Queue) (h : Half)
    (t : ReadyTask) (rest : List ReadyTask) : Prop where
  queue : k.queues.get? q = some tq
  enabled : tq.enabled = true
  front : tq.ready h = t :: rest
  due : k.selector.Due tq.level .bothHalves ⟨q, h⟩
  served : k.selector.served? (.select .bothHalves) = some tq.level
  answer : (k.take isCanceled).1 = some t.ticket
  queues : (k.take isCanceled).2.queues = k.queues.set q (tq.withReady h rest)
  selector : (k.take isCanceled).2.selector =
    k.selector.run [.select .bothHalves, .changeFront q h ((tq.withReady h rest).front h)]

/-- A level is served whenever a task is taken, and only then. -/
theorem Mirrored.takes (m : Mirrored k) (isCanceled : Ticket → Bool) :
    k.selector.served? (.select .bothHalves) = none ∧ k.take isCanceled = (none, k) ∨
      ∃ q tq h t rest, k.Takes isCanceled q tq h t rest := by
  have served : k.selector.served? (.select .bothHalves) =
    (k.selector.select .bothHalves).1.bind fun pick => k.selector.levelOf? pick.queue := rfl
  rcases m.take_cases isCanceled with ⟨es, e⟩ | ⟨pick, selector, tq, t, rest, es, hq, front, e⟩
  · rw [es] at served
    exact Or.inl ⟨served, e⟩
  rcases m.wf.select_cases .bothHalves with ⟨-, e'⟩ | ⟨l, pick', s', e', v⟩
  · rw [e'] at es
    cases es
  rw [e'] at es served
  cases es
  have due := v.due
  obtain ⟨f, hf, -⟩ := due.least
  obtain ⟨enabled, rfl, -⟩ := m.eq_of_isFront hq front hf
  refine Or.inr ⟨pick.queue, tq, pick.half, t, rest, hq, enabled, front, due,
    served.trans v.levelOf?, by rw [e], by rw [e], ?_⟩
  obtain rfl : k.selector.act (.select .bothHalves) = selector := congrArg Prod.snd e'
  rw [e]
  rfl

theorem Mirrored.exists_takes (m : Mirrored k) {x : Ticket}
    (taken : (k.take isCanceled).1 = some x) :
    ∃ q tq h t rest, k.Takes isCanceled q tq h t rest ∧ t.ticket = x := by
  rcases m.takes isCanceled with ⟨-, e⟩ | ⟨q, tq, h, t, rest, e⟩
  · rw [e] at taken
    cases taken
  · rw [e.answer] at taken
    exact ⟨q, tq, h, t, rest, e, Option.some.inj taken⟩

theorem Takes.get?_take {rest : List ReadyTask} (e : k.Takes isCanceled q tq h t rest)
    (j : QueueId) : (k.take isCanceled).2.queues.get? j =
      if j = q then some (tq.withReady h rest) else k.queues.get? j := by
  rw [e.queues, Arena.get?_set, e.queue]
  simp

/-- The task that is taken has the least stamp of all tasks that are ready at the level of its
queue, or of the immediate ones if these have waited long enough. -/
theorem Takes.least {rest : List ReadyTask} (e : k.Takes isCanceled q tq h t rest)
    (r : Reachable settings k) :
    (Starved settings k tq.level →
        h = .immediate ∧ ∀ j u, k.ReadyAt tq.level j .immediate u → t.stamp ≤ u.stamp) ∧
      (¬ Starved settings k tq.level →
        ∀ j g u, k.ReadyAt tq.level j g u → t.stamp ≤ u.stamp) := by
  have m := r.mirrored
  obtain ⟨f, hf, least_immediate, least⟩ := e.due.least
  obtain ⟨-, -, rfl⟩ := m.eq_of_isFront e.queue e.front hf
  -- a front that is no later than all fronts is no later than all tasks
  have behind : ∀ {g}, (∀ j i, k.selector.IsFront tq.level g j i → t.stamp ≤ i) →
      ∀ j u, k.ReadyAt tq.level j g u → t.stamp ≤ u.stamp := by
    intro g hg j u a
    obtain ⟨i, hi, hiu⟩ := r.exists_isFront a
    exact Nat.le_trans (hg j i hi) hiu
  have starved_iff : Starved settings k tq.level ↔
      k.selector.settings.maxStreak ≤ k.selector.streak ∧
        ∃ j i, k.selector.IsFront tq.level .immediate j i := by
    rw [r.settings_selector]
    refine and_congr_right fun _ => ⟨fun ⟨j, u, a⟩ => ?_, fun ⟨j, i, hi⟩ => ?_⟩
    · obtain ⟨i, hi, -⟩ := r.exists_isFront a
      exact ⟨j, i, hi⟩
    · obtain ⟨tq', hq', he', hl', hi⟩ := m.isFront_iff.1 hi
      obtain ⟨u, hu, -⟩ := Option.map_eq_some_iff.1 hi
      exact ⟨j, u, tq', hq', he', hl', List.mem_of_head? hu⟩
  rw [← starved_iff] at least_immediate least
  refine ⟨fun h => ?_, fun h j g => behind (fun j i => least h j g i) j⟩
  obtain ⟨half, first⟩ := least_immediate h
  exact ⟨half, behind first⟩

/-- No immediate task at the level is older than the one that is taken. -/
theorem Takes.le_of_immediate {rest : List ReadyTask} (e : k.Takes isCanceled q tq h t rest)
    (r : Reachable settings k) (a : k.ReadyAt tq.level j .immediate u) : t.stamp ≤ u.stamp := by
  obtain ⟨starved, otherwise⟩ := e.least r
  by_cases hs : Starved settings k tq.level
  · exact (starved hs).2 j u a
  · exact otherwise hs j .immediate u a

/-- The task that is taken stands at the front of one half of an enabled queue.  It has the least
stamp of all tasks that are ready at the level of the queue, or of the immediate ones if these have
waited long enough. -/
theorem Reachable.take_least (r : Reachable settings k) {x : Ticket}
    (taken : (k.take isCanceled).1 = some x) :
    ∃ q tq h t rest, k.queues.get? q = some tq ∧ tq.enabled = true ∧ tq.ready h = t :: rest ∧
      t.ticket = x ∧ (k.take isCanceled).2.queues = k.queues.set q (tq.withReady h rest) ∧
      (Starved settings k tq.level →
        h = .immediate ∧ ∀ j u, k.ReadyAt tq.level j .immediate u → t.stamp ≤ u.stamp) ∧
      (¬ Starved settings k tq.level → ∀ j g u, k.ReadyAt tq.level j g u → t.stamp ≤ u.stamp) := by
  obtain ⟨q, tq, h, t, rest, e, rfl⟩ := r.mirrored.exists_takes taken
  exact ⟨q, tq, h, t, rest, e.queue, e.enabled, e.front, rfl, e.queues, e.least r⟩

/-- After any operations, whenever a task is taken, no task that is ready in an enabled queue at the
same level, wherever it stands, became ready before it; but if the limit of delayed tasks that are
taken past an immediate one is reached and immediate tasks are ready there, the first of these to
become ready is taken.  Immediate tasks become ready when they are posted, delayed ones when a
promotion moves them. -/
theorem take_first_ready (settings : Settings) (ops : List Operation) (isCanceled : Ticket → Bool)
    {x : Ticket} (taken : (((ofSettings settings).run ops).take isCanceled).1 = some x) :
    let k := (ofSettings settings).run ops
    (∀ q h t, k.ReadyIn q h t → ∃ m op, BecameReady settings ops q h t (m + 1) ∧
        ops[m]? = some op ∧ op.Readies q t h) ∧
      ∃ q tq h t rest n, k.queues.get? q = some tq ∧ tq.enabled = true ∧ tq.ready h = t :: rest ∧
        t.ticket = x ∧ (k.take isCanceled).2.queues = k.queues.set q (tq.withReady h rest) ∧
        BecameReady settings ops q h t n ∧
        (Starved settings k tq.level → h = .immediate ∧ ∀ j u m,
          k.ReadyAt tq.level j .immediate u → BecameReady settings ops j .immediate u m →
            n ≤ m ∧ (n = m → q = j ∧ t = u)) ∧
        (¬ Starved settings k tq.level → ∀ j g u m,
          k.ReadyAt tq.level j g u → BecameReady settings ops j g u m → n ≤ m) := by
  intro k
  have r : Reachable settings k := Reachable.start.run ops
  refine ⟨fun q h t ready => ?_, ?_⟩
  · obtain ⟨n, b⟩ := exists_becameReady ready
    obtain ⟨m, op, rfl, hop, readies, -⟩ := b.issued
    exact ⟨m, op, b, hop, readies⟩
  · obtain ⟨q, tq, h, t, rest, hq, he, front, ht, queues, starved, otherwise⟩ := r.take_least taken
    have ready : k.ReadyIn q h t := ⟨tq, hq, by rw [front]; exact List.mem_cons_self⟩
    obtain ⟨n, b⟩ := exists_becameReady ready
    refine ⟨q, tq, h, t, rest, n, hq, he, front, ht, queues, b, fun hs => ?_, fun hs => ?_⟩
    · obtain ⟨rfl, least⟩ := starved hs
      refine ⟨rfl, fun j u m a c => ⟨b.le c (least j u a), ?_⟩⟩
      rintro rfl
      exact b.eq_of_immediate c
    · exact fun j g u m a c => b.le c (otherwise hs j g u a)

/-- A task that was posted is taken before one that was promoted later. -/
theorem take_first_ready_post_then_promotion :
    let ops : List Operation := [.create "a" true, .create "b" true,
      .postDelayed ⟨1, 1⟩ (.ofMillis 10) .zero .noSooner .zero ⟨0⟩, .post ⟨2, 1⟩ ⟨1⟩,
      .promote (.ofMillis 20) fun _ => false]
    let k := (ofSettings {}).run ops
    (k.take fun _ => false).1 = some ⟨1⟩ ∧
      ∃ q tq h t n, k.queues.get? q = some tq ∧ t.ticket = ⟨1⟩ ∧ BecameReady {} ops q h t n ∧
        ∀ j g u m, k.ReadyAt tq.level j g u → BecameReady {} ops j g u m → n ≤ m := by
  intro ops k
  have taken : (k.take fun _ => false).1 = some ⟨1⟩ := by decide +kernel
  have fed : ∀ l, ¬ Starved {} k l := by
    have below : ¬ ({} : Settings).maxStreak ≤ k.selector.streak := by decide +kernel
    exact fun l h => below h.1
  obtain ⟨-, q, tq, h, t, rest, n, hq, -, -, ht, -, b, -, first⟩ := take_first_ready {} ops _ taken
  exact ⟨taken, q, tq, h, t, n, hq, ht, b, first (fed _)⟩

end Scheduler

end Dispatch
