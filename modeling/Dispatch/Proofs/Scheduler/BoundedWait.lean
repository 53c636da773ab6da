import Dispatch.Proofs.Scheduler.ReadyTasks

/-!
# How long an immediate task can wait

Whenever the level of an immediate task is served, an older task that is ready there is taken, or
the task itself (`Takes.le_of_immediate`).  In between, other levels are served as often as the lead
of the level allows.  So the older tasks and the lead bound the services that can still come before
the task is taken (`Waits`), and every service takes one off that bound (`Waits.step`).
-/

namespace Dispatch.Scheduler

variable {settings : Settings} {k k' : Scheduler} {op : Operation} {ops : List Operation}
  {q j : QueueId} {tq : Queue} {h : Half} {t u : ReadyTask} {p : Level} {n : Nat}
  {isCanceled : Ticket → Bool} {as : List Action} {rest : List ReadyTask}

/-! ### What a run does -/

/-- The level that an operation serves. -/
def served? (k : Scheduler) : Operation → Option Level
  | .take _ => k.selector.served? (.select .bothHalves)
  | _ => none

/-- The levels that are served by a run, in order. -/
def services (k : Scheduler) : List Operation → List Level
  | [] => []
  | op :: ops => (k.served? op).toList ++ (k.perform op).services ops

/-- In a run, the queue stays enabled and at the level, and no queue that holds tasks older than `x`
is enabled there or moved there. -/
def Undisturbed (k : Scheduler) (q : QueueId) (p : Level) (x : Stamp) : List Operation → Prop
  | [] => True
  | op :: ops => (op.displaces q p = false ∧ k.brings p x op = false) ∧
    (k.perform op).Undisturbed q p x ops

instance decidableUndisturbed (q : QueueId) (p : Level) (x : Stamp) :
    (k : Scheduler) → (ops : List Operation) → Decidable (k.Undisturbed q p x ops)
  | _, [] => isTrue trivial
  | k, op :: ops =>
    have := decidableUndisturbed q p x (k.perform op) ops
    inferInstanceAs (Decidable (_ ∧ _))

/-- Taking a task takes `t`, from the front of the immediate half of the queue. -/
def Pops (k : Scheduler) (isCanceled : Ticket → Bool) (q : QueueId) (t : ReadyTask) : Prop :=
  ∃ tq rest, k.queues.get? q = some tq ∧ tq.immediate = t :: rest ∧
    (k.take isCanceled).1 = some t.ticket ∧
    (k.take isCanceled).2.queues = k.queues.set q (tq.withReady .immediate rest)

theorem Reachable.selections_le_run (r : Reachable settings k) (ops : List Operation) :
    k.selector.selections ≤ (k.run ops).selector.selections := by
  induction ops generalizing k with
  | nil => exact Nat.le_refl _
  | cons op ops ih =>
      obtain ⟨as, -, run⟩ := r.tells op
      have first := r.mirrored.wf.selections_le_run as
      rw [run] at first
      exact first.trans (ih (r.perform op))

theorem Reachable.hasWork (r : Reachable settings k) (a : k.ReadyAt p q h t) :
    k.selector.HasWork .bothHalves p := by
  obtain ⟨f, hf, -⟩ := r.exists_isFront a
  exact ⟨h, q, f, trivial, hf⟩

/-! ### The services that can still come first -/

/-- The immediate task is ready in the queue, and at most `n` services of levels other than
`control` can come before it is taken. -/
structure Waits (settings : Settings) (q : QueueId) (p : Level) (t : ReadyTask) (n : Nat)
    (k : Scheduler) : Prop where
  reachable : Reachable settings k
  ready : k.ReadyAt p q .immediate t
  bound : ∃ r : Selector.Log, r.WF ∧ r.selector = k.selector ∧
    k.older p t.stamp * ((settings.tolerance.get p).toNat + 4) + r.lead p ≤ n

section

variable (ht : ∀ l ∈ Level.tolerant, 0 ≤ settings.tolerance.get l) (hp : p ∈ Level.tolerant)

include ht hp

/-- At first at most three services come first after those that the tolerance allows, and again as
many after each older task. -/
theorem waits_of_readyAt (r : Reachable settings k) (a : k.ReadyAt p q .immediate t) :
    Waits settings q p t (k.older p t.stamp * ((settings.tolerance.get p).toNat + 4) +
      ((settings.tolerance.get p).toNat + 3)) k := by
  obtain ⟨as, run⟩ := r.leads
  have selector : (Selector.Log.run settings as).selector = k.selector :=
    (Selector.Log.selector_run settings as).trans run
  have wf := Selector.Log.wf_run settings as
  generalize Selector.Log.run settings as = log at wf selector
  have lead_le := wf.lead_le hp (by rw [selector, r.settings_selector]; exact ht p hp)
    (selector ▸ r.hasWork a)
  rw [selector, r.settings_selector] at lead_le
  exact ⟨r, a, log, wf, selector, Nat.add_le_add_left lead_le _⟩

/-- As long as the level is not served, every service takes one off the bound. -/
theorem Waits.unserved (w : Waits settings q p t n k)
    (unsaturated : k.selector.selections + settings.tolerance.get p < maxKey)
    (e : Tells op as) (run : k.selector.run as = (k.perform op).selector)
    (stays : (k.perform op).ReadyAt p q .immediate t) (hb : k.brings p t.stamp op = false)
    (hs : p ∉ k.selector.services as) :
    ∃ n', n' + (k.selector.services as).countP (· ≠ .control) ≤ n ∧
      Waits settings q p t n' (k.perform op) := by
  have r := w.reachable
  obtain ⟨log, wf, selector, bound⟩ := w.bound
  obtain ⟨f, front, -⟩ := r.exists_isFront w.ready
  have work := e.hasWork r.mirrored.wf front (run ▸ (r.perform op).hasWork stays)
  have tolerance : log.selector.settings = settings := by
    rw [selector, r.settings_selector]
  rw [← selector] at unsaturated run work hs ⊢
  -- the key of the level is not the largest one, so no new key goes before it
  have key_le := wf.key_le hp (tolerance ▸ ht p hp) (work 0)
  rw [tolerance] at key_le
  have lead := wf.lead_run (tolerance ▸ ht) hp (by omega) as work
    (fun _ mem => (e.of_select mem).1) hs
  have fewer := Nat.mul_le_mul_right ((settings.tolerance.get p).toNat + 4)
    (r.older_perform_le (Nat.le_of_lt (r.stamp_lt w.ready.readyIn)) hb)
  refine ⟨_, ?_, r.perform op, stays, as.foldl Selector.Log.step log, wf.foldl_step as,
    (Selector.Log.selector_foldl_step as log).trans run, Nat.le_refl _⟩
  omega

/-- What is taken at the level is older, and then the level can be served as late as at first. -/
theorem Waits.overtaken (w : Waits settings q p t n k) (e : k.Takes isCanceled j tq h u rest)
    (other : u ≠ t) (here : tq.level = p) :
    ∃ n', n' + 1 ≤ n ∧ Waits settings q p t n' (k.take isCanceled).2 := by
  have r := w.reachable
  obtain ⟨log, -, -, bound⟩ := w.bound
  have first : u.stamp ≤ t.stamp := e.le_of_immediate r (here ▸ w.ready)
  have old : u.stamp < t.stamp := Nat.lt_of_le_of_ne first fun same =>
    other (r.eq_of_stamp_eq w.ready.readyIn e.readyIn (congrArg Stamp.mk same)).2.2
  have fewer := e.older_lt r (Nat.le_of_lt (r.stamp_lt w.ready.readyIn)) old
  rw [here] at fewer
  refine ⟨_, ?_, waits_of_readyAt ht hp (r.take isCanceled) (e.readyAt w.ready other.symm)⟩
  have room := Nat.mul_le_mul_right ((settings.tolerance.get p).toNat + 4) (Nat.succ_le_of_lt fewer)
  rw [Nat.succ_mul] at room
  omega

/-- If another level is served, the task waits on, and has come nearer by this service. -/
theorem Waits.passed (w : Waits settings q p t n k)
    (unsaturated : k.selector.selections + settings.tolerance.get p < maxKey)
    (e : k.Takes isCanceled j tq h u rest) (other : u ≠ t) (away : tq.level ≠ p) :
    ∃ n', n' + [tq.level].countP (· ≠ .control) ≤ n ∧
      Waits settings q p t n' (k.take isCanceled).2 := by
  have services : k.selector.services [.select .bothHalves, .changeFront j h
      ((tq.withReady h rest).front h)] = [tq.level] := by
    unfold Selector.services
    rw [e.served]
    rfl
  have unserved : p ∉ [tq.level] := fun mem => away (List.mem_singleton.1 mem).symm
  rw [← services] at unserved ⊢
  exact w.unserved ht hp unsaturated (.take isCanceled j h _) e.selector.symm
    (e.readyAt w.ready other.symm) rfl unserved

/-- What is taken is the task itself, or an older one, or one at another level. -/
theorem Waits.take (w : Waits settings q p t n k)
    (unsaturated : k.selector.selections + settings.tolerance.get p < maxKey)
    (isCanceled : Ticket → Bool) :
    k.Pops isCanceled q t ∨
      ∃ n', n' + (k.served? (.take isCanceled)).toList.countP (· ≠ .control) ≤ n ∧
        Waits settings q p t n' (k.take isCanceled).2 := by
  have r := w.reachable
  have served : k.served? (.take isCanceled) = k.selector.served? (.select .bothHalves) := rfl
  rw [served]
  rcases r.mirrored.takes isCanceled with ⟨unserved, e⟩ | ⟨j, tq, h, u, rest, e⟩
  · rw [unserved, e]
    exact Or.inr ⟨n, Nat.le_refl _, w⟩
  rw [e.served]
  by_cases same : u = t
  · obtain ⟨rfl, rfl, rfl⟩ := r.eq_of_stamp_eq w.ready.readyIn e.readyIn (congrArg _ same)
    exact Or.inl ⟨tq, rest, e.queue, e.front, e.answer, e.queues⟩
  · refine Or.inr ?_
    by_cases here : tq.level = p
    · obtain ⟨n', le, w'⟩ := w.overtaken ht hp e same here
      exact ⟨n', Nat.le_trans (Nat.add_le_add_left List.countP_le_length n') le, w'⟩
    · exact w.passed ht hp unsaturated e same here

/-- An operation takes the task, or leaves it with a bound that is less by the services. -/
theorem Waits.step (w : Waits settings q p t n k)
    (unsaturated : k.selector.selections + settings.tolerance.get p < maxKey)
    (hd : op.displaces q p = false) (hb : k.brings p t.stamp op = false) :
    (∃ isCanceled, op = .take isCanceled ∧ k.Pops isCanceled q t) ∨
      ∃ n', n' + (k.served? op).toList.countP (· ≠ .control) ≤ n ∧
        Waits settings q p t n' (k.perform op) := by
  by_cases takes : ∃ isCanceled, op = .take isCanceled
  · obtain ⟨isCanceled, rfl⟩ := takes
    exact (w.take ht hp unsaturated isCanceled).imp_left fun pops => ⟨isCanceled, rfl, pops⟩
  · have other : ∀ c, op ≠ .take c := fun c e => takes ⟨c, e⟩
    have unserved : k.served? op = none := by
      cases op with
      | take c => exact absurd rfl (other c)
      | _ => rfl
    obtain ⟨as, e, run⟩ := w.reachable.tells op
    have quiet : k.selector.services as = [] :=
      Selector.services_of_quiet fun _ mem => takes (e.of_select mem).2
    obtain ⟨n', le, w'⟩ := w.unserved ht hp unsaturated e run
      (w.reachable.readyAt_perform w.ready hd other) hb (by rw [quiet]; exact List.not_mem_nil)
    rw [quiet] at le
    rw [unserved]
    exact Or.inr ⟨n', le, w'⟩

/-- In a run with more services than the bound, the task is taken by the next one at the latest. -/
theorem Waits.run (w : Waits settings q p t n k)
    (unsaturated : (k.run ops).selector.selections + settings.tolerance.get p < maxKey)
    (undisturbed : k.Undisturbed q p t.stamp ops)
    (hn : n < (k.services ops).countP (· ≠ .control)) :
    ∃ before isCanceled after, ops = before ++ .take isCanceled :: after ∧
      (k.run before).Pops isCanceled q t ∧
      (k.services (before ++ [.take isCanceled])).countP (· ≠ .control) ≤ n + 1 := by
  induction ops generalizing k n with
  | nil => exact absurd hn (Nat.not_lt_zero n)
  | cons op ops ih =>
      obtain ⟨⟨hd, hb⟩, later⟩ := undisturbed
      have mono := w.reachable.selections_le_run (op :: ops)
      rcases w.step ht hp (by omega) hd hb with ⟨isCanceled, rfl, pops⟩ | ⟨n', le, w'⟩
      · refine ⟨[], isCanceled, ops, rfl, pops, ?_⟩
        have one : (k.services [.take isCanceled]).length ≤ 1 := by
          unfold services services
          cases k.served? (.take isCanceled) <;> simp
        exact List.countP_le_length.trans (one.trans (Nat.le_add_left 1 n))
      · unfold services at hn
        rw [List.countP_append] at hn
        obtain ⟨before, isCanceled, after, rfl, pops, within⟩ := ih w' unsaturated later (by omega)
        refine ⟨op :: before, isCanceled, after, rfl, pops, ?_⟩
        rw [List.cons_append]
        unfold services
        rw [List.countP_append]
        omega

end

/-- With tolerances that are not negative, an immediate task that is posted to an enabled queue at a
level with a tolerance is taken after a bounded number of services of levels other than `control`.
Of every task that is ready at the level when it is posted, and of the task itself, at most as many
services come first as the tolerance allows, and three more.  It does not matter what else is
posted, promoted or removed, as long as the queue is not removed, disabled or moved, and no queue
with older tasks is enabled at the level or moved there. -/
theorem immediate_taken_within (settings : Settings)
    (ht : ∀ l ∈ Level.tolerant, 0 ≤ settings.tolerance.get l) (past ops : List Operation)
    {ticket : Ticket} (hk : k = (ofSettings settings).run past)
    (hq : k.queues.get? q = some tq) (enabled : tq.enabled = true) (hp : tq.level ∈ Level.tolerant)
    (posted : k.post q ticket = .ok k')
    (unsaturated : (k'.run ops).selector.selections + settings.tolerance.get tq.level < maxKey)
    (undisturbed : k'.Undisturbed q tq.level k.stamps.issue.1 ops)
    (served : ((k.readyAt tq.level).length + 1) * ((settings.tolerance.get tq.level).toNat + 4) ≤
      (k'.services ops).countP (· ≠ .control)) :
    ∃ before isCanceled after, ops = before ++ .take isCanceled :: after ∧
      (k'.run before).Pops isCanceled q ⟨k.stamps.issue.1, ticket⟩ ∧
      (k'.services (before ++ [.take isCanceled])).countP (· ≠ .control) ≤
        ((k.readyAt tq.level).length + 1) * ((settings.tolerance.get tq.level).toNat + 4) := by
  have r : Reachable settings k := hk ▸ Reachable.start.run past
  let t : ReadyTask := ⟨k.stamps.issue.1, ticket⟩
  have performed : k.perform (.post q ticket) = k' := congrArg (orUnchanged k) posted
  have ready : k'.ReadyAt tq.level q .immediate t := by
    obtain ⟨tq', hq', rfl⟩ := ok_of_queue posted
    obtain rfl : tq = tq' := Option.some.inj (hq.symm.trans hq')
    refine ⟨tq.post t, ?_, enabled, rfl, List.mem_append_right _ List.mem_cons_self⟩
    show (k.queues.set q (tq.post t)).get? q = _
    rw [Arena.get?_set, hq, if_pos ⟨rfl, rfl⟩]
  have older : k'.older tq.level t.stamp ≤ (k.readyAt tq.level).length := by
    rw [← performed]
    exact (r.older_perform_le (Nat.le_refl _) rfl).trans List.countP_le_length
  have w := waits_of_readyAt ht hp (r.post posted) ready
  generalize hc : (settings.tolerance.get tq.level).toNat = c at w served ⊢
  have most := Nat.mul_le_mul_right (c + 4) older
  rw [Nat.succ_mul] at served ⊢
  obtain ⟨before, isCanceled, after, split, pops, within⟩ :=
    w.run ht hp unsaturated undisturbed (by omega)
  exact ⟨before, isCanceled, after, split, pops, by omega⟩

/-- A task waits behind an older one and behind six at a more urgent level. -/
theorem immediate_taken_within_eight_services :
    let settings : Settings := { tolerance := .const 0 }
    let past : List Operation := [.create "a" true, .create "b" true, .setLevel ⟨2, 1⟩ .high,
      .post ⟨1, 1⟩ ⟨0⟩]
    let ops : List Operation := List.replicate 6 (.post ⟨2, 1⟩ ⟨2⟩) ++
      List.replicate 8 (.take fun _ => false)
    let k := (ofSettings settings).run past
    (k.readyAt .normal).length = 1 ∧ k.stamps.issue.1 = ⟨2⟩ ∧
      ∃ k' before isCanceled after, k.post ⟨1, 1⟩ ⟨1⟩ = .ok k' ∧
        ops = before ++ .take isCanceled :: after ∧
        (k'.run before).Pops isCanceled ⟨1, 1⟩ ⟨⟨2⟩, ⟨1⟩⟩ ∧
        (k'.services (before ++ [.take isCanceled])).countP (· ≠ .control) ≤ 8 := by
  intro settings past ops k
  have ready : (k.readyAt .normal).length = 1 := by decide +kernel
  have stamp : k.stamps.issue.1 = ⟨2⟩ := by decide +kernel
  obtain ⟨tq, hq, enabled, level⟩ : ∃ tq, k.queues.get? ⟨1, 1⟩ = some tq ∧ tq.enabled = true ∧
      tq.level = .normal := ⟨_, rfl, by decide +kernel, by decide +kernel⟩
  let k' := k.perform (.post ⟨1, 1⟩ ⟨1⟩)
  have posted : k.post ⟨1, 1⟩ ⟨1⟩ = .ok k' := rfl
  have unsaturated : (k'.run ops).selector.selections + settings.tolerance.get .normal <
      maxKey := by decide +kernel
  have undisturbed : k'.Undisturbed ⟨1, 1⟩ .normal k.stamps.issue.1 ops := by decide +kernel
  have served : (1 + 1) * ((settings.tolerance.get .normal).toNat + 4) ≤
      (k'.services ops).countP (· ≠ .control) := by decide +kernel
  obtain ⟨before, isCanceled, after, split, pops, within⟩ := immediate_taken_within settings
    (by decide) past ops rfl hq enabled (level ▸ by decide) posted (level ▸ unsaturated)
    (level ▸ undisturbed) (by rw [level, ready]; exact served)
  rw [level, ready] at within
  rw [stamp] at pops
  exact ⟨ready, stamp, k', before, isCanceled, after, posted, split, pops, within⟩

end Dispatch.Scheduler
