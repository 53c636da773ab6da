import Dispatch.Proofs.Scheduler.Run
import Dispatch.Session.Step

/-!
# What a step of a session can do

A step has two parts.  First the request changes the scheduler, the clock or the calls in progress,
and leaves some tasks to be destroyed (`Begins`).  Then the first of these is destroyed; or, if
there are none, the call goes on, which answers or starts a task that was taken (`Proceeds`).  The
step for a request is of this form (`Goes`), as is shown for one request after the other
(`goes_remove`, `goes_finish` and so on).  So every step is (`step_cases`), and what all steps keep
is proved by going through the two lists.
-/

namespace Dispatch

open Scheduler (Operation)

/-- The queue for which a request hands in a task. -/
def Request.target? : Request → Option QueueId
  | .post q => some q
  | .postDelayed q _ _ _ => some q
  | _ => none

namespace Session

variable {s : Session} {r : Request}

/-- The request asks for an operation that leaves all tasks where they are. -/
inductive Asks (s : Session) : Request → Operation → Prop
  | create (name : String) (waking : Bool) : Asks s (.create name waking) (.create name waking)
  | setLevel (q : QueueId) (l : Level) : Asks s (.setLevel q l) (.setLevel q l)
  | setEnabled (q : QueueId) (on : Bool) : Asks s (.setEnabled q on) (.setEnabled q on s.now)
  | takeWorkRequest : Asks s .takeWorkRequest .takeWorkRequest

/-- The request makes the session look for a task to run, while the given calls wait. -/
inductive Seeks (s : Session) : Request → Mode → List Call → Prop
  | runNext : Seeks s .runNext .once s.calls
  | runUntilIdle : Seeks s .runUntilIdle (.untilIdle 0) s.calls
  | more {t : Ticket} {n : Nat} {calls : List Call}
      (top : s.calls = .running t (.untilIdle n) :: calls) :
      Seeks s .finish (.untilIdle (n + 1)) calls
  | again {t : Ticket} {mode : Mode} {calls : List Call}
      (top : s.calls = .discarding t [] (.again mode) :: calls) : Seeks s .finish mode calls

/-- The request may make the session perform an operation on the scheduler. -/
inductive Issues (s : Session) : Request → Operation → Prop
  | asks {r : Request} {op : Operation} (asks : s.Asks r op) : Issues s r op
  | post (q : QueueId) : Issues s (.post q) (.post q ⟨s.issued⟩)
  | postDelayed (q : QueueId) (delay leeway : Duration) (policy : Policy) :
      Issues s (.postDelayed q delay leeway policy)
        (.postDelayed q delay leeway policy s.now ⟨s.issued⟩)
  | remove (q : QueueId) : Issues s (.remove q) (.remove q s.now)
  | sweep : Issues s .sweep (.sweep s.now s.isCanceled)
  | promote {r : Request} {mode : Mode} {calls : List Call} (seeks : s.Seeks r mode calls) :
      Issues s r (.promote s.now s.isCanceled)
  | take {r : Request} {mode : Mode} {calls : List Call} (seeks : s.Seeks r mode calls) :
      Issues s r (.take s.isCanceled)

/-- How a call goes on that has looked for a task and found canceled ones on the way. -/
def afterRound (mode : Mode) (canceled : List Ticket) : Option Ticket → After
  | some t => .launch t mode
  | none => if canceled.isEmpty then .answer (idleReply mode) else .again mode

/-- The request first makes the second session of `s`.  Then the tasks are to be destroyed, before
the call goes on as it says. -/
inductive Begins (s : Session) : Request → Session → List Ticket → After → Prop
  | nothing {r : Request} {reply : Reply} (target : r.target? = none)
      (plain : ∀ any, reply ≠ .ran any) : Begins s r s [] (.answer reply)
  | perform {r : Request} {k : Scheduler} {op : Operation} {reply : Reply}
      (scheduler : s.scheduler = some k) (asks : s.Asks r op) (plain : ∀ any, reply ≠ .ran any) :
      Begins s r { s with scheduler := some (k.perform op) } [] (.answer reply)
  | cancel (t : Ticket) : Begins s (.cancel t) (s.cancel t) [] (.answer .done)
  | moveClock {r : Request} {c : Clock} (target : r.target? = none) (le : s.now ≤ c.now) :
      Begins s r { s with clock := c } [] (.answer .done)
  | post {q : QueueId} {k k' : Scheduler} (scheduler : s.scheduler = some k)
      (accepted : k.post q ⟨s.issued⟩ = .ok k') :
      Begins s (.post q) { s with issued := s.issued + 1, scheduler := some k' } []
        (.answer (.posted ⟨s.issued⟩))
  | postDelayed {q : QueueId} {delay leeway : Duration} {policy : Policy} {k k' : Scheduler}
      (scheduler : s.scheduler = some k)
      (accepted : k.postDelayed q delay leeway policy s.now ⟨s.issued⟩ = .ok k') :
      Begins s (.postDelayed q delay leeway policy)
        { s with issued := s.issued + 1, scheduler := some k', handles := ⟨s.issued⟩ :: s.handles }
        [] (.answer (.handle ⟨s.issued⟩))
  | refuse {r : Request} {q : QueueId} {e : Fault} (target : r.target? = some q) :
      Begins s r { s with issued := s.issued + 1 } [⟨s.issued⟩] (.answer (.refused e))
  | remove {q : QueueId} {k k' : Scheduler} {ts : List Ticket} (scheduler : s.scheduler = some k)
      (removed : k.remove q s.now = .ok (ts, k')) :
      Begins s (.remove q) { s with scheduler := some k' } ts (.answer .done)
  | sweep {k : Scheduler} (scheduler : s.scheduler = some k) :
      Begins s .sweep { s with scheduler := some (k.sweep s.now s.isCanceled).2 }
        (k.sweep s.now s.isCanceled).1 (.answer .done)
  | close {k : Scheduler} (scheduler : s.scheduler = some k) (idle : s.calls = []) :
      Begins s .close { s with scheduler := none } k.tickets (.answer .done)
  | ran {t : Ticket} {calls : List Call} (top : s.calls = .running t .once :: calls) :
      Begins s .finish { s with calls := calls } [] (.answer (.ran true))
  | resume {t : Ticket} {ts : List Ticket} {after : After} {calls : List Call}
      (top : s.calls = .discarding t ts after :: calls) :
      Begins s .finish { s with calls := calls } ts after
  | round {r : Request} {mode : Mode} {calls : List Call} {k : Scheduler}
      (scheduler : s.scheduler = some k) (seeks : s.Seeks r mode calls) :
      Begins s r
        { s with
          scheduler := some ((k.promote s.now s.isCanceled).2.take s.isCanceled).2, calls := calls }
        (k.promote s.now s.isCanceled).1
        (afterRound mode (k.promote s.now s.isCanceled).1
          ((k.promote s.now s.isCanceled).2.take s.isCanceled).1)
  | gone {r : Request} {mode : Mode} {calls : List Call} (scheduler : s.scheduler = none)
      (seeks : s.Seeks r mode calls) :
      Begins s r { s with calls := calls } [] (.answer (.refused .schedulerGone))

/-- The first of the tasks is destroyed or, if there are none, the call goes on. -/
inductive Proceeds (s : Session) : List Ticket → After → Signal → Session → Prop
  | answer (reply : Reply) : Proceeds s [] (.answer reply) (.answered reply) s
  | start {t : Ticket} {mode : Mode} (live : s.isCanceled t = false) :
      Proceeds s [] (.launch t mode) (.started t) { s with calls := .running t mode :: s.calls }
  | skip {t : Ticket} {mode : Mode} (canceled : s.isCanceled t = true) :
      Proceeds s [] (.launch t mode) (.discarding t)
        { s with calls := .discarding t [] (.again mode) :: s.calls }
  | discard (t : Ticket) (ts : List Ticket) (after : After) :
      Proceeds s (t :: ts) after (.discarding t)
        { s with calls := .discarding t ts after :: s.calls }

/-- The step for the request begins and proceeds in one of these ways. -/
def Goes (s : Session) (r : Request) : Prop :=
  ∃ s' ts after, s.Begins r s' ts after ∧ s'.Proceeds ts after (s.step r).1 (s.step r).2

/-! ### How calls go on -/

theorem proceeds_launch (s : Session) (t : Ticket) (mode : Mode) :
    s.Proceeds [] (.launch t mode) (s.launch t mode).1 (s.launch t mode).2 := by
  unfold Session.launch
  split
  · rename_i h
    exact .skip h
  · rename_i h
    exact .start (by simpa using h)

theorem proceeds_discard {ts : List Ticket} {after : After}
    (h : ts = [] → ∀ mode, after ≠ .again mode) :
    s.Proceeds ts after (s.discard ts after).1 (s.discard ts after).2 := by
  cases ts with
  | cons t ts => exact .discard t ts after
  | nil =>
      cases after with
      | answer reply => exact .answer reply
      | launch t mode => exact s.proceeds_launch t mode
      | again mode => exact absurd rfl (h rfl mode)

theorem afterRound_ne_again {canceled : List Ticket} (h : canceled = []) (mode mode' : Mode)
    (taken : Option Ticket) : afterRound mode canceled taken ≠ .again mode' := by
  cases taken <;> simp [afterRound, h]

theorem proceeds_round {k : Scheduler} (hk : s.scheduler = some k) (mode : Mode) :
    ({ s with scheduler := some ((k.promote s.now s.isCanceled).2.take s.isCanceled).2 } :
      Session).Proceeds (k.promote s.now s.isCanceled).1
      (afterRound mode (k.promote s.now s.isCanceled).1
        ((k.promote s.now s.isCanceled).2.take s.isCanceled).1)
      (s.round mode).1 (s.round mode).2 := by
  have ends : ∀ (s : Session) canceled taken, s.Proceeds canceled (afterRound mode canceled taken)
      (s.discard canceled (afterRound mode canceled taken)).1
      (s.discard canceled (afterRound mode canceled taken)).2 :=
    fun s canceled taken => proceeds_discard fun h mode' => afterRound_ne_again h mode mode' taken
  unfold Session.round
  rw [hk]
  dsimp only
  generalize (k.promote s.now s.isCanceled).1 = canceled
  generalize ((k.promote s.now s.isCanceled).2.take s.isCanceled).1 = taken
  cases canceled <;> cases taken <;> exact ends _ _ _

/-! ### Kinds of requests -/

theorem Begins.goes {s' s'' : Session} {ts : List Ticket} {after : After} {signal : Signal}
    (b : s.Begins r s' ts after) (p : s'.Proceeds ts after signal s'')
    (e : s.step r = (signal, s'')) : s.Goes r :=
  ⟨s', ts, after, b, by rwa [e]⟩

/-- A request after which tasks are to be destroyed, but no other one is looked for. -/
theorem Begins.goes_discard {s' : Session} {ts : List Ticket} {after : After}
    (b : s.Begins r s' ts after) (h : ts = [] → ∀ mode, after ≠ .again mode)
    (e : s.step r = s'.discard ts after) : s.Goes r :=
  b.goes (proceeds_discard h) e

/-- A request that is answered at once and changes nothing. -/
theorem goes_of_answer {reply : Reply} (e : s.step r = (.answered reply, s))
    (target : r.target? = none) (plain : ∀ any, reply ≠ .ran any) : s.Goes r :=
  (Begins.nothing target plain).goes (.answer reply) e

/-- A request that makes the session look for a task. -/
theorem goes_of_seeks {mode : Mode} {calls : List Call} (seeks : s.Seeks r mode calls)
    (e : s.step r = ({ s with calls := calls } : Session).round mode) : s.Goes r := by
  rcases Option.eq_none_or_eq_some s.scheduler with hk | ⟨k, hk⟩
  · have gone : ({ s with calls := calls } : Session).round mode =
        (.answered (.refused .schedulerGone), { s with calls := calls }) := by
      unfold Session.round
      dsimp only
      rw [hk]
    exact (Begins.gone hk seeks).goes (.answer _) (e.trans gone)
  · exact (Begins.round hk seeks).goes (proceeds_round (s := { s with calls := calls }) hk mode) e

/-- A request that asks for an operation on the scheduler. -/
theorem goes_of_update {f : Scheduler → Except Fault (Reply × Scheduler)} {op : Operation}
    (e : s.step r = s.update f) (target : r.target? = none) (asks : s.Asks r op)
    (hf : ∀ k reply k', f k = .ok (reply, k') → k.perform op = k' ∧ ∀ any, reply ≠ .ran any) :
    s.Goes r := by
  unfold Session.update at e
  rcases Option.eq_none_or_eq_some s.scheduler with hk | ⟨k, hk⟩
  · rw [hk] at e
    exact goes_of_answer e target nofun
  · rw [hk] at e
    dsimp only at e
    rcases hr : f k with fault | ⟨reply, k'⟩
    · rw [hr] at e
      exact goes_of_answer e target nofun
    · rw [hr] at e
      obtain ⟨rfl, plain⟩ := hf k reply k' hr
      exact (Begins.perform hk asks plain).goes (.answer _) e

/-- A request for an operation that may be refused, and has no answer of its own. -/
theorem goes_of_change {f : Scheduler → Except Fault Scheduler} {op : Operation}
    (e : s.step r = s.update fun k => (f k).map fun k => (.done, k)) (target : r.target? = none)
    (asks : s.Asks r op) (performs : ∀ k : Scheduler, k.perform op = k.orUnchanged (f k)) :
    s.Goes r := by
  refine goes_of_update e target asks fun k reply k' h => ?_
  rcases hr : f k with fault | k''
  · rw [hr] at h
    cases h
  · rw [hr] at h
    cases h
    exact ⟨(performs k).trans (congrArg k.orUnchanged hr), nofun⟩

/-- A request that hands in a task. -/
theorem goes_of_accept {q : QueueId} {f : Scheduler → Ticket → Except Fault Scheduler}
    (reply : Ticket → Reply) (handles : List Ticket) (target : r.target? = some q)
    (e : s.step r = match s.accept ⟨s.issued⟩ f with
      | .error e => ({ s with issued := s.issued + 1 } : Session).discard [⟨s.issued⟩]
          (.answer (.refused e))
      | .ok k => (.answered (reply ⟨s.issued⟩),
          { s with issued := s.issued + 1, scheduler := some k, handles := handles }))
    (accepted : ∀ k k', s.scheduler = some k → f k ⟨s.issued⟩ = .ok k' →
      s.Begins r { s with issued := s.issued + 1, scheduler := some k', handles := handles } []
        (.answer (reply ⟨s.issued⟩))) : s.Goes r := by
  cases hr : s.accept ⟨s.issued⟩ f with
  | error fault =>
      rw [hr] at e
      exact (Begins.refuse target).goes (.discard _ _ _) e
  | ok k' =>
      rw [hr] at e
      unfold Session.accept at hr
      rcases Option.eq_none_or_eq_some s.scheduler with hk | ⟨k, hk⟩
      · rw [hk] at hr
        cases hr
      · rw [hk] at hr
        exact (accepted k k' hk hr).goes (.answer _) e

/-! ### The requests -/

theorem goes_create (s : Session) (name : String) (waking : Bool) :
    s.Goes (.create name waking) := by
  refine goes_of_update
    (f := fun k => .ok (.created (k.create name waking).1, (k.create name waking).2))
    rfl rfl (.create name waking) fun k reply k' h => ?_
  cases h
  exact ⟨rfl, nofun⟩

theorem goes_remove (s : Session) (q : QueueId) : s.Goes (.remove q) := by
  have e : s.step (.remove q) = s.remove q := rfl
  unfold Session.remove at e
  rcases Option.eq_none_or_eq_some s.scheduler with hk | ⟨k, hk⟩
  · rw [hk] at e
    exact goes_of_answer e rfl nofun
  · rw [hk] at e
    dsimp only at e
    rcases hr : k.remove q s.now with fault | ⟨ts, k'⟩
    · rw [hr] at e
      exact goes_of_answer e rfl nofun
    · rw [hr] at e
      exact (Begins.remove hk hr).goes_discard (fun _ _ => nofun) e

theorem goes_setLevel (s : Session) (q : QueueId) (l : Level) : s.Goes (.setLevel q l) :=
  goes_of_change (f := fun k => k.setLevel q l) rfl rfl (.setLevel q l) fun _ => rfl

theorem goes_setEnabled (s : Session) (q : QueueId) (on : Bool) : s.Goes (.setEnabled q on) :=
  goes_of_change (f := fun k => k.setEnabled q on s.now) rfl rfl (.setEnabled q on) fun _ => rfl

theorem goes_post (s : Session) (q : QueueId) : s.Goes (.post q) :=
  goes_of_accept (f := fun k t => k.post q t) .posted s.handles rfl rfl fun _ _ => .post

theorem goes_postDelayed (s : Session) (q : QueueId) (delay leeway : Duration) (policy : Policy) :
    s.Goes (.postDelayed q delay leeway policy) :=
  goes_of_accept (f := fun k t => k.postDelayed q delay leeway policy s.now t)
    .handle (⟨s.issued⟩ :: s.handles) rfl rfl fun _ _ => .postDelayed

theorem goes_sweep (s : Session) : s.Goes .sweep := by
  have e : s.step .sweep = s.sweep := rfl
  unfold Session.sweep at e
  rcases Option.eq_none_or_eq_some s.scheduler with hk | ⟨k, hk⟩
  · rw [hk] at e
    exact goes_of_answer e rfl nofun
  · rw [hk] at e
    exact (Begins.sweep hk).goes_discard (fun _ _ => nofun) e

theorem goes_takeWorkRequest (s : Session) : s.Goes .takeWorkRequest := by
  refine goes_of_update (f := fun k => .ok (.requested k.takeWorkRequest.1, k.takeWorkRequest.2))
    rfl rfl .takeWorkRequest fun k reply k' h => ?_
  cases h
  exact ⟨rfl, nofun⟩

theorem goes_close (s : Session) : s.Goes .close := by
  have e : s.step .close = s.close := rfl
  unfold Session.close at e
  by_cases idle : s.calls.isEmpty = true
  · rw [if_pos idle] at e
    rcases Option.eq_none_or_eq_some s.scheduler with hk | ⟨k, hk⟩
    · rw [hk] at e
      exact goes_of_answer e rfl nofun
    · rw [hk] at e
      exact (Begins.close hk (List.isEmpty_iff.1 idle)).goes_discard (fun _ _ => nofun) e
  · rw [if_neg idle] at e
    exact goes_of_answer e rfl nofun

/-- When the tasks that were to be destroyed are, the session may look for another one. -/
theorem goes_finish_discarding {t : Ticket} {ts : List Ticket} {after : After} {calls : List Call}
    (top : s.calls = .discarding t ts after :: calls)
    (e : s.step .finish = ({ s with calls := calls } : Session).discard ts after) :
    s.Goes .finish := by
  by_cases again : ts = [] ∧ ∃ mode, after = .again mode
  · obtain ⟨rfl, mode, rfl⟩ := again
    exact goes_of_seeks (.again top) e
  · exact (Begins.resume top).goes_discard (fun hn mode h => again ⟨hn, mode, h⟩) e

theorem goes_finish (s : Session) : s.Goes .finish := by
  have e : s.step .finish = s.finish := rfl
  unfold Session.finish at e
  rcases top : s.calls with _ | ⟨⟨t, _ | n⟩ | ⟨t, ts, after⟩, calls⟩
  · rw [top] at e
    exact goes_of_answer e rfl nofun
  · rw [top] at e
    exact (Begins.ran top).goes (.answer _) e
  · rw [top] at e
    exact goes_of_seeks (.more top) e
  · rw [top] at e
    exact goes_finish_discarding top e

/-- Every step begins and proceeds in one of these ways. -/
theorem step_cases (s : Session) (r : Request) :
    ∃ s' ts after, s.Begins r s' ts after ∧ s'.Proceeds ts after (s.step r).1 (s.step r).2 := by
  show s.Goes r
  cases r with
  | create name waking => exact s.goes_create name waking
  | remove q => exact s.goes_remove q
  | setLevel q l => exact s.goes_setLevel q l
  | setEnabled q on => exact s.goes_setEnabled q on
  | post q => exact s.goes_post q
  | postDelayed q delay leeway policy => exact s.goes_postDelayed q delay leeway policy
  | cancel t => exact (Begins.cancel t).goes (.answer _) rfl
  | advance d => exact (Begins.moveClock rfl (s.clock.le_advance d)).goes (.answer _) rfl
  | moveClock t => exact (Begins.moveClock rfl (s.clock.le_moveTo t)).goes (.answer _) rfl
  | runNext => exact goes_of_seeks .runNext rfl
  | runUntilIdle => exact goes_of_seeks .runUntilIdle rfl
  | sweep => exact s.goes_sweep
  | takeWorkRequest => exact s.goes_takeWorkRequest
  | close => exact s.goes_close
  | finish => exact s.goes_finish

/-! ### Canceling a task -/

@[simp] theorem scheduler_cancel (s : Session) (t : Ticket) :
    (s.cancel t).scheduler = s.scheduler := by
  unfold Session.cancel
  split <;> rfl

@[simp] theorem calls_cancel (s : Session) (t : Ticket) : (s.cancel t).calls = s.calls := by
  unfold Session.cancel
  split <;> rfl

@[simp] theorem issued_cancel (s : Session) (t : Ticket) : (s.cancel t).issued = s.issued := by
  unfold Session.cancel
  split <;> rfl

@[simp] theorem handles_cancel (s : Session) (t : Ticket) : (s.cancel t).handles = s.handles := by
  unfold Session.cancel
  split <;> rfl

@[simp] theorem now_cancel (s : Session) (t : Ticket) : (s.cancel t).now = s.now := by
  unfold Session.cancel
  split <;> rfl

/-! ### What becomes of the calls -/

/-- What the calls in progress hold, when the innermost one is told apart. -/
theorem flatMap_calls {call : Call} {calls : List Call} (top : s.calls = call :: calls)
    (f : Call → List Ticket) : s.calls.flatMap f = f call ++ calls.flatMap f := by
  rw [top, List.flatMap_cons]

/-- A call that ends when a task is looked for holds nothing. -/
theorem Seeks.flatMap_calls {mode : Mode} {calls : List Call} (a : s.Seeks r mode calls)
    {f : Call → List Ticket} (running : ∀ t mode, f (.running t mode) = [])
    (again : ∀ t mode, f (.discarding t [] (.again mode)) = []) :
    s.calls.flatMap f = calls.flatMap f := by
  cases a with
  | runNext | runUntilIdle => rfl
  | more top => rw [Session.flatMap_calls top, running, List.nil_append]
  | again top => rw [Session.flatMap_calls top, again, List.nil_append]

theorem Seeks.sublist {mode : Mode} {calls : List Call} (a : s.Seeks r mode calls) :
    calls.Sublist s.calls := by
  cases a with
  | runNext | runUntilIdle => exact .refl _
  | more top | again top =>
      rw [top]
      exact List.sublist_cons_self _ _

/-- The calls that were in progress before, except for one that may end. -/
theorem Begins.calls_sublist {s' : Session} {ts : List Ticket} {after : After}
    (b : s.Begins r s' ts after) : s'.calls.Sublist s.calls := by
  cases b with
  | nothing | perform | moveClock | post | postDelayed | refuse | remove | sweep | close =>
      exact .refl _
  | cancel t => exact (calls_cancel s t).symm ▸ List.Sublist.refl s.calls
  | ran top | resume top =>
      rw [top]
      exact List.sublist_cons_self _ _
  | round _ seeks | gone _ seeks => exact seeks.sublist

/-! ### What becomes of the scheduler -/

variable {s' : Session} {ts : List Ticket} {after : After} {signal : Signal} {k' : Scheduler}

/-- A step leaves the scheduler as it is, or performs one operation on it, or promotes what is due
and takes a task. -/
theorem Begins.scheduler_cases (b : s.Begins r s' ts after) (hk : s'.scheduler = some k') :
    ∃ k, s.scheduler = some k ∧ (k' = k ∨ (∃ op, s.Issues r op ∧ k' = k.perform op) ∨
      ∃ mode calls, s.Seeks r mode calls ∧
        k' = ((k.promote s.now s.isCanceled).2.take s.isCanceled).2) := by
  have one : ∀ {k op}, s.scheduler = some k → s.Issues r op → k.perform op = k' →
      ∃ k, s.scheduler = some k ∧ (k' = k ∨ (∃ op, s.Issues r op ∧ k' = k.perform op) ∨
        ∃ mode calls, s.Seeks r mode calls ∧
          k' = ((k.promote s.now s.isCanceled).2.take s.isCanceled).2) :=
    fun hk issued e => ⟨_, hk, Or.inr (Or.inl ⟨_, issued, e.symm⟩)⟩
  cases b with
  | nothing | moveClock | refuse | ran | resume | gone => exact ⟨k', hk, Or.inl rfl⟩
  | cancel t => exact ⟨k', s.scheduler_cancel t ▸ hk, Or.inl rfl⟩
  | perform scheduler asks =>
      cases hk
      exact one scheduler (.asks asks) rfl
  | post scheduler accepted =>
      cases hk
      exact one scheduler (.post _) (congrArg (Scheduler.orUnchanged _) accepted)
  | postDelayed scheduler accepted =>
      cases hk
      exact one scheduler (.postDelayed _ _ _ _) (congrArg (Scheduler.orUnchanged _) accepted)
  | remove scheduler removed =>
      cases hk
      exact one scheduler (.remove _) (Scheduler.perform_remove_of_ok removed)
  | sweep scheduler =>
      cases hk
      exact one scheduler .sweep rfl
  | close => cases hk
  | round scheduler seeks =>
      cases hk
      exact ⟨_, scheduler, Or.inr (Or.inr ⟨_, _, seeks, rfl⟩)⟩

theorem Proceeds.scheduler_eq (p : s.Proceeds ts after signal s') :
    s'.scheduler = s.scheduler := by
  cases p <;> rfl

theorem scheduler_step_cases (hk : (s.step r).2.scheduler = some k') :
    ∃ k, s.scheduler = some k ∧ (k' = k ∨ (∃ op, s.Issues r op ∧ k' = k.perform op) ∨
      ∃ mode calls, s.Seeks r mode calls ∧
        k' = ((k.promote s.now s.isCanceled).2.take s.isCanceled).2) := by
  obtain ⟨s₁, ts, after, b, p⟩ := s.step_cases r
  exact b.scheduler_cases (p.scheduler_eq ▸ hk)

/-- The scheduler after a step, unless it is given up, comes from the one before by operations for
which the request asks. -/
theorem exists_ops_step (hk' : (s.step r).2.scheduler = some k') :
    ∃ k ops, s.scheduler = some k ∧ k' = k.run ops ∧ ∀ op ∈ ops, s.Issues r op := by
  obtain ⟨k, hk, rfl | ⟨op, issued, rfl⟩ | ⟨mode, calls, seeks, rfl⟩⟩ := scheduler_step_cases hk'
  · exact ⟨k', [], hk, rfl, fun _ h => absurd h List.not_mem_nil⟩
  · exact ⟨k, [op], hk, rfl, fun _ h => List.mem_singleton.1 h ▸ issued⟩
  · refine ⟨k, [.promote s.now s.isCanceled, .take s.isCanceled], hk, rfl, fun op h => ?_⟩
    rcases List.mem_cons.1 h with rfl | h
    · exact .promote seeks
    · rw [List.mem_singleton.1 h]
      exact .take seeks

end Session

end Dispatch
