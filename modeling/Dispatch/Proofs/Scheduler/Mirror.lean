import Dispatch.Proofs.Scheduler.Outcomes
import Dispatch.Proofs.Selection.Choice
import Dispatch.Proofs.Wake.Pass

/-!
# The selector of a scheduler mirrors its queues

What the selector records about a queue is what the queue itself says (`Mirrors`).  An operation may
tell the selector only of a change that matters to it: that the front of a half is another one, not
that a task was added behind it.  `Mirrors.changeFront` and `Mirrors.set` are the two ways in which
a queue is replaced, with and without telling the selector.
-/

namespace Dispatch

/-- What a selector should record about a queue. -/
def Queue.enrolment (q : Queue) : Enrolment := ⟨q.level, q.enabled, q.fronts⟩

namespace Queue

variable {q : Queue} {h : Half}

theorem front_eq_none_iff : q.front h = none ↔ q.ready h = [] := by
  simp [front]

theorem enrolment_withReady (q : Queue) (h : Half) (ts : List ReadyTask) :
    (q.withReady h ts).enrolment =
      { q.enrolment with fronts := q.fronts.set h ((q.withReady h ts).front h) } := by
  cases h <;> rfl

theorem enrolment_post (q : Queue) (t : ReadyTask) :
    (q.post t).enrolment =
      if q.immediate.isEmpty then
        { q.enrolment with fronts := q.fronts.set .immediate (some t.stamp) }
      else q.enrolment := by
  unfold enrolment fronts front ready post
  rcases q.immediate with _ | ⟨u, us⟩ <;> rfl

theorem enrolment_postDelayed (q : Queue) (runTime : Ticks) (leeway : Duration) (policy : Policy)
    (high : Bool) (ticket : Ticket) :
    (q.postDelayed runTime leeway policy high ticket).enrolment = q.enrolment := rfl

theorem enrolment_trim (q : Queue) (isCanceled : Ticket → Bool) :
    (q.trim isCanceled).2.enrolment = q.enrolment := rfl

theorem enrolment_promote (q : Queue) (now : Ticks) (stamp : Stamp) (isCanceled : Ticket → Bool) :
    (q.promote now stamp isCanceled).2.enrolment =
      if q.delayed.isEmpty && !(q.promote now stamp isCanceled).2.delayed.isEmpty then
        { q.enrolment with
          fronts := q.fronts.set .delayed ((q.promote now stamp isCanceled).2.front .delayed) }
      else q.enrolment := by
  have immediate : (q.promote now stamp isCanceled).2.immediate = q.immediate := rfl
  obtain ⟨new, delayed⟩ : ∃ new, (q.promote now stamp isCanceled).2.delayed = q.delayed ++ new :=
    ⟨_, rfl⟩
  have level : (q.promote now stamp isCanceled).2.level = q.level := rfl
  have enabled : (q.promote now stamp isCanceled).2.enabled = q.enabled := rfl
  generalize (q.promote now stamp isCanceled).2 = q' at *
  unfold enrolment fronts front ready
  simp only [immediate, delayed, level, enabled]
  rcases q.delayed with _ | ⟨u, us⟩
  · rcases new with _ | ⟨t, ts⟩ <;> rfl
  · rfl

end Queue

namespace Scheduler

/-- The selector records about every queue what the queue says, and knows no other queues. -/
structure Mirrors (selector : Selector) (queues : Arena Queue) : Prop where
  wf : selector.WF
  records : ∀ q, selector.queues.find? q = (queues.get? q).map Queue.enrolment

variable {selector selector' : Selector} {queues : Arena Queue} {q : QueueId} {tq tq' : Queue}

theorem Mirrors.replace (m : Mirrors selector queues) (hq : queues.get? q = some tq)
    (w : selector'.WF) (hf : ∀ j, selector'.queues.find? j =
      if j = q then some tq'.enrolment else selector.queues.find? j) :
    Mirrors selector' (queues.set q tq') := by
  refine ⟨w, fun j => ?_⟩
  rw [hf, Arena.get?_set, hq]
  by_cases hj : j = q <;> simp [hj, m.records]

/-- A queue may be replaced silently if the selector has nothing to learn. -/
theorem Mirrors.set (m : Mirrors selector queues) (hq : queues.get? q = some tq)
    (he : tq'.enrolment = tq.enrolment) : Mirrors selector (queues.set q tq') := by
  refine m.replace hq m.wf fun j => ?_
  split_ifs with hj
  · rw [hj, m.records, hq, he]
    rfl
  · rfl

theorem Mirrors.changeFront (m : Mirrors selector queues) (hq : queues.get? q = some tq) (h : Half)
    {x : Option Stamp}
    (he : tq'.enrolment = { tq.enrolment with fronts := tq.fronts.set h x }) :
    Mirrors (selector.changeFront q h x) (queues.set q tq') := by
  refine m.replace hq (m.wf.changeFront q h x).wf fun j => ?_
  rw [Selector.find?_queues_changeFront, m.records, hq, he]
  rfl

theorem Mirrors.select (m : Mirrors selector queues) (scope : Scope) :
    Mirrors (selector.select scope).2 queues := by
  rcases m.wf.select_cases scope with ⟨-, e⟩ | ⟨l, pick, s', e, v⟩
  · rw [e]
    exact m
  · rw [e]
    exact ⟨v.wf m.wf, fun j => by rw [v.queues, m.records]⟩

/-- What is selected holds a task. -/
theorem Mirrors.ready_ne_nil (m : Mirrors selector queues) {scope : Scope} {pick : Pick}
    (hp : (selector.select scope).1 = some pick) :
    ∃ tq, queues.get? pick.queue = some tq ∧ tq.ready pick.half ≠ [] := by
  rcases m.wf.select_cases scope with ⟨-, e⟩ | ⟨l, pick', s', e, v⟩
  · rw [e] at hp
    cases hp
  · rw [e] at hp
    cases hp
    have found : ∀ {h q f}, selector.IsFront l h q f →
        ∃ tq, queues.get? q = some tq ∧ tq.ready h ≠ [] := by
      rintro h q f ⟨e, he, -, -, hf⟩
      rw [m.records, Option.map_eq_some_iff] at he
      obtain ⟨tq, hq, rfl⟩ := he
      refine ⟨tq, hq, fun hr => ?_⟩
      have : tq.enrolment.fronts.get h = tq.front h := by cases h <;> rfl
      rw [this, Queue.front_eq_none_iff.2 hr] at hf
      cases hf
    rcases v.due with hi | ⟨hi, -⟩ | ⟨hi, -⟩ | ⟨hd, -⟩
    · exact found hi.1
    · exact found hi.1
    · exact found hi.1
    · exact found hd.1

/-! ### Operations -/

/-- The selector of a scheduler mirrors its queues. -/
def Mirrored (k : Scheduler) : Prop := Mirrors k.selector k.queues

variable {k k' : Scheduler}

theorem mirrored_ofSettings (settings : Settings) : Mirrored (.ofSettings settings) where
  wf := Selector.wf_new settings
  records q := by
    have : (Arena.get? {} q : Option Queue) = none := by
      obtain ⟨_ | i, v⟩ := q <;> rfl
    show _ = (Arena.get? {} q).map Queue.enrolment
    rw [this]
    rfl

theorem Mirrored.create (m : Mirrored k) (name : String) (waking : Bool) :
    Mirrored (k.create name waking).2 := by
  let tq : Queue := { name := name, waking := waking }
  refine ⟨(m.wf.add _ _).wf, fun j => ?_⟩
  show (k.selector.add (k.queues.insert tq).1 tq.fronts).queues.find? j =
    ((k.queues.insert tq).2.get? j).map Queue.enrolment
  rw [Selector.find?_queues_add, m.records, Arena.get?_fst_insert, Arena.get?_insert, m.records]
  split_ifs <;> rfl

theorem Mirrored.remove (m : Mirrored k) {now : Ticks} {ts : List Ticket}
    (h : k.remove q now = .ok (ts, k')) : Mirrored k' := by
  cases outcome_remove h with
  | same => exact m
  | remove _ hq =>
      unfold Mirrored
      rw [selector_withAgenda, queues_withAgenda]
      refine ⟨(m.wf.remove q).wf, fun j => ?_⟩
      rw [Selector.find?_queues_remove, Arena.get?_erase, m.records]
      split_ifs <;> rfl

theorem Mirrored.setLevel (m : Mirrored k) {l : Level} (h : k.setLevel q l = .ok k') :
    Mirrored k' := by
  cases outcome_setLevel h with
  | same => exact m
  | setLevel _ hq =>
      refine Mirrors.replace m hq (m.wf.setLevel q l).wf fun j => ?_
      rw [Selector.find?_queues_setLevel, m.records, hq]
      rfl

theorem Mirrored.setEnabled (m : Mirrored k) {on : Bool} {now : Ticks}
    (h : k.setEnabled q on now = .ok k') : Mirrored k' := by
  cases outcome_setEnabled h with
  | same => exact m
  | enable _ hq =>
      unfold Mirrored
      rw [selector_withQueue, queues_withQueue]
      refine Mirrors.replace m hq (m.wf.enable q).wf fun j => ?_
      rw [Selector.find?_queues_enable, m.records, hq]
      rfl
  | disable _ hq =>
      unfold Mirrored
      rw [selector_withQueue, queues_withQueue]
      refine Mirrors.replace m hq (m.wf.disable q).wf fun j => ?_
      rw [Selector.find?_queues_disable, m.records, hq]
      rfl

theorem Mirrored.post (m : Mirrored k) {t : Ticket} (h : k.post q t = .ok k') : Mirrored k' := by
  cases outcome_post h with
  | same => exact m
  | @post _ tq _ hq =>
      have e := tq.enrolment_post ⟨k.stamps.issue.1, t⟩
      unfold Mirrored
      dsimp only
      split_ifs at e ⊢ with hi
      · exact Mirrors.changeFront m hq .immediate e
      · exact Mirrors.set m hq e

theorem Mirrored.postDelayed (m : Mirrored k) {delay leeway : Duration} {policy : Policy}
    {now : Ticks} {t : Ticket} (h : k.postDelayed q delay leeway policy now t = .ok k') :
    Mirrored k' := by
  cases outcome_postDelayed h with
  | same => exact m
  | @postDelayed _ tq _ _ _ _ _ hq =>
      unfold Mirrored
      rw [selector_withQueue, queues_withQueue]
      exact Mirrors.set m hq (tq.enrolment_postDelayed _ _ _ _ _)

/-! ### Passes -/

/-- The selector that a pass works on mirrors the queues that it works on. -/
def Stores.Mirrored (s : Stores) : Prop := Mirrors s.selector s.queues

theorem Stores.Mirrored.wake {s : Stores} (m : s.Mirrored) (isCanceled : Ticket → Bool)
    (q : QueueId) (now : Ticks) (stamp : Stamp) :
    (s.wake isCanceled q now stamp).2.Mirrored := by
  unfold Stores.wake
  cases hq : s.queues.get? q with
  | none => exact m
  | some tq =>
      have e := tq.enrolment_promote now stamp isCanceled
      unfold Stores.Mirrored
      dsimp only
      split_ifs at e ⊢ with hd
      · exact Mirrors.changeFront m hq .delayed e
      · exact Mirrors.set m hq e

theorem Stores.Mirrored.trim {s : Stores} (m : s.Mirrored) (isCanceled : Ticket → Bool)
    (q : QueueId) : (s.trim isCanceled q).2.Mirrored := by
  unfold Stores.trim
  cases hq : s.queues.get? q with
  | none => exact m
  | some tq => exact Mirrors.set m hq (tq.enrolment_trim isCanceled)

theorem Mirrored.afterPasses (p : Agenda.Pass Stores) {p' : Agenda.Pass Stores}
    (m : p'.owner.Mirrored) : Mirrored (k.afterPasses p p') := by
  unfold Mirrored
  rw [selector_afterPasses, queues_afterPasses]
  exact m

theorem Mirrored.promote (m : Mirrored k) (now : Ticks) (isCanceled : Ticket → Bool) :
    Mirrored (k.promote now isCanceled).2 := by
  unfold Scheduler.promote
  split_ifs
  · have pass : ∀ (a : Agenda) (stamp : Stamp) (n : Nat) (s : Stores), s.Mirrored →
        (a.promote (owner isCanceled) now stamp n s).owner.Mirrored := fun a stamp n s =>
      Agenda.owner_promote (fun q s m => m.wake isCanceled q now stamp) (fun q s m => m) n
    exact Mirrored.afterPasses _ (pass _ _ _ _ (pass _ _ _ _ m))
  · exact m

theorem Mirrored.sweep (m : Mirrored k) (now : Ticks) (isCanceled : Ticket → Bool) :
    Mirrored (k.sweep now isCanceled).2 := by
  have pass : ∀ (a : Agenda) (n : Nat) (s : Stores), s.Mirrored →
      (a.trim (owner isCanceled) now n s).owner.Mirrored := fun a n s =>
    Agenda.owner_trim (fun q s m => m.trim isCanceled q) (fun q s m => m) n
  exact Mirrored.afterPasses _ (pass _ _ _ (pass _ _ _ m))

/-! ### Taking a task -/

theorem takeFront_of_ready {pick : Pick} {t : ReadyTask} {rest : List ReadyTask}
    (hq : k.queues.get? pick.queue = some tq) (hr : tq.ready pick.half = t :: rest) :
    k.takeFront pick = some (t.ticket,
      { k with
        queues := k.queues.set pick.queue (tq.withReady pick.half rest)
        selector := k.selector.changeFront pick.queue pick.half
          ((tq.withReady pick.half rest).front pick.half) }) := by
  unfold takeFront
  rw [hq]
  dsimp only
  rw [hr]

/-- A task is taken whenever a half is selected, namely the front task of that half. -/
theorem Mirrored.take_cases (m : Mirrored k) (isCanceled : Ticket → Bool) :
    (k.selector.select .bothHalves = (none, k.selector) ∧ k.take isCanceled = (none, k)) ∨
      ∃ pick selector tq t rest, k.selector.select .bothHalves = (some pick, selector) ∧
        k.queues.get? pick.queue = some tq ∧ tq.ready pick.half = t :: rest ∧
        k.take isCanceled = (some t.ticket,
          { k with
            queues := k.queues.set pick.queue (tq.withReady pick.half rest)
            selector := selector.changeFront pick.queue pick.half
              ((tq.withReady pick.half rest).front pick.half)
            tasksRun := if isCanceled t.ticket then k.tasksRun else k.tasksRun + 1 }) := by
  unfold Scheduler.take
  rcases m.wf.select_cases .bothHalves with ⟨-, e⟩ | ⟨l, pick, selector, e, v⟩
  · rw [e]
    exact Or.inl ⟨rfl, rfl⟩
  · obtain ⟨tq, hq, hr⟩ := Mirrors.ready_ne_nil m (by rw [e])
    obtain ⟨t, rest, hr⟩ := List.exists_cons_of_ne_nil hr
    refine Or.inr ⟨pick, selector, tq, t, rest, e, hq, hr, ?_⟩
    rw [e]
    dsimp only [Option.bind_some]
    rw [takeFront_of_ready (k := { k with selector := selector }) hq hr]
    dsimp only
    split_ifs <;> rfl

theorem Mirrored.outcome_take (m : Mirrored k) (isCanceled : Ticket → Bool) :
    Outcome k (.take isCanceled) (k.take isCanceled).2 := by
  rcases m.take_cases isCanceled with ⟨-, e⟩ | ⟨pick, selector, tq, t, rest, selected, hq, front, e⟩
  · rw [e]
    exact .same _
  · rw [e]
    exact .take isCanceled selected hq front

/-- What an operation does. -/
theorem Mirrored.outcome (m : Mirrored k) (op : Operation) : Outcome k op (k.perform op) := by
  by_cases takes : ∃ isCanceled, op = .take isCanceled
  · obtain ⟨isCanceled, rfl⟩ := takes
    exact m.outcome_take isCanceled
  · exact k.outcome op fun isCanceled e => takes ⟨isCanceled, e⟩

/-- If no task is taken, nothing changes. -/
theorem Mirrored.take_eq_of_none (m : Mirrored k) {isCanceled : Ticket → Bool}
    (none_taken : (k.take isCanceled).1 = none) : k.take isCanceled = (none, k) := by
  rcases m.take_cases isCanceled with ⟨-, e⟩ | ⟨_, _, _, _, _, -, -, -, e⟩
  · exact e
  · rw [e] at none_taken
    cases none_taken

theorem Mirrored.take (m : Mirrored k) (isCanceled : Ticket → Bool) :
    Mirrored (k.take isCanceled).2 := by
  have o := m.outcome_take isCanceled
  generalize (k.take isCanceled).2 = k' at o ⊢
  cases o with
  | same => exact m
  | @take _ pick selector tq t rest selected hq =>
      have m' : Mirrors selector k.queues := by
        have := Mirrors.select m .bothHalves
        rwa [selected] at this
      exact m'.changeFront hq pick.half (tq.enrolment_withReady pick.half rest)

theorem Reachable.mirrored {settings : Settings} (r : Reachable settings k) : Mirrored k := by
  induction r with
  | start => exact mirrored_ofSettings settings
  | create _ name waking ih => exact ih.create name waking
  | remove _ h ih => exact ih.remove h
  | setLevel _ h ih => exact ih.setLevel h
  | setEnabled _ h ih => exact ih.setEnabled h
  | post _ h ih => exact ih.post h
  | postDelayed _ h ih => exact ih.postDelayed h
  | promote _ now isCanceled ih => exact ih.promote now isCanceled
  | sweep _ now isCanceled ih => exact ih.sweep now isCanceled
  | take _ isCanceled ih => exact ih.take isCanceled
  | takeWorkRequest _ ih => exact ih

end Scheduler

end Dispatch
