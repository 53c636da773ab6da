import Dispatch.Proofs.Scheduler.Mirror
import Dispatch.Proofs.Scheduler.Run
import Dispatch.Proofs.Selection.Starvation

/-!
# The selector of a scheduler is the end of a run

Whatever a scheduler does to its selector is one of the actions of the selector, and `Tells` lists
the actions that an operation may take.  So the selector is the end of a run (`Reachable.leads`),
and what holds after every run of a selector holds of it, such as that its settings never change
(`Reachable.settings_selector`).
-/

namespace Dispatch

namespace Scheduler

/-- The actions by which an operation tells the selector what it does. -/
inductive Tells : Operation → List Action → Prop
  | nothing (op : Operation) : Tells op []
  | once (op : Operation) {a : Action} (quiet : ∀ scope, a ≠ .select scope) : Tells op [a]
  | promote (now : Ticks) (isCanceled : Ticket → Bool) {as : List Action}
      (fronts : ∀ a ∈ as, ∃ q x, a = .changeFront q .delayed x) : Tells (.promote now isCanceled) as
  | take (isCanceled : Ticket → Bool) (q : QueueId) (h : Half) (x : Option Stamp) :
      Tells (.take isCanceled) [.select .bothHalves, .changeFront q h x]

variable {settings : Settings} {k : Scheduler} {now : Ticks} {isCanceled : Ticket → Bool}
  {op : Operation} {as : List Action} {scope : Scope}

/-- Only taking a task selects, and considers both halves. -/
theorem Tells.of_select (e : Tells op as) (mem : .select scope ∈ as) :
    scope = .bothHalves ∧ ∃ isCanceled, op = .take isCanceled := by
  cases e with
  | nothing => cases mem
  | once _ quiet => exact absurd (List.mem_singleton.1 mem).symm (quiet scope)
  | promote _ _ fronts =>
      obtain ⟨q, x, e⟩ := fronts _ mem
      cases e
  | take isCanceled => exact ⟨by simpa using mem, isCanceled, rfl⟩

/-- If an immediate task is ready at a level before an operation, and there is work after it, there
is work in between. -/
theorem Tells.hasWork {s : Selector} {p : Level} {q : QueueId} {f : Stamp} (e : Tells op as)
    (w : s.WF) (front : s.IsFront p .immediate q f) (work : (s.run as).HasWork .bothHalves p)
    (n : Nat) : (s.run (as.take n)).HasWork .bothHalves p := by
  have start : s.HasWork .bothHalves p := ⟨.immediate, q, f, trivial, front⟩
  cases e with
  | nothing => rwa [List.take_nil]
  | once _ quiet =>
      cases n with
      | zero => exact start
      | succ n => rwa [List.take_of_length_le (Nat.le_add_left 1 n)]
  | promote _ _ fronts =>
      exact ⟨.immediate, q, f, trivial, front.run fun a ha => fronts a (List.mem_of_mem_take ha)⟩
  | take _ j h x =>
      match n with
      | 0 => exact start
      | 1 =>
          -- a selection changes no fronts
          rcases w.select_cases .bothHalves with ⟨-, e⟩ | ⟨l, pick, s', e, v⟩
          · show ((s.select .bothHalves).2).HasWork .bothHalves p
            rwa [e]
          · show ((s.select .bothHalves).2).HasWork .bothHalves p
            rw [e]
            exact (v.hasWork_iff p).2 start
      | n + 2 => rwa [List.take_of_length_le (Nat.le_add_left 2 n)]

/-! ### Passes -/

/-- From one selector to the other, new fronts of delayed halves are all that is told. -/
def Promotes (s s' : Selector) : Prop :=
  ∃ as, (∀ a ∈ as, ∃ q x, a = .changeFront q .delayed x) ∧ s.run as = s'

theorem Promotes.changeFront {s s' : Selector} (h : Promotes s s') (q : QueueId)
    (x : Option Stamp) : Promotes s (s'.changeFront q .delayed x) := by
  obtain ⟨as, fronts, rfl⟩ := h
  refine ⟨as ++ [.changeFront q .delayed x], fun a ha => ?_, Selector.run_append s as _⟩
  rcases List.mem_append.1 ha with ha | ha
  · exact fronts a ha
  · exact ⟨q, x, List.mem_singleton.1 ha⟩

theorem promotes_wake {s₀ : Selector} {s : Stores} (h : Promotes s₀ s.selector) (q : QueueId)
    (stamp : Stamp) : Promotes s₀ (s.wake isCanceled q now stamp).2.selector := by
  unfold Stores.wake
  cases s.queues.get? q with
  | none => exact h
  | some tq =>
      dsimp only
      split_ifs
      · exact h.changeFront q _
      · exact h

theorem promotes_pass {s₀ : Selector} {s : Stores} (h : Promotes s₀ s.selector) (a : Agenda)
    (now : Ticks) (stamp : Stamp) (isCanceled : Ticket → Bool) (rounds : Nat) :
    Promotes s₀ (a.promote (owner isCanceled) now stamp rounds s).owner.selector :=
  Agenda.owner_promote (o := owner isCanceled) (I := fun s => Promotes s₀ s.selector)
    (fun q _ h => promotes_wake h q stamp) (fun _ _ h => h) rounds h

theorem selector_trim (s : Stores) (a : Agenda) (now : Ticks) (isCanceled : Ticket → Bool)
    (rounds : Nat) : (a.trim (owner isCanceled) now rounds s).owner.selector = s.selector := by
  refine Agenda.owner_trim (o := owner isCanceled) (I := fun s' => s'.selector = s.selector)
    (fun q s' h => ?_) (fun _ _ h => h) rounds rfl
  show (s'.trim isCanceled q).2.selector = s.selector
  unfold Stores.trim
  cases s'.queues.get? q <;> exact h

/-! ### Operations -/

theorem Outcome.tells {k' : Scheduler} (o : Outcome k op k') :
    ∃ as, Tells op as ∧ k.selector.run as = k'.selector := by
  cases o with
  | same | takeWorkRequest => exact ⟨[], .nothing _, rfl⟩
  | create => exact ⟨[.add _ _], .once _ nofun, rfl⟩
  | @remove q =>
      rw [selector_withAgenda]
      exact ⟨[.remove q], .once _ nofun, rfl⟩
  | @setLevel q _ l => exact ⟨[.setLevel q l], .once _ nofun, rfl⟩
  | @enable q =>
      rw [selector_withQueue]
      exact ⟨[.enable q], .once _ nofun, rfl⟩
  | @disable q =>
      rw [selector_withQueue]
      exact ⟨[.disable q], .once _ nofun, rfl⟩
  | @post q =>
      dsimp only
      split_ifs
      · exact ⟨[.changeFront q .immediate _], .once _ nofun, rfl⟩
      · exact ⟨[], .nothing _, rfl⟩
  | postDelayed =>
      rw [selector_withQueue]
      exact ⟨[], .nothing _, rfl⟩
  | @promote now isCanceled _ _ _ first second =>
      rw [selector_afterPasses, second, first]
      have start : Promotes k.selector k.stores.selector := ⟨[], nofun, rfl⟩
      obtain ⟨as, fronts, run⟩ := promotes_pass
        (promotes_pass start k.wakingAgenda now k.stamps.issue.1 isCanceled _)
        k.nonWakingAgenda now k.stamps.issue.1 isCanceled _
      exact ⟨as, .promote now isCanceled fronts, run⟩
  | sweep first second =>
      rw [selector_afterPasses, second, first, selector_trim, selector_trim]
      exact ⟨[], .nothing _, rfl⟩
  | @take isCanceled pick s tq t rest selected =>
      obtain rfl : k.selector.act (.select .bothHalves) = s := congrArg Prod.snd selected
      exact ⟨_, .take isCanceled pick.queue pick.half _, rfl⟩

/-- The actions of an operation lead to the selector that it leaves. -/
theorem Reachable.tells (r : Reachable settings k) (op : Operation) :
    ∃ as, Tells op as ∧ k.selector.run as = (k.perform op).selector :=
  (r.mirrored.outcome op).tells

/-- The selector of a scheduler is what actions make of a new one. -/
theorem Reachable.leads (r : Reachable settings k) :
    ∃ as, Selector.run { settings := settings } as = k.selector := by
  let start : Selector := { settings := settings }
  refine r.induct_perform (P := fun k => ∃ as, start.run as = k.selector) ⟨[], rfl⟩
    fun k op r ⟨as, run⟩ => ?_
  obtain ⟨bs, -, run'⟩ := r.tells op
  exact ⟨as ++ bs, by rw [Selector.run_append, run, run']⟩

theorem Reachable.settings_selector (r : Reachable settings k) :
    k.selector.settings = settings := by
  obtain ⟨as, h⟩ := r.leads
  rw [← h, ← Selector.Log.selector_run]
  exact Selector.Log.settings_run settings as

end Scheduler

end Dispatch
