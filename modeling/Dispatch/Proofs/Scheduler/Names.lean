import Dispatch.Proofs.Queue.Arena
import Dispatch.Proofs.Scheduler.Effects

/-!
# Names of queues

Several queues may have one name, and the name stands for one of them at most.  `Renames` says what
an operation does to the names that queues have and to what names stand for.  Making a queue gives
its name to it if the name stands for none; removing the queue for which a name stands frees the
name (`Frees`); nothing else changes either.  So a name stands for a queue only while that is there
(`Reachable.named`).
-/

namespace Dispatch.Scheduler

variable {settings : Settings} {k k' : Scheduler} {op : Operation} {q : QueueId} {tq tq' : Queue}
  {ts : List Ticket} {now : Ticks} {name : String}

/-! ### Ids of queues -/

theorem spent_of_remove (h : k.remove q now = .ok (ts, k')) : k'.queues.Spent q := by
  obtain ⟨tq, hq, e⟩ := ok_of_queue h
  obtain ⟨-, rfl⟩ := Prod.mk.inj e
  rw [queues_withAgenda]
  exact Arena.spent_erase hq

theorem Outcome.spent (o : Outcome k op k') (spent : k.queues.Spent q) : k'.queues.Spent q :=
  o.queues (P := fun a => a.Spent q) (fun _ tq h => h.insert tq) (fun _ j _ _ h => h.erase j)
    (fun _ j tq h => h.set j tq) spent

/-- An id that is spent stays so. -/
theorem Reachable.spent_run (r : Reachable settings k) (spent : k.queues.Spent q)
    (ops : List Operation) : (k.run ops).queues.Spent q := by
  induction ops generalizing k with
  | nil => exact spent
  | cons op ops ih => exact ih (r.perform op) ((r.mirrored.outcome op).spent spent)

/-- A new queue is not given an id that is spent. -/
theorem create_ne (spent : k.queues.Spent q) (name : String) (waking : Bool) :
    (k.create name waking).1 ≠ q := by
  let tq : Queue := { name := name, waking := waking }
  rintro rfl
  have lost := (spent.insert tq).get?_eq_none
  rw [show (k.queues.insert tq).2.get? (k.create name waking).1 = some tq from
    (k.queues.get?_insert tq _).trans (if_pos rfl)] at lost
  cases lost

/-! ### One operation -/

/-- A name stands for a queue that is there, and that has that name. -/
def Named (k : Scheduler) : Prop :=
  ∀ name q, k.names.find? name = some q → ∃ tq, k.queues.get? q = some tq ∧ tq.name = name

theorem Treats.name_eq (t : Treats k k' q op tq tq') : tq'.name = tq.name := by
  cases t with
  | @take _ _ h => cases h <;> rfl
  | _ => rfl

/-- Only making and removing queues changes what names stand for. -/
theorem Outcome.names_eq (o : Outcome k op k') (create : ∀ name waking, op ≠ .create name waking)
    (remove : ∀ q now, op ≠ .remove q now) : k'.names = k.names := by
  cases o with
  | same | setLevel | post | take | takeWorkRequest => rfl
  | create name waking => exact absurd rfl (create name waking)
  | @remove q _ now => exact absurd rfl (remove q now)
  | enable | disable | postDelayed =>
      exact withQueue_frame (f := Scheduler.names) (fun _ _ _ _ _ => rfl) _ _ _ _
  | promote | sweep =>
      exact afterPasses_frame (f := Scheduler.names) (fun _ _ _ _ _ _ => rfl) _ _ _

/-- The name of a queue that is there. -/
def nameOf? (k : Scheduler) (q : QueueId) : Option String := (k.queues.get? q).map (·.name)

/-- The queue that an operation makes. -/
def made? (k : Scheduler) : Operation → Option QueueId
  | .create name waking => some (k.create name waking).1
  | _ => none

/-- The operation removes the queue for which the name stands. -/
def Frees (k : Scheduler) (name : String) (op : Operation) : Prop :=
  ∃ q now, op = .remove q now ∧ k.queueByName? name = some q

/-- What an operation from `k` to `k'` does to the names of the queues, and to what names stand
for. -/
inductive Renames (k k' : Scheduler) : Operation → Prop
  | create (name : String) (waking : Bool) {q : QueueId} (made : (k.create name waking).1 = q)
      (new : k.nameOf? q = none)
      (nameOf : ∀ j, k'.nameOf? j = if j = q then some name else k.nameOf? j)
      (stands : ∀ n, k'.queueByName? n =
        if n = name ∧ k.queueByName? n = none then some q else k.queueByName? n) :
      Renames k k' (.create name waking)
  | remove (q : QueueId) (now : Ticks) {name : String} (there : k.nameOf? q = some name)
      (spent : k'.queues.Spent q)
      (nameOf : ∀ j, k'.nameOf? j = if j = q then none else k.nameOf? j)
      (stands : ∀ n, k'.queueByName? n =
        if n = name ∧ k.queueByName? n = some q then none else k.queueByName? n) :
      Renames k k' (.remove q now)
  | leave {op : Operation} (unmade : k.made? op = none)
      (refused : ∀ q now, op = .remove q now → k.nameOf? q = none)
      (nameOf : ∀ j, k'.nameOf? j = k.nameOf? j)
      (stands : ∀ n, k'.queueByName? n = k.queueByName? n) : Renames k k' op

theorem renames_create (k : Scheduler) (name : String) (waking : Bool) :
    Renames k (k.create name waking).2 (.create name waking) := by
  let tq : Queue := { name := name, waking := waking }
  refine .create name waking rfl ?_ (fun j => ?_) fun n => ?_
  · show (k.queues.get? (k.queues.insert tq).1).map (·.name) = none
    rw [Arena.get?_fst_insert]
    rfl
  · show ((k.queues.insert tq).2.get? j).map (·.name) = _
    rw [Arena.get?_insert]
    by_cases new : j = (k.queues.insert tq).1
    · rw [if_pos new]
      exact (if_pos new).symm
    · rw [if_neg new]
      exact (if_neg new).symm
  · show (if k.names.contains name then k.names
      else k.names.insert name (k.queues.insert tq).1).find? n = _
    unfold queueByName? Table.contains
    cases bound : k.names.find? name with
    | none =>
        rw [Option.isSome_none, if_neg Bool.false_ne_true, Table.find?_insert]
        by_cases same : n = name
        · subst same
          rw [if_pos rfl, if_pos ⟨rfl, bound⟩]
          rfl
        · rw [if_neg same, if_neg fun h => same h.1]
    | some j =>
        rw [Option.isSome_some, if_pos rfl, if_neg]
        rintro ⟨rfl, free⟩
        rw [bound] at free
        cases free

theorem renames_remove (h : k.remove q now = .ok (ts, k')) : Renames k k' (.remove q now) := by
  obtain ⟨tq, hq, e⟩ := ok_of_queue h
  obtain ⟨-, rfl⟩ := Prod.mk.inj e
  have there : k.nameOf? q = some tq.name := Option.map_eq_some_iff.2 ⟨tq, hq, rfl⟩
  refine .remove q now there (spent_of_remove h) (fun j => ?_) fun n => ?_
  · unfold nameOf?
    rw [queues_withAgenda, Arena.get?_erase]
    split_ifs <;> rfl
  · unfold queueByName?
    rw [withAgenda_frame (f := Scheduler.names) fun _ _ _ _ => rfl]
    dsimp only
    by_cases stood : k.names.find? tq.name = some q
    · rw [if_pos stood, Table.find?_erase]
      by_cases same : n = tq.name
      · rw [if_pos same, if_pos ⟨same, same ▸ stood⟩]
      · rw [if_neg same, if_neg fun h => same h.1]
    · rw [if_neg stood, if_neg]
      rintro ⟨rfl, stands⟩
      exact stood stands

/-- Operations that neither make a queue nor remove one leave all names. -/
theorem Reachable.nameOf?_perform (r : Reachable settings k)
    (create : ∀ name waking, op ≠ .create name waking) (remove : ∀ q now, op ≠ .remove q now)
    (j : QueueId) : (k.perform op).nameOf? j = k.nameOf? j := by
  unfold nameOf?
  cases hj : k.queues.get? j with
  | some tq =>
      obtain ⟨tq', hj', t⟩ := r.treats_get? hj fun now => remove j now
      rw [hj', Option.map_some, Option.map_some, t.name_eq]
  | none =>
      cases hj' : (k.perform op).queues.get? j with
      | none => rfl
      | some tq' =>
          rcases r.treats hj' with ⟨name, waking, e, -⟩ | ⟨tq, htq, -⟩
          · exact absurd e (create name waking)
          · rw [hj] at htq
            cases htq

theorem Reachable.renames (r : Reachable settings k) (op : Operation) :
    Renames k (k.perform op) op := by
  by_cases create : ∃ name waking, op = .create name waking
  · obtain ⟨name, waking, rfl⟩ := create
    exact renames_create k name waking
  by_cases remove : ∃ q now, op = .remove q now
  · obtain ⟨q, now, rfl⟩ := remove
    cases h : k.remove q now with
    | ok x =>
        rw [perform_remove_of_ok h]
        exact renames_remove h
    | error e =>
        have same : k.perform (.remove q now) = k := by
          show k.orUnchanged ((k.remove q now).map (·.2)) = k
          rw [h]
          rfl
        rw [same]
        refine .leave rfl (fun j t e => ?_) (fun _ => rfl) fun _ => rfl
        cases e
        unfold nameOf?
        cases hq : k.queues.get? q with
        | none => rfl
        | some tq =>
            unfold Scheduler.remove queue at h
            rw [hq] at h
            cases h
  · push Not at create remove
    refine .leave ?_ (fun q now e => absurd e (remove q now)) (r.nameOf?_perform create remove)
      fun n => ?_
    · cases op with
      | create name waking => exact absurd rfl (create name waking)
      | _ => rfl
    · unfold queueByName?
      rw [(r.mirrored.outcome op).names_eq create remove]

/-- A queue is new, or had its name before. -/
theorem Renames.made?_or_nameOf? (e : Renames k k' op) (there : k'.nameOf? q = some name) :
    k.made? op = some q ∨ k.nameOf? q = some name := by
  cases e with
  | create other waking made new nameOf stands =>
      rw [nameOf] at there
      split_ifs at there with same
      · exact Or.inl (congrArg some (made.trans same.symm))
      · exact Or.inr there
  | remove j now found spent nameOf stands =>
      rw [nameOf] at there
      split_ifs at there
      exact Or.inr there
  | leave unmade refused nameOf stands =>
      rw [nameOf] at there
      exact Or.inr there

/-- A queue keeps its name until its id is spent. -/
theorem Renames.nameOf?_or_spent (e : Renames k k' op) (there : k.nameOf? q = some name) :
    k'.nameOf? q = some name ∨ k'.queues.Spent q := by
  cases e with
  | create other waking made new nameOf stands =>
      refine Or.inl ?_
      rw [nameOf, if_neg]
      · exact there
      · rintro rfl
        rw [there] at new
        cases new
  | remove j now found spent nameOf stands =>
      by_cases same : q = j
      · exact Or.inr (same ▸ spent)
      · exact Or.inl (by rw [nameOf, if_neg same, there])
  | leave unmade refused nameOf stands => exact Or.inl (by rw [nameOf, there])

/-- A queue that is made was not there before and has a name afterwards. -/
theorem Renames.nameOf?_of_made? (e : Renames k k' op) (new : k.made? op = some q) :
    k.nameOf? q = none ∧ ∃ name, k'.nameOf? q = some name := by
  cases e with
  | create other waking made absent nameOf stands =>
      cases made.symm.trans (Option.some.inj new)
      exact ⟨absent, other, by rw [nameOf, if_pos rfl]⟩
  | remove => cases new
  | leave unmade refused nameOf stands =>
      rw [unmade] at new
      cases new

theorem Renames.named (e : Renames k k' op) (n : Named k) : Named k' := by
  intro other j now_stands
  have old : k.queueByName? other = some j → k.nameOf? j = some other := fun stood =>
    Option.map_eq_some_iff.2 (n other j stood)
  refine Option.map_eq_some_iff.1 ?_
  change k'.queueByName? other = some j at now_stands
  show k'.nameOf? j = some other
  cases e with
  | create name waking made new nameOf stands =>
      rw [stands] at now_stands
      rw [nameOf]
      split_ifs at now_stands with free
      · cases now_stands
        rw [if_pos rfl, free.1]
      · rw [if_neg]
        · exact old now_stands
        · rintro rfl
          rw [old now_stands] at new
          cases new
  | @remove q now name found spent nameOf stands =>
      rw [stands] at now_stands
      split_ifs at now_stands with freed
      rw [nameOf, if_neg]
      · exact old now_stands
      · -- the name of the removed queue does not stand for it any more
        rintro rfl
        exact freed ⟨Option.some.inj ((old now_stands).symm.trans found), now_stands⟩
  | leave unmade refused nameOf stands =>
      rw [stands] at now_stands
      rw [nameOf, old now_stands]

theorem Reachable.named (r : Reachable settings k) : Named k := by
  refine r.induct_perform (P := Named) ?_ fun k op r n => (r.renames op).named n
  intro name q stands
  cases stands

theorem Reachable.nameOf?_of_queueByName? (r : Reachable settings k)
    (stood : k.queueByName? name = some q) : k.nameOf? q = some name :=
  Option.map_eq_some_iff.2 (r.named name q stood)

/-- An operation that removes the queue for which a name stands leaves the name to none. -/
theorem Reachable.queueByName?_of_frees (r : Reachable settings k) (free : k.Frees name op) :
    (k.perform op).queueByName? name = none := by
  obtain ⟨q, now, rfl, stood⟩ := free
  have there := r.nameOf?_of_queueByName? stood
  cases r.renames (.remove q now) with
  | @remove _ _ other found spent nameOf stands =>
      rw [stands, if_pos ⟨Option.some.inj (there.symm.trans found), stood⟩]
  | leave unmade refused nameOf stands =>
      rw [refused q now rfl] at there
      cases there

end Dispatch.Scheduler
