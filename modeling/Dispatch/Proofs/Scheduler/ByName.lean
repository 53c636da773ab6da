import Dispatch.Proofs.Scheduler.Names
import Mathlib.Data.List.Find
import Mathlib.Data.List.Induction

/-!
# What a name stands for

A name that is free stands for nothing until a queue is made with it: it does not pass to a queue
with the name that is there already.  So after a run a name stands for the first of the queues with
that name that were made since the name was last freed (`queueByName?_run`).  That is the first one
of all that are there, unless at some time the queue for which the name stood was removed while
another one had the name.  Then the other one cannot be found by its name any more
(`not_found_though_there`).
-/

namespace Dispatch.Scheduler

variable {settings : Settings} {k k' : Scheduler} {op : Operation} {q : QueueId} {name : String}
  {qs : List QueueId}

/-! ### The queues that a run makes -/

/-- The queues that a run makes, in order. -/
def made (k : Scheduler) : List Operation → List QueueId
  | [] => []
  | op :: ops => (k.made? op).toList ++ (k.perform op).made ops

/-- The first of some queues that is there under a name. -/
def firstNamed? (k : Scheduler) (name : String) (qs : List QueueId) : Option QueueId :=
  qs.find? fun q => k.nameOf? q = some name

theorem run_concat (k : Scheduler) (ops : List Operation) (op : Operation) :
    k.run (ops ++ [op]) = (k.run ops).perform op :=
  run_append k ops [op]

theorem made_concat (k : Scheduler) (ops : List Operation) (op : Operation) :
    k.made (ops ++ [op]) = k.made ops ++ ((k.run ops).made? op).toList := by
  induction ops generalizing k with
  | nil => exact List.append_nil _
  | cons op' ops ih =>
      show (k.made? op').toList ++ (k.perform op').made (ops ++ [op]) =
        ((k.made? op').toList ++ (k.perform op').made ops) ++ _
      rw [ih, List.append_assoc]
      rfl

/-- A queue that was made is there, or its id is spent. -/
theorem Reachable.spent_of_made (r : Reachable settings k) (ops : List Operation)
    (mem : q ∈ k.made ops) :
    (k.run ops).queues.Spent q ∨ ∃ name, (k.run ops).nameOf? q = some name := by
  induction ops using List.reverseRecOn with
  | nil => cases mem
  | append_singleton ops op ih =>
      have e := (r.run ops).renames op
      rw [made_concat, List.mem_append, Option.mem_toList] at mem
      rw [run_concat]
      rcases mem with old | new
      · rcases ih old with spent | ⟨name, there⟩
        · exact Or.inl ((r.run ops).spent_run spent [op])
        · rcases e.nameOf?_or_spent there with there | spent
          · exact Or.inr ⟨name, there⟩
          · exact Or.inl spent
      · exact Or.inr (e.nameOf?_of_made? new).2

/-- A new queue is none of those that were made before. -/
theorem Reachable.not_mem_made (r : Reachable settings k) (ops : List Operation)
    (new : (k.run ops).made? op = some q) : q ∉ k.made ops := by
  intro mem
  obtain ⟨absent, name, there⟩ := ((r.run ops).renames op).nameOf?_of_made? new
  rcases r.spent_of_made ops mem with spent | ⟨other, found⟩
  · have gone := ((r.run ops).spent_run spent [op]).get?_eq_none
    obtain ⟨tq, hq, -⟩ := Option.map_eq_some_iff.1 there
    exact Option.some_ne_none tq (hq.symm.trans gone)
  · rw [absent] at found
    cases found

/-- Every queue that is there was made. -/
theorem mem_made (settings : Settings) (ops : List Operation)
    (there : ((ofSettings settings).run ops).nameOf? q = some name) :
    q ∈ (ofSettings settings).made ops := by
  induction ops using List.reverseRecOn generalizing name with
  | nil =>
      obtain ⟨tq, hq, -⟩ := Option.map_eq_some_iff.1 there
      exact absurd (hq.symm.trans (get?_ofSettings settings q)) (Option.some_ne_none tq)
  | append_singleton ops op ih =>
      rw [run_concat] at there
      rw [made_concat, List.mem_append, Option.mem_toList]
      rcases ((Reachable.start.run ops).renames op).made?_or_nameOf? there with new | there
      · exact Or.inr new
      · exact Or.inl (ih there)

/-! ### What a name stands for -/

/-- What is found first stays so when fewer elements qualify, as long as it does. -/
theorem find?_eq_of_imp {α : Type} {xs : List α} {p p' : α → Bool}
    (imp : ∀ x ∈ xs, p' x = true → p x = true) (first : ∀ x, xs.find? p = some x → p' x = true) :
    xs.find? p' = xs.find? p := by
  cases found : xs.find? p with
  | none =>
      refine List.find?_eq_none.2 fun x mem h => ?_
      exact List.find?_eq_none.1 found x mem (imp x mem h)
  | some x =>
      obtain ⟨-, before, after, rfl, skipped⟩ := List.find?_eq_some_iff_append.1 found
      refine List.find?_eq_some_iff_append.2 ⟨first x found, before, after, rfl, fun y mem => ?_⟩
      have passed := skipped y mem
      have allowed := imp y (List.mem_append_left _ mem)
      cases h : p' y with
      | false => rfl
      | true => rw [allowed h] at passed; cases passed

/-- If the name stands for the first queue of a list, then it does so with the queue that an
operation makes at the end of the list, after an operation that does not free the name. -/
theorem Renames.queueByName?_eq (e : Renames k k' op) (kept : ¬ k.Frees name op)
    (first : k.queueByName? name = k.firstNamed? name qs)
    (unmade : ∀ q, k.made? op = some q → q ∉ qs) :
    k'.queueByName? name = k'.firstNamed? name (qs ++ (k.made? op).toList) := by
  unfold firstNamed? at *
  cases e with
  | @create other waking q made new nameOf stands =>
      have old : qs.find? (fun q => k'.nameOf? q = some name) =
          qs.find? fun q => k.nameOf? q = some name := by
        refine List.find?_congr fun j mem => ?_
        rw [nameOf, if_neg]
        rintro rfl
        exact unmade j (congrArg some made) mem
      have here : k'.nameOf? q = some other := by rw [nameOf, if_pos rfl]
      have last : (k.made? (.create other waking)).toList = [q] := by
        rw [← made]
        rfl
      rw [last, List.find?_append, old, ← first, stands]
      cases k.queueByName? name with
      | some j => simp
      | none => simp [here, eq_comm]
  | @remove q now other there spent nameOf stands =>
      have unfreed : k.queueByName? name ≠ some q := fun stood => kept ⟨q, now, rfl, stood⟩
      rw [show (k.made? (.remove q now)).toList = [] from rfl, List.append_nil, stands,
        if_neg fun h => unfreed h.2, first]
      refine (find?_eq_of_imp (fun j mem named => ?_) fun j found => ?_).symm
      · rw [nameOf] at named
        split_ifs at named with same
        · simp at named
        · exact named
      · rw [nameOf, if_neg]
        · exact List.find?_some (p := fun j => decide (k.nameOf? j = some name)) found
        · rintro rfl
          exact unfreed (first.trans found)
  | leave unmade refused nameOf stands =>
      rw [unmade, Option.toList_none, List.append_nil, stands, first]
      simp only [nameOf]

/-- The name was last freed at the end of the run `before`, if ever, and not in the run `after`. -/
structure LastFreed (k : Scheduler) (name : String) (before after : List Operation) : Prop where
  freed : before = [] ∨ ∃ past op, before = past ++ [op] ∧ (k.run past).Frees name op
  kept : ∀ ops op, ops ++ [op] <+: after → ¬ ((k.run before).run ops).Frees name op

theorem exists_lastFreed (settings : Settings) (ops : List Operation) (name : String) :
    ∃ before after, ops = before ++ after ∧ LastFreed (ofSettings settings) name before after ∧
      ((ofSettings settings).run ops).queueByName? name =
        ((ofSettings settings).run ops).firstNamed? name
          (((ofSettings settings).run before).made after) := by
  induction ops using List.reverseRecOn with
  | nil => exact ⟨[], [], rfl, ⟨Or.inl rfl, fun ops op sub => by simp at sub⟩, rfl⟩
  | append_singleton ops op ih =>
      have r : Reachable settings ((ofSettings settings).run ops) := Reachable.start.run ops
      rw [run_concat]
      by_cases free : ((ofSettings settings).run ops).Frees name op
      · refine ⟨ops ++ [op], [], (List.append_nil _).symm,
          ⟨Or.inr ⟨ops, op, rfl, free⟩, fun ops op sub => by simp at sub⟩, ?_⟩
        exact r.queueByName?_of_frees free
      · obtain ⟨before, after, rfl, last, first⟩ := ih
        have split := run_append (ofSettings settings) before after
        refine ⟨before, after ++ [op], List.append_assoc .., ⟨last.freed, fun xs op' sub => ?_⟩, ?_⟩
        · rcases List.prefix_concat_iff.1 sub with e | sub
          · obtain ⟨rfl, rfl⟩ : xs = after ∧ op' = op := by simpa using e
            rwa [← split]
          · exact last.kept xs op' sub
        · rw [made_concat, ← split]
          refine (r.renames op).queueByName?_eq free first fun q new => ?_
          exact (Reachable.start.run before).not_mem_made after (split ▸ new)

/-- A name that is free again only when no other queue has it stands for the first queue with that
name that is there. -/
theorem queueByName?_eq_firstNamed? (settings : Settings) (ops : List Operation) (name : String)
    (alone : ∀ past op, past ++ [op] <+: ops → ((ofSettings settings).run past).Frees name op →
      ∀ q, ((ofSettings settings).run (past ++ [op])).nameOf? q ≠ some name) :
    ((ofSettings settings).run ops).queueByName? name =
      ((ofSettings settings).run ops).firstNamed? name ((ofSettings settings).made ops) := by
  induction ops using List.reverseRecOn with
  | nil => rfl
  | append_singleton ops op ih =>
      have r : Reachable settings ((ofSettings settings).run ops) := Reachable.start.run ops
      have first := ih fun past op' sub => alone past op' (sub.trans (List.prefix_append ops [op]))
      by_cases free : ((ofSettings settings).run ops).Frees name op
      · have none_there := alone ops op (List.prefix_refl _) free
        rw [run_concat, r.queueByName?_of_frees free, ← run_concat]
        refine (List.find?_eq_none.2 fun q mem => ?_).symm
        simp [none_there q]
      · rw [made_concat, run_concat]
        exact (r.renames op).queueByName?_eq free first fun q new =>
          Reachable.start.not_mem_made ops new

/-- After any run, what a name stands for is there under that name, and it is the first such queue
of those that were made since the name was last freed.  If the name was never freed while another
queue had it, then it stands for the first such queue of all that were made. -/
theorem queueByName?_run (settings : Settings) (ops : List Operation) (name : String) :
    let start := ofSettings settings
    let k := start.run ops
    (∀ q, k.queueByName? name = some q → k.nameOf? q = some name) ∧
      (∀ q, k.nameOf? q = some name → q ∈ start.made ops) ∧
      (∃ before after, ops = before ++ after ∧ LastFreed start name before after ∧
        k.queueByName? name = k.firstNamed? name ((start.run before).made after)) ∧
      ((∀ past op, past ++ [op] <+: ops → (start.run past).Frees name op →
          ∀ q, (start.run (past ++ [op])).nameOf? q ≠ some name) →
        k.queueByName? name = k.firstNamed? name (start.made ops)) := by
  intro start k
  have r : Reachable settings k := Reachable.start.run ops
  exact ⟨fun q => r.nameOf?_of_queueByName?, fun q => mem_made settings ops,
    exists_lastFreed settings ops name, queueByName?_eq_firstNamed? settings ops name⟩

/-- The first of two queues with one name is removed; the second one is there, but the name stands
for nothing. -/
theorem not_found_though_there :
    let k := (ofSettings {}).run [.create "a" true, .create "a" true, .remove ⟨1, 1⟩ .zero]
    ¬ ((∃ q, k.queueByName? "a" = some q) ↔ ∃ q, k.nameOf? q = some "a") := by
  intro k claim
  have free : k.queueByName? "a" = none := by decide +kernel
  have there : k.nameOf? ⟨2, 1⟩ = some "a" := by decide +kernel
  obtain ⟨q, stands⟩ := claim.2 ⟨⟨2, 1⟩, there⟩
  rw [free] at stands
  cases stands

end Dispatch.Scheduler
