import Dispatch.Proofs.Session.Reach
import Mathlib.Data.List.Nodup
import Mathlib.Data.List.Range

/-!
# The history of a run

The history of a run pairs every request with the signal that it got.  A run goes on where a shorter
one has ended (`run_concat`), so what holds after every run is proved by adding one request at the
end.

Tickets number the tasks in the order in which they are handed in (`tasks_postings`), whether they
are accepted or not.  So a ticket tells for which queue its task was handed in and what came of it
(`eq_of_mem_postings`).
-/

namespace Dispatch

/-- The task that a signal is about. -/
def Signal.task? : Signal → Option Ticket
  | .answered (.posted t) => some t
  | .answered (.handle t) => some t
  | .answered _ => none
  | .started t => some t
  | .discarding t => some t

/-- The task that has been accepted, if the signal says so. -/
def Signal.accepted? : Signal → Option Ticket
  | .answered (.posted t) => some t
  | .answered (.handle t) => some t
  | _ => none

theorem Signal.task?_of_accepted? {x : Signal} {t : Ticket} (h : x.accepted? = some t) :
    x.task? = some t := by
  rcases x with reply | u | u
  · cases reply <;> exact h
  · cases h
  · cases h

namespace Session

variable {s s' : Session} {r : Request} {ts : List Ticket} {after : After} {q j : QueueId}
  {x y : Signal} {t : Ticket} {h : List (Request × Signal)}

/-! ### Longer runs -/

theorem run_cons (s : Session) (r : Request) (rs : List Request) :
    s.run (r :: rs) =
      ((s.step r).1 :: ((s.step r).2.run rs).1, ((s.step r).2.run rs).2) := rfl

theorem run_append (s : Session) (rs rs' : List Request) :
    s.run (rs ++ rs') = ((s.run rs).1 ++ ((s.run rs).2.run rs').1, ((s.run rs).2.run rs').2) := by
  induction rs generalizing s with
  | nil => rfl
  | cons r rs ih =>
      rw [List.cons_append, run_cons, ih, run_cons]
      rfl

/-- One more request is one more step. -/
theorem run_concat (s : Session) (rs : List Request) (r : Request) :
    s.run (rs ++ [r]) =
      ((s.run rs).1 ++ [((s.run rs).2.step r).1], ((s.run rs).2.step r).2) :=
  s.run_append rs [r]

theorem length_run (s : Session) (rs : List Request) : (s.run rs).1.length = rs.length := by
  induction rs generalizing s with
  | nil => rfl
  | cons r rs ih => exact congrArg Nat.succ (ih _)

theorem take_run (s : Session) (rs : List Request) (m : Nat) :
    (s.run rs).1.take m = (s.run (rs.take m)).1 := by
  induction rs generalizing s m with
  | nil => cases m <;> rfl
  | cons r rs ih =>
      cases m with
      | zero => rfl
      | succ m => exact congrArg _ (ih _ m)

theorem drop_run (s : Session) (rs : List Request) (m : Nat) :
    (s.run rs).1.drop m = ((s.run (rs.take m)).2.run (rs.drop m)).1 := by
  induction rs generalizing s m with
  | nil => cases m <;> rfl
  | cons r rs ih =>
      cases m with
      | zero => rfl
      | succ m => exact ih _ m

theorem run_take_succ {rs : List Request} {m : Nat} (h : rs[m]? = some r) :
    (s.run (rs.take (m + 1))).2 = ((s.run (rs.take m)).2.step r).2 := by
  rw [List.take_add_one, h, Option.toList_some, run_concat]

theorem run_take_of_le {m n : Nat} (s : Session) (rs : List Request) (le : m ≤ n) :
    (s.run (rs.take n)).2 = ((s.run (rs.take m)).2.run ((rs.take n).drop m)).2 := by
  have split : rs.take n = rs.take m ++ (rs.take n).drop m := by
    conv_lhs => rw [← List.take_append_drop m (rs.take n), List.take_take, Nat.min_eq_left le]
  conv_lhs => rw [split, run_append]

/-- The signal to a request comes from the step in the state that the requests before have left. -/
theorem getElem?_run {rs : List Request} {m : Nat} (h : rs[m]? = some r) :
    (s.run rs).1[m]? = some ((s.run (rs.take m)).2.step r).1 := by
  induction rs generalizing s m with
  | nil => cases h
  | cons r' rs ih =>
      cases m with
      | zero =>
          cases h
          rfl
      | succ m => exact ih h

/-- The requests of a run with the signals that they got. -/
def history (s : Session) (rs : List Request) : List (Request × Signal) := rs.zip (s.run rs).1

theorem history_append (s : Session) (rs rs' : List Request) :
    s.history (rs ++ rs') = s.history rs ++ (s.run rs).2.history rs' := by
  unfold history
  rw [run_append, List.zip_append (s.length_run rs).symm]

theorem history_concat (s : Session) (rs : List Request) (r : Request) :
    s.history (rs ++ [r]) = s.history rs ++ [(r, ((s.run rs).2.step r).1)] :=
  s.history_append rs [r]

/-- The history tells what each request got in the state that the requests before had left. -/
theorem mem_history {rs : List Request} : (r, x) ∈ s.history rs ↔
    ∃ before rest, rs = before ++ r :: rest ∧ ((s.run before).2.step r).1 = x := by
  constructor
  · intro h
    induction rs using List.reverseRecOn with
    | nil => cases h
    | append_singleton rs r' ih =>
        rw [history_concat] at h
        rcases List.mem_append.1 h with h | h
        · obtain ⟨before, rest, rfl, e⟩ := ih h
          exact ⟨before, rest ++ [r'], by simp, e⟩
        · obtain ⟨rfl, e⟩ := Prod.mk.inj (List.mem_singleton.1 h)
          exact ⟨rs, [], rfl, e.symm⟩
  · rintro ⟨before, rest, rfl, rfl⟩
    rw [history_append]
    exact List.mem_append_right _ List.mem_cons_self

/-! ### Tasks that are handed in -/

/-- The task that a request hands in. -/
def handed (s : Session) (r : Request) : List Ticket :=
  if r.target?.isSome then [⟨s.issued⟩] else []

theorem handed_eq_nil (h : r.target? = none) : s.handed r = [] := by
  unfold handed
  rw [h]
  rfl

theorem handed_eq (h : r.target? = some q) : s.handed r = [⟨s.issued⟩] := by
  unfold handed
  rw [h]
  rfl

theorem Asks.target?_eq_none {op : Scheduler.Operation} (a : s.Asks r op) : r.target? = none := by
  cases a <;> rfl

theorem Seeks.target?_eq_none {mode : Mode} {calls : List Call} (a : s.Seeks r mode calls) :
    r.target? = none := by
  cases a <;> rfl

theorem Begins.issued_eq (b : s.Begins r s' ts after) :
    s'.issued = s.issued + (s.handed r).length := by
  cases b with
  | nothing target | moveClock target => rw [handed_eq_nil target]; rfl
  | perform _ asks => rw [handed_eq_nil asks.target?_eq_none]; rfl
  | cancel t => exact issued_cancel s t
  | refuse target => rw [handed_eq target]; rfl
  | round _ seeks | gone _ seeks => rw [handed_eq_nil seeks.target?_eq_none]; rfl
  | post | postDelayed | remove | sweep | close | ran | resume => rfl

theorem Proceeds.issued_eq (p : s.Proceeds ts after x s') : s'.issued = s.issued := by
  cases p <;> rfl

theorem issued_step (s : Session) (r : Request) :
    (s.step r).2.issued = s.issued + (s.handed r).length := by
  obtain ⟨s₁, ts, after, b, p⟩ := s.step_cases r
  exact p.issued_eq.trans b.issued_eq

/-- A task that is handed in gets the next ticket.  It is accepted, or it is destroyed before the
answer. -/
theorem step_of_target (target : r.target? = some q) :
    (s.step r).1.accepted? = some ⟨s.issued⟩ ∨
      ∃ e, s.step r = (.discarding ⟨s.issued⟩,
        { s with issued := s.issued + 1,
                 calls := .discarding ⟨s.issued⟩ [] (.answer (.refused e)) :: s.calls }) := by
  obtain ⟨s₁, ts, after, b, p⟩ := s.step_cases r
  generalize hx : s.step r = out at p
  obtain ⟨x, s'⟩ := out
  cases b with
  | nothing target' | moveClock target' =>
      rw [target'] at target
      cases target
  | perform _ asks =>
      rw [asks.target?_eq_none] at target
      cases target
  | round _ seeks | gone _ seeks =>
      rw [seeks.target?_eq_none] at target
      cases target
  | cancel | remove | sweep | close | ran | resume => cases target
  | post | postDelayed =>
      cases p
      exact Or.inl rfl
  | refuse =>
      cases p
      exact Or.inr ⟨_, rfl⟩

/-- A delayed task is accepted under the next ticket, and can be canceled by it. -/
theorem step_of_handle {delay leeway : Duration} {policy : Policy}
    (h : (s.step (.postDelayed q delay leeway policy)).1 = .answered (.handle t)) :
    t = ⟨s.issued⟩ ∧ ∃ k k', s.scheduler = some k ∧
      k.postDelayed q delay leeway policy s.now t = .ok k' ∧
      (s.step (.postDelayed q delay leeway policy)).2 = { s with
        issued := s.issued + 1, scheduler := some k', handles := t :: s.handles } := by
  obtain ⟨s₁, ts, after, b, p⟩ := s.step_cases (.postDelayed q delay leeway policy)
  rw [h] at p
  generalize (s.step (.postDelayed q delay leeway policy)).2 = s' at p
  cases b with
  | postDelayed scheduler accepted =>
      cases p
      exact ⟨rfl, _, _, scheduler, accepted, rfl⟩
  | refuse => cases p
  | nothing target | moveClock target => cases target
  | perform _ asks => cases asks
  | round _ seeks | gone _ seeks => cases seeks

theorem task?_of_target (target : r.target? = some q) :
    (s.step r).1.task? = some ⟨s.issued⟩ := by
  rcases s.step_of_target target with accepted | ⟨e, refused⟩
  · exact Signal.task?_of_accepted? accepted
  · rw [refused]
    rfl

/-- The queues for which tasks were handed in, with the signals to these requests. -/
def postings (h : List (Request × Signal)) : List (QueueId × Signal) :=
  h.filterMap fun e => e.1.target?.map fun q => (q, e.2)

theorem mem_postings : (q, x) ∈ postings h ↔ ∃ r, (r, x) ∈ h ∧ r.target? = some q := by
  unfold postings
  rw [List.mem_filterMap]
  constructor
  · rintro ⟨⟨r, y⟩, hr, e⟩
    obtain ⟨j, hj, e⟩ := Option.map_eq_some_iff.1 e
    cases e
    exact ⟨r, hr, hj⟩
  · rintro ⟨r, hr, hq⟩
    exact ⟨(r, x), hr, by rw [hq]; rfl⟩

/-- A task that is not accepted is destroyed. -/
theorem exists_discarding_of_mem_postings {rs : List Request}
    (h : (q, x) ∈ postings (s.history rs)) (refused : x.accepted? = none) :
    ∃ t, x = .discarding t := by
  obtain ⟨r, mem, target⟩ := mem_postings.1 h
  obtain ⟨before, rest, -, rfl⟩ := mem_history.1 mem
  rcases step_of_target target with accepted | ⟨e, stepped⟩
  · rw [accepted] at refused
    cases refused
  · exact ⟨_, congrArg Prod.fst stepped⟩

/-- The tasks that a queue has accepted. -/
def postedTo (h : List (Request × Signal)) (q : QueueId) : List Ticket :=
  (postings h).filterMap fun e => if e.1 = q then e.2.accepted? else none

theorem mem_postedTo : t ∈ postedTo h q ↔ ∃ x, (q, x) ∈ postings h ∧ x.accepted? = some t := by
  unfold postedTo
  rw [List.mem_filterMap]
  constructor
  · rintro ⟨⟨j, x⟩, hj, e⟩
    split at e
    · rename_i hq
      cases hq
      exact ⟨x, hj, e⟩
    · cases e
  · rintro ⟨x, hx, e⟩
    exact ⟨(q, x), hx, by rw [if_pos rfl, e]⟩

/-! ### Tickets -/

variable {settings : Settings} {start : Ticks} {rs : List Request}

/-- Tickets number the tasks in the order in which they are handed in. -/
theorem tasks_postings (settings : Settings) (start : Ticks) (rs : List Request) :
    (postings ((new settings start).history rs)).map (·.2.task?) =
      (List.range ((new settings start).run rs).2.issued).map fun n => some ⟨n⟩ := by
  induction rs using List.reverseRecOn with
  | nil => rfl
  | append_singleton rs r ih =>
      rw [history_concat, run_concat, issued_step]
      generalize (new settings start).history rs = h at ih ⊢
      generalize ((new settings start).run rs).2 = s at ih ⊢
      unfold postings at ih ⊢
      rw [List.filterMap_append, List.map_append, ih]
      cases target : r.target? with
      | none =>
          rw [handed_eq_nil target]
          simp [target]
      | some q =>
          rw [handed_eq target, List.length_singleton, List.range_succ, List.map_append]
          simp [target, task?_of_target target]

theorem nodup_tasks_postings (settings : Settings) (start : Ticks) (rs : List Request) :
    ((postings ((new settings start).history rs)).map (·.2.task?)).Nodup := by
  rw [tasks_postings]
  refine List.nodup_range.map fun m n e => ?_
  cases e
  rfl

/-- A ticket belongs to one task. -/
theorem eq_of_mem_postings (hx : (q, x) ∈ postings ((new settings start).history rs))
    (hy : (j, y) ∈ postings ((new settings start).history rs)) (e : x.task? = y.task?) :
    q = j ∧ x = y :=
  Prod.mk.inj (List.inj_on_of_nodup_map (nodup_tasks_postings settings start rs) hx hy e)

theorem eq_of_mem_postedTo (hq : t ∈ postedTo ((new settings start).history rs) q)
    (hj : t ∈ postedTo ((new settings start).history rs) j) : q = j := by
  obtain ⟨x, hx, ex⟩ := mem_postedTo.1 hq
  obtain ⟨y, hy, ey⟩ := mem_postedTo.1 hj
  refine (eq_of_mem_postings hx hy ?_).1
  rw [Signal.task?_of_accepted? ex, Signal.task?_of_accepted? ey]

theorem nodup_postedTo (settings : Settings) (start : Ticks) (rs : List Request) (q : QueueId) :
    (postedTo ((new settings start).history rs) q).Nodup := by
  have accepted : ∀ {e : QueueId × Signal} {t : Ticket},
      (if e.1 = q then e.2.accepted? else none) = some t → e.2.task? = some t := by
    intro e t h
    split at h
    · exact Signal.task?_of_accepted? h
    · cases h
  refine List.pairwise_filterMap.2
    ((List.pairwise_map.1 (nodup_tasks_postings settings start rs)).imp ?_)
  intro e e' distinct t ht t' ht' same
  exact distinct (by rw [accepted ht, accepted ht', same])

theorem lt_issued_of_mem_postings (hx : (q, x) ∈ postings ((new settings start).history rs))
    (e : x.task? = some t) : t.number < ((new settings start).run rs).2.issued := by
  have mem := List.mem_map_of_mem (f := fun e : QueueId × Signal => e.2.task?) hx
  rw [tasks_postings] at mem
  obtain ⟨n, hn, en⟩ := List.mem_map.1 mem
  have same : Ticket.mk n = t := Option.some.inj (en.trans e)
  rw [← same]
  exact List.mem_range.1 hn

end Session

end Dispatch
