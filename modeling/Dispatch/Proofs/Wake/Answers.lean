import Dispatch.Proofs.Wake.Drain

/-!
# What an agenda makes of the answers

Whoever owns the queues may answer anything, also what depends on all that was asked before.  A
recorded owner (`Owner.recorded`) gives the same answers and keeps them, so a pass with it is the
pass without it (`Pass.forget_promote`) and shows what was asked.  Woken are the queues that are due
at the start, and what every entry is in the end is the last answer about its queue
(`promote_answers`): a wake-up that is due again and put aside is not lost (`Pass.entry_wake`).
-/

namespace Dispatch.Agenda

variable {σ : Type} {o : Owner σ} {now : Ticks} {stamp : Stamp} {a : Agenda} {q : QueueId}

/-! ### Reachable agendas -/

/-- The agendas to which operations lead from an empty one, whoever owns the queues. -/
inductive Reachable : Agenda → Prop
  | start (waking : Bool) : Reachable { waking := waking }
  | set {a : Agenda} (r : Reachable a) (q : QueueId) (now : Ticks) (w : Option WakeUp) :
      Reachable (a.set q now w).2
  | unregister {a : Agenda} (r : Reachable a) (q : QueueId) (now : Ticks) :
      Reachable (a.unregister q now).2
  | promote {a : Agenda} (r : Reachable a) {σ : Type} (o : Owner σ) (now : Ticks) (stamp : Stamp)
      (rounds : Nat) (s : σ) : Reachable (a.promote o now stamp rounds s).agenda
  | trim {a : Agenda} (r : Reachable a) {σ : Type} (o : Owner σ) (now : Ticks) (rounds : Nat)
      (s : σ) : Reachable (a.trim o now rounds s).agenda

theorem WF.unregister (h : a.WF) (q : QueueId) (now : Ticks) : (a.unregister q now).2.WF := by
  unfold Agenda.unregister
  split_ifs
  · exact h.set q now none
  · exact h

theorem WF.promote (h : a.WF) (o : Owner σ) (now : Ticks) (stamp : Stamp) (rounds : Nat) (s : σ) :
    (a.promote o now stamp rounds s).agenda.WF := by
  have drained : (Pass.drain o now stamp a.size { agenda := a, owner := s }).agenda.WF :=
    Pass.drain_induct (P := fun p => p.agenda.WF)
      (fun p q w hp _ _ => Pass.wf_wake hp o q now stamp) _ _ h
  have entered : ((Pass.drain o now stamp a.size
      { agenda := a, owner := s }).enterDeferred now).agenda.WF :=
    Pass.enterDeferred_induct (P := fun p => p.agenda.WF) (fun p q w hp => hp.set q now (some w))
      _ drained
  unfold Agenda.promote
  dsimp only
  split_ifs
  · exact entered
  · exact Pass.settle_induct (P := fun p => p.agenda.WF) (fun p q hp _ => hp.set q now _) _ _ _
      entered

theorem WF.trim (h : a.WF) (o : Owner σ) (now : Ticks) (rounds : Nat) (s : σ) :
    (a.trim o now rounds s).agenda.WF := by
  refine Pass.trim_induct (P := fun p => p.agenda.WF) (fun p q hp _ => ?_) _ _ h
  unfold Pass.trimOnce
  dsimp only
  split_ifs
  · exact hp.set q now _
  · exact hp

theorem Reachable.wf (r : Reachable a) : a.WF := by
  induction r with
  | start waking => exact wf_empty waking
  | set _ q now w ih => exact ih.set q now w
  | unregister _ q now ih => exact ih.unregister q now
  | promote _ o now stamp rounds s ih => exact ih.promote o now stamp rounds s
  | trim _ o now rounds s ih => exact ih.trim o now rounds s

/-! ### Recorded owners -/

/-- What an agenda asks about the wake-up of a queue. -/
inductive Question where
  | wake (queue : QueueId) (now : Ticks) (stamp : Stamp)
  | want (queue : QueueId) (now : Ticks)
deriving DecidableEq

/-- The queue about which the owner is asked. -/
def Question.queue : Question → QueueId
  | wake q _ _ => q
  | want q _ => q

/-- A question, and what the queue wants next according to the answer. -/
structure Exchange where
  question : Question
  answer : Option WakeUp
deriving DecidableEq

/-- The owner who gives the same answers and keeps a record of them. -/
def Owner.recorded (o : Owner σ) : Owner (σ × List Exchange) where
  wake q now stamp s :=
    let (w, t) := o.wake q now stamp s.1
    (w, t, s.2 ++ [⟨.wake q now stamp, w⟩])
  want q now s :=
    let (w, t) := o.want q now s.1
    (w, t, s.2 ++ [⟨.want q now, w⟩])
  trim q now s :=
    let (removed, t) := o.trim q now s.1
    (removed, t, s.2)

/-- The last answer about a queue, or what its entry was before if nothing was asked about it. -/
def lastAnswer (record : List Exchange) (q : QueueId) (before : Option WakeUp) : Option WakeUp :=
  record.foldl (fun w e => if q = e.question.queue then e.answer else w) before

theorem lastAnswer_append (record : List Exchange) (e : Exchange) (q : QueueId)
    (before : Option WakeUp) : lastAnswer (record ++ [e]) q before =
      if q = e.question.queue then e.answer else lastAnswer record q before := by
  unfold lastAnswer
  rw [List.foldl_append]
  rfl

namespace Pass

/-- The pass without the record. -/
def forget (p : Pass (σ × List Exchange)) : Pass σ :=
  ⟨p.agenda, p.owner.1, p.notices, p.deferred, p.woken⟩

theorem forget_wake (p : Pass (σ × List Exchange)) (o : Owner σ) (q : QueueId) (now : Ticks)
    (stamp : Stamp) : (p.wake o.recorded q now stamp).forget = p.forget.wake o q now stamp := by
  have answer : (o.recorded.wake q now stamp p.owner).1 = (o.wake q now stamp p.owner.1).1 := rfl
  unfold wake
  dsimp only
  rw [answer, show p.forget.owner = p.owner.1 from rfl]
  cases (o.wake q now stamp p.owner.1).1 with
  | none => rfl
  | some v =>
      dsimp only
      split_ifs <;> rfl

theorem forget_drain (o : Owner σ) (now : Ticks) (stamp : Stamp) (n : Nat)
    (p : Pass (σ × List Exchange)) :
    (drain o.recorded now stamp n p).forget = drain o now stamp n p.forget := by
  induction n generalizing p with
  | zero => rfl
  | succ n ih =>
      unfold drain
      rw [show p.forget.agenda = p.agenda from rfl]
      cases p.agenda.entries.min? with
      | none => rfl
      | some e =>
          dsimp only
          split_ifs
          · rw [ih, forget_wake]
          · rfl

theorem forget_enterDeferred (p : Pass (σ × List Exchange)) (now : Ticks) :
    (p.enterDeferred now).forget = p.forget.enterDeferred now := by
  unfold enterDeferred
  rw [show p.forget.deferred = p.deferred from rfl]
  generalize p.deferred = l
  induction l generalizing p with
  | nil => rfl
  | cons e l ih => exact ih (p.set e.1 now (some e.2))

theorem forget_settle (o : Owner σ) (now : Ticks) (n : Nat) (last : Option QueueId)
    (p : Pass (σ × List Exchange)) :
    (settle o.recorded now n last p).forget = settle o now n last p.forget := by
  induction n generalizing last p with
  | zero => rfl
  | succ n ih =>
      unfold settle
      rw [show p.forget.agenda = p.agenda from rfl]
      cases p.agenda.first? with
      | none => rfl
      | some q =>
          dsimp only
          split_ifs
          · rfl
          · rw [ih]
            rfl

/-- A recorded pass is the pass itself. -/
theorem forget_promote (a : Agenda) (o : Owner σ) (now : Ticks) (stamp : Stamp) (rounds : Nat)
    (s : σ) : (a.promote o.recorded now stamp rounds (s, [])).forget =
      a.promote o now stamp rounds s := by
  have drained := forget_drain o now stamp a.size { agenda := a, owner := (s, []) }
  unfold Agenda.promote
  dsimp only
  change _ = Pass.drain o now stamp a.size { agenda := a, owner := s } at drained
  rw [← drained, ← forget_enterDeferred]
  generalize (Pass.drain o.recorded now stamp a.size _).enterDeferred now = p
  rw [show p.forget.woken = p.woken from rfl]
  split_ifs
  · rfl
  · exact forget_settle o now rounds none p

/-! ### Entries and answers -/

variable {p : Pass σ}

/-- The entry that a queue has once the deferred wake-ups are entered. -/
def entry (p : Pass σ) (q : QueueId) : Option WakeUp :=
  p.deferred.foldl (fun w e => if q = e.1 then some e.2 else w) (p.agenda.get? q)

theorem owner_enterDeferred (p : Pass σ) (now : Ticks) : (p.enterDeferred now).owner = p.owner :=
  enterDeferred_induct (P := fun p' => p'.owner = p.owner) (fun _ _ _ h => h) p rfl

theorem woken_settle (o : Owner σ) (now : Ticks) (n : Nat) (last : Option QueueId) (p : Pass σ) :
    (settle o now n last p).woken = p.woken :=
  settle_induct (P := fun p' => p'.woken = p.woken) (fun _ _ h _ => h) n last p rfl

theorem get?_enterDeferred (h : p.agenda.WF) (now : Ticks) (q : QueueId) :
    (p.enterDeferred now).agenda.get? q = p.entry q := by
  unfold enterDeferred entry
  generalize p.deferred = l
  induction l generalizing p with
  | nil => rfl
  | cons e l ih =>
      have step := ih (p := p.set e.1 now (some e.2)) (h.set e.1 now _)
      rw [List.foldl_cons, step, List.foldl_cons]
      congr 1
      exact h.get?_set e.1 now (some e.2) q

/-- A queue whose wake-up was put aside has no entry. -/
def Apart (p : Pass σ) : Prop := ∀ e ∈ p.deferred, p.agenda.get? e.1 = none

theorem Apart.wake (d : p.Apart) (h : p.agenda.WF) (hq : p.agenda.get? q ≠ none) :
    (p.wake o q now stamp).Apart := by
  intro e he
  rw [get?_wake h]
  rw [deferred_wake, List.mem_append, List.mem_map] at he
  rcases he with he | ⟨v, hv, rfl⟩
  · have hne : e.1 ≠ q := fun hj => hq (hj ▸ d e he)
    rw [if_neg hne, d e he]
  · have due := (Option.filter_eq_some_iff.1 (Option.mem_toList.1 hv))
    rw [if_pos rfl, entered, due.1]
    simp [Option.filter, due.2]

/-- Waking a queue gives its entry the answer, now or when the deferred wake-ups are entered. -/
theorem entry_wake (d : p.Apart) (h : p.agenda.WF) (hq : p.agenda.get? q ≠ none) (o : Owner σ)
    (j : QueueId) : (p.wake o q now stamp).entry j =
      if j = q then (o.wake q now stamp p.owner).1 else p.entry j := by
  have own : ∀ w, p.deferred.foldl (fun w e => if q = e.1 then some e.2 else w) w = w := by
    have apart : ∀ e ∈ p.deferred, q ≠ e.1 := fun e he hj => hq (hj ▸ d e he)
    generalize p.deferred = l at apart
    induction l with
    | nil => exact fun w => rfl
    | cons e l ih =>
        intro w
        rw [List.foldl_cons, if_neg (apart e List.mem_cons_self),
          ih fun e he => apart e (List.mem_cons_of_mem _ he)]
  unfold entry
  rw [deferred_wake, List.foldl_append, get?_wake h]
  by_cases hj : j = q
  · subst hj
    rw [if_pos rfl, if_pos rfl, own]
    cases (o.wake j now stamp p.owner).1 with
    | none => rfl
    | some v => cases hv : v.isReady now <;> simp [entered, Option.filter, hv]
  · rw [if_neg hj, if_neg hj]
    generalize ((o.wake q now stamp p.owner).1.filter (·.isReady now)) = v
    cases v with
    | none => rfl
    | some v => simp [hj]

/-- Whatever has been asked so far is in the record, and every entry is the last answer. -/
structure Answered (a : Agenda) (p : Pass (σ × List Exchange)) : Prop where
  wf : p.agenda.WF
  apart : p.Apart
  entries : ∀ q, p.entry q = lastAnswer p.owner.2 q (a.get? q)

variable {r r' : Pass (σ × List Exchange)} {ds : List (QueueId × WakeUp)}

theorem Answered.wake (t : Answered a r) (hq : r.agenda.get? q ≠ none) :
    Answered a (r.wake o.recorded q now stamp) := by
  refine ⟨wf_wake t.wf _ _ _ _, t.apart.wake t.wf hq, fun j => ?_⟩
  rw [entry_wake t.apart t.wf hq, owner_wake]
  change _ = lastAnswer (r.owner.2 ++ [⟨.wake q now stamp, (o.wake q now stamp r.owner.1).1⟩]) j _
  rw [lastAnswer_append, t.entries]
  rfl

theorem Answered.drains (t : Answered a r) (d : Drains o.recorded now stamp r ds r') :
    Answered a r' := by
  induction d with
  | stop => exact t
  | wake top _ _ ih => exact ih (t.wake (by simp [t.wf.get?_of_min? top]))

/-- Once the deferred wake-ups are entered, the agenda itself holds the last answers. -/
theorem Answered.enterDeferred (t : Answered a r) (now : Ticks) :
    (r.enterDeferred now).agenda.WF ∧ ∀ q, (r.enterDeferred now).agenda.get? q =
      lastAnswer (r.enterDeferred now).owner.2 q (a.get? q) := by
  refine ⟨?_, fun q => ?_⟩
  · exact enterDeferred_induct (P := fun p => p.agenda.WF)
      (fun p q w h => h.set q now (some w)) r t.wf
  · rw [get?_enterDeferred t.wf, owner_enterDeferred, t.entries]

/-- The loop that wakes queues asks nothing else. -/
theorem questions_drains (d : Drains o.recorded now stamp r ds r') :
    r'.owner.2.map (·.question) =
      r.owner.2.map (·.question) ++ ds.map fun e => .wake e.1 now stamp := by
  induction d with
  | stop => simp
  | @wake p p' q w ds top due rest ih =>
      have record : (p.wake o.recorded q now stamp).owner.2 =
          p.owner.2 ++ [⟨.wake q now stamp, (o.wake q now stamp p.owner.1).1⟩] := by
        rw [owner_wake]
        rfl
      rw [ih, record, List.map_append, List.append_assoc]
      rfl

/-- Since `r` the owner was only asked what queues want, and every entry is the last answer. -/
structure Asking (a : Agenda) (now : Ticks) (r p : Pass (σ × List Exchange)) : Prop where
  wf : p.agenda.WF
  onward : ∃ rest, p.owner.2 = r.owner.2 ++ rest ∧ ∀ e ∈ rest, ∃ q, e.question = .want q now
  entries : ∀ q, p.agenda.get? q = lastAnswer p.owner.2 q (a.get? q)

theorem Asking.refresh (h : Asking a now r r') (o : Owner σ) (q : QueueId) :
    Asking a now r (r'.refresh o.recorded q now) := by
  obtain ⟨rest, record, wants⟩ := h.onward
  let e : Exchange := ⟨.want q now, (o.want q now r'.owner.1).1⟩
  have record' : (r'.refresh o.recorded q now).owner.2 = r'.owner.2 ++ [e] := rfl
  refine ⟨h.wf.set q now _, ⟨rest ++ [e], ?_, fun x hx => ?_⟩, fun j => ?_⟩
  · rw [record', record, List.append_assoc]
  · rcases List.mem_append.1 hx with hx | hx
    · exact wants x hx
    · exact ⟨q, by rw [List.mem_singleton.1 hx]⟩
  · rw [record', lastAnswer_append, ← h.entries]
    exact h.wf.get?_set q now _ j

/-- The loop that asks again only asks what queues want, and enters the answers. -/
theorem asking_settle (o : Owner σ) (now : Ticks) (n : Nat) (last : Option QueueId)
    (h : r.agenda.WF)
    (entries : ∀ q, r.agenda.get? q = lastAnswer r.owner.2 q (a.get? q)) :
    Asking a now r (settle o.recorded now n last r) :=
  settle_induct (P := Asking a now r) (fun _ q hp _ => hp.refresh o q) n last r
    ⟨h, ⟨[], by simp, by simp⟩, entries⟩

end Pass

/-- A promotion pass, with any owner.  The loop that wakes queues ends, after it has woken the
queues that are due at the start, in the order of their entries and each once; if there are none,
nothing happens.  After it the owner is only asked what queues want, and every entry is the last
answer about its queue, however many rounds there are for that.  A pass without a bound that ends is
one with enough rounds. -/
theorem promote_answers (reachable : Reachable a) (o : Owner σ) (now : Ticks) (stamp : Stamp)
    (rounds : Nat) (s : σ) :
    let start : Pass (σ × List Exchange) := { agenda := a, owner := (s, []) }
    let p := a.promote o.recorded now stamp rounds (s, [])
    p.forget = a.promote o now stamp rounds s ∧
      ∃ ds d, Pass.Drains o.recorded now stamp start ds d ∧
        p = (if d.woken = 0 then d.enterDeferred now
          else Pass.settle o.recorded now rounds none (d.enterDeferred now)) ∧
        (∀ q w, (q, w) ∈ ds ↔ a.get? q = some w ∧ w.isReady now = true) ∧
        (ds.map Prod.fst).Nodup ∧ (ds.Pairwise fun e f => e.2 ≤ f.2) ∧ p.woken = ds.length ∧
        (ds = [] → p = start) ∧
        (∃ rest, p.owner.2 = d.owner.2 ++ rest ∧
          d.owner.2.map (·.question) = ds.map (fun e => .wake e.1 now stamp) ∧
          ∀ e ∈ rest, ∃ q, e.question = .want q now) ∧
        (∀ q, p.agenda.get? q = lastAnswer p.owner.2 q (a.get? q)) ∧
        ∀ ds' p', a.Promotes o.recorded now stamp (s, []) ds' p' →
          ds' = ds ∧ ∃ n, ∀ m, n ≤ m → a.promote o.recorded now stamp m (s, []) = p' := by
  intro start p
  have h : a.WF := reachable.wf
  obtain ⟨ds, drains⟩ := Pass.exists_drains_start h o.recorded now stamp (s, [])
  have hp : p = _ := promote_eq a o.recorded now stamp rounds (s, [])
  change p = if (Pass.drain o.recorded now stamp a.size start).woken = 0 then _ else _ at hp
  generalize Pass.drain o.recorded now stamp a.size start = d at drains hp
  have answered : Pass.Answered a d :=
    Pass.Answered.drains ⟨h, fun e he => absurd he List.not_mem_nil, fun q => rfl⟩ drains
  have questions := Pass.questions_drains drains
  have woken : d.woken = ds.length := drains.woken_eq.trans (Nat.zero_add _)
  obtain ⟨wf, entries⟩ := answered.enterDeferred now
  refine ⟨Pass.forget_promote a o now stamp rounds s, ds, d, drains, hp,
    fun q w => drains.mem_iff h, drains.nodup h, drains.pairwise h, ?_, ?_,
    and_assoc.1 ⟨?_, fun ds' p' e => ?_⟩⟩
  · rw [hp, ← woken]
    split_ifs
    · exact Pass.woken_enterDeferred d now
    · rw [Pass.woken_settle, Pass.woken_enterDeferred]
  · rintro rfl
    rw [hp, woken, drains.eq_of_nil]
    rfl
  · by_cases h₀ : d.woken = 0
    · rw [if_pos h₀] at hp
      rw [hp]
      exact ⟨⟨[], by simp [Pass.owner_enterDeferred], questions, by simp⟩, entries⟩
    · rw [if_neg h₀] at hp
      rw [hp]
      have asking := Pass.asking_settle o now rounds none wf entries
      obtain ⟨rest, record, wants⟩ := asking.onward
      rw [Pass.owner_enterDeferred] at record
      exact ⟨⟨rest, record, questions, wants⟩, asking.entries⟩
  · have enough := e.exists_rounds h
    obtain ⟨d', drains', -⟩ := e
    exact ⟨(drains'.unique drains).1, enough⟩

/-- A queue that still wants a wake-up that is due is woken once, and keeps its entry. -/
theorem promote_answers_still_due :
    let w : WakeUp := { time := .ofMillis 10 }
    let o : Owner Unit :=
      { wake := fun _ _ _ s => (some w, s), want := fun _ _ s => (some w, s),
        trim := fun _ _ s => (false, s) }
    let a := (({ waking := true } : Agenda).set ⟨1, 1⟩ .zero (some w)).2
    let p := a.promote o.recorded (.ofMillis 15) ⟨1⟩ 2 ((), [])
    Reachable a ∧ p.owner.2 = [⟨.wake ⟨1, 1⟩ (.ofMillis 15) ⟨1⟩, some w⟩,
      ⟨.want ⟨1, 1⟩ (.ofMillis 15), some w⟩] ∧ p.agenda.get? ⟨1, 1⟩ = some w := by
  intro w o a p
  have reachable : Reachable a := .set (.start true) ⟨1, 1⟩ .zero (some w)
  have record : p.owner.2 = [⟨.wake ⟨1, 1⟩ (.ofMillis 15) ⟨1⟩, some w⟩,
      ⟨.want ⟨1, 1⟩ (.ofMillis 15), some w⟩] := by decide +kernel
  obtain ⟨-, ds, d, -, -, -, -, -, -, -, -, entries, -⟩ :=
    promote_answers reachable o (.ofMillis 15) ⟨1⟩ 2 ()
  refine ⟨reachable, record, (entries ⟨1, 1⟩).trans ?_⟩
  show lastAnswer p.owner.2 ⟨1, 1⟩ _ = some w
  rw [record]
  rfl

end Dispatch.Agenda
