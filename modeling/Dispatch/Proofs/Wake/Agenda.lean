import Dispatch.Proofs.Collection.KeyedHeap
import Dispatch.Wake.Agenda

/-!
# The entries of an agenda

An agenda is well formed when its heap is.  Its view is `get?`, the wake-up of each queue; `next?`
is the least of them.  The notices that `set` gives say what the earliest wake-up has become: a
timer that is armed as they say is up to date again (`armed_set`).
-/

namespace Dispatch

instance : Std.IsLinearPreorder WakeUp where
  le_refl a := (WakeUp.le_total a a).elim id id
  le_trans _ _ _ := WakeUp.le_trans
  le_total := WakeUp.le_total

/-- Wake-ups are ordered by the starts of their windows first. -/
theorem WakeUp.earliest_le {a b : WakeUp} (h : a ≤ b) : a.earliest ≤ b.earliest := by
  refine Nat.le_of_not_lt fun hlt => ?_
  exact h (List.Lex.rel hlt)

/-- What a timer is armed with after notices. -/
def armed (timer : Option WakeUp) (notices : List Notice) : Option WakeUp :=
  notices.foldl (fun _ n => n.next) timer

theorem armed_append (timer : Option WakeUp) (ns ms : List Notice) :
    armed timer (ns ++ ms) = armed (armed timer ns) ms :=
  List.foldl_append

namespace Agenda

variable {a : Agenda} {q j : QueueId} {now : Ticks} {w v : WakeUp}

/-- The entries are a heap, and each is found under its queue. -/
def WF (a : Agenda) : Prop := a.entries.WF

theorem wf_empty (waking : Bool) : WF { waking := waking } := KeyedHeap.wf_empty

theorem WF.set (h : a.WF) (q : QueueId) (now : Ticks) (x : Option WakeUp) :
    (a.set q now x).2.WF := by
  cases x with
  | none => exact KeyedHeap.WF.erase h q
  | some w => exact KeyedHeap.WF.insert h q w

theorem WF.get?_set (h : a.WF) (q : QueueId) (now : Ticks) (x : Option WakeUp) (j : QueueId) :
    (a.set q now x).2.get? j = if j = q then x else a.get? j := by
  cases x with
  | none => exact KeyedHeap.get?_erase h.tracked q j
  | some w => exact KeyedHeap.get?_insert h.tracked q j w

@[simp] theorem waking_set (a : Agenda) (q : QueueId) (now : Ticks) (x : Option WakeUp) :
    (a.set q now x).2.waking = a.waking := rfl

theorem armed_set (hw : a.waking = true) (q : QueueId) (now : Ticks) (x : Option WakeUp) :
    armed a.next? (a.set q now x).1 = (a.set q now x).2.next? := by
  unfold Agenda.set
  dsimp only
  rw [hw, Bool.true_and]
  split_ifs with h
  · rfl
  · simp only [bne_iff_ne, ne_eq, Classical.not_not] at h
    exact h.symm

theorem notices_set (hw : a.waking = false) (q : QueueId) (now : Ticks) (x : Option WakeUp) :
    (a.set q now x).1 = [] := by
  unfold Agenda.set
  simp [hw]

theorem WF.get?_of_min? (h : a.WF) {e : QueueId × WakeUp} (he : a.entries.min? = some e) :
    a.get? e.1 = some e.2 :=
  KeyedHeap.Tracked.get?_of_min? h.tracked he

theorem WF.get?_of_first? (h : a.WF) (hq : a.first? = some q) : ∃ w, a.get? q = some w := by
  obtain ⟨e, he, rfl⟩ := Option.map_eq_some_iff.1 hq
  exact ⟨e.2, h.get?_of_min? he⟩

/-- There are as many queues with an entry as the size says. -/
theorem WF.exists_queues (h : a.WF) :
    ∃ qs : List QueueId, qs.length = a.size ∧ ∀ q, a.get? q ≠ none → q ∈ qs := by
  refine ⟨a.entries.toList.map Prod.fst, ?_, fun q hq => ?_⟩
  · rw [List.length_map]
    exact Array.length_toList
  · obtain ⟨w, hw⟩ := Option.ne_none_iff_exists'.1 hq
    have mem : (q, w) ∈ a.entries.entries := h.tracked.get?_eq_some_iff.1 hw
    exact List.mem_map.2 ⟨(q, w), Array.mem_toList_iff.2 mem, rfl⟩

theorem WF.next?_eq_none_iff (h : a.WF) : a.next? = none ↔ ∀ q, a.get? q = none := by
  unfold next?
  rw [Option.map_eq_none_iff, KeyedHeap.min?_eq_none_iff]
  exact h.tracked.isEmpty_iff

theorem WF.next?_eq_some (h : a.WF) (hw : a.next? = some w) :
    (∃ q, a.get? q = some w) ∧ ∀ q v, a.get? q = some v → w ≤ v := by
  obtain ⟨e, he, rfl⟩ := Option.map_eq_some_iff.1 hw
  exact ⟨⟨e.1, h.get?_of_min? he⟩, fun q v hv => KeyedHeap.WF.min?_le h he hv⟩

end Agenda

end Dispatch
