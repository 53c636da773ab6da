import Dispatch.Proofs.Scheduler.Resolution
import Dispatch.Proofs.Session.Origins
import Dispatch.Proofs.Wake.Updates

/-!
# The counts of what needs high resolution

High resolution is counted twice: an agenda counts the entries that need it, and a queue its waiting
tasks that were posted with a short delay.  Both counts are changed one by one wherever entries and
tasks come and go, and both are exact at all times, so nothing is ever taken off that was not on
them (`highResolution_exact`).
-/

namespace Dispatch

/-- However many waiting tasks are taken off the front of a queue, their share of the count is taken
off in full. -/
theorem Queue.Counted.add_dropWaiting {tq : Queue} (c : tq.Counted) (n : Nat) :
    (tq.waiting.take n).countP (·.highResolution) + (tq.dropWaiting n).highResolution =
      tq.highResolution := by
  rw [c.dropWaiting n, c]
  unfold Queue.dropWaiting
  rw [← List.countP_append, List.take_append_drop]

namespace Session

variable {settings : Settings} {start : Ticks} {rs : List Request} {k : Scheduler} {q : QueueId}
  {tq : Queue} {w : WaitingTask}

/-- A waiting task asks for a precise timer exactly if it was posted with a short delay. -/
theorem highResolution_iff (hk : ((new settings start).run rs).2.scheduler = some k)
    (hq : k.queues.get? q = some tq) (hw : w ∈ tq.waiting) :
    w.highResolution = true ↔ w.ticket ∈ shortlyPosted settings ((new settings start).history rs) :=
  ((stems_run settings start rs k hk q tq hq).waiting w hw).mem_shortlyPosted_iff.symm

/-- An agenda to which any operations have led, whoever owns the queues, counts exactly the entries
that need high resolution.  All that a pass does to it is to enter wake-ups and to take entries out,
and what an entry adds to the count can always be taken off.  After any requests each queue counts
exactly the waiting tasks that were posted with a delay below the bound of the settings, and however
many waiting tasks leave, nothing is taken off that was not counted.  High resolution is needed
exactly if such a task waits in an enabled queue. -/
theorem highResolution_exact :
    (∀ a, Agenda.Reachable a → a.highResolution = Agenda.highEntries a.entries ∧ a.Covers ∧
      ∀ {σ : Type} (o : Agenda.Owner σ) now stamp rounds x,
        (let p := a.promote o now stamp rounds x; a.Updates now p.notices p.agenda) ∧
          let p := a.trim o now rounds x; a.Updates now p.notices p.agenda) ∧
    ∀ settings start rs k, ((new settings start).run rs).2.scheduler = some k →
      let short := shortlyPosted settings ((new settings start).history rs)
      (∀ q tq, k.queues.get? q = some tq →
        tq.highResolution = tq.waiting.countP (·.ticket ∈ short) ∧
          ∀ n, (tq.waiting.take n).countP (·.ticket ∈ short) + (tq.dropWaiting n).highResolution =
            tq.highResolution) ∧
      (k.hasHighResolution = true ↔ ∃ q tq, k.queues.get? q = some tq ∧ tq.enabled = true ∧
        ∃ t ∈ tq.waiting, t.ticket ∈ short) := by
  refine ⟨fun a ra => ⟨ra.counted.count, ra.counted.covers, fun o now stamp rounds x => ?_⟩,
    fun settings start rs k hk => ?_⟩
  · exact ⟨ra.counted.updates_promote o now stamp rounds x, ra.counted.updates_trim o now rounds x⟩
  · intro short
    have r := reachable_run settings start rs hk
    refine ⟨fun q tq hq => ?_, ?_⟩
    · have asks : ∀ w ∈ tq.waiting,
          w.highResolution = true ↔ decide (w.ticket ∈ short) = true := fun w hw => by
        rw [highResolution_iff hk hq hw, decide_eq_true_eq]
      have counted := r.counted q tq hq
      refine ⟨counted.trans (List.countP_congr asks), fun n => ?_⟩
      rw [← counted.add_dropWaiting n,
        List.countP_congr fun w hw => (asks w (List.mem_of_mem_take hw)).symm]
    · rw [r.hasHighResolution_iff]
      refine exists_congr fun q => exists_congr fun tq => and_congr_right fun hq =>
        and_congr_right fun _ => exists_congr fun t => and_congr_right fun ht => ?_
      exact highResolution_iff hk hq ht

/-- Of two waiting tasks one was posted with a short delay.  It stays on the count of the queue
while that is disabled, but high resolution is not needed then. -/
theorem highResolution_exact_disabled :
    let rs : List Request := [.create "main" true,
      .postDelayed ⟨1, 1⟩ (.ofMillis 10) .zero .precise,
      .postDelayed ⟨1, 1⟩ (.ofMillis 500) .zero .noSooner, .setEnabled ⟨1, 1⟩ false]
    ∃ k tq, ((new {} .zero).run rs).2.scheduler = some k ∧ k.queues.get? ⟨1, 1⟩ = some tq ∧
      shortlyPosted {} ((new {} .zero).history rs) = [⟨0⟩] ∧ k.hasHighResolution = false ∧
      tq.waiting.length = 2 ∧ tq.highResolution = tq.waiting.countP (·.ticket ∈ [⟨0⟩]) ∧
      tq.highResolution = 1 ∧ k.wakingAgenda.highResolution = 0 := by
  intro rs
  have state : ((new {} .zero).run rs).2.scheduler.any fun k =>
      k.hasHighResolution = false ∧ k.wakingAgenda.highResolution = 0 ∧
        (k.queues.get? ⟨1, 1⟩).any fun tq => tq.waiting.length = 2 ∧ tq.highResolution = 1 := by
    decide +kernel
  have short : shortlyPosted {} ((new {} .zero).history rs) = [⟨0⟩] := by decide +kernel
  obtain ⟨k, hk, here⟩ := (Option.any_eq_true _ _).1 state
  obtain ⟨low, agenda, queue⟩ := of_decide_eq_true here
  obtain ⟨tq, hq, queue⟩ := (Option.any_eq_true _ _).1 queue
  obtain ⟨two, one⟩ := of_decide_eq_true queue
  have counted := ((highResolution_exact.2 {} .zero rs k hk).1 ⟨1, 1⟩ tq hq).1
  rw [short] at counted
  exact ⟨k, tq, hk, hq, short, low, two, counted, one, agenda⟩

end Session

end Dispatch
