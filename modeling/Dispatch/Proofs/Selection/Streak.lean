import Dispatch.Proofs.Selection.Starvation
import Mathlib.Data.List.DropRight

/-!
# The streak

The selector counts in `Selector.streak` the last services in a row that took a delayed task past an
immediate one (`streak_run`), and the count never comes past its limit (`streak_within_limit`).
There is one count for all levels: a service of another level goes on with the streak or ends it,
like one of the same level.  When a level has an immediate task and an older delayed one, the
immediate one is taken exactly if the last `Settings.maxStreak` services, at whatever levels, all
belong to the streak (`takes_immediate_iff`).
-/

namespace Dispatch

/-- What a selection serves. -/
structure Service where
  level : Level
  half : Half
  /-- There is an immediate task at the level. -/
  hasImmediate : Bool
deriving DecidableEq

/-- The service takes a delayed task past an immediate one. -/
def Service.passesOver (v : Service) : Bool := v.half = .delayed && v.hasImmediate

theorem Service.passesOver_eq_false_iff {v : Service} :
    v.passesOver = false ↔ v.half = .immediate ∨ v.hasImmediate = false := by
  unfold passesOver
  cases v.half <;> simp

/-- There have been `n` services, and the last `n` all took a delayed task past an immediate one. -/
def Service.Forces (n : Nat) (vs : List Service) : Prop :=
  n ≤ vs.length ∧ ∀ v ∈ vs.rtake n, v.passesOver = true

instance (n : Nat) (vs : List Service) : Decidable (Service.Forces n vs) :=
  inferInstanceAs (Decidable (_ ∧ _))

theorem le_length_takeWhile_iff {α : Type} {p : α → Bool} {xs : List α} {n : Nat} :
    n ≤ (xs.takeWhile p).length ↔ n ≤ xs.length ∧ ∀ x ∈ xs.take n, p x = true := by
  induction xs generalizing n with
  | nil => simp
  | cons x xs ih =>
      cases n with
      | zero => simp
      | succ n =>
          rw [List.takeWhile_cons]
          split_ifs with hx
          · simp [ih, hx]
          · simp [hx]

/-- The services are forced exactly if the streak at their end is long enough. -/
theorem Service.forces_iff {n : Nat} {vs : List Service} :
    Forces n vs ↔ n ≤ (vs.rtakeWhile Service.passesOver).length := by
  unfold Forces List.rtakeWhile
  rw [List.length_reverse, le_length_takeWhile_iff, List.length_reverse,
    List.rtake_eq_reverse_take_reverse]
  simp only [List.mem_reverse]

/-- The services before the last `n` make no difference, nor does it which of them are counted. -/
theorem Service.forces_filter_iff {n : Nat} {vs : List Service} {p : Service → Bool}
    (h : ∀ v ∈ vs.rtake n, p v = true) : Forces n (vs.filter p) ↔ Forces n vs := by
  have split : vs.filter p = (vs.take (vs.length - n)).filter p ++ vs.rtake n := by
    conv_lhs => rw [← List.take_append_drop (vs.length - n) vs, List.filter_append]
    exact congrArg _ (List.filter_eq_self.2 h)
  rcases Nat.lt_or_ge vs.length n with short | long
  · have all : vs.filter p = vs := by
      rwa [Nat.sub_eq_zero_of_le (Nat.le_of_lt short), List.take_zero, List.filter_nil,
        List.nil_append, List.rtake, Nat.sub_eq_zero_of_le (Nat.le_of_lt short),
        List.drop_zero] at split
    rw [all]
  · have length : (vs.rtake n).length = n := by
      unfold List.rtake
      rw [List.length_drop]
      omega
    have last : (vs.filter p).rtake n = vs.rtake n := by
      rw [List.rtake, split, List.length_append, length, Nat.add_sub_cancel, List.drop_left]
    have enough : n ≤ (vs.filter p).length := by
      rw [split, List.length_append, length]
      exact Nat.le_add_left n _
    unfold Forces
    rw [last]
    exact and_congr_left fun _ => iff_of_true enough long

namespace Selector

variable {s s' : Selector} {l : Level} {scope : Scope} {pick : Pick} {q j : QueueId} {i d : Stamp}

/-- What an action serves. -/
def service? (s : Selector) : Action → Option Service
  | .select scope => (s.select scope).1.bind fun pick => (s.levelOf? pick.queue).map fun l =>
      ⟨l, pick.half, s.HasWork .immediateOnly l⟩
  | _ => none

/-- What is served by a run, in order. -/
def record (s : Selector) : List Action → List Service
  | [] => []
  | a :: as => (s.service? a).toList ++ (s.act a).record as

theorem record_concat (s : Selector) (as : List Action) (a : Action) :
    s.record (as ++ [a]) = s.record as ++ ((s.run as).service? a).toList := by
  induction as generalizing s with
  | nil => exact List.append_nil _
  | cons b as ih =>
      have rest := ih (s.act b)
      rw [List.cons_append]
      unfold record
      rw [rest, List.append_assoc]
      rfl

/-! ### One action -/

theorem Serves.service?_eq (v : Serves s scope l pick s')
    (hs : s.select scope = (some pick, s')) :
    s.service? (.select scope) = some ⟨l, pick.half, s.HasWork .immediateOnly l⟩ := by
  simp only [service?, hs, Option.bind_some, v.levelOf?, Option.map_some]

/-- A service goes on with the streak or ends it; nothing else changes it. -/
theorem WF.streak_act (w : s.WF) (a : Action) :
    (s.act a).streak = match s.service? a with
      | none => s.streak
      | some v => if v.passesOver then s.streak + 1 else 0 := by
  have kept : ∀ {t}, Follows s t → t.streak = s.streak := by
    intro t follows
    obtain ⟨n, rekeyed⟩ := follows.rekeyed
    exact rekeyed.streak
  cases a with
  | add q f => exact kept (w.add q f)
  | remove q => exact kept (w.remove q)
  | enable q => exact kept (w.enable q)
  | disable q => exact kept (w.disable q)
  | setLevel q l => exact kept (w.setLevel q l)
  | changeFront q h x => exact kept (w.changeFront q h x)
  | select scope =>
      rcases w.select_cases scope with ⟨-, e⟩ | ⟨l, pick, s', e, v⟩
      · simp [act, service?, e]
      · rw [v.service?_eq e]
        simp [act, e, v.streak, Service.passesOver]

/-! ### Runs -/

/-- The streak is the number of the last services in a row that took a delayed task past an
immediate one. -/
theorem streak_run (settings : Settings) (as : List Action) :
    (run { settings := settings } as).streak =
      ((record { settings := settings } as).rtakeWhile Service.passesOver).length := by
  induction as using List.reverseRecOn with
  | nil => rfl
  | append_singleton as a ih =>
      rw [run_concat, (wf_run settings as).streak_act a, record_concat]
      cases (run { settings := settings } as).service? a with
      | none =>
          rw [Option.toList_none, List.append_nil]
          exact ih
      | some v =>
          dsimp only
          rw [Option.toList_some, List.rtakeWhile_concat, ih]
          split_ifs
          · rw [List.length_append, List.length_singleton]
          · rfl

/-! ### The limit -/

/-- A delayed task is taken past an immediate one only while the streak is short of its limit. -/
theorem Serves.streak_lt (v : Serves s scope l pick s') (hd : pick.half = .delayed)
    (hi : s.HasWork .immediateOnly l) : s.streak < s.settings.maxStreak := by
  obtain ⟨h, q, i, rfl, front⟩ := hi
  cases v.due with
  | immediateOnly | starved | immediate => cases hd
  | delayed _ short => exact (short q i front).2

theorem WF.streak_act_le (w : s.WF) (le : s.streak ≤ s.settings.maxStreak) (a : Action) :
    (s.act a).streak ≤ s.settings.maxStreak := by
  rw [w.streak_act a]
  cases hv : s.service? a with
  | none => exact le
  | some v =>
      dsimp only
      split_ifs with passes
      · cases a with
        | select scope =>
            rcases w.select_cases scope with ⟨-, e⟩ | ⟨l, pick, s', e, serves⟩
            · simp [service?, e] at hv
            · rw [serves.service?_eq e, Option.some.injEq] at hv
              subst hv
              simp only [Service.passesOver, Bool.and_eq_true, decide_eq_true_eq] at passes
              exact serves.streak_lt passes.1 passes.2
        | _ => cases hv
      · exact Nat.zero_le _

theorem settings_run (settings : Settings) (as : List Action) :
    (run { settings := settings } as).settings = settings := by
  rw [← Log.selector_run]
  exact Log.settings_run settings as

theorem streak_run_le (settings : Settings) (as : List Action) :
    (run { settings := settings } as).streak ≤ settings.maxStreak := by
  induction as using List.reverseRecOn with
  | nil => exact Nat.zero_le _
  | append_singleton as a ih =>
      have within := (wf_run settings as).streak_act_le (by rwa [settings_run]) a
      rwa [settings_run, ← run_concat] at within

/-- Whatever the record of a run begins with is all that was served up to some point of the run. -/
theorem exists_record_eq (as : List Action) {vs : List Service} (h : vs <+: s.record as) :
    ∃ past, past <+: as ∧ s.record past = vs := by
  induction as using List.reverseRecOn with
  | nil => exact ⟨[], List.prefix_rfl, (List.prefix_nil.1 h).symm⟩
  | append_singleton as a ih =>
      by_cases early : vs <+: s.record as
      · obtain ⟨past, before, e⟩ := ih early
        exact ⟨past, before.trans (List.prefix_append as [a]), e⟩
      · rw [record_concat] at h
        refine ⟨as ++ [a], List.prefix_rfl, ?_⟩
        rw [record_concat]
        cases hv : (s.run as).service? a with
        | none =>
            rw [hv, Option.toList_none, List.append_nil] at h
            exact absurd h early
        | some v =>
            rw [hv, Option.toList_some, List.prefix_concat_iff] at h
            exact (h.resolve_right early).symm

/-- The streak is as long as the last services in a row that took a delayed task past an immediate
one, and never longer than `Settings.maxStreak`.  So of any `Settings.maxStreak + 1` services in a
row one takes an immediate task, or finds none at its level. -/
theorem streak_within_limit (settings : Settings) (as : List Action) :
    let s := run { settings := settings } as
    let log := record { settings := settings } as
    (∀ scope pick, (s.select scope).1 = some pick → ∃ l, s.nextLevel? scope = some l ∧
        s.service? (.select scope) = some ⟨l, pick.half, s.HasWork .immediateOnly l⟩) ∧
      s.streak = (log.rtakeWhile Service.passesOver).length ∧ s.streak ≤ settings.maxStreak ∧
      ∀ window, window <:+: log → window.length = settings.maxStreak + 1 →
        ∃ v ∈ window, v.half = .immediate ∨ v.hasImmediate = false := by
  intro s log
  refine ⟨fun scope pick chosen => ?_, streak_run settings as, streak_run_le settings as, ?_⟩
  · rcases (wf_run settings as).select_cases scope with ⟨-, e⟩ | ⟨l, pick', s', e, serves⟩
    · simp [s, e] at chosen
    · obtain rfl : pick' = pick := by simpa [s, e] using chosen
      exact ⟨l, serves.next, serves.service?_eq e⟩
  · rintro window ⟨before, after, split⟩ long
    obtain ⟨past, -, upTo⟩ : ∃ past, past <+: as ∧
        record { settings := settings } past = before ++ window :=
      exists_record_eq as ⟨after, split⟩
    by_contra all
    have forces : Service.Forces window.length (before ++ window) := by
      refine ⟨by rw [List.length_append]; omega, fun v mem => ?_⟩
      rw [List.rtake, List.length_append, Nat.add_sub_cancel, List.drop_left] at mem
      by_contra ends
      rw [Bool.not_eq_true, Service.passesOver_eq_false_iff] at ends
      exact all ⟨v, mem, ends⟩
    have le := streak_run_le settings past
    rw [Service.forces_iff, ← upTo, ← streak_run] at forces
    omega

/-- Where a delayed front is older than all immediate ones, the streak decides. -/
theorem WF.half_eq_immediate_iff (w : s.WF) {v : Service}
    (hv : s.service? (.select .bothHalves) = some v) (hi : s.IsOldest v.level .immediate q i)
    (hd : s.IsFront v.level .delayed j d) (older : d < i) :
    v.half = .immediate ↔ s.settings.maxStreak ≤ s.streak := by
  rcases w.select_cases .bothHalves with ⟨-, e⟩ | ⟨l, pick, s', e, serves⟩
  · simp [service?, e] at hv
  · rw [serves.service?_eq e, Option.some.injEq] at hv
    subst hv
    cases serves.due with
    | starved _ long => exact iff_of_true rfl long
    | @immediate j' i' oldest first =>
        have le : i ≤ i' := hi.2 j' i' oldest.1
        have before : i' ≤ d := first j d hd
        exact absurd older (Nat.not_lt_of_le (Nat.le_trans le before))
    | delayed _ short =>
        refine iff_of_false (fun h => ?_) (Nat.not_le_of_lt (short q i hi.1).2)
        cases h

/-- At a level with an immediate task and an older delayed one, the immediate one is taken exactly
if the last `Settings.maxStreak` services, at whatever levels, all took a delayed task past an
immediate one.  It comes to the same to ask this of the services of the level alone if the last
`Settings.maxStreak` services were all there. -/
theorem takes_immediate_iff (settings : Settings) (past : List Action) {v : Service}
    (hs : s = run { settings := settings } past)
    (hv : s.service? (.select .bothHalves) = some v) (hi : s.IsOldest v.level .immediate q i)
    (hd : s.IsFront v.level .delayed j d) (older : d < i) :
    let log := record { settings := settings } past
    let n := settings.maxStreak
    (v.half = .immediate ↔ Service.Forces n log) ∧
      ((∀ u ∈ log.rtake n, u.level = v.level) →
        (v.half = .immediate ↔ Service.Forces n (log.filter (·.level = v.level)))) := by
  intro log n
  have hset : s.settings = settings := by
    rw [hs, ← Log.selector_run]
    exact Log.settings_run settings past
  have streak : s.streak = (log.rtakeWhile Service.passesOver).length :=
    hs ▸ streak_run settings past
  have w : s.WF := hs ▸ wf_run settings past
  have forced : v.half = .immediate ↔ Service.Forces n log := by
    rw [w.half_eq_immediate_iff hv hi hd older, Service.forces_iff, hset, streak]
  refine ⟨forced, fun own => ?_⟩
  rw [forced, Service.forces_filter_iff fun u hu => decide_eq_true (own u hu)]

/-- After three delayed tasks in a row the immediate one is taken. -/
theorem takes_immediate_after_three :
    let past : List Action := .add ⟨1, 1⟩ ⟨some ⟨10⟩, some ⟨1⟩⟩ ::
      List.replicate 3 (.select .bothHalves)
    let s := run {} past
    ∃ v, s.service? (.select .bothHalves) = some v ∧ s.IsOldest v.level .immediate ⟨1, 1⟩ ⟨10⟩ ∧
      s.IsFront v.level .delayed ⟨1, 1⟩ ⟨1⟩ ∧
      (v.half = .immediate ↔ Service.Forces ({} : Settings).maxStreak (record {} past)) := by
  intro past s
  have w : s.WF := wf_run {} past
  have hv : s.service? (.select .bothHalves) = some ⟨.normal, .immediate, true⟩ := by decide +kernel
  have hi : s.IsOldest .normal .immediate ⟨1, 1⟩ ⟨10⟩ :=
    w.isOldest_of_oldest? (e := (⟨1, 1⟩, ⟨10⟩)) .immediate (by decide +kernel)
  have hd : s.IsOldest .normal .delayed ⟨1, 1⟩ ⟨1⟩ :=
    w.isOldest_of_oldest? (e := (⟨1, 1⟩, ⟨1⟩)) .delayed (by decide +kernel)
  exact ⟨_, hv, hi, hd.1, (takes_immediate_iff {} past rfl hv hi hd.1 (by decide)).1⟩

/-- The streak of a level does not count by itself.  At most one delayed task is to be taken past an
immediate one, and one has been at level `normal`; a service of `control` ends that streak, so the
next service of `normal` takes another delayed task. -/
theorem not_forced_by_own_level :
    ¬ ∀ (settings : Settings) (past : List Action) (v : Service) (q j : QueueId) (i d : Stamp),
      let s := run { settings := settings } past
      let log := record { settings := settings } past
      1 ≤ settings.maxStreak → (∀ scope, .select scope ∈ past → scope = .bothHalves) →
        s.service? (.select .bothHalves) = some v → s.IsOldest v.level .immediate q i →
          s.IsFront v.level .delayed j d → d < i →
            (v.half = .immediate ↔
              Service.Forces settings.maxStreak (log.filter (·.level = v.level))) := by
  intro guarded
  let settings : Settings := { maxStreak := 1 }
  let past : List Action := [.add ⟨1, 1⟩ ⟨some ⟨10⟩, some ⟨1⟩⟩, .select .bothHalves,
    .add ⟨2, 1⟩ ⟨some ⟨20⟩, none⟩, .setLevel ⟨2, 1⟩ .control, .select .bothHalves,
    .changeFront ⟨2, 1⟩ .immediate none]
  have w : (run { settings := settings } past).WF := wf_run settings past
  have hi : Selector.IsOldest _ .normal .immediate ⟨1, 1⟩ ⟨10⟩ :=
    w.isOldest_of_oldest? (e := (⟨1, 1⟩, ⟨10⟩)) .immediate (by decide +kernel)
  have hd : Selector.IsOldest _ .normal .delayed ⟨1, 1⟩ ⟨1⟩ :=
    w.isOldest_of_oldest? (e := (⟨1, 1⟩, ⟨1⟩)) .delayed (by decide +kernel)
  have own := guarded settings past ⟨.normal, .delayed, true⟩ _ _ _ _ (by decide)
    (by simp [past]) (by decide +kernel) hi hd.1 (by decide)
  have forced : Service.Forces settings.maxStreak
      ((record { settings := settings } past).filter (·.level = .normal)) := by decide +kernel
  exact absurd (own.2 forced) (by decide)

end Selector

end Dispatch
