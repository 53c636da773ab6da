import Dispatch.Proofs.Selection.Levels

/-!
# The selector mirrors the queues

In a well-formed selector (`WF`) the ready sets hold exactly the halves with tasks of the enabled
queues, each at the level and under the front stamp that the table of queues records for it.  Every
operation keeps this, whatever it is called with, and changes the record of the queue that it names
and no other.
-/

namespace Dispatch

/-- The level and the stamp under which half `h` of a queue belongs in a ready set. -/
def Enrolment.listed (e : Enrolment) (h : Half) : Option (Level × Stamp) :=
  if e.enabled then (e.fronts.get h).map fun f => (e.level, f) else none

namespace Selector

variable {s s' : Selector} {l : Level} {h g : Half} {q j : QueueId} {f : Stamp}

/-- The ready sets agree with the table of queues, and the ranking with the ready sets. -/
structure WF (s : Selector) : Prop where
  sound : s.Sound
  mirrors : ∀ h q, (s.sets h).member? q = (s.queues.find? q).bind (·.listed h)

theorem wf_new (settings : Settings) : WF { settings := settings } where
  sound := sound_new settings
  mirrors h q := by cases h <;> rfl

theorem WF.not_member_of_find?_eq_none (w : s.WF) (hq : s.queues.find? q = none) (h : Half) :
    (s.sets h).member? q = none := by
  rw [w.mirrors, hq]
  rfl

theorem WF.not_member_of_disabled (w : s.WF) {e : Enrolment} (hq : s.queues.find? q = some e)
    (he : e.enabled = false) (h : Half) : (s.sets h).member? q = none := by
  rw [w.mirrors, hq, Option.bind_some, Enrolment.listed, he]
  rfl

/-! ### One half of a queue -/

@[simp] theorem queues_addToHalf (s : Selector) (q : QueueId) (l : Level) (h : Half) (f : Stamp) :
    (s.addToHalf q l h f).queues = s.queues := by
  simp only [addToHalf, queues_foldl_apply, queues_withSets]

@[simp] theorem queues_removeFromHalf (s : Selector) (q : QueueId) (h : Half) :
    (s.removeFromHalf q h).queues = s.queues := by
  simp only [removeFromHalf, queues_foldl_apply, queues_withSets]

@[simp] theorem queues_moveInHalf (s : Selector) (q : QueueId) (l : Level) (h : Half) :
    (s.moveInHalf q l h).queues = s.queues := by
  simp only [moveInHalf, queues_foldl_apply, queues_withSets]

theorem Sound.addToHalf (w : s.Sound) (q : QueueId) (l : Level) (h : Half) (f : Stamp) :
    Settled s (some l) (s.addToHalf q l h f) := by
  refine w.settled ((w.sets h).add q l f) ((w.sets h).tells_add q l f) ?_
  intro t ht
  rw [ReadySets.eq_of_mem_add ht]
  rfl

theorem Sound.removeFromHalf (w : s.Sound) (q : QueueId) (h : Half) :
    Settled s none (s.removeFromHalf q h) := by
  refine w.settled ((w.sets h).remove q) ((w.sets h).tells_remove q) ?_
  intro t ht
  obtain ⟨m, rfl⟩ := (w.sets h).exists_emptied_of_mem_remove ht
  exact Option.some_ne_none m |>.symm

theorem Sound.moveInHalf (w : s.Sound) (q : QueueId) (l : Level) (h : Half) :
    Settled s (some l) (s.moveInHalf q l h) := by
  refine w.settled ((w.sets h).move q l) ((w.sets h).tells_move q l) ?_
  intro t ht
  rcases (w.sets h).cases_of_mem_move ht with rfl | ⟨m, hm, rfl⟩
  · rfl
  · exact fun e => hm (Option.some.inj e).symm

theorem sets_addToHalf (s : Selector) (q : QueueId) (l : Level) (h : Half) (f : Stamp) (g : Half) :
    (s.addToHalf q l h f).sets g = if g = h then ((s.sets h).add q l f).2 else s.sets g := by
  simp only [Selector.addToHalf, sets_foldl_apply, sets_withSets]

theorem sets_removeFromHalf (s : Selector) (q : QueueId) (h g : Half) :
    (s.removeFromHalf q h).sets g = if g = h then ((s.sets h).remove q).2 else s.sets g := by
  simp only [Selector.removeFromHalf, sets_foldl_apply, sets_withSets]

theorem sets_moveInHalf (s : Selector) (q : QueueId) (l : Level) (h g : Half) :
    (s.moveInHalf q l h).sets g = if g = h then ((s.sets h).move q l).2 else s.sets g := by
  simp only [Selector.moveInHalf, sets_foldl_apply, sets_withSets]

theorem Sound.member?_addToHalf (w : s.Sound) (hq : (s.sets h).member? q = none) (l : Level)
    (f : Stamp) (g : Half) (j : QueueId) :
    ((s.addToHalf q l h f).sets g).member? j =
      if g = h ∧ j = q then some (l, f) else (s.sets g).member? j := by
  rw [sets_addToHalf]
  by_cases hg : g = h
  · subst hg
    rw [if_pos rfl, (w.sets g).member?_add hq]
    simp
  · simp [hg]

theorem Sound.member?_removeFromHalf (w : s.Sound) (q : QueueId) (h g : Half) (j : QueueId) :
    ((s.removeFromHalf q h).sets g).member? j =
      if g = h ∧ j = q then none else (s.sets g).member? j := by
  rw [sets_removeFromHalf]
  by_cases hg : g = h
  · subst hg
    rw [if_pos rfl, (w.sets g).member?_remove]
    simp
  · simp [hg]

theorem Sound.member?_moveInHalf (w : s.Sound) (q : QueueId) (l : Level) (h g : Half)
    (j : QueueId) : ((s.moveInHalf q l h).sets g).member? j =
      if g = h ∧ j = q then ((s.sets h).member? q).map fun e => (l, e.2)
      else (s.sets g).member? j := by
  rw [sets_moveInHalf]
  by_cases hg : g = h
  · subst hg
    rw [if_pos rfl, (w.sets g).member?_move]
    simp
  · simp [hg]

/-! ### Both halves of a queue -/

theorem Sound.addFront (w : s.Sound) (q : QueueId) (l : Level) (h : Half) (x : Option Stamp) :
    Settled s (some l) (x.elim s (s.addToHalf q l h)) := by
  cases x with
  | none => exact w.settled_refl _
  | some x => exact w.addToHalf q l h x

theorem Sound.member?_addFront (w : s.Sound) (hq : (s.sets h).member? q = none) (l : Level)
    (x : Option Stamp) (g : Half) (j : QueueId) :
    ((x.elim s (s.addToHalf q l h)).sets g).member? j =
      if g = h ∧ j = q then x.map fun x => (l, x) else (s.sets g).member? j := by
  cases x with
  | none =>
      split_ifs with hg
      · obtain ⟨rfl, rfl⟩ := hg
        exact hq
      · rfl
  | some x => exact w.member?_addToHalf hq l x g j

theorem Sound.addToSets (w : s.Sound) (q : QueueId) (l : Level) (f : Fronts) :
    Settled s (some l) (s.addToSets q l f) := by
  have first := w.addFront q l .immediate f.immediate
  exact first.trans (first.sound.addFront q l .delayed f.delayed)

theorem Sound.member?_addToSets (w : s.Sound) (hq : ∀ h, (s.sets h).member? q = none) (l : Level)
    (f : Fronts) (g : Half) (j : QueueId) :
    ((s.addToSets q l f).sets g).member? j =
      if j = q then (f.get g).map fun x => (l, x) else (s.sets g).member? j := by
  have first := w.addFront q l .immediate f.immediate
  unfold Selector.addToSets
  rw [first.sound.member?_addFront, w.member?_addFront (hq _)]
  · cases g <;> by_cases hj : j = q <;> simp [hj, Fronts.get]
  · rw [w.member?_addFront (hq _)]
    simp [hq]

theorem Sound.removeFromSets (w : s.Sound) (q : QueueId) : Settled s none (s.removeFromSets q) :=
  (w.removeFromHalf q .immediate).trans ((w.removeFromHalf q .immediate).sound.removeFromHalf q _)

theorem Sound.member?_removeFromSets (w : s.Sound) (q : QueueId) (g : Half) (j : QueueId) :
    ((s.removeFromSets q).sets g).member? j = if j = q then none else (s.sets g).member? j := by
  unfold Selector.removeFromSets
  rw [(w.removeFromHalf q .immediate).sound.member?_removeFromHalf, w.member?_removeFromHalf]
  cases g <;> by_cases hj : j = q <;> simp [hj]

theorem Sound.member?_moveInHalves (w : s.Sound) (q : QueueId) (l : Level) (g : Half)
    (j : QueueId) :
    ((((s.moveInHalf q l .immediate).moveInHalf q l .delayed).sets g).member? j) =
      if j = q then ((s.sets g).member? q).map fun e => (l, e.2) else (s.sets g).member? j := by
  rw [(w.moveInHalf q l .immediate).sound.member?_moveInHalf, w.member?_moveInHalf,
    w.member?_moveInHalf]
  cases g <;> by_cases hj : j = q <;> simp [hj]

@[simp] theorem queues_addToSets (s : Selector) (q : QueueId) (l : Level) (f : Fronts) :
    (s.addToSets q l f).queues = s.queues := by
  obtain ⟨i, d⟩ := f
  cases i <;> cases d <;> simp [addToSets]

@[simp] theorem queues_removeFromSets (s : Selector) (q : QueueId) :
    (s.removeFromSets q).queues = s.queues := by
  simp [removeFromSets]

/-! ### The records of the queues -/

theorem find?_queues_add (s : Selector) (q : QueueId) (f : Fronts) (j : QueueId) :
    (s.add q f).queues.find? j =
      if j = q then some ((s.queues.find? q).getD ⟨.standard, true, f⟩)
      else s.queues.find? j := by
  unfold Selector.add Table.contains
  cases hq : s.queues.find? q with
  | none => simp [Table.find?_insert]
  | some e => by_cases hj : j = q <;> simp [hj, hq]

theorem find?_queues_remove (s : Selector) (q j : QueueId) :
    (s.remove q).queues.find? j = if j = q then none else s.queues.find? j := by
  unfold Selector.remove
  rcases hq : s.queues.find? q with _ | ⟨l, _ | _, f⟩
  · split_ifs with hj
    · rw [hj, hq]
    · rfl
  · simp [Table.find?_erase]
  · simp [Table.find?_erase]

theorem find?_queues_enable (s : Selector) (q j : QueueId) :
    (s.enable q).2.queues.find? j =
      if j = q then (s.queues.find? q).map fun e => { e with enabled := true }
      else s.queues.find? j := by
  unfold Selector.enable
  rcases hq : s.queues.find? q with _ | ⟨l, _ | _, f⟩
  · split_ifs with hj
    · rw [hj, hq]
      rfl
    · rfl
  · simp [Table.find?_insert]
  · by_cases hj : j = q <;> simp [hj, hq]

theorem find?_queues_disable (s : Selector) (q j : QueueId) :
    (s.disable q).queues.find? j =
      if j = q then (s.queues.find? q).map fun e => { e with enabled := false }
      else s.queues.find? j := by
  unfold Selector.disable
  rcases hq : s.queues.find? q with _ | ⟨l, _ | _, f⟩
  · split_ifs with hj
    · rw [hj, hq]
      rfl
    · rfl
  · by_cases hj : j = q <;> simp [hj, hq]
  · simp [Table.find?_insert]

theorem find?_queues_setLevel (s : Selector) (q : QueueId) (l : Level) (j : QueueId) :
    (s.setLevel q l).queues.find? j =
      if j = q then (s.queues.find? q).map fun e => { e with level := l }
      else s.queues.find? j := by
  unfold Selector.setLevel
  rcases hq : s.queues.find? q with _ | ⟨m, b, f⟩
  · split_ifs with hj
    · rw [hj, hq]
      rfl
    · rfl
  · by_cases hm : m = l
    · by_cases hj : j = q <;> simp [hm, hj, hq]
    · cases b <;> simp [hm, Table.find?_insert]

theorem find?_queues_changeFront (s : Selector) (q : QueueId) (h : Half) (x : Option Stamp)
    (j : QueueId) :
    (s.changeFront q h x).queues.find? j =
      if j = q then (s.queues.find? q).map fun e => { e with fronts := e.fronts.set h x }
      else s.queues.find? j := by
  unfold Selector.changeFront
  rcases hq : s.queues.find? q with _ | ⟨l, _ | _, f⟩
  · split_ifs with hj
    · rw [hj, hq]
      rfl
    · rfl
  · simp [Table.find?_insert]
  · cases x with
    | none => simp [Table.find?_insert]
    | some x =>
        dsimp only
        rw [if_pos rfl]
        split <;> simp [Table.find?_insert]

/-! ### Operations keep the selector well formed -/

/-- The selector is well formed and no levels but one have new keys. -/
structure Follows (s s' : Selector) : Prop where
  wf : s'.WF
  rekeyed : ∃ n, Rekeyed s n s'

theorem WF.follows_refl (w : s.WF) : Follows s s := ⟨w, none, .refl s none⟩

/-- The mirror is kept when the record of one queue changes and the sets follow it. -/
theorem WF.follows (w : s.WF) {t : Table QueueId Enrolment} {n : Option Level}
    {r : Option Enrolment} (hs : Settled { s with queues := t } n s')
    (ht : ∀ j, s'.queues.find? j = if j = q then r else s.queues.find? j)
    (hm : ∀ h j, (s'.sets h).member? j =
      if j = q then r.bind (·.listed h) else (s.sets h).member? j) :
    Follows s s' where
  rekeyed := ⟨n, hs.rekeyed_of_queues⟩
  wf := by
    refine ⟨hs.sound, fun h j => ?_⟩
    rw [hm, ht]
    split_ifs
    · rfl
    · exact w.mirrors h j

/-- The sets have nothing to follow when the queue is disabled before and after. -/
theorem WF.follows_of_disabled (w : s.WF) {e : Enrolment} (hq : s.queues.find? q = some e)
    (he : e.enabled = false) {t : Table QueueId Enrolment} {r : Option Enrolment}
    (ht : ∀ j, t.find? j = if j = q then r else s.queues.find? j)
    (hr : ∀ h, r.bind (·.listed h) = none) : Follows s { s with queues := t } := by
  have sound := w.sound.withQueues t
  refine w.follows (sound.settled_refl none) ht fun h j => ?_
  split_ifs with hj
  · rw [hr, hj]
    exact w.not_member_of_disabled hq he h
  · rfl

theorem WF.add (w : s.WF) (q : QueueId) (f : Fronts) : Follows s (s.add q f) := by
  have hf := find?_queues_add s q f
  cases hq : s.queues.find? q with
  | none =>
      let t := s.queues.insert q ⟨.standard, true, f⟩
      have e : s.add q f = ({ s with queues := t } : Selector).addToSets q .standard f := by
        simp [Selector.add, Table.contains, hq, t]
      have sound := w.sound.withQueues t
      have out : ∀ h, (({ s with queues := t } : Selector).sets h).member? q = none :=
        w.not_member_of_find?_eq_none hq
      rw [e] at hf ⊢
      refine w.follows (sound.addToSets q .standard f) hf fun h j => ?_
      rw [sound.member?_addToSets out, hq]
      rfl
  | some e =>
      have e : s.add q f = s := by simp [Selector.add, Table.contains, hq]
      rw [e]
      exact w.follows_refl

theorem WF.remove (w : s.WF) (q : QueueId) : Follows s (s.remove q) := by
  have hf := find?_queues_remove s q
  cases hq : s.queues.find? q with
  | none =>
      have e : s.remove q = s := by simp [Selector.remove, hq]
      rw [e]
      exact w.follows_refl
  | some e =>
      let t := s.queues.erase q
      rcases he : e.enabled with _ | _
      · have e' : s.remove q = { s with queues := t } := by simp [Selector.remove, hq, he, t]
        rw [e'] at hf ⊢
        exact w.follows_of_disabled hq he hf fun h => rfl
      · have e' : s.remove q = ({ s with queues := t } : Selector).removeFromSets q := by
          simp [Selector.remove, hq, he, t]
        have sound := w.sound.withQueues t
        rw [e'] at hf ⊢
        refine w.follows (sound.removeFromSets q) hf fun h j => ?_
        rw [sound.member?_removeFromSets]
        rfl

theorem WF.enable (w : s.WF) (q : QueueId) : Follows s (s.enable q).2 := by
  have hf := find?_queues_enable s q
  cases hq : s.queues.find? q with
  | none =>
      have e : s.enable q = (false, s) := by simp [Selector.enable, hq]
      rw [e]
      exact w.follows_refl
  | some e =>
      rcases he : e.enabled with _ | _
      · let t := s.queues.insert q { e with enabled := true }
        have e' : (s.enable q).2 =
            ({ s with queues := t } : Selector).addToSets q e.level e.fronts := by
          simp [Selector.enable, hq, he, t]
        have sound := w.sound.withQueues t
        have out : ∀ h, (({ s with queues := t } : Selector).sets h).member? q = none :=
          w.not_member_of_disabled hq he
        rw [e'] at hf ⊢
        refine w.follows (sound.addToSets q e.level e.fronts) hf fun h j => ?_
        rw [sound.member?_addToSets out, hq]
        rfl
      · have e' : s.enable q = (false, s) := by simp [Selector.enable, hq, he]
        rw [e']
        exact w.follows_refl

theorem WF.disable (w : s.WF) (q : QueueId) : Follows s (s.disable q) := by
  have hf := find?_queues_disable s q
  cases hq : s.queues.find? q with
  | none =>
      have e : s.disable q = s := by simp [Selector.disable, hq]
      rw [e]
      exact w.follows_refl
  | some e =>
      rcases he : e.enabled with _ | _
      · have e' : s.disable q = s := by simp [Selector.disable, hq, he]
        rw [e']
        exact w.follows_refl
      · let t := s.queues.insert q { e with enabled := false }
        have e' : s.disable q = ({ s with queues := t } : Selector).removeFromSets q := by
          simp [Selector.disable, hq, he, t]
        have sound := w.sound.withQueues t
        rw [e'] at hf ⊢
        refine w.follows (sound.removeFromSets q) hf fun h j => ?_
        rw [sound.member?_removeFromSets, hq]
        rfl

theorem WF.setLevel (w : s.WF) (q : QueueId) (l : Level) : Follows s (s.setLevel q l) := by
  have hf := find?_queues_setLevel s q l
  cases hq : s.queues.find? q with
  | none =>
      have e : s.setLevel q l = s := by simp [Selector.setLevel, hq]
      rw [e]
      exact w.follows_refl
  | some e =>
      by_cases hl : e.level = l
      · have e' : s.setLevel q l = s := by simp [Selector.setLevel, hq, hl]
        rw [e']
        exact w.follows_refl
      · let t := s.queues.insert q { e with level := l }
        rcases he : e.enabled with _ | _
        · have e' : s.setLevel q l = { s with queues := t } := by
            simp [Selector.setLevel, hq, hl, he, t]
          rw [e'] at hf ⊢
          refine w.follows_of_disabled hq he hf fun h => ?_
          simp [hq, Enrolment.listed, he]
        · have e' : s.setLevel q l =
              (({ s with queues := t } :
                Selector).moveInHalf q l .immediate).moveInHalf q l .delayed := by
            simp [Selector.setLevel, hq, hl, he, t]
          have sound := w.sound.withQueues t
          have first := sound.moveInHalf q l .immediate
          rw [e'] at hf ⊢
          refine w.follows (first.trans (first.sound.moveInHalf q l .delayed)) hf fun h j => ?_
          have old : (({ s with queues := t } : Selector).sets h).member? q = e.listed h := by
            have := w.mirrors h q
            rwa [hq] at this
          rw [sound.member?_moveInHalves, old, hq]
          simp only [Option.map_some, Option.bind_some, Enrolment.listed, he, if_true,
            Option.map_map]
          rfl

/-! ### Changing the front of one half -/

theorem get_set_fronts (f : Fronts) (h g : Half) (x : Option Stamp) :
    (f.set h x).get g = if g = h then x else f.get g := by
  cases h <;> cases g <;> rfl

theorem Sound.settled_changeFront (w : s.Sound) (hq : (s.sets h).member? q = some (l, f))
    (x : Stamp) : Settled s none (s.withSets h ((s.sets h).changeFront q x)) :=
  w.settled ((w.sets h).changeFront q x) ((w.sets h).tells_changeFront hq x) (by simp)

theorem Sound.member?_changeFront (w : s.Sound) (hq : (s.sets h).member? q = some (l, f))
    (x : Stamp) (g : Half) (j : QueueId) :
    ((s.withSets h ((s.sets h).changeFront q x)).sets g).member? j =
      if g = h ∧ j = q then some (l, x) else (s.sets g).member? j := by
  rw [sets_withSets]
  by_cases hg : g = h
  · subst hg
    rw [if_pos rfl, (w.sets g).member?_changeFront hq]
    simp
  · simp [hg]

/-- How the sets take up a new front of an enabled queue, whether its half was empty or not. -/
def setFront (s : Selector) (q : QueueId) (l : Level) (h : Half) (x : Stamp) : Selector :=
  if (s.sets h).contains q then s.withSets h ((s.sets h).changeFront q x) else s.addToHalf q l h x

theorem Sound.setFront (w : s.Sound) {front : Option Stamp}
    (hq : (s.sets h).member? q = front.map fun f => (l, f)) (x : Stamp) :
    (∃ n, Settled s n (s.setFront q l h x)) ∧ ∀ g j, ((s.setFront q l h x).sets g).member? j =
      if g = h ∧ j = q then some (l, x) else (s.sets g).member? j := by
  unfold Selector.setFront
  rw [(w.sets h).contains_eq, hq]
  cases front with
  | none => exact ⟨⟨_, w.addToHalf q l h x⟩, w.member?_addToHalf hq l x⟩
  | some f => exact ⟨⟨_, w.settled_changeFront hq x⟩, w.member?_changeFront hq x⟩

/-- What the table of queues asks of the sets when a front is recorded: the new front in that half,
and the old one beside it. -/
theorem WF.listed_changeFront {e : Enrolment} (w : s.WF) (hq : s.queues.find? q = some e)
    (he : e.enabled = true) (h g : Half) (x : Option Stamp) (j : QueueId) :
    (if j = q then
      ((s.queues.find? q).map fun e => { e with fronts := e.fronts.set h x }).bind (·.listed g)
    else (s.sets g).member? j) =
      if g = h ∧ j = q then x.map fun f => (e.level, f) else (s.sets g).member? j := by
  by_cases hj : j = q
  · rw [hj, w.mirrors, hq]
    by_cases hg : g = h <;> simp [hg, Enrolment.listed, he, get_set_fronts]
  · simp [hj]

theorem WF.changeFront (w : s.WF) (q : QueueId) (h : Half) (x : Option Stamp) :
    Follows s (s.changeFront q h x) := by
  have hf := find?_queues_changeFront s q h x
  cases hq : s.queues.find? q with
  | none =>
      have e : s.changeFront q h x = s := by simp [Selector.changeFront, hq]
      rw [e]
      exact w.follows_refl
  | some e =>
      let t := s.queues.insert q { e with fronts := e.fronts.set h x }
      have sound := w.sound.withQueues t
      rcases he : e.enabled with _ | _
      · have e' : s.changeFront q h x = { s with queues := t } := by
          simp [Selector.changeFront, hq, he, t]
        rw [e'] at hf ⊢
        refine w.follows_of_disabled hq he hf fun g => ?_
        simp [hq, Enrolment.listed, he]
      · cases x with
        | none =>
            have e' : s.changeFront q h none =
                ({ s with queues := t } : Selector).removeFromHalf q h := by
              simp [Selector.changeFront, hq, he, t]
            rw [e'] at hf ⊢
            refine w.follows (sound.removeFromHalf q h) hf fun g j => ?_
            rw [w.listed_changeFront hq he, sound.member?_removeFromHalf]
            rfl
        | some x =>
            have e' : s.changeFront q h (some x) =
                ({ s with queues := t } : Selector).setFront q e.level h x := by
              simp [Selector.changeFront, Selector.setFront, hq, he, t]
            have old : (({ s with queues := t } : Selector).sets h).member? q =
                (e.fronts.get h).map fun f => (e.level, f) := by
              have := w.mirrors h q
              rwa [hq, Option.bind_some, Enrolment.listed, he, if_pos rfl] at this
            obtain ⟨⟨n, hs⟩, hm⟩ := sound.setFront old x
            rw [e'] at hf ⊢
            refine w.follows hs hf fun g j => ?_
            rw [w.listed_changeFront hq he]
            exact hm g j

end Selector

end Dispatch
