import Cadence.Proofs.Timer.Outcome

/-!
An alarm that is due, and an edit that has nothing to do with it. The end or the time zone is edited while the next
execution time has come and the alarm has not gone off yet. If the alarm is first, the listeners hear of that time. If
the edit is first, the timer is going to recompute its schedule because of it, and that skips what is due: nobody hears
of the time, unless the edit changes nothing or catching up fails. `Passes` follows the timer through such a race.
-/

namespace Cadence.Situation

/-- The timer could be armed, its schedule goes on, and a time is stored to go on from. -/
structure IsSteady (v : Situation) : Prop where
  schedulable : v.IsSchedulable
  goesOn : v.settings.hasEnded v.now = false
  scheduled : ∃ next, v.settings.nextExecution = some next

/-- Edits the time zone, or the end to a time that is still ahead, or removes one of them. -/
def IsUnrelated (v : Situation) : Action → Prop
  | .setEndTime finish => ∀ i ∈ finish, v.now < i
  | .write .endTime value => ∀ i, value = some (.instant i) → v.now < i
  | .write .timezone _ => True
  | _ => False

/-- These actions lead from one steady situation to another, and the listeners hear of these times. -/
structure Passes [Host] (v w : Situation) (actions : List Action) (heard : List Instant) : Prop where
  run : v.run actions = w
  calls : ∀ id, (v.occasions actions).flatMap (Occasion.calls id) =
    heard.flatMap fun i => v.listeners.map fun l => ⟨id, l.name, i⟩
  steady : w.IsSteady
  listeners : w.listeners = v.listeners
  now : w.now = v.now

/-- What an edit comes to that is unrelated to the schedule: it changes nothing, or it asks for a recompute. -/
structure Adjusts (v w : Situation) : Prop where
  steady : w.IsSteady
  next : w.settings.nextExecution = v.settings.nextExecution
  asked : w = v ∨ w.settings ≠ v.settings ∧ w.queue = v.queue ++ [.recompute false]

theorem occasions_append [Host] (v : Situation) (before after : List Action) :
    v.occasions (before ++ after) = v.occasions before ++ (v.run before).occasions after := by
  induction before generalizing v with
  | nil => rfl
  | cons a rest ih =>
    rw [List.cons_append, occasions, occasions, ih, List.append_assoc]
    rfl

namespace Passes

variable {u v w : Situation} {first second : List Action} {heard later : List Instant}

theorem trans [Host] (h : Passes u v first heard) (k : Passes v w second later) :
    Passes u w (first ++ second) (heard ++ later) where
  run := by rw [run_append, h.run, k.run]
  calls id := by
    rw [occasions_append, List.flatMap_append, h.calls, h.run, k.calls, List.flatMap_append, h.listeners]
  steady := k.steady
  listeners := k.listeners.trans h.listeners
  now := k.now.trans h.now

theorem one [Host] {a : Action} (goes : v.act a = w) (silent : v.announces? a = none) (steady : w.IsSteady)
    (listeners : w.listeners = v.listeners) (now : w.now = v.now) : Passes v w [a] [] where
  run := goes
  calls id := by simp [occasions, occasion?, silent]
  steady := steady
  listeners := listeners
  now := now

end Passes

namespace IsSteady

variable {v : Situation} {rest : List Work}

theorem live (h : v.IsSteady) : v.IsLive := h.schedulable.1

theorem with_queue (h : v.IsSteady) (queue : List Work) : IsSteady { v with queue := queue } :=
  ⟨h.schedulable, h.goesOn, h.scheduled⟩

theorem recompute_cases [Host] (h : v.IsSteady) :
    (∃ e, v.settings.next? false v.now = some (.error e) ∧ v.recompute false = v) ∨
      ∃ next, v.settings.next? false v.now = some (.ok next) ∧ v.recompute false = v.schedule next := by
  obtain ⟨old, stored⟩ := h.scheduled
  obtain ⟨amount, usable⟩ := Option.isSome_iff_exists.mp h.schedulable.2
  have next : v.settings.next? false v.now =
      some (amount.advancePast v.settings.zone (v.settings.anchor false v.now) v.now) := by
    rw [Settings.next?, usable, Option.map_some]
  cases advanced : amount.advancePast v.settings.zone (v.settings.anchor false v.now) v.now with
  | error e =>
    rw [advanced] at next
    exact Or.inl ⟨e, next, by rw [recompute_of_failed h.live h.goesOn next, seed_of_stored stored]⟩
  | ok i =>
    rw [advanced] at next
    exact Or.inr ⟨i, next, by rw [recompute_of_found h.live h.goesOn next, seed_of_stored stored]⟩

theorem passes_recompute [Host] (h : v.IsSteady) (queued : v.queue = .recompute false :: rest) :
    ∃ w, Passes v w [.work] [] ∧ w.queue = rest ∧
      ((∃ e, v.settings.next? false v.now = some (.error e)) ∧ w.settings = v.settings ∨
        ∃ next, v.settings.next? false v.now = some (.ok next) ∧
          w.settings = { v.settings with nextExecution := some next }) := by
  have popped := h.with_queue rest
  have silent : v.announces? .work = none := by simp [announces?, queued]
  have works : v.act .work = Situation.recompute false { v with queue := rest } := workNext_cons queued
  obtain ⟨e, failed, stays⟩ | ⟨next, found, goes⟩ := popped.recompute_cases
  · rw [stays] at works
    exact ⟨_, .one works silent popped rfl rfl, rfl, Or.inl ⟨⟨e, failed⟩, rfl⟩⟩
  · rw [goes] at works
    exact ⟨_, .one works silent ⟨h.schedulable, h.goesOn, next, rfl⟩ rfl rfl, rfl, Or.inr ⟨next, found, rfl⟩⟩

theorem passes_fire [Host] (h : v.IsSteady) (queued : v.queue = .fire :: rest) {due : Instant}
    (stored : v.settings.nextExecution = some due) (reached : due ≤ v.now) :
    ∃ w, Passes v w [.work] [due] ∧ w.queue = rest := by
  have popped := h.with_queue rest
  have notEarly : v.settings.nextExecution.any (v.now < ·) = false := by
    rw [stored]
    exact decide_eq_false (Instant.not_lt.mpr reached)
  have announced : v.announces? .work = some due := by
    have unlimited : v.settings.amount?.isNone = false := by simpa using h.schedulable.2
    have found : v.settings.due? v.now = some due := by
      rw [Settings.due?, notEarly, h.goesOn, unlimited, stored]
      rfl
    simp only [announces?, queued, if_pos h.live, found]
  have calls : ∀ id, (v.occasions [.work]).flatMap (Occasion.calls id) =
      [due].flatMap fun i => v.listeners.map fun l => ⟨id, l.name, i⟩ := by
    simp [occasions, occasion?, announced, Occasion.calls]
  have fires : Situation.fire { v with queue := rest } = Situation.recompute false { v with queue := rest } :=
    fire_of_due notEarly
  have works : v.act .work = Situation.recompute false { v with queue := rest } := (workNext_cons queued).trans fires
  obtain ⟨_, _, stays⟩ | ⟨next, _, goes⟩ := popped.recompute_cases
  · rw [stays] at works
    exact ⟨_, ⟨works, calls, popped, rfl, rfl⟩, rfl⟩
  · rw [goes] at works
    exact ⟨_, ⟨works, calls, ⟨h.schedulable, h.goesOn, next, rfl⟩, rfl, rfl⟩, rfl⟩

theorem passes_early [Host] (h : v.IsSteady) (queued : v.queue = .fire :: rest) {next : Instant}
    (stored : v.settings.nextExecution = some next) (ahead : v.now < next) :
    ∃ w, Passes v w [.work] [] ∧ w.queue = rest ∧ w.settings = v.settings := by
  have popped := h.with_queue rest
  have silent : v.announces? .work = none := by
    have early : v.settings.due? v.now = none := by simp [Settings.due?, stored, ahead]
    simp only [announces?, queued, if_pos h.live, early]
  have works := (workNext_cons queued).trans (fire_of_early popped.live stored ahead)
  exact ⟨_, .one works silent ⟨h.schedulable, h.goesOn, h.scheduled⟩ rfl rfl, rfl, rfl⟩

theorem passes_ring [Host] (h : v.IsSteady) :
    ∃ w, Passes v w [.ring] [] ∧ w.queue = v.queue ++ [.fire] ∧ w.settings = v.settings := by
  have going := h.live.going
  exact ⟨_, .one (if_neg going) rfl ⟨h.schedulable, h.goesOn, h.scheduled⟩ rfl rfl, rfl, rfl⟩

theorem passes_works [Host] (h : v.IsSteady) (only : ∀ work ∈ v.queue, work = .recompute false) {count : Nat}
    (enough : v.queue.length ≤ count) : ∃ w, Passes v w (List.replicate count .work) [] ∧ w.queue = [] ∧
      (v.queue = [] → w = v) := by
  induction count generalizing v with
  | zero =>
    exact ⟨v, ⟨rfl, fun _ => rfl, h, rfl, rfl⟩, List.eq_nil_of_length_eq_zero (Nat.le_zero.mp enough), fun _ => rfl⟩
  | succ count ih =>
    cases queued : v.queue with
    | nil =>
      have stays : Passes v v [.work] [] := .one (workNext_nil queued) (by simp [announces?, queued]) h rfl rfl
      obtain ⟨w, passes, drained, same⟩ := ih h only (by simp [queued])
      exact ⟨w, stays.trans passes, drained, fun _ => same queued⟩
    | cons work rest =>
      rw [queued] at only enough
      obtain ⟨rfl, others⟩ := List.forall_mem_cons.mp only
      obtain ⟨u, step, left, _⟩ := h.passes_recompute queued
      obtain ⟨w, passes, drained, _⟩ := ih step.steady (by rw [left]; exact others)
        (by rw [left]; exact Nat.le_of_succ_le_succ enough)
      exact ⟨w, step.trans passes, drained, fun empty => by cases empty⟩

theorem passes_due [Host] (h : v.IsSteady) (queued : v.queue = .fire :: rest)
    (only : ∀ work ∈ rest, work = .recompute false)
    {due : Instant} (stored : v.settings.nextExecution = some due) (reached : due ≤ v.now) {count : Nat}
    (enough : rest.length ≤ count) : ∃ w, Passes v w (List.replicate (count + 1) .work) [due] ∧ w.queue = [] := by
  obtain ⟨u, fired, left⟩ := h.passes_fire queued stored reached
  rw [← left] at only enough
  obtain ⟨w, worked, drained, _⟩ := fired.steady.passes_works only enough
  exact ⟨w, fired.trans worked, drained⟩

theorem adjusts_edit (h : v.IsSteady) {f : Field} {value : Option FieldValue} (heard : v.hears [f] = [.recompute false])
    (other : .nextExecution ≠ f)
    (steady : ∀ settings, v.settings.put f value = .ok settings → IsSteady { v with settings := settings }) :
    v.Adjusts (v.edit [(f, value)]) := by
  obtain same | ⟨settings, put, differs, edited⟩ := v.edit_one f value
  · rw [same]
    exact ⟨h, rfl, Or.inl rfl⟩
  rw [edited, heard]
  have changed : settings ≠ v.settings := fun same => differs (same ▸ Settings.get_put_self put)
  have next := Option.map_injective (fun _ _ e => FieldValue.instant.inj e) (Settings.get_put_other put other)
  exact ⟨(steady settings put).with_queue _, next, Or.inr ⟨changed, rfl⟩⟩

theorem adjusts_endTime (h : v.IsSteady) {value : Option FieldValue}
    (ahead : ∀ i, value = some (.instant i) → v.now < i) : v.Adjusts (v.edit [(.endTime, value)]) := by
  refine h.adjusts_edit (if_pos h.live.1) (by decide) fun settings put => ?_
  cases value with
  | none =>
    cases put
    exact ⟨h.schedulable, rfl, h.scheduled⟩
  | some value =>
    cases value with
    | instant i =>
      cases put
      exact ⟨h.schedulable, decide_eq_false fun reached => Instant.not_lt.mpr reached (ahead i rfl), h.scheduled⟩
    | _ => cases put

theorem adjusts_timezone (h : v.IsSteady) (value : Option FieldValue) : v.Adjusts (v.edit [(.timezone, value)]) := by
  refine h.adjusts_edit (if_pos h.live.1) (by decide) fun settings put => ?_
  cases value with
  | none =>
    cases put
    exact ⟨h.schedulable, h.goesOn, h.scheduled⟩
  | some value =>
    cases value with
    | zone z =>
      cases put
      exact ⟨h.schedulable, h.goesOn, h.scheduled⟩
    | _ => cases put

theorem adjusts_act [Host] (h : v.IsSteady) {a : Action} (unrelated : v.IsUnrelated a) : v.Adjusts (v.act a) := by
  cases a with
  | setEndTime finish =>
    have going := h.live.going
    change v.Adjusts (v.edit (if v.phase = .destroyed then [] else _))
    rw [if_neg going]
    refine h.adjusts_endTime fun i set => ?_
    obtain ⟨_, member, same⟩ := Option.map_eq_some_iff.mp set
    cases same
    exact unrelated i member
  | write f value =>
    cases f with
    | endTime => exact h.adjusts_endTime unrelated
    | timezone => exact h.adjusts_timezone value
    | _ => cases unrelated
  | _ => cases unrelated

theorem passes_unrelated [Host] (h : v.IsSteady) {a : Action} (unrelated : v.IsUnrelated a) :
    Passes v (v.act a) [a] [] := by
  have frame : v.announces? a = none ∧ (v.act a).listeners = v.listeners ∧ (v.act a).now = v.now := by
    cases a with
    | setEndTime | write => simp [announces?, act]
    | _ => cases unrelated
  exact .one rfl frame.1 (h.adjusts_act unrelated).steady frame.2.1 frame.2.2

end IsSteady

theorem isUnrelated_of_now {v w : Situation} (now : w.now = v.now) {a : Action} (unrelated : v.IsUnrelated a) :
    w.IsUnrelated a := by
  cases a with
  | setEndTime finish => exact fun i member => now ▸ unrelated i member
  | write f value =>
    cases f with
    | endTime => exact fun i set => now ▸ unrelated i set
    | timezone => trivial
    | _ => cases unrelated
  | _ => cases unrelated

section Race

variable {v : Situation} {a : Action} {due : Instant}

theorem Adjusts.queue {w : Situation} (adjusts : v.Adjusts w) :
    ∃ works, w.queue = v.queue ++ works ∧ works.length ≤ 1 ∧ ∀ work ∈ works, work = .recompute false := by
  obtain same | ⟨_, asked⟩ := adjusts.asked
  · exact ⟨[], by rw [same, List.append_nil], by decide, by simp⟩
  · exact ⟨[.recompute false], asked, by decide, by simp⟩

theorem passes_alarm_first [Host] (h : v.IsSteady) (drained : v.queue = [])
    (stored : v.settings.nextExecution = some due)
    (reached : due ≤ v.now) (unrelated : v.IsUnrelated a) (before : Nat) {after : Nat} (enough : 2 ≤ after) :
    ∃ w, Passes v w (.ring :: List.replicate before .work ++ a :: List.replicate after .work) [due] ∧ w.queue = [] := by
  obtain ⟨u, rung, queue, settings⟩ := h.passes_ring
  rw [drained, List.nil_append] at queue
  obtain ⟨count, rfl⟩ := Nat.exists_eq_add_of_le' enough
  cases before with
  | zero =>
    -- The edit is made while the alarm is in the queue, and comes behind it.
    have unrelated' := isUnrelated_of_now rung.now unrelated
    have adjusts := rung.steady.adjusts_act unrelated'
    have edited := rung.steady.passes_unrelated unrelated'
    obtain ⟨works, asked, length, only⟩ := adjusts.queue
    rw [queue] at asked
    have due_still : (u.act a).settings.nextExecution = some due := by rw [adjusts.next, settings, stored]
    obtain ⟨w, worked, left⟩ := edited.steady.passes_due asked only due_still
      (by rw [edited.now, rung.now]; exact reached) (Nat.le_trans length (Nat.le_add_left 1 count))
    exact ⟨w, rung.trans (edited.trans worked), left⟩
  | succ before =>
    obtain ⟨x, fired, left⟩ := rung.steady.passes_due queue (by simp) (by rw [settings, stored])
      (by rw [rung.now]; exact reached) (Nat.zero_le before)
    have unrelated' := isUnrelated_of_now (fired.now.trans rung.now) unrelated
    have edited := fired.steady.passes_unrelated unrelated'
    obtain ⟨works, asked, length, only⟩ := (fired.steady.adjusts_act unrelated').queue
    rw [left, List.nil_append] at asked
    rw [← asked] at length only
    have enough' := Nat.le_trans length (Nat.le_add_left 1 (count + 1))
    obtain ⟨w, worked, left', _⟩ := edited.steady.passes_works only enough'
    exact ⟨w, rung.trans (fired.trans (edited.trans worked)), left'⟩

theorem passes_edit_kept [Host] (h : v.IsSteady) (drained : v.queue = []) (stored : v.settings.nextExecution = some due)
    (reached : due ≤ v.now) (unrelated : v.IsUnrelated a)
    (kept : (v.act a).settings = v.settings ∨ ∃ e, (v.act a).settings.next? false v.now = some (.error e))
    {after : Nat} (enough : 2 ≤ after) :
    ∃ w, Passes v w (a :: .ring :: List.replicate after .work) [due] ∧ w.queue = [] := by
  have adjusts := h.adjusts_act unrelated
  have edited := h.passes_unrelated unrelated
  obtain ⟨u, rung, queue, settings⟩ := edited.steady.passes_ring
  have due_still : u.settings.nextExecution = some due := by rw [settings, adjusts.next, stored]
  have reached_still : due ≤ u.now := by
    rw [rung.now, edited.now]
    exact reached
  obtain ⟨count, rfl⟩ := Nat.exists_eq_add_of_le' enough
  obtain same | ⟨changed, asked⟩ := adjusts.asked
  · rw [same, drained, List.nil_append] at queue
    obtain ⟨w, worked, left⟩ := rung.steady.passes_due queue (by simp) due_still reached_still (Nat.zero_le (count + 1))
    exact ⟨w, edited.trans (rung.trans worked), left⟩
  · obtain ⟨e, failed⟩ := kept.resolve_left changed
    rw [asked, drained] at queue
    obtain ⟨x, recomputed, left, outcome⟩ := rung.steady.passes_recompute queue
    rw [rung.now, edited.now, settings, failed] at outcome
    obtain ⟨_, settings'⟩ | ⟨next, found, _⟩ := outcome
    · have due_now : x.settings.nextExecution = some due := by rw [settings', ← settings, due_still]
      obtain ⟨w, worked, left'⟩ := recomputed.steady.passes_due left (by simp) due_now
        (by rw [recomputed.now]; exact reached_still) (Nat.zero_le count)
      exact ⟨w, edited.trans (rung.trans (recomputed.trans worked)), left'⟩
    · cases found

theorem passes_edit_skipped [Host] (h : v.IsSteady) (drained : v.queue = []) (unrelated : v.IsUnrelated a)
    (changed : (v.act a).settings ≠ v.settings) {next : Instant}
    (found : (v.act a).settings.next? false v.now = some (.ok next)) {after : Nat} (enough : 2 ≤ after) :
    ∃ w, Passes v w (a :: .ring :: List.replicate after .work) [] ∧ w.queue = [] ∧
      w.settings = { (v.act a).settings with nextExecution := some next } := by
  have edited := h.passes_unrelated unrelated
  obtain same | ⟨_, asked⟩ := (h.adjusts_act unrelated).asked
  · exact absurd (congrArg settings same) changed
  obtain ⟨u, rung, queue, settings⟩ := edited.steady.passes_ring
  rw [asked, drained] at queue
  obtain ⟨count, rfl⟩ := Nat.exists_eq_add_of_le' enough
  obtain ⟨x, recomputed, left, outcome⟩ := rung.steady.passes_recompute queue
  rw [rung.now, edited.now, settings, found] at outcome
  obtain ⟨⟨e, failed⟩, _⟩ | ⟨_, same, settings'⟩ := outcome
  · cases failed
  cases same
  have ahead : x.now < next := by
    rw [recomputed.now, rung.now, edited.now]
    exact after_of_next? found
  obtain ⟨y, woken, left', settings''⟩ := recomputed.steady.passes_early left (by rw [settings']) ahead
  have none_left : y.queue.length ≤ count := by
    rw [left']
    exact Nat.zero_le count
  obtain ⟨w, idle, left'', stays⟩ := woken.steady.passes_works (by simp [left']) none_left
  exact ⟨w, edited.trans (rung.trans (recomputed.trans (woken.trans idle))), left'',
    by rw [stays left', settings'', settings']⟩

end Race

end Cadence.Situation

namespace Cadence.Scheduler

/-- After these actions no work is left, and the journal says that every listener has heard of these times, and of no
other. -/
def Announces [Host] (id : Nat) (s : Scheduler) (actions : List Action) (heard : List Instant) : Prop :=
  ∃ v ∈ s.situation? id, (∃ w ∈ (s.run id actions).situation? id, w.queue = []) ∧
    (s.run id actions).journal = s.journal ++ heard.flatMap fun i => v.listeners.map fun l => ⟨id, l.name, i⟩

theorem announces_of_passes [Host] {s : Scheduler} {id : Nat} {v w : Situation} {journal : List Firing}
    (shown : Shows s id v journal) {actions : List Action} {heard : List Instant} (passes : v.Passes w actions heard)
    (drained : w.queue = []) : s.Announces id actions heard := by
  have after := shown.run actions
  rw [passes.run, passes.calls] at after
  have first := shown.situation?
  have last := after.situation?
  obtain ⟨_, _, _, written⟩ := shown
  obtain ⟨_, _, _, written'⟩ := after
  exact ⟨v, first, ⟨w, last, drained⟩, written ▸ written'⟩

/-- A time that is due is announced once if the alarm is first, whenever the edit comes after it. If the edit is first,
it is announced once where the edit changes nothing or catching up fails, and otherwise skipped: the next execution time
that is stored then is the first occurrence after the clock. -/
theorem due_announced_or_skipped [Host] {s t : Scheduler} {id : Nat} (quiet : s.IsQuiet)
    (attached : s.attach = .ok (t, id))
    (before : List Action) {v : Situation} (reached : (t.run id before).situation? id = some v)
    (drained : v.queue = []) (schedulable : v.IsSchedulable) (goesOn : v.settings.hasEnded v.now = false)
    {due : Instant} (stored : v.settings.nextExecution = some due) (has_come : due ≤ v.now) {a : Action}
    (unrelated : v.IsUnrelated a) :
    (∀ i j, 2 ≤ j →
      (t.run id before).Announces id (.ring :: List.replicate i .work ++ a :: List.replicate j .work) [due]) ∧
    ∀ e ∈ ((t.run id before).act id a).situation? id, ∀ j, 2 ≤ j →
      (e.settings = v.settings ∨ (∃ error, e.settings.next? false v.now = some (.error error)) →
        (t.run id before).Announces id (a :: .ring :: List.replicate j .work) [due]) ∧
      ∀ next, e.settings ≠ v.settings → e.settings.next? false v.now = some (.ok next) →
        (t.run id before).Announces id (a :: .ring :: List.replicate j .work) [] ∧
        ∃ w ∈ ((t.run id before).run id (a :: .ring :: List.replicate j .work)).situation? id,
          w.settings = { e.settings with nextExecution := some next } := by
  have shown := (shows_of_attach quiet attached).run before
  rw [shown.situation?, Option.some.injEq] at reached
  rw [reached] at shown
  have steady : v.IsSteady := ⟨schedulable, goesOn, due, stored⟩
  constructor
  · intro i j enough
    obtain ⟨w, passes, left⟩ := Situation.passes_alarm_first steady drained stored has_come unrelated i enough
    exact announces_of_passes shown passes left
  · intro e edited j enough
    rw [(shown.act a).situation?, Option.mem_some_iff] at edited
    subst edited
    constructor
    · intro kept
      obtain ⟨w, passes, left⟩ := Situation.passes_edit_kept steady drained stored has_come unrelated kept enough
      exact announces_of_passes shown passes left
    · intro next changed found
      obtain ⟨w, passes, left, settings⟩ := Situation.passes_edit_skipped steady drained unrelated changed found enough
      have after := (shown.run (a :: .ring :: List.replicate j .work)).situation?
      rw [passes.run] at after
      exact ⟨announces_of_passes shown passes left, w, after, settings⟩

theorem hourly_due_announced_before_edit :
    ((periodicTimer ⟨1, .clock .hours⟩).run 0 [.listen "main", .resume, .work, .setClock (newYear 60)]).Announces 0
      [.ring, .setEndTime (some (newYear 300)), .work, .work] [newYear 60] := by
  have begins : ∃ v, ((periodicTimer ⟨1, .clock .hours⟩).run 0
      [.listen "main", .resume, .work, .setClock (newYear 60)]).situation? 0 = some v ∧ v.queue = [] ∧ v.IsSchedulable ∧
        v.settings.hasEnded v.now = false ∧ v.settings.nextExecution = some (newYear 60) ∧ v.now = newYear 60 := by
    decide +kernel
  obtain ⟨v, reached, drained, schedulable, goesOn, stored, now⟩ := begins
  have unrelated : v.IsUnrelated (.setEndTime (some (newYear 300))) := by
    intro i member
    cases member
    rw [now]
    decide
  exact (due_announced_or_skipped (isQuiet_periodic _) (attach_periodic _) _ reached drained schedulable goesOn stored
    (by rw [now]; exact Instant.le_refl _) unrelated).1 0 2 (by decide)

theorem hourly_due_skipped_after_edit :
    (periodic ⟨1, .clock .hours⟩).IsQuiet ∧
      (periodic ⟨1, .clock .hours⟩).attach = .ok (periodicTimer ⟨1, .clock .hours⟩, 0) ∧
      (∃ v ∈ ((periodicTimer ⟨1, .clock .hours⟩).run 0
          [.listen "main", .resume, .work, .setClock (newYear 60)]).situation? 0,
        v.queue = [] ∧ v.IsSchedulable ∧ v.settings.hasEnded v.now = false ∧
          v.settings.nextExecution = some (newYear 60) ∧ newYear 60 ≤ v.now ∧ v.now < newYear 300) ∧
      ((periodicTimer ⟨1, .clock .hours⟩).run 0 [.listen "main", .resume, .work, .setClock (newYear 60),
        .setEndTime (some (newYear 300)), .ring, .work, .work]).journal = [] ∧
      ((periodicTimer ⟨1, .clock .hours⟩).run 0 [.listen "main", .resume, .work, .setClock (newYear 60),
        .ring, .work, .setEndTime (some (newYear 300)), .work]).journal = [⟨0, "main", newYear 60⟩] :=
  ⟨isQuiet_periodic _, attach_periodic _, by decide +kernel, by decide +kernel, by decide +kernel⟩

end Cadence.Scheduler
