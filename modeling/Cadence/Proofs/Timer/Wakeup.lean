import Cadence.Proofs.Timer.Outcome

/-!
Wake-ups. Whenever the queue of a timer is empty, the alarm is armed if the timer is live and its period usable, and it
is armed only while the timer is live (`armed_iff_isSchedulable`). What may be missing in between is in the queue:
`Watchful` says what stands for a resource that is no longer active, and `IsServed` that nothing is missing once the
queue is empty. That an armed alarm also has a usable period can fail in one way. An alarm that goes off early is armed
again without a look at the period (`WakesIdle`), and if nothing but further firings is queued then, it stays armed.
-/

namespace Cadence.Situation

/-- An armed alarm belongs to a running timer, and work is queued if the resource is no longer active. -/
structure Watchful (v : Situation) : Prop where
  running : v.armed.isSome → v.phase = .running
  noticed : v.armed.isSome → v.status ≠ .active →
    .lifecycle .deactivated ∈ v.queue ∨ .lifecycle .deleted ∈ v.queue

/-- A timer that could be armed is, once there is no work left, and the next execution time is stored. -/
def IsServed (v : Situation) : Prop :=
  v.queue = [] → v.IsSchedulable → v.armed.isSome ∧ v.settings.nextExecution.isSome

def IsSupervised (v : Situation) : Prop :=
  v.armed.isSome → v.IsLive → v.settings.amount? = none → ∃ work ∈ v.queue, work ≠ .fire

/-- The alarm has gone off early while the period is absent or unusable, and only further firings are queued. -/
def WakesIdle (v : Situation) (a : Action) : Prop :=
  a = .work ∧ v.IsLive ∧ v.settings.amount? = none ∧ v.settings.nextExecution.any (v.now < ·) = true ∧ v.queue ≠ [] ∧
    ∀ work ∈ v.queue, work = .fire

instance (v : Situation) (a : Action) : Decidable (v.WakesIdle a) := inferInstanceAs (Decidable (_ ∧ _))

section Basics

variable {v : Situation}

theorem unarmed_of_resting (running : v.armed.isSome → v.phase = .running) (resting : v.phase ≠ .running) :
    v.armed = none := by
  cases armed : v.armed with
  | none => rfl
  | some delay => exact absurd (running (by rw [armed]; rfl)) resting

theorem unarmed_of_destroyed (running : v.armed.isSome → v.phase = .running) (gone : v.phase = .destroyed) :
    v.armed = none :=
  unarmed_of_resting running (by rw [gone]; decide)

theorem unarmed_destroy (running : v.armed.isSome → v.phase = .running) : v.destroy.armed = none := by
  obtain ⟨gone, stays⟩ | destroyed := v.destroy_cases
  · rw [stays]
    exact unarmed_of_destroyed running gone
  · rw [destroyed]

theorem unarmed_stop (running : v.armed.isSome → v.phase = .running) : v.stop.armed = none := by
  obtain ⟨_, stopped⟩ | ⟨resting, stays⟩ := v.stop_cases
  · rw [stopped]
  · rw [stays]
    exact unarmed_of_resting running resting

theorem unarmed_ring (running : v.armed.isSome → v.phase = .running) : v.ring.armed = none := by
  obtain ⟨gone, stays⟩ | rung := v.ring_cases
  · rw [stays]
    exact unarmed_of_destroyed running gone
  · rw [rung]

theorem unarmed_resume (running : v.armed.isSome → v.phase = .running) (resting : v.phase ≠ .running) :
    v.resume.armed = none :=
  v.resume_frame.2.2.2.1.trans (unarmed_of_resting running resting)

end Basics

namespace Watchful

variable {v : Situation}

theorem of_unarmed (unarmed : v.armed = none) : Watchful v := by
  constructor
  · intro armed
    rw [unarmed] at armed
    cases armed
  · intro armed
    rw [unarmed] at armed
    cases armed

theorem of_isLive (live : v.IsLive) : Watchful v := ⟨fun _ => live.1, fun _ dormant => absurd live.2 dormant⟩

theorem resume (h : Watchful v) : Watchful v.resume := by
  obtain ⟨stopped, _⟩ | ⟨_, stays⟩ := v.resume_cases
  · exact of_unarmed (unarmed_resume h.running (by rw [stopped]; decide))
  · rw [stays]
    exact h

theorem edit (h : Watchful v) (entries : List (Field × Option FieldValue)) : Watchful (v.edit entries) := by
  obtain ⟨status, _, phase, armed, _⟩ := v.edit_frame entries
  obtain ⟨works, queue, _⟩ := v.edit_queue entries
  constructor
  · rw [armed, phase]
    exact h.running
  · rw [armed, status, queue]
    intro isArmed dormant
    exact (h.noticed isArmed dormant).imp (List.mem_append_left _) (List.mem_append_left _)

theorem turn (h : Watchful v) (status : Status) (event : Lifecycle) (told : status ≠ .active → event = .deactivated) :
    Watchful (v.turn status event) := by
  obtain stays | ⟨gone, turned⟩ | turned := v.turn_cases status event
  · rw [stays]
    exact h
  · rw [turned]
    exact of_unarmed (unarmed_of_destroyed h.running gone)
  · rw [turned]
    refine ⟨h.running, fun _ dormant => Or.inl ?_⟩
    rw [told dormant]
    exact List.mem_append_right _ (List.mem_singleton.mpr rfl)

theorem delete (h : Watchful v) : Watchful v.delete := by
  obtain ⟨_, stays⟩ | ⟨gone, deleted⟩ | deleted := v.delete_cases
  · rw [stays]
    exact h
  · rw [deleted]
    exact of_unarmed (unarmed_of_destroyed h.running gone)
  · rw [deleted]
    exact ⟨h.running, fun _ _ => Or.inr (List.mem_append_right _ (List.mem_singleton.mpr rfl))⟩

theorem workNext [Host] (h : Watchful v) : Watchful v.workNext := by
  refine workNext_of_handles h fun _ rest w queued handled => ?_
  have running : ({ v with queue := rest } : Situation).armed.isSome → v.phase = .running := h.running
  cases handled with
  | dormant asleep stays =>
    refine ⟨h.running, fun armed dormant => ?_⟩
    have noticed := h.noticed armed dormant
    rw [queued, List.mem_cons, List.mem_cons] at noticed
    obtain (first | later) | (first | later) := noticed
    · exact absurd first.symm stays.1
    · exact Or.inl later
    · exact absurd first.symm stays.2
    · exact Or.inr later
  | finished live ended => exact of_unarmed (unarmed_destroy running)
  | idle live unusable => exact of_unarmed rfl
  | stalled asked live goesOn failed => exact of_isLive (live.seed _)
  | scheduled asked live found => exact of_isLive (live.seed _)
  | early live stored ahead => exact of_isLive live
  | deleted => exact of_unarmed (unarmed_destroy running)
  | deactivated => exact of_unarmed (unarmed_stop running)
  | resumed resting => exact of_unarmed (unarmed_resume running resting)

theorem isLive (h : Watchful v) (drained : v.queue = []) (armed : v.armed.isSome) : v.IsLive := by
  refine ⟨h.running armed, Decidable.byContradiction fun dormant => ?_⟩
  have noticed := h.noticed armed dormant
  rw [drained] at noticed
  obtain event | event := noticed <;> cases event

theorem act [Host] (h : Watchful v) (a : Action) : Watchful (v.act a) := by
  cases a with
  | resume => exact h.resume
  | stop => exact of_unarmed (unarmed_stop h.running)
  | destroy => exact of_unarmed (unarmed_destroy h.running)
  | listen name => exact ⟨h.running, h.noticed⟩
  | unlisten listener => exact ⟨h.running, h.noticed⟩
  | setEndTime finish => exact h.edit _
  | write f value => exact h.edit _
  | writeBatch entries => exact h.edit entries
  | activate => exact h.turn .active .activated fun other => absurd rfl other
  | deactivate => exact h.turn .inactive .deactivated fun _ => rfl
  | delete => exact h.delete
  | setClock now => exact ⟨h.running, h.noticed⟩
  | ring => exact of_unarmed (unarmed_ring h.running)
  | work => exact h.workNext

end Watchful

namespace IsServed

variable {v : Situation}

theorem of_busy (busy : v.queue ≠ []) : IsServed v := fun drained => absurd drained busy

theorem of_not_isLive (asleep : ¬ v.IsLive) : IsServed v := fun _ schedulable => absurd schedulable.1 asleep

theorem resume (h : IsServed v) : IsServed v.resume := by
  obtain ⟨_, resumed⟩ | ⟨_, stays⟩ := v.resume_cases
  · rw [resumed]
    exact of_busy (by simp)
  · rw [stays]
    exact h

theorem edit (h : IsServed v) (entries : List (Field × Option FieldValue)) : IsServed (v.edit entries) := by
  intro drained schedulable
  obtain ⟨_, _, _, armed, _⟩ := v.edit_frame entries
  obtain ⟨works, queue, _⟩ := v.edit_queue entries
  have live := (v.isLive_edit_iff entries).mp schedulable.1
  have usable := schedulable.2
  obtain same | heard := v.edit_amount? entries live.1
  · rw [same] at usable
    rw [queue, List.append_eq_nil_iff] at drained
    rw [armed, v.edit_nextExecution entries live.going]
    exact h drained.1 ⟨live, usable⟩
  · rw [drained] at heard
    cases heard

theorem turn (h : IsServed v) (status : Status) (event : Lifecycle) : IsServed (v.turn status event) := by
  obtain stays | ⟨gone, turned⟩ | turned := v.turn_cases status event
  · rw [stays]
    exact h
  · rw [turned]
    exact of_not_isLive (not_isLive_of_destroyed gone)
  · rw [turned]
    exact of_busy (by simp)

theorem ring (h : IsServed v) : IsServed v.ring := by
  obtain ⟨_, stays⟩ | rung := v.ring_cases
  · rw [stays]
    exact h
  · rw [rung]
    exact of_busy (by simp)

theorem workNext [Host] (h : IsServed v) (calm : ¬ v.Stalls .work) : IsServed v.workNext := by
  refine workNext_of_handles h fun _ rest w queued handled => ?_
  cases handled with
  | dormant asleep stays => exact of_not_isLive asleep
  | finished live ended => exact of_not_isLive (not_isLive_destroy _)
  | idle live unusable =>
    intro _ schedulable
    have usable := schedulable.2
    rw [unusable] at usable
    cases usable
  | stalled asked live goesOn failed =>
    exact absurd (stalls_of_failed queued asked live goesOn failed) calm
  | scheduled asked live found => exact fun _ _ => ⟨rfl, rfl⟩
  | early live stored ahead => exact fun _ _ => ⟨rfl, congrArg Option.isSome stored⟩
  | deleted => exact of_not_isLive (not_isLive_destroy _)
  | deactivated => exact of_not_isLive (not_isLive_stop _)
  | resumed resting =>
    have asleep : IsServed { v with queue := rest } := of_not_isLive fun live => resting live.1
    exact asleep.resume

theorem act [Host] (h : IsServed v) {a : Action} (calm : ¬ v.Stalls a) : IsServed (v.act a) := by
  cases a with
  | resume => exact h.resume
  | stop => exact of_not_isLive (not_isLive_stop v)
  | destroy => exact of_not_isLive (not_isLive_destroy v)
  | listen name => exact h
  | unlisten listener => exact h
  | setEndTime finish => exact h.edit _
  | write f value => exact h.edit _
  | writeBatch entries => exact h.edit entries
  | activate => exact h.turn _ _
  | deactivate => exact h.turn _ _
  | delete => exact of_not_isLive (not_isLive_delete v)
  | setClock now => exact h
  | ring => exact h.ring
  | work => exact h.workNext calm

end IsServed

namespace IsSupervised

variable {v : Situation}

theorem of_unarmed (unarmed : v.armed = none) : IsSupervised v := by
  intro armed
  rw [unarmed] at armed
  cases armed

theorem of_not_isLive (asleep : ¬ v.IsLive) : IsSupervised v := fun _ live => absurd live asleep

theorem of_usable (usable : v.settings.amount? ≠ none) : IsSupervised v := fun _ _ unusable => absurd unusable usable

theorem of_queued {work : Work} (queued : work ∈ v.queue) (other : work ≠ .fire) : IsSupervised v :=
  fun _ _ _ => ⟨work, queued, other⟩

theorem resume (h : IsSupervised v) : IsSupervised v.resume := by
  obtain ⟨_, resumed⟩ | ⟨_, stays⟩ := v.resume_cases
  · rw [resumed]
    exact of_queued (List.mem_append_right _ (List.mem_singleton.mpr rfl)) (by decide)
  · rw [stays]
    exact h

theorem edit (h : IsSupervised v) (entries : List (Field × Option FieldValue)) : IsSupervised (v.edit entries) := by
  intro isArmed live unusable
  obtain ⟨_, _, _, armed, _⟩ := v.edit_frame entries
  obtain ⟨works, queue, _⟩ := v.edit_queue entries
  rw [v.isLive_edit_iff entries] at live
  obtain same | heard := v.edit_amount? entries live.1
  · rw [same] at unusable
    rw [armed] at isArmed
    obtain ⟨work, queued, other⟩ := h isArmed live unusable
    exact ⟨work, by rw [queue]; exact List.mem_append_left _ queued, other⟩
  · exact ⟨_, heard, by decide⟩

theorem turn (h : IsSupervised v) (status : Status) (event : Lifecycle) : IsSupervised (v.turn status event) := by
  obtain stays | ⟨gone, turned⟩ | turned := v.turn_cases status event
  · rw [stays]
    exact h
  · rw [turned]
    exact of_not_isLive (not_isLive_of_destroyed gone)
  · rw [turned]
    exact of_queued (List.mem_append_right _ (List.mem_singleton.mpr rfl)) (by simp)

theorem workNext [Host] (h : IsSupervised v) (watchful : Watchful v) (punctual : ¬ v.WakesIdle .work) :
    IsSupervised v.workNext := by
  refine workNext_of_handles h fun _ rest w queued handled => ?_
  have running : ({ v with queue := rest } : Situation).armed.isSome → v.phase = .running := watchful.running
  cases handled with
  | dormant asleep stays => exact of_not_isLive asleep
  | finished live ended => exact of_not_isLive (not_isLive_destroy _)
  | idle live unusable => exact of_unarmed rfl
  | stalled asked live goesOn failed =>
    apply of_usable
    rw [(seed_settings_frame _ _).1]
    exact usable_of_next? failed
  | scheduled asked live found =>
    apply of_usable
    change (seed _ _).settings.amount? ≠ none
    rw [(seed_settings_frame _ _).1]
    exact usable_of_next? found
  | early live stored ahead =>
    -- Only here an alarm is armed without a look at the period.
    intro _ _ unusable
    by_cases alone : ∀ work ∈ rest, work = .fire
    · have early : v.settings.nextExecution.any (v.now < ·) = true := by
        change v.settings.nextExecution = some _ at stored
        rw [stored]
        exact decide_eq_true ahead
      have fires : ∀ work ∈ v.queue, work = .fire := by
        rw [queued]
        exact List.forall_mem_cons.mpr ⟨rfl, alone⟩
      exact absurd ⟨rfl, live, unusable, early, by simp [queued], fires⟩ punctual
    · obtain ⟨other, member, differs⟩ := Classical.not_forall.mp alone |>.imp fun w h => Classical.not_imp.mp h
      exact ⟨other, member, differs⟩
  | deleted => exact of_not_isLive (not_isLive_destroy _)
  | deactivated => exact of_not_isLive (not_isLive_stop _)
  | resumed resting => exact of_unarmed (unarmed_resume running resting)

theorem act [Host] (h : IsSupervised v) (watchful : Watchful v) {a : Action} (punctual : ¬ v.WakesIdle a) :
    IsSupervised (v.act a) := by
  cases a with
  | resume => exact h.resume
  | stop => exact of_not_isLive (not_isLive_stop v)
  | destroy => exact of_not_isLive (not_isLive_destroy v)
  | listen name => exact h
  | unlisten listener => exact h
  | setEndTime finish => exact h.edit _
  | write f value => exact h.edit _
  | writeBatch entries => exact h.edit entries
  | activate => exact h.turn _ _
  | deactivate => exact h.turn _ _
  | delete => exact of_not_isLive (not_isLive_delete v)
  | setClock now => exact h
  | ring => exact of_unarmed (unarmed_ring watchful.running)
  | work => exact h.workNext watchful punctual

theorem isSchedulable (h : IsSupervised v) (drained : v.queue = []) (armed : v.armed.isSome) (live : v.IsLive) :
    v.IsSchedulable := by
  refine ⟨live, Option.isSome_iff_ne_none.mpr fun unusable => ?_⟩
  obtain ⟨work, queued, _⟩ := h armed live unusable
  rw [drained] at queued
  cases queued

end IsSupervised

theorem stays_armed [Host] {queue : List Work} (fires : ∀ work ∈ queue, work = .fire) {v : Situation}
    (queued : v.queue = queue) (live : v.IsLive) (unusable : v.settings.amount? = none)
    (early : v.settings.nextExecution.any (v.now < ·) = true) (armed : queue ≠ [] ∨ v.armed.isSome) :
    (v.run (List.replicate queue.length .work)).queue = [] ∧
      (v.run (List.replicate queue.length .work)).armed.isSome ∧
      ¬ (v.run (List.replicate queue.length .work)).IsSchedulable := by
  induction queue generalizing v with
  | nil =>
    refine ⟨queued, armed.resolve_left fun busy => busy rfl, fun schedulable => ?_⟩
    have usable := schedulable.2
    rw [List.length_nil, List.replicate_zero, run, List.foldl_nil, unusable] at usable
    cases usable
  | cons work rest ih =>
    obtain ⟨first, others⟩ := List.forall_mem_cons.mp fires
    obtain ⟨next, stored, ahead⟩ := (Option.any_eq_true _ _).mp early
    have fired : v.act .work = { v with queue := rest }.arm (next.since v.now) := by
      rw [first] at queued
      have popped : Situation.IsLive { v with queue := rest } := live
      exact (workNext_cons queued).trans (fire_of_early popped stored (of_decide_eq_true ahead))
    have again : (v.act .work).queue = rest ∧ (v.act .work).IsLive ∧ (v.act .work).settings = v.settings ∧
        (v.act .work).now = v.now ∧ (v.act .work).armed.isSome := by
      rw [fired]
      exact ⟨rfl, live, rfl, rfl, rfl⟩
    obtain ⟨left, goesOn, settings, now, rearmed⟩ := again
    exact ih others left goesOn (settings ▸ unusable) (by rw [settings, now]; exact early) (Or.inr rearmed)

end Cadence.Situation

namespace Cadence.Scheduler

/-- When there is no work left, a timer that could be armed is, and an armed one is live. It is armed only with a usable
period unless the alarm has gone off early while there was none; and after that it is. -/
theorem armed_iff_isSchedulable [Host] {s t : Scheduler} {id : Nat} (quiet : s.IsQuiet)
    (attached : s.attach = .ok (t, id))
    (actions : List Action) (calm : t.Along id (fun v a => ¬ v.Stalls a) actions) :
    (∀ v ∈ (t.run id actions).situation? id, v.queue = [] →
      (v.IsSchedulable → v.armed.isSome) ∧ (v.armed.isSome → v.IsLive)) ∧
    (t.Along id (fun v a => ¬ v.WakesIdle a) actions →
      ∀ v ∈ (t.run id actions).situation? id, v.queue = [] → (v.armed.isSome ↔ v.IsSchedulable)) ∧
    (∀ v ∈ (t.run id actions).situation? id, v.WakesIdle .work →
      ∃ count, ∃ w ∈ (t.run id (actions ++ List.replicate count .work)).situation? id,
        w.queue = [] ∧ w.armed.isSome ∧ ¬ w.IsSchedulable) := by
  have watchful := invariant_of_attach Situation.Watchful quiet attached (.of_unarmed rfl) (fun v a _ h => h.act a) calm
  have served := invariant_of_attach Situation.IsServed quiet attached (.of_not_isLive fun live => by cases live.1)
    (fun v a calm h => h.act calm) calm
  refine ⟨?_, ?_, ?_⟩
  · intro v reached drained
    exact ⟨fun schedulable => (served v reached drained schedulable).1, (watchful v reached).isLive drained⟩
  · intro punctual v reached drained
    have supervised := invariant_of_attach (fun v => v.Watchful ∧ v.IsSupervised) quiet attached
      ⟨.of_unarmed rfl, .of_unarmed rfl⟩ (fun v a punctual h => ⟨h.1.act a, h.2.act h.1 punctual⟩) punctual v reached
    constructor
    · intro armed
      exact supervised.2.isSchedulable drained armed (supervised.1.isLive drained armed)
    · exact fun schedulable => (served v reached drained schedulable).1
  · rintro v reached ⟨_, live, unusable, early, busy, fires⟩
    have later := situation?_run_append quiet attached reached (List.replicate v.queue.length .work)
    exact ⟨v.queue.length, _, later, Situation.stays_armed fires rfl live unusable early (Or.inl busy)⟩

theorem hourly_armed_when_resumed :
    (periodic ⟨1, .clock .hours⟩).attach = .ok (periodicTimer ⟨1, .clock .hours⟩, 0) ∧
      ((periodicTimer ⟨1, .clock .hours⟩).run 0 [.resume, .work]).situation? 0 ≠ none ∧
      ∀ v ∈ ((periodicTimer ⟨1, .clock .hours⟩).run 0 [.resume, .work]).situation? 0,
        v.queue = [] → (v.armed.isSome ↔ v.IsSchedulable) := by
  refine ⟨attach_periodic _, by decide +kernel, ?_⟩
  exact (armed_iff_isSchedulable (isQuiet_periodic _) (attach_periodic _) [.resume, .work] (by decide +kernel)).2.1
    (by decide +kernel)

/-- The period is removed, and the alarm, which is still armed, goes off early: it is cancelled, and armed again. -/
theorem hourly_armed_without_period :
    (periodic ⟨1, .clock .hours⟩).IsQuiet ∧
      (periodic ⟨1, .clock .hours⟩).attach = .ok (periodicTimer ⟨1, .clock .hours⟩, 0) ∧
      (periodicTimer ⟨1, .clock .hours⟩).Along 0 (fun v a => ¬ v.Stalls a ∧ (a = .ring → v.armed.isSome))
        [.resume, .work, .write .period none, .ring, .work, .work] ∧
      ∃ v ∈ ((periodicTimer ⟨1, .clock .hours⟩).run 0
          [.resume, .work, .write .period none, .ring, .work, .work]).situation? 0,
        v.queue = [] ∧ ¬ (v.armed.isSome ↔ v.IsSchedulable) :=
  ⟨isQuiet_periodic _, attach_periodic _, by decide +kernel, by decide +kernel⟩

end Cadence.Scheduler
