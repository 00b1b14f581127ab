import Cadence.Proofs.Schedule.Grid
import Cadence.Proofs.Timer.Wakeup

/-!
The anchor of a schedule. A change of period or start time asks, by work in the queue, for a recompute from the start.
Where such edits are made only while the timer runs, with an empty queue, the next execution time lies on the grid of
the start whenever the queue is empty again (`nextExecution_onGrid`), with one exception. A timer can run while the
resource is inactive, and what is asked of it then is lost (`LosesEdit`): once the resource is active, the schedule goes
on from the old time.
-/

namespace Cadence

/-- The next execution time lies on the grid of the start, as far as all these are there. -/
def Settings.IsAnchored (settings : Settings) : Prop :=
  ∀ d start next, settings.amount? = some (.duration d) → settings.startTime = some start →
    settings.nextExecution = some next → start.OnGrid d next

def Action.IsEdit : Action → Bool
  | .setEndTime _ | .write _ _ | .writeBatch _ => true
  | _ => false

namespace Situation

def Reschedules [Host] (v : Situation) (a : Action) : Prop :=
  a.IsEdit = true ∧
    ((v.act a).settings.period ≠ v.settings.period ∨ (v.act a).settings.startTime ≠ v.settings.startTime)

instance [Host] (v : Situation) (a : Action) : Decidable (v.Reschedules a) := inferInstanceAs (Decidable (_ ∧ _))

/-- Changes period or start of a resource that is not active, while there is a time to go on from. -/
def LosesEdit [Host] (v : Situation) (a : Action) : Prop :=
  v.Reschedules a ∧ v.status ≠ .active ∧ v.settings.nextExecution.isSome

instance [Host] (v : Situation) (a : Action) : Decidable (v.LosesEdit a) := inferInstanceAs (Decidable (_ ∧ _))

/-- Edits of period and start are made while the timer runs, and everything but work waits for an empty queue. -/
def IsOrderly [Host] (v : Situation) (a : Action) : Prop :=
  (a = .work ∨ v.queue = []) ∧ (v.Reschedules a → v.phase = .running)

instance [Host] (v : Situation) (a : Action) : Decidable (v.IsOrderly a) := inferInstanceAs (Decidable (_ ∧ _))

/-- A recompute from the start is still to come, and nothing can come before it that would make it go unheard. -/
structure IsReanchoring (v : Situation) : Prop where
  asked : .recompute true ∈ v.queue
  live : v.IsLive
  only : ∀ work ∈ v.queue, ∃ reanchor, work = .recompute reanchor

def KeepsAnchor (v : Situation) : Prop := v.phase ≠ .destroyed → v.settings.IsAnchored ∨ v.IsReanchoring

end Situation

namespace Settings

theorem isAnchored_of_unused {settings : Settings} (unused : settings.amount? = none) : settings.IsAnchored := by
  intro d start next usable
  rw [unused] at usable
  cases usable

theorem isAnchored_of_unscheduled {settings : Settings} (unscheduled : settings.nextExecution = none) :
    settings.IsAnchored := by
  intro d start next _ _ scheduled
  rw [unscheduled] at scheduled
  cases scheduled

theorem duration_of_amount? {settings : Settings} {d : Duration} (usable : settings.amount? = some (.duration d)) :
    0 < d.nanos ∧ d.IsWhole := by
  obtain ⟨p, _, valid⟩ := Option.bind_eq_some_iff.mp usable
  cases amount : p.amount with
  | error e =>
    rw [amount] at valid
    cases valid
  | ok found =>
    rw [amount] at valid
    cases valid
    exact ⟨Period.amount_duration_pos amount, Period.amount_duration_isWhole amount⟩

theorem anchor_onGrid {settings : Settings} {reanchor : Bool} {now start : Instant} {d : Duration}
    (anchored : reanchor = true ∨ settings.IsAnchored) (usable : settings.amount? = some (.duration d))
    (stored : settings.startTime = some start) : start.OnGrid d (settings.anchor reanchor now) := by
  cases next : settings.nextExecution with
  | none =>
    have same : settings.anchor reanchor now = start := by
      cases reanchor <;> simp [anchor, next, stored]
    rw [same]
    exact .refl start d
  | some next' =>
    cases reanchor with
    | true =>
      have same : settings.anchor true now = start := by simp [anchor, stored]
      rw [same]
      exact .refl start d
    | false =>
      have same : settings.anchor false now = next' := by simp [anchor, next]
      rw [same]
      exact anchored.resolve_left (by decide) d start next' usable stored next

end Settings

namespace Situation

variable {v : Situation}

theorem isAnchored_schedule [Host] {reanchor : Bool} {next : Instant}
    (anchored : reanchor = true ∨ v.settings.IsAnchored) (found : v.settings.next? reanchor v.now = some (.ok next)) :
    ((v.seed reanchor).schedule next).settings.IsAnchored := by
  intro d start reached usable stored scheduled
  change (v.seed reanchor).settings.amount? = _ at usable
  change (v.seed reanchor).settings.startTime = _ at stored
  rw [(seed_settings_frame _ _).1] at usable
  cases scheduled
  obtain ⟨positive, whole⟩ := Settings.duration_of_amount? usable
  rw [Settings.next?, usable] at found
  have advanced := Amount.advancePast_onGrid positive whole (Option.some.inj found)
  by_cases unanchored : v.settings.isUnanchored reanchor = true
  · rw [seed, if_pos unanchored] at stored
    cases stored
    have here : v.settings.anchor reanchor v.now = v.now := by
      simp only [Settings.isUnanchored, Bool.and_eq_true, Bool.or_eq_true, Option.isNone_iff_eq_none] at unanchored
      obtain ⟨unset, free⟩ := unanchored
      cases reanchor with
      | true => simp [Settings.anchor, unset]
      | false => simp [Settings.anchor, unset, free.resolve_left (by decide)]
    rw [here] at advanced
    exact advanced
  · rw [seed, if_neg unanchored] at stored
    exact (Settings.anchor_onGrid anchored usable stored).trans (Int.le_of_lt positive) advanced

namespace KeepsAnchor

theorem of_settings {w : Situation} (anchored : w.settings.IsAnchored) : KeepsAnchor w := fun _ => Or.inl anchored

theorem of_destroyed {w : Situation} (gone : w.phase = .destroyed) : KeepsAnchor w := fun going => absurd gone going

theorem isAnchored (h : KeepsAnchor v) (drained : v.queue = []) (going : v.phase ≠ .destroyed) :
    v.settings.IsAnchored := by
  obtain anchored | reanchoring := h going
  · exact anchored
  · have asked := reanchoring.asked
    rw [drained] at asked
    cases asked

theorem of_same {w : Situation} (h : KeepsAnchor v) (drained : v.queue = []) (settings : w.settings = v.settings)
    (phase : v.phase = .destroyed → w.phase = .destroyed) : KeepsAnchor w := by
  intro going
  rw [settings]
  exact Or.inl (h.isAnchored drained (mt phase going))

theorem edit (h : KeepsAnchor v) (drained : v.queue = []) {entries : List (Field × Option FieldValue)}
    (running : (v.edit entries).settings.period ≠ v.settings.period ∨
      (v.edit entries).settings.startTime ≠ v.settings.startTime → v.phase = .running ∧
        (v.status = .active ∨ v.settings.nextExecution = none)) :
    KeepsAnchor (v.edit entries) := by
  obtain ⟨status, _, phase, _⟩ := v.edit_frame entries
  intro going
  rw [phase] at going
  have next := v.edit_nextExecution entries going
  by_cases changed : (v.edit entries).settings.period ≠ v.settings.period ∨
      (v.edit entries).settings.startTime ≠ v.settings.startTime
  · obtain ⟨runs, active | unscheduled⟩ := running changed
    · refine Or.inr ⟨?_, ⟨phase.trans runs, status.trans active⟩, ?_⟩
      · obtain period | start := changed
        · exact (v.edit_period entries runs).resolve_left period
        · exact (v.edit_startTime entries runs).resolve_left start
      · obtain ⟨works, queue, only⟩ := v.edit_queue entries
        rw [queue, drained, List.nil_append]
        exact only
    · exact Or.inl (Settings.isAnchored_of_unscheduled (next.trans unscheduled))
  · obtain ⟨period, start⟩ := not_or.mp changed
    have period := Decidable.of_not_not period
    have start := Decidable.of_not_not start
    have anchored := h.isAnchored drained going
    refine Or.inl fun d begun reached usable stored scheduled => ?_
    rw [Settings.amount?, period] at usable
    rw [start] at stored
    rw [next] at scheduled
    exact anchored d begun reached usable stored scheduled

section Work

variable {w : Situation} {work : Work} {rest : List Work}

theorem work_of_isAnchored [Host] (anchored : v.settings.IsAnchored) (calm : ¬ v.Stalls .work)
    (queued : v.queue = work :: rest) (handled : Handles { v with queue := rest } work w) : KeepsAnchor w := by
  cases handled with
  | dormant asleep stays => exact of_settings anchored
  | finished live ended => exact of_destroyed (by simp)
  | idle live unusable => exact of_settings anchored
  | stalled asked live goesOn failed => exact absurd (stalls_of_failed queued asked live goesOn failed) calm
  | scheduled asked live found => exact of_settings (isAnchored_schedule (Or.inr anchored) found)
  | early live stored ahead => exact of_settings anchored
  | deleted => exact of_destroyed (by simp)
  | deactivated => exact of_settings (by simpa using anchored)
  | resumed resting => exact of_settings (by simpa using anchored)

theorem work_of_isReanchoring [Host] (reanchoring : v.IsReanchoring) (calm : ¬ v.Stalls .work)
    (queued : v.queue = work :: rest) (handled : Handles { v with queue := rest } work w) : KeepsAnchor w := by
  obtain ⟨asked, live, only⟩ := reanchoring
  rw [queued] at asked only
  obtain ⟨⟨reanchor, rfl⟩, others⟩ := List.forall_mem_cons.mp only
  cases handled with
  | dormant asleep stays => exact absurd live asleep
  | finished _ ended => exact of_destroyed (by simp)
  | idle _ unusable => exact of_settings (Settings.isAnchored_of_unused unusable)
  | stalled computed _ goesOn failed => exact absurd (stalls_of_failed queued computed live goesOn failed) calm
  | scheduled computed _ found =>
    cases computed
    cases reanchor with
    | true => exact of_settings (isAnchored_schedule (Or.inl rfl) found)
    | false =>
      -- The recompute that is handled is another one, and the one from the start is behind it.
      have left : .recompute true ∈ rest := (List.mem_cons.mp asked).resolve_left (by simp)
      have popped : Situation.IsLive { v with queue := rest } := live
      refine fun _ => Or.inr ⟨?_, popped.seed false, ?_⟩
      · change .recompute true ∈ (seed false { v with queue := rest }).queue
        rw [seed]
        split
        · exact List.mem_append_left _ left
        · exact left
      · intro work member
        change work ∈ (seed false { v with queue := rest }).queue at member
        rw [seed] at member
        split at member
        · obtain old | added := List.mem_append.mp member
          · exact others work old
          · exact ⟨true, List.mem_singleton.mp added⟩
        · exact others work member

theorem workNext [Host] (h : KeepsAnchor v) (calm : ¬ v.Stalls .work) : KeepsAnchor v.workNext := by
  refine workNext_of_handles h fun work rest w queued handled => ?_
  by_cases gone : v.phase = .destroyed
  · exact of_destroyed (phase_of_handles handled gone)
  · obtain anchored | reanchoring := h gone
    · exact work_of_isAnchored anchored calm queued handled
    · exact work_of_isReanchoring reanchoring calm queued handled

end Work

theorem delete (h : KeepsAnchor v) : KeepsAnchor v.delete := by
  obtain ⟨_, stays⟩ | ⟨_, deleted⟩ | deleted := v.delete_cases
  · rw [stays]
    exact h
  · rw [deleted]
    exact of_settings (Settings.isAnchored_of_unused rfl)
  · rw [deleted]
    exact of_settings (Settings.isAnchored_of_unused rfl)

theorem act [Host] (h : KeepsAnchor v) {a : Action} (calm : ¬ v.Stalls a) (orderly : v.IsOrderly a)
    (kept : ¬ v.LosesEdit a) : KeepsAnchor (v.act a) := by
  by_cases works : a = .work
  · rw [works] at calm ⊢
    exact h.workNext calm
  have drained := orderly.1.resolve_left works
  have edited : ∀ entries, v.act a = v.edit entries → a.IsEdit = true → KeepsAnchor (v.edit entries) := by
    intro entries same isEdit
    refine h.edit drained fun changed => ?_
    rw [← same] at changed
    refine ⟨orderly.2 ⟨isEdit, changed⟩, Decidable.or_iff_not_imp_left.mpr fun dormant => ?_⟩
    exact Option.not_isSome_iff_eq_none.mp fun scheduled => kept ⟨⟨isEdit, changed⟩, dormant, scheduled⟩
  cases a with
  | work => exact absurd rfl works
  | resume =>
    refine h.of_same drained (by simp [Situation.act]) fun gone => ?_
    change v.resume.phase = _
    rw [resume_of_destroyed gone, gone]
  | stop =>
    refine h.of_same drained (by simp [Situation.act]) fun gone => ?_
    change v.stop.phase = _
    rw [stop_of_destroyed gone, gone]
  | destroy => exact of_destroyed (by simp [Situation.act])
  | listen | unlisten | setClock => exact h.of_same drained rfl id
  | setEndTime | write | writeBatch => exact edited _ rfl rfl
  | activate | deactivate => exact h.of_same drained (by simp [Situation.act]) (by simp [Situation.act])
  | delete => exact h.delete
  | ring => exact h.of_same drained (by simp [Situation.act]) (by simp [Situation.act])

end KeepsAnchor

theorem act_of_isEdit [Host] {a : Action} (edits : a.IsEdit = true) : ∃ entries, v.act a = v.edit entries := by
  cases a with
  | setEndTime | write | writeBatch => exact ⟨_, rfl⟩
  | _ => cases edits

theorem run_of_dormant [Host] {queue : List Work} (only : ∀ work ∈ queue, ∃ reanchor, work = .recompute reanchor)
    {v : Situation} (queued : v.queue = queue) (asleep : ¬ v.IsLive) :
    v.run (List.replicate queue.length .work) = { v with queue := [] } := by
  induction queue generalizing v with
  | nil =>
    have same : ({ v with queue := [] } : Situation) = v := by rw [← queued]
    exact same.symm
  | cons work rest ih =>
    obtain ⟨⟨reanchor, first⟩, others⟩ := List.forall_mem_cons.mp only
    have stays : v.act .work = { v with queue := rest } := by
      rw [first] at queued
      exact (workNext_cons queued).trans (if_neg asleep)
    change (v.act .work).run (List.replicate rest.length .work) = _
    rw [stays]
    exact ih others rfl asleep

theorem run_activate [Host] (drained : v.queue = []) (running : v.phase = .running) (inactive : v.status = .inactive)
    (goesOn : v.settings.hasEnded v.now = false) {old next : Instant} (stored : v.settings.nextExecution = some old)
    (found : v.settings.next? false v.now = some (.ok next)) :
    v.run [.activate, .work] = { v with status := .active }.schedule next := by
  have turned : v.act .activate = { v with status := .active, queue := [.lifecycle .activated] } := by
    simp [act, turn, enqueue, inactive, running, drained]
  have queued : (v.act .activate).queue = [.lifecycle .activated] := by rw [turned]
  have worked : (v.act .activate).act .work = Situation.recompute false { v with status := .active, queue := [] } := by
    refine (workNext_cons queued).trans ?_
    rw [turned]
    exact if_pos running
  have live : Situation.IsLive { v with status := .active, queue := [] } := ⟨running, rfl⟩
  have kept := seed_of_stored (v := { v with status := .active, queue := [] }) stored
  change ((v.act .activate).act .work) = _
  rw [worked, recompute_of_found live goesOn found, kept, drained]

theorem inactive_of_losesEdit [Host] {a : Action} (lost : v.LosesEdit a) : v.status = .inactive := by
  obtain ⟨⟨edits, changed⟩, dormant, _⟩ := lost
  obtain ⟨entries, same⟩ := act_of_isEdit edits
  rw [same] at changed
  obtain kept | ⟨_, _, _, present, _, _⟩ := v.edit_cases entries
  · rw [kept] at changed
    exact absurd changed (by simp)
  · cases status : v.status with
    | active => exact absurd status dormant
    | inactive => rfl
    | deleted => exact absurd status present

theorem run_of_losesEdit [Host] {a : Action} (drained : v.queue = []) (running : v.phase = .running)
    (lost : v.LosesEdit a) (goesOn : (v.act a).settings.hasEnded v.now = false) {amount : Amount} {old next : Instant}
    (usable : (v.act a).settings.amount? = some amount) (stored : v.settings.nextExecution = some old)
    (advanced : amount.advancePast (v.act a).settings.zone old v.now = .ok next) :
    ∃ count, v.run (a :: List.replicate count .work ++ [.activate, .work]) =
      { v.act a with status := .active, queue := [] }.schedule next := by
  have inactive := inactive_of_losesEdit lost
  obtain ⟨entries, same⟩ := act_of_isEdit lost.1.1
  obtain ⟨status, now, phase, _⟩ := v.edit_frame entries
  obtain ⟨works, queue, only⟩ := v.edit_queue entries
  have scheduled := (v.edit_nextExecution entries (by simp [running])).trans stored
  rw [← same] at status now phase queue scheduled
  rw [drained, List.nil_append] at queue
  have asleep : ¬ (v.act a).IsLive := fun live => by cases live.2.symm.trans (status.trans inactive)
  have found : (v.act a).settings.next? false (v.act a).now = some (.ok next) := by
    rw [Settings.next?, usable, Option.map_some, now]
    simp only [Settings.anchor, scheduled, advanced]
  have worked := run_of_dormant only queue asleep
  have activated := run_activate (v := { v.act a with queue := [] }) rfl (phase.trans running) (status.trans inactive)
    (now ▸ goesOn) scheduled found
  refine ⟨works.length, ?_⟩
  change (v.act a).run (List.replicate works.length .work ++ [.activate, .work]) = _
  rw [run_append, worked, activated]

end Situation

namespace Scheduler

/-- With an empty queue, the stored next execution time of a live timer lies a whole number of periods after the start,
unless an edit was lost. After an edit that is lost, it follows the old next execution time instead. -/
theorem nextExecution_onGrid [Host] {s t : Scheduler} {id : Nat} (quiet : s.IsQuiet) (attached : s.attach = .ok (t, id))
    (fresh : s.store.settings.nextExecution = none) (actions : List Action)
    (orderly : t.Along id (fun v a => ¬ v.Stalls a ∧ v.IsOrderly a) actions) :
    (t.Along id (fun v a => ¬ v.LosesEdit a) actions →
      ∀ v ∈ (t.run id actions).situation? id, v.queue = [] → v.IsLive →
        ∀ d start, v.settings.amount? = some (.duration d) → v.settings.startTime = some start →
          ∃ next, v.settings.nextExecution = some next ∧ start.OnGrid d next) ∧
    (∀ v ∈ (t.run id actions).situation? id, v.queue = [] → v.phase = .running → ∀ a, v.LosesEdit a →
      (v.act a).settings.hasEnded v.now = false → ∀ amount old next, (v.act a).settings.amount? = some amount →
        v.settings.nextExecution = some old → amount.advancePast (v.act a).settings.zone old v.now = .ok next →
          ∃ count, ∃ w ∈ (t.run id (actions ++ (a :: List.replicate count .work ++ [.activate, .work]))).situation? id,
            w.queue = [] ∧ w.IsSchedulable ∧ w.settings = { (v.act a).settings with nextExecution := some next }) := by
  constructor
  · intro kept v reached drained live d start usable stored
    have served := invariant_of_attach Situation.IsServed quiet attached (.of_not_isLive fun live => by cases live.1)
      (fun v a fine h => h.act fine.1) orderly v reached
    have anchored := invariant_of_attach Situation.KeepsAnchor quiet attached
      (.of_settings (Settings.isAnchored_of_unscheduled fresh)) (fun v a fine h => h.act fine.1.1 fine.1.2 fine.2)
      (orderly.and kept) v reached
    obtain ⟨_, scheduled⟩ := served drained ⟨live, by rw [usable]; rfl⟩
    obtain ⟨next, due⟩ := Option.isSome_iff_exists.mp scheduled
    exact ⟨next, due, anchored.isAnchored drained live.going d start next usable stored due⟩
  · intro v reached drained running a lost goesOn amount old next usable stored advanced
    obtain ⟨count, ran⟩ := Situation.run_of_losesEdit drained running lost goesOn usable stored advanced
    have later := situation?_run_append quiet attached reached (a :: List.replicate count .work ++ [.activate, .work])
    rw [ran] at later
    obtain ⟨entries, same⟩ := Situation.act_of_isEdit lost.1.1
    have runs : (v.act a).phase = .running := by
      rw [same, (Situation.edit_frame _ _).2.2.1, running]
    refine ⟨count, _, later, ?_⟩
    exact ⟨rfl, ⟨⟨runs, rfl⟩, Option.isSome_iff_exists.mpr ⟨amount, usable⟩⟩, rfl⟩

theorem quarter_hourly_onGrid_after_edit :
    (periodicTimer ⟨15, .clock .minutes⟩).Along 0 (fun v a => ¬ v.Stalls a ∧ v.IsOrderly a)
        [.resume, .work, .write .period (some (.period ⟨7, .clock .minutes⟩)), .work] ∧
      ((periodicTimer ⟨15, .clock .minutes⟩).run 0
        [.resume, .work, .write .period (some (.period ⟨7, .clock .minutes⟩)), .work]).situation? 0 ≠ none ∧
      ∀ v ∈ ((periodicTimer ⟨15, .clock .minutes⟩).run 0
          [.resume, .work, .write .period (some (.period ⟨7, .clock .minutes⟩)), .work]).situation? 0,
        v.queue = [] → v.IsLive → ∀ d start, v.settings.amount? = some (.duration d) →
          v.settings.startTime = some start → ∃ next, v.settings.nextExecution = some next ∧ start.OnGrid d next := by
  refine ⟨by decide +kernel, by decide +kernel, ?_⟩
  exact (nextExecution_onGrid (isQuiet_periodic _) (attach_periodic _) rfl
    [.resume, .work, .write .period (some (.period ⟨7, .clock .minutes⟩)), .work] (by decide +kernel)).1
    (by decide +kernel)

/-- The timer is resumed while the resource is inactive, hears of a period of seven minutes, and keeps the old time. -/
theorem quarter_hourly_edit_is_lost :
    (periodic ⟨15, .clock .minutes⟩).IsQuiet ∧
      (periodic ⟨15, .clock .minutes⟩).attach = .ok (periodicTimer ⟨15, .clock .minutes⟩, 0) ∧
      (periodic ⟨15, .clock .minutes⟩).store.settings.nextExecution = none ∧
      (periodicTimer ⟨15, .clock .minutes⟩).Along 0 (fun v a => ¬ v.Stalls a ∧ v.IsOrderly a)
        [.resume, .work, .deactivate, .work, .resume, .work, .write .period (some (.period ⟨7, .clock .minutes⟩)),
          .work, .activate, .work] ∧
      ∃ v ∈ ((periodicTimer ⟨15, .clock .minutes⟩).run 0
          [.resume, .work, .deactivate, .work, .resume, .work, .write .period (some (.period ⟨7, .clock .minutes⟩)),
            .work, .activate, .work]).situation? 0,
        v.queue = [] ∧ v.IsLive ∧ v.settings.amount? = some (.duration ⟨420000000000, by decide⟩) ∧
          v.settings.startTime = some (newYear 0) ∧
          ¬ ∃ next, v.settings.nextExecution = some next ∧ (newYear 0).OnGrid ⟨420000000000, by decide⟩ next := by
  refine ⟨isQuiet_periodic _, attach_periodic _, rfl, by decide +kernel, ?_⟩
  have ends : ∃ v ∈ ((periodicTimer ⟨15, .clock .minutes⟩).run 0
      [.resume, .work, .deactivate, .work, .resume, .work, .write .period (some (.period ⟨7, .clock .minutes⟩)),
        .work, .activate, .work]).situation? 0,
      v.queue = [] ∧ v.IsLive ∧ v.settings.amount? = some (.duration ⟨420000000000, by decide⟩) ∧
        v.settings.startTime = some (newYear 0) ∧ v.settings.nextExecution = some (newYear 15) := by
    decide +kernel
  obtain ⟨v, reached, drained, live, usable, stored, scheduled⟩ := ends
  refine ⟨v, reached, drained, live, usable, stored, ?_⟩
  rintro ⟨next, same, count, moved⟩
  rw [scheduled, Option.some.injEq] at same
  have nanos := congrArg Moment.nanos moved
  rw [← same, Moment.shift_of_ordinary rfl] at nanos
  simp only [newYear] at nanos
  omega

end Scheduler

end Cadence
