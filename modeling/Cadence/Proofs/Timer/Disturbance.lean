import Cadence.Proofs.Timer.Ties
import Mathlib.Data.Nat.Basic
import Mathlib.Logic.Function.Iterate
import Mathlib.Order.Basic

/-!
Disturbances of a timer that waits for its alarm. It is told to recompute its schedule once more, its alarm rings early,
it is stopped and resumed, or its configuration is turned off and on again. When it has worked all that off, nobody has
heard of it, nothing that is stored is different, and the alarm is armed for the next execution time as it was before
(`Scheduler.disturbance_leaves_alone`). `Attends` is what the timer needs for that. It is less than `Shows` says: there
may be other timers, leases and listeners.
-/

namespace Cadence

/-- Work that finds nothing to do while the next execution time is ahead, but to arm the alarm. -/
inductive Work.IsRoutine : Work → Prop
  | recompute : IsRoutine (.recompute false)
  | fire : IsRoutine .fire
  | activated : IsRoutine (.lifecycle .activated)
  | deactivated : IsRoutine (.lifecycle .deactivated)

namespace Situation

variable {v w : Situation} {next : Instant}

/-- The next execution time is stored and yet to come, the schedule goes on, and the period is usable. -/
structure IsAhead (next : Instant) (v : Situation) : Prop where
  stored : v.settings.nextExecution = some next
  later : v.now < next
  goesOn : v.settings.hasEnded v.now = false
  usable : v.settings.amount?.isSome

/-- Nothing is left to do until the alarm rings. -/
structure IsWaiting (next : Instant) (v : Situation) : Prop extends v.IsAhead next where
  live : v.IsLive
  idle : v.queue = []

instance : Decidable (v.IsAhead next) :=
  decidable_of_iff (v.settings.nextExecution = some next ∧ v.now < next ∧ v.settings.hasEnded v.now = false ∧
      v.settings.amount?.isSome)
    ⟨fun ⟨stored, later, goesOn, usable⟩ => ⟨stored, later, goesOn, usable⟩,
      fun h => ⟨h.stored, h.later, h.goesOn, h.usable⟩⟩

instance : Decidable (v.IsWaiting next) :=
  decidable_of_iff (v.IsAhead next ∧ v.IsLive ∧ v.queue = [])
    ⟨fun ⟨ahead, live, idle⟩ => ⟨ahead, live, idle⟩, fun h => ⟨h.toIsAhead, h.live, h.idle⟩⟩

structure IsCalm (next : Instant) (v : Situation) : Prop extends v.IsAhead next where
  routine : ∀ work ∈ v.queue, work.IsRoutine

theorem iterate_workNext_of_idle [Host] (idle : v.queue = []) (steps : Nat) : workNext^[steps] v = v :=
  Function.iterate_fixed (workNext_nil idle) steps

namespace IsAhead

theorem of_same (h : v.IsAhead next) (settings : w.settings = v.settings) (now : w.now = v.now) : w.IsAhead next where
  stored := by rw [settings, h.stored]
  later := by rw [now]; exact h.later
  goesOn := by rw [settings, now, h.goesOn]
  usable := by rw [settings, h.usable]

theorem recompute [Host] (h : v.IsAhead next) (live : v.IsLive) : v.recompute false = v.arm (next.since v.now) := by
  obtain ⟨amount, usable⟩ := Option.isSome_iff_exists.mp h.usable
  have anchor : v.settings.anchor false v.now = next := by simp only [Settings.anchor, h.stored]
  have found : v.settings.next? false v.now = some (.ok next) := by
    rw [Settings.next?, usable, Option.map_some, anchor, Amount.advancePast, if_pos h.later]
  have same : { v.settings with nextExecution := some next } = v.settings := by rw [← h.stored]
  rw [recompute_of_found live h.goesOn found, seed_of_stored h.stored, schedule, same]

theorem handle_frame [Host] (h : v.IsAhead next) {work : Work} (routine : work.IsRoutine) :
    (v.handle work).settings = v.settings ∧ (v.handle work).now = v.now ∧
      ((v.handle work).queue = v.queue ∨ (v.handle work).queue = v.queue ++ [.recompute false]) := by
  have recomputed : (v.recompute false).settings = v.settings ∧ (v.recompute false).now = v.now ∧
      (v.recompute false).queue = v.queue := by
    by_cases live : v.IsLive
    · rw [h.recompute live]
      exact ⟨rfl, rfl, rfl⟩
    · rw [Situation.recompute, if_neg live]
      exact ⟨rfl, rfl, rfl⟩
  cases routine with
  | recompute => exact ⟨recomputed.1, recomputed.2.1, .inl recomputed.2.2⟩
  | fire =>
    by_cases live : v.IsLive
    · rw [handle, fire_of_early live h.stored h.later]
      exact ⟨rfl, rfl, .inl rfl⟩
    · rw [handle, fire, if_neg live]
      exact ⟨rfl, rfl, .inl rfl⟩
  | deactivated =>
    obtain ⟨settings, -, now, queue, -, -⟩ := v.stop_frame
    exact ⟨settings, now, .inl queue⟩
  | activated =>
    rw [handle]
    split
    · exact ⟨recomputed.1, recomputed.2.1, .inl recomputed.2.2⟩
    · obtain ⟨settings, -, now, -, -, -⟩ := v.resume_frame
      refine ⟨settings, now, ?_⟩
      obtain ⟨-, resumed⟩ | ⟨-, stays⟩ := v.resume_cases
      · exact .inr (by rw [resumed])
      · exact .inl (by rw [stays])

end IsAhead

theorem IsCalm.workNext [Host] (h : v.IsCalm next) : v.workNext.IsCalm next := by
  cases queued : v.queue with
  | nil =>
    rw [workNext_nil queued]
    exact h
  | cons work rest =>
    have routine := h.routine
    rw [queued] at routine
    have ahead : IsAhead next { v with queue := rest } := h.toIsAhead.of_same rfl rfl
    obtain ⟨settings, now, queue⟩ := ahead.handle_frame (routine work List.mem_cons_self)
    rw [workNext_cons queued]
    refine ⟨h.toIsAhead.of_same settings now, fun later member => ?_⟩
    obtain same | grown := queue
    · rw [same] at member
      exact routine later (List.mem_cons_of_mem work member)
    · rw [grown] at member
      obtain old | new := List.mem_append.mp member
      · exact routine later (List.mem_cons_of_mem work old)
      · rw [List.mem_singleton.mp new]
        exact .recompute

/-- What is left to do is routine, and when it is done, everything is as in `v` and the alarm is armed. -/
structure Recovers [Host] (next : Instant) (v w : Situation) (steps : Nat) : Prop where
  calm : w.IsCalm next
  settles : workNext^[steps] w = v.arm (next.since v.now)

namespace IsWaiting

theorem calm (h : v.IsWaiting next) (settings : w.settings = v.settings) (now : w.now = v.now)
    (routine : ∀ work ∈ w.queue, work.IsRoutine) : w.IsCalm next := ⟨h.toIsAhead.of_same settings now, routine⟩

theorem recovers_recompute [Host] (h : v.IsWaiting next) (armed : Option Duration) :
    v.Recovers next { v with armed := armed, queue := [.recompute false] } 1 := by
  have ahead : IsAhead next { v with armed := armed } := h.toIsAhead.of_same rfl rfl
  have recomputed : { v with armed := armed, queue := [.recompute false] }.workNext = v.arm (next.since v.now) := by
    rw [workNext_cons rfl, ← h.idle]
    exact ahead.recompute h.live
  exact ⟨h.calm rfl rfl (List.forall_mem_singleton.mpr .recompute), recomputed⟩

theorem recovers_fire [Host] (h : v.IsWaiting next) (armed : Option Duration) :
    v.Recovers next { v with armed := armed, queue := [.fire] } 1 := by
  have fired : { v with armed := armed, queue := [.fire] }.workNext = v.arm (next.since v.now) := by
    rw [workNext_cons rfl, ← h.idle]
    exact fire_of_early (v := { v with armed := armed }) h.live h.stored h.later
  exact ⟨h.calm rfl rfl (List.forall_mem_singleton.mpr .fire), fired⟩

theorem recovers_activated [Host] (h : v.IsWaiting next) :
    v.Recovers next { v with phase := .stopped, armed := none, queue := [.lifecycle .activated] } 2 := by
  have running : v.phase = .running := h.live.1
  have resumed : { v with phase := .stopped, armed := none, queue := [.lifecycle .activated] }.workNext =
      { v with armed := none, queue := [.recompute false] } := by
    simp [Situation.workNext, handle, resume, running]
  refine ⟨h.calm rfl rfl (List.forall_mem_singleton.mpr .activated), ?_⟩
  rw [Function.iterate_succ_apply, resumed, (h.recovers_recompute none).settles]

theorem recovers_deactivated [Host] (h : v.IsWaiting next) :
    v.Recovers next { v with queue := [.lifecycle .deactivated, .lifecycle .activated] } 3 := by
  have stopped : { v with queue := [.lifecycle .deactivated, .lifecycle .activated] }.workNext =
      { v with phase := .stopped, armed := none, queue := [.lifecycle .activated] } := by
    rw [workNext_cons rfl]
    exact if_pos h.live.1
  refine ⟨h.calm rfl rfl ?_, ?_⟩
  · exact List.forall_mem_cons.mpr ⟨.deactivated, List.forall_mem_singleton.mpr .activated⟩
  · rw [Function.iterate_succ_apply, stopped, h.recovers_activated.settles]

theorem ring (h : v.IsWaiting next) : v.ring = { v with armed := none, queue := [.fire] } := by
  rw [Situation.ring, if_neg h.live.going, h.idle, List.nil_append]

theorem stop (h : v.IsWaiting next) : v.stop = { v with phase := .stopped, armed := none } := if_pos h.live.1

theorem restart (h : v.IsWaiting next) : v.stop.resume = { v with armed := none, queue := [.recompute false] } := by
  have running : v.phase = .running := h.live.1
  simp [h.stop, resume, h.idle, running]

theorem iterate_workNext_deactivated [Host] (h : v.IsWaiting next) (pause : Nat) :
    Situation.workNext^[pause] { v with status := .inactive, queue := [.lifecycle .deactivated] } =
        { v with status := .inactive, queue := [.lifecycle .deactivated] } ∨
      Situation.workNext^[pause] { v with status := .inactive, queue := [.lifecycle .deactivated] } =
        { v with status := .inactive, phase := .stopped, armed := none } := by
  cases pause with
  | zero => exact .inl rfl
  | succ pause =>
    have idle : { v with status := .inactive, phase := .stopped, armed := none }.queue = [] := h.idle
    have stopped : { v with status := .inactive, queue := [.lifecycle .deactivated] }.workNext =
        { v with status := .inactive, phase := .stopped, armed := none } := by
      rw [workNext_cons rfl, ← h.idle]
      exact if_pos h.live.1
    rw [Function.iterate_succ_apply, stopped, iterate_workNext_of_idle idle]
    exact .inr rfl

end IsWaiting

end Situation

/-- A timer that is not destroyed, has its ties and its lease, and can reach the store. -/
structure Equipped (s : Scheduler) (id : Nat) (t : Timer) : Prop where
  found : s.timer? id = some t
  going : t.phase ≠ .destroyed
  tied : s.IsTied id
  leased : ∃ l, t.lease = some l ∧ s.store.leaseOf? .nextExecution = some l
  noOutage : s.outages = []

def Attends (s : Scheduler) (id : Nat) (v : Situation) (journal : List Firing) : Prop :=
  ∃ t, Equipped s id t ∧ s.situationOf t = v ∧ s.journal = journal

namespace Scheduler

variable {s : Scheduler} {id : Nat}

theorem heard_lifecycle (subscriptions : List (Subscription Watch)) (event : Lifecycle) (version : Nat) :
    heard id (subscriptions.map fun sub => (sub, ⟨.lifecycle event, version⟩)) =
      (subscriptions.filter fun sub => sub.listener = ⟨id, .lifecycle⟩).map fun _ => .lifecycle event := by
  rw [heard, List.filterMap_map]
  induction subscriptions with
  | nil => rfl
  | cons sub rest ih =>
    obtain ⟨number, fields, timer, channel⟩ := sub
    rw [List.filterMap_cons, ih]
    cases channel <;> by_cases mine : timer = id <;> simp [Timer.route, mine]

end Scheduler

namespace Equipped

variable {s : Scheduler} {id : Nat} {t : Timer} {next : Instant}

theorem update (h : Equipped s id t) {subscriptions : List (Subscription Watch)} {number : Nat} {f : Timer → Timer}
    (tied : ({ s with store := { s.store with subscriptions := subscriptions, nextSubscription := number } }.updateTimer
      id f).IsTied id) (going : (f t).phase ≠ .destroyed) (lease : (f t).lease = t.lease) :
    Attends ({ s with store := { s.store with subscriptions := subscriptions, nextSubscription := number } }.updateTimer
      id f) id (s.situationOf (f t)) s.journal := by
  refine ⟨f t, ⟨?_, going, tied, ?_, h.noOutage⟩, rfl, rfl⟩
  · rw [Scheduler.timer?_updateTimer_self]
    exact congrArg (Option.map f) h.found
  · rw [lease]
    exact h.leased

theorem ties (h : Equipped s id t) : t.IsTied id s.store := by
  obtain ⟨w, found, tied⟩ := h.tied
  obtain rfl : t = w := Option.some.inj (h.found.symm.trans found)
  exact tied h.going

theorem arm (h : Equipped s id t) (running : t.phase = .running) (delay : Duration) :
    Attends (s.arm id delay) id ((s.situationOf t).arm delay) s.journal := by
  have updated := h.update (f := Timer.armAlarm delay) (h.tied.arm delay)
    (by rw [(t.armAlarm_phase delay).1]; exact h.going) (t.armAlarm_phase delay).2
  rw [Timer.armAlarm_of_running running h.ties.sound] at updated
  exact updated

theorem attends (h : Equipped s id t) : Attends s id (s.situationOf t) s.journal := ⟨t, h, rfl, rfl⟩

theorem resume (h : Equipped s id t) : Attends (s.resume id) id (s.situationOf t).resume s.journal := by
  have tied := h.tied.resume
  by_cases stopped : t.phase = .stopped
  · have goes : (s.situationOf t).resume =
        { s.situationOf t with phase := .running, queue := t.queue ++ [.recompute false] } := if_pos stopped
    simp only [Scheduler.resume, h.found, if_pos stopped, Store.subscribe] at tied ⊢
    rw [goes]
    exact h.update tied (by simp [Timer.enqueue]) rfl
  · have stays : (s.situationOf t).resume = s.situationOf t := if_neg stopped
    simp only [Scheduler.resume, h.found, if_neg stopped, stays]
    exact h.attends

theorem stop (h : Equipped s id t) : Attends (s.stop id) id (s.situationOf t).stop s.journal := by
  have tied := h.tied.stop
  by_cases running : t.phase = .running
  · have goes : (s.situationOf t).stop = { s.situationOf t with phase := .stopped, armed := none } := if_pos running
    obtain ⟨subscriptions, left⟩ := Scheduler.unsubscribeAll_eq s.store [t.valueSubscription]
    simp only [Scheduler.stop, h.found, if_pos running, left] at tied ⊢
    rw [goes]
    exact h.update tied (by simp [Timer.cancelAlarm]) rfl
  · have stays : (s.situationOf t).stop = s.situationOf t := if_neg running
    simp only [Scheduler.stop, h.found, if_neg running, stays]
    exact h.attends

theorem ring (h : Equipped s id t) :
    (s.ring id).2 = true ∧ Attends (s.ring id).1 id (s.situationOf t).ring s.journal := by
  have goes : (s.situationOf t).ring = { s.situationOf t with armed := none, queue := t.queue ++ [.fire] } :=
    if_neg h.going
  have rung := h.tied.ring
  rw [Scheduler.ring_of_sound h.found h.ties.sound h.ties.called, Scheduler.updateTimer_updateTimer] at rung ⊢
  have queued : (Timer.enqueue .fire ∘
      fun t' => { t' with alarm := { t.alarm with armed := none, lastFired := some s.now } }) t =
      { t with alarm := { t.alarm with armed := none, lastFired := some s.now }, queue := t.queue ++ [.fire] } :=
    if_neg h.going
  have updated := h.update rung (by rw [queued]; exact h.going) (by rw [queued])
  rw [queued] at updated
  rw [goes]
  exact ⟨rfl, updated⟩

theorem write_stored (h : Equipped s id t) (ahead : (s.situationOf t).IsAhead next)
    (live : (s.situationOf t).IsLive) :
    s.write ((s.timer? id).bind Timer.lease) .nextExecution (some (.instant next)) = .ok s := by
  obtain ⟨l, lease, held⟩ := h.leased
  have present : s.store.status ≠ .deleted := fun deleted => by cases deleted.symm.trans live.2
  have shown : (s.timer? id).bind Timer.lease = some l := by rw [h.found, Option.bind_some, lease]
  have allowed : s.store.checkLease (some l) .nextExecution = .ok () := by simp [Store.checkLease, held]
  have same : s.store.settings.get .nextExecution = some (.instant next) :=
    congrArg (Option.map FieldValue.instant) ahead.stored
  simp only [Scheduler.write, Scheduler.checkCall, h.noOutage, Store.write, Settings.put, shown, allowed,
    if_neg present, if_pos same, bind, Except.bind, List.lookup_nil, Scheduler.commit_nil]

theorem recompute [Host] (h : Equipped s id t) (ahead : (s.situationOf t).IsAhead next) :
    Attends (s.recompute id false) id ((s.situationOf t).recompute false) s.journal := by
  rw [Scheduler.recompute_whenLive h.found h.noOutage]
  by_cases live : (s.situationOf t).IsLive
  · have goesOn : ¬ s.store.settings.hasEnded s.now = true := by
      rw [show s.store.settings.hasEnded s.now = false from ahead.goesOn]
      exact Bool.false_ne_true
    have stored : s.store.settings.nextExecution = some next := ahead.stored
    obtain ⟨amount, usable⟩ := Option.isSome_iff_exists.mp ahead.usable
    have usable : s.store.settings.amount? = some amount := usable
    have there : amount.advancePast s.store.settings.zone next s.now = .ok next := if_pos ahead.later
    rw [if_pos live, Scheduler.recomputeFrom, if_neg goesOn, ahead.recompute live]
    simp only [usable, Scheduler.base, stored, Scheduler.schedule, there, h.write_stored ahead live]
    exact h.arm live.1 _
  · have stays : (s.situationOf t).recompute false = s.situationOf t := if_neg live
    rw [if_neg live, stays]
    exact h.attends

theorem fire [Host] (h : Equipped s id t) (ahead : (s.situationOf t).IsAhead next) :
    Attends (s.fire id) id (s.situationOf t).fire s.journal := by
  rw [Scheduler.fire_whenLive h.found h.noOutage]
  by_cases live : (s.situationOf t).IsLive
  · have early : s.store.settings.nextExecution.filter (fun next => s.now < next) = some next :=
      Option.filter_eq_some_iff.mpr ⟨ahead.stored, decide_eq_true ahead.later⟩
    rw [if_pos live, Scheduler.fireFrom, Situation.fire_of_early live ahead.stored ahead.later]
    simp only [early]
    exact h.arm live.1 _
  · have stays : (s.situationOf t).fire = s.situationOf t := if_neg live
    rw [if_neg live, stays]
    exact h.attends

theorem handle [Host] (h : Equipped s id t) (ahead : (s.situationOf t).IsAhead next) {work : Work}
    (routine : work.IsRoutine) : Attends (s.handle id work) id ((s.situationOf t).handle work) s.journal := by
  simp only [Scheduler.handle, h.found, if_neg h.going]
  cases routine with
  | recompute => exact h.recompute ahead
  | fire => exact h.fire ahead
  | deactivated => exact h.stop
  | activated =>
    by_cases running : t.phase = .running
    · have goes : (s.situationOf t).handle (.lifecycle .activated) = (s.situationOf t).recompute false := if_pos running
      rw [goes]
      simpa only [running, if_true] using h.recompute ahead
    · have goes : (s.situationOf t).handle (.lifecycle .activated) = (s.situationOf t).resume := if_neg running
      rw [goes]
      simpa only [running, if_false] using h.resume

theorem workNext [Host] (h : Equipped s id t) (calm : (s.situationOf t).IsCalm next) :
    Attends (s.workNext id) id (s.situationOf t).workNext s.journal := by
  simp only [Scheduler.workNext, h.found]
  cases queued : t.queue with
  | nil =>
    have stays : (s.situationOf t).workNext = s.situationOf t := Situation.workNext_nil queued
    rw [stays]
    exact h.attends
  | cons work rest =>
    have routine : work.IsRoutine := calm.routine work (by rw [Scheduler.situationOf, queued]; exact List.mem_cons_self)
    have taken : Equipped (s.updateTimer id fun t => { t with queue := rest }) id { t with queue := rest } := by
      refine ⟨?_, h.going, h.tied.change (fun _ => rfl) fun _ _ => rfl, h.leased, h.noOutage⟩
      rw [Scheduler.timer?_updateTimer_self, h.found, Option.map_some]
    have goes : (s.situationOf t).workNext = { s.situationOf t with queue := rest }.handle work :=
      Situation.workNext_cons queued
    rw [goes]
    exact taken.handle (calm.toIsAhead.of_same rfl rfl) routine

theorem commit_lifecycle (h : Equipped s id t) (status : Status) (event : Lifecycle) (version : Nat) :
    Attends (s.commit ({ s.store with status := status, version := version }, [⟨.lifecycle event, version⟩])) id
      { s.situationOf t with status := status, queue := t.queue ++ [.lifecycle event] } s.journal := by
  obtain ⟨n, -, -, -, alone⟩ := h.ties.told
  have everybody : { s.store with status := status, version := version }.deliveries [⟨.lifecycle event, version⟩] =
      s.store.subscriptions.map fun sub => (sub, ⟨.lifecycle event, version⟩) := by
    simp [Store.deliveries, Subscription.wants, List.map_eq_flatMap]
  have told : (s.commit ({ s.store with status := status, version := version }, [⟨.lifecycle event, version⟩])).timer?
      id = some { t with queue := t.queue ++ [.lifecycle event] } := by
    rw [Scheduler.timer?_commit_eq, everybody, Scheduler.heard_lifecycle, alone, h.found, Option.map_some]
    exact congrArg some (if_neg h.going)
  obtain ⟨timers, same⟩ := s.exists_commit
    ({ s.store with status := status, version := version }, [⟨.lifecycle event, version⟩])
  refine ⟨_, ⟨told, h.going, h.tied.commit ⟨rfl, rfl⟩, ?_, ?_⟩, ?_, ?_⟩ <;> rw [same]
  · exact h.leased
  · exact h.noOutage
  · rfl

theorem setStatus (h : Equipped s id t) {status : Status} (event : Lifecycle) (present : s.store.status ≠ .deleted)
    (other : s.store.status ≠ status) :
    ∃ u, (s.store.setStatus status event).map s.commit = .ok u ∧
      Attends u id { s.situationOf t with status := status, queue := t.queue ++ [.lifecycle event] } s.journal := by
  refine ⟨_, ?_, h.commit_lifecycle status event (s.store.version + 1)⟩
  rw [Store.setStatus, if_neg present, if_neg other]
  rfl

theorem activate (h : Equipped s id t) (inactive : s.store.status = .inactive) :
    ∃ u, s.activate = .ok u ∧
      Attends u id { s.situationOf t with status := .active, queue := t.queue ++ [.lifecycle .activated] }
        s.journal := by
  rw [Scheduler.activate_of_up h.noOutage]
  exact h.setStatus .activated (by simp [inactive]) (by simp [inactive])

theorem deactivate (h : Equipped s id t) (active : s.store.status = .active) :
    ∃ u, s.deactivate = .ok u ∧
      Attends u id { s.situationOf t with status := .inactive, queue := t.queue ++ [.lifecycle .deactivated] }
        s.journal :=
  h.setStatus .deactivated (by simp [active]) (by simp [active])

end Equipped

theorem Attends.works [Host] {s : Scheduler} {id : Nat} {v : Situation} {journal : List Firing} {next : Instant}
    (h : Attends s id v journal) (calm : v.IsCalm next) (steps : Nat) :
    Attends ((Scheduler.workNext id)^[steps] s) id (Situation.workNext^[steps] v) journal := by
  induction steps generalizing s v with
  | zero => exact h
  | succ steps ih =>
    obtain ⟨t, equipped, rfl, rfl⟩ := h
    exact ih (equipped.workNext calm) calm.workNext

/-- What may be asked of a timer and its configuration for nothing. What is undone may have been noticed before, by some
steps of the worker. -/
inductive Disturbance
  | recompute
  | ring
  | restart (pause : Nat)
  | toggle (pause : Nat)
deriving DecidableEq

namespace Scheduler

def disturb [Host] (id : Nat) (s : Scheduler) : Disturbance → Except Error Scheduler
  | .recompute => .ok (s.updateTimer id (Timer.enqueue (.recompute false)))
  | .ring => .ok (s.ring id).1
  | .restart pause => .ok (((workNext id)^[pause] (s.stop id)).resume id)
  | .toggle pause => do
    let off ← s.deactivate
    ((workNext id)^[pause] off).activate

end Scheduler

namespace Equipped

variable {s : Scheduler} {id : Nat} {t : Timer} {next : Instant}

/-- Three steps are enough to get over a disturbance. -/
theorem disturb [Host] (h : Equipped s id t) (waiting : (s.situationOf t).IsWaiting next) (disturbance : Disturbance) :
    ∃ d v steps, s.disturb id disturbance = .ok d ∧ Attends d id v s.journal ∧ steps ≤ 3 ∧
      (s.situationOf t).Recovers next v steps := by
  have idle : t.queue = [] := waiting.idle
  cases disturbance with
  | recompute =>
    have queued : t.enqueue (.recompute false) = { t with queue := [.recompute false] } := by
      rw [Timer.enqueue, if_neg h.going, idle, List.nil_append]
    have attends := h.update (f := Timer.enqueue (.recompute false))
      (h.tied.change (fun t => t.enqueue_phase _) fun t _ => t.enqueue_bonds _)
      (by rw [Timer.enqueue_phase]; exact h.going) (t.enqueue_lease _)
    rw [queued] at attends
    exact ⟨_, _, 1, rfl, attends, by decide, waiting.recovers_recompute t.alarm.armed⟩
  | ring =>
    have attends := h.ring.2
    rw [waiting.ring] at attends
    exact ⟨_, _, 1, rfl, attends, by decide, waiting.recovers_fire none⟩
  | restart pause =>
    have stopped := h.stop
    have stays : Situation.workNext^[pause] (s.situationOf t).stop = (s.situationOf t).stop := by
      refine Situation.iterate_workNext_of_idle ?_ pause
      rw [waiting.stop]
      exact idle
    have calm : (s.situationOf t).stop.IsCalm next := by
      rw [waiting.stop]
      refine waiting.calm rfl rfl ?_
      simp [Scheduler.situationOf, idle]
    obtain ⟨w, equipped, same, journal⟩ := stopped.works calm pause
    have attends := equipped.resume
    rw [same, journal, stays, waiting.restart] at attends
    exact ⟨_, _, 1, rfl, attends, by decide, waiting.recovers_recompute none⟩
  | toggle pause =>
    obtain ⟨off, turnedOff, heard⟩ := h.deactivate waiting.live.2
    rw [idle, List.nil_append] at heard
    have calm := waiting.calm (w := { s.situationOf t with status := .inactive, queue := [.lifecycle .deactivated] })
      rfl rfl (List.forall_mem_singleton.mpr .deactivated)
    obtain ⟨w, equipped, same, journal⟩ := heard.works calm pause
    have paused := waiting.iterate_workNext_deactivated pause
    rw [← same] at paused
    have inactive : ((Scheduler.workNext id)^[pause] off).store.status = .inactive := by
      obtain same | same := paused <;> exact congrArg Situation.status same
    obtain ⟨on, turnedOn, attends⟩ := equipped.activate inactive
    have done : s.disturb id (.toggle pause) = .ok on := by
      simp only [Scheduler.disturb, turnedOff, bind, Except.bind, turnedOn]
    rw [journal] at attends
    -- It has not heard yet that the configuration was off, or it has stopped because of that.
    obtain same | same := paused
    · have queue : w.queue = [.lifecycle .deactivated] := congrArg Situation.queue same
      rw [same, queue, ← waiting.live.2] at attends
      exact ⟨on, _, 3, done, attends, by decide, waiting.recovers_deactivated⟩
    · have queue : w.queue = [] := (congrArg Situation.queue same).trans idle
      rw [same, queue, ← waiting.live.2] at attends
      exact ⟨on, _, 2, done, attends, by decide, waiting.recovers_activated⟩

end Equipped

namespace Scheduler

variable {s t u : Scheduler} {id : Nat} {timer : Timer} {reading : Option Instant} {delay : Duration}
  {next : Instant} {settings : Settings} {status : Status} {now : Instant}

/-- A timer waits, in any company, for its alarm, which was armed for the time that was left to the next execution time.
However it is disturbed, when it has worked that off nobody has heard of it, and all is as it was, but that the alarm is
armed for the time that is left now. Away from leap seconds, both times lead to the next execution time. -/
theorem disturbance_leaves_alone [Host] (begun : (new (.new settings status) now).Unfolds s)
    (made : s.attach = .ok (t, id) ∨ ∃ period start, s.create period start = (t, .ok id))
    (led : t.Leads id u reading) (found : u.timer? id = some timer) (up : u.outages = [])
    (waiting : (u.situationOf timer).IsWaiting next) (armed : timer.alarm.armed = some delay) :
    (∃ a, reading = some a ∧ a < next ∧ delay = (next.since a).atLeastZero ∧
      (a.leap = false → next.leap = false → 0 < delay.nanos ∧ a.add? delay = some next)) ∧
    (∀ disturbance, ∃ d, u.disturb id disturbance = .ok d ∧ ∀ steps, 3 ≤ steps → ∃ after,
      ((workNext id)^[steps] d).timer? id = some after ∧
      ((workNext id)^[steps] d).situationOf after =
        { u.situationOf timer with armed := some (next.since u.now).atLeastZero } ∧
      ((workNext id)^[steps] d).journal = u.journal) ∧
    (u.ring id).2 = true ∧
    (u.now.leap = false → next.leap = false →
      0 < (next.since u.now).atLeastZero.nanos ∧ u.now.add? (next.since u.now).atLeastZero = some next) := by
  obtain ⟨tied, lease, kept⟩ := made_tied begun made
  obtain ⟨w, fits, count⟩ := (led.kept kept).armings
  obtain rfl : timer = w := Option.some.inj (found.symm.trans fits.found)
  have going : timer.phase ≠ .destroyed := Situation.IsLive.going waiting.live
  have present : u.store.status ≠ .deleted := fun deleted => by cases deleted.symm.trans waiting.live.2
  have stored : u.store.settings.nextExecution = some next := waiting.stored
  obtain ⟨given, held⟩ := fits.leased going
  have equipped : Equipped u id timer := ⟨found, going, led.isTied tied, ⟨lease, given, held present⟩, up⟩
  refine ⟨?_, fun disturbance => ?_, equipped.ring.1, fun ordinary ordinary' => ?_⟩
  · obtain ⟨a, n, read, later, length, same⟩ := fits.agreed delay armed
    obtain rfl : next = n := Option.some.inj (stored.symm.trans (same present))
    have last : reading = some a := (if_pos count.symm).symm.trans read
    exact ⟨a, last, later, length, fun ordinary ordinary' => Instant.since_of_lt ordinary ordinary' later length⟩
  · obtain ⟨d, v, count, done, attends, few, recovers⟩ := equipped.disturb waiting disturbance
    refine ⟨d, done, fun steps enough => ?_⟩
    obtain ⟨more, rfl⟩ := Nat.exists_eq_add_of_le' (few.trans enough)
    have idle : ((u.situationOf timer).arm (next.since u.now)).queue = [] := waiting.idle
    have settled : Situation.workNext^[count] v = (u.situationOf timer).arm (next.since u.now) := recovers.settles
    have finished : Situation.workNext^[more + count] v = (u.situationOf timer).arm (next.since u.now) := by
      rw [Function.iterate_add_apply, settled, Situation.iterate_workNext_of_idle idle]
    have worked := attends.works recovers.calm (more + count)
    rw [finished] at worked
    obtain ⟨after, still, same, journal⟩ := worked
    exact ⟨after, still.found, same, journal⟩
  · exact Instant.since_of_lt ordinary ordinary' waiting.later rfl

def hourlyWaiting [Host] (minute : Fin 1440) : Scheduler :=
  ((periodicTimer ⟨1, .clock .hours⟩).follow 0 none [.act .resume, .act .work, .act (.setClock (newYear minute))]).1

theorem hourly_disturbance :
    (periodic ⟨1, .clock .hours⟩).attach = .ok (periodicTimer ⟨1, .clock .hours⟩, 0) ∧ ∃ timer,
      (hourlyWaiting 30).timer? 0 = some timer ∧ ((hourlyWaiting 30).situationOf timer).IsWaiting (newYear 60) ∧
      timer.alarm.armed = some ⟨3600000000000, by decide⟩ ∧ ∀ disturbance, ∃ d after,
        (hourlyWaiting 30).disturb 0 disturbance = .ok d ∧ ((workNext 0)^[3] d).timer? 0 = some after ∧
        ((workNext 0)^[3] d).situationOf after =
          { (hourlyWaiting 30).situationOf timer with armed := some ⟨1800000000000, by decide⟩ } ∧
        ((workNext 0)^[3] d).journal = [] := by
  have waits : ∀ v ∈ (hourlyWaiting 30).situation? 0, v.IsWaiting (newYear 60) := by decide +kernel
  have armed : ((hourlyWaiting 30).timer? 0).bind (fun timer => timer.alarm.armed) =
      some ⟨3600000000000, by decide⟩ := by decide +kernel
  have left : ((newYear 60).since (hourlyWaiting 30).now).atLeastZero = ⟨1800000000000, by decide⟩ := by
    decide +kernel
  obtain ⟨timer, found, armed⟩ := Option.bind_eq_some_iff.mp armed
  have waiting := waits _ (by rw [situation?, found]; rfl)
  obtain ⟨-, disturbed, -, -⟩ := disturbance_leaves_alone .refl (.inl (attach_periodic ⟨1, .clock .hours⟩))
    (Leads.start.follow [.act .resume, .act .work, .act (.setClock (newYear 30))]) found (by decide +kernel) waiting
    armed
  refine ⟨attach_periodic _, timer, found, waiting, armed, fun disturbance => ?_⟩
  obtain ⟨d, done, worked⟩ := disturbed disturbance
  obtain ⟨after, there, same, journal⟩ := worked 3 (Nat.le_refl 3)
  exact ⟨d, after, done, there, left ▸ same, journal.trans (by decide +kernel)⟩

/-- A timer is started a minute before the year 2017, and its alarm is armed for that minute. In the leap second it
still waits; there it is stopped and resumed, and then its alarm is armed for no time at all. -/
theorem leap_second_disturbance :
    ∃ t u, (beforeNewYear2017.setClock (Amount.lastMinuteOf2016 0 false)).attach = .ok (t, 0) ∧
      t.follow 0 none [.act .resume, .act .work, .act (.setClock (Amount.lastMinuteOf2016 59000 true))] =
        (u, some (Amount.lastMinuteOf2016 0 false)) ∧
      (∀ v ∈ u.situation? 0, v.IsWaiting (Amount.newYear2017 0)) ∧
      (u.timer? 0).bind (fun timer => timer.alarm.armed) = some ⟨60000000000, by decide⟩ ∧
      (Amount.lastMinuteOf2016 0 false).add? ⟨60000000000, by decide⟩ = some (Amount.newYear2017 0) ∧
      ∃ d, u.disturb 0 (.restart 0) = .ok d ∧
        (((workNext 0)^[3] d).timer? 0).bind (fun timer => timer.alarm.armed) = some Duration.zero ∧
        ((workNext 0)^[3] d).now.add? Duration.zero ≠ some (Amount.newYear2017 0) :=
  ⟨_, _, rfl, rfl, by decide +kernel, by decide +kernel, by decide +kernel, _, rfl, by decide +kernel,
    by decide +kernel⟩

end Scheduler

end Cadence
