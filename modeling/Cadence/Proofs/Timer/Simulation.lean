import Cadence.Proofs.Store.Batch
import Cadence.Proofs.Timer.Linked

/-!
The scheduler does what `Situation.act` says, one lemma for each action. The operations of the store come first.
-/

namespace Cadence

theorem Timer.armAlarm_of_running {t : Timer} (running : t.phase = .running) (sound : t.alarm.destroyed = false)
    (delay : Duration) : t.armAlarm delay =
      { t with alarm := { t.alarm with armed := some delay.atLeastZero, armCount := t.alarm.armCount + 1 } } := by
  simp [armAlarm, ManualAlarm.arm, running, sound]

namespace Scheduler

theorem commit_nil (s : Scheduler) : s.commit (s.store, []) = s := by
  simp [commit, s.store.deliveries_nil]

variable {s : Scheduler} {id : Nat} {t : Timer}

theorem ring_of_sound (found : s.timer? id = some t) (sound : t.alarm.destroyed = false)
    (called : t.alarm.callback = some ()) :
    s.ring id = ((s.updateTimer id fun w =>
      { w with alarm := { t.alarm with armed := none, lastFired := some s.now } }).updateTimer id
        (Timer.enqueue .fire), true) := by
  have rings : t.alarm.fire s.now = ({ t.alarm with armed := none, lastFired := some s.now }, some ()) := by
    simp [ManualAlarm.fire, sound, called]
  simp only [ring, found, rings, Option.isSome_some, if_true]

theorem activate_of_up (up : s.outages = []) : s.activate = (s.store.setStatus .active .activated).map s.commit := by
  simp only [activate, checkCall, up, Store.activate]
  rfl

theorem snapshot_of_present (up : s.outages = []) (present : s.store.status ≠ .deleted) :
    s.snapshot Field.all = .ok ⟨s.store.version, s.store.isActive, s.store.settings⟩ := by
  simp only [snapshot, checkCall, up, Store.snapshot, if_neg present, Settings.restrict_all]
  rfl

theorem whenLive (up : s.outages = []) (t : Timer) (go : Settings → Scheduler) :
    (if t.phase = .running then
      match s.snapshot Field.all with
      | .error _ => s
      | .ok snapshot => if snapshot.active then go snapshot.settings else s
    else s) = if (s.situationOf t).IsLive then go s.store.settings else s := by
  by_cases running : t.phase = .running
  · rw [if_pos running]
    cases status : s.store.status with
    | active =>
      have live : (s.situationOf t).IsLive := ⟨running, status⟩
      rw [snapshot_of_present up (by simp [status]), if_pos live]
      simp [Store.isActive, status]
    | inactive =>
      have dormant : ¬ (s.situationOf t).IsLive := fun live => by cases status.symm.trans live.2
      rw [snapshot_of_present up (by simp [status]), if_neg dormant]
      simp [Store.isActive, status]
    | deleted =>
      have dormant : ¬ (s.situationOf t).IsLive := fun live => by cases status.symm.trans live.2
      have aborted : s.snapshot Field.all = .error (.aborted "configuration resource deleted") := by
        simp only [snapshot, checkCall, up, Store.snapshot, if_pos status]
        rfl
      rw [aborted, if_neg dormant]
  · have dormant : ¬ (s.situationOf t).IsLive := fun live => running live.1
    rw [if_neg running, if_neg dormant]

theorem recompute_whenLive [Host] (found : s.timer? id = some t) (up : s.outages = []) (reanchor : Bool) :
    s.recompute id reanchor =
      if (s.situationOf t).IsLive then s.recomputeFrom id reanchor s.store.settings else s := by
  simp only [recompute, found]
  exact whenLive up t fun settings => s.recomputeFrom id reanchor settings

theorem fire_whenLive [Host] (found : s.timer? id = some t) (up : s.outages = []) :
    s.fire id = if (s.situationOf t).IsLive then s.fireFrom id s.store.settings else s := by
  simp only [fire, found]
  exact whenLive up t fun settings => s.fireFrom id settings

end Scheduler

namespace Linked

variable {s : Scheduler} {id : Nat} {t : Timer}

theorem leaseOf? (h : Linked s id t) (present : s.store.status ≠ .deleted) (f : Field) :
    s.store.leaseOf? f = if f = .nextExecution then t.lease else none := by
  rw [Store.leaseOf?, h.leased, if_neg present]
  by_cases gone : t.phase = .destroyed
  · simp [(h.dead gone).2.1]
  · obtain ⟨token, lease⟩ := (h.alive gone).2.1
    rw [lease, Option.toList_some]
    cases f <;> rfl

theorem lease_eq_none (h : Linked s id t) : t.lease = none ↔ t.phase = .destroyed := by
  by_cases gone : t.phase = .destroyed
  · simp [gone, (h.dead gone).2.1]
  · obtain ⟨token, lease⟩ := (h.alive gone).2.1
    simp [gone, lease]

theorem forM_checkLease (h : Linked s id t) (present : s.store.status ≠ .deleted)
    (entries : List (Field × Option FieldValue)) :
    (entries.forM fun e => s.store.checkLease none e.1) = .ok () ↔
      ¬ (t.phase ≠ .destroyed ∧ .nextExecution ∈ entries.map Prod.fst) := by
  rw [Store.forM_checkLease_none]
  constructor
  · rintro free ⟨going, member⟩
    obtain ⟨e, inside, touched⟩ := List.mem_map.mp member
    have unleased := free e inside
    rw [h.leaseOf? present, if_pos touched] at unleased
    exact going (h.lease_eq_none.mp unleased)
  · intro free e inside
    rw [h.leaseOf? present]
    by_cases touched : e.1 = .nextExecution
    · by_cases gone : t.phase = .destroyed
      · simp [(h.dead gone).2.1]
      · exact absurd ⟨gone, List.mem_map.mpr ⟨e, inside, touched⟩⟩ free
    · simp [touched]

theorem shows (h : Linked s id t) : Shows s id (s.situationOf t) s.journal := ⟨t, h, rfl, rfl⟩

theorem commit_values (h : Linked s id t) (store : Store Watch) (changed : List Field) (version : Nat)
    (status : store.status = s.store.status) (subscriptions : store.subscriptions = s.store.subscriptions)
    (next : store.nextSubscription = s.store.nextSubscription) (leases : store.leases = s.store.leases) :
    Shows (s.commit (store, changed.map fun f => ⟨.value f, version⟩)) id
      { s.situationOf t with
        settings := store.settings, queue := t.queue ++ (s.situationOf t).hears changed } s.journal := by
  have committed := h.commit (changed.map fun f => ⟨.value f, version⟩) subscriptions next
    (by rw [leases, status, h.leased])
  rw [Store.works_value (subscriptions.trans h.subscribed)] at committed
  have same : (if t.valueSubscription.isSome then
      (changed.filter (· ∈ Timer.watchedFields)).filterMap fun f => Timer.route .values (.value f)
      else []) = (s.situationOf t).hears changed := by
    simp only [Situation.hears, h.watching]
    rfl
  rw [same] at committed
  by_cases gone : t.phase = .destroyed
  · have deaf : (s.situationOf t).hears changed = [] := by simp [Situation.hears, Scheduler.situationOf, gone]
    rw [deaf, List.append_nil] at *
    simpa [Situation.enqueue, Scheduler.situationOf, gone, status] using committed
  · simpa [Situation.enqueue, Scheduler.situationOf, gone, status] using committed

theorem writeBatch (h : Linked s id t) (entries : List (Field × Option FieldValue)) :
    Shows (s.ignoreFailure (s.writeBatch entries)) id ((s.situationOf t).edit entries) s.journal := by
  have called : s.checkCall .batch = .ok () := by simp [Scheduler.checkCall, h.noOutage]
  simp only [Scheduler.writeBatch, called, Store.writeBatch, bind, Except.bind]
  cases put : Store.putAll s.store.settings entries with
  | error e =>
    rw [Situation.edit_of_failed (v := s.situationOf t) put]
    exact h.shows
  | ok result =>
    obtain ⟨settings, changed⟩ := result
    by_cases deleted : s.store.status = .deleted
    · rw [Situation.edit_of_refused (v := s.situationOf t) (Or.inl deleted)]
      simp only [if_pos deleted]
      exact h.shows
    have checked := h.forM_checkLease deleted entries
    by_cases leased : t.phase ≠ .destroyed ∧ .nextExecution ∈ entries.map Prod.fst
    · rw [Situation.edit_of_refused (v := s.situationOf t) (Or.inr leased)]
      simp only [if_neg deleted]
      cases refused : entries.forM fun e => s.store.checkLease none e.1 with
      | error e => exact h.shows
      | ok _ => exact absurd leased (checked.mp refused)
    rw [Situation.edit_of_put (v := s.situationOf t) put (not_or.mpr ⟨deleted, leased⟩)]
    simp only [if_neg deleted, checked.mpr leased]
    cases changed with
    | nil =>
      have silent : (s.situationOf t).hears [] = [] := by simp [Situation.hears]
      rw [Store.eq_of_putAll_nil put, silent, List.append_nil]
      simp only [List.isEmpty_nil, if_true, Scheduler.commit_nil]
      exact h.shows
    | cons f rest => exact h.commit_values _ (f :: rest) _ rfl rfl rfl rfl

theorem write (h : Linked s id t) (f : Field) (v : Option FieldValue) :
    Shows (s.ignoreFailure (s.write none f v)) id ((s.situationOf t).edit [(f, v)]) s.journal := by
  have same : s.write none f v = s.writeBatch [(f, v)] := by
    simp [Scheduler.write, Scheduler.writeBatch, Scheduler.checkCall, h.noOutage, Store.write_none]
  rw [same]
  exact h.writeBatch [(f, v)]

theorem setEndTime [Host] (h : Linked s id t) (finish : Option Instant) :
    Shows (s.ignoreFailure (s.setEndTime id finish)) id ((s.situationOf t).act (.setEndTime finish)) s.journal := by
  change Shows _ id ((s.situationOf t).edit (if t.phase = .destroyed then [] else _)) s.journal
  by_cases gone : t.phase = .destroyed
  · rw [if_pos gone, Situation.edit_nil]
    simp only [Scheduler.setEndTime, Scheduler.checkAlive, h.found, if_pos gone, bind, Except.bind]
    exact h.shows
  · rw [if_neg gone]
    simp only [Scheduler.setEndTime, Scheduler.checkAlive, h.found, if_neg gone, bind, Except.bind]
    exact h.write .endTime (finish.map .instant)

theorem commit_lifecycle (h : Linked s id t) {store : Store Watch} (event : Lifecycle) (version : Nat)
    (subscriptions : store.subscriptions = s.store.subscriptions)
    (next : store.nextSubscription = s.store.nextSubscription)
    (leases : store.leases = if store.status = .deleted then [] else t.lease.toList) :
    Shows (s.commit (store, [⟨.lifecycle event, version⟩])) id
      ({ s.situationOf t with
        settings := store.settings, status := store.status }.enqueue [.lifecycle event]) s.journal := by
  have committed := h.commit [⟨.lifecycle event, version⟩] subscriptions next leases
  rw [Store.works_lifecycle (subscriptions.trans h.subscribed)] at committed
  by_cases gone : t.phase = .destroyed
  · simpa [Situation.enqueue, Scheduler.situationOf, gone] using committed
  · obtain ⟨n, held⟩ := (h.alive gone).1
    simpa [Situation.enqueue, Scheduler.situationOf, gone, held] using committed

theorem setStatus (h : Linked s id t) {status : Status} (event : Lifecycle) (kept : status ≠ .deleted) :
    Shows (s.ignoreFailure ((s.store.setStatus status event).map s.commit)) id
      ((s.situationOf t).turn status event) s.journal := by
  rw [Store.setStatus, Situation.turn]
  change Shows _ id (if s.store.status = .deleted ∨ s.store.status = status then s.situationOf t else _) s.journal
  by_cases deleted : s.store.status = .deleted
  · rw [if_pos deleted, if_pos (Or.inl deleted)]
    exact h.shows
  · by_cases same : s.store.status = status
    · rw [if_neg deleted, if_pos same, if_pos (Or.inr same)]
      simp only [Except.map, Scheduler.ignoreFailure, Scheduler.commit_nil]
      exact h.shows
    · rw [if_neg deleted, if_neg same, if_neg (not_or.mpr ⟨deleted, same⟩)]
      refine h.commit_lifecycle event _ rfl rfl ?_
      change s.store.leases = if status = .deleted then [] else _
      rw [h.leased, if_neg deleted, if_neg kept]

theorem activate (h : Linked s id t) :
    Shows (s.ignoreFailure s.activate) id ((s.situationOf t).turn .active .activated) s.journal := by
  rw [Scheduler.activate_of_up h.noOutage]
  exact h.setStatus .activated (by decide)

theorem deactivate (h : Linked s id t) :
    Shows (s.ignoreFailure s.deactivate) id ((s.situationOf t).turn .inactive .deactivated) s.journal :=
  h.setStatus .deactivated (by decide)

theorem delete (h : Linked s id t) : Shows s.delete id (s.situationOf t).delete s.journal := by
  rw [Scheduler.delete, Store.delete, Situation.delete]
  change Shows _ id (if s.store.status = .deleted then s.situationOf t else _) s.journal
  by_cases deleted : s.store.status = .deleted
  · rw [if_pos deleted, if_pos deleted, Scheduler.commit_nil]
    exact h.shows
  · rw [if_neg deleted, if_neg deleted]
    exact h.commit_lifecycle .deleted _ rfl rfl rfl

theorem listen [Host] (h : Linked s id t) (name : String) :
    Shows (s.updateTimer id (Timer.addListener name .record)) id ((s.situationOf t).act (.listen name)) s.journal := by
  refine ⟨_, h.updateTimer ⟨rfl, rfl, rfl, rfl, rfl, rfl, (Timer.sameHold_refl t).silent⟩ ?_, rfl, rfl⟩
  intro l member
  rw [Timer.addListener, List.mem_append, List.mem_singleton] at member
  obtain old | rfl := member
  · exact h.recording l old
  · rfl

theorem unlisten [Host] (h : Linked s id t) (listener : Nat) :
    Shows (s.updateTimer id (Timer.removeListener listener)) id ((s.situationOf t).act (.unlisten listener))
      s.journal := by
  refine ⟨_, h.updateTimer ⟨rfl, rfl, rfl, rfl, rfl, rfl, (Timer.sameHold_refl t).silent⟩ ?_, rfl, rfl⟩
  intro l member
  exact h.recording l (List.mem_filter.mp member).1

theorem setClock [Host] (h : Linked s id t) (now : Instant) :
    Shows (s.setClock now) id ((s.situationOf t).act (.setClock now)) s.journal :=
  ⟨t, h.carry h.found rfl rfl rfl h.leased (Timer.sameHold_refl t) h.recording, rfl, rfl⟩

theorem ring (h : Linked s id t) : Shows (s.ring id).1 id (s.situationOf t).ring s.journal := by
  by_cases gone : t.phase = .destroyed
  · have silent : t.alarm.fire s.now = (t.alarm, none) := ManualAlarm.fire_destroyed (h.dead gone).2.2.2.1 s.now
    have stays : (s.situationOf t).ring = s.situationOf t := if_pos gone
    simp only [Scheduler.ring, h.found, silent, stays]
    exact ⟨t, h.updateTimer (f := fun t' => { t' with alarm := t.alarm }) (Timer.sameHold_refl t) h.recording, rfl, rfl⟩
  · obtain ⟨_, _, destroyed, callback⟩ := h.alive gone
    have goes : (s.situationOf t).ring = { s.situationOf t with armed := none, queue := t.queue ++ [.fire] } :=
      if_neg gone
    rw [Scheduler.ring_of_sound h.found destroyed callback, goes, Scheduler.updateTimer_updateTimer]
    have queued : (Timer.enqueue .fire ∘
        fun t' => { t' with alarm := { t.alarm with armed := none, lastFired := some s.now } }) t =
        { t with alarm := { t.alarm with armed := none, lastFired := some s.now }, queue := t.queue ++ [.fire] } :=
      if_neg gone
    refine ⟨_, h.updateTimer ?_ ?_, ?_, rfl⟩
    · rw [queued]
      exact ⟨rfl, rfl, rfl, rfl, rfl, rfl, fun ended => absurd (h.dead_iff.mpr ended) gone⟩
    · rw [queued]
      exact h.recording
    · rw [queued]
      rfl

theorem valueSubscription_eq_none (h : Linked s id t) (idle : t.phase ≠ .running) : t.valueSubscription = none := by
  have unwatched := mt h.watching.mp idle
  simpa using unwatched

theorem resume (h : Linked s id t) : Shows (s.resume id) id (s.situationOf t).resume s.journal := by
  by_cases stopped : t.phase = .stopped
  · have goes : (s.situationOf t).resume =
        { s.situationOf t with phase := .running, queue := t.queue ++ [.recompute false] } := if_pos stopped
    have unwatched := h.valueSubscription_eq_none (by simp [stopped])
    have going : t.phase ≠ .destroyed := by simp [stopped]
    simp only [Scheduler.resume, h.found, if_pos stopped, Store.subscribe, goes]
    refine ⟨{ t with
      phase := .running, valueSubscription := some s.store.nextSubscription
      queue := t.queue ++ [.recompute false] }, ?_, rfl, rfl⟩
    refine ⟨?_, h.noOutage, ?_, ?_, h.leased, ?_, fun _ => h.alive going, ?_, h.recording⟩
    · exact (Scheduler.timer?_updateTimer_self _ _ _).trans (congrArg (Option.map _) h.found)
    · change s.store.subscriptions ++ _ = _
      rw [h.subscribed]
      simp [Timer.subscriptions, unwatched]
    · intro n held
      have old := (h.numbered n held).1
      refine ⟨Nat.lt_succ_of_lt old, fun same => ?_⟩
      cases same
      exact Nat.lt_irrefl _ old
    · exact iff_of_true rfl rfl
    · intro gone
      cases gone
  · have stays : (s.situationOf t).resume = s.situationOf t := if_neg stopped
    simp only [Scheduler.resume, h.found, if_neg stopped, stays]
    exact h.shows

theorem unsubscribe_values (h : Linked s id t) {m : Nat} (watched : t.valueSubscription = some m) :
    s.store.subscriptions.filter (fun sub => sub.id ≠ m) =
      ({ t with valueSubscription := none } : Timer).subscriptions id := by
  rw [h.subscribed]
  cases held : t.lifecycleSubscription with
  | none => simp [Timer.subscriptions, watched, held]
  | some n =>
    have other : n ≠ m := fun same => (h.numbered n held).2 (same ▸ watched)
    simp [Timer.subscriptions, watched, held, other]

theorem stop (h : Linked s id t) : Shows (s.stop id) id (s.situationOf t).stop s.journal := by
  by_cases running : t.phase = .running
  · have goes : (s.situationOf t).stop = { s.situationOf t with phase := .stopped, armed := none } := if_pos running
    obtain ⟨m, watched⟩ := Option.isSome_iff_exists.mp (h.watching.mpr running)
    have going : t.phase ≠ .destroyed := by simp [running]
    simp only [Scheduler.stop, h.found, if_pos running, goes, watched, Scheduler.unsubscribeAll, List.foldl_cons,
      List.foldl_nil, Option.map_some, Option.getD_some, Store.unsubscribe]
    refine ⟨{ t with phase := .stopped, valueSubscription := none, alarm := t.alarm.cancel }, ?_, rfl, rfl⟩
    refine ⟨?_, h.noOutage, h.unsubscribe_values watched, ?_, h.leased, ?_, fun _ => h.alive going, ?_, h.recording⟩
    · exact (Scheduler.timer?_updateTimer_self _ _ _).trans (congrArg (Option.map _) h.found)
    · intro n held
      exact ⟨(h.numbered n held).1, Option.some_ne_none n |>.symm⟩
    · exact iff_of_false Bool.false_ne_true (by simp)
    · intro gone
      cases gone
  · have stays : (s.situationOf t).stop = s.situationOf t := if_neg running
    simp only [Scheduler.stop, h.found, if_neg running, stays]
    exact h.shows

theorem unsubscribe_all (h : Linked s id t) :
    (Scheduler.unsubscribeAll s.store [t.valueSubscription, t.lifecycleSubscription]).subscriptions = [] := by
  have mine := h.subscribed
  cases first : t.lifecycleSubscription with
  | none =>
    cases second : t.valueSubscription with
    | none => simpa [Scheduler.unsubscribeAll, Timer.subscriptions, first, second] using mine
    | some m => simp [Scheduler.unsubscribeAll, Store.unsubscribe, mine, Timer.subscriptions, first, second]
  | some n =>
    cases second : t.valueSubscription with
    | none => simp [Scheduler.unsubscribeAll, Store.unsubscribe, mine, Timer.subscriptions, first, second]
    | some m => simp [Scheduler.unsubscribeAll, Store.unsubscribe, mine, Timer.subscriptions, first, second]

theorem destroy (h : Linked s id t) : Shows (s.destroy id) id (s.situationOf t).destroy s.journal := by
  by_cases gone : t.phase = .destroyed
  · have stays : (s.situationOf t).destroy = s.situationOf t := if_pos gone
    simp only [Scheduler.destroy, h.found, if_pos gone, stays]
    exact h.shows
  · have goes : (s.situationOf t).destroy =
        { s.situationOf t with phase := .destroyed, queue := [], armed := none, listeners := [] } := if_neg gone
    obtain ⟨token, lease⟩ := (h.alive gone).2.1
    obtain ⟨_, left⟩ := Scheduler.unsubscribeAll_eq s.store [t.valueSubscription, t.lifecycleSubscription]
    simp only [Scheduler.destroy, h.found, if_neg gone, goes, lease, Option.map_some, Option.getD_some, Store.release]
    refine ⟨t.ended, ?_, ?_, rfl⟩
    · refine ⟨?_, h.noOutage, h.unsubscribe_all, ?_, ?_, ?_, ?_, fun _ => ⟨rfl, rfl, rfl, rfl, rfl⟩, ?_⟩
      · exact (Scheduler.timer?_updateTimer_self _ _ _).trans (congrArg (Option.map _) h.found)
      · intro n held
        cases held
      · change List.filter _ (Scheduler.unsubscribeAll s.store _).leases = _
        rw [left, h.leased, lease]
        by_cases deleted : s.store.status = .deleted <;> simp [deleted, Timer.ended]
      · exact iff_of_false Bool.false_ne_true (by simp [Timer.ended])
      · exact fun going => absurd rfl going
      · intro l member
        cases member
    · simp only [Scheduler.situationOf, Scheduler.updateTimer, Timer.ended, ManualAlarm.destroy, left]

theorem write_startTime (h : Linked s id t) (live : (s.situationOf t).IsLive)
    (unset : s.store.settings.startTime = none) (start : Instant) :
    ∃ u, s.write none .startTime (some (.instant start)) = .ok u ∧
      Shows u id { s.situationOf t with
        settings := { s.store.settings with startTime := some start }
        queue := t.queue ++ [.recompute true] } s.journal := by
  have present : s.store.status ≠ .deleted := fun deleted => by cases deleted.symm.trans live.2
  have free : s.store.checkLease none .startTime = .ok () :=
    (s.store.checkLease_none _).mpr (h.leaseOf? present .startTime)
  have changes : s.store.settings.get .startTime ≠ some (.instant start) := by simp [Settings.get, unset]
  have heard : (s.situationOf t).hears [.startTime] = [.recompute true] := by
    rw [Situation.hears, if_pos live.1]
    rfl
  have shown := h.commit_values { s.store with
    settings := { s.store.settings with startTime := some start }, version := s.store.version + 1 }
    [.startTime] (s.store.version + 1) rfl rfl rfl rfl
  rw [heard] at shown
  refine ⟨_, ?_, shown⟩
  simp only [Scheduler.write, Scheduler.checkCall, h.noOutage, Store.write, Settings.put, if_neg present, free,
    if_neg changes, bind, Except.bind, List.lookup_nil, List.map_cons, List.map_nil]

theorem write_nextExecution (h : Linked s id t) (live : (s.situationOf t).IsLive) (next : Instant) :
    ∃ u, s.write ((s.timer? id).bind Timer.lease) .nextExecution (some (.instant next)) = .ok u ∧
      Shows u id { s.situationOf t with
        settings := { (s.situationOf t).settings with nextExecution := some next } } s.journal := by
  have present : s.store.status ≠ .deleted := fun deleted => by cases deleted.symm.trans live.2
  have going : t.phase ≠ .destroyed := fun gone => by cases gone.symm.trans live.1
  obtain ⟨token, lease⟩ := (h.alive going).2.1
  have shown : (s.timer? id).bind Timer.lease = some ⟨.nextExecution, token⟩ := by rw [h.found, Option.bind_some, lease]
  have allowed : s.store.checkLease (some ⟨.nextExecution, token⟩) .nextExecution = .ok () := by
    have held := h.leaseOf? present .nextExecution
    rw [if_pos rfl, lease] at held
    simp [Store.checkLease, held]
  by_cases same : s.store.settings.get .nextExecution = some (.instant next)
  · have stored : s.store.settings.nextExecution = some next := by
      simpa [Settings.get] using same
    have unchanged : { (s.situationOf t).settings with nextExecution := some next } = s.store.settings := by
      rw [← stored]
      rfl
    refine ⟨s, ?_, ?_⟩
    · simp only [Scheduler.write, Scheduler.checkCall, h.noOutage, Store.write, Settings.put, shown, allowed,
        if_neg present, if_pos same, bind, Except.bind, List.lookup_nil, Scheduler.commit_nil]
    · rw [unchanged]
      exact h.shows
  · have silent : (s.situationOf t).hears [.nextExecution] = [] := by
      rw [Situation.hears, if_pos live.1]
      rfl
    have committed := h.commit_values { s.store with
      settings := { s.store.settings with nextExecution := some next }, version := s.store.version + 1 }
      [.nextExecution] (s.store.version + 1) rfl rfl rfl rfl
    rw [silent, List.append_nil] at committed
    refine ⟨_, ?_, committed⟩
    simp only [Scheduler.write, Scheduler.checkCall, h.noOutage, Store.write, Settings.put, shown, allowed,
      if_neg present, if_neg same, bind, Except.bind, List.lookup_nil, List.map_cons, List.map_nil]

theorem arm (h : Linked s id t) (running : t.phase = .running) (delay : Duration) :
    Shows (s.arm id delay) id ((s.situationOf t).arm delay) s.journal := by
  have going : t.phase ≠ .destroyed := by simp [running]
  have armed := Timer.armAlarm_of_running running (h.alive going).2.2.1 delay
  refine ⟨_, h.updateTimer ?_ ?_, ?_, rfl⟩
  · rw [armed]
    exact ⟨rfl, rfl, rfl, rfl, rfl, rfl, fun ended => absurd (h.dead_iff.mpr ended) going⟩
  · rw [armed]
    exact h.recording
  · rw [armed]
    rfl

theorem cancelAlarm (h : Linked s id t) :
    Shows (s.updateTimer id Timer.cancelAlarm) id { s.situationOf t with armed := none } s.journal :=
  ⟨_, h.updateTimer ⟨rfl, rfl, rfl, rfl, rfl, rfl, fun ended => ⟨ended.2.2.1, rfl⟩⟩ h.recording, rfl, rfl⟩

theorem base (h : Linked s id t) (live : (s.situationOf t).IsLive) (reanchor : Bool) :
    ∃ u, s.base reanchor s.store.settings = .ok (u, s.store.settings.anchor reanchor s.now) ∧
      Shows u id ((s.situationOf t).seed reanchor) s.journal := by
  have seeded : s.store.settings.isUnanchored reanchor = true →
      ∃ u, s.write none .startTime (some (.instant s.now)) = .ok u ∧
        Shows u id ((s.situationOf t).seed reanchor) s.journal := by
    intro unanchored
    have unset : s.store.settings.startTime = none := by
      simp only [Settings.isUnanchored, Bool.and_eq_true] at unanchored
      simpa using unanchored.1
    have goes : (s.situationOf t).seed reanchor = { s.situationOf t with
        settings := { s.store.settings with startTime := some s.now }
        queue := t.queue ++ [.recompute true] } := if_pos unanchored
    rw [goes]
    exact h.write_startTime live unset s.now
  have kept : s.store.settings.isUnanchored reanchor = false →
      Shows s id ((s.situationOf t).seed reanchor) s.journal := by
    intro anchored
    have stays : (s.situationOf t).seed reanchor = s.situationOf t := if_neg (by simp [Scheduler.situationOf, anchored])
    rw [stays]
    exact h.shows
  cases start : s.store.settings.startTime with
  | some start =>
    refine ⟨s, ?_, kept (by simp [Settings.isUnanchored, start])⟩
    cases reanchor <;> cases next : s.store.settings.nextExecution <;>
      simp [Scheduler.base, Settings.anchor, start, next]
  | none =>
    by_cases unanchored : s.store.settings.isUnanchored reanchor = true
    · obtain ⟨u, written, shown⟩ := seeded unanchored
      refine ⟨u, ?_, shown⟩
      cases reanchor <;> cases next : s.store.settings.nextExecution <;>
        simp_all [Scheduler.base, Settings.anchor, Settings.isUnanchored, bind, Except.bind]
    · refine ⟨s, ?_, kept (by simpa using unanchored)⟩
      cases reanchor <;> cases next : s.store.settings.nextExecution <;>
        simp_all [Scheduler.base, Settings.anchor, Settings.isUnanchored]

theorem recomputeFrom [Host] (h : Linked s id t) (live : (s.situationOf t).IsLive) (reanchor : Bool) :
    Shows (s.recomputeFrom id reanchor s.store.settings) id ((s.situationOf t).recompute reanchor) s.journal := by
  rw [Scheduler.recomputeFrom]
  by_cases ended : s.store.settings.hasEnded s.now = true
  · rw [if_pos ended, Situation.recompute_of_ended reanchor live ended]
    exact h.destroy
  rw [if_neg ended]
  rw [Bool.not_eq_true] at ended
  cases usable : s.store.settings.amount? with
  | none =>
    rw [Situation.recompute_of_unusable reanchor live ended usable]
    exact h.cancelAlarm
  | some amount =>
    obtain ⟨u, based, w, linked, same, journal⟩ := h.base live reanchor
    have now : u.now = s.now := (congrArg Situation.now same).trans (Situation.seed_frame reanchor _).2.1
    have found : s.store.settings.next? reanchor s.now =
        some (amount.advancePast s.store.settings.zone (s.store.settings.anchor reanchor s.now) s.now) := by
      rw [Settings.next?, usable, Option.map_some]
    simp only [based, Scheduler.schedule, now]
    cases advanced : amount.advancePast s.store.settings.zone (s.store.settings.anchor reanchor s.now) s.now with
    | error e =>
      rw [Situation.recompute_of_failed live ended (found.trans (congrArg some advanced))]
      exact ⟨w, linked, same, journal⟩
    | ok next =>
      rw [Situation.recompute_of_found live ended (found.trans (congrArg some advanced))]
      have goesOn : (u.situationOf w).IsLive := by
        rw [same]
        exact ⟨(Situation.seed_frame reanchor _).2.2.1.trans live.1, (Situation.seed_frame reanchor _).1.trans live.2⟩
      obtain ⟨stored, written, x, linked', same', journal'⟩ := linked.write_nextExecution goesOn next
      have running : x.phase = .running := (congrArg Situation.phase same').trans goesOn.1
      obtain ⟨y, linked'', same'', journal''⟩ := linked'.arm running (next.since s.now)
      simp only [written]
      refine ⟨y, linked'', ?_, journal''.trans (journal'.trans journal)⟩
      rw [same'', same', same]
      simp [Situation.schedule, Situation.arm, Scheduler.situationOf]

theorem recompute [Host] (h : Linked s id t) (reanchor : Bool) :
    Shows (s.recompute id reanchor) id ((s.situationOf t).recompute reanchor) s.journal := by
  rw [Scheduler.recompute_whenLive h.found h.noOutage]
  by_cases live : (s.situationOf t).IsLive
  · rw [if_pos live]
    exact h.recomputeFrom live reanchor
  · have stays : (s.situationOf t).recompute reanchor = s.situationOf t := if_neg live
    rw [if_neg live, stays]
    exact h.shows

theorem notify (h : Linked s id t) (scheduled : Instant) :
    s.notify id scheduled =
      { s with journal := s.journal ++ (s.situationOf t).announcement id (some scheduled) } := by
  have called : ∀ (ls : List FireListener) (s : Scheduler), (∀ l ∈ ls, l.reaction = .record) →
      ls.foldl (Scheduler.call id scheduled) s =
        { s with journal := s.journal ++ ls.map fun l => ⟨id, l.name, scheduled⟩ } := by
    intro ls
    induction ls with
    | nil => simp
    | cons l ls ih =>
      intro s recording
      have noted : s.call id scheduled l = { s with journal := s.journal ++ [⟨id, l.name, scheduled⟩] } := by
        simp only [Scheduler.call, recording l List.mem_cons_self]
        rfl
      rw [List.foldl_cons, noted, ih _ fun m member => recording m (List.mem_cons_of_mem l member)]
      simp
  simp only [Scheduler.notify, h.found, Situation.announcement_some]
  exact called t.listeners s h.recording

theorem fireFrom [Host] (h : Linked s id t) (live : (s.situationOf t).IsLive) :
    Shows (s.fireFrom id s.store.settings) id (s.situationOf t).fire
      (s.journal ++ (s.situationOf t).announcement id (s.store.settings.due? s.now)) := by
  rw [Scheduler.fireFrom]
  cases early : s.store.settings.nextExecution.filter fun next => s.now < next with
  | some next =>
    obtain ⟨stored, ahead⟩ := Option.filter_eq_some_iff.mp early
    have silent : s.store.settings.due? s.now = none := by simp_all [Settings.due?]
    rw [silent, Situation.announcement_none, List.append_nil,
      Situation.fire_of_early live stored (of_decide_eq_true ahead)]
    exact h.arm live.1 _
  | none =>
    have notEarly : s.store.settings.nextExecution.any (s.now < ·) = false := by
      cases stored : s.store.settings.nextExecution <;> simp_all
    rw [Situation.fire_of_due (v := s.situationOf t) notEarly]
    simp only []
    by_cases ended : s.store.settings.hasEnded s.now = true
    · have silent : s.store.settings.due? s.now = none := by simp [Settings.due?, ended]
      rw [if_pos ended, silent, Situation.recompute_of_ended false live ended, Situation.announcement_none,
        List.append_nil]
      exact h.destroy
    rw [if_neg ended]
    rw [Bool.not_eq_true] at ended
    cases usable : s.store.settings.amount? with
    | none =>
      have silent : s.store.settings.due? s.now = none := by simp [Settings.due?, usable]
      rw [silent, Situation.recompute_of_unusable false live ended usable, Situation.announcement_none,
        List.append_nil]
      exact h.cancelAlarm
    | some amount =>
      have due : s.store.settings.due? s.now = some (s.store.settings.nextExecution.getD s.now) := by
        simp [Settings.due?, notEarly, ended, usable]
      rw [due]
      simp only [Option.isNone_some, Bool.false_eq_true, if_false, h.notify]
      exact (h.carry (u := { s with journal := s.journal ++ _ }) h.found rfl rfl rfl h.leased (Timer.sameHold_refl t)
        h.recording).recompute false

theorem fire [Host] (h : Linked s id t) :
    Shows (s.fire id) id (s.situationOf t).fire
      (s.journal ++ (s.situationOf t).announcement id
        (if (s.situationOf t).IsLive then s.store.settings.due? s.now else none)) := by
  rw [Scheduler.fire_whenLive h.found h.noOutage]
  by_cases live : (s.situationOf t).IsLive
  · rw [if_pos live, if_pos live]
    exact h.fireFrom live
  · have stays : (s.situationOf t).fire = s.situationOf t := if_neg live
    rw [if_neg live, if_neg live, stays, Situation.announcement_none, List.append_nil]
    exact h.shows

theorem handle [Host] (h : Linked s id t) (going : t.phase ≠ .destroyed) (work : Work) :
    Shows (s.handle id work) id ((s.situationOf t).handle work)
      (s.journal ++ (s.situationOf t).announcement id
        (if work = .fire ∧ (s.situationOf t).IsLive then s.store.settings.due? s.now else none)) := by
  simp only [Scheduler.handle, h.found, if_neg going]
  by_cases fires : work = .fire
  · subst fires
    simp only [true_and]
    exact h.fire
  have silent : ¬ (work = .fire ∧ (s.situationOf t).IsLive) := fun both => fires both.1
  rw [if_neg silent, Situation.announcement_none, List.append_nil]
  cases work with
  | fire => exact absurd rfl fires
  | recompute reanchor => exact h.recompute reanchor
  | lifecycle event =>
    cases event with
    | deleted => exact h.destroy
    | deactivated => exact h.stop
    | activated =>
      by_cases running : t.phase = .running
      · have goes : (s.situationOf t).handle (.lifecycle .activated) = (s.situationOf t).recompute false :=
          if_pos running
        rw [goes]
        simpa only [running, if_true] using h.recompute false
      · have goes : (s.situationOf t).handle (.lifecycle .activated) = (s.situationOf t).resume := if_neg running
        rw [goes]
        simpa only [running, if_false] using h.resume

theorem workNext [Host] (h : Linked s id t) :
    Shows (s.workNext id) id (s.situationOf t).workNext
      (s.journal ++ (s.situationOf t).announcement id ((s.situationOf t).announces? .work)) := by
  simp only [Scheduler.workNext, h.found]
  cases queued : t.queue with
  | nil =>
    have stays : (s.situationOf t).workNext = s.situationOf t := Situation.workNext_nil queued
    have silent : (s.situationOf t).announces? .work = none := by
      simp [Situation.announces?, Scheduler.situationOf, queued]
    rw [stays, silent, Situation.announcement_none, List.append_nil]
    exact h.shows
  | cons work rest =>
    have going : t.phase ≠ .destroyed := by
      intro gone
      have empty := (h.dead gone).2.2.1
      rw [queued] at empty
      cases empty
    have popped := h.updateTimer (f := fun t => { t with queue := rest })
      ⟨rfl, rfl, rfl, rfl, rfl, rfl, fun ended => absurd (h.dead_iff.mpr ended) going⟩ h.recording
    have handled := popped.handle going work
    have goes : (s.situationOf t).workNext = { s.situationOf t with queue := rest }.handle work :=
      Situation.workNext_cons queued
    have announced : (s.situationOf t).announces? .work =
        if work = .fire ∧ (s.situationOf t).IsLive then s.store.settings.due? s.now else none := by
      cases work <;> simp [Situation.announces?, Scheduler.situationOf, queued]
    rw [goes, announced]
    exact handled

theorem act [Host] (h : Linked s id t) (a : Action) :
    Shows (s.act id a) id ((s.situationOf t).act a)
      (s.journal ++ (s.situationOf t).announcement id ((s.situationOf t).announces? a)) := by
  by_cases worked : a = .work
  · subst worked
    exact h.workNext
  have silent : (s.situationOf t).announces? a = none := by
    cases a <;> first | rfl | exact absurd rfl worked
  rw [silent, Situation.announcement_none, List.append_nil]
  cases a with
  | work => exact absurd rfl worked
  | resume => exact h.resume
  | stop => exact h.stop
  | destroy => exact h.destroy
  | listen name => exact h.listen name
  | unlisten listener => exact h.unlisten listener
  | setEndTime finish => exact h.setEndTime finish
  | write f v => exact h.write f v
  | writeBatch entries => exact h.writeBatch entries
  | activate => exact h.activate
  | deactivate => exact h.deactivate
  | delete => exact h.delete
  | setClock now => exact h.setClock now
  | ring => exact h.ring

end Linked

end Cadence
