import Cadence.Proofs.Timer.Chore
import Cadence.Proofs.Timer.Course

/-!
The alarm and the stored schedule. An armed alarm belongs to a running timer that holds the lease on the next
execution time, and its delay is the time from what the clock read when it was armed to the execution time that is
stored (`Scheduler.armed_agrees`). Nothing else is asked of a run: other parties may edit the store, calls may be out,
the clock may go back, the alarm may ring at any time, and listeners may act on the timer and its store while it
fires. A `Record` is what has to be remembered for that, and every chore keeps it, whatever waits in the queues.
-/

namespace Cadence

theorem Settings.nextExecution_of_get {s t : Settings} (same : t.get .nextExecution = s.get .nextExecution) :
    t.nextExecution = s.nextExecution :=
  Option.map_injective (fun _ _ same => FieldValue.instant.inj same) same

namespace Store

variable {κ : Type} {s t : Store κ} {l : Lease}

/-- The store has not been deleted since, and nobody has touched what the lease is for. -/
def Guards (l : Lease) (s t : Store κ) : Prop :=
  t.status ≠ .deleted → s.status ≠ .deleted ∧ (s.leaseOf? .nextExecution = some l →
    t.leaseOf? .nextExecution = some l ∧ t.settings.nextExecution = s.settings.nextExecution)

theorem Guards.of_same (status : t.status = s.status) (leases : t.leases = s.leases)
    (next : t.settings.nextExecution = s.settings.nextExecution) : Guards l s t := by
  intro present
  rw [status] at present
  refine ⟨present, fun held => ⟨?_, next⟩⟩
  rw [← held, leaseOf?, leaseOf?, leases]

theorem Guards.leaseOf? (guards : Guards l s t) (held : s.status ≠ .deleted → s.leaseOf? .nextExecution = some l)
    (present : t.status ≠ .deleted) : t.leaseOf? .nextExecution = some l :=
  ((guards present).2 (held (guards present).1)).1

theorem Guards.of_deleted (deleted : t.status = .deleted) : Guards l s t := fun present => absurd deleted present

theorem Does.guards {op : Operation κ} {events : List Event} (done : Does s op t events) (allowed : op.IsEdit) :
    Guards l s t := by
  cases done with
  | nothing _ => exact .of_same rfl rfl rfl
  | @write lease f v settings put present free _ =>
    cases lease with
    | some shown => cases allowed
    | none =>
      refine fun _ => ⟨present, fun held => ⟨held, ?_⟩⟩
      have other : .nextExecution ≠ f := by
        rintro rfl
        rw [checkLease_none, held] at free
        cases free
      exact Settings.nextExecution_of_get (Settings.get_put_other put other)
  | writeBatch put present free _ =>
    refine fun _ => ⟨present, fun held => ⟨held, ?_⟩⟩
    have kept := (putAll_get put .nextExecution).resolve_right fun member => ?_
    · exact Settings.nextExecution_of_get kept
    · obtain ⟨e, listed, named⟩ := List.mem_map.mp (mem_of_putAll put member)
      have unleased := free e listed
      rw [named, held] at unleased
      cases unleased
  | activate resting => exact fun _ => ⟨by rw [resting]; decide, fun held => ⟨held, rfl⟩⟩
  | deactivate active => exact fun _ => ⟨by rw [active]; decide, fun held => ⟨held, rfl⟩⟩
  | delete _ => exact .of_deleted rfl
  | reserve _ _ | release _ | subscribe _ _ | unsubscribe _ => cases allowed

theorem write_eq_ok {lease : Option Lease} {f : Field} {v : Option FieldValue} {events : List Event}
    (h : s.write lease f v = .ok (t, events)) :
    t.status = s.status ∧ t.leases = s.leases ∧ t.settings.get f = v := by
  cases does_write h with
  | nothing same => exact ⟨rfl, rfl, by simpa [changes, effects] using same⟩
  | write put _ _ _ => exact ⟨rfl, rfl, Settings.get_put_self put⟩

end Store

theorem Instant.since_of_lt {now next : Instant} {delay : Duration} (ordinary : now.leap = false)
    (ordinary_next : next.leap = false) (later : now < next) (length : delay = (next.since now).atLeastZero) :
    0 < delay.nanos ∧ now.add? delay = some next := by
  have before := (Instant.lt_iff_of_ordinary ordinary ordinary_next).mp later
  have nanos := Instant.since_nanos ordinary_next ordinary
  have same : delay = next.since now := by
    rw [length, Duration.atLeastZero, if_neg (by omega)]
  rw [same, nanos]
  refine ⟨by omega, ?_⟩
  have sum : now.nanos + (next.nanos - now.nanos) = next.nanos := by omega
  rw [Instant.add?_eq_some, Moment.shift_of_ordinary ordinary, nanos, sum, ← ordinary_next]

namespace Scheduler

variable {s u : Scheduler} {id : Nat} {t : Timer}

theorem timer?_commit (next : Store Watch × List Event) (found : s.timer? id = some t) :
    ∃ queue, (s.commit next).timer? id = some { t with queue := queue } := by
  obtain ⟨queue, grown⟩ := t.enqueueAll_eq (heard id (next.1.deliveries next.2))
  exact ⟨queue, by rw [timer?_commit_eq, found, Option.map_some, grown]⟩

theorem commit_now (s : Scheduler) (next : Store Watch × List Event) : (s.commit next).now = s.now := by
  obtain ⟨timers, same⟩ := s.exists_commit next
  rw [same]

def armings (s : Scheduler) (id : Nat) : Nat := ((s.timer? id).map fun t => t.alarm.armCount).getD 0

end Scheduler

/-- What is known before a step is taken: the lease that a timer was given, what the clock reads, how often the alarm
has been armed, and what the clock read when it was armed the last time. -/
structure Record where
  timer : Nat
  lease : Lease
  now : Instant
  armings : Nat
  reading : Option Instant

namespace Record

/-- What the clock read when the alarm was armed, which may have been within the step. -/
def readingOf (r : Record) (alarm : ManualAlarm Unit) : Option Instant :=
  if alarm.armCount = r.armings then r.reading else some r.now

/-- The timer has its lease for as long as it lives, and an alarm that is not armed unless it runs. -/
structure Holds (r : Record) (s : Scheduler) (t : Timer) : Prop where
  found : s.timer? r.timer = some t
  clock : s.now = r.now
  counted : r.armings ≤ t.alarm.armCount
  leased : t.phase ≠ .destroyed →
    t.lease = some r.lease ∧ (s.store.status ≠ .deleted → s.store.leaseOf? .nextExecution = some r.lease)
  idle : t.phase ≠ .running ∨ t.alarm.destroyed = true → t.alarm.armed = none

structure Fits (r : Record) (s : Scheduler) (t : Timer) : Prop extends r.Holds s t where
  agreed : ∀ delay, t.alarm.armed = some delay → ∃ reading next, r.readingOf t.alarm = some reading ∧ reading < next ∧
    delay = (next.since reading).atLeastZero ∧
    (s.store.status ≠ .deleted → s.store.settings.nextExecution = some next)

def Kept (r : Record) (s : Scheduler) : Prop := ∃ t, r.Fits s t

variable {r : Record} {s u : Scheduler} {t w : Timer}

namespace Holds

theorem running (h : r.Holds s t) {delay : Duration} (armed : t.alarm.armed = some delay) : t.phase = .running := by
  refine Decidable.byContradiction fun resting => ?_
  rw [h.idle (.inl resting)] at armed
  cases armed

/-- The one operation that arms the alarm: for the time that is left to what is stored. -/
theorem arm (h : r.Holds s t) {next : Instant} (later : s.now < next)
    (stored : s.store.status ≠ .deleted → s.store.settings.nextExecution = some next) :
    r.Kept (s.arm r.timer (next.since s.now)) := by
  have found : (s.arm r.timer (next.since s.now)).timer? r.timer = some (t.armAlarm (next.since s.now)) := by
    rw [Scheduler.arm, Scheduler.timer?_updateTimer_self, h.found, Option.map_some]
  have since := Nat.lt_succ_of_le h.counted
  by_cases able : t.phase = .running ∧ t.alarm.destroyed = false
  · rw [Timer.armAlarm_of_running able.1 able.2] at found
    refine ⟨_, ⟨found, h.clock, Nat.le_of_lt since, h.leased, fun unable => ?_⟩, fun delay set => ?_⟩
    · rcases unable with resting | destroyed
      · exact absurd able.1 resting
      · rw [able.2] at destroyed
        cases destroyed
    · refine ⟨s.now, next, ?_, later, (Option.some.inj set).symm, stored⟩
      rw [readingOf, if_neg (Nat.ne_of_gt since), h.clock]
  · have unable : t.phase ≠ .running ∨ t.alarm.destroyed = true := by
      by_cases running : t.phase = .running
      · exact .inr (by simpa [running] using able)
      · exact .inl running
    have same : t.armAlarm (next.since s.now) = t := by
      rcases unable with resting | destroyed
      · simp [Timer.armAlarm, resting]
      · simp [Timer.armAlarm, ManualAlarm.arm, destroyed]
    rw [same] at found
    refine ⟨t, ⟨found, h.clock, h.counted, h.leased, h.idle⟩, fun delay set => ?_⟩
    rw [h.idle unable] at set
    cases set

end Holds

namespace Fits

/-- An operation that leaves phase, lease and alarm of the timer alone, and of the store what is under the lease. -/
theorem carry (h : r.Fits s t) (found : u.timer? r.timer = some w) (now : u.now = s.now) (phase : w.phase = t.phase)
    (lease : w.lease = t.lease) (alarm : w.alarm = t.alarm) (guards : s.store.Guards r.lease u.store) : r.Fits u w where
  found := found
  clock := now.trans h.clock
  counted := alarm ▸ h.counted
  leased going := by
    rw [phase] at going
    obtain ⟨given, held⟩ := h.leased going
    exact ⟨lease.trans given, guards.leaseOf? held⟩
  idle := by
    rw [phase, alarm]
    exact h.idle
  agreed delay armed := by
    rw [alarm] at armed
    obtain ⟨reading, next, read, later, length, stored⟩ := h.agreed delay armed
    have held := (h.leased (by rw [h.running armed]; decide)).2
    refine ⟨reading, next, alarm.symm ▸ read, later, length, fun present => ?_⟩
    exact ((guards present).2 (held (guards present).1)).2.trans (stored (guards present).1)

theorem silence (h : r.Fits s t) (found : u.timer? r.timer = some w) (now : u.now = s.now)
    (count : w.alarm.armCount = t.alarm.armCount) (unarmed : w.alarm.armed = none) (going : w.phase ≠ .destroyed →
      t.phase ≠ .destroyed ∧ w.lease = t.lease ∧ s.store.Guards r.lease u.store) : r.Fits u w where
  found := found
  clock := now.trans h.clock
  counted := count ▸ h.counted
  leased alive := by
    obtain ⟨before, lease, guards⟩ := going alive
    obtain ⟨given, held⟩ := h.leased before
    exact ⟨lease.trans given, guards.leaseOf? held⟩
  idle _ := unarmed
  agreed delay armed := by
    rw [unarmed] at armed
    cases armed

theorem found_update (h : r.Fits s t) (store : Store Watch) (f : Timer → Timer) :
    ({ s with store := store }.updateTimer r.timer f).timer? r.timer = some (f t) := by
  rw [Scheduler.timer?_updateTimer_self]
  exact congrArg (Option.map f) h.found

end Fits

namespace Kept

theorem congr (h : r.Kept s) (timers : u.timers = s.timers) (store : u.store = s.store) (now : u.now = s.now) :
    r.Kept u := by
  obtain ⟨t, fits⟩ := h
  have found : u.timer? r.timer = some t := by rw [Scheduler.timer?, timers]; exact fits.found
  exact ⟨t, fits.carry found now rfl rfl rfl (by rw [store]; exact .of_same rfl rfl rfl)⟩

theorem updateTimer (h : r.Kept s) {f : Timer → Timer} (phase : ∀ t, (f t).phase = t.phase)
    (lease : ∀ t, (f t).lease = t.lease) (alarm : ∀ t, (f t).alarm = t.alarm) : r.Kept (s.updateTimer r.timer f) := by
  obtain ⟨t, fits⟩ := h
  exact ⟨f t, fits.carry (fits.found_update s.store f) rfl (phase t) (lease t) (alarm t) (.of_same rfl rfl rfl)⟩

theorem enqueue (h : r.Kept s) (work : Work) : r.Kept (s.updateTimer r.timer (Timer.enqueue work)) :=
  h.updateTimer (fun t => t.enqueue_phase work) (fun t => t.enqueue_lease work)
    (fun t => by rw [Timer.enqueue]; split <;> rfl)

theorem commit (h : r.Kept s) {next : Store Watch × List Event} (guards : s.store.Guards r.lease next.1) :
    r.Kept (s.commit next) := by
  obtain ⟨t, fits⟩ := h
  obtain ⟨queue, found⟩ := Scheduler.timer?_commit next fits.found
  refine ⟨_, fits.carry found (s.commit_now next) rfl rfl rfl ?_⟩
  rw [Scheduler.commit_store]
  exact guards

theorem resume (h : r.Kept s) : r.Kept (s.resume r.timer) := by
  obtain ⟨t, fits⟩ := h
  rw [Scheduler.resume, fits.found]
  by_cases stopped : t.phase = .stopped
  · simp only [if_pos stopped]
    have going : t.phase ≠ .destroyed := by rw [stopped]; decide
    have resting : t.phase ≠ .running := by rw [stopped]; decide
    exact ⟨_, fits.silence (fits.found_update _ _) rfl rfl (fits.idle (.inl resting)) fun _ =>
      ⟨going, rfl, .of_same rfl rfl rfl⟩⟩
  · simp only [if_neg stopped]
    exact ⟨t, fits⟩

theorem stop (h : r.Kept s) : r.Kept (s.stop r.timer) := by
  obtain ⟨t, fits⟩ := h
  rw [Scheduler.stop, fits.found]
  by_cases running : t.phase = .running
  · simp only [if_pos running]
    obtain ⟨subscriptions, left⟩ := Scheduler.unsubscribeAll_eq s.store [t.valueSubscription]
    simp only [left]
    refine ⟨_, fits.silence (fits.found_update _ _) rfl rfl rfl fun _ => ⟨?_, rfl, .of_same rfl rfl rfl⟩⟩
    rw [running]
    decide
  · simp only [if_neg running]
    exact ⟨t, fits⟩

theorem destroy (h : r.Kept s) : r.Kept (s.destroy r.timer) := by
  obtain ⟨t, fits⟩ := h
  rw [Scheduler.destroy, fits.found]
  by_cases gone : t.phase = .destroyed
  · simp only [if_pos gone]
    exact ⟨t, fits⟩
  · simp only [if_neg gone]
    exact ⟨t.ended, fits.silence (fits.found_update _ _) rfl rfl rfl fun alive => absurd rfl alive⟩

theorem cancelAlarm (h : r.Kept s) : r.Kept (s.updateTimer r.timer Timer.cancelAlarm) := by
  obtain ⟨t, fits⟩ := h
  exact ⟨t.cancelAlarm, fits.silence (fits.found_update s.store _) rfl rfl rfl fun going =>
    ⟨going, rfl, .of_same rfl rfl rfl⟩⟩

theorem arm (h : r.Kept s) {next : Instant} (later : s.now < next)
    (stored : s.store.status ≠ .deleted → s.store.settings.nextExecution = some next) :
    r.Kept (s.arm r.timer (next.since s.now)) := by
  obtain ⟨t, fits⟩ := h
  exact fits.toHolds.arm later stored

theorem ring (h : r.Kept s) : r.Kept (s.ring r.timer).1 := by
  obtain ⟨t, fits⟩ := h
  have rung : r.Kept (s.updateTimer r.timer fun u => { u with alarm := (t.alarm.fire s.now).1 }) := by
    refine ⟨{ t with alarm := (t.alarm.fire s.now).1 }, ?_⟩
    have found := fits.found_update s.store fun u => { u with alarm := (t.alarm.fire s.now).1 }
    by_cases destroyed : t.alarm.destroyed = true
    · exact fits.carry found rfl rfl rfl (by simp [ManualAlarm.fire, destroyed]) (.of_same rfl rfl rfl)
    · refine fits.silence found rfl ?_ ?_ fun going => ⟨going, rfl, .of_same rfl rfl rfl⟩ <;>
        simp [ManualAlarm.fire, destroyed]
  rw [Scheduler.ring, fits.found]
  dsimp only
  split
  · exact rung.enqueue .fire
  · exact rung

/-- The new execution time is stored first, and then the alarm is armed for it. In between the two disagree. -/
theorem schedule (h : r.Kept s) {next : Instant} (later : s.now < next)
    (success : s.write ((s.timer? r.timer).bind Timer.lease) .nextExecution (some (.instant next)) = .ok u) :
    r.Kept (u.arm r.timer (next.since s.now)) := by
  obtain ⟨t, fits⟩ := h
  obtain ⟨written, put, rfl⟩ := Scheduler.write_eq_ok success
  obtain ⟨status, leases, value⟩ := Store.write_eq_ok put
  obtain ⟨queue, there⟩ := Scheduler.timer?_commit written fits.found
  have held : r.Holds (s.commit written) { t with queue := queue } := by
    refine ⟨there, (s.commit_now written).trans fits.clock, fits.counted, ?_, fits.idle⟩
    rw [Scheduler.commit_store, status, Store.leaseOf?, leases]
    exact fits.leased
  have next_stored : (s.commit written).store.settings.nextExecution = some next := by
    rw [Scheduler.commit_store]
    exact Option.map_injective (fun _ _ same => FieldValue.instant.inj same) value
  have same := s.commit_now written
  rw [← same] at later ⊢
  exact held.arm later fun _ => next_stored

theorem duty (h : r.Kept s) (done : Scheduler.Duty r.timer s u) : r.Kept u := by
  cases done with
  | note _ _ => exact h.congr rfl rfl rfl
  | seed _ written =>
    obtain ⟨next, put, rfl⟩ := Scheduler.write_eq_ok written
    exact h.commit ((Store.does_write put).guards trivial)
  | stop => exact h.stop
  | destroy => exact h.destroy
  | cancelAlarm => exact h.cancelAlarm
  | arm later stored => exact h.arm later fun _ => stored
  | schedule later written => exact h.schedule later written

theorem chore (h : r.Kept s) (done : Scheduler.Chore r.timer s u) : r.Kept u := by
  cases done with
  | duty done => exact h.duty done
  | note entry => exact h.congr rfl rfl rfl
  | outage call cause => exact h.congr rfl rfl rfl
  | edit allowed performed => exact h.commit ((Store.does_of_perform performed).guards allowed)
  | update phase lease alarm => exact h.updateTimer phase lease alarm
  | resume => exact h.resume
  | ring => exact h.ring

theorem chores (h : r.Kept s) (done : Scheduler.Chores r.timer s u) : r.Kept u := by
  induction done with
  | refl => exact h
  | tail _ last ih => exact ih.chore last

end Kept

end Record

namespace Scheduler

/-- What a run leads to, with what the clock read when the alarm was armed the last time. -/
def follow [Host] (id : Nat) : Scheduler → Option Instant → List Move → Scheduler × Option Instant
  | s, reading, [] => (s, reading)
  | s, reading, m :: rest =>
    let next := s.move id m
    follow id next (if next.armings id = s.armings id then reading else some s.now) rest

end Scheduler

namespace Record

def before (s : Scheduler) (id : Nat) (lease : Lease) (reading : Option Instant) : Record :=
  ⟨id, lease, s.now, s.armings id, reading⟩

namespace Kept

variable {r : Record} {s : Scheduler} {id : Nat} {lease : Lease} {reading : Option Instant}

theorem armings (h : r.Kept s) : ∃ t, r.Fits s t ∧ s.armings r.timer = t.alarm.armCount := by
  obtain ⟨t, fits⟩ := h
  refine ⟨t, fits, ?_⟩
  rw [Scheduler.armings, fits.found]
  rfl

theorem again (h : r.Kept s) :
    (before s r.timer r.lease (if s.armings r.timer = r.armings then r.reading else some r.now)).Kept s := by
  obtain ⟨t, fits, count⟩ := h.armings
  refine ⟨t, ⟨fits.found, rfl, Nat.le_of_eq count, fits.leased, fits.idle⟩, fun delay armed => ?_⟩
  obtain ⟨reading, next, read, rest⟩ := fits.agreed delay armed
  refine ⟨reading, next, ?_, rest⟩
  rw [readingOf, before, if_pos count.symm, count]
  exact read

theorem setClock (h : (before s id lease reading).Kept s) (now : Instant) :
    (before (s.setClock now) id lease reading).Kept (s.setClock now) := by
  obtain ⟨t, fits, count⟩ := h.armings
  refine ⟨t, ⟨fits.found, rfl, fits.counted, fits.leased, fits.idle⟩, fun delay armed => ?_⟩
  obtain ⟨reading', next, read, rest⟩ := fits.agreed delay armed
  refine ⟨reading', next, ?_, rest⟩
  have now_or_before : (before s id lease reading).readingOf t.alarm = reading := if_pos count.symm
  exact (if_pos count.symm).trans (now_or_before.symm.trans read)

theorem move [Host] (h : (before s id lease reading).Kept s) (m : Move) :
    (before (s.move id m) id lease (if (s.move id m).armings id = s.armings id then reading else some s.now)).Kept
      (s.move id m) := by
  obtain ⟨now, rfl⟩ | done := s.move_chores id m
  · have same : (s.move id (.act (.setClock now))).armings id = s.armings id := rfl
    rw [if_pos same]
    exact h.setClock now
  · exact (h.chores done).again

theorem follow [Host] (h : (before s id lease reading).Kept s) (moves : List Move) :
    (before (s.follow id reading moves).1 id lease (s.follow id reading moves).2).Kept
      (s.follow id reading moves).1 := by
  induction moves generalizing s reading with
  | nil => exact h
  | cons m rest ih => exact ih (h.move m)

end Kept

end Record

namespace Scheduler

open Calendar

variable {s t u : Scheduler} {id : Nat} {lease : Lease} {reading : Option Instant}

theorem leaseOf?_of_seed [Host] {period : Period} {start : Option Instant}
    (held : s.store.status ≠ .deleted → s.store.leaseOf? .nextExecution = some lease)
    (h : s.seed lease period start = (t, .ok ())) (present : t.store.status ≠ .deleted) :
    t.store.leaseOf? .nextExecution = some lease := by
  obtain ⟨cleared, first, filled, written, _, batch, turned⟩ := seed_eq_ok h
  obtain ⟨clearing, put, rfl⟩ := write_eq_ok written
  obtain ⟨filling, put_all, rfl⟩ := writeBatch_eq_ok batch
  obtain ⟨turning, set, rfl⟩ := activate_eq_ok turned
  rw [commit_store] at put_all set present ⊢
  obtain ⟨status, leases, _⟩ := Store.write_eq_ok put
  have cleared_held : clearing.1.status ≠ .deleted → clearing.1.leaseOf? .nextExecution = some lease := by
    rw [status, Store.leaseOf?, leases]
    exact held
  exact (Store.Does.guards (Store.does_activate set) trivial).leaseOf?
    ((Store.Does.guards (Store.does_writeBatch put_all) trivial).leaseOf? cleared_held) present

theorem kept_attachWith (held : s.store.status ≠ .deleted → s.store.leaseOf? .nextExecution = some lease)
    (h : s.attachWith lease = (t, id)) : (Record.before t id lease none).Kept t := by
  cases h
  have found : (s.attachWith lease).1.timer? s.timers.length =
      some (Timer.new lease (s.store.subscribe [] ⟨s.timers.length, .lifecycle⟩).2) := by
    simp [attachWith, timer?]
  have never : (s.attachWith lease).1.armings s.timers.length = 0 := by
    rw [armings, found]
    rfl
  refine ⟨_, ⟨found, rfl, Nat.le_of_eq never, fun _ => ⟨rfl, held⟩, fun _ => rfl⟩, fun delay armed => ?_⟩
  cases armed

theorem kept_attach (h : s.attach = .ok (t, id)) : ∃ lease, (Record.before t id lease none).Kept t := by
  simp only [attach, bind, Except.bind] at h
  split at h
  · cases h
  · rename_i claimed reserved
    obtain ⟨claimed, lease⟩ := claimed
    exact ⟨lease, kept_attachWith (fun _ => leaseOf?_of_reserve reserved) (Except.ok.inj h)⟩

theorem kept_create [Host] {period : Period} {start : Option Instant} (h : s.create period start = (t, .ok id)) :
    ∃ lease, (Record.before t id lease none).Kept t := by
  rw [create] at h
  split at h
  · cases h
  · split at h
    · cases h
    · rename_i claimed lease reserved
      split at h
      · cases h
      · cases h
      · rename_i seeded filled
        have held := leaseOf?_of_seed (fun _ => leaseOf?_of_reserve reserved) filled
        obtain ⟨rfl, same⟩ := Prod.mk.inj h
        exact ⟨lease, kept_attachWith held (Prod.ext rfl (Except.ok.inj same))⟩

/-- An armed alarm belongs to a running timer, and was armed for the time that was left until some moment, at least
zero. Where neither end of that time lies in a leap second, the time was positive, and led to the moment. As long as
the configuration is not deleted, the timer has the lease on the next execution time, and that moment is stored there.
-/
theorem armed_agrees [Host] {moves : List Move}
    (started : s.attach = .ok (t, id) ∨ ∃ period start, s.create period start = (t, .ok id))
    (run : t.follow id none moves = (u, reading)) :
    ∃ timer, u.timer? id = some timer ∧ ∀ delay, timer.alarm.armed = some delay →
      timer.phase = .running ∧ ∃ now next, reading = some now ∧ now < next ∧
        delay = (next.since now).atLeastZero ∧
        (now.leap = false → next.leap = false → 0 < delay.nanos ∧ now.add? delay = some next) ∧
        (u.store.status ≠ .deleted → ∃ lease, timer.lease = some lease ∧
          u.store.leaseOf? .nextExecution = some lease ∧ u.store.settings.nextExecution = some next) := by
  obtain ⟨lease, kept⟩ : ∃ lease, (Record.before t id lease none).Kept t := by
    obtain attached | ⟨period, start, created⟩ := started
    · exact kept_attach attached
    · exact kept_create created
  obtain ⟨timer, fits, count⟩ := (kept.follow moves).armings
  rw [run] at fits count
  refine ⟨timer, fits.found, fun delay armed => ?_⟩
  have running := fits.running armed
  obtain ⟨given, held⟩ := fits.leased (by rw [running]; decide)
  obtain ⟨now, next, read, later, length, stored⟩ := fits.agreed delay armed
  have last : reading = some now := (if_pos count.symm).symm.trans read
  refine ⟨running, now, next, last, later, length, ?_, fun present => ⟨lease, given, held present, stored present⟩⟩
  intro ordinary ordinary'
  exact Instant.since_of_lt ordinary ordinary' later length

theorem half_hour_agrees :
    (periodic ⟨1, .clock .hours⟩).attach = .ok (periodicTimer ⟨1, .clock .hours⟩, 0) ∧ ∃ u reading timer delay,
      (periodicTimer ⟨1, .clock .hours⟩).follow 0 none
        [.act .resume, .act .work, .act (.setClock (newYear 30)), .act .ring, .act .work] = (u, reading) ∧
      u.timer? 0 = some timer ∧ timer.alarm.armed = some delay ∧ timer.phase = .running ∧
      ∃ now next, reading = some now ∧ now < next ∧ delay = (next.since now).atLeastZero ∧
        (now.leap = false → next.leap = false → 0 < delay.nanos ∧ now.add? delay = some next) ∧
        (u.store.status ≠ .deleted → ∃ lease, timer.lease = some lease ∧
          u.store.leaseOf? .nextExecution = some lease ∧ u.store.settings.nextExecution = some next) := by
  have armed : (((periodicTimer ⟨1, .clock .hours⟩).follow 0 none
      [.act .resume, .act .work, .act (.setClock (newYear 30)), .act .ring, .act .work]).1.timer? 0).bind
      (fun timer => timer.alarm.armed) = some ⟨1800000000000, by decide⟩ := by decide +kernel
  obtain ⟨timer, found, agreed⟩ := armed_agrees (.inl (attach_periodic ⟨1, .clock .hours⟩)) (Prod.eta _).symm
  rw [found, Option.bind_some] at armed
  exact ⟨attach_periodic _, _, _, timer, _, (Prod.eta _).symm, found, armed, agreed _ armed⟩

def beforeNewYear2017 : Scheduler :=
  .new (.new ⟨some ⟨1, .calendar .days⟩, some (Amount.newYear2017 0), none, some .utc, none⟩ .active)
    (Amount.lastMinuteOf2016 59000 true)

/-- For the distance between two moments a leap second coincides with the second after it: the alarm is armed for no
time at all, although the execution time is still ahead. -/
theorem leap_second_armed_for_no_time :
    ∃ t, beforeNewYear2017.attach = .ok (t, 0) ∧
      (t.follow 0 none [.act .resume, .act .work]).2 = some (Amount.lastMinuteOf2016 59000 true) ∧
      ((t.follow 0 none [.act .resume, .act .work]).1.timer? 0).bind (fun timer => timer.alarm.armed) =
        some Duration.zero ∧
      (t.follow 0 none [.act .resume, .act .work]).1.store.status ≠ .deleted ∧
      (t.follow 0 none [.act .resume, .act .work]).1.store.settings.nextExecution = some (Amount.newYear2017 0) ∧
      Amount.lastMinuteOf2016 59000 true < Amount.newYear2017 0 ∧ ¬ 0 < Duration.zero.nanos ∧
      (Amount.lastMinuteOf2016 59000 true).add? Duration.zero ≠ some (Amount.newYear2017 0) :=
  ⟨_, rfl, by decide +kernel⟩

end Scheduler

end Cadence
