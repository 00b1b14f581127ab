import Cadence.Schedule.Align
import Cadence.Timer.Scheduler

/-!
The life of a timer. A timer is made stopped, and to be made it must reserve the next execution time, so that a
configuration has one timer at a time. `create` also fills in the configuration. A stopped timer can be resumed, a
running one stopped; destroying it gives back all it holds, and cannot be undone.
-/

namespace Cadence.Scheduler

def resume (id : Nat) (s : Scheduler) : Scheduler :=
  match s.timer? id with
  | none => s
  | some t =>
    if t.phase = .stopped then
      let (store, subscription) := s.store.subscribe Timer.watchedFields ⟨id, .values⟩
      { s with store := store }.updateTimer id fun t =>
        { t with phase := .running, valueSubscription := some subscription }.enqueue (.recompute false)
    else s

def unsubscribeAll (store : Store Watch) (ids : List (Option Nat)) : Store Watch :=
  ids.foldl (fun store id => (id.map store.unsubscribe).getD store) store

theorem unsubscribeAll_eq (store : Store Watch) (ids : List (Option Nat)) :
    ∃ subscriptions, unsubscribeAll store ids = { store with subscriptions := subscriptions } := by
  induction ids generalizing store with
  | nil => exact ⟨store.subscriptions, rfl⟩
  | cons id ids ih =>
    cases id with
    | none => exact ih store
    | some id =>
      obtain ⟨subscriptions, rest⟩ := ih (store.unsubscribe id)
      exact ⟨subscriptions, rest⟩

def stop (id : Nat) (s : Scheduler) : Scheduler :=
  match s.timer? id with
  | none => s
  | some t =>
    if t.phase = .running then
      { s with store := unsubscribeAll s.store [t.valueSubscription] }.updateTimer id fun t =>
        { t with phase := .stopped, valueSubscription := none }.cancelAlarm
    else s

def destroy (id : Nat) (s : Scheduler) : Scheduler :=
  match s.timer? id with
  | none => s
  | some t =>
    if t.phase = .destroyed then s
    else
      let store := unsubscribeAll s.store [t.valueSubscription, t.lifecycleSubscription]
      let store := (t.lease.map store.release).getD store
      { s with store := store }.updateTimer id Timer.ended

def attachWith (s : Scheduler) (lease : Lease) : Scheduler × Nat :=
  let id := s.timers.length
  let (store, subscription) := s.store.subscribe [] ⟨id, .lifecycle⟩
  ({ s with store := store, timers := s.timers ++ [Timer.new lease subscription] }, id)

def attach (s : Scheduler) : Except Error (Scheduler × Nat) := do
  let (s, lease) ← s.reserve .nextExecution
  .ok (s.attachWith lease)

/-- The given start, or else the next boundary that the period has in the zone of the configuration. -/
def startOf [Host] (s : Scheduler) (period : Period) : Option Instant → Except Error Instant
  | some start => .ok start
  | none => do
    let snapshot ← s.snapshot [.timezone]
    period.alignedStart snapshot.settings.zone .next s.now

private def onSuccess (s : Scheduler) (result : Except Error Scheduler)
    (next : Scheduler → Scheduler × Except Error Unit) : Scheduler × Except Error Unit :=
  match result with
  | .ok s => next s
  | .error e => (s, .error e)

/-- Fills in period and start time and activates the configuration. An old next execution time is cleared first. -/
def seed [Host] (s : Scheduler) (lease : Lease) (period : Period) (start : Option Instant) :
    Scheduler × Except Error Unit :=
  onSuccess s (s.write (some lease) .nextExecution none) fun s =>
    match s.startOf period start with
    | .error e => (s, .error e)
    | .ok start =>
      let entries :=
        [(Field.period, some (FieldValue.period period)), (Field.startTime, some (FieldValue.instant start))]
      onSuccess s (s.writeBatch entries) fun s =>
        onSuccess s s.activate fun s => (s, .ok ())

private theorem onSuccess_eq_ok {s t : Scheduler} {result : Except Error Scheduler}
    {next : Scheduler → Scheduler × Except Error Unit} (h : onSuccess s result next = (t, .ok ())) :
    ∃ u, result = .ok u ∧ next u = (t, .ok ()) := by
  cases result with
  | error e => simp [onSuccess] at h
  | ok u => exact ⟨u, rfl, h⟩

theorem seed_eq_ok [Host] {s t : Scheduler} {lease : Lease} {period : Period} {start : Option Instant}
    (h : s.seed lease period start = (t, .ok ())) :
    ∃ cleared first filled, s.write (some lease) .nextExecution none = .ok cleared ∧
      cleared.startOf period start = .ok first ∧
      cleared.writeBatch [(.period, some (.period period)), (.startTime, some (.instant first))] = .ok filled ∧
      filled.activate = .ok t := by
  obtain ⟨cleared, written, rest⟩ := onSuccess_eq_ok h
  split at rest
  · simp at rest
  · rename_i first found
    obtain ⟨filled, batch, rest⟩ := onSuccess_eq_ok rest
    obtain ⟨active, turned, rest⟩ := onSuccess_eq_ok rest
    cases rest
    exact ⟨cleared, first, filled, written, found, batch, turned⟩

private theorem onSuccess_eq_error {s t : Scheduler} {e : Error} {result : Except Error Scheduler}
    {next : Scheduler → Scheduler × Except Error Unit} (h : onSuccess s result next = (t, .error e)) :
    (t = s ∧ result = .error e) ∨ ∃ u, result = .ok u ∧ next u = (t, .error e) := by
  cases result with
  | error f =>
    cases h
    exact .inl ⟨rfl, rfl⟩
  | ok u => exact .inr ⟨u, rfl, h⟩

theorem seed_eq_error [Host] {s t : Scheduler} {lease : Lease} {period : Period} {start : Option Instant} {e : Error}
    (h : s.seed lease period start = (t, .error e)) :
    (t = s ∧ s.write (some lease) .nextExecution none = .error e) ∨
      ∃ cleared, s.write (some lease) .nextExecution none = .ok cleared ∧
        ((t = cleared ∧ cleared.startOf period start = .error e) ∨
          ∃ first, cleared.startOf period start = .ok first ∧
            ((t = cleared ∧
                cleared.writeBatch [(.period, some (.period period)), (.startTime, some (.instant first))] = .error e) ∨
              cleared.writeBatch [(.period, some (.period period)), (.startTime, some (.instant first))] = .ok t ∧
                t.activate = .error e)) := by
  obtain ⟨rfl, failed⟩ | ⟨cleared, written, rest⟩ := onSuccess_eq_error h
  · exact .inl ⟨rfl, failed⟩
  refine .inr ⟨cleared, written, ?_⟩
  split at rest
  · rename_i f found
    cases rest
    exact .inl ⟨rfl, found⟩
  · rename_i first found
    refine .inr ⟨first, found, ?_⟩
    obtain ⟨rfl, failed⟩ | ⟨filled, batch, rest⟩ := onSuccess_eq_error rest
    · exact .inl ⟨rfl, failed⟩
    · obtain ⟨rfl, failed⟩ | ⟨active, turned, rest⟩ := onSuccess_eq_error rest
      · exact .inr ⟨batch, failed⟩
      · cases rest

theorem seed_keeps [Host] {P : Scheduler → Prop} {s : Scheduler} {lease : Lease} (period : Period)
    (start : Option Instant) (write : ∀ {s t v}, P s → s.write (some lease) .nextExecution v = .ok t → P t)
    (writeBatch : ∀ {s t entries}, P s → s.writeBatch entries = .ok t → P t)
    (activate : ∀ {s t}, P s → s.activate = .ok t → P t) (h : P s) : P (s.seed lease period start).1 := by
  have goesOn : ∀ {s result next}, P s → (∀ t, result = .ok t → P t) → (∀ t, P t → P (next t).1) →
      P (onSuccess s result next).1 := by
    intro s result next h keep rest
    cases result with
    | error e => exact h
    | ok t => exact rest t (keep t rfl)
  refine goesOn h (fun _ => write h) fun s h => ?_
  split
  · exact h
  · exact goesOn h (fun _ => writeBatch h) fun s h => goesOn h (fun _ => activate h) fun _ h => h

/-- Fills in the configuration and adds a timer to it. A failure gives the lease back, but what was written before it
stays written. A local time off the calendar ends the whole call, and the lease remains. -/
def create [Host] (s : Scheduler) (period : Period) (start : Option Instant) : Scheduler × Except Error Nat :=
  match period.amount with
  | .error e => (s, .error e)
  | .ok _ =>
    match s.reserve .nextExecution with
    | .error e => (s, .error e)
    | .ok (claimed, lease) =>
      match claimed.seed lease period start with
      | (s, .error .offCalendar) => (s, .error .offCalendar)
      | (s, .error e) => (s.release lease, .error e)
      | (s, .ok ()) =>
        let (s, id) := s.attachWith lease
        (s, .ok id)

def checkAlive (s : Scheduler) (id : Nat) : Except Error Unit :=
  match s.timer? id with
  | none => .error .useAfterDestroy
  | some t => if t.phase = .destroyed then .error .useAfterDestroy else .ok ()

def period (s : Scheduler) (id : Nat) : Except Error (Option Amount) := do
  s.checkAlive id
  let snapshot ← s.snapshot [.period]
  match snapshot.settings.period with
  | none => .ok none
  | some p => p.amount.map some

def endTime (s : Scheduler) (id : Nat) : Except Error (Option Instant) := do
  s.checkAlive id
  let snapshot ← s.snapshot [.endTime]
  .ok snapshot.settings.endTime

def nextExecution (s : Scheduler) (id : Nat) : Except Error (Option Instant) := do
  s.checkAlive id
  let snapshot ← s.snapshot [.nextExecution]
  .ok snapshot.settings.nextExecution

def setEndTime (s : Scheduler) (id : Nat) (finish : Option Instant) : Except Error Scheduler := do
  s.checkAlive id
  s.write none .endTime (finish.map .instant)

end Cadence.Scheduler
