import Cadence.Timer.Recompute

/-!
What happens when the alarm has gone off. An alarm that is early is armed again for the rest of the time, and nobody
hears of it. Otherwise the listeners are called one after the other with the scheduled time, and the schedule is
recomputed. Those are called that were there at the beginning, whatever the first of them do; what a listener breaks is
its own affair.
-/

namespace Cadence.Scheduler

def ignoreFailure (s : Scheduler) : Except Error Scheduler → Scheduler
  | .ok next => next
  | .error _ => s

/-- Acts as a listener of a timer does. Waiting for the queue to be empty is no wait inside the handling of its work. -/
def reactToFire (id : Nat) (s : Scheduler) : FireReaction → Scheduler
  | .record => s
  | .panic => s
  | .waitIdle => s
  | .stop => s.stop id
  | .restart => (s.stop id).resume id
  | .destroy => s.destroy id
  | .delete => s.delete
  | .deactivate => s.ignoreFailure s.deactivate
  | .write f v => s.ignoreFailure (s.write none f v)

def call (id : Nat) (scheduled : Instant) (s : Scheduler) (l : FireListener) : Scheduler :=
  let noted : Scheduler := { s with journal := s.journal ++ [⟨id, l.name, scheduled⟩] }
  noted.reactToFire id l.reaction

def notify (id : Nat) (scheduled : Instant) (s : Scheduler) : Scheduler :=
  match s.timer? id with
  | none => s
  | some t => t.listeners.foldl (call id scheduled) s

def fireFrom [Host] (id : Nat) (settings : Settings) (s : Scheduler) : Scheduler :=
  match settings.nextExecution.filter fun next => s.now < next with
  | some next => s.arm id (next.since s.now)
  | none =>
    if settings.hasEnded s.now then s.destroy id
    else if settings.amount?.isNone then s.updateTimer id Timer.cancelAlarm
    else (s.notify id (settings.nextExecution.getD s.now)).recompute id false

def fire [Host] (id : Nat) (s : Scheduler) : Scheduler :=
  match s.timer? id with
  | none => s
  | some t =>
    if t.phase = .running then
      match s.snapshot Field.all with
      | .error _ => s
      | .ok snapshot => if snapshot.active then s.fireFrom id snapshot.settings else s
    else s

def ring (id : Nat) (s : Scheduler) : Scheduler × Bool :=
  match s.timer? id with
  | none => (s, false)
  | some t =>
    let (alarm, callback) := t.alarm.fire s.now
    let rung := s.updateTimer id fun t => { t with alarm := alarm }
    if callback.isSome then (rung.updateTimer id (Timer.enqueue .fire), true) else (rung, false)

end Cadence.Scheduler
