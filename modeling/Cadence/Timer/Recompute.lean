import Cadence.Schedule.CatchUp
import Cadence.Timer.Life

/-!
The schedule of a running timer. To recompute it is to read the configuration, to find the first occurrence after now,
to store that as the next execution time, and to arm the alarm for it. Whatever fails on the way ends the attempt: a
later edit or firing tries again. A configuration that has ended destroys the timer, and one without a usable period
leaves it running with no alarm.
-/

namespace Cadence

def Settings.hasEnded (s : Settings) (now : Instant) : Bool := s.endTime.any fun finish => finish ≤ now

def Settings.amount? (s : Settings) : Option Amount := s.period.bind fun p => p.amount.toOption

namespace Scheduler

def arm (id : Nat) (delay : Duration) (s : Scheduler) : Scheduler := s.updateTimer id (Timer.armAlarm delay)

/-- The occurrence that the schedule goes on from. Where nothing is stored to go on from, the schedule starts now, and
that is stored. -/
def base (s : Scheduler) (reanchor : Bool) (settings : Settings) : Except Error (Scheduler × Instant) :=
  match reanchor, settings.nextExecution, settings.startTime with
  | false, some next, _ => .ok (s, next)
  | _, _, some start => .ok (s, start)
  | _, _, none => do
    let seeded ← s.write none .startTime (some (.instant s.now))
    .ok (seeded, s.now)

/-- Goes on from a base: catches up, stores the next execution time under the lease, and arms the alarm. -/
def schedule [Host] (id : Nat) (amount : Amount) (zone : Zone) (base : Instant) (s : Scheduler) : Scheduler :=
  match amount.advancePast zone base s.now with
  | .error _ => s
  | .ok next =>
    match s.write ((s.timer? id).bind Timer.lease) .nextExecution (some (.instant next)) with
    | .error _ => s
    | .ok stored => stored.arm id (next.since s.now)

def recomputeFrom [Host] (id : Nat) (reanchor : Bool) (settings : Settings) (s : Scheduler) : Scheduler :=
  if settings.hasEnded s.now then s.destroy id
  else match settings.amount? with
    | none => s.updateTimer id Timer.cancelAlarm
    | some amount =>
      match s.base reanchor settings with
      | .error _ => s
      | .ok (s, base) => s.schedule id amount settings.zone base

def recompute [Host] (id : Nat) (reanchor : Bool) (s : Scheduler) : Scheduler :=
  match s.timer? id with
  | none => s
  | some t =>
    if t.phase = .running then
      match s.snapshot Field.all with
      | .error _ => s
      | .ok snapshot => if snapshot.active then s.recomputeFrom id reanchor snapshot.settings else s
    else s

end Scheduler

end Cadence
