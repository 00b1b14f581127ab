import Cadence.Alarm.Manual

/-!
An alarm with a deadline on a clock that only moves forward, counted in nanoseconds. Whoever watches the alarm looks
at it from time to time (`pass`), and it rings when the deadline has come. The clock that firings are stamped with is
another one.
-/

namespace Cadence

structure DeadlineAlarm (κ : Type) where
  deadline : Option Int
  callback : Option κ
  lastFired : Option Instant
  shutdown : Bool

namespace DeadlineAlarm

variable {κ : Type}

def new : DeadlineAlarm κ := ⟨none, none, none, false⟩

def arm (a : DeadlineAlarm κ) (tick : Int) (delay : Duration) : Except Error (DeadlineAlarm κ) :=
  if a.shutdown then .error .useAfterDestroy
  else .ok { a with deadline := some (tick + delay.atLeastZero.nanos) }

def isArmed (a : DeadlineAlarm κ) : Bool := a.deadline.isSome

def cancel (a : DeadlineAlarm κ) : DeadlineAlarm κ := { a with deadline := none }

def destroy (a : DeadlineAlarm κ) : DeadlineAlarm κ :=
  if a.shutdown then a else { a with shutdown := true, deadline := none, callback := none }

def onFire (a : DeadlineAlarm κ) (callback : κ) : DeadlineAlarm κ :=
  if a.shutdown then a else { a with callback := some callback }

/-- Rings if the deadline has come, and gives the callback that is to be called. -/
def fire (a : DeadlineAlarm κ) (tick : Int) (now : Instant) : DeadlineAlarm κ × Option κ :=
  match a.deadline with
  | none => (a, none)
  | some deadline =>
    if a.shutdown ∨ tick < deadline then (a, none)
    else ({ a with deadline := none, lastFired := some now }, a.callback)

def react (a : DeadlineAlarm Callback) (tick : Int) : AlarmReaction → DeadlineAlarm Callback
  | .record => a
  | .panic => a
  | .destroy => a.destroy
  | .rearm delay =>
    match a.arm tick delay with
    | .ok armed => armed
    | .error _ => a

/-- One look at the alarm. -/
def pass (a : DeadlineAlarm Callback) (tick : Int) (now : Instant) : DeadlineAlarm Callback × Option Callback :=
  match a.fire tick now with
  | (rung, none) => (rung, none)
  | (rung, some called) => (rung.react tick called.reaction, some called)

end DeadlineAlarm

end Cadence
