import Cadence.Error

/-!
An alarm that rings when it is told to. It remembers the delay that it was armed with, but nothing makes it ring by
itself, and it rings also when it is not armed. Ringing ends the arming before the callback acts, so that the callback
may arm it again. A destroyed alarm stays silent.
-/

namespace Cadence

/-- What a callback does after it was called. -/
inductive AlarmReaction
  | record
  | panic
  | destroy
  | rearm (delay : Duration)
deriving DecidableEq

structure Callback where
  name : String
  reaction : AlarmReaction
deriving DecidableEq

structure ManualAlarm (κ : Type) where
  armed : Option Duration
  armCount : Nat
  callback : Option κ
  lastFired : Option Instant
  destroyed : Bool

namespace ManualAlarm

variable {κ : Type}

def new : ManualAlarm κ := ⟨none, 0, none, none, false⟩

def arm (a : ManualAlarm κ) (delay : Duration) : Except Error (ManualAlarm κ) :=
  if a.destroyed then .error .useAfterDestroy
  else .ok { a with armed := some delay.atLeastZero, armCount := a.armCount + 1 }

def cancel (a : ManualAlarm κ) : ManualAlarm κ := { a with armed := none }

def destroy (a : ManualAlarm κ) : ManualAlarm κ := { a with destroyed := true, armed := none, callback := none }

def onFire (a : ManualAlarm κ) (callback : κ) : ManualAlarm κ := { a with callback := some callback }

def fire (a : ManualAlarm κ) (now : Instant) : ManualAlarm κ × Option κ :=
  if a.destroyed then (a, none) else ({ a with armed := none, lastFired := some now }, a.callback)

def react (a : ManualAlarm Callback) : AlarmReaction → ManualAlarm Callback
  | .record => a
  | .panic => a
  | .destroy => a.destroy
  | .rearm delay =>
    match a.arm delay with
    | .ok armed => armed
    | .error _ => a

def ring (a : ManualAlarm Callback) (now : Instant) : ManualAlarm Callback × Option Callback :=
  match a.fire now with
  | (rung, none) => (rung, none)
  | (rung, some called) => (rung.react called.reaction, some called)

theorem fire_destroyed {a : ManualAlarm κ} (h : a.destroyed = true) (now : Instant) : a.fire now = (a, none) := by
  simp [fire, h]

end ManualAlarm

end Cadence
