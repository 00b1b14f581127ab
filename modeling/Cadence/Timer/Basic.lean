import Cadence.Alarm.Manual
import Cadence.Store.Basic

/-!
A periodic timer. It owns an alarm, the lease on the next execution time, up to two subscriptions, the listeners it
calls when it fires, and a queue of work. Alarm and store only put work into the queue; `Timer.route` says which event
becomes which work. A destroyed timer takes no more work.
-/

namespace Cadence

inductive Phase
  | stopped | running | destroyed
deriving DecidableEq

inductive Work
  /-- Computes the schedule anew, from the start time if it is to be anchored again. -/
  | recompute (reanchor : Bool)
  | fire
  | lifecycle (event : Lifecycle)
deriving DecidableEq

inductive Channel
  | values | lifecycle
deriving DecidableEq

structure Watch where
  timer : Nat
  channel : Channel
deriving DecidableEq

inductive FireReaction
  | record
  | panic
  | stop
  | restart
  | destroy
  | waitIdle
  | delete
  | deactivate
  | write (field : Field) (value : Option FieldValue)
deriving DecidableEq

structure FireListener where
  id : Nat
  name : String
  reaction : FireReaction
deriving DecidableEq

structure Timer where
  phase : Phase
  lease : Option Lease
  valueSubscription : Option Nat
  lifecycleSubscription : Option Nat
  listeners : List FireListener
  nextListener : Nat
  queue : List Work
  alarm : ManualAlarm Unit

namespace Timer

def new (lease : Lease) (lifecycleSubscription : Nat) : Timer where
  phase := .stopped
  lease := some lease
  valueSubscription := none
  lifecycleSubscription := some lifecycleSubscription
  listeners := []
  nextListener := 1
  queue := []
  alarm := ManualAlarm.new.onFire ()

def watchedFields : List Field := [.period, .startTime, .endTime, .timezone]

/-- Edits of the period and the start time anchor the schedule again, other edits do not. Each channel lets only its own
kind of events through. -/
def route : Channel → Change → Option Work
  | .values, .value .period => some (.recompute true)
  | .values, .value .startTime => some (.recompute true)
  | .values, .value _ => some (.recompute false)
  | .lifecycle, .lifecycle event => some (.lifecycle event)
  | _, _ => none

def enqueue (work : Work) (t : Timer) : Timer :=
  if t.phase = .destroyed then t else { t with queue := t.queue ++ [work] }

def cancelAlarm (t : Timer) : Timer := { t with alarm := t.alarm.cancel }

def armAlarm (delay : Duration) (t : Timer) : Timer :=
  if t.phase = .running then
    match t.alarm.arm delay with
    | .ok alarm => { t with alarm := alarm }
    | .error _ => t
  else t

def addListener (name : String) (reaction : FireReaction) (t : Timer) : Timer :=
  { t with listeners := t.listeners ++ [⟨t.nextListener, name, reaction⟩], nextListener := t.nextListener + 1 }

def hasListener (id : Nat) (t : Timer) : Bool := t.listeners.any fun l => l.id == id

def removeListener (id : Nat) (t : Timer) : Timer :=
  { t with listeners := t.listeners.filter fun l => l.id != id }

/-- The delay of a timer's alarm follows from its configuration and cannot be set. -/
def setInterval (_ : Timer) (_ : Duration) : Except Error Unit :=
  .error (.unsupported "set_timing_interval on a periodic timer alarm")

def ended (t : Timer) : Timer :=
  { t with
    phase := .destroyed, lease := none, valueSubscription := none, lifecycleSubscription := none, listeners := [],
    queue := [], alarm := t.alarm.destroy }

theorem enqueue_of_destroyed {t : Timer} (h : t.phase = .destroyed) (work : Work) : t.enqueue work = t := by
  simp [enqueue, h]

theorem enqueue_phase (t : Timer) (work : Work) : (t.enqueue work).phase = t.phase := by
  rw [enqueue]
  split <;> rfl

theorem enqueue_lease (t : Timer) (work : Work) : (t.enqueue work).lease = t.lease := by
  rw [enqueue]
  split <;> rfl

end Timer

end Cadence
