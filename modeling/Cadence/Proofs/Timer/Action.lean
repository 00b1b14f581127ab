import Cadence.Timer.Run

/-!
Runs of one timer. An `Action` is what its owner, the other parties of its store, the clock, its alarm or its worker may
do next; a run is a list of actions. The listeners that are added only record. `Situation` is what the rest of a run
depends on, as far as that timer is concerned, and `Along` says that a condition holds of each action of a run in the
situation in which it is taken.
-/

namespace Cadence

inductive Action
  | resume
  | stop
  | destroy
  | listen (name : String)
  | unlisten (listener : Nat)
  | setEndTime (finish : Option Instant)
  | write (field : Field) (value : Option FieldValue)
  | writeBatch (entries : List (Field × Option FieldValue))
  | activate
  | deactivate
  | delete
  | setClock (now : Instant)
  | ring
  | work
deriving DecidableEq

structure Situation where
  settings : Settings
  status : Status
  now : Instant
  phase : Phase
  queue : List Work
  armed : Option Duration
  listeners : List FireListener
  nextListener : Nat

namespace Scheduler

/-- Edits are made without a lease. What fails changes nothing. -/
def act [Host] (id : Nat) (s : Scheduler) : Action → Scheduler
  | .resume => s.resume id
  | .stop => s.stop id
  | .destroy => s.destroy id
  | .listen name => s.updateTimer id (Timer.addListener name .record)
  | .unlisten listener => s.updateTimer id (Timer.removeListener listener)
  | .setEndTime finish => s.ignoreFailure (s.setEndTime id finish)
  | .write f v => s.ignoreFailure (s.write none f v)
  | .writeBatch entries => s.ignoreFailure (s.writeBatch entries)
  | .activate => s.ignoreFailure s.activate
  | .deactivate => s.ignoreFailure s.deactivate
  | .delete => s.delete
  | .setClock now => s.setClock now
  | .ring => (s.ring id).1
  | .work => s.workNext id

def run [Host] (id : Nat) (s : Scheduler) (actions : List Action) : Scheduler := actions.foldl (act id) s

def situationOf (s : Scheduler) (t : Timer) : Situation where
  settings := s.store.settings
  status := s.store.status
  now := s.now
  phase := t.phase
  queue := t.queue
  armed := t.alarm.armed
  listeners := t.listeners
  nextListener := t.nextListener

def situation? (s : Scheduler) (id : Nat) : Option Situation := (s.timer? id).map s.situationOf

/-- Nobody holds a lease or has subscribed, and no call is out. -/
def IsQuiet (s : Scheduler) : Prop := s.outages = [] ∧ s.store.leases = [] ∧ s.store.subscriptions = []

def Along [Host] (id : Nat) (condition : Situation → Action → Prop) : Scheduler → List Action → Prop
  | _, [] => True
  | s, a :: rest => (∀ v ∈ s.situation? id, condition v a) ∧ Along id condition (s.act id a) rest

instance decidableAlong [Host] (id : Nat) (condition : Situation → Action → Prop) [∀ v a, Decidable (condition v a)] :
    (s : Scheduler) → (actions : List Action) → Decidable (Along id condition s actions)
  | _, [] => .isTrue trivial
  | s, a :: rest =>
    have := decidableAlong id condition (s.act id a) rest
    inferInstanceAs (Decidable (_ ∧ _))

end Scheduler

end Cadence
