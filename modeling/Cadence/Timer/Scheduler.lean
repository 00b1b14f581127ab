import Cadence.Timer.Basic

/-!
Timers around one store and one clock. All of them, and everybody else, reach the store through the operations of this
module. Each is committed at once: the events it announces become work in the queues of the timers that subscribed. An
outage makes one kind of call fail before it gets to the store.
-/

namespace Cadence

inductive Call
  | snapshot
  | write (field : Field)
  | batch
  | activate
  | reserve
deriving DecidableEq

structure Firing where
  timer : Nat
  listener : String
  scheduled : Instant
deriving DecidableEq

structure Scheduler where
  store : Store Watch
  outages : List (Call × Error)
  now : Instant
  timers : List Timer
  journal : List Firing

namespace Scheduler

def new (store : Store Watch) (now : Instant) : Scheduler := ⟨store, [], now, [], []⟩

def timer? (s : Scheduler) (id : Nat) : Option Timer := s.timers[id]?

def updateTimer (s : Scheduler) (id : Nat) (f : Timer → Timer) : Scheduler :=
  { s with timers := s.timers.modify id f }

def deliver (s : Scheduler) (d : Subscription Watch × Event) : Scheduler :=
  match Timer.route d.1.listener.channel d.2.change with
  | none => s
  | some work => s.updateTimer d.1.listener.timer (Timer.enqueue work)

def commit (s : Scheduler) (next : Store Watch × List Event) : Scheduler :=
  (next.1.deliveries next.2).foldl deliver { s with store := next.1 }

def setOutage (s : Scheduler) (call : Call) (cause : Option Error) : Scheduler :=
  let others := s.outages.filter fun o => o.1 ≠ call
  { s with outages := match cause with
      | none => others
      | some e => (call, e) :: others }

def checkCall (s : Scheduler) (call : Call) : Except Error Unit :=
  match s.outages.lookup call with
  | none => .ok ()
  | some e => .error e

def snapshot (s : Scheduler) (fields : List Field) : Except Error Snapshot := do
  s.checkCall .snapshot
  s.store.snapshot fields

def write (s : Scheduler) (lease : Option Lease) (f : Field) (v : Option FieldValue) : Except Error Scheduler := do
  s.checkCall (.write f)
  let next ← s.store.write lease f v
  .ok (s.commit next)

def writeBatch (s : Scheduler) (entries : List (Field × Option FieldValue)) : Except Error Scheduler := do
  s.checkCall .batch
  let next ← s.store.writeBatch entries
  .ok (s.commit next)

def activate (s : Scheduler) : Except Error Scheduler := do
  s.checkCall .activate
  let next ← s.store.activate
  .ok (s.commit next)

def deactivate (s : Scheduler) : Except Error Scheduler := do
  let next ← s.store.deactivate
  .ok (s.commit next)

def delete (s : Scheduler) : Scheduler := s.commit s.store.delete

def reserve (s : Scheduler) (f : Field) : Except Error (Scheduler × Lease) := do
  s.checkCall .reserve
  let (store, lease) ← s.store.reserve f
  .ok ({ s with store := store }, lease)

def release (s : Scheduler) (l : Lease) : Scheduler := { s with store := s.store.release l }

def setClock (s : Scheduler) (now : Instant) : Scheduler := { s with now := now }

theorem timer?_updateTimer_self (s : Scheduler) (id : Nat) (f : Timer → Timer) :
    (s.updateTimer id f).timer? id = (s.timer? id).map f := by
  simp [timer?, updateTimer]

theorem timer?_updateTimer_other (s : Scheduler) {id other : Nat} (h : other ≠ id) (f : Timer → Timer) :
    (s.updateTimer id f).timer? other = s.timer? other := by
  simp [timer?, updateTimer, Ne.symm h]

theorem deliver_store (s : Scheduler) (d : Subscription Watch × Event) : (s.deliver d).store = s.store := by
  rw [deliver]
  split <;> rfl

theorem commit_store (s : Scheduler) (next : Store Watch × List Event) : (s.commit next).store = next.1 := by
  have folded : ∀ (ds : List (Subscription Watch × Event)) (s : Scheduler), (ds.foldl deliver s).store = s.store := by
    intro ds
    induction ds with
    | nil => exact fun _ => rfl
    | cons d ds ih => exact fun s => (ih (s.deliver d)).trans (s.deliver_store d)
  exact folded _ _

end Scheduler

end Cadence
