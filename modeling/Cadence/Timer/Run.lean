import Cadence.Timer.Fire

/-!
Working off the queues. `workNext` handles the first piece of work in the queue of one timer. `settle` goes on until all
queues are empty: a piece of work leads to at most a few more for each listener, so that a bound can be computed from
the queues and the listeners.
-/

namespace Cadence.Scheduler

def handle [Host] (id : Nat) (work : Work) (s : Scheduler) : Scheduler :=
  match s.timer? id with
  | none => s
  | some t =>
    if t.phase = .destroyed then s
    else match work with
      | .recompute reanchor => s.recompute id reanchor
      | .fire => s.fire id
      | .lifecycle .deleted => s.destroy id
      | .lifecycle .deactivated => s.stop id
      | .lifecycle .activated => if t.phase = .running then s.recompute id false else s.resume id

def workNext [Host] (id : Nat) (s : Scheduler) : Scheduler :=
  match s.timer? id with
  | none => s
  | some t =>
    match t.queue with
    | [] => s
    | work :: rest => (s.updateTimer id fun t => { t with queue := rest }).handle id work

def busy? (s : Scheduler) : Option Nat := s.timers.findIdx? fun t => ! t.queue.isEmpty

def workOff [Host] : Nat → Scheduler → Scheduler
  | 0, s => s
  | count + 1, s =>
    match s.busy? with
    | none => s
    | some id => workOff count (s.workNext id)

def workBound (s : Scheduler) : Nat :=
  let queued := (s.timers.flatMap Timer.queue).length
  let listeners := (s.timers.flatMap Timer.listeners).length
  8 * (queued + 1) * (listeners + 1) * (s.timers.length + 1)

def settle [Host] (s : Scheduler) : Scheduler := s.workOff s.workBound

end Cadence.Scheduler
