import Cadence.Proofs.Store.Operation
import Cadence.Store.Hub

/-!
Runs of a store with listeners that act on it. A run is a list of turns. What has been heard, and what is still
waiting to be heard, form one line of notices. A turn puts what it announces into that line, between what has been
heard and what is waiting, and changes nothing else of it (`timeline_eq`, `timeline_take`). So the order of deliveries
is settled turn by turn, however deep they are nested.
-/

namespace Cadence

def Notice.of (d : Subscription Watcher × Event) : Notice := ⟨d.1.id, d.1.listener.name, d.2⟩

namespace Hub

/-- What happens next: somebody asks the store for something, or the next delivery is made. Things may be asked for
while deliveries wait, too. That is what a listener does that wants more than one thing. -/
inductive Turn
  | ask (operation : Operation Watcher)
  | leave (name : String)
  | deliver

def take (h : Hub) : Turn → Hub
  | .ask (.subscribe fields w) => (h.subscribe fields w).1
  | .ask op => h.attempt (h.store.perform op)
  | .leave name => h.unsubscribe name
  | .deliver => h.step?.getD h

def run (h : Hub) (turns : List Turn) : Hub := turns.foldl take h

def wish? (h : Hub) (w : Watcher) : Option (Operation Watcher) :=
  match w.reaction with
  | .record => none
  | .panic => none
  | .delete => some .delete
  | .deactivate => some .deactivate
  | .unsubscribe => (h.names.lookup w.name).map .unsubscribe
  | .write f v => some (.write none f v)

def operation? (h : Hub) : Turn → Option (Operation Watcher)
  | .ask op => some op
  | .leave name => (h.names.lookup name).map .unsubscribe
  | .deliver => h.pending.head?.bind fun d => h.wish? d.1.listener

def result (h : Hub) (turn : Turn) : Store Watcher × List Event :=
  match h.operation? turn with
  | none => (h.store, [])
  | some op => h.store.after op

def announced (h : Hub) (turn : Turn) : List (Subscription Watcher × Event) :=
  (h.result turn).1.deliveries (h.result turn).2

def heard (h : Hub) : Turn → List (Subscription Watcher × Event)
  | .deliver => h.pending.take 1
  | _ => []

def waiting (h : Hub) : Turn → List (Subscription Watcher × Event)
  | .deliver => h.pending.drop 1
  | _ => h.pending

/-- What has been heard, and after that what will be heard if nothing else is announced. -/
def timeline (h : Hub) : List Notice := h.log ++ h.pending.map .of

/-- What a turn makes of a hub, as far as deliveries are concerned. -/
structure Takes (h : Hub) (turn : Turn) (next : Hub) : Prop where
  store : next.store = (h.result turn).1
  pending : next.pending = h.announced turn ++ h.waiting turn
  log : next.log = h.log ++ (h.heard turn).map .of

variable {h : Hub} {turn : Turn}

theorem announced_of_none (idle : h.operation? turn = none) : h.announced turn = [] := by
  rw [announced, result, idle]
  exact Store.deliveries_nil _

theorem result_of_some {op : Operation Watcher} (asked : h.operation? turn = some op) :
    h.result turn = h.store.after op := by
  rw [result, asked]

theorem attempt_spec (h : Hub) (op : Operation Watcher) :
    (h.attempt (h.store.perform op)).store = (h.store.after op).1 ∧
      (h.attempt (h.store.perform op)).pending =
        (h.store.after op).1.deliveries (h.store.after op).2 ++ h.pending ∧
      (h.attempt (h.store.perform op)).log = h.log := by
  cases performed : h.store.perform op with
  | ok next =>
    have same : h.store.after op = next := by rw [Store.after, performed]
    rw [same]
    exact ⟨rfl, rfl, rfl⟩
  | error e =>
    have same : h.store.after op = (h.store, []) := by rw [Store.after, performed]
    rw [same, Store.deliveries_nil]
    exact ⟨rfl, rfl, rfl⟩

theorem unsubscribe_spec (h : Hub) (name : String) :
    (h.unsubscribe name).store = (((h.names.lookup name).map h.store.unsubscribe).getD h.store) ∧
      (h.unsubscribe name).pending = h.pending ∧ (h.unsubscribe name).log = h.log := by
  rw [unsubscribe]
  cases h.names.lookup name <;> exact ⟨rfl, rfl, rfl⟩

theorem takes_ask (h : Hub) (op : Operation Watcher) : h.Takes (.ask op) (h.take (.ask op)) := by
  cases op with
  | subscribe fields w =>
    have silent : h.announced (.ask (.subscribe fields w)) = [] := Store.deliveries_nil _
    exact ⟨rfl, by rw [silent]; rfl, (List.append_nil _).symm⟩
  | _ =>
    obtain ⟨store, pending, log⟩ := h.attempt_spec _
    exact ⟨store, pending, log.trans (List.append_nil _).symm⟩

theorem takes_leave (h : Hub) (name : String) : h.Takes (.leave name) (h.take (.leave name)) := by
  obtain ⟨store, pending, log⟩ := h.unsubscribe_spec name
  have nothing : h.log = h.log ++ (h.heard (.leave name)).map .of := (List.append_nil _).symm
  cases known : h.names.lookup name with
  | none =>
    have idle : h.operation? (.leave name) = none := by rw [operation?, known]; rfl
    rw [known] at store
    exact ⟨by rw [result, idle]; exact store, by rw [announced_of_none idle]; exact pending, log.trans nothing⟩
  | some id =>
    have asked : h.operation? (.leave name) = some (.unsubscribe id) := by rw [operation?, known]; rfl
    have silent : h.announced (.leave name) = [] := by
      rw [announced, result_of_some asked]
      exact Store.deliveries_nil _
    rw [known] at store
    exact ⟨by rw [result_of_some asked]; exact store, by rw [silent]; exact pending, log.trans nothing⟩

theorem react_spec (h : Hub) (w : Watcher) :
    (h.react w).store = (((h.wish? w).map fun op => (h.store.after op).1).getD h.store) ∧
      (h.react w).pending =
        ((h.wish? w).map fun op => (h.store.after op).1.deliveries (h.store.after op).2).getD [] ++ h.pending ∧
      (h.react w).log = h.log := by
  rw [react, wish?]
  cases w.reaction with
  | record | panic => exact ⟨rfl, rfl, rfl⟩
  | delete => exact h.attempt_spec .delete
  | deactivate => exact h.attempt_spec .deactivate
  | write f v => exact h.attempt_spec (.write none f v)
  | unsubscribe =>
    obtain ⟨store, pending, log⟩ := h.unsubscribe_spec w.name
    cases known : h.names.lookup w.name with
    | none =>
      rw [known] at store
      exact ⟨store, pending, log⟩
    | some id =>
      rw [known] at store
      refine ⟨store, ?_, log⟩
      exact pending.trans (congrArg (· ++ h.pending) (Store.deliveries_nil _)).symm

theorem takes_deliver (h : Hub) : h.Takes .deliver (h.take .deliver) := by
  cases queue : h.pending with
  | nil =>
    have idle : h.operation? .deliver = none := by simp [operation?, queue]
    have same : h.take .deliver = h := by simp [take, step?, queue]
    rw [same]
    exact ⟨by rw [result, idle], by simp [announced_of_none idle, waiting, queue], by simp [heard, queue]⟩
  | cons d rest =>
    obtain ⟨sub, event⟩ := d
    have wished : h.operation? .deliver = h.wish? sub.listener := by simp [operation?, queue]
    let next : Hub := { h with pending := rest, log := h.log ++ [⟨sub.id, sub.listener.name, event⟩] }
    have taken : h.take .deliver = next.react sub.listener := by simp [take, step?, queue, next]
    obtain ⟨store, pending, log⟩ := next.react_spec sub.listener
    -- The listener acts when it has heard; what it wishes for does not depend on that.
    have same : next.wish? sub.listener = h.wish? sub.listener := rfl
    rw [same] at store pending
    rw [taken]
    refine ⟨?_, ?_, ?_⟩
    · rw [store, result, wished]
      cases h.wish? sub.listener <;> rfl
    · rw [pending, announced, result, wished, waiting, queue]
      cases h.wish? sub.listener with
      | none => exact (congrArg (· ++ rest) (Store.deliveries_nil _)).symm
      | some op => rfl
    · rw [log, heard, queue]
      rfl

theorem takes (h : Hub) (turn : Turn) : h.Takes turn (h.take turn) := by
  cases turn with
  | ask op => exact h.takes_ask op
  | leave name => exact h.takes_leave name
  | deliver => exact h.takes_deliver

theorem pending_eq (h : Hub) (turn : Turn) : h.pending = h.heard turn ++ h.waiting turn := by
  cases turn with
  | deliver => exact (List.take_append_drop 1 h.pending).symm
  | _ => rfl

theorem timeline_eq (h : Hub) (turn : Turn) :
    h.timeline = (h.log ++ (h.heard turn).map .of) ++ (h.waiting turn).map .of := by
  rw [timeline, h.pending_eq turn, List.map_append, List.append_assoc]

theorem timeline_take (h : Hub) (turn : Turn) :
    (h.take turn).timeline =
      (h.log ++ (h.heard turn).map .of) ++ ((h.announced turn).map .of ++ (h.waiting turn).map .of) := by
  rw [timeline, (h.takes turn).log, (h.takes turn).pending, List.map_append]

theorem settle_eq_run (count : Nat) (h : Hub) : settle count h = h.run (List.replicate count .deliver) := by
  induction count generalizing h with
  | zero => rfl
  | succ count ih =>
    rw [settle, List.replicate_succ, run, List.foldl_cons, take]
    cases stepped : h.step? with
    | some next => exact ih next
    | none =>
      have idle : h.pending = [] := by
        cases queue : h.pending with
        | nil => rfl
        | cons d rest => simp [step?, queue] at stepped
      exact (settle_of_pending_nil idle count).symm.trans (ih h)

end Hub

end Cadence
