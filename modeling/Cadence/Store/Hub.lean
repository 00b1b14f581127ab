import Cadence.Store.Basic

/-!
A store together with listeners that act on it while events are delivered. Deliveries wait in a list, the next one
first. To handle one is to log it and then to let its listener act; what the action announces is put in front, so that
nested deliveries happen before those that were waiting already. `settle` handles deliveries until none is left.
-/

namespace Cadence

inductive Reaction
  | record
  | panic
  | delete
  | deactivate
  | unsubscribe
  | write (field : Field) (value : Option FieldValue)
deriving DecidableEq

/-- A listener. Its name also stands for its subscription. -/
structure Watcher where
  name : String
  reaction : Reaction
deriving DecidableEq

structure Notice where
  subscription : Nat
  name : String
  event : Event
deriving DecidableEq

structure Hub where
  store : Store Watcher
  /-- The subscription that a name stands for. -/
  names : List (String × Nat)
  pending : List (Subscription Watcher × Event)
  log : List Notice

namespace Hub

def ofStore (store : Store Watcher) : Hub := ⟨store, [], [], []⟩

/-- Takes over the next store, and puts its deliveries in front. -/
def commit (h : Hub) (next : Store Watcher × List Event) : Hub :=
  { h with store := next.1, pending := next.1.deliveries next.2 ++ h.pending }

def attempt (h : Hub) (result : Except Error (Store Watcher × List Event)) : Hub :=
  match result with
  | .ok next => h.commit next
  | .error _ => h

def forget (h : Hub) (name : String) : Hub := { h with names := h.names.filter fun n => n.1 != name }

def subscribe (h : Hub) (fields : List Field) (w : Watcher) : Hub × Nat :=
  let (store, id) := h.store.subscribe fields w
  let cleared := h.forget w.name
  ({ cleared with store := store, names := (w.name, id) :: cleared.names }, id)

def unsubscribe (h : Hub) (name : String) : Hub :=
  match h.names.lookup name with
  | none => h
  | some id => { h.forget name with store := h.store.unsubscribe id }

def react (h : Hub) (w : Watcher) : Hub :=
  match w.reaction with
  | .record => h
  | .panic => h
  | .delete => h.commit h.store.delete
  | .deactivate => h.attempt h.store.deactivate
  | .unsubscribe => h.unsubscribe w.name
  | .write f v => h.attempt (h.store.write none f v)

def step? (h : Hub) : Option Hub :=
  match h.pending with
  | [] => none
  | (sub, event) :: rest =>
    let heard : Hub := { h with pending := rest, log := h.log ++ [⟨sub.id, sub.listener.name, event⟩] }
    some (heard.react sub.listener)

def settle : Nat → Hub → Hub
  | 0, h => h
  | count + 1, h =>
    match h.step? with
    | none => h
    | some next => settle count next

theorem settle_of_pending_nil {h : Hub} (idle : h.pending = []) (count : Nat) : settle count h = h := by
  cases count with
  | zero => rfl
  | succ count => simp [settle, step?, idle]

end Hub

end Cadence
