import Cadence.Config.Configuration

/-!
A store of one configuration that many parties share. Every operation either fails and leaves the store as it was, or
gives the next store together with the events that announce what it did; `deliveries` says who hears of which event. A
field may be leased, and then only writes that carry the lease may change it. Whatever changes values or the status
makes the version greater by one, and nothing else does (`write_version`, `writeBatch_version`).
-/

namespace Cadence

structure Lease where
  field : Field
  token : Nat
deriving DecidableEq

def Lease.text (l : Lease) : String :=
  "lease#" ++ String.ofList (Text.Decimal.digits l.token) ++ "(" ++ l.field.name ++ ")"

inductive Status
  | active | inactive | deleted
deriving DecidableEq

inductive Lifecycle
  | activated | deactivated | deleted
deriving DecidableEq

inductive Change
  | value (field : Field)
  | lifecycle (event : Lifecycle)
deriving DecidableEq

structure Event where
  change : Change
  version : Nat
deriving DecidableEq

structure Subscription (κ : Type) where
  id : Nat
  fields : List Field
  listener : κ

/-- A subscription hears of its fields, and of the lifecycle whatever its fields are. -/
def Subscription.wants {κ : Type} (s : Subscription κ) : Change → Bool
  | .value f => f ∈ s.fields
  | .lifecycle _ => true

structure Snapshot where
  version : Nat
  active : Bool
  settings : Settings
deriving DecidableEq

structure Store (κ : Type) where
  settings : Settings
  status : Status
  version : Nat
  leases : List Lease
  nextToken : Nat
  subscriptions : List (Subscription κ)
  nextSubscription : Nat

namespace Store

variable {κ : Type}

def new (settings : Settings) (status : Status) : Store κ := ⟨settings, status, 0, [], 1, [], 1⟩

def empty : Store κ := new .empty .inactive

def cells (s : Store κ) : List (Field × FieldValue) := s.settings.cells

def isActive (s : Store κ) : Bool := s.status == .active

def ofConfiguration (c : Configuration) : Except Error (Store κ) := do
  c.settings.validate
  .ok (new (.ofCells c.settings.cells) (if c.active then .active else .inactive))

def toConfiguration (s : Store κ) : Except Error Configuration :=
  if s.status = .deleted then .error .deleted else .ok ⟨.ofCells s.cells, s.isActive⟩

theorem ofConfiguration_of_valid {c : Configuration} (valid : c.settings.validate = .ok ()) :
    ofConfiguration c = .ok (new c.settings (if c.active then .active else .inactive) : Store κ) := by
  rw [ofConfiguration, valid, Settings.ofCells_cells]
  rfl

theorem toConfiguration_of_present {s : Store κ} (present : s.status ≠ .deleted) :
    s.toConfiguration = .ok ⟨s.settings, s.isActive⟩ := by
  rw [toConfiguration, if_neg present, cells, Settings.ofCells_cells]

theorem isActive_new (settings : Settings) (active : Bool) :
    (new settings (if active then .active else .inactive) : Store κ).isActive = active := by
  cases active <;> rfl

theorem status_new_ne_deleted (settings : Settings) (active : Bool) :
    (new settings (if active then .active else .inactive) : Store κ).status ≠ .deleted := by
  cases active <;> exact nofun

theorem toConfiguration_new (c : Configuration) :
    (new c.settings (if c.active then .active else .inactive) : Store κ).toConfiguration = .ok c := by
  rw [toConfiguration_of_present (status_new_ne_deleted _ _), isActive_new]
  rfl

def snapshot (s : Store κ) (fields : List Field) : Except Error Snapshot :=
  if s.status = .deleted then .error (.aborted "configuration resource deleted")
  else .ok ⟨s.version, s.isActive, s.settings.restrict fields⟩

def leaseOf? (s : Store κ) (f : Field) : Option Lease := s.leases.find? fun l => l.field == f

/-- A leased field is written with its lease, any other field without one. -/
def checkLease (s : Store κ) (lease : Option Lease) (f : Field) : Except Error Unit :=
  match s.leaseOf? f, lease with
  | none, none => .ok ()
  | some _, none => .error (.fieldReserved f.name)
  | some held, some shown => if shown = held then .ok () else .error (.invalidLease f.name)
  | none, some _ => .error (.invalidLease f.name)

/-- Sets or clears a field. A value that is there already is no change. -/
def write (s : Store κ) (lease : Option Lease) (f : Field) (v : Option FieldValue) :
    Except Error (Store κ × List Event) := do
  let settings ← s.settings.put f v
  if s.status = .deleted then .error .deleted
  else do
    s.checkLease lease f
    if s.settings.get f = v then .ok (s, [])
    else .ok ({ s with settings := settings, version := s.version + 1 }, [⟨.value f, s.version + 1⟩])

def putAll : Settings → List (Field × Option FieldValue) → Except Error (Settings × List Field)
  | settings, [] => .ok (settings, [])
  | settings, (f, v) :: entries => do
    let next ← settings.put f v
    let (final, changed) ← putAll next entries
    .ok (final, if settings.get f = v then changed else f :: changed)

/-- Sets or clears several fields in one step, or none of them. Leased fields cannot be among them. -/
def writeBatch (s : Store κ) (entries : List (Field × Option FieldValue)) : Except Error (Store κ × List Event) := do
  let (settings, changed) ← putAll s.settings entries
  if s.status = .deleted then .error .deleted
  else do
    entries.forM fun e => s.checkLease none e.1
    if changed.isEmpty then .ok (s, [])
    else .ok ({ s with settings := settings, version := s.version + 1 },
      changed.map fun f => ⟨.value f, s.version + 1⟩)

def reserve (s : Store κ) (f : Field) : Except Error (Store κ × Lease) :=
  if s.status = .deleted then .error .deleted
  else if (s.leaseOf? f).isSome then .error (.fieldReserved f.name)
  else .ok ({ s with leases := ⟨f, s.nextToken⟩ :: s.leases, nextToken := s.nextToken + 1 }, ⟨f, s.nextToken⟩)

def release (s : Store κ) (l : Lease) : Store κ := { s with leases := s.leases.filter fun held => held ≠ l }

def subscribe (s : Store κ) (fields : List Field) (listener : κ) : Store κ × Nat :=
  ({ s with
      subscriptions := s.subscriptions ++ [⟨s.nextSubscription, fields, listener⟩]
      nextSubscription := s.nextSubscription + 1 },
    s.nextSubscription)

def unsubscribe (s : Store κ) (id : Nat) : Store κ :=
  { s with subscriptions := s.subscriptions.filter fun sub => sub.id ≠ id }

def setStatus (s : Store κ) (status : Status) (event : Lifecycle) : Except Error (Store κ × List Event) :=
  if s.status = .deleted then .error .deleted
  else if s.status = status then .ok (s, [])
  else .ok ({ s with status := status, version := s.version + 1 }, [⟨.lifecycle event, s.version + 1⟩])

def activate (s : Store κ) : Except Error (Store κ × List Event) := s.setStatus .active .activated

def deactivate (s : Store κ) : Except Error (Store κ × List Event) := s.setStatus .inactive .deactivated

def delete (s : Store κ) : Store κ × List Event :=
  if s.status = .deleted then (s, [])
  else ({ s with settings := .empty, status := .deleted, version := s.version + 1, leases := [] },
    [⟨.lifecycle .deleted, s.version + 1⟩])

/-- Who hears of which events: one subscription after the other, each with its events in order. -/
def deliveries (s : Store κ) (events : List Event) : List (Subscription κ × Event) :=
  s.subscriptions.flatMap fun sub => (events.filter fun e => sub.wants e.change).map fun e => (sub, e)

theorem deliveries_nil (s : Store κ) : s.deliveries [] = [] := List.flatMap_eq_nil_iff.mpr fun _ _ => rfl

theorem write_version {s t : Store κ} {lease : Option Lease} {f : Field} {v : Option FieldValue} {events : List Event}
    (h : s.write lease f v = .ok (t, events)) : t.version = s.version + events.length := by
  simp only [write, bind, Except.bind] at h
  split at h
  · cases h
  · split at h
    · cases h
    · split at h
      · cases h
      · split at h <;> cases h <;> rfl

theorem writeBatch_version {s t : Store κ} {entries : List (Field × Option FieldValue)} {events : List Event}
    (h : s.writeBatch entries = .ok (t, events)) : t.version = s.version + (if events.isEmpty then 0 else 1) := by
  simp only [writeBatch, bind, Except.bind] at h
  split at h
  · cases h
  · split at h
    · cases h
    · split at h
      · cases h
      · split at h
        · cases h
          rfl
        · rename_i changed
          cases h
          simp [changed]

end Store

end Cadence
