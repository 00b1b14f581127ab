import Cadence.Proofs.Store.Batch

/-!
What can be asked of a store, and all that can come of it. `Does` lists the outcomes of the operations that succeed, and
is the only place where an operation is taken apart. What an operation announces is what it changes (`Does.announces`),
and the version counts the operations that change something (`Does.version`).
-/

namespace Cadence

/-- What can be asked of a store. Reading is left out: it changes nothing and is never refused a field. -/
inductive Operation (κ : Type)
  | write (lease : Option Lease) (field : Field) (value : Option FieldValue)
  | writeBatch (entries : List (Field × Option FieldValue))
  | reserve (field : Field)
  | release (lease : Lease)
  | subscribe (fields : List Field) (listener : κ)
  | unsubscribe (id : Nat)
  | activate
  | deactivate
  | delete
deriving DecidableEq

/-- Anybody may ask for it, without a lease, and it may be announced. -/
def Operation.IsEdit {κ : Type} : Operation κ → Prop
  | write none _ _ | writeBatch _ | activate | deactivate | delete => True
  | _ => False

namespace Store

/-- The fields that entries change, one after the other: an entry is compared with what those before it have left. -/
def effects (value : Field → Option FieldValue) : List (Field × Option FieldValue) → List Field
  | [] => []
  | (f, v) :: entries =>
    let later := effects (fun g => if g = f then v else value g) entries
    if value f = v then later else f :: later

variable {κ : Type}

def changes (s : Store κ) : Operation κ → List Change
  | .write _ f v => (effects s.settings.get [(f, v)]).map .value
  | .writeBatch entries => (effects s.settings.get entries).map .value
  | .activate => if s.status = .active then [] else [.lifecycle .activated]
  | .deactivate => if s.status = .inactive then [] else [.lifecycle .deactivated]
  | .delete => if s.status = .deleted then [] else [.lifecycle .deleted]
  | _ => []

def perform (s : Store κ) : Operation κ → Except Error (Store κ × List Event)
  | .write lease f v => s.write lease f v
  | .writeBatch entries => s.writeBatch entries
  | .reserve f => (s.reserve f).map fun reserved => (reserved.1, [])
  | .release l => .ok (s.release l, [])
  | .subscribe fields listener => .ok ((s.subscribe fields listener).1, [])
  | .unsubscribe id => .ok (s.unsubscribe id, [])
  | .activate => s.activate
  | .deactivate => s.deactivate
  | .delete => .ok s.delete

/-- What an operation leads to, with the events that announce it. One that fails changes nothing. -/
def after (s : Store κ) (op : Operation κ) : Store κ × List Event :=
  match s.perform op with
  | .ok next => next
  | .error _ => (s, [])

def run (s : Store κ) (ops : List (Operation κ)) : Store κ := ops.foldl (fun s op => (s.after op).1) s

inductive Does (s : Store κ) : Operation κ → Store κ → List Event → Prop
  | nothing {op : Operation κ} (same : s.changes op = []) : Does s op s []
  | write {lease : Option Lease} {f : Field} {v : Option FieldValue} {settings : Settings}
      (put : s.settings.put f v = .ok settings) (present : s.status ≠ .deleted)
      (allowed : s.checkLease lease f = .ok ()) (differs : s.settings.get f ≠ v) :
      Does s (.write lease f v) { s with settings := settings, version := s.version + 1 } [⟨.value f, s.version + 1⟩]
  | writeBatch {entries : List (Field × Option FieldValue)} {settings : Settings} {changed : List Field}
      (put : putAll s.settings entries = .ok (settings, changed)) (present : s.status ≠ .deleted)
      (free : ∀ e ∈ entries, s.leaseOf? e.1 = none) (differs : changed ≠ []) :
      Does s (.writeBatch entries) { s with settings := settings, version := s.version + 1 }
        (changed.map fun f => ⟨.value f, s.version + 1⟩)
  | reserve {f : Field} (present : s.status ≠ .deleted) (free : s.leaseOf? f = none) :
      Does s (.reserve f) { s with leases := ⟨f, s.nextToken⟩ :: s.leases, nextToken := s.nextToken + 1 } []
  | release (l : Lease) : Does s (.release l) (s.release l) []
  | subscribe (fields : List Field) (listener : κ) :
      Does s (.subscribe fields listener) (s.subscribe fields listener).1 []
  | unsubscribe (id : Nat) : Does s (.unsubscribe id) (s.unsubscribe id) []
  | activate (resting : s.status = .inactive) :
      Does s .activate { s with status := .active, version := s.version + 1 }
        [⟨.lifecycle .activated, s.version + 1⟩]
  | deactivate (active : s.status = .active) :
      Does s .deactivate { s with status := .inactive, version := s.version + 1 }
        [⟨.lifecycle .deactivated, s.version + 1⟩]
  | delete (present : s.status ≠ .deleted) :
      Does s .delete { s with settings := .empty, status := .deleted, version := s.version + 1, leases := [] }
        [⟨.lifecycle .deleted, s.version + 1⟩]

theorem effects_of_putAll {settings final : Settings} {entries : List (Field × Option FieldValue)}
    {changed : List Field} (h : putAll settings entries = .ok (final, changed)) :
    changed = effects settings.get entries := by
  induction entries generalizing settings changed with
  | nil =>
    cases h
    rfl
  | cons e entries ih =>
    obtain ⟨next, rest, put, after, listed⟩ := putAll_cons h
    have moved : next.get = fun g => if g = e.1 then e.2 else settings.get g := by
      funext g
      by_cases first : g = e.1
      · rw [if_pos first, first, Settings.get_put_self put]
      · rw [if_neg first, Settings.get_put_other put first]
    rw [listed, ih after, moved]
    rfl

variable {s t : Store κ} {op : Operation κ} {events : List Event}

theorem does_write {lease : Option Lease} {f : Field} {v : Option FieldValue}
    (h : s.write lease f v = .ok (t, events)) : Does s (.write lease f v) t events := by
  simp only [Store.write, bind, Except.bind] at h
  cases put : s.settings.put f v with
  | error e => simp [put] at h
  | ok settings =>
    by_cases deleted : s.status = .deleted
    · simp [put, deleted] at h
    cases allowed : s.checkLease lease f with
    | error e => simp [put, deleted, allowed] at h
    | ok _ =>
      by_cases same : s.settings.get f = v
      · simp only [put, if_neg deleted, allowed, if_pos same, Except.ok.injEq, Prod.mk.injEq] at h
        obtain ⟨rfl, rfl⟩ := h
        exact .nothing (by simp [changes, effects, same])
      · simp only [put, if_neg deleted, allowed, if_neg same, Except.ok.injEq, Prod.mk.injEq] at h
        obtain ⟨rfl, rfl⟩ := h
        exact .write put deleted allowed same

theorem does_writeBatch {entries : List (Field × Option FieldValue)} (h : s.writeBatch entries = .ok (t, events)) :
    Does s (.writeBatch entries) t events := by
  simp only [Store.writeBatch, bind, Except.bind] at h
  cases put : putAll s.settings entries with
  | error e => simp [put] at h
  | ok result =>
    obtain ⟨settings, changed⟩ := result
    by_cases deleted : s.status = .deleted
    · simp [put, deleted] at h
    cases free : entries.forM fun e => s.checkLease none e.1 with
    | error e => simp [put, deleted, free] at h
    | ok _ =>
      by_cases silent : changed.isEmpty = true
      · simp only [put, if_neg deleted, free, if_pos silent, Except.ok.injEq, Prod.mk.injEq] at h
        obtain ⟨rfl, rfl⟩ := h
        refine .nothing ?_
        rw [changes, ← effects_of_putAll put, List.isEmpty_iff.mp silent, List.map_nil]
      · simp only [put, if_neg deleted, free, if_neg silent, Except.ok.injEq, Prod.mk.injEq] at h
        obtain ⟨rfl, rfl⟩ := h
        exact .writeBatch put deleted ((forM_checkLease_none s entries).mp free) (by simpa using silent)

theorem reserve_eq_ok {f : Field} {lease : Lease} (h : s.reserve f = .ok (t, lease)) :
    s.status ≠ .deleted ∧ s.leaseOf? f = none ∧ lease = ⟨f, s.nextToken⟩ ∧
      t = { s with leases := lease :: s.leases, nextToken := s.nextToken + 1 } := by
  simp only [Store.reserve] at h
  by_cases deleted : s.status = .deleted
  · simp [deleted] at h
  cases held : s.leaseOf? f with
  | some l => simp [deleted, held] at h
  | none =>
    simp only [if_neg deleted, held, Option.isSome_none, Bool.false_eq_true, if_false, Except.ok.injEq,
      Prod.mk.injEq] at h
    obtain ⟨rfl, rfl⟩ := h
    exact ⟨deleted, rfl, rfl, rfl⟩

theorem does_reserve {f : Field} {lease : Lease} (h : s.reserve f = .ok (t, lease)) : Does s (.reserve f) t [] := by
  obtain ⟨present, free, rfl, rfl⟩ := reserve_eq_ok h
  exact .reserve present free

theorem does_activate (h : s.activate = .ok (t, events)) : Does s .activate t events := by
  simp only [Store.activate, setStatus] at h
  cases status : s.status <;> simp only [status, if_true, if_false, reduceCtorEq, Except.ok.injEq, Prod.mk.injEq] at h
  · obtain ⟨rfl, rfl⟩ := h
    exact .nothing (if_pos status)
  · obtain ⟨rfl, rfl⟩ := h
    exact .activate status

theorem does_deactivate (h : s.deactivate = .ok (t, events)) : Does s .deactivate t events := by
  simp only [Store.deactivate, setStatus] at h
  cases status : s.status <;> simp only [status, if_true, if_false, reduceCtorEq, Except.ok.injEq, Prod.mk.injEq] at h
  · obtain ⟨rfl, rfl⟩ := h
    exact .deactivate status
  · obtain ⟨rfl, rfl⟩ := h
    exact .nothing (if_pos status)

theorem does_delete (s : Store κ) : Does s .delete s.delete.1 s.delete.2 := by
  by_cases deleted : s.status = .deleted
  · simp only [Store.delete, if_pos deleted]
    exact .nothing (if_pos deleted)
  · simp only [Store.delete, if_neg deleted]
    exact .delete deleted

theorem does_of_perform (h : s.perform op = .ok (t, events)) : Does s op t events := by
  cases op with
  | write lease f v => exact does_write h
  | writeBatch entries => exact does_writeBatch h
  | reserve f =>
    rw [perform] at h
    cases reserved : s.reserve f with
    | error e => simp [reserved, Except.map] at h
    | ok result =>
      simp only [reserved, Except.map, Except.ok.injEq, Prod.mk.injEq] at h
      obtain ⟨rfl, rfl⟩ := h
      exact does_reserve reserved
  | release l =>
    cases h
    exact .release l
  | subscribe fields listener =>
    cases h
    exact .subscribe fields listener
  | unsubscribe id =>
    cases h
    exact .unsubscribe id
  | activate => exact does_activate h
  | deactivate => exact does_deactivate h
  | delete =>
    have same : s.delete = (t, events) := Except.ok.inj h
    have done := does_delete s
    rwa [same] at done

theorem after_cases (s : Store κ) (op : Operation κ) :
    (∃ e, s.perform op = .error e) ∧ s.after op = (s, []) ∨
      s.perform op = .ok (s.after op) ∧ Does s op (s.after op).1 (s.after op).2 := by
  cases performed : s.perform op with
  | error e => exact Or.inl ⟨⟨e, rfl⟩, by rw [after, performed]⟩
  | ok next =>
    have same : s.after op = next := by rw [after, performed]
    rw [same]
    exact Or.inr ⟨rfl, does_of_perform performed⟩

theorem Does.announces (h : Does s op t events) : events = (s.changes op).map fun c => ⟨c, s.version + 1⟩ := by
  cases h with
  | nothing same => rw [same, List.map_nil]
  | write put _ _ differs => simp [changes, effects, differs]
  | writeBatch put _ _ _ =>
    rw [changes, ← effects_of_putAll put, List.map_map]
    rfl
  | reserve _ _ | release _ | subscribe _ _ | unsubscribe _ => rfl
  | activate resting => simp [changes, resting]
  | deactivate active => simp [changes, active]
  | delete present => simp [changes, present]

theorem Does.version (h : Does s op t events) : t.version = if events = [] then s.version else s.version + 1 := by
  cases h with
  | writeBatch _ _ _ differs => simp [differs]
  | _ => rfl

theorem Does.subscriptions (h : Does s op t events) (loud : events ≠ []) :
    t.subscriptions = s.subscriptions ∧ t.nextSubscription = s.nextSubscription := by
  cases h with
  | nothing _ | reserve _ _ | release _ | subscribe _ _ | unsubscribe _ => exact absurd rfl loud
  | write _ _ _ _ | writeBatch _ _ _ _ | activate _ | deactivate _ | delete _ => exact ⟨rfl, rfl⟩

theorem Does.status (h : Does s op t events) (loud : events ≠ []) :
    s.status ≠ .deleted ∧ (.lifecycle .deleted ∈ s.changes op → t.status = .deleted) := by
  cases h with
  | nothing _ | reserve _ _ | release _ | subscribe _ _ | unsubscribe _ => exact absurd rfl loud
  | write _ present _ _ | writeBatch _ present _ _ => exact ⟨present, fun listed => by simp [changes] at listed⟩
  | activate resting => exact ⟨by simp [resting], fun listed => by simp [changes, resting] at listed⟩
  | deactivate active => exact ⟨by simp [active], fun listed => by simp [changes, active] at listed⟩
  | delete present => exact ⟨present, fun _ => rfl⟩

theorem Does.deleted (h : Does s op t events) (gone : s.status = .deleted) : t.status = .deleted := by
  cases h with
  | activate resting => exact absurd gone (by simp [resting])
  | deactivate active => exact absurd gone (by simp [active])
  | delete _ => rfl
  | nothing _ | write _ _ _ _ | writeBatch _ _ _ _ | reserve _ _ | release _ | subscribe _ _ | unsubscribe _ =>
    exact gone

theorem changes_pairwise (s : Store κ) (op : Operation κ) :
    (s.changes op).Pairwise fun a _ => a ≠ .lifecycle .deleted := by
  cases op with
  | write _ _ _ | writeBatch _ =>
    exact List.pairwise_map.mpr (List.pairwise_of_forall fun _ _ => Change.noConfusion)
  | activate | deactivate | delete =>
    rw [changes]
    split
    · exact List.Pairwise.nil
    · exact List.pairwise_singleton _ _
  | reserve _ | release _ | subscribe _ _ | unsubscribe _ => exact List.Pairwise.nil

end Store

end Cadence
