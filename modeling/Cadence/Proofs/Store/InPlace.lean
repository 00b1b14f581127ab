import Cadence.Proofs.Store.Timeline

/-!
Operations that work on a store where it is, one assignment after the other. What they have changed before they fail
stays changed, so that nothing is taken back by the way they are written. They come to the same as the operations on
values (`Procedure.run_perform`), because all that can fail is tried before the first assignment. Which calls fail, with
which error, is said by `Store.Refuses`; a call that fails leaves everything as it was (`Hub.call_refused`).
-/

namespace Cadence

theorem forM_eq_ok_iff {α : Type} {check : α → Except Error Unit} {l : List α} :
    l.forM check = .ok () ↔ ∀ x ∈ l, check x = .ok () := by
  induction l with
  | nil => simp [List.forM, pure, Except.pure]
  | cons x l ih =>
    rw [List.forall_mem_cons, ← ih]
    cases first : check x <;> simp [List.forM, bind, Except.bind, first]

theorem forM_eq_error_iff {α : Type} {check : α → Except Error Unit} {l : List α} {e : Error} :
    l.forM check = .error e ↔
      ∃ before x after, l = before ++ x :: after ∧ (∀ b ∈ before, check b = .ok ()) ∧ check x = .error e := by
  induction l with
  | nil => simp [List.forM, pure, Except.pure]
  | cons x l ih =>
    cases first : check x with
    | error d =>
      have stopped : (x :: l).forM check = .error d := by simp [List.forM, bind, Except.bind, first]
      rw [stopped]
      constructor
      · rintro ⟨⟩
        exact ⟨[], x, l, rfl, List.forall_mem_nil _, first⟩
      · rintro ⟨before, y, after, split, passed, failed⟩
        cases before with
        | nil =>
          cases split
          exact first.symm.trans failed
        | cons b before =>
          cases split
          cases first.symm.trans (passed x List.mem_cons_self)
    | ok _ =>
      have onward : (x :: l).forM check = l.forM check := by simp [List.forM, bind, Except.bind, first]
      rw [onward, ih]
      constructor
      · rintro ⟨before, y, after, rfl, passed, failed⟩
        exact ⟨x :: before, y, after, rfl, List.forall_mem_cons.mpr ⟨first, passed⟩, failed⟩
      · rintro ⟨before, y, after, split, passed, failed⟩
        cases before with
        | nil =>
          cases split
          cases first.symm.trans failed
        | cons b before =>
          cases split
          exact ⟨before, y, after, rfl, (List.forall_mem_cons.mp passed).2, failed⟩

def checkKind : Field × Option FieldValue → Except Error Unit
  | (_, none) => .ok ()
  | (f, some v) => f.check v

theorem exists_put {f : Field} {v : Option FieldValue} (fits : checkKind (f, v) = .ok ()) (settings : Settings) :
    ∃ next, settings.put f v = .ok next := by
  cases v with
  | none => exact settings.put_none f
  | some v => exact (settings.put_some f v).mpr fits

theorem put_of_checkKind {f : Field} {v : Option FieldValue} {e : Error} (misfit : checkKind (f, v) = .error e)
    (settings : Settings) : settings.put f v = .error e := by
  cases v with
  | none => cases misfit
  | some v =>
    rw [checkKind, Field.check] at misfit
    split at misfit
    · cases misfit
    · rename_i other
      cases misfit
      exact Settings.put_eq_error other

namespace Store

variable {κ : Type} {s : Store κ} {lease : Option Lease} {f : Field} {v : Option FieldValue}
variable {settings final : Settings} {entries : List (Field × Option FieldValue)} {changed : List Field} {e : Error}

theorem exists_putAll (fit : ∀ entry ∈ entries, checkKind entry = .ok ()) (settings : Settings) :
    ∃ final changed, putAll settings entries = .ok (final, changed) := by
  induction entries generalizing settings with
  | nil => exact ⟨settings, [], rfl⟩
  | cons entry entries ih =>
    obtain ⟨first, rest⟩ := List.forall_mem_cons.mp fit
    obtain ⟨next, put⟩ := exists_put first settings
    obtain ⟨final, changed, after⟩ := ih rest next
    exact ⟨final, if settings.get entry.1 = entry.2 then changed else entry.1 :: changed, by
      simp only [putAll, put, after, bind, Except.bind]⟩

theorem putAll_of_checkKind (misfit : entries.forM checkKind = .error e) (settings : Settings) :
    putAll settings entries = .error e := by
  induction entries generalizing settings with
  | nil => cases misfit
  | cons entry entries ih =>
    cases first : checkKind entry with
    | error d =>
      simp only [List.forM, first, bind, Except.bind] at misfit
      cases misfit
      simp only [putAll, put_of_checkKind first, bind, Except.bind]
    | ok _ =>
      simp only [List.forM, first, bind, Except.bind] at misfit
      obtain ⟨next, put⟩ := exists_put first settings
      simp only [putAll, put, ih misfit, bind, Except.bind]

/-- All that can be wrong with entries: their kinds first, then the configuration, then the leases. -/
def screen (s : Store κ) (lease : Option Lease) (entries : List (Field × Option FieldValue)) : Except Error Unit := do
  entries.forM checkKind
  if s.status = .deleted then .error .deleted
  else entries.forM fun e => s.checkLease lease e.1

theorem screen_eq_ok_iff : s.screen lease entries = .ok () ↔
    (∀ entry ∈ entries, checkKind entry = .ok ()) ∧ s.status ≠ .deleted ∧
      ∀ entry ∈ entries, s.checkLease lease entry.1 = .ok () := by
  rw [← forM_eq_ok_iff, ← forM_eq_ok_iff]
  cases kinds : entries.forM checkKind with
  | error e => simp [screen, kinds, bind, Except.bind]
  | ok _ => by_cases gone : s.status = .deleted <;> simp [screen, kinds, gone, bind, Except.bind]

theorem write_of_screen_error (refused : s.screen lease [(f, v)] = .error e) : s.write lease f v = .error e := by
  simp only [screen, List.forM, bind, Except.bind, pure, Except.pure] at refused
  cases kind : checkKind (f, v) with
  | error d =>
    rw [kind] at refused
    cases refused
    simp only [write, put_of_checkKind kind, bind, Except.bind]
  | ok _ =>
    obtain ⟨next, put⟩ := exists_put kind s.settings
    by_cases gone : s.status = .deleted
    · simp only [kind, if_pos gone] at refused
      cases refused
      simp only [write, put, if_pos gone, bind, Except.bind]
    · simp only [kind, if_neg gone] at refused
      cases allowed : s.checkLease lease f with
      | error d =>
        rw [allowed] at refused
        cases refused
        simp only [write, put, if_neg gone, allowed, bind, Except.bind]
      | ok _ =>
        rw [allowed] at refused
        cases refused

theorem write_of_screen (passed : s.screen lease [(f, v)] = .ok ()) (put : s.settings.put f v = .ok settings) :
    s.write lease f v = .ok (if s.settings.get f = v then (s, []) else
      ({ s with settings := settings, version := s.version + 1 }, [⟨.value f, s.version + 1⟩])) := by
  obtain ⟨-, present, free⟩ := screen_eq_ok_iff.mp passed
  have allowed : s.checkLease lease f = .ok () := free (f, v) List.mem_cons_self
  simp only [write, put, if_neg present, allowed, bind, Except.bind]
  split <;> rfl

theorem writeBatch_of_screen_error (refused : s.screen none entries = .error e) : s.writeBatch entries = .error e := by
  cases kinds : entries.forM checkKind with
  | error d =>
    simp only [screen, kinds, bind, Except.bind] at refused
    cases refused
    simp only [writeBatch, putAll_of_checkKind kinds, bind, Except.bind]
  | ok _ =>
    obtain ⟨final, changed, put⟩ := exists_putAll (forM_eq_ok_iff.mp kinds) s.settings
    simp only [screen, kinds, bind, Except.bind] at refused
    by_cases gone : s.status = .deleted
    · rw [if_pos gone] at refused
      cases refused
      simp only [writeBatch, put, if_pos gone, bind, Except.bind]
    · rw [if_neg gone] at refused
      simp only [writeBatch, put, if_neg gone, refused, bind, Except.bind]

theorem writeBatch_of_screen (passed : s.screen none entries = .ok ())
    (put : putAll s.settings entries = .ok (final, changed)) :
    s.writeBatch entries = .ok (if changed.isEmpty then (s, []) else
      ({ s with settings := final, version := s.version + 1 }, changed.map fun f => ⟨.value f, s.version + 1⟩)) := by
  obtain ⟨-, present, free⟩ := screen_eq_ok_iff.mp passed
  simp only [writeBatch, put, if_neg present, forM_eq_ok_iff.mpr free, bind, Except.bind]
  split <;> rfl

end Store

/-- Work on a store where it is. An error leaves the store as it is at that moment. -/
abbrev Procedure (κ : Type) := EStateM Error (Store κ)

namespace Procedure

variable {κ : Type}

def check (answer : Store κ → Except Error Unit) : Procedure κ Unit := do
  match answer (← get) with
  | .ok _ => return
  | .error e => throw e

def checkPresent : Procedure κ Unit := check fun s => if s.status = .deleted then .error .deleted else .ok ()

def assign (f : Field) (v : Option FieldValue) : Procedure κ Bool := do
  let s ← get
  match s.settings.put f v with
  | .ok settings =>
    set { s with settings := settings }
    return s.settings.get f ≠ v
  | .error e => throw e

def assignAll : List (Field × Option FieldValue) → Procedure κ (List Field)
  | [] => return []
  | (f, v) :: entries => do
    let differs ← assign f v
    let changed ← assignAll entries
    return if differs then f :: changed else changed

def advance : Procedure κ Nat := modifyGet fun s => (s.version + 1, { s with version := s.version + 1 })

def write (lease : Option Lease) (f : Field) (v : Option FieldValue) : Procedure κ (List Event) := do
  check fun s => s.screen lease [(f, v)]
  if ← assign f v then
    let version ← advance
    return [⟨.value f, version⟩]
  else return []

def writeBatch (entries : List (Field × Option FieldValue)) : Procedure κ (List Event) := do
  check fun s => s.screen none entries
  let changed ← assignAll entries
  if changed.isEmpty then return []
  else
    let version ← advance
    return changed.map fun f => ⟨.value f, version⟩

def reserve (f : Field) : Procedure κ Lease := do
  checkPresent
  check fun s => if (s.leaseOf? f).isSome then .error (.fieldReserved f.name) else .ok ()
  let token ← modifyGet fun s => (s.nextToken, { s with nextToken := s.nextToken + 1 })
  let lease : Lease := ⟨f, token⟩
  modify fun s => { s with leases := lease :: s.leases }
  return lease

def setStatus (status : Status) (event : Lifecycle) : Procedure κ (List Event) := do
  checkPresent
  if (← get).status = status then return []
  else
    modify fun s => { s with status := status }
    let version ← advance
    return [⟨.lifecycle event, version⟩]

def perform : Operation κ → Procedure κ (List Event)
  | .write lease f v => write lease f v
  | .writeBatch entries => writeBatch entries
  | .reserve f => do
    let _ ← reserve f
    return []
  | .release l => modifyGet fun s => ([], s.release l)
  | .subscribe fields listener => modifyGet fun s => ([], (s.subscribe fields listener).1)
  | .unsubscribe id => modifyGet fun s => ([], s.unsubscribe id)
  | .activate => setStatus .active .activated
  | .deactivate => setStatus .inactive .deactivated
  | .delete => modifyGet fun s => (s.delete.2, s.delete.1)

/-- The way to end that corresponds to an answer: with the next store, or with an error and the store as it was. -/
def ending {α : Type} (s : Store κ) : Except Error (Store κ × α) → EStateM.Result Error (Store κ) α
  | .ok (t, a) => .ok a t
  | .error e => .error e s

variable {s : Store κ} {settings final : Settings} {entries : List (Field × Option FieldValue)} {changed : List Field}

theorem run_check (answer : Store κ → Except Error Unit) (s : Store κ) :
    (check answer).run s = match answer s with
      | .ok _ => .ok () s
      | .error e => .error e s := by
  cases answered : answer s <;> simp [check, answered]

theorem run_assign {f : Field} {v : Option FieldValue} (put : s.settings.put f v = .ok settings) :
    (assign f v).run s = .ok (decide (s.settings.get f ≠ v)) { s with settings := settings } := by
  simp only [assign, EStateM.run_bind, EStateM.run_get, put, EStateM.run_set, EStateM.run_pure]

theorem run_assignAll (put : Store.putAll s.settings entries = .ok (final, changed)) :
    (assignAll entries).run s = .ok changed { s with settings := final } := by
  induction entries generalizing s changed with
  | nil =>
    cases put
    rfl
  | cons e entries ih =>
    obtain ⟨next, rest, first, after, rfl⟩ := Store.putAll_cons put
    rw [assignAll, EStateM.run_bind, run_assign first]
    simp only [EStateM.run_bind, ih (s := { s with settings := next }) after, EStateM.run_pure]
    by_cases same : s.settings.get e.1 = e.2 <;> simp [same]

/-- Assignments alone, without the checks before them, are left half done by an entry at fault. -/
example : (assignAll [(.timezone, some (.zone .utc)), (.period, some (.zone .utc))]).run (.new .empty .active) =
    (.error (.typeMismatch "period" "period") (.new { Settings.empty with timezone := some .utc } .active) :
      EStateM.Result Error (Store Unit) (List Field)) := rfl

theorem run_advance (s : Store κ) :
    (advance : Procedure κ Nat).run s = .ok (s.version + 1) { s with version := s.version + 1 } :=
  EStateM.run_modifyGet _ _

theorem run_checkPresent (present : s.status ≠ .deleted) : (checkPresent : Procedure κ Unit).run s = .ok () s := by
  rw [checkPresent, run_check, if_neg present]

theorem run_checkPresent_of_deleted (gone : s.status = .deleted) :
    (checkPresent : Procedure κ Unit).run s = .error .deleted s := by
  rw [checkPresent, run_check, if_pos gone]

theorem run_write (s : Store κ) (lease : Option Lease) (f : Field) (v : Option FieldValue) :
    (write lease f v).run s = ending s (s.write lease f v) := by
  rw [write, EStateM.run_bind, run_check]
  cases screened : s.screen lease [(f, v)] with
  | error e => rw [Store.write_of_screen_error screened, ending]
  | ok _ =>
    obtain ⟨fits, -, -⟩ := Store.screen_eq_ok_iff.mp screened
    obtain ⟨settings, put⟩ := exists_put (fits (f, v) List.mem_cons_self) s.settings
    rw [Store.write_of_screen screened put]
    simp only [EStateM.run_bind, run_assign put]
    by_cases same : s.settings.get f = v
    · simp [same, ending, Settings.put_of_get_eq put same]
    · simp only [ne_eq, same, not_false_eq_true, decide_true, if_true, if_false, EStateM.run_bind, run_advance,
        EStateM.run_pure, ending]

theorem run_writeBatch (s : Store κ) (entries : List (Field × Option FieldValue)) :
    (writeBatch entries).run s = ending s (s.writeBatch entries) := by
  rw [writeBatch, EStateM.run_bind, run_check]
  cases screened : s.screen none entries with
  | error e => rw [Store.writeBatch_of_screen_error screened, ending]
  | ok _ =>
    obtain ⟨fit, -, -⟩ := Store.screen_eq_ok_iff.mp screened
    obtain ⟨final, changed, put⟩ := Store.exists_putAll fit s.settings
    rw [Store.writeBatch_of_screen screened put]
    simp only [EStateM.run_bind, run_assignAll put]
    cases changed with
    | nil => simp [ending, Store.eq_of_putAll_nil put]
    | cons f changed =>
      simp only [List.isEmpty_cons, Bool.false_eq_true, if_false, EStateM.run_bind, run_advance, EStateM.run_pure,
        ending]

theorem run_reserve (s : Store κ) (f : Field) : (reserve f).run s = ending s (s.reserve f) := by
  rw [reserve, Store.reserve, EStateM.run_bind]
  by_cases gone : s.status = .deleted
  · rw [run_checkPresent_of_deleted gone, if_pos gone, ending]
  · simp only [run_checkPresent gone, if_neg gone, EStateM.run_bind, run_check]
    by_cases held : (s.leaseOf? f).isSome = true
    · simp only [if_pos held, ending]
    · simp only [if_neg held, EStateM.run_modifyGet, EStateM.run_modify, EStateM.run_pure, ending]

theorem run_setStatus (s : Store κ) (status : Status) (event : Lifecycle) :
    (setStatus status event).run s = ending s (s.setStatus status event) := by
  rw [setStatus, Store.setStatus, EStateM.run_bind]
  by_cases gone : s.status = .deleted
  · rw [run_checkPresent_of_deleted gone, if_pos gone, ending]
  · simp only [run_checkPresent gone, if_neg gone, EStateM.run_bind, EStateM.run_get]
    by_cases same : s.status = status
    · simp only [if_pos same, EStateM.run_pure, ending]
    · simp only [if_neg same, EStateM.run_bind, EStateM.run_modify, run_advance, EStateM.run_pure, ending]

theorem run_perform (s : Store κ) (op : Operation κ) : (perform op).run s = ending s (s.perform op) := by
  cases op with
  | write lease f v => exact run_write s lease f v
  | writeBatch entries => exact run_writeBatch s entries
  | reserve f =>
    rw [perform, EStateM.run_bind, run_reserve, Store.perform]
    cases s.reserve f <;> rfl
  | activate => exact run_setStatus s .active .activated
  | deactivate => exact run_setStatus s .inactive .deactivated
  | release _ | subscribe _ _ | unsubscribe _ | delete => rfl

end Procedure

namespace Operation

variable {κ : Type}

def entries : Operation κ → List (Field × Option FieldValue)
  | write _ f v => [(f, v)]
  | writeBatch entries => entries
  | _ => []

def shown? : Operation κ → Option Lease
  | write lease _ _ => lease
  | _ => none

def NeedsPresence : Operation κ → Prop
  | write _ _ _ | writeBatch _ | reserve _ | activate | deactivate => True
  | release _ | subscribe _ _ | unsubscribe _ | delete => False

end Operation

namespace Store

variable {κ : Type} {s : Store κ} {op : Operation κ} {e : Error}

/-- Why an operation fails. Kinds are looked at first, then the configuration, then the leases, and of several entries
the first one at fault gives the error. -/
inductive Refuses (s : Store κ) : Operation κ → Error → Prop
  | kind {op : Operation κ} {before after : List (Field × Option FieldValue)} {entry : Field × Option FieldValue}
      {e : Error} (listed : op.entries = before ++ entry :: after) (fit : ∀ b ∈ before, checkKind b = .ok ())
      (misfit : checkKind entry = .error e) : Refuses s op e
  | deleted {op : Operation κ} (needs : op.NeedsPresence) (fit : ∀ entry ∈ op.entries, checkKind entry = .ok ())
      (gone : s.status = .deleted) : Refuses s op .deleted
  | leased {op : Operation κ} {before after : List (Field × Option FieldValue)} {entry : Field × Option FieldValue}
      {e : Error} (listed : op.entries = before ++ entry :: after)
      (fit : ∀ entry ∈ op.entries, checkKind entry = .ok ()) (present : s.status ≠ .deleted)
      (free : ∀ b ∈ before, s.checkLease op.shown? b.1 = .ok ())
      (refused : s.checkLease op.shown? entry.1 = .error e) : Refuses s op e
  | reserved {f : Field} {l : Lease} (present : s.status ≠ .deleted) (held : s.leaseOf? f = some l) :
      Refuses s (.reserve f) (.fieldReserved f.name)

theorem refuses_of_screen (needs : op.NeedsPresence) (refused : s.screen op.shown? op.entries = .error e) :
    s.Refuses op e := by
  cases kinds : op.entries.forM checkKind with
  | error d =>
    simp only [screen, kinds, bind, Except.bind] at refused
    cases refused
    obtain ⟨before, entry, after, listed, fit, misfit⟩ := forM_eq_error_iff.mp kinds
    exact .kind listed fit misfit
  | ok _ =>
    have fit := forM_eq_ok_iff.mp kinds
    simp only [screen, kinds, bind, Except.bind] at refused
    by_cases gone : s.status = .deleted
    · rw [if_pos gone] at refused
      cases refused
      exact .deleted needs fit gone
    · rw [if_neg gone] at refused
      obtain ⟨before, entry, after, listed, free, held⟩ := forM_eq_error_iff.mp refused
      exact .leased listed fit gone free held

theorem setStatus_of_deleted (gone : s.status = .deleted) (status : Status) (event : Lifecycle) :
    s.setStatus status event = .error .deleted := if_pos gone

theorem perform_of_screen_error (needs : op.NeedsPresence) (refused : s.screen op.shown? op.entries = .error e) :
    s.perform op = .error e := by
  have of_none : op.entries = [] → s.status = .deleted ∧ e = .deleted := by
    intro none
    rw [none, screen] at refused
    by_cases gone : s.status = .deleted
    · simp only [List.forM, gone, if_true, pure, bind, Except.pure, Except.bind, Except.error.injEq] at refused
      exact ⟨gone, refused.symm⟩
    · simp only [List.forM, gone, if_false, pure, bind, Except.pure, Except.bind, reduceCtorEq] at refused
  cases op with
  | write lease f v => exact write_of_screen_error refused
  | writeBatch entries => exact writeBatch_of_screen_error refused
  | reserve f =>
    obtain ⟨gone, rfl⟩ := of_none rfl
    rw [perform, Store.reserve, if_pos gone, Except.map]
  | activate =>
    obtain ⟨gone, rfl⟩ := of_none rfl
    exact setStatus_of_deleted gone _ _
  | deactivate =>
    obtain ⟨gone, rfl⟩ := of_none rfl
    exact setStatus_of_deleted gone _ _
  | release _ | subscribe _ _ | unsubscribe _ | delete => exact needs.elim

theorem Refuses.perform (refused : s.Refuses op e) : s.perform op = .error e := by
  have needs_of_listed : ∀ {before entry after}, op.entries = before ++ entry :: after → op.NeedsPresence := by
    intro before entry after listed
    cases op with
    | write _ _ _ | writeBatch _ | reserve _ | activate | deactivate => trivial
    | release _ | subscribe _ _ | unsubscribe _ | delete => simp [Operation.entries] at listed
  cases refused with
  | kind listed fit misfit =>
    have kinds := forM_eq_error_iff.mpr ⟨_, _, _, listed, fit, misfit⟩
    exact perform_of_screen_error (needs_of_listed listed) (by simp only [screen, kinds, bind, Except.bind])
  | deleted needs fit gone =>
    refine perform_of_screen_error needs ?_
    simp only [screen, forM_eq_ok_iff.mpr fit, if_pos gone, bind, Except.bind]
  | leased listed fit present free held =>
    have leases := forM_eq_error_iff.mpr ⟨_, _, _, listed, free, held⟩
    refine perform_of_screen_error (needs_of_listed listed) ?_
    simp only [screen, forM_eq_ok_iff.mpr fit, if_neg present, leases, bind, Except.bind]
  | @reserved f l present held => simp [Store.perform, Store.reserve, present, held, Except.map]

theorem refuses_of_setStatus {status : Status} {event : Lifecycle} (failed : s.setStatus status event = .error e)
    (needs : op.NeedsPresence) (bare : op.entries = []) : s.Refuses op e := by
  rw [setStatus] at failed
  split at failed
  · rename_i gone
    cases failed
    exact .deleted needs (by simp [bare]) gone
  · split at failed <;> cases failed

theorem perform_eq_error_iff : s.perform op = .error e ↔ s.Refuses op e := by
  refine ⟨fun failed => ?_, Refuses.perform⟩
  cases op with
  | write lease f v =>
    cases screened : s.screen lease [(f, v)] with
    | error d =>
      cases (write_of_screen_error screened).symm.trans failed
      exact refuses_of_screen trivial screened
    | ok _ =>
      obtain ⟨fits, -, -⟩ := screen_eq_ok_iff.mp screened
      -- What passes the screen is written, so that the error was the screen's.
      obtain ⟨settings, put⟩ := exists_put (fits (f, v) List.mem_cons_self) s.settings
      cases (write_of_screen screened put).symm.trans failed
  | writeBatch entries =>
    cases screened : s.screen none entries with
    | error d =>
      cases (writeBatch_of_screen_error screened).symm.trans failed
      exact refuses_of_screen trivial screened
    | ok _ =>
      obtain ⟨fit, -, -⟩ := screen_eq_ok_iff.mp screened
      obtain ⟨final, changed, put⟩ := exists_putAll fit s.settings
      cases (writeBatch_of_screen screened put).symm.trans failed
  | reserve f =>
    rw [Store.perform, Store.reserve] at failed
    by_cases gone : s.status = .deleted
    · rw [if_pos gone] at failed
      cases failed
      exact .deleted trivial (by simp [Operation.entries]) gone
    · cases held : s.leaseOf? f with
      | none => simp [gone, held, Except.map] at failed
      | some l =>
        simp only [if_neg gone, held, Option.isSome_some, if_true, Except.map] at failed
        cases failed
        exact .reserved gone held
  | activate => exact refuses_of_setStatus failed trivial rfl
  | deactivate => exact refuses_of_setStatus failed trivial rfl
  | release _ | subscribe _ _ | unsubscribe _ | delete => cases failed

end Store

namespace Hub

/-- A call of the store. The store stays as the call has left it, however it ended; there is something to be heard only
if it has succeeded. -/
def call (h : Hub) (op : Operation Watcher) : Except Error Unit × Hub :=
  match (Procedure.perform op).run h.store with
  | .ok events s => (.ok (), h.commit (s, events))
  | .error e s => (.error e, { h with store := s })

theorem call_of_perform {h : Hub} {op : Operation Watcher} {next : Store Watcher × List Event}
    (performed : h.store.perform op = .ok next) : h.call op = (.ok (), h.commit next) := by
  rw [call, Procedure.run_perform, performed, Procedure.ending]

theorem call_of_error {h : Hub} {op : Operation Watcher} {e : Error} (failed : h.store.perform op = .error e) :
    h.call op = (.error e, h) := by
  rw [call, Procedure.run_perform, failed, Procedure.ending]

theorem take_of_error {h : Hub} {op : Operation Watcher} {e : Error} (failed : h.store.perform op = .error e) :
    h.take (.ask op) = h := by
  cases op with
  | subscribe _ _ => cases failed
  | _ =>
    simp only [take, failed]
    rfl

/-- A call fails exactly if it is refused, wherever in its list the entry at fault stands, and with its error. Then it
leaves all as it was: values, status, version, leases, the next token and the subscriptions, and also what has been
heard and what is waiting to be heard. -/
theorem call_refused (h : Hub) (op : Operation Watcher) (e : Error) :
    ((h.call op).1 = .error e ↔ h.store.Refuses op e) ∧
      ((h.call op).1 = .error e → (h.call op).2 = h ∧ h.take (.ask op) = h ∧ h.store.perform op = .error e) := by
  rw [← Store.perform_eq_error_iff]
  cases performed : h.store.perform op with
  | ok next =>
    rw [call_of_perform performed]
    exact ⟨⟨nofun, nofun⟩, nofun⟩
  | error d =>
    rw [call_of_error performed]
    refine ⟨?_, fun same => ⟨rfl, take_of_error performed, congrArg _ (Except.error.inj same)⟩⟩
    rw [Except.error.injEq, Except.error.injEq]

def watched : Hub :=
  (ofStore (.new .empty .active)).run
    [.ask (.subscribe [.timezone, .startTime] ⟨"clock", .record⟩), .ask (.reserve .nextExecution)]

theorem leased_field_in_batch :
    (watched.call (.writeBatch [(.timezone, some (.zone .utc))])).2.pending.length = 1 ∧
      (watched.call (.writeBatch [(.timezone, some (.zone .utc)), (.nextExecution, none), (.endTime, none)])).1 =
        .error (.fieldReserved "next_execution_time") ∧
      (watched.call (.writeBatch [(.timezone, some (.zone .utc)), (.nextExecution, none), (.endTime, none)])).2 =
        watched := by
  have failed : (watched.call
      (.writeBatch [(.timezone, some (.zone .utc)), (.nextExecution, none), (.endTime, none)])).1 =
        .error (.fieldReserved "next_execution_time") := by rfl
  exact ⟨by decide +kernel, failed, ((call_refused watched _ _).2 failed).1⟩

end Hub

end Cadence
