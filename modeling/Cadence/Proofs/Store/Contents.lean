import Cadence.Proofs.Store.Operation

/-!
What a store holds. Of a run, those operations count that succeed: they say what was written to a field last, and what
became of the configuration last. That is what the store shows, in a snapshot of any fields and as a configuration,
for as long as it is there; once it is deleted it shows nothing and takes nothing any more (`holds_lastWritten`). An
operation of a listener is an operation like any other here.
-/

namespace Cadence

def latest {α β : Type} (answer? : α → Option β) (before : β) (l : List α) : β :=
  (l.reverse.findSome? answer?).getD before

theorem latest_append {α β : Type} (answer? : α → Option β) (before : β) (first second : List α) :
    latest answer? before (first ++ second) = latest answer? (latest answer? before first) second := by
  simp only [latest, List.reverse_append, List.findSome?_append]
  cases second.reverse.findSome? answer? <;> rfl

theorem latest_singleton {α β : Type} (answer? : α → Option β) (before : β) (x : α) :
    latest answer? before [x] = (answer? x).getD before := by
  simp [latest]

namespace Operation

variable {κ : Type}

/-- What an operation writes to a field, if it succeeds. Of a batch the last entry for the field counts. -/
def written? (f : Field) : Operation κ → Option (Option FieldValue)
  | write _ g v => if g = f then some v else none
  | writeBatch entries => (entries.reverse.find? fun e => e.1 = f).map Prod.snd
  | _ => none

/-- What becomes of the configuration by an operation, if it succeeds. -/
def status? : Operation κ → Option Status
  | activate => some .active
  | deactivate => some .inactive
  | delete => some .deleted
  | _ => none

end Operation

namespace Store

variable {κ : Type}

def succeeding : Store κ → List (Operation κ) → List (Operation κ)
  | _, [] => []
  | s, op :: ops => [op].filter (fun op => (s.perform op).isOk) ++ succeeding (s.after op).1 ops

/-- What a field was given last, by a write or a batch that succeeded, or else what it had before the run. -/
def lastWritten (s : Store κ) (ops : List (Operation κ)) (f : Field) : Option FieldValue :=
  latest (Operation.written? f) (s.settings.get f) (s.succeeding ops)

def lastStatus (s : Store κ) (ops : List (Operation κ)) : Status := latest Operation.status? s.status (s.succeeding ops)

/-- The configuration can be neither read nor changed. -/
structure IsGone (s : Store κ) : Prop where
  snapshot : ∀ fields, s.snapshot fields = .error (.aborted "configuration resource deleted")
  toConfiguration : s.toConfiguration = .error .deleted
  write : ∀ lease f v, ∃ e, s.write lease f v = .error e
  writeBatch : ∀ entries, ∃ e, s.writeBatch entries = .error e
  reserve : ∀ f, s.reserve f = .error .deleted
  activate : s.activate = .error .deleted
  deactivate : s.deactivate = .error .deleted

variable {s t : Store κ} {op : Operation κ} {events : List Event}

theorem counts_cases (s : Store κ) (op : Operation κ) :
    (s.after op).1 = s ∧ [op].filter (fun op => (s.perform op).isOk) = [] ∨
      s.perform op = .ok (s.after op) ∧ [op].filter (fun op => (s.perform op).isOk) = [op] := by
  obtain ⟨⟨e, failed⟩, same⟩ | ⟨performed, -⟩ := s.after_cases op
  · exact .inl ⟨by rw [same], by simp [failed, Except.isOk, Except.toBool]⟩
  · exact .inr ⟨performed, by simp [performed, Except.isOk, Except.toBool]⟩

theorem putAll_written {settings final : Settings} {entries : List (Field × Option FieldValue)} {changed : List Field}
    (h : putAll settings entries = .ok (final, changed)) (f : Field) :
    final.get f = (((Operation.writeBatch entries : Operation κ).written? f).getD (settings.get f)) := by
  induction entries generalizing settings changed with
  | nil =>
    cases h
    rfl
  | cons e entries ih =>
    obtain ⟨next, rest, put, after, -⟩ := putAll_cons h
    have moved : next.get f = if e.1 = f then e.2 else settings.get f := by
      by_cases first : e.1 = f
      · rw [if_pos first, ← first, Settings.get_put_self put]
      · rw [if_neg first, Settings.get_put_other put (Ne.symm first)]
    rw [ih after, moved]
    simp only [Operation.written?, List.reverse_cons, List.find?_append, List.find?_singleton]
    cases entries.reverse.find? fun e => e.1 = f with
    | some later => rfl
    | none => by_cases first : e.1 = f <;> simp [first]

theorem get_of_write {lease : Option Lease} {f : Field} {v : Option FieldValue}
    (h : s.write lease f v = .ok (t, events)) (g : Field) :
    t.settings.get g = ((Operation.write lease f v : Operation κ).written? g).getD (s.settings.get g) := by
  have value : t.settings.get f = v := by
    cases does_write h with
    | nothing same => simpa [changes, effects] using same
    | write put _ _ _ => exact Settings.get_put_self put
  by_cases this : f = g
  · rw [Operation.written?, if_pos this, ← this, value]
    rfl
  · rw [Operation.written?, if_neg this]
    cases does_write h with
    | nothing _ => rfl
    | write put _ _ _ => exact Settings.get_put_other put (Ne.symm this)

theorem get_of_writeBatch {entries : List (Field × Option FieldValue)} (h : s.writeBatch entries = .ok (t, events))
    (g : Field) :
    t.settings.get g = ((Operation.writeBatch entries : Operation κ).written? g).getD (s.settings.get g) := by
  cases put : putAll s.settings entries with
  | error e => simp [Store.writeBatch, put, bind, Except.bind] at h
  | ok result =>
    obtain ⟨final, changed⟩ := result
    rw [← putAll_written put g]
    cases does_writeBatch h with
    | nothing same =>
      rw [changes, ← effects_of_putAll put, List.map_eq_nil_iff] at same
      rw [same] at put
      rw [eq_of_putAll_nil put]
    | writeBatch put' _ _ _ =>
      rw [put] at put'
      cases put'
      rfl

theorem get_of_perform (h : s.perform op = .ok (t, events)) (kept : op ≠ .delete) (f : Field) :
    t.settings.get f = (op.written? f).getD (s.settings.get f) := by
  cases op with
  | write lease g v => exact get_of_write h f
  | writeBatch entries => exact get_of_writeBatch h f
  | delete => exact absurd rfl kept
  | reserve _ | release _ | subscribe _ _ | unsubscribe _ | activate | deactivate =>
    cases does_of_perform h <;> rfl

theorem get_after (s : Store κ) (kept : op ≠ .delete) (f : Field) :
    (s.after op).1.settings.get f =
      latest (Operation.written? f) (s.settings.get f) ([op].filter fun op => (s.perform op).isOk) := by
  obtain ⟨same, ignored⟩ | ⟨performed, counted⟩ := s.counts_cases op
  · rw [same, ignored]
    rfl
  · rw [counted, latest_singleton, get_of_perform (t := (s.after op).1) performed kept]

theorem get_run (s : Store κ) {ops : List (Operation κ)} (kept : .delete ∉ ops) (f : Field) :
    (s.run ops).settings.get f = s.lastWritten ops f := by
  induction ops generalizing s with
  | nil => rfl
  | cons op ops ih =>
    obtain ⟨first, rest⟩ := not_or.mp (mt List.mem_cons.mpr kept)
    calc (s.run (op :: ops)).settings.get f = (s.after op).1.lastWritten ops f := ih (s.after op).1 rest
      _ = s.lastWritten (op :: ops) f := by
        rw [lastWritten, lastWritten, succeeding, latest_append, get_after s (Ne.symm first)]

theorem status_of_perform (h : s.perform op = .ok (t, events)) : t.status = op.status?.getD s.status := by
  cases does_of_perform h with
  | nothing same =>
    cases op with
    | activate | deactivate | delete => simpa [changes, Operation.status?] using same
    | _ => rfl
  | _ => rfl

theorem status_after (s : Store κ) (op : Operation κ) :
    (s.after op).1.status = latest Operation.status? s.status ([op].filter fun op => (s.perform op).isOk) := by
  obtain ⟨same, ignored⟩ | ⟨performed, counted⟩ := s.counts_cases op
  · rw [same, ignored]
    rfl
  · rw [counted, latest_singleton, status_of_perform (t := (s.after op).1) performed]

theorem status_run (s : Store κ) (ops : List (Operation κ)) : (s.run ops).status = s.lastStatus ops := by
  induction ops generalizing s with
  | nil => rfl
  | cons op ops ih =>
    calc (s.run (op :: ops)).status = (s.after op).1.lastStatus ops := ih (s.after op).1
      _ = s.lastStatus (op :: ops) := by rw [lastStatus, lastStatus, succeeding, latest_append, status_after]

theorem status_after_eq_deleted (s : Store κ) (op : Operation κ) :
    (s.after op).1.status = .deleted ↔ s.status = .deleted ∨ op = .delete := by
  obtain ⟨⟨e, failed⟩, same⟩ | ⟨performed, _⟩ := s.after_cases op
  · rw [same]
    refine (or_iff_left ?_).symm
    rintro rfl
    cases failed
  · rw [status_of_perform (t := (s.after op).1) performed]
    cases op with
    | activate | deactivate =>
      -- They are refused once the configuration is deleted.
      have present : s.status ≠ .deleted := by
        intro gone
        simp [perform, Store.activate, Store.deactivate, setStatus, gone] at performed
      simp [Operation.status?, present]
    | _ => simp [Operation.status?]

theorem status_run_eq_deleted (s : Store κ) (ops : List (Operation κ)) :
    (s.run ops).status = .deleted ↔ s.status = .deleted ∨ .delete ∈ ops := by
  induction ops generalizing s with
  | nil => simp [run]
  | cons op ops ih =>
    refine (ih (s.after op).1).trans ?_
    rw [status_after_eq_deleted, List.mem_cons, or_assoc, eq_comm (a := op)]

theorem Does.frozen (h : Does s op t events) (gone : s.status = .deleted) :
    t.settings = s.settings ∧ t.version = s.version := by
  cases h with
  | write _ present _ _ | writeBatch _ present _ _ | delete present => exact absurd gone present
  | activate resting => exact absurd gone (by simp [resting])
  | deactivate active => exact absurd gone (by simp [active])
  | nothing _ | reserve _ _ | release _ | subscribe _ _ | unsubscribe _ => exact ⟨rfl, rfl⟩

theorem frozen_run (gone : s.status = .deleted) (ops : List (Operation κ)) :
    (s.run ops).status = .deleted ∧ (s.run ops).settings = s.settings ∧ (s.run ops).version = s.version := by
  induction ops generalizing s with
  | nil => exact ⟨gone, rfl, rfl⟩
  | cons op ops ih =>
    have still := (status_after_eq_deleted s op).mpr (.inl gone)
    have same : (s.after op).1.settings = s.settings ∧ (s.after op).1.version = s.version := by
      obtain ⟨_, same⟩ | ⟨_, done⟩ := s.after_cases op
      · rw [same]
        exact ⟨rfl, rfl⟩
      · exact done.frozen gone
    obtain ⟨status, settings, version⟩ := ih still
    exact ⟨status, settings.trans same.1, version.trans same.2⟩

theorem Does.cleared (h : Does s op t events) (empty : s.status = .deleted → s.settings = .empty)
    (gone : t.status = .deleted) : t.settings = .empty := by
  cases h with
  | write _ present _ _ | writeBatch _ present _ _ => exact absurd gone present
  | activate _ | deactivate _ => cases gone
  | delete _ => rfl
  | nothing _ | reserve _ _ | release _ | subscribe _ _ | unsubscribe _ => exact empty gone

theorem cleared_run (empty : s.status = .deleted → s.settings = .empty) (ops : List (Operation κ)) :
    (s.run ops).status = .deleted → (s.run ops).settings = .empty := by
  induction ops generalizing s with
  | nil => exact empty
  | cons op ops ih =>
    refine ih (s := (s.after op).1) fun gone => ?_
    obtain ⟨_, same⟩ | ⟨_, done⟩ := s.after_cases op
    · rw [same] at gone ⊢
      exact empty gone
    · exact done.cleared empty gone

theorem isGone_of_deleted (gone : s.status = .deleted) : s.IsGone where
  snapshot _ := if_pos gone
  toConfiguration := if_pos gone
  write lease f v := by
    cases put : s.settings.put f v <;> simp [Store.write, put, gone, bind, Except.bind]
  writeBatch entries := by
    cases put : putAll s.settings entries <;> simp [Store.writeBatch, put, gone, bind, Except.bind]
  reserve _ := if_pos gone
  activate := if_pos gone
  deactivate := if_pos gone

theorem ofConfiguration_eq_ok {c : Configuration} (h : ofConfiguration c = .ok s) :
    c.settings.validate = .ok () ∧ s = new c.settings (if c.active then .active else .inactive) := by
  simp only [ofConfiguration, Settings.ofCells_cells, bind, Except.bind] at h
  split at h
  · cases h
  · rename_i valid
    exact ⟨valid, (Except.ok.inj h).symm⟩

variable {start : Store κ} {ops : List (Operation κ)}

/-- As long as the configuration is there, a snapshot has of the fields that are asked for what each was given last, of
its own kind, and nothing of the others; the configuration has all of them, and is active if that was said last. It is
deleted from the first deletion on, and then all reading and writing fails, whatever else happens, and nothing is
left. -/
theorem holds_lastWritten (begun : start = .empty ∨ ∃ c, ofConfiguration c = .ok start) (ran : start.run ops = s) :
    (s.status ≠ .deleted →
      (∀ fields, ∃ shown, s.snapshot fields = .ok shown ∧
        (∀ f, shown.settings.get f = if f ∈ fields then start.lastWritten ops f else none) ∧
        (shown.active = true ↔ start.lastStatus ops = .active)) ∧
      (∃ c, s.toConfiguration = .ok c ∧ (∀ f, c.settings.get f = start.lastWritten ops f) ∧
        (c.active = true ↔ start.lastStatus ops = .active)) ∧
      ∀ f v, start.lastWritten ops f = some v → f.check v = .ok ()) ∧
    (s.status = .deleted ↔ .delete ∈ ops) ∧
    (s.status = .deleted → ∀ later, (s.run later).IsGone ∧ (s.run later).settings = .empty ∧
      (s.run later).version = s.version) := by
  subst ran
  have present : start.status ≠ .deleted := by
    obtain rfl | ⟨c, made⟩ := begun
    · exact nofun
    · rw [(ofConfiguration_eq_ok made).2]
      change (if c.active then Status.active else .inactive) ≠ .deleted
      split <;> decide
  have deleted := (status_run_eq_deleted start ops).trans (or_iff_right present)
  refine ⟨fun here => ?_, deleted, fun gone later => ?_⟩
  · have value : ∀ f, (start.run ops).settings.get f = start.lastWritten ops f :=
      start.get_run (mt deleted.mpr here)
    have active : (start.run ops).isActive = true ↔ start.lastStatus ops = .active := by
      rw [isActive, beq_iff_eq, status_run]
    refine ⟨fun fields => ⟨_, if_neg here, fun f => ?_, active⟩,
      ⟨_, toConfiguration_of_present here, value, active⟩, fun f v last => ?_⟩
    · rw [Settings.get_restrict, value]
    · rw [← value] at last
      exact if_pos (Settings.get_kind last)
  · obtain ⟨still, settings, version⟩ := frozen_run gone later
    have empty := cleared_run (fun none => absurd none present) ops gone
    exact ⟨isGone_of_deleted still, settings.trans empty, version⟩

def redraft : List (Operation Unit) :=
  [.write none .timezone (some (.zone .utc)),
    .write none .period (some (.zone .utc)),
    .reserve .endTime,
    .writeBatch [(.timezone, none), (.endTime, none)],
    .subscribe [.timezone] (),
    .writeBatch [(.timezone, none), (.period, some (.period ⟨1, .clock .hours⟩)), (.timezone, some (.zone .system))],
    .write (some ⟨.endTime, 1⟩) .period none,
    .deactivate,
    .write (some ⟨.endTime, 1⟩) .timezone (some (.zone .utc))]

def everyOtherDay : Configuration := ⟨⟨some ⟨2, .calendar .days⟩, none, none, none, none⟩, true⟩

theorem redraft_holds :
    ∃ start : Store Unit, ofConfiguration everyOtherDay = .ok start ∧
      start.lastWritten redraft .timezone = some (.zone .system) ∧
      (∃ shown, (start.run redraft).snapshot [.timezone, .endTime] = .ok shown ∧
        (∀ f, shown.settings.get f = if f ∈ [.timezone, .endTime] then start.lastWritten redraft f else none) ∧
        (shown.active = true ↔ start.lastStatus redraft = .active)) ∧
      ((start.run (redraft ++ [.delete])).run redraft).IsGone := by
  have made : ofConfiguration everyOtherDay = .ok (new everyOtherDay.settings .active : Store Unit) := rfl
  refine ⟨_, made, by decide +kernel, ?_, ?_⟩
  · have ran := Eq.refl ((new everyOtherDay.settings .active : Store Unit).run redraft)
    obtain ⟨held, -⟩ := holds_lastWritten (.inr ⟨_, made⟩) ran
    exact (held (by decide +kernel)).1 [.timezone, .endTime]
  · have deleted : .delete ∈ redraft ++ [.delete] := by decide +kernel
    have ran := Eq.refl ((new everyOtherDay.settings .active : Store Unit).run (redraft ++ [.delete]))
    obtain ⟨-, gone, after⟩ := holds_lastWritten (.inr ⟨_, made⟩) ran
    exact (after (gone.mpr deleted) redraft).1

end Store

end Cadence
