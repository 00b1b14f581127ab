import Cadence.Proofs.Store.Leasing
import Cadence.Proofs.Timer.Creation

/-!
What is left where a timer cannot be created. Nothing happens as long as the configuration has not been claimed. After
that the claim is given back and the status is as before, but nothing is undone of what was written, and the first thing
that is written clears the next execution time. So the old schedule is lost where no start can be computed and where the
period or the start is leased to somebody else (`create_failed`).
-/

namespace Cadence

namespace Store

variable {κ : Type} {s t u : Store κ} {op : Operation κ} {events : List Event} {f : Field} {l : Lease} {e : Error}

theorem Does.leases (h : Does s op t events) (reserved : ∀ f, op ≠ .reserve f) (released : ∀ l, op ≠ .release l)
    (present : op ≠ .delete) : t.leases = s.leases := by
  cases h with
  | reserve _ _ => exact absurd rfl (reserved _)
  | release l => exact absurd rfl (released l)
  | delete _ => exact absurd rfl present
  | nothing _ | write _ _ _ _ | writeBatch _ _ _ _ | subscribe _ _ | unsubscribe _ | activate _ | deactivate _ => rfl

theorem leases_release (reserved : s.reserve f = .ok (t, l)) (kept : u.leases = t.leases) :
    (u.release l).leases = s.leases := by
  obtain ⟨-, free, rfl, rfl⟩ := reserve_eq_ok reserved
  have others : ∀ held ∈ s.leases, held ≠ ⟨f, s.nextToken⟩ := by
    rintro held member rfl
    exact leaseOf?_eq_none.mp free _ member rfl
  simp only [release, kept, ne_eq, not_true_eq_false, decide_false, Bool.false_eq_true, not_false_eq_true,
    List.filter_cons_of_neg, List.filter_eq_self, decide_eq_true_eq]
  exact others

theorem exists_clear (present : s.status ≠ .deleted) (held : s.leaseOf? f = some l) :
    ∃ next, s.write (some l) f none = .ok next := by
  obtain ⟨settings, put⟩ := s.settings.put_none f
  simp only [write, put, if_neg present, checkLease, held, bind, Except.bind, if_true]
  split <;> exact ⟨_, rfl⟩

theorem exists_activate (present : s.status ≠ .deleted) : ∃ next, s.activate = .ok next := by
  simp only [activate, setStatus, if_neg present]
  split <;> exact ⟨_, rfl⟩

theorem forM_checkLease_eq_error {entries : List (Field × Option FieldValue)}
    (h : (entries.forM fun entry => s.checkLease none entry.1) = .error e) :
    ∃ f ∈ entries.map Prod.fst, (s.leaseOf? f).isSome ∧ e = .fieldReserved f.name := by
  induction entries with
  | nil => cases h
  | cons entry entries ih =>
    cases held : s.leaseOf? entry.1 with
    | some l =>
      simp only [List.forM, checkLease, held, bind, Except.bind] at h
      cases h
      exact ⟨entry.1, List.mem_cons_self, by rw [held]; rfl, rfl⟩
    | none =>
      simp only [List.forM, checkLease, held, bind, Except.bind] at h
      obtain ⟨f, member, reserved⟩ := ih h
      exact ⟨f, List.mem_cons_of_mem entry.1 member, reserved⟩

theorem writeBatch_eq_error {entries : List (Field × Option FieldValue)} {result : Settings × List Field}
    (present : s.status ≠ .deleted) (put : putAll s.settings entries = .ok result)
    (h : s.writeBatch entries = .error e) :
    ∃ f ∈ entries.map Prod.fst, (s.leaseOf? f).isSome ∧ e = .fieldReserved f.name := by
  obtain ⟨settings, changed⟩ := result
  simp only [writeBatch, put, if_neg present, bind, Except.bind] at h
  cases free : entries.forM fun entry => s.checkLease none entry.1 with
  | error f =>
    rw [free] at h
    cases h
    exact forM_checkLease_eq_error free
  | ok _ =>
    simp only [free] at h
    split at h <;> cases h

end Store

namespace Scheduler

variable {s u : Scheduler} {period : Period} {start : Option Instant} {e : Error}

theorem commit_eq_error {returned : Except Error Unit} {answer : Except Error (Store Watch × List Event)}
    (h : (do returned; let next ← answer; .ok (s.commit next)) = (Except.error e : Except Error Scheduler)) :
    returned = .error e ∨ answer = .error e := by
  cases returned with
  | error f =>
    cases h
    exact .inl rfl
  | ok _ =>
    cases answer with
    | error f =>
      cases h
      exact .inr rfl
    | ok next => cases h

theorem create_eq_error [Host] (h : s.create period start = (u, .error e)) :
    (u = s ∧ (period.amount = .error e ∨ s.reserve .nextExecution = .error e)) ∨
      ∃ claimed l failed, s.reserve .nextExecution = .ok (claimed, l) ∧
        claimed.seed l period start = (failed, .error e) ∧
        ((e = .offCalendar ∧ u = failed) ∨ (e ≠ .offCalendar ∧ u = failed.release l)) := by
  rw [create] at h
  split at h
  · rename_i unusable
    cases h
    exact .inl ⟨rfl, .inl unusable⟩
  · split at h
    · rename_i refused
      cases h
      exact .inl ⟨rfl, .inr refused⟩
    · rename_i claimed l reserved
      refine .inr ⟨claimed, l, ?_⟩
      split at h
      · rename_i failed seeded
        cases h
        exact ⟨u, reserved, seeded, .inl ⟨rfl, rfl⟩⟩
      · rename_i failed f on seeded
        cases h
        exact ⟨failed, reserved, seeded, .inr ⟨on, rfl⟩⟩
      · cases h

section Commit

variable (op : Operation Watch) {next : Store Watch × List Event} (performed : s.store.perform op = .ok next)
include performed

theorem leases_commit (reserved : ∀ f, op ≠ .reserve f) (released : ∀ l, op ≠ .release l) (present : op ≠ .delete) :
    (s.commit next).store.leases = s.store.leases := by
  rw [commit_store]
  exact (Store.does_of_perform (t := next.1) performed).leases reserved released present

end Commit

theorem checkCall_commit (s : Scheduler) (next : Store Watch × List Event) (call : Call) :
    (s.commit next).checkCall call = s.checkCall call := by
  obtain ⟨timers, same⟩ := s.exists_commit next
  rw [checkCall, checkCall, same]

/-- How far a configuration has been filled in where that fails. -/
theorem seed_failed [Host] {l : Lease} {failed : Scheduler} (present : s.store.status ≠ .deleted)
    (held : s.store.leaseOf? .nextExecution = some l) (h : s.seed l period start = (failed, .error e)) :
    failed.store.status = s.store.status ∧ failed.store.leases = s.store.leases ∧
      ((failed.store.settings = s.store.settings ∧ s.checkCall (.write .nextExecution) = .error e) ∨
        (failed.store.settings = { s.store.settings with nextExecution := none } ∧
          (s.startOf period start = .error e ∨ s.checkCall .batch = .error e ∨
            ∃ f ∈ [.period, .startTime], (s.store.leaseOf? f).isSome ∧ e = .fieldReserved f.name)) ∨
        ∃ first, s.startOf period start = .ok first ∧ s.checkCall .activate = .error e ∧
          failed.store.settings =
            { s.store.settings with period := some period, startTime := some first, nextExecution := none }) := by
  obtain ⟨rfl, unwritten⟩ | ⟨cleared, wrote, rest⟩ := seed_eq_error h
  · refine ⟨rfl, rfl, .inl ⟨rfl, ?_⟩⟩
    obtain out | refused := commit_eq_error unwritten
    · exact out
    · obtain ⟨next, written⟩ := Store.exists_clear present held
      cases written.symm.trans refused
  obtain ⟨one, written, rfl⟩ := write_eq_ok wrote
  have status : (s.commit one).store.status = s.store.status :=
    status_commit (.write (some l) .nextExecution none) written
  have leases : (s.commit one).store.leases = s.store.leases :=
    leases_commit (.write (some l) .nextExecution none) written (by simp) (by simp) (by simp)
  have settings := settings_of_clear written
  have begins : (s.commit one).startOf period start = s.startOf period start := by
    obtain ⟨timers, same⟩ := s.exists_commit one
    exact startOf_congr (by rw [same]) (by rw [same]) status (by rw [settings])
  rw [begins] at rest
  obtain ⟨rfl, unknown⟩ | ⟨first, found, ⟨rfl, unfilled⟩ | ⟨filled, unturned⟩⟩ := rest
  · exact ⟨status, leases, .inr (.inl ⟨settings, .inl unknown⟩)⟩
  · refine ⟨status, leases, .inr (.inl ⟨settings, .inr ?_⟩)⟩
    obtain out | refused := commit_eq_error unfilled
    · exact .inl ((s.checkCall_commit one .batch).symm.trans out)
    · obtain ⟨f, member, leased, cause⟩ := Store.writeBatch_eq_error (status ▸ present) rfl refused
      rw [Store.leaseOf?, leases] at leased
      exact .inr ⟨f, member, leased, cause⟩
  · obtain ⟨two, put, rfl⟩ := writeBatch_eq_ok filled
    have status' := status_commit (.writeBatch _) put
    have leases' := leases_commit (.writeBatch _) put (by simp) (by simp) (by simp)
    refine ⟨status'.trans status, leases'.trans leases, .inr (.inr ⟨first, found, ?_, ?_⟩)⟩
    · obtain out | refused := commit_eq_error unturned
      · rw [checkCall_commit, checkCall_commit] at out
        exact out
      · obtain ⟨next, turned⟩ := Store.exists_activate (status'.trans status ▸ present)
        cases turned.symm.trans refused
    · rw [settings_of_fill put, settings]

/-- Where a timer cannot be created, the status is as before, and so are the leases. The values are as before if the
configuration was not claimed. If it was, the next execution time has been cleared; a store that takes the new period
and start and then refuses to be activated keeps these as well. -/
theorem create_failed [Host] (h : s.create period start = (u, .error e)) :
    u.store.status = s.store.status ∧ (e ≠ .offCalendar → u.store.leases = s.store.leases) ∧
      ((u.store.settings = s.store.settings ∧
          (period.amount = .error e ∨ s.reserve .nextExecution = .error e ∨
            s.checkCall (.write .nextExecution) = .error e)) ∨
        (u.store.settings = { s.store.settings with nextExecution := none } ∧
          (s.startOf period start = .error e ∨ s.checkCall .batch = .error e ∨
            ∃ f ∈ [.period, .startTime], (s.store.leaseOf? f).isSome ∧ e = .fieldReserved f.name)) ∨
        ∃ first, s.startOf period start = .ok first ∧ s.checkCall .activate = .error e ∧
          u.store.settings =
            { s.store.settings with period := some period, startTime := some first, nextExecution := none }) := by
  obtain ⟨rfl, early⟩ | ⟨claimed, l, failed, reserved, seeded, left⟩ := create_eq_error h
  · refine ⟨rfl, fun _ => rfl, .inl ⟨rfl, ?_⟩⟩
    exact early.imp_right .inl
  have held := leaseOf?_of_reserve reserved
  obtain ⟨store, taken, rfl⟩ := reserve_eq_ok reserved
  obtain ⟨present, -, handed, next⟩ := Store.reserve_eq_ok taken
  have present' : store.status ≠ .deleted := by
    rw [next]
    exact present
  have begins : startOf { s with store := store } period start = s.startOf period start :=
    startOf_congr rfl rfl (by rw [next]) (by rw [next])
  obtain ⟨status, leases, values⟩ := seed_failed (s := { s with store := store }) present' held seeded
  rw [begins] at values
  have kept : u.store.status = failed.store.status ∧ u.store.settings = failed.store.settings ∧
      (e ≠ .offCalendar → u.store.leases = s.store.leases) := by
    obtain ⟨off, rfl⟩ | ⟨-, rfl⟩ := left
    · exact ⟨rfl, rfl, fun on => absurd off on⟩
    · exact ⟨rfl, rfl, fun _ => Store.leases_release taken leases⟩
  rw [kept.1, kept.2.1, status]
  subst next handed
  refine ⟨rfl, kept.2.2, ?_⟩
  obtain ⟨same, out⟩ | ⟨cleared, cause⟩ | ⟨first, found, out, filled⟩ := values
  · exact .inl ⟨same, .inr (.inr out)⟩
  · refine .inr (.inl ⟨cleared, ?_⟩)
    refine cause.imp_right (Or.imp_right ?_)
    -- The lease that was taken is on another field.
    rintro ⟨f, member, leased, refused⟩
    refine ⟨f, member, ?_, refused⟩
    obtain rfl | rfl : f = .period ∨ f = .startTime := by simpa using member
    · exact leased
    · exact leased
  · exact .inr (.inr ⟨first, found, out, filled⟩)

def halfPastIn2300 : Instant := ⟨⟨10413793800000000000, false⟩, by decide⟩

def scheduledIn2300 : Scheduler :=
  .new (.new ⟨none, none, none, some .utc, some ⟨⟨10413795600000000000, false⟩, by decide⟩⟩ .active) halfPastIn2300

theorem quarters_fail_in_2300 :
    ∃ u e, scheduledIn2300.create ⟨15, .clock .minutes⟩ none = (u, .error e) ∧ u.store.status = .active ∧
      u.store.leases = [] ∧ u.store.settings = ⟨none, none, none, some .utc, none⟩ := by
  have refused : (scheduledIn2300.create ⟨15, .clock .minutes⟩ none).2 =
      .error (.overflow (.truncateInstant halfPastIn2300 (.clock .hours))) := rfl
  have failed : scheduledIn2300.create ⟨15, .clock .minutes⟩ none = (_, .error _) := Prod.ext rfl refused
  obtain ⟨status, leases, values⟩ := create_failed failed
  refine ⟨_, _, failed, status, leases (by simp), ?_⟩
  obtain ⟨-, unusable | unreserved | out⟩ | ⟨cleared, -⟩ | ⟨first, -, out, -⟩ := values
  · cases unusable
  · cases unreserved
  · cases out
  · exact cleared
  · cases out

theorem old_schedule_is_lost :
    (scheduledIn2300.create ⟨15, .clock .minutes⟩ none).2 =
        .error (.overflow (.truncateInstant halfPastIn2300 (.clock .hours))) ∧
      scheduledIn2300.store.settings.nextExecution = some ⟨⟨10413795600000000000, false⟩, by decide⟩ ∧
      (scheduledIn2300.create ⟨15, .clock .minutes⟩ none).1.store.settings.nextExecution = none :=
  ⟨rfl, rfl, rfl⟩

end Scheduler

end Cadence
