import Cadence.Proofs.Timer.Afterlife
import Cadence.Proofs.Timer.Hearing
import Cadence.Proofs.Timer.Restraint
import Mathlib.Data.Nat.Basic
import Mathlib.Logic.Function.Iterate
import Mathlib.Order.Basic

/-!
How the queue of a timer is drained. While it handles its work, a timer makes more work for itself: an activation has it
resumed, which asks for a recompute, and the start that it gives to a schedule comes back to it as an edit. That comes
to an end. The start brings one piece of work at most, there is one start to give, and nothing that is handled leads to
an activation. So what is left to do (`backlog`) gets less with every step of the worker, and it is a bound for the
number of steps until the queue is empty (`drain_ends`).
-/

namespace Cadence

/-- What some work comes to: an activation may lead to one more piece of work. -/
def Work.load (works : List Work) : Nat := works.length + works.count (.lifecycle .activated)

namespace Work

theorem load_append (works later : List Work) : load (works ++ later) = load works + load later := by
  simp only [load, List.length_append, List.count_append]
  omega

theorem load_cons (work : Work) (rest : List Work) :
    load (work :: rest) = load rest + 1 + if work = .lifecycle .activated then 1 else 0 := by
  by_cases activation : work = .lifecycle .activated
  · simp only [load, activation, List.length_cons, List.count_cons_self, if_true]
    omega
  · simp only [load, List.length_cons, List.count_cons_of_ne activation, if_neg activation]
    omega

theorem load_le_of_sublist {works later : List Work} (h : works.Sublist later) : load works ≤ load later :=
  Nat.add_le_add h.length_le (h.count_le _)

end Work

namespace Timer

theorem armAlarm_queue (t : Timer) (delay : Duration) : (t.armAlarm delay).queue = t.queue := by
  rw [armAlarm]
  split
  · split <;> rfl
  · rfl

end Timer

namespace Scheduler

variable {s u : Scheduler} {id : Nat} {t : Timer}

theorem queue_of_found (found : s.timer? id = some t) : s.queue id = t.queue := by
  rw [queue, found]
  rfl

theorem queue_updateTimer (s : Scheduler) (id : Nat) (store : Store Watch) (f : Timer → Timer) :
    ({ s with store := store }.updateTimer id f).queue id = ((s.timer? id).map fun t => (f t).queue).getD [] := by
  rw [queue, timer?_updateTimer_self, Option.map_map]
  rfl

theorem queue_commit (s : Scheduler) (next : Store Watch × List Event) (id : Nat) :
    ((s.commit next).queue id).Sublist (s.queue id ++ heard id (next.1.deliveries next.2)) := by
  rw [queue, timer?_commit_eq]
  cases found : s.timer? id with
  | none => exact List.nil_sublist _
  | some t =>
    rw [queue_of_found found, Option.map_some, Option.map_some, Option.getD_some, Timer.enqueueAll]
    split
    · exact List.sublist_append_left _ _
    · exact List.Sublist.refl _

theorem queue_write (h : s.HearsOnce) {lease : Option Lease} {f : Field} {v : Option FieldValue}
    (written : s.write lease f v = .ok u) : (u.queue id).Sublist
      (s.queue id ++ (if f ∈ Timer.watchedFields then Timer.route .values (.value f) else none).toList) := by
  obtain ⟨⟨store, events⟩, put, rfl⟩ := write_eq_ok written
  refine (s.queue_commit _ id).trans (List.Sublist.append_left ?_ _)
  cases Store.does_write put with
  | nothing _ =>
    rw [Store.deliveries_nil]
    exact List.nil_sublist _
  | write _ _ _ _ => exact h.heard_value id f _

/-- The work that waits, and a start that is yet to be given. -/
def backlog (s : Scheduler) (id : Nat) : Nat :=
  Work.load (s.queue id) + if s.store.settings.startTime = none then 1 else 0

theorem backlog_le_of_queue {more : List Work} (queue : (u.queue id).Sublist (s.queue id ++ more))
    (abides : Abides s u) : u.backlog id ≤ s.backlog id + Work.load more := by
  have load := Work.load_le_of_sublist queue
  rw [Work.load_append] at load
  obtain same | ⟨-, present⟩ := abides.startTime
  · rw [backlog, backlog, same]
    omega
  · rw [backlog, backlog, if_neg (by simp [present])]
    omega

theorem queue_cancelAlarm (s : Scheduler) (id : Nat) : (s.updateTimer id Timer.cancelAlarm).queue id = s.queue id :=
  s.queue_updateTimer id s.store Timer.cancelAlarm

theorem queue_arm (s : Scheduler) (id : Nat) (delay : Duration) : (s.arm id delay).queue id = s.queue id := by
  refine (s.queue_updateTimer id s.store (Timer.armAlarm delay)).trans ?_
  simp only [Timer.armAlarm_queue]
  rfl

theorem queue_stop (s : Scheduler) (id : Nat) : (s.stop id).queue id = s.queue id := by
  obtain same | ⟨t, subscriptions, -, -, -, stopped⟩ := s.stop_cases id
  · rw [same]
  · rw [stopped, queue_updateTimer]
    rfl

theorem queue_destroy (s : Scheduler) (id : Nat) : ((s.destroy id).queue id).Sublist (s.queue id) := by
  obtain same | ⟨t, subscriptions, found, -, -, destroyed⟩ := s.destroy_cases id
  · rw [same]
  · rw [destroyed, queue_updateTimer, found]
    exact List.nil_sublist _

theorem queue_resume (s : Scheduler) (id : Nat) :
    ((s.resume id).queue id).Sublist (s.queue id ++ [.recompute false]) := by
  obtain same | ⟨t, found, -, resumed⟩ := s.resume_cases id
  · rw [same]
    exact List.sublist_append_left _ _
  · rw [resumed, queue_updateTimer, found, queue_of_found found]
    simp [Timer.enqueue]

/-- No duty leaves more to do than there was: what comes back of a start that is given is made up for by the start. -/
theorem Duty.backlog_le (done : Duty id s u) (h : s.HearsOnce) : u.backlog id ≤ s.backlog id := by
  have stays : (u.queue id).Sublist (s.queue id ++ []) → u.backlog id ≤ s.backlog id :=
    fun queue => backlog_le_of_queue queue done.abides
  cases done with
  | note _ _ => exact Nat.le_refl _
  | seed absent written =>
    have grown : (u.queue id).Sublist (s.queue id ++ [.recompute true]) := queue_write h written
    have load := Work.load_le_of_sublist grown
    obtain ⟨settings, -, -⟩ := settings_of_startTime written
    rw [Work.load_append] at load
    rw [backlog, backlog, settings, if_neg (Option.some_ne_none _), if_pos absent]
    exact load
  | stop => exact stays (by rw [queue_stop, List.append_nil])
  | destroy => exact stays (by rw [List.append_nil]; exact s.queue_destroy id)
  | cancelAlarm => exact stays (by rw [queue_cancelAlarm, List.append_nil])
  | arm _ _ => exact stays (by rw [queue_arm, List.append_nil])
  | schedule _ written => exact stays (by rw [queue_arm]; exact queue_write h written)

theorem Duties.backlog_le (done : Duties id s u) (h : s.HearsOnce) : u.backlog id ≤ s.backlog id := by
  induction done with
  | refl => exact Nat.le_refl _
  | tail before last ih => exact (last.backlog_le (h.deeds (Duties.chain Deed.duty before))).trans ih

theorem withQueue_queue (s : Scheduler) (id : Nat) : s.withQueue id (s.queue id) = s := by
  cases found : s.timer? id with
  | none =>
    have outside : s.timers.length ≤ id := List.getElem?_eq_none_iff.mp found
    simp [withQueue, updateTimer, List.modify_eq_self outside]
  | some t => exact updateTimer_eq_self found (by rw [queue_of_found found])

theorem queue_withQueue (s : Scheduler) (id : Nat) (works : List Work) :
    ((s.withQueue id works).queue id).Sublist works := by
  have there := s.queue_updateTimer id s.store fun t => { t with queue := works }
  cases found : s.timer? id with
  | none =>
    rw [found] at there
    exact there ▸ List.nil_sublist works
  | some t =>
    rw [found] at there
    exact there ▸ List.Sublist.refl works

theorem backlog_workNext_lt [Host] (h : s.HearsOnce) (recording : s.RecordsOnly id) (busy : s.queue id ≠ []) :
    (s.workNext id).backlog id < s.backlog id := by
  obtain ⟨work, rest, queued⟩ := List.exists_cons_of_ne_nil busy
  have taken :
      (s.withQueue id rest).backlog id + 1 + (if work = .lifecycle .activated then 1 else 0) ≤ s.backlog id := by
    have left := Work.load_le_of_sublist (s.queue_withQueue id rest)
    have same : (s.withQueue id rest).store = s.store := rfl
    rw [backlog, backlog, queued, Work.load_cons, same]
    omega
  obtain done | ⟨rfl, resumed⟩ := workNext_of_queued recording queued
  · have kept := done.backlog_le (h.updateTimer fun _ => rfl)
    omega
  · -- The recompute that a timer asks for when it is resumed takes the place of the activation, which counts twice.
    have grown := backlog_le_of_queue ((s.withQueue id rest).queue_resume id) (abides_resume _ id)
    have single : Work.load [.recompute false] = 1 := rfl
    rw [if_pos rfl] at taken
    rw [resumed]
    omega

theorem iterate_workNext_of_idle [Host] (idle : s.queue id = []) (steps : Nat) : (workNext id)^[steps] s = s :=
  Function.iterate_fixed (workNext_of_idle idle) steps

theorem exists_drain [Host] (h : s.HearsOnce) (recording : s.RecordsOnly id) :
    ∃ count, count ≤ s.backlog id ∧ ∀ steps, ((workNext id)^[steps] s).queue id = [] ↔ count ≤ steps := by
  induction bound : s.backlog id using Nat.strong_induction_on generalizing s with
  | _ bound ih =>
    by_cases idle : s.queue id = []
    · exact ⟨0, Nat.zero_le _, fun steps => by simp [iterate_workNext_of_idle idle, idle]⟩
    · have less := backlog_workNext_lt h recording idle
      have hears : (s.workNext id).HearsOnce := h.deeds (s.workNext_deeds id)
      obtain ⟨count, few, drained⟩ := ih _ (bound ▸ less) hears recording.workNext rfl
      refine ⟨count + 1, by omega, fun steps => ?_⟩
      cases steps with
      | zero => simp [idle]
      | succ steps => rw [Function.iterate_succ_apply, drained, Nat.succ_le_succ_iff]

theorem recordsOnly_iterate [Host] (recording : s.RecordsOnly id) (steps : Nat) :
    ((workNext id)^[steps] s).RecordsOnly id := by
  induction steps with
  | zero => exact recording
  | succ steps ih =>
    rw [Function.iterate_succ_apply']
    exact ih.workNext

theorem abides_iterate [Host] (recording : s.RecordsOnly id) (steps : Nat) : Abides s ((workNext id)^[steps] s) := by
  induction steps with
  | zero => exact s.abides_refl
  | succ steps ih =>
    rw [Function.iterate_succ_apply']
    exact ih.trans (abides_workNext (recordsOnly_iterate recording steps))

def startAfter [Host] (s : Scheduler) (id steps : Nat) : Option Instant :=
  ((workNext id)^[steps] s).store.settings.startTime

theorem startAfter_cases [Host] (recording : s.RecordsOnly id) (steps : Nat) :
    s.startAfter id (steps + 1) = s.startAfter id steps ∨
      s.startAfter id steps = none ∧ s.startAfter id (steps + 1) = some s.now := by
  have step := (abides_workNext (recordsOnly_iterate recording steps)).startTime
  rw [(abides_iterate recording steps).clock, ← Function.iterate_succ_apply' (workNext id)] at step
  exact step

theorem startAfter_of_present [Host] (recording : s.RecordsOnly id) {i j : Nat} {start : Instant}
    (present : s.startAfter id i = some start) (later : i ≤ j) : s.startAfter id j = some start := by
  induction later with
  | refl => exact present
  | @step j _ ih =>
    obtain same | ⟨absent, -⟩ := startAfter_cases recording j
    · exact same.trans ih
    · rw [ih] at absent
      cases absent

theorem seeded_once [Host] (recording : s.RecordsOnly id) {i j : Nat}
    (first : s.startAfter id (i + 1) ≠ s.startAfter id i) (second : s.startAfter id (j + 1) ≠ s.startAfter id j) :
    i = j := by
  have never_again : ∀ {i j : Nat}, s.startAfter id (i + 1) ≠ s.startAfter id i →
      s.startAfter id (j + 1) ≠ s.startAfter id j → j ≤ i := by
    intro i j first second
    refine Nat.not_lt.mp fun later => ?_
    obtain ⟨-, seeded⟩ := (startAfter_cases recording i).resolve_left first
    obtain ⟨absent, -⟩ := (startAfter_cases recording j).resolve_left second
    rw [startAfter_of_present recording seeded later] at absent
    cases absent
  exact Nat.le_antisymm (never_again second first) (never_again first second)

variable {settings : Settings} {status : Status} {now : Instant}

/-- A timer whose listeners only record is left to its worker, in whatever state a run has left it and everybody else on
its store, and whatever work waits for it. Its queue is empty after finitely many steps and stays empty from then on.
These are at most one step for each piece of work, another one for each activation, and one more if there is no start
yet. One of them at most gives the schedule a start. -/
theorem drain_ends [Host] (begun : (new (.new settings status) now).Unfolds s) (recording : s.RecordsOnly id)
    (works : List Work) :
    (∃ count, count ≤ works.length + works.count (.lifecycle .activated) +
        (if s.store.settings.startTime = none then 1 else 0) ∧
      ∀ steps, ((workNext id)^[steps] (s.withQueue id works)).queue id = [] ↔ count ≤ steps) ∧
    ∀ i j, (s.withQueue id works).startAfter id (i + 1) ≠ (s.withQueue id works).startAfter id i →
      (s.withQueue id works).startAfter id (j + 1) ≠ (s.withQueue id works).startAfter id j → i = j := by
  have records := recording.withQueue works
  have hears : (s.withQueue id works).HearsOnce :=
    (begun.hearsOnce (hearsOnce_new settings status now)).updateTimer fun _ => rfl
  obtain ⟨count, few, drained⟩ := exists_drain hears records
  refine ⟨⟨count, few.trans (Nat.add_le_add_right ?_ _), drained⟩, fun i j => seeded_once records⟩
  exact Work.load_le_of_sublist (s.queue_withQueue id works)

/-- A timer without a start is resumed, and its configuration is turned off and on again, before it has worked anything
off. -/
def hourlyToggled [Host] (now : Fin 1440) : Scheduler :=
  (unstartedTimer now).run 0 [.listen "main", .resume, .deactivate, .activate]

theorem hourly_drain_ends :
    (hourlyToggled 10).RecordsOnly 0 ∧
      (hourlyToggled 10).queue 0 = [.recompute false, .lifecycle .deactivated, .lifecycle .activated] ∧
      (∃ count, count ≤ 5 ∧ ∀ steps, ((workNext 0)^[steps] (hourlyToggled 10)).queue 0 = [] ↔ count ≤ steps) ∧
      ((workNext 0)^[4] (hourlyToggled 10)).queue 0 ≠ [] ∧
      (hourlyToggled 10).startAfter 0 0 = none ∧ (hourlyToggled 10).startAfter 0 5 = some (newYear 10) := by
  have attached := attach_hourlyUnstarted 10
  have begun : (hourlyUnstarted 10).Unfolds (hourlyToggled 10) := Relation.ReflTransGen.head (Occurs.attach attached)
    (unfolds_play _ [(0, .act (.listen "main")), (0, .act .resume), (0, .act .deactivate), (0, .act .activate)])
  have recording : (hourlyToggled 10).RecordsOnly 0 := (recordsOnly_of_attach attached).run _
  have queued : (hourlyToggled 10).queue 0 = [.recompute false, .lifecycle .deactivated, .lifecycle .activated] := by
    decide +kernel
  obtain ⟨drained, -⟩ := drain_ends begun recording ((hourlyToggled 10).queue 0)
  rw [withQueue_queue, queued] at drained
  exact ⟨recording, queued, drained, by decide +kernel, by decide +kernel, by decide +kernel⟩

end Scheduler

end Cadence
