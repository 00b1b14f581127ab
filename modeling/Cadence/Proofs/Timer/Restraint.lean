import Cadence.Proofs.Timer.Agreement
import Cadence.Proofs.Timer.Creation
import Cadence.Proofs.Timer.Ownership

/-!
What a timer leaves alone. It writes to the store that everybody else edits, and what it writes comes back to it as
work. Of all that is stored it sets two fields: the start of a schedule that has none, to what the clock reads, and the
next execution time, to a moment that is yet to come (`Abides`). That is so for each of its duties, and therefore for
all that it does, in whatever state a run has left it, as long as its listeners only record (`run_abides`).
-/

namespace Cadence

/-- What the owner of a timer asks of it, and what its alarm and its worker do. -/
def Action.IsOwn : Action → Prop
  | .resume | .stop | .destroy | .ring | .work => True
  | _ => False

namespace Timer

def RecordsOnly (t : Timer) : Prop := ∀ l ∈ t.listeners, l.reaction = .record

theorem armAlarm_listeners (t : Timer) (delay : Duration) : (t.armAlarm delay).listeners = t.listeners := by
  rw [armAlarm]
  split
  · split <;> rfl
  · rfl

theorem enqueue_listeners (t : Timer) (work : Work) : (t.enqueue work).listeners = t.listeners := by
  rw [enqueue]
  split <;> rfl

theorem RecordsOnly.addListener {t : Timer} (h : t.RecordsOnly) (name : String) :
    (t.addListener name .record).RecordsOnly := by
  refine List.forall_mem_append.mpr ⟨h, ?_⟩
  exact List.forall_mem_singleton.mpr rfl

theorem RecordsOnly.removeListener {t : Timer} (h : t.RecordsOnly) (listener : Nat) :
    (t.removeListener listener).RecordsOnly := fun l member => h l (List.mem_of_mem_filter member)

end Timer

namespace Scheduler

variable {s u v : Scheduler} {id : Nat}

/-- No listener of the timer does anything but take note. -/
def RecordsOnly (s : Scheduler) (id : Nat) : Prop := ∀ t, s.timer? id = some t → t.RecordsOnly

def queue (s : Scheduler) (id : Nat) : List Work := ((s.timer? id).map Timer.queue).getD []

def withQueue (s : Scheduler) (id : Nat) (works : List Work) : Scheduler :=
  s.updateTimer id fun t => { t with queue := works }

namespace RecordsOnly

theorem commit (h : s.RecordsOnly id) (next : Store Watch × List Event) : (s.commit next).RecordsOnly id := by
  intro w there
  rw [timer?_commit_eq] at there
  obtain ⟨t, found, rfl⟩ := Option.map_eq_some_iff.mp there
  obtain ⟨queue, grown⟩ := t.enqueueAll_eq (heard id (next.1.deliveries next.2))
  rw [grown]
  exact h t found

theorem updateTimer (h : s.RecordsOnly id) {store : Store Watch} {f : Timer → Timer}
    (kept : ∀ t, t.RecordsOnly → (f t).RecordsOnly) : ({ s with store := store }.updateTimer id f).RecordsOnly id := by
  intro w there
  rw [timer?_updateTimer_self] at there
  obtain ⟨t, found, rfl⟩ := Option.map_eq_some_iff.mp there
  exact kept t (h t found)

theorem withQueue (h : s.RecordsOnly id) (works : List Work) : (s.withQueue id works).RecordsOnly id :=
  h.updateTimer fun _ records => records

theorem resume (h : s.RecordsOnly id) : (s.resume id).RecordsOnly id := by
  obtain same | ⟨t, -, -, resumed⟩ := s.resume_cases id
  · rwa [same]
  · rw [resumed]
    exact h.updateTimer fun t records l member => records l (by rwa [Timer.enqueue_listeners] at member)

theorem ring (h : s.RecordsOnly id) : (s.ring id).1.RecordsOnly id := by
  have rung : ∀ alarm, (s.updateTimer id fun w => { w with alarm := alarm }).RecordsOnly id :=
    fun _ => h.updateTimer fun _ records => records
  obtain same | ⟨t, -, silent | heard⟩ := s.ring_cases id
  · rwa [same]
  · rw [silent]
    exact rung _
  · rw [heard]
    exact (rung _).updateTimer fun t records l member => records l (by rwa [Timer.enqueue_listeners] at member)

theorem duty (h : s.RecordsOnly id) (done : Duty id s u) : u.RecordsOnly id := by
  cases done with
  | note _ _ => exact h
  | seed _ written =>
    obtain ⟨next, -, rfl⟩ := write_eq_ok written
    exact h.commit next
  | stop =>
    obtain same | ⟨t, subscriptions, -, -, -, stopped⟩ := s.stop_cases id
    · rwa [same]
    · rw [stopped]
      exact h.updateTimer fun _ records => records
  | destroy =>
    obtain same | ⟨t, subscriptions, -, -, -, destroyed⟩ := s.destroy_cases id
    · rwa [same]
    · rw [destroyed]
      exact h.updateTimer fun _ _ _ member => absurd member List.not_mem_nil
  | cancelAlarm => exact h.updateTimer fun _ records => records
  | arm _ _ => exact h.updateTimer fun t records l member => records l (by rwa [Timer.armAlarm_listeners] at member)
  | schedule _ written =>
    obtain ⟨next, -, rfl⟩ := write_eq_ok written
    exact (h.commit next).updateTimer fun t records l member =>
      records l (by rwa [Timer.armAlarm_listeners] at member)

theorem duties (h : s.RecordsOnly id) (done : Duties id s u) : u.RecordsOnly id := by
  induction done with
  | refl => exact h
  | tail _ last ih => exact ih.duty last

end RecordsOnly

theorem notify_duties (recording : s.RecordsOnly id) (scheduled : Instant) : Duties id s (s.notify id scheduled) := by
  refine notify_chain fun t found l member s => ?_
  rw [call, recording t found l member]
  exact (Duty.note l.name scheduled).duties

theorem handle_duties [Host] (recording : s.RecordsOnly id) (work : Work) :
    Duties id s (s.handle id work) ∨ work = .lifecycle .activated ∧ s.handle id work = s.resume id :=
  handle_chain (fun duty => duty) (notify_duties recording) work

theorem workNext_of_idle [Host] (idle : s.queue id = []) : s.workNext id = s := by
  rw [workNext]
  cases found : s.timer? id with
  | none => rfl
  | some t =>
    have empty : t.queue = [] := by simpa [queue, found] using idle
    simp only [empty]

theorem workNext_of_queued [Host] (recording : s.RecordsOnly id) {work : Work} {rest : List Work}
    (queued : s.queue id = work :: rest) :
    Duties id (s.withQueue id rest) (s.workNext id) ∨
      work = .lifecycle .activated ∧ s.workNext id = (s.withQueue id rest).resume id := by
  cases found : s.timer? id with
  | none => simp [queue, found] at queued
  | some t =>
    have first : t.queue = work :: rest := by simpa [queue, found] using queued
    have handled : s.workNext id = (s.withQueue id rest).handle id work := by
      simp only [workNext, found, first]
      rfl
    rw [handled]
    exact handle_duties (recording.withQueue rest) work

namespace RecordsOnly

theorem workNext [Host] (h : s.RecordsOnly id) : (s.workNext id).RecordsOnly id := by
  cases queued : s.queue id with
  | nil => rwa [workNext_of_idle queued]
  | cons work rest =>
    obtain done | ⟨-, resumed⟩ := workNext_of_queued h queued
    · exact (h.withQueue rest).duties done
    · rw [resumed]
      exact (h.withQueue rest).resume

theorem act [Host] (h : s.RecordsOnly id) (a : Action) : (s.act id a).RecordsOnly id := by
  have edits : ∀ {result : Except Error Scheduler}, (∀ u, result = .ok u → ∃ next, u = s.commit next) →
      (s.ignoreFailure result).RecordsOnly id := by
    intro result edited
    cases result with
    | error e => exact h
    | ok u =>
      obtain ⟨next, rfl⟩ := edited u rfl
      exact h.commit next
  cases a with
  | resume => exact h.resume
  | stop => exact h.duty .stop
  | destroy => exact h.duty .destroy
  | listen name => exact h.updateTimer fun t records => records.addListener name
  | unlisten listener => exact h.updateTimer fun t records => records.removeListener listener
  | setEndTime finish => exact edits fun u set => (write_eq_ok (setEndTime_eq_ok set)).imp fun _ done => done.2
  | write f v => exact edits fun u written => (write_eq_ok written).imp fun _ done => done.2
  | writeBatch entries => exact edits fun u written => (writeBatch_eq_ok written).imp fun _ done => done.2
  | activate => exact edits fun u turned => (activate_eq_ok turned).imp fun _ done => done.2
  | deactivate => exact edits fun u turned => (deactivate_eq_ok turned).imp fun _ done => done.2
  | delete => exact h.commit s.store.delete
  | setClock now => exact h
  | ring => exact h.ring
  | work => exact h.workNext

theorem run [Host] (h : s.RecordsOnly id) (actions : List Action) : (s.run id actions).RecordsOnly id := by
  induction actions generalizing s with
  | nil => exact h
  | cons a rest ih => exact ih (h.act a)

end RecordsOnly

/-- The clock reads the same, and what is stored is the same but for a start where there was none, and for a next
execution time that is yet to come. -/
structure Abides (s u : Scheduler) : Prop where
  clock : u.now = s.now
  status : u.store.status = s.store.status
  period : u.store.settings.period = s.store.settings.period
  endTime : u.store.settings.endTime = s.store.settings.endTime
  timezone : u.store.settings.timezone = s.store.settings.timezone
  startTime : u.store.settings.startTime = s.store.settings.startTime ∨
    s.store.settings.startTime = none ∧ u.store.settings.startTime = some s.now
  nextExecution : u.store.settings.nextExecution = s.store.settings.nextExecution ∨
    ∃ next, u.store.settings.nextExecution = some next ∧ s.now < next

namespace Abides

theorem trans (first : Abides s u) (second : Abides u v) : Abides s v where
  clock := second.clock.trans first.clock
  status := second.status.trans first.status
  period := second.period.trans first.period
  endTime := second.endTime.trans first.endTime
  timezone := second.timezone.trans first.timezone
  startTime := by
    obtain kept | ⟨absent, seeded⟩ := second.startTime
    · rw [kept]
      exact first.startTime
    · -- There was no start in between, so that there was none before.
      obtain same | ⟨-, present⟩ := first.startTime
      · exact .inr ⟨same.symm.trans absent, by rw [seeded, first.clock]⟩
      · rw [absent] at present
        cases present
  nextExecution := by
    obtain kept | ⟨next, stored, later⟩ := second.nextExecution
    · rw [kept]
      exact first.nextExecution
    · exact .inr ⟨next, stored, first.clock ▸ later⟩

theorem of_settings (settings : u.store.settings = s.store.settings) (status : u.store.status = s.store.status)
    (clock : u.now = s.now) : Abides s u where
  clock := clock
  status := status
  period := by rw [settings]
  endTime := by rw [settings]
  timezone := by rw [settings]
  startTime := .inl (by rw [settings])
  nextExecution := .inl (by rw [settings])

end Abides

theorem abides_refl (s : Scheduler) : Abides s s := .of_settings rfl rfl rfl

theorem abides_updateTimer (s : Scheduler) (id : Nat) (f : Timer → Timer) : Abides s (s.updateTimer id f) :=
  .of_settings rfl rfl rfl

theorem abides_resume (s : Scheduler) (id : Nat) : Abides s (s.resume id) := by
  obtain same | ⟨t, -, -, resumed⟩ := s.resume_cases id
  · rw [same]
    exact s.abides_refl
  · rw [resumed]
    exact .of_settings rfl rfl rfl

theorem abides_stop (s : Scheduler) (id : Nat) : Abides s (s.stop id) := by
  obtain same | ⟨t, subscriptions, -, -, -, stopped⟩ := s.stop_cases id
  · rw [same]
    exact s.abides_refl
  · rw [stopped]
    exact .of_settings rfl rfl rfl

theorem abides_destroy (s : Scheduler) (id : Nat) : Abides s (s.destroy id) := by
  obtain same | ⟨t, subscriptions, -, -, -, destroyed⟩ := s.destroy_cases id
  · rw [same]
    exact s.abides_refl
  · rw [destroyed]
    exact .of_settings rfl rfl rfl

theorem abides_ring (s : Scheduler) (id : Nat) : Abides s (s.ring id).1 := by
  obtain same | ⟨t, -, silent | heard⟩ := s.ring_cases id
  · rw [same]
    exact s.abides_refl
  · rw [silent]
    exact .of_settings rfl rfl rfl
  · rw [heard]
    exact .of_settings rfl rfl rfl

theorem settings_of_startTime {start : Instant} (written : s.write none .startTime (some (.instant start)) = .ok u) :
    u.store.settings = { s.store.settings with startTime := some start } ∧ u.store.status = s.store.status ∧
      u.now = s.now := by
  obtain ⟨next, put, rfl⟩ := write_eq_ok written
  refine ⟨Settings.ext_get fun f => ?_, status_commit (.write none .startTime _) put, s.commit_now next⟩
  rw [get_commit (.write none .startTime _) put nofun]
  cases f <;> rfl

theorem settings_of_nextExecution {lease : Option Lease} {next : Instant}
    (written : s.write lease .nextExecution (some (.instant next)) = .ok u) :
    u.store.settings = { s.store.settings with nextExecution := some next } ∧ u.store.status = s.store.status ∧
      u.now = s.now := by
  obtain ⟨stored, put, rfl⟩ := write_eq_ok written
  refine ⟨Settings.ext_get fun f => ?_, status_commit (.write lease .nextExecution _) put, s.commit_now stored⟩
  rw [get_commit (.write lease .nextExecution _) put nofun]
  cases f <;> rfl

theorem abides_of_seed (absent : s.store.settings.startTime = none)
    (written : s.write none .startTime (some (.instant s.now)) = .ok u) : Abides s u := by
  obtain ⟨settings, status, clock⟩ := settings_of_startTime written
  exact ⟨clock, status, by rw [settings], by rw [settings], by rw [settings], .inr ⟨absent, by rw [settings]⟩,
    .inl (by rw [settings])⟩

theorem abides_of_schedule {lease : Option Lease} {next : Instant} (later : s.now < next)
    (written : s.write lease .nextExecution (some (.instant next)) = .ok u) : Abides s u := by
  obtain ⟨settings, status, clock⟩ := settings_of_nextExecution written
  exact ⟨clock, status, by rw [settings], by rw [settings], by rw [settings], .inl (by rw [settings]),
    .inr ⟨next, by rw [settings], later⟩⟩

theorem Duty.abides (h : Duty id s u) : Abides s u := by
  cases h with
  | note _ _ => exact .of_settings rfl rfl rfl
  | seed absent written => exact abides_of_seed absent written
  | stop => exact s.abides_stop id
  | destroy => exact s.abides_destroy id
  | cancelAlarm | arm _ _ => exact s.abides_updateTimer id _
  | schedule later written => exact (abides_of_schedule later written).trans (abides_updateTimer _ id _)

theorem Duties.abides (h : Duties id s u) : Abides s u := by
  induction h with
  | refl => exact s.abides_refl
  | tail _ last ih => exact ih.trans last.abides

theorem abides_workNext [Host] (recording : s.RecordsOnly id) : Abides s (s.workNext id) := by
  cases queued : s.queue id with
  | nil =>
    rw [workNext_of_idle queued]
    exact s.abides_refl
  | cons work rest =>
    obtain done | ⟨-, resumed⟩ := workNext_of_queued recording queued
    · exact (s.abides_updateTimer id _).trans done.abides
    · rw [resumed]
      exact (s.abides_updateTimer id _).trans (abides_resume _ id)

theorem abides_act [Host] (recording : s.RecordsOnly id) {a : Action} (own : a.IsOwn) : Abides s (s.act id a) := by
  cases a with
  | resume => exact s.abides_resume id
  | stop => exact s.abides_stop id
  | destroy => exact s.abides_destroy id
  | ring => exact s.abides_ring id
  | work => exact abides_workNext recording
  | listen _ | unlisten _ | setEndTime _ | write _ _ | writeBatch _ | activate | deactivate | delete | setClock _ =>
    cases own

/-- Whatever has happened to a timer before, whoever else is on its store and whichever calls are out: what its owner,
its alarm and its worker then do, one after the other and in any order, leaves the period, the end, the zone and the
status alone. A start is only set where there was none, to what the clock reads, and a next execution time only to what
is after that. -/
theorem run_abides [Host] (recording : s.RecordsOnly id) (earlier actions : List Action)
    (own : ∀ a ∈ actions, a.IsOwn) : Abides (s.run id earlier) ((s.run id earlier).run id actions) := by
  have goesOn : ∀ {s : Scheduler}, s.RecordsOnly id → Abides s (s.run id actions) := by
    induction actions with
    | nil => exact fun {s} _ => s.abides_refl
    | cons a rest ih =>
      intro s recording
      obtain ⟨first, others⟩ := List.forall_mem_cons.mp own
      exact (abides_act recording first).trans (ih others (recording.act a))
  exact goesOn (recording.run earlier)

theorem recordsOnly_of_attach (attached : s.attach = .ok (u, id)) : u.RecordsOnly id := by
  obtain ⟨claimed, l, -, same⟩ := attach_eq_ok attached
  cases same
  intro t found
  have last : (claimed.attachWith l).1.timer? claimed.timers.length =
      some (Timer.new l claimed.store.nextSubscription) := List.getElem?_concat_length ..
  obtain rfl : Timer.new l claimed.store.nextSubscription = t := Option.some.inj (last.symm.trans found)
  exact fun _ member => absurd member List.not_mem_nil

def hourlyUnstarted (now : Fin 1440) : Scheduler :=
  .new (.new ⟨some ⟨1, .clock .hours⟩, none, none, some .utc, none⟩ .active) (newYear now)

def unstartedTimer (now : Fin 1440) : Scheduler :=
  match (hourlyUnstarted now).attach with
  | .ok (t, _) => t
  | .error _ => hourlyUnstarted now

theorem attach_hourlyUnstarted (now : Fin 1440) : (hourlyUnstarted now).attach = .ok (unstartedTimer now, 0) := rfl

theorem hourly_start_is_seeded :
    ∃ s u, (unstartedTimer 10).RecordsOnly 0 ∧ (unstartedTimer 10).run 0 [.listen "main"] = s ∧
      s.run 0 [.resume, .work, .ring, .work, .work] = u ∧ Abides s u ∧ s.store.settings.startTime = none ∧
      u.store.settings.startTime = some (newYear 10) ∧ u.store.settings.nextExecution = some (newYear 70) := by
  have recording := recordsOnly_of_attach (attach_hourlyUnstarted 10)
  exact ⟨_, _, recording, rfl, rfl,
    run_abides recording [.listen "main"] [.resume, .work, .ring, .work, .work] (by simp [Action.IsOwn]),
    by decide +kernel, by decide +kernel, by decide +kernel⟩

end Scheduler

end Cadence
