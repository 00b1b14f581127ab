import Cadence.Proofs.Schedule.Walk
import Cadence.Proofs.Store.Operation
import Cadence.Proofs.Timer.Action
import Mathlib.Logic.Relation

/-!
What is ever done for a timer. However a timer comes to do something, because its owner asks for it, because it works
off its queue or because a listener acts while it fires, it does a few things one after the other: its deeds. Here the
handlers are taken apart (`workNext_deeds`, `move_deeds`). What every deed keeps is kept by all that a timer does, and
also in between. Duties are the deeds that a piece of work asks for (`handle_chain`). What listeners do meanwhile is left
open there: it is a chain of steps, and so is then what the timer does. Chores are deeds of which less is said: which
work is taken and who is noted is left open.
-/

namespace Cadence

/-- What may happen next: an action, a listener is added whatever it does, a call to the store goes out or comes back.
-/
inductive Move
  | act (action : Action)
  | listen (name : String) (reaction : FireReaction)
  | outage (call : Call) (cause : Option Error)
deriving DecidableEq

namespace Scheduler

def move [Host] (id : Nat) (s : Scheduler) : Move → Scheduler
  | .act action => s.act id action
  | .listen name reaction => s.updateTimer id (Timer.addListener name reaction)
  | .outage call cause => s.setOutage call cause

variable {s u : Scheduler} {id : Nat}

theorem exists_commit (s : Scheduler) (next : Store Watch × List Event) :
    ∃ timers, s.commit next = { s with store := next.1, timers := timers } := by
  have folded : ∀ (ds : List (Subscription Watch × Event)) (s : Scheduler),
      ∃ timers, ds.foldl deliver s = { s with timers := timers } := by
    intro ds
    induction ds with
    | nil => exact fun s => ⟨s.timers, rfl⟩
    | cons d ds ih =>
      intro s
      obtain ⟨timers, rest⟩ := ih (s.deliver d)
      refine ⟨timers, rest.trans ?_⟩
      rw [deliver]
      split <;> rfl
  exact folded _ { s with store := next.1 }

theorem resume_cases (s : Scheduler) (id : Nat) : s.resume id = s ∨ ∃ t, s.timer? id = some t ∧ t.phase = .stopped ∧
    s.resume id = { s with store := (s.store.subscribe Timer.watchedFields ⟨id, .values⟩).1 }.updateTimer id fun t =>
      { t with phase := .running, valueSubscription := some s.store.nextSubscription }.enqueue (.recompute false) := by
  rw [resume]
  split
  · exact .inl rfl
  · rename_i t found
    split
    · rename_i stopped
      exact .inr ⟨t, found, stopped, rfl⟩
    · exact .inl rfl

theorem stop_cases (s : Scheduler) (id : Nat) : s.stop id = s ∨
    ∃ t subscriptions, s.timer? id = some t ∧ t.phase = .running ∧
      (unsubscribeAll s.store [t.valueSubscription]).subscriptions = subscriptions ∧
      s.stop id = { s with store := { s.store with subscriptions := subscriptions } }.updateTimer id fun t =>
        { t with phase := .stopped, valueSubscription := none }.cancelAlarm := by
  rw [stop]
  split
  · exact .inl rfl
  · rename_i t found
    obtain ⟨subscriptions, left⟩ := unsubscribeAll_eq s.store [t.valueSubscription]
    split
    · rename_i running
      rw [left]
      exact .inr ⟨t, subscriptions, found, running, by rw [left], rfl⟩
    · exact .inl rfl

theorem destroy_cases (s : Scheduler) (id : Nat) : s.destroy id = s ∨
    ∃ t subscriptions, s.timer? id = some t ∧ t.phase ≠ .destroyed ∧
      (unsubscribeAll s.store [t.valueSubscription, t.lifecycleSubscription]).subscriptions = subscriptions ∧
      s.destroy id = { s with store := { s.store with
        subscriptions := subscriptions
        leases := s.store.leases.filter fun held => some held ≠ t.lease } }.updateTimer id Timer.ended := by
  rw [destroy]
  split
  · exact .inl rfl
  · rename_i t found
    obtain ⟨subscriptions, left⟩ := unsubscribeAll_eq s.store [t.valueSubscription, t.lifecycleSubscription]
    split
    · exact .inl rfl
    · rename_i going
      refine .inr ⟨t, subscriptions, found, going, by rw [left], ?_⟩
      rw [left]
      cases t.lease with
      | none =>
        have all : (s.store.leases.filter fun held => some held ≠ none) = s.store.leases :=
          List.filter_eq_self.mpr fun _ _ => rfl
        rw [all]
        rfl
      | some l => simp [Store.release]

theorem ring_cases (s : Scheduler) (id : Nat) : (s.ring id).1 = s ∨ ∃ t, s.timer? id = some t ∧
    ((s.ring id).1 = s.updateTimer id (fun w => { w with alarm := (t.alarm.fire s.now).1 }) ∨
      (s.ring id).1 = (s.updateTimer id fun w => { w with alarm := (t.alarm.fire s.now).1 }).updateTimer id
        (Timer.enqueue .fire)) := by
  rw [ring]
  split
  · exact .inl rfl
  · rename_i t found
    dsimp only
    split
    · exact .inr ⟨t, found, .inr rfl⟩
    · exact .inr ⟨t, found, .inl rfl⟩

theorem commit_eq_ok {returned : Except Error Unit} {answer : Except Error (Store Watch × List Event)}
    (h : (do returned; let next ← answer; .ok (s.commit next)) = Except.ok u) :
    ∃ next, answer = .ok next ∧ u = s.commit next := by
  cases returned with
  | error e => cases h
  | ok _ =>
    cases answer with
    | error e => cases h
    | ok next => exact ⟨next, rfl, (Except.ok.inj h).symm⟩

theorem write_eq_ok {lease : Option Lease} {f : Field} {v : Option FieldValue} (h : s.write lease f v = .ok u) :
    ∃ next, s.store.write lease f v = .ok next ∧ u = s.commit next := commit_eq_ok h

theorem writeBatch_eq_ok {entries : List (Field × Option FieldValue)} (h : s.writeBatch entries = .ok u) :
    ∃ next, s.store.writeBatch entries = .ok next ∧ u = s.commit next := commit_eq_ok h

theorem activate_eq_ok (h : s.activate = .ok u) : ∃ next, s.store.activate = .ok next ∧ u = s.commit next :=
  commit_eq_ok h

theorem deactivate_eq_ok (h : s.deactivate = .ok u) : ∃ next, s.store.deactivate = .ok next ∧ u = s.commit next :=
  @commit_eq_ok s u (.ok ()) _ h

theorem reserve_eq_ok {f : Field} {lease : Lease} (h : s.reserve f = .ok (u, lease)) :
    ∃ store, s.store.reserve f = .ok (store, lease) ∧ u = { s with store := store } := by
  simp only [reserve, bind, Except.bind] at h
  split at h
  · cases h
  · split at h
    · cases h
    · rename_i claimed
      cases h
      exact ⟨_, claimed, rfl⟩

theorem leaseOf?_of_reserve {f : Field} {lease : Lease} (h : s.reserve f = .ok (u, lease)) :
    u.store.leaseOf? f = some lease := by
  obtain ⟨store, claimed, rfl⟩ := reserve_eq_ok h
  obtain ⟨_, _, handed, next⟩ := Store.reserve_eq_ok claimed
  simp [next, handed, Store.leaseOf?]

theorem settings_snapshot {snapshot : Snapshot} (h : s.snapshot Field.all = .ok snapshot) :
    snapshot.settings = s.store.settings := by
  simp only [Scheduler.snapshot, Store.snapshot, bind, Except.bind] at h
  split at h
  · cases h
  · split at h
    · cases h
    · cases h
      exact s.store.settings.restrict_all

/-- One thing that a timer does of its own accord while it handles a piece of work. -/
inductive Duty (id : Nat) (s : Scheduler) : Scheduler → Prop
  | note (listener : String) (scheduled : Instant) :
      Duty id s { s with journal := s.journal ++ [⟨id, listener, scheduled⟩] }
  | seed {u : Scheduler} (absent : s.store.settings.startTime = none)
      (written : s.write none .startTime (some (.instant s.now)) = .ok u) : Duty id s u
  | stop : Duty id s (s.stop id)
  | destroy : Duty id s (s.destroy id)
  | cancelAlarm : Duty id s (s.updateTimer id Timer.cancelAlarm)
  | arm {next : Instant} (later : s.now < next) (stored : s.store.settings.nextExecution = some next) :
      Duty id s (s.arm id (next.since s.now))
  | schedule {next : Instant} {u : Scheduler} (later : s.now < next)
      (written : s.write ((s.timer? id).bind Timer.lease) .nextExecution (some (.instant next)) = .ok u) :
      Duty id s (u.arm id (next.since s.now))

inductive Deed (id : Nat) (s : Scheduler) : Scheduler → Prop
  | duty {u : Scheduler} (done : Duty id s u) : Deed id s u
  | outage (call : Call) (cause : Option Error) : Deed id s (s.setOutage call cause)
  /-- The store is edited as anybody may edit it. -/
  | edit {op : Operation Watch} {next : Store Watch × List Event} (allowed : op.IsEdit)
      (performed : s.store.perform op = .ok next) : Deed id s (s.commit next)
  | take {t : Timer} {work : Work} {rest : List Work} (found : s.timer? id = some t) (first : t.queue = work :: rest) :
      Deed id s (s.updateTimer id fun t => { t with queue := rest })
  | listen (name : String) (reaction : FireReaction) : Deed id s (s.updateTimer id (Timer.addListener name reaction))
  | unlisten (listener : Nat) : Deed id s (s.updateTimer id (Timer.removeListener listener))
  | resume : Deed id s (s.resume id)
  | ring : Deed id s (s.ring id).1

def Deeds (id : Nat) : Scheduler → Scheduler → Prop := Relation.ReflTransGen (Deed id)

theorem Deed.deeds (h : Deed id s u) : Deeds id s u := Relation.ReflTransGen.single h

theorem Duty.deeds (h : Duty id s u) : Deeds id s u := (Deed.duty h).deeds

theorem write_deed {f : Field} {v : Option FieldValue} (h : s.write none f v = .ok u) : Deed id s u := by
  obtain ⟨next, written, rfl⟩ := write_eq_ok h
  have allowed : (Operation.write none f v : Operation Watch).IsEdit := trivial
  exact .edit allowed written

theorem writeBatch_deed {entries : List (Field × Option FieldValue)} (h : s.writeBatch entries = .ok u) :
    Deed id s u := by
  obtain ⟨next, written, rfl⟩ := writeBatch_eq_ok h
  have allowed : (Operation.writeBatch entries : Operation Watch).IsEdit := trivial
  exact .edit allowed written

theorem activate_deed (h : s.activate = .ok u) : Deed id s u := by
  obtain ⟨next, turned, rfl⟩ := activate_eq_ok h
  have allowed : (Operation.activate : Operation Watch).IsEdit := trivial
  exact .edit allowed turned

theorem deactivate_deed (h : s.deactivate = .ok u) : Deed id s u := by
  obtain ⟨next, turned, rfl⟩ := deactivate_eq_ok h
  have allowed : (Operation.deactivate : Operation Watch).IsEdit := trivial
  exact .edit allowed turned

theorem delete_deed (s : Scheduler) (id : Nat) : Deed id s s.delete := by
  have allowed : (Operation.delete : Operation Watch).IsEdit := trivial
  exact .edit allowed rfl

theorem ignoreFailure_deeds {result : Except Error Scheduler} (done : ∀ u, result = .ok u → Deed id s u) :
    Deeds id s (s.ignoreFailure result) := by
  cases result with
  | error e => exact .refl
  | ok u => exact (done u rfl).deeds

theorem setEndTime_eq_ok {finish : Option Instant} (h : s.setEndTime id finish = .ok u) :
    s.write none .endTime (finish.map .instant) = .ok u := by
  simp only [setEndTime, bind, Except.bind] at h
  split at h
  · cases h
  · exact h

theorem setEndTime_deed {finish : Option Instant} (h : s.setEndTime id finish = .ok u) : Deed id s u :=
  write_deed (setEndTime_eq_ok h)

def Duties (id : Nat) : Scheduler → Scheduler → Prop := Relation.ReflTransGen (Duty id)

theorem Duty.duties (h : Duty id s u) : Duties id s u := Relation.ReflTransGen.single h

theorem base_duties {reanchor : Bool} {settings : Settings} {start : Instant} (read : settings = s.store.settings)
    (h : s.base reanchor settings = .ok (u, start)) : Duties id s u := by
  simp only [base] at h
  split at h
  · cases h
    exact .refl
  · cases h
    exact .refl
  · rename_i absent _
    rw [read] at absent
    simp only [bind, Except.bind] at h
    split at h
    · cases h
    · rename_i written
      cases h
      exact (Duty.seed absent written).duties

theorem schedule_duties [Host] (s : Scheduler) (id : Nat) (amount : Amount) (zone : Zone) (start : Instant) :
    Duties id s (s.schedule id amount zone start) := by
  rw [schedule]
  split
  · exact .refl
  · rename_i next found
    split
    · exact .refl
    · rename_i written
      exact (Duty.schedule (Amount.advancePast_after found) written).duties

theorem recomputeFrom_duties [Host] {settings : Settings} (read : settings = s.store.settings) (id : Nat)
    (reanchor : Bool) : Duties id s (s.recomputeFrom id reanchor settings) := by
  rw [recomputeFrom]
  split
  · exact Duty.destroy.duties
  · split
    · exact Duty.cancelAlarm.duties
    · split
      · exact .refl
      · rename_i led
        exact (base_duties read led).trans (schedule_duties _ id _ _ _)

theorem recompute_duties [Host] (s : Scheduler) (id : Nat) (reanchor : Bool) :
    Duties id s (s.recompute id reanchor) := by
  rw [recompute]
  split
  · exact .refl
  · split
    · split
      · exact .refl
      · rename_i snapshot taken
        split
        · exact recomputeFrom_duties (settings_snapshot taken) id reanchor
        · exact .refl
    · exact .refl

section Chain

variable {Step : Scheduler → Scheduler → Prop}

theorem notify_chain {scheduled : Instant} (called : ∀ t, s.timer? id = some t → ∀ l ∈ t.listeners, ∀ s : Scheduler,
    Relation.ReflTransGen Step s (s.call id scheduled l)) : Relation.ReflTransGen Step s (s.notify id scheduled) := by
  have eachCalled : ∀ (listeners : List FireListener) (s : Scheduler),
      (∀ l ∈ listeners, ∀ s : Scheduler, Relation.ReflTransGen Step s (s.call id scheduled l)) →
        Relation.ReflTransGen Step s (listeners.foldl (call id scheduled) s) := by
    intro listeners
    induction listeners with
    | nil => exact fun _ _ => .refl
    | cons l listeners ih =>
      intro s called
      obtain ⟨first, rest⟩ := List.forall_mem_cons.mp called
      -- The others are called with whatever the first one has made of things.
      exact (first s).trans (ih _ rest)
  rw [notify]
  split
  · exact .refl
  · rename_i t found
    exact eachCalled t.listeners s (called t found)

variable (duty : ∀ {s u : Scheduler}, Duty id s u → Step s u)
  (notified : ∀ scheduled, Relation.ReflTransGen Step s (s.notify id scheduled))
include duty

theorem Duties.chain (h : Duties id s u) : Relation.ReflTransGen Step s u :=
  Relation.ReflTransGen.mono (fun _ _ done => duty done) s u h

include notified

theorem fireFrom_chain [Host] : Relation.ReflTransGen Step s (s.fireFrom id s.store.settings) := by
  rw [fireFrom]
  split
  · rename_i next early
    obtain ⟨stored, later⟩ := Option.filter_eq_some_iff.mp early
    exact .single (duty (.arm (of_decide_eq_true later) stored))
  · split
    · exact .single (duty .destroy)
    · split
      · exact .single (duty .cancelAlarm)
      · exact (notified _).trans ((recompute_duties _ id false).chain duty)

theorem fire_chain [Host] : Relation.ReflTransGen Step s (s.fire id) := by
  rw [fire]
  split
  · exact .refl
  · split
    · split
      · exact .refl
      · rename_i snapshot taken
        rw [settings_snapshot taken]
        split
        · exact fireFrom_chain duty notified
        · exact .refl
    · exact .refl

theorem handle_chain [Host] (work : Work) : Relation.ReflTransGen Step s (s.handle id work) ∨
    work = .lifecycle .activated ∧ s.handle id work = s.resume id := by
  rw [handle]
  split
  · exact .inl .refl
  · split
    · exact .inl .refl
    · split
      · exact .inl ((s.recompute_duties id _).chain duty)
      · exact .inl (fire_chain duty notified)
      · exact .inl (.single (duty .destroy))
      · exact .inl (.single (duty .stop))
      · split
        · exact .inl ((s.recompute_duties id false).chain duty)
        · exact .inr ⟨rfl, rfl⟩

end Chain

theorem reactToFire_deeds (s : Scheduler) (id : Nat) (reaction : FireReaction) :
    Deeds id s (s.reactToFire id reaction) := by
  cases reaction with
  | record | panic | waitIdle => exact .refl
  | stop => exact Duty.stop.deeds
  | restart => exact Duty.stop.deeds.trans Deed.resume.deeds
  | destroy => exact Duty.destroy.deeds
  | delete => exact (s.delete_deed id).deeds
  | deactivate => exact ignoreFailure_deeds fun _ => deactivate_deed
  | write f v => exact ignoreFailure_deeds fun _ => write_deed

theorem notify_deeds (s : Scheduler) (id : Nat) (scheduled : Instant) : Deeds id s (s.notify id scheduled) :=
  notify_chain fun _ _ l _ _ => (Duty.note l.name scheduled).deeds.trans (reactToFire_deeds _ id l.reaction)

theorem handle_deeds [Host] (s : Scheduler) (id : Nat) (work : Work) : Deeds id s (s.handle id work) := by
  obtain done | ⟨-, resumed⟩ := handle_chain Deed.duty (s.notify_deeds id) work
  · exact done
  · rw [resumed]
    exact Deed.resume.deeds

/-- To handle a piece of work is a chain of deeds, whatever else is on the store. -/
theorem workNext_deeds [Host] (s : Scheduler) (id : Nat) : Deeds id s (s.workNext id) := by
  rw [workNext]
  split
  · exact .refl
  · rename_i t found
    split
    · exact .refl
    · rename_i work rest queued
      exact (Deed.take found queued).deeds.trans (handle_deeds _ id work)

theorem move_deeds [Host] (s : Scheduler) (id : Nat) (m : Move) :
    (∃ now, m = .act (.setClock now)) ∨ Deeds id s (s.move id m) := by
  cases m with
  | listen name reaction => exact Or.inr (Deed.listen name reaction).deeds
  | outage call cause => exact Or.inr (Deed.outage call cause).deeds
  | act action =>
    cases action with
    | setClock now => exact Or.inl ⟨now, rfl⟩
    | resume => exact Or.inr Deed.resume.deeds
    | stop => exact Or.inr Duty.stop.deeds
    | destroy => exact Or.inr Duty.destroy.deeds
    | listen name => exact Or.inr (Deed.listen name .record).deeds
    | unlisten listener => exact Or.inr (Deed.unlisten listener).deeds
    | setEndTime finish => exact Or.inr (ignoreFailure_deeds fun _ => setEndTime_deed)
    | write f v => exact Or.inr (ignoreFailure_deeds fun _ => write_deed)
    | writeBatch entries => exact Or.inr (ignoreFailure_deeds fun _ => writeBatch_deed)
    | activate => exact Or.inr (ignoreFailure_deeds fun _ => activate_deed)
    | deactivate => exact Or.inr (ignoreFailure_deeds fun _ => deactivate_deed)
    | delete => exact Or.inr (s.delete_deed id).deeds
    | ring => exact Or.inr Deed.ring.deeds
    | work => exact Or.inr (s.workNext_deeds id)

/-- One thing that is done for a timer, whatever of its work it is and whoever is noted. -/
inductive Chore (id : Nat) (s : Scheduler) : Scheduler → Prop
  | duty {u : Scheduler} (done : Duty id s u) : Chore id s u
  | note (entry : Firing) : Chore id s { s with journal := s.journal ++ [entry] }
  | outage (call : Call) (cause : Option Error) : Chore id s (s.setOutage call cause)
  | edit {op : Operation Watch} {next : Store Watch × List Event} (allowed : op.IsEdit)
      (performed : s.store.perform op = .ok next) : Chore id s (s.commit next)
  | update {f : Timer → Timer} (phase : ∀ t, (f t).phase = t.phase) (lease : ∀ t, (f t).lease = t.lease)
      (alarm : ∀ t, (f t).alarm = t.alarm) : Chore id s (s.updateTimer id f)
  | resume : Chore id s (s.resume id)
  | ring : Chore id s (s.ring id).1

def Chores (id : Nat) : Scheduler → Scheduler → Prop := Relation.ReflTransGen (Chore id)

theorem Deed.chore (h : Deed id s u) : Chore id s u := by
  cases h with
  | duty done => exact .duty done
  | outage call cause => exact .outage call cause
  | edit allowed performed => exact .edit allowed performed
  | take _ _ | listen _ _ | unlisten _ => exact .update (fun _ => rfl) (fun _ => rfl) (fun _ => rfl)
  | resume => exact .resume
  | ring => exact .ring

theorem Deeds.chores (h : Deeds id s u) : Chores id s u :=
  Relation.ReflTransGen.mono (fun _ _ done => Deed.chore done) s u h

theorem move_chores [Host] (s : Scheduler) (id : Nat) (m : Move) :
    (∃ now, m = .act (.setClock now)) ∨ Chores id s (s.move id m) :=
  (s.move_deeds id m).imp_right Deeds.chores

end Scheduler

end Cadence
