import Cadence.Proofs.Store.Leasing
import Cadence.Proofs.Timer.Chore
import Cadence.Proofs.Timer.Course

/-!
Who owns a configuration. Any number of timers may be made on one store, and each does what it does, a chore at a
time, while others go on in between. The timer that is not destroyed has the lease on the next execution time, and
where there is none the field is free (`Tenancy`). Making a timer starts a tenancy, destroying it ends it, and nothing
else touches it (`Chore.spares`). So there is one owner at a time, and a new timer is refused for no other reason than
that the last one is still there (`one_owner`). It is assumed that nobody else reserves the next execution time, or
gives back its lease.
-/

namespace Cadence

theorem Timer.armAlarm_phase (t : Timer) (delay : Duration) :
    (t.armAlarm delay).phase = t.phase ∧ (t.armAlarm delay).lease = t.lease := by
  rw [armAlarm]
  split
  · split <;> exact ⟨rfl, rfl⟩
  · exact ⟨rfl, rfl⟩

namespace Scheduler

def holding? (s : Scheduler) (id : Nat) : Option (Option Lease) :=
  (s.timer? id).bind fun t => if t.phase = .destroyed then none else some t.lease

variable {s t u : Scheduler} {id : Nat} {l : Lease}

theorem holding?_updateTimer {f : Timer → Timer}
    (phase : ∀ t ∈ s.timer? id, (f t).phase = .destroyed ↔ t.phase = .destroyed)
    (lease : ∀ t ∈ s.timer? id, (f t).lease = t.lease) (other : Nat) :
    (s.updateTimer id f).holding? other = s.holding? other := by
  by_cases same : other = id
  · rw [holding?, holding?, same, timer?_updateTimer_self]
    cases found : s.timer? id with
    | none => rfl
    | some t => simp [phase t found, lease t found]
  · rw [holding?, holding?, timer?_updateTimer_other s same]

theorem holding?_commit (s : Scheduler) (next : Store Watch × List Event) (id : Nat) :
    (s.commit next).holding? id = s.holding? id := by
  have folded : ∀ (ds : List (Subscription Watch × Event)) (s : Scheduler),
      (ds.foldl deliver s).holding? id = s.holding? id := by
    intro ds
    induction ds with
    | nil => exact fun _ => rfl
    | cons d ds ih =>
      intro s
      refine (ih (s.deliver d)).trans ?_
      rw [deliver]
      split
      · rfl
      · exact holding?_updateTimer (fun t _ => by rw [t.enqueue_phase]) (fun t _ => t.enqueue_lease _) id
  exact folded _ { s with store := next.1 }

/-- Nothing has happened to who holds what, unless everything is deleted. -/
structure Spares (s u : Scheduler) : Prop where
  holding : ∀ id, u.holding? id = s.holding? id
  issued : s.store.Issued → u.store.Issued
  leased : u.store.status ≠ .deleted →
    s.store.status ≠ .deleted ∧ u.store.leaseOf? .nextExecution = s.store.leaseOf? .nextExecution

theorem Spares.trans (first : Spares s t) (second : Spares t u) : Spares s u where
  holding id := (second.holding id).trans (first.holding id)
  issued h := second.issued (first.issued h)
  leased present := by
    obtain ⟨between, same⟩ := second.leased present
    exact ⟨(first.leased between).1, same.trans (first.leased between).2⟩

theorem spares_of_subscriptions (holding : ∀ id, u.holding? id = s.holding? id)
    {subscriptions : List (Subscription Watch)} {next : Nat}
    (store : u.store = { s.store with subscriptions := subscriptions, nextSubscription := next }) : Spares s u := by
  refine ⟨holding, ?_, ?_⟩ <;> rw [store]
  · exact fun h => ⟨h.older, h.distinct, h.cleared⟩
  · exact fun present => ⟨present, rfl⟩

theorem spares_updateTimer {f : Timer → Timer}
    (phase : ∀ t ∈ s.timer? id, (f t).phase = .destroyed ↔ t.phase = .destroyed)
    (lease : ∀ t ∈ s.timer? id, (f t).lease = t.lease) : Spares s (s.updateTimer id f) :=
  spares_of_subscriptions (holding?_updateTimer phase lease) rfl

theorem spares_of_does {op : Operation Watch} {events : List Event} (holding : ∀ id, u.holding? id = s.holding? id)
    (done : Store.Does s.store op u.store events) (unreserved : op ≠ .reserve .nextExecution)
    (unreleased : ∀ l, s.store.leaseOf? .nextExecution = some l → op ≠ .release l) : Spares s u :=
  ⟨holding, fun h => h.does done, done.leaseOf? unreserved unreleased⟩

theorem spares_commit {op : Operation Watch} {next : Store Watch × List Event}
    (done : Store.Does s.store op next.1 next.2) (unreserved : op ≠ .reserve .nextExecution)
    (unreleased : ∀ l, s.store.leaseOf? .nextExecution = some l → op ≠ .release l) : Spares s (s.commit next) :=
  spares_of_does (s.holding?_commit next) (by rw [commit_store]; exact done) unreserved unreleased

theorem spares_write {lease : Option Lease} {f : Field} {v : Option FieldValue} (written : s.write lease f v = .ok u) :
    Spares s u := by
  obtain ⟨next, put, rfl⟩ := write_eq_ok written
  exact spares_commit (Store.does_write put) (fun same => by cases same) fun _ _ same => by cases same

theorem spares_writeBatch {entries : List (Field × Option FieldValue)} (written : s.writeBatch entries = .ok u) :
    Spares s u := by
  obtain ⟨next, put, rfl⟩ := writeBatch_eq_ok written
  exact spares_commit (Store.does_writeBatch put) (fun same => by cases same) fun _ _ same => by cases same

theorem spares_activate (turned : s.activate = .ok u) : Spares s u := by
  obtain ⟨next, set, rfl⟩ := activate_eq_ok turned
  exact spares_commit (Store.does_activate set) (fun same => by cases same) fun _ _ same => by cases same

theorem spares_refl (s : Scheduler) : Spares s s := spares_of_subscriptions (fun _ => rfl) rfl

theorem spares_resume (s : Scheduler) (id : Nat) : Spares s (s.resume id) := by
  obtain same | ⟨t, found, stopped, resumed⟩ := s.resume_cases id
  · rw [same]
    exact s.spares_refl
  · rw [resumed]
    refine spares_of_subscriptions (holding?_updateTimer ?_ ?_) rfl <;> intro w same <;>
      obtain rfl : t = w := Option.some.inj (found.symm.trans same)
    · rw [Timer.enqueue_phase, stopped]
      simp
    · exact Timer.enqueue_lease _ _

theorem spares_stop (s : Scheduler) (id : Nat) : Spares s (s.stop id) := by
  obtain same | ⟨t, subscriptions, found, running, -, stopped⟩ := s.stop_cases id
  · rw [same]
    exact s.spares_refl
  · rw [stopped]
    refine spares_of_subscriptions (holding?_updateTimer ?_ ?_) rfl <;> intro w same <;>
      obtain rfl : t = w := Option.some.inj (found.symm.trans same)
    · simp [Timer.cancelAlarm, running]
    · rfl

theorem spares_arm (s : Scheduler) (id : Nat) (delay : Duration) : Spares s (s.arm id delay) :=
  spares_updateTimer (fun t _ => by rw [(t.armAlarm_phase delay).1]) fun t _ => (t.armAlarm_phase delay).2

theorem spares_ring (s : Scheduler) (id : Nat) : Spares s (s.ring id).1 := by
  have rung : ∀ alarm, Spares s (s.updateTimer id fun u => { u with alarm := alarm }) :=
    fun _ => spares_updateTimer (fun _ _ => Iff.rfl) fun _ _ => rfl
  obtain same | ⟨t, -, silent | heard⟩ := s.ring_cases id
  · rw [same]
    exact s.spares_refl
  · rw [silent]
    exact rung _
  · rw [heard]
    exact (rung _).trans (spares_updateTimer (fun t _ => by rw [t.enqueue_phase]) fun t _ => t.enqueue_lease _)

theorem Duty.spares (done : Duty id s u) : Spares s u ∨ u = s.destroy id := by
  cases done with
  | destroy => exact Or.inr rfl
  | note _ _ => exact Or.inl (spares_of_subscriptions (fun _ => rfl) rfl)
  | seed _ written => exact Or.inl (spares_write written)
  | stop => exact Or.inl (s.spares_stop id)
  | cancelAlarm => exact Or.inl (spares_updateTimer (fun _ _ => Iff.rfl) fun _ _ => rfl)
  | arm _ _ => exact Or.inl (s.spares_arm id _)
  | schedule _ written => exact Or.inl ((spares_write written).trans (spares_arm _ id _))

/-- But for destroying a timer, no chore has to do with who owns the configuration. -/
theorem Chore.spares (done : Chore id s u) : Spares s u ∨ u = s.destroy id := by
  cases done with
  | duty done => exact done.spares
  | note _ | outage _ _ => exact Or.inl (spares_of_subscriptions (fun _ => rfl) rfl)
  | edit allowed performed =>
    refine Or.inl (spares_commit (Store.does_of_perform performed) ?_ ?_)
    · rintro rfl
      exact allowed
    · rintro _ _ rfl
      exact allowed
  | update phase lease _ => exact Or.inl (spares_updateTimer (fun t _ => by rw [phase]) fun t _ => lease t)
  | resume => exact Or.inl (s.spares_resume id)
  | ring => exact Or.inl (s.spares_ring id)

/-- The tenant is the timer that is not destroyed, if there is one; it has a lease, and the next execution time is under
the lease that is said. -/
structure Tenancy (tenant : Option (Nat × Lease)) (lease : Option Lease) (s : Scheduler) : Prop where
  issued : s.store.Issued
  held : ∀ id shown, s.holding? id = some shown → ∃ l, shown = some l ∧ tenant = some (id, l)
  alive : ∀ id l, tenant = some (id, l) → s.holding? id = some (some l)
  leased : s.store.status ≠ .deleted → s.store.leaseOf? .nextExecution = lease

def IsOwned (s : Scheduler) : Prop := ∃ tenant, Tenancy tenant (tenant.map Prod.snd) s

namespace Tenancy

variable {tenant : Option (Nat × Lease)} {lease : Option Lease}

theorem spared (h : Tenancy tenant lease s) (spares : Spares s u) : Tenancy tenant lease u where
  issued := spares.issued h.issued
  held id := by
    rw [spares.holding]
    exact h.held id
  alive id := by
    rw [spares.holding]
    exact h.alive id
  leased present := (spares.leased present).2.trans (h.leased (spares.leased present).1)

theorem reserve (h : Tenancy tenant (tenant.map Prod.snd) s) (reserved : s.reserve .nextExecution = .ok (t, l)) :
    tenant = none ∧ Tenancy none (some l) t := by
  have leased := leaseOf?_of_reserve reserved
  obtain ⟨store, claimed, rfl⟩ := reserve_eq_ok reserved
  obtain ⟨present, free, -, -⟩ := Store.reserve_eq_ok claimed
  obtain rfl : tenant = none := Option.map_eq_none_iff.mp ((h.leased present).symm.trans free)
  exact ⟨rfl, h.issued.does (Store.does_reserve claimed), h.held, h.alive, fun _ => leased⟩

theorem attachWith (h : Tenancy none (some l) s) : Tenancy (some (s.timers.length, l)) (some l) (s.attachWith l).1 := by
  have vacant : ∀ id, s.holding? id = none := by
    intro id
    cases held : s.holding? id with
    | none => rfl
    | some shown =>
      obtain ⟨_, _, absent⟩ := h.held id shown held
      cases absent
  have holding : ∀ id, (s.attachWith l).1.holding? id = if id = s.timers.length then some (some l) else none := by
    intro id
    by_cases last : id = s.timers.length
    · simp [holding?, Scheduler.attachWith, timer?, last, Timer.new]
    · have others : (s.attachWith l).1.timer? id = s.timer? id := by
        simp only [Scheduler.attachWith, timer?, List.getElem?_append]
        by_cases earlier : id < s.timers.length
        · rw [if_pos earlier]
        · rw [if_neg earlier, List.getElem?_eq_none (by simp; omega), List.getElem?_eq_none (by omega)]
      rw [if_neg last, ← vacant id, holding?, holding?, others]
  refine ⟨⟨h.issued.older, h.issued.distinct, h.issued.cleared⟩, fun id shown same => ?_,
    fun id l' same => ?_, h.leased⟩
  · rw [holding] at same
    split at same
    · rename_i last
      exact ⟨l, (Option.some.inj same).symm, by rw [last]⟩
    · cases same
  · cases same
    rw [holding, if_pos rfl]

theorem release (h : Tenancy none (some l) s) : Tenancy none none (s.release l) :=
  ⟨h.issued.does (.release l), h.held, h.alive, fun present => h.issued.leaseOf?_release (h.leased present)⟩

theorem destroy (h : Tenancy tenant (tenant.map Prod.snd) s) (id : Nat) : IsOwned (s.destroy id) := by
  rw [Scheduler.destroy]
  cases found : s.timer? id with
  | none => exact ⟨tenant, h⟩
  | some t =>
    by_cases gone : t.phase = .destroyed
    · simp only [if_pos gone]
      exact ⟨tenant, h⟩
    · have holds : s.holding? id = some t.lease := by simp [holding?, found, gone]
      obtain ⟨l, given, rfl⟩ := h.held id _ holds
      obtain ⟨subscriptions, left⟩ := unsubscribeAll_eq s.store [t.valueSubscription, t.lifecycleSubscription]
      simp only [if_neg gone, given, left]
      -- The lease is given back to a store in which the subscriptions have ended.
      have issued : Store.Issued { s.store with subscriptions := subscriptions } :=
        ⟨h.issued.older, h.issued.distinct, h.issued.cleared⟩
      refine ⟨none, issued.does (.release l), fun other shown same => ?_, fun _ _ absent => ?_, ?_⟩
      · by_cases mine : other = id
        · have ended : ∀ store, ({ s with store := store }.updateTimer id Timer.ended).timer? id = some t.ended := by
            intro store
            rw [timer?_updateTimer_self]
            exact congrArg (Option.map Timer.ended) found
          rw [holding?, mine, ended] at same
          cases same
        · rw [holding?, timer?_updateTimer_other _ mine] at same
          obtain ⟨_, _, owner⟩ := h.held other shown same
          exact absurd (congrArg Prod.fst (Option.some.inj owner)).symm mine
      · cases absent
      · exact fun present => issued.leaseOf?_release (h.leased present)

theorem leaseOf?_eq_none (h : Tenancy none none s) : s.store.leaseOf? .nextExecution = none := by
  by_cases deleted : s.store.status = .deleted
  · simp [Store.leaseOf?, h.issued.cleared deleted]
  · exact h.leased deleted

theorem eq_none_iff (h : Tenancy tenant lease s) : tenant = none ↔ ∀ t ∈ s.timers, t.phase = .destroyed := by
  constructor
  · rintro rfl t member
    obtain ⟨id, found⟩ := List.mem_iff_getElem?.mp member
    refine Decidable.byContradiction fun going => ?_
    obtain ⟨_, _, absent⟩ := h.held id t.lease (by simp [holding?, timer?, found, going])
    cases absent
  · intro all
    cases tenant with
    | none => rfl
    | some tenant =>
      have holds := h.alive tenant.1 tenant.2 rfl
      obtain ⟨t, found, shown⟩ := Option.bind_eq_some_iff.mp holds
      rw [if_pos (all t (List.mem_of_getElem? found))] at shown
      cases shown

end Tenancy

theorem attach_eq_ok {result : Scheduler × Nat} (h : s.attach = .ok result) :
    ∃ claimed l, s.reserve .nextExecution = .ok (claimed, l) ∧ result = claimed.attachWith l := by
  simp only [attach, bind, Except.bind] at h
  split at h
  · cases h
  · rename_i claimed reserved
    exact ⟨claimed.1, claimed.2, reserved, (Except.ok.inj h).symm⟩

theorem create_cases [Host] (s : Scheduler) (period : Period) (start : Option Instant) :
    (∃ e, s.create period start = (s, .error e)) ∨
      ∃ claimed l, s.reserve .nextExecution = .ok (claimed, l) ∧
        (s.create period start = ((claimed.seed l period start).1, .error .offCalendar) ∨
          (∃ e, s.create period start = ((claimed.seed l period start).1.release l, .error e)) ∨
          ∃ id, s.create period start = (((claimed.seed l period start).1.attachWith l).1, .ok id)) := by
  rw [create]
  split
  · exact Or.inl ⟨_, rfl⟩
  · split
    · exact Or.inl ⟨_, rfl⟩
    · rename_i claimed l reserved
      refine Or.inr ⟨claimed, l, reserved, ?_⟩
      split
      · rename_i off
        rw [off]
        exact Or.inl rfl
      · rename_i failed
        rw [failed]
        exact Or.inr (Or.inl ⟨_, rfl⟩)
      · rename_i filled
        rw [filled]
        exact Or.inr (Or.inr ⟨_, rfl⟩)

theorem spares_seed [Host] (s : Scheduler) (l : Lease) (period : Period) (start : Option Instant) :
    Spares s (s.seed l period start).1 :=
  seed_keeps period start (fun h written => h.trans (spares_write written))
    (fun h written => h.trans (spares_writeBatch written)) (fun h turned => h.trans (spares_activate turned))
    (spares_of_subscriptions (fun _ => rfl) rfl)

namespace IsOwned

theorem attach (h : IsOwned s) {result : Scheduler × Nat} (attached : s.attach = .ok result) : IsOwned result.1 := by
  obtain ⟨tenant, h⟩ := h
  obtain ⟨claimed, l, reserved, rfl⟩ := attach_eq_ok attached
  obtain ⟨-, claim⟩ := h.reserve reserved
  exact ⟨_, claim.attachWith⟩

theorem create [Host] (h : IsOwned s) {period : Period} {start : Option Instant}
    (onCalendar : (s.create period start).2 ≠ .error .offCalendar) : IsOwned (s.create period start).1 := by
  obtain ⟨tenant, h⟩ := h
  obtain ⟨e, failed⟩ | ⟨claimed, l, reserved, off | ⟨e, failed⟩ | ⟨id, created⟩⟩ := s.create_cases period start
  · rw [failed]
    exact ⟨tenant, h⟩
  · exact absurd (congrArg Prod.snd off) onCalendar
  · rw [failed]
    exact ⟨none, ((h.reserve reserved).2.spared (spares_seed _ _ _ _)).release⟩
  · rw [created]
    exact ⟨_, ((h.reserve reserved).2.spared (spares_seed _ _ _ _)).attachWith⟩

theorem chore (h : IsOwned s) (done : Chore id s u) : IsOwned u := by
  obtain ⟨tenant, h⟩ := h
  obtain spares | rfl := done.spares
  · exact ⟨tenant, h.spared spares⟩
  · exact h.destroy id

end IsOwned

/-- What may happen on a store with any number of timers, while nobody else reserves the next execution time or gives
back its lease, and no timer is created off the calendar. -/
inductive Happens [Host] (s : Scheduler) : Scheduler → Prop
  | attach {result : Scheduler × Nat} (attached : s.attach = .ok result) : Happens s result.1
  | create {period : Period} {start : Option Instant} (onCalendar : (s.create period start).2 ≠ .error .offCalendar) :
      Happens s (s.create period start).1
  | chore {id : Nat} {u : Scheduler} (done : Chore id s u) : Happens s u
  | setClock (now : Instant) : Happens s (s.setClock now)
  | reserve {u : Scheduler} {f : Field} {l : Lease} (other : f ≠ .nextExecution) (reserved : s.reserve f = .ok (u, l)) :
      Happens s u
  | release {l : Lease} (other : s.store.leaseOf? .nextExecution ≠ some l) : Happens s (s.release l)
  | write {u : Scheduler} {l : Lease} {f : Field} {v : Option FieldValue} (written : s.write (some l) f v = .ok u) :
      Happens s u

def Reaches [Host] : Scheduler → Scheduler → Prop := Relation.ReflTransGen Happens

theorem reaches_chores [Host] (done : Chores id s u) : s.Reaches u := by
  induction done with
  | refl => exact .refl
  | tail _ last ih => exact ih.tail (.chore last)

theorem reaches_move [Host] (s : Scheduler) (id : Nat) (m : Move) : s.Reaches (s.move id m) := by
  obtain ⟨now, rfl⟩ | done := s.move_chores id m
  · exact .single (.setClock now)
  · exact reaches_chores done

theorem reaches_run [Host] (s : Scheduler) (id : Nat) (actions : List Action) : s.Reaches (s.run id actions) := by
  induction actions generalizing s with
  | nil => exact .refl
  | cons a actions ih => exact (s.reaches_move id (.act a)).trans (ih (s.act id a))

theorem IsOwned.happens [Host] (h : IsOwned s) (next : Happens s u) : IsOwned u := by
  cases next with
  | attach attached => exact h.attach attached
  | create onCalendar => exact h.create onCalendar
  | chore done => exact h.chore done
  | setClock now =>
    obtain ⟨tenant, h⟩ := h
    exact ⟨tenant, h.spared (spares_of_subscriptions (fun _ => rfl) rfl)⟩
  | reserve other reserved =>
    obtain ⟨tenant, h⟩ := h
    obtain ⟨store, claimed, rfl⟩ := reserve_eq_ok reserved
    refine ⟨tenant, h.spared (spares_of_does (fun _ => rfl) (Store.does_reserve claimed) ?_ ?_)⟩
    · rintro ⟨rfl⟩
      exact other rfl
    · exact fun _ _ same => by cases same
  | release other =>
    obtain ⟨tenant, h⟩ := h
    refine ⟨tenant, h.spared (spares_of_does (fun _ => rfl) (.release _) (fun same => by cases same) ?_)⟩
    rintro l held ⟨rfl⟩
    exact other held
  | write written =>
    obtain ⟨tenant, h⟩ := h
    exact ⟨tenant, h.spared (spares_write written)⟩

theorem IsOwned.reaches [Host] (h : IsOwned s) (reached : s.Reaches u) : IsOwned u := by
  induction reached with
  | refl => exact h
  | tail _ last ih => exact ih.happens last

theorem isOwned_new (settings : Settings) (status : Status) (now : Instant) :
    IsOwned (.new (.new settings status) now) :=
  ⟨none, Store.issued_new settings status, fun _ _ held => absurd held nofun, fun _ _ absent => absurd absent nofun,
    fun _ => rfl⟩

variable {settings : Settings} {status : Status} {now : Instant}

/-- At most one timer is not destroyed. While the configuration is there, the next execution time is under a lease,
and a new timer is refused, exactly as long as one is not; and a timer that could not be created has left no lease. -/
theorem one_owner [Host] (reached : (new (.new settings status) now).Reaches s) :
    (∀ i j t u, s.timer? i = some t → s.timer? j = some u → t.phase ≠ .destroyed → u.phase ≠ .destroyed → i = j) ∧
      (s.store.status ≠ .deleted →
        (s.store.leaseOf? .nextExecution = none ↔ ∀ t ∈ s.timers, t.phase = .destroyed) ∧
        (s.checkCall .reserve = .ok () → ((∃ next, s.attach = .ok next) ↔ ∀ t ∈ s.timers, t.phase = .destroyed))) ∧
      ∀ period start e, (s.create period start).2 = .error e → e ≠ .offCalendar →
        (s.create period start).1.store.leaseOf? .nextExecution = s.store.leaseOf? .nextExecution := by
  obtain ⟨tenant, h⟩ := (isOwned_new settings status now).reaches reached
  refine ⟨fun i j t u first second going going' => ?_, fun present => ⟨?_, fun up => ⟨?_, fun all => ?_⟩⟩, ?_⟩
  · obtain ⟨_, _, owner⟩ := h.held i t.lease (by simp [holding?, first, going])
    obtain ⟨_, _, same⟩ := h.held j u.lease (by simp [holding?, second, going'])
    exact congrArg Prod.fst (Option.some.inj (owner.symm.trans same))
  · rw [h.leased present, Option.map_eq_none_iff]
    exact h.eq_none_iff
  · rintro ⟨next, attached⟩
    obtain ⟨claimed, l, reserved, -⟩ := attach_eq_ok attached
    exact h.eq_none_iff.mp (h.reserve reserved).1
  · have free : s.store.leaseOf? .nextExecution = none := by
      rw [h.leased present, h.eq_none_iff.mpr all]
      rfl
    simp [Scheduler.attach, Scheduler.reserve, Store.reserve, up, present, free, bind, Except.bind]
  · intro period start e failed onCalendar
    obtain ⟨_, same⟩ | ⟨claimed, l, reserved, off | ⟨_, same⟩ | ⟨id, created⟩⟩ := s.create_cases period start
    · rw [same]
    · rw [off] at failed
      exact absurd (Except.error.inj failed).symm onCalendar
    · obtain ⟨rfl, claim⟩ := h.reserve reserved
      rw [same, (claim.spared (spares_seed _ _ _ _)).release.leaseOf?_eq_none]
      exact h.leaseOf?_eq_none.symm
    · rw [created] at failed
      cases failed

deriving instance DecidableEq for Except

def hourlyRunning : Scheduler := (periodicTimer ⟨1, .clock .hours⟩).run 0 [.resume, .work]

/-- The end time is set to now, which destroys the timer. Another one is created while batches fail. -/
def hourlyEnded : Scheduler :=
  (((hourlyRunning.run 0 [.setEndTime (some hourlyRunning.now), .work]).move 0
    (.outage .batch (some .deleted))).create ⟨2, .clock .hours⟩ (some hourlyRunning.now)).1

theorem hourly_one_owner :
    (periodic ⟨1, .clock .hours⟩).Reaches hourlyRunning ∧ hourlyRunning.timers.map Timer.phase = [.running] ∧
      (¬ ∃ next, hourlyRunning.attach = .ok next) ∧
      (periodic ⟨1, .clock .hours⟩).Reaches hourlyEnded ∧ hourlyEnded.timers.map Timer.phase = [.destroyed] ∧
      hourlyEnded.store.settings.nextExecution = none ∧ ∃ next, hourlyEnded.attach = .ok next := by
  have running : (periodic ⟨1, .clock .hours⟩).Reaches hourlyRunning :=
    Relation.ReflTransGen.trans (.single (.attach (attach_periodic _))) (reaches_run _ 0 _)
  have failed : (((hourlyRunning.run 0 [.setEndTime (some hourlyRunning.now), .work]).move 0
      (.outage .batch (some .deleted))).create ⟨2, .clock .hours⟩ (some hourlyRunning.now)).2 = .error .deleted := by
    decide +kernel
  have ended : (periodic ⟨1, .clock .hours⟩).Reaches hourlyEnded := by
    have out := (reaches_run hourlyRunning 0 [.setEndTime (some hourlyRunning.now), .work]).trans
      (reaches_move _ 0 (.outage .batch (some .deleted)))
    exact (running.trans out).tail (.create (by rw [failed]; nofun))
  have phases : hourlyRunning.timers.map Timer.phase = [.running] ∧
      hourlyEnded.timers.map Timer.phase = [.destroyed] := by decide +kernel
  refine ⟨running, phases.1, fun attached => ?_, ended, phases.2, by decide +kernel, ?_⟩
  · have gone := (((one_owner running).2.1 (by decide +kernel)).2 (by decide +kernel)).mp attached
    have all : ∀ phase ∈ hourlyRunning.timers.map Timer.phase, phase = .destroyed := by simpa using gone
    rw [phases.1] at all
    cases all _ (List.mem_singleton_self _)
  · refine (((one_owner ended).2.1 (by decide +kernel)).2 (by decide +kernel)).mpr ?_
    have all : ∀ phase ∈ hourlyEnded.timers.map Timer.phase, phase = .destroyed := by rw [phases.2]; simp
    simpa using all

end Scheduler

end Cadence
