import Cadence.Proofs.Timer.Situation

/-!
What a timer holds in the store: the lease on the next execution time, and one or two subscriptions, while nobody else
holds anything. `Linked` says so, every action keeps it, and from it the scheduler does what `Situation.act` says
(`Linked.act`).
-/

namespace Cadence

namespace Timer

/-- The first subscription lasts as long as the timer, the second as long as it runs. -/
def subscriptions (id : Nat) (t : Timer) : List (Subscription Watch) :=
  t.lifecycleSubscription.toList.map (fun n => ⟨n, [], ⟨id, .lifecycle⟩⟩) ++
    t.valueSubscription.toList.map (fun n => ⟨n, watchedFields, ⟨id, .values⟩⟩)

def IsAlive (t : Timer) : Prop :=
  (∃ n, t.lifecycleSubscription = some n) ∧ (∃ token, t.lease = some ⟨.nextExecution, token⟩) ∧
    t.alarm.destroyed = false ∧ t.alarm.callback = some ()

def IsDead (t : Timer) : Prop :=
  t.lifecycleSubscription = none ∧ t.lease = none ∧ t.queue = [] ∧ t.alarm.destroyed = true ∧ t.alarm.armed = none

def enqueueAll (works : List Work) (t : Timer) : Timer :=
  if t.phase = .destroyed then t else { t with queue := t.queue ++ works }

theorem enqueueAll_nil (t : Timer) : t.enqueueAll [] = t := by
  simp [enqueueAll]

theorem enqueueAll_eq (works : List Work) (t : Timer) : ∃ queue, t.enqueueAll works = { t with queue := queue } := by
  rw [enqueueAll]
  split
  · exact ⟨t.queue, rfl⟩
  · exact ⟨t.queue ++ works, rfl⟩

theorem enqueueAll_cons (work : Work) (works : List Work) (t : Timer) :
    t.enqueueAll (work :: works) = (t.enqueue work).enqueueAll works := by
  by_cases h : t.phase = .destroyed <;> simp [enqueueAll, enqueue, h]

end Timer

/-- The timer is the only one with a hold on the store, and its hold is complete. -/
structure Linked (s : Scheduler) (id : Nat) (t : Timer) : Prop where
  found : s.timer? id = some t
  noOutage : s.outages = []
  subscribed : s.store.subscriptions = t.subscriptions id
  numbered : ∀ n, t.lifecycleSubscription = some n → n < s.store.nextSubscription ∧ t.valueSubscription ≠ some n
  leased : s.store.leases = if s.store.status = .deleted then [] else t.lease.toList
  watching : t.valueSubscription.isSome = true ↔ t.phase = .running
  alive : t.phase ≠ .destroyed → t.IsAlive
  dead : t.phase = .destroyed → t.IsDead
  recording : ∀ l ∈ t.listeners, l.reaction = .record

namespace Scheduler

theorem updateTimer_updateTimer (s : Scheduler) (id : Nat) (f g : Timer → Timer) :
    (s.updateTimer id f).updateTimer id g = s.updateTimer id (g ∘ f) := by
  simp [updateTimer, List.modify_modify_eq]

theorem updateTimer_id (s : Scheduler) (id : Nat) : s.updateTimer id (fun t => t) = s := by
  have same : s.timers.modify id (fun t => t) = s.timers := List.modify_id id s.timers
  rw [updateTimer, same]

def heard (id : Nat) (ds : List (Subscription Watch × Event)) : List Work :=
  ds.filterMap fun d => if d.1.listener.timer = id then Timer.route d.1.listener.channel d.2.change else none

theorem timer?_foldl_deliver (ds : List (Subscription Watch × Event)) (s : Scheduler) (id : Nat) :
    (ds.foldl deliver s).timer? id = (s.timer? id).map (Timer.enqueueAll (heard id ds)) := by
  induction ds generalizing s with
  | nil =>
    have same : Timer.enqueueAll [] = fun t => t := funext Timer.enqueueAll_nil
    rw [List.foldl_nil, heard, List.filterMap_nil, same, Option.map_id']
  | cons d ds ih =>
    rw [List.foldl_cons, ih, deliver, heard, heard, List.filterMap_cons]
    cases routed : Timer.route d.1.listener.channel d.2.change with
    | none => simp only [ite_self]
    | some work =>
      by_cases mine : d.1.listener.timer = id
      · simp only [mine, if_true, timer?_updateTimer_self, Option.map_map]
        congr 1
        funext t
        exact (Timer.enqueueAll_cons work _ t).symm
      · simp only [mine, if_false, timer?_updateTimer_other s (Ne.symm mine)]

theorem timer?_commit_eq (s : Scheduler) (next : Store Watch × List Event) (id : Nat) :
    (s.commit next).timer? id = (s.timer? id).map (Timer.enqueueAll (heard id (next.1.deliveries next.2))) :=
  timer?_foldl_deliver _ _ id

theorem foldl_deliver {id : Nat} (ds : List (Subscription Watch × Event))
    (mine : ∀ d ∈ ds, d.1.listener.timer = id) (s : Scheduler) :
    ds.foldl deliver s = s.updateTimer id
      (Timer.enqueueAll (ds.filterMap fun d => Timer.route d.1.listener.channel d.2.change)) := by
  induction ds generalizing s with
  | nil =>
    have same : Timer.enqueueAll [] = fun t => t := funext Timer.enqueueAll_nil
    rw [List.foldl_nil, List.filterMap_nil, same, updateTimer_id]
  | cons d ds ih =>
    have tail : ∀ d ∈ ds, d.1.listener.timer = id := fun e member => mine e (List.mem_cons_of_mem d member)
    rw [List.foldl_cons, ih tail, deliver, mine d List.mem_cons_self]
    cases routed : Timer.route d.1.listener.channel d.2.change with
    | none => simp only [List.filterMap_cons, routed]
    | some work =>
      simp only [List.filterMap_cons, routed, updateTimer_updateTimer]
      congr 1
      funext t
      exact (Timer.enqueueAll_cons work _ t).symm

end Scheduler

namespace Timer

/-- What a timer holds is the same, and where it is dead nothing has come to life. -/
structure SameHold (u t : Timer) : Prop where
  phase : u.phase = t.phase
  lease : u.lease = t.lease
  lifecycle : u.lifecycleSubscription = t.lifecycleSubscription
  values : u.valueSubscription = t.valueSubscription
  destroyed : u.alarm.destroyed = t.alarm.destroyed
  callback : u.alarm.callback = t.alarm.callback
  silent : t.IsDead → u.queue = [] ∧ u.alarm.armed = none

theorem sameHold_refl (t : Timer) : t.SameHold t :=
  ⟨rfl, rfl, rfl, rfl, rfl, rfl, fun ended => ⟨ended.2.2.1, ended.2.2.2.2⟩⟩

theorem sameHold_enqueueAll (works : List Work) {t : Timer} (dead : t.phase = .destroyed ↔ t.IsDead) :
    (t.enqueueAll works).SameHold t := by
  by_cases gone : t.phase = .destroyed
  · have same : t.enqueueAll works = t := by simp [enqueueAll, gone]
    rw [same]
    exact sameHold_refl t
  · have grown : t.enqueueAll works = { t with queue := t.queue ++ works } := by simp [enqueueAll, gone]
    rw [grown]
    exact ⟨rfl, rfl, rfl, rfl, rfl, rfl, fun ended => absurd (dead.mpr ended) gone⟩

end Timer

namespace Linked

variable {s u : Scheduler} {id : Nat} {t w : Timer}

theorem dead_iff (h : Linked s id t) : t.phase = .destroyed ↔ t.IsDead := by
  constructor
  · exact h.dead
  · intro ended
    by_cases gone : t.phase = .destroyed
    · exact gone
    · obtain ⟨⟨n, held⟩, _⟩ := h.alive gone
      rw [ended.1] at held
      cases held

theorem carry (h : Linked s id t) (found : u.timer? id = some w) (outages : u.outages = s.outages)
    (subscriptions : u.store.subscriptions = s.store.subscriptions)
    (next : u.store.nextSubscription = s.store.nextSubscription)
    (leases : u.store.leases = if u.store.status = .deleted then [] else t.lease.toList)
    (same : w.SameHold t) (recording : ∀ l ∈ w.listeners, l.reaction = .record) : Linked u id w where
  found := found
  noOutage := outages.trans h.noOutage
  subscribed := by
    rw [subscriptions, h.subscribed, Timer.subscriptions, Timer.subscriptions, same.lifecycle, same.values]
  numbered n held := by
    rw [same.lifecycle] at held
    rw [next, same.values]
    exact h.numbered n held
  leased := by rw [leases, same.lease]
  watching := by rw [same.values, same.phase, h.watching]
  alive going := by
    rw [same.phase] at going
    obtain ⟨lifecycle, lease, destroyed, callback⟩ := h.alive going
    exact ⟨same.lifecycle ▸ lifecycle, same.lease ▸ lease, same.destroyed.trans destroyed,
      same.callback.trans callback⟩
  dead gone := by
    rw [same.phase] at gone
    have ended := h.dead gone
    obtain ⟨queue, armed⟩ := same.silent ended
    exact ⟨same.lifecycle.trans ended.1, same.lease.trans ended.2.1, queue,
      same.destroyed.trans ended.2.2.2.1, armed⟩
  recording := recording

theorem updateTimer (h : Linked s id t) {f : Timer → Timer} (same : (f t).SameHold t)
    (recording : ∀ l ∈ (f t).listeners, l.reaction = .record) : Linked (s.updateTimer id f) id (f t) := by
  have found : (s.updateTimer id f).timer? id = some (f t) := by
    rw [Scheduler.timer?_updateTimer_self, h.found, Option.map_some]
  exact h.carry found rfl rfl rfl h.leased same recording

end Linked

/-- The timer is linked, and this is its situation and the journal. -/
def Shows (s : Scheduler) (id : Nat) (v : Situation) (journal : List Firing) : Prop :=
  ∃ t, Linked s id t ∧ s.situationOf t = v ∧ s.journal = journal

namespace Store

def works (store : Store Watch) (events : List Event) : List Work :=
  (store.deliveries events).filterMap fun d => Timer.route d.1.listener.channel d.2.change

variable {store : Store Watch} {id : Nat} {t : Timer}

theorem listener_of_deliveries (subscribed : store.subscriptions = t.subscriptions id) {events : List Event}
    {d : Subscription Watch × Event} (member : d ∈ store.deliveries events) : d.1.listener.timer = id := by
  simp only [deliveries, subscribed, Timer.subscriptions, List.mem_flatMap, List.mem_append, List.mem_map] at member
  obtain ⟨sub, source, e, _, rfl⟩ := member
  cases source with
  | inl first =>
    obtain ⟨n, _, rfl⟩ := first
    rfl
  | inr second =>
    obtain ⟨n, _, rfl⟩ := second
    rfl

theorem works_value (subscribed : store.subscriptions = t.subscriptions id) (changed : List Field) (version : Nat) :
    store.works (changed.map fun f => ⟨.value f, version⟩) =
      if t.valueSubscription.isSome then
        (changed.filter (· ∈ Timer.watchedFields)).filterMap fun f => Timer.route .values (.value f)
      else [] := by
  cases first : t.lifecycleSubscription <;> cases second : t.valueSubscription <;>
    simp [works, deliveries, subscribed, Timer.subscriptions, first, second, List.filter_map, Subscription.wants,
      Function.comp_def]

theorem works_lifecycle (subscribed : store.subscriptions = t.subscriptions id) (event : Lifecycle) (version : Nat) :
    store.works [⟨.lifecycle event, version⟩] = if t.lifecycleSubscription.isSome then [.lifecycle event] else [] := by
  cases first : t.lifecycleSubscription <;> cases second : t.valueSubscription <;>
    simp [works, deliveries, subscribed, Timer.subscriptions, first, second, Subscription.wants, Timer.route]

end Store

namespace Linked

variable {s : Scheduler} {id : Nat} {t : Timer}

theorem commit (h : Linked s id t) {store : Store Watch} (events : List Event)
    (subscriptions : store.subscriptions = s.store.subscriptions)
    (next : store.nextSubscription = s.store.nextSubscription)
    (leases : store.leases = if store.status = .deleted then [] else t.lease.toList) :
    Shows (s.commit (store, events)) id
      (({ s with store := store }.situationOf t).enqueue (store.works events)) s.journal := by
  have subscribed : store.subscriptions = t.subscriptions id := subscriptions.trans h.subscribed
  have committed : s.commit (store, events) =
      { s with store := store }.updateTimer id (Timer.enqueueAll (store.works events)) :=
    Scheduler.foldl_deliver (store.deliveries events) (fun _ => Store.listener_of_deliveries subscribed)
      { s with store := store }
  have moved : Linked { s with store := store } id t :=
    h.carry h.found rfl subscriptions next leases (Timer.sameHold_refl t) h.recording
  rw [committed]
  refine ⟨t.enqueueAll (store.works events), moved.updateTimer (Timer.sameHold_enqueueAll _ h.dead_iff) ?_, ?_, rfl⟩
  · by_cases gone : t.phase = .destroyed <;> simpa [Timer.enqueueAll, gone] using h.recording
  · by_cases gone : t.phase = .destroyed <;>
      simp [Timer.enqueueAll, Situation.enqueue, Scheduler.situationOf, Scheduler.updateTimer, gone]

end Linked

end Cadence
