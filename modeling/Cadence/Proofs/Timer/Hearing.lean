import Cadence.Proofs.Timer.Account

/-!
How edits reach a timer. A timer subscribes to the fields that it watches when it is resumed, and ends the subscription
when it is stopped or destroyed. Whatever happens on its store, edits therefore reach it through the one subscription
that it has noted, and only while it runs (`HearsOnce`, `Unfolds.hearsOnce`). So an edit is one piece of work at most,
and an edit of the next execution time, which the timer does not watch, is none (`HearsOnce.heard_value`).
-/

namespace Cadence

namespace Store

def watches (store : Store Watch) (id : Nat) : List (Subscription Watch) :=
  store.subscriptions.filter fun sub => sub.listener = ⟨id, .values⟩

theorem watches_subscribe (store : Store Watch) (fields : List Field) (listener : Watch) (id : Nat) :
    (store.subscribe fields listener).1.watches id =
      store.watches id ++ if listener = ⟨id, .values⟩ then [⟨store.nextSubscription, fields, listener⟩] else [] := by
  by_cases mine : listener = ⟨id, .values⟩ <;> simp [watches, subscribe, List.filter_append, mine]

end Store

namespace Timer

/-- The subscription by which edits reach the timer. -/
def watch? (t : Timer) : Option Nat := if t.phase = .running then t.valueSubscription else none

theorem Continues.watch? {t w : Timer} (same : t.Continues w) : w.watch? = t.watch? := by
  rw [Timer.watch?, Timer.watch?, same.phase, same.values]

end Timer

namespace Scheduler

variable {s u : Scheduler} {id : Nat} {t : Timer}

/-- Edits reach a timer through the subscription that it has noted, and through no other. -/
def HearsOnce (s : Scheduler) : Prop :=
  ∀ id, (s.store.watches id).Sublist
    (((s.timer? id).bind Timer.watch?).toList.map fun n => ⟨n, Timer.watchedFields, ⟨id, .values⟩⟩)

theorem unsubscribeAll_sublist (store : Store Watch) (ids : List (Option Nat)) :
    (unsubscribeAll store ids).subscriptions.Sublist store.subscriptions := by
  induction ids generalizing store with
  | nil => exact List.Sublist.refl _
  | cons id ids ih =>
    cases id with
    | none => exact ih store
    | some id => exact (ih (store.unsubscribe id)).trans List.filter_sublist

namespace HearsOnce

theorem of_same (h : s.HearsOnce) (subscriptions : u.store.subscriptions.Sublist s.store.subscriptions)
    (timers : ∀ id, (u.timer? id).bind Timer.watch? = (s.timer? id).bind Timer.watch?) : u.HearsOnce := by
  intro id
  rw [timers id]
  exact (subscriptions.filter _).trans (h id)

theorem updateTimer (h : s.HearsOnce) {f : Timer → Timer} (same : ∀ t, (f t).watch? = t.watch?) :
    (s.updateTimer id f).HearsOnce := by
  refine h.of_same (List.Sublist.refl _) fun other => ?_
  by_cases mine : other = id
  · rw [mine, timer?_updateTimer_self, Option.bind_map]
    exact congrArg _ (funext same)
  · rw [timer?_updateTimer_other s mine]

theorem commit (h : s.HearsOnce) {next : Store Watch × List Event}
    (subscriptions : next.1.subscriptions.Sublist s.store.subscriptions) : (s.commit next).HearsOnce := by
  refine h.of_same (by rwa [commit_store]) fun other => ?_
  have same : ∀ t : Timer, (t.enqueueAll (heard other (next.1.deliveries next.2))).watch? = t.watch? := by
    intro t
    obtain ⟨queue, grown⟩ := t.enqueueAll_eq (heard other (next.1.deliveries next.2))
    rw [grown]
    rfl
  rw [timer?_commit_eq, Option.bind_map]
  exact congrArg _ (funext same)

theorem perform (h : s.HearsOnce) (op : Operation Watch) {next : Store Watch × List Event}
    (silent : ∀ fields listener, op ≠ .subscribe fields listener) (performed : s.store.perform op = .ok next) :
    (s.commit next).HearsOnce :=
  h.commit ((Store.does_of_perform (t := next.1) performed).sublist_subscriptions silent)

theorem write (h : s.HearsOnce) {lease : Option Lease} {f : Field} {v : Option FieldValue}
    (written : s.write lease f v = .ok u) : u.HearsOnce := by
  obtain ⟨next, put, rfl⟩ := write_eq_ok written
  exact h.perform (.write lease f v) nofun put

theorem watches_eq_nil (h : s.HearsOnce) (found : s.timer? id = some t) (resting : t.watch? = none) :
    s.store.watches id = [] := by
  have listed := h id
  rw [found, Option.bind_some, resting] at listed
  exact List.sublist_nil.mp listed

theorem resume (h : s.HearsOnce) (id : Nat) : (s.resume id).HearsOnce := by
  obtain same | ⟨t, found, stopped, resumed⟩ := s.resume_cases id
  · rwa [same]
  · have nobody : s.store.watches id = [] := h.watches_eq_nil found (by simp [Timer.watch?, stopped])
    rw [resumed]
    intro other
    change ((s.store.subscribe Timer.watchedFields ⟨id, .values⟩).1.watches other).Sublist _
    rw [Store.watches_subscribe]
    by_cases mine : other = id
    · have there : s.timers[id]? = some t := found
      rw [mine, nobody, timer?_updateTimer_self, timer?, there]
      simp [Timer.watch?, Timer.enqueue]
    · have elsewhere : (⟨id, .values⟩ : Watch) ≠ ⟨other, .values⟩ := by simp [Ne.symm mine]
      rw [timer?_updateTimer_other _ mine, if_neg elsewhere, List.append_nil]
      exact h other

theorem unsubscribe (h : s.HearsOnce) (found : s.timer? id = some t) {ids : List (Option Nat)}
    (listed : t.valueSubscription ∈ ids) {store : Store Watch}
    (left : store.subscriptions = (unsubscribeAll s.store ids).subscriptions) (f : Timer → Timer) :
    ({ s with store := store }.updateTimer id f).HearsOnce := by
  intro other
  by_cases mine : other = id
  · have nobody : store.watches id = [] := by
      refine List.filter_eq_nil_iff.mpr fun sub member heard => ?_
      obtain ⟨before, unlisted⟩ := mem_unsubscribeAll.mp (left ▸ member)
      have watching : sub ∈ s.store.watches id := List.mem_filter.mpr ⟨before, heard⟩
      have noted := (h id).subset watching
      rw [found, Option.bind_some, Timer.watch?] at noted
      split at noted
      · obtain ⟨n, same, rfl⟩ := List.mem_map.mp noted
        rw [Option.mem_toList.mp same] at listed
        exact unlisted listed
      · cases noted
    rw [mine]
    exact nobody.symm ▸ List.nil_sublist _
  · rw [timer?_updateTimer_other _ mine]
    refine List.Sublist.trans (List.Sublist.filter _ ?_) (h other)
    exact left ▸ unsubscribeAll_sublist s.store ids

theorem stop (h : s.HearsOnce) (id : Nat) : (s.stop id).HearsOnce := by
  obtain same | ⟨t, subscriptions, found, -, left, stopped⟩ := s.stop_cases id
  · rwa [same]
  · rw [stopped]
    exact h.unsubscribe found (List.mem_singleton_self _) left.symm _

theorem destroy (h : s.HearsOnce) (id : Nat) : (s.destroy id).HearsOnce := by
  obtain same | ⟨t, subscriptions, found, -, left, destroyed⟩ := s.destroy_cases id
  · rwa [same]
  · rw [destroyed]
    exact h.unsubscribe found List.mem_cons_self left.symm _

theorem ring (h : s.HearsOnce) (id : Nat) : (s.ring id).1.HearsOnce := by
  have rung : ∀ alarm, (s.updateTimer id fun w => { w with alarm := alarm }).HearsOnce :=
    fun _ => h.updateTimer fun _ => rfl
  obtain same | ⟨t, -, silent | heard⟩ := s.ring_cases id
  · rwa [same]
  · rw [silent]
    exact rung _
  · rw [heard]
    exact (rung _).updateTimer fun w => (w.continues_enqueue .fire).watch?

theorem duty (h : s.HearsOnce) (done : Duty id s u) : u.HearsOnce := by
  cases done with
  | note _ _ => exact h
  | seed _ written => exact h.write written
  | stop => exact h.stop id
  | destroy => exact h.destroy id
  | cancelAlarm => exact h.updateTimer fun _ => rfl
  | arm _ _ => exact h.updateTimer fun w => (w.continues_armAlarm _).watch?
  | schedule _ written => exact (h.write written).updateTimer fun w => (w.continues_armAlarm _).watch?

theorem deed (h : s.HearsOnce) (done : Deed id s u) : u.HearsOnce := by
  cases done with
  | duty done => exact h.duty done
  | outage _ _ => exact h
  | edit allowed performed =>
    refine h.perform _ ?_ performed
    rintro fields listener rfl
    exact allowed
  | take _ _ | listen _ _ | unlisten _ => exact h.updateTimer fun _ => rfl
  | resume => exact h.resume id
  | ring => exact h.ring id

theorem deeds (h : s.HearsOnce) (done : Deeds id s u) : u.HearsOnce := by
  induction done with
  | refl => exact h
  | tail _ last ih => exact ih.deed last

theorem attachWith (h : s.HearsOnce) (l : Lease) : (s.attachWith l).1.HearsOnce := by
  intro id
  have timers : ((s.attachWith l).1.timer? id).bind Timer.watch? = (s.timer? id).bind Timer.watch? := by
    have grown : (s.attachWith l).1.timer? id = (s.timers ++ [Timer.new l s.store.nextSubscription])[id]? := rfl
    rw [grown, timer?]
    by_cases before : id < s.timers.length
    · rw [List.getElem?_append_left before]
    · have absent : s.timers[id]? = none := List.getElem?_eq_none (Nat.le_of_not_lt before)
      rw [List.getElem?_append_right (Nat.le_of_not_lt before), absent]
      cases id - s.timers.length <;> rfl
  rw [timers]
  change ((s.store.subscribe [] ⟨s.timers.length, .lifecycle⟩).1.watches id).Sublist _
  have elsewhere : (⟨s.timers.length, .lifecycle⟩ : Watch) ≠ ⟨id, .values⟩ := by simp
  rw [Store.watches_subscribe, if_neg elsewhere, List.append_nil]
  exact h id

theorem reserve (h : s.HearsOnce) {f : Field} {l : Lease} (reserved : s.reserve f = .ok (u, l)) : u.HearsOnce := by
  obtain ⟨store, claimed, rfl⟩ := reserve_eq_ok reserved
  exact h.of_same ((Store.does_reserve claimed).sublist_subscriptions nofun) fun _ => rfl

theorem seed [Host] (h : s.HearsOnce) (l : Lease) (period : Period) (start : Option Instant) :
    (s.seed l period start).1.HearsOnce := by
  refine seed_keeps period start (fun h written => h.write written) (fun h written => ?_) (fun h turned => ?_) h
  · obtain ⟨next, put, rfl⟩ := writeBatch_eq_ok written
    exact h.perform (.writeBatch _) nofun put
  · obtain ⟨next, set, rfl⟩ := activate_eq_ok turned
    exact h.perform .activate nofun set

theorem create [Host] (h : s.HearsOnce) (period : Period) (start : Option Instant) :
    (s.create period start).1.HearsOnce := by
  obtain ⟨e, failed⟩ | ⟨claimed, l, reserved, made⟩ := s.create_cases period start
  · rwa [failed]
  · have seeded := (h.reserve reserved).seed l period start
    obtain off | ⟨e, failed⟩ | ⟨id, created⟩ := made
    · rwa [off]
    · rw [failed]
      exact seeded.of_same (List.Sublist.refl _) fun _ => rfl
    · rw [created]
      exact seeded.attachWith l

theorem occurs [Host] (h : s.HearsOnce) (next : Occurs s u) : u.HearsOnce := by
  cases next with
  | deed done => exact h.deed done
  | setClock now => exact h
  | attach attached =>
    obtain ⟨claimed, l, reserved, rfl⟩ := attach_eq_ok attached
    exact (h.reserve reserved).attachWith l
  | create period start => exact h.create period start
  | operate silent performed => exact h.perform _ silent performed

end HearsOnce

theorem hearsOnce_new (settings : Settings) (status : Status) (now : Instant) :
    (new (.new settings status) now).HearsOnce := fun _ => List.Sublist.refl []

theorem Unfolds.hearsOnce [Host] (begun : s.Unfolds u) (h : s.HearsOnce) : u.HearsOnce := by
  induction begun with
  | refl => exact h
  | tail _ last ih => exact ih.occurs last

theorem heard_deliveries_value (store : Store Watch) (id : Nat) (f : Field) (version : Nat) :
    heard id (store.deliveries [⟨.value f, version⟩]) =
      (store.watches id).filterMap fun sub => if f ∈ sub.fields then Timer.route .values (.value f) else none := by
  rw [heard, Store.deliveries, Store.watches]
  induction store.subscriptions with
  | nil => rfl
  | cons sub rest ih =>
    obtain ⟨number, fields, timer, channel⟩ := sub
    rw [List.flatMap_cons, List.filterMap_append, ih]
    have elsewhere : Timer.route .lifecycle (.value f) = none := rfl
    by_cases wanted : f ∈ fields <;> by_cases mine : timer = id <;> cases channel <;>
      cases routed : Timer.route .values (.value f) <;>
      simp [Subscription.wants, wanted, mine, routed, elsewhere]

/-- An edit of a field that a timer watches is one piece of work at most, and any other edit is none. -/
theorem HearsOnce.heard_value (h : s.HearsOnce) (id : Nat) (f : Field) (version : Nat) :
    (heard id (s.store.deliveries [⟨.value f, version⟩])).Sublist
      (if f ∈ Timer.watchedFields then Timer.route .values (.value f) else none).toList := by
  rw [heard_deliveries_value]
  refine (List.Sublist.filterMap _ (h id)).trans ?_
  cases (s.timer? id).bind Timer.watch? with
  | none => exact List.nil_sublist _
  | some n =>
    by_cases watched : f ∈ Timer.watchedFields
    · cases Timer.route .values (.value f) <;> simp [watched]
    · simp [watched]

end Scheduler

end Cadence
