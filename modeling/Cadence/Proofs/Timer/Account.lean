import Cadence.Proofs.Timer.Ownership

/-!
The account that a timer keeps of what it holds. Any number of timers may be made on one store, and others may do what
they like with it. A timer lists its subscriptions, and it has its lease; it gives them all back when it is destroyed,
whatever it is that destroys it (`IsAccounted`). From then on only listeners can be added to it and removed from it
(`Follows`). Every deed keeps all this, and so does every run (`Unfolds.passes`).
-/

namespace Cadence

namespace Store

variable {κ : Type} {s t u : Store κ} {op : Operation κ} {events : List Event}

structure Proceeds (s t : Store κ) : Prop where
  token : s.nextToken ≤ t.nextToken
  retired : ∀ l : Lease, l.token < s.nextToken → l ∉ s.leases → l ∉ t.leases

theorem Proceeds.trans (first : Proceeds s t) (second : Proceeds t u) : Proceeds s u :=
  ⟨Nat.le_trans first.token second.token, fun l old gone =>
    second.retired l (Nat.lt_of_lt_of_le old first.token) (first.retired l old gone)⟩

theorem proceeds_refl (s : Store κ) : Proceeds s s := ⟨Nat.le_refl _, fun _ _ gone => gone⟩

theorem proceeds_of_subset (token : t.nextToken = s.nextToken) (leases : t.leases ⊆ s.leases) : Proceeds s t :=
  ⟨Nat.le_of_eq token.symm, fun _ _ gone held => gone (leases held)⟩

theorem Does.proceeds (h : Does s op t events) : Proceeds s t where
  token := h.nextToken
  retired l old gone held := by
    obtain before | ⟨token, -⟩ := h.mem_leases held
    · exact gone before
    · omega

theorem Does.sublist_subscriptions (h : Does s op t events)
    (silent : ∀ fields listener, op ≠ .subscribe fields listener) : t.subscriptions.Sublist s.subscriptions := by
  cases h with
  | subscribe fields listener => exact absurd rfl (silent fields listener)
  | unsubscribe id => exact List.filter_sublist
  | _ => exact List.Sublist.refl _

end Store

section Related

variable {α : Type} {r : α → α → Prop} {a b : Option α}

theorem exists_of_rel (related : Option.Rel r a b) {x : α} (found : a = some x) : ∃ y, b = some y ∧ r x y := by
  cases related with
  | none => cases found
  | some same =>
    cases found
    exact ⟨_, rfl, same⟩

theorem exists_of_rel_right (related : Option.Rel r a b) {y : α} (found : b = some y) : ∃ x, a = some x ∧ r x y := by
  cases related with
  | none => cases found
  | some same =>
    cases found
    exact ⟨_, rfl, same⟩

end Related

namespace Timer

def Lists (t : Timer) (subscription : Nat) : Prop :=
  t.valueSubscription = some subscription ∨ t.lifecycleSubscription = some subscription

def SameButListeners (t w : Timer) : Prop := w = { t with listeners := w.listeners, nextListener := w.nextListener }

theorem SameButListeners.trans {t w x : Timer} (first : t.SameButListeners w) (second : w.SameButListeners x) :
    t.SameButListeners x := by
  rw [SameButListeners] at *
  rw [second, first]

structure Continues (t w : Timer) : Prop where
  phase : w.phase = t.phase
  lease : w.lease = t.lease
  values : w.valueSubscription = t.valueSubscription
  lifecycle : w.lifecycleSubscription = t.lifecycleSubscription
  dead : t.phase = .destroyed → t.IsDead → t.SameButListeners w

theorem continues_refl (t : Timer) : t.Continues t := ⟨rfl, rfl, rfl, rfl, fun _ _ => rfl⟩

theorem continues_enqueue (t : Timer) (work : Work) : t.Continues (t.enqueue work) := by
  by_cases gone : t.phase = .destroyed
  · rw [enqueue_of_destroyed gone]
    exact t.continues_refl
  · rw [enqueue, if_neg gone]
    exact ⟨rfl, rfl, rfl, rfl, fun ended => absurd ended gone⟩

theorem continues_armAlarm (t : Timer) (delay : Duration) : t.Continues (t.armAlarm delay) := by
  by_cases running : t.phase = .running
  · rw [armAlarm, if_pos running]
    split
    · exact ⟨rfl, rfl, rfl, rfl, fun ended => by rw [running] at ended; cases ended⟩
    · exact t.continues_refl
  · rw [armAlarm, if_neg running]
    exact t.continues_refl

theorem continues_cancelAlarm (t : Timer) : t.Continues t.cancelAlarm := by
  refine ⟨rfl, rfl, rfl, rfl, fun _ dead => ?_⟩
  have same : t.alarm.cancel = t.alarm := by rw [ManualAlarm.cancel, ← dead.2.2.2.2]
  rw [SameButListeners, cancelAlarm, same]

theorem continues_fire (t : Timer) (now : Instant) : t.Continues { t with alarm := (t.alarm.fire now).1 } := by
  refine ⟨rfl, rfl, rfl, rfl, fun _ dead => ?_⟩
  rw [SameButListeners, ManualAlarm.fire_destroyed dead.2.2.2.1]

end Timer

namespace Scheduler

variable {s u v : Scheduler} {id : Nat} {t w : Timer}

/-- What the timers have noted is right: whose a subscription is, and that those who are destroyed have given up
everything. -/
structure IsAccounted (s : Scheduler) : Prop where
  listed : ∀ sub ∈ s.store.subscriptions, ∃ t, s.timer? sub.listener.timer = some t ∧ t.Lists sub.id
  issued : ∀ id t l, s.timer? id = some t → t.lease = some l → l.token < s.store.nextToken
  stopped : ∀ id t, s.timer? id = some t → t.phase = .stopped → t.valueSubscription = none
  dead : ∀ id t, s.timer? id = some t → t.phase = .destroyed → t.IsDead ∧ t.valueSubscription = none

/-- A timer keeps its lease until it is destroyed; then the lease is given back, and the timer stays as it is. -/
structure Ages (s u : Scheduler) (t w : Timer) : Prop where
  ended : t.phase = .destroyed → t.SameButListeners w
  lease : w.phase ≠ .destroyed → w.lease = t.lease
  returned : t.phase ≠ .destroyed → w.phase = .destroyed → ∀ l, t.lease = some l → l.token < s.store.nextToken →
    l ∉ u.store.leases

structure Follows (s u : Scheduler) : Prop where
  store : s.store.Proceeds u.store
  timer : ∀ id t, s.timer? id = some t → ∃ w, u.timer? id = some w ∧ Ages s u t w

theorem Follows.trans (first : Follows s u) (second : Follows u v) : Follows s v where
  store := first.store.trans second.store
  timer id t found := by
    obtain ⟨w, there, aged⟩ := first.timer id t found
    obtain ⟨x, last, older⟩ := second.timer id w there
    have still : t.phase = .destroyed → w.phase = .destroyed := fun gone => by rw [aged.ended gone]; exact gone
    have stays : w.phase = .destroyed → x.phase = .destroyed := fun gone => by rw [older.ended gone]; exact gone
    refine ⟨x, last, fun gone => (aged.ended gone).trans (older.ended (still gone)), fun going => ?_, ?_⟩
    · exact (older.lease going).trans (aged.lease (mt stays going))
    · intro going gone l held old
      have recent := Nat.lt_of_lt_of_le old first.store.token
      by_cases between : w.phase = .destroyed
      · exact second.store.retired l recent (aged.returned going between l held old)
      · exact older.returned between gone l ((aged.lease between).trans held) recent

def Passes (s u : Scheduler) : Prop := IsAccounted s → IsAccounted u ∧ Follows s u

theorem Passes.trans (first : Passes s u) (second : Passes u v) : Passes s v := fun h => by
  obtain ⟨accounted, follows⟩ := first h
  obtain ⟨later, goes⟩ := second accounted
  exact ⟨later, follows.trans goes⟩

theorem passes_of_continues (subscriptions : u.store.subscriptions ⊆ s.store.subscriptions)
    (store : s.store.Proceeds u.store) (timers : ∀ id, Option.Rel Timer.Continues (s.timer? id) (u.timer? id)) :
    Passes s u := by
  intro h
  refine ⟨⟨fun sub member => ?_, fun id w l found held => ?_, fun id w found resting => ?_, fun id w found gone => ?_⟩,
    ⟨store, fun id t found => ?_⟩⟩
  · obtain ⟨t, found, lists⟩ := h.listed sub (subscriptions member)
    obtain ⟨w, there, same⟩ := exists_of_rel (timers _) found
    exact ⟨w, there, by rwa [Timer.Lists, same.values, same.lifecycle]⟩
  · obtain ⟨t, before, same⟩ := exists_of_rel_right (timers id) found
    exact Nat.lt_of_lt_of_le (h.issued id t l before (same.lease.symm.trans held)) store.token
  · obtain ⟨t, before, same⟩ := exists_of_rel_right (timers id) found
    exact same.values.trans (h.stopped id t before (same.phase.symm.trans resting))
  · obtain ⟨t, before, same⟩ := exists_of_rel_right (timers id) found
    have ended : t.phase = .destroyed := same.phase.symm.trans gone
    obtain ⟨dead, values⟩ := h.dead id t before ended
    rw [same.dead ended dead]
    exact ⟨dead, values⟩
  · obtain ⟨w, there, same⟩ := exists_of_rel (timers id) found
    refine ⟨w, there, fun gone => same.dead gone (h.dead id t found gone).1, fun _ => same.lease, ?_⟩
    exact fun going gone => absurd (same.phase.symm.trans gone) going

theorem rel_refl (o : Option Timer) : Option.Rel Timer.Continues o o := by
  cases o with
  | none => exact .none
  | some t => exact .some t.continues_refl

theorem passes_of_store (subscriptions : u.store.subscriptions ⊆ s.store.subscriptions)
    (store : s.store.Proceeds u.store) (timers : u.timers = s.timers) : Passes s u := by
  refine passes_of_continues subscriptions store fun id => ?_
  rw [timer?, timer?, timers]
  exact rel_refl _

theorem passes_of_frame (store : u.store = s.store) (timers : u.timers = s.timers) : Passes s u := by
  refine passes_of_store ?_ ?_ timers <;> rw [store]
  · exact List.Subset.refl _
  · exact Store.proceeds_refl _

theorem passes_refl (s : Scheduler) : Passes s s := passes_of_frame rfl rfl

theorem passes_updateTimer {f : Timer → Timer} (same : ∀ t, s.timer? id = some t → t.Continues (f t)) :
    Passes s (s.updateTimer id f) := by
  refine passes_of_continues (List.Subset.refl _) (Store.proceeds_refl _) fun other => ?_
  by_cases mine : other = id
  · rw [mine, timer?_updateTimer_self]
    cases found : s.timer? id with
    | none => exact .none
    | some t => exact .some (same t found)
  · rw [timer?_updateTimer_other s mine]
    exact rel_refl _

theorem passes_deliver (s : Scheduler) (d : Subscription Watch × Event) : Passes s (s.deliver d) := by
  rw [deliver]
  split
  · exact s.passes_refl
  · exact passes_updateTimer fun t _ => t.continues_enqueue _

theorem passes_commit {next : Store Watch × List Event} (subscriptions : next.1.subscriptions ⊆ s.store.subscriptions)
    (store : s.store.Proceeds next.1) : Passes s (s.commit next) := by
  have taken : Passes s { s with store := next.1 } := passes_of_store subscriptions store rfl
  have delivered : ∀ (ds : List (Subscription Watch × Event)) (s : Scheduler), Passes s (ds.foldl deliver s) := by
    intro ds
    induction ds with
    | nil => exact fun s => s.passes_refl
    | cons d ds ih => exact fun s => (s.passes_deliver d).trans (ih (s.deliver d))
  exact taken.trans (delivered _ _)

theorem passes_perform (op : Operation Watch) {next : Store Watch × List Event}
    (silent : ∀ fields listener, op ≠ .subscribe fields listener) (performed : s.store.perform op = .ok next) :
    Passes s (s.commit next) := by
  have done : Store.Does s.store op next.1 next.2 := Store.does_of_perform performed
  exact passes_commit (done.sublist_subscriptions silent).subset done.proceeds

/-- One timer changes what it holds. It lists its subscriptions that remain, and holds on to its lease until its end. -/
theorem passes_of_change (found : s.timer? id = some t) (going : t.phase ≠ .destroyed)
    (others : ∀ other, other ≠ id → u.timer? other = s.timer? other) (mine : u.timer? id = some w)
    (store : s.store.Proceeds u.store)
    (listed : ∀ sub ∈ u.store.subscriptions,
      sub ∈ s.store.subscriptions ∧ (t.Lists sub.id → w.Lists sub.id) ∨ sub.listener.timer = id ∧ w.Lists sub.id)
    (lease : w.phase ≠ .destroyed → w.lease = t.lease) (stopped : w.phase = .stopped → w.valueSubscription = none)
    (dead : w.phase = .destroyed → w.IsDead ∧ w.valueSubscription = none ∧ ∀ l, t.lease = some l → l ∉ u.store.leases) :
    Passes s u := by
  intro h
  have either : ∀ other x, u.timer? other = some x → other = id ∧ x = w ∨ s.timer? other = some x := by
    intro other x there
    by_cases same : other = id
    · rw [same, mine] at there
      exact .inl ⟨same, (Option.some.inj there).symm⟩
    · exact .inr ((others other same).symm.trans there)
  refine ⟨⟨fun sub member => ?_, fun other x l there held => ?_, fun other x there resting => ?_,
    fun other x there gone => ?_⟩, ⟨store, fun other x before => ?_⟩⟩
  · obtain ⟨before, kept⟩ | ⟨rfl, lists⟩ := listed sub member
    · obtain ⟨x, there, lists⟩ := h.listed sub before
      by_cases same : sub.listener.timer = id
      · rw [same, found] at there
        cases there
        exact ⟨w, by rw [same, mine], kept lists⟩
      · exact ⟨x, (others _ same).trans there, lists⟩
    · exact ⟨w, mine, lists⟩
  · obtain ⟨rfl, rfl⟩ | before := either other x there
    · by_cases gone : x.phase = .destroyed
      · rw [(dead gone).1.2.1] at held
        cases held
      · exact Nat.lt_of_lt_of_le (h.issued other t l found ((lease gone).symm.trans held)) store.token
    · exact Nat.lt_of_lt_of_le (h.issued other x l before held) store.token
  · obtain ⟨rfl, rfl⟩ | before := either other x there
    · exact stopped resting
    · exact h.stopped other x before resting
  · obtain ⟨rfl, rfl⟩ | before := either other x there
    · exact ⟨(dead gone).1, (dead gone).2.1⟩
    · exact h.dead other x before gone
  · by_cases same : other = id
    · rw [same, found] at before
      cases before
      rw [same]
      exact ⟨w, mine, fun gone => absurd gone going, lease, fun _ gone l held _ => (dead gone).2.2 l held⟩
    · refine ⟨x, (others other same).trans before, fun _ => rfl, fun _ => rfl, fun alive gone => absurd gone alive⟩

theorem passes_updateTimer_store {store : Store Watch} {f : Timer → Timer} (found : s.timer? id = some t)
    (going : t.phase ≠ .destroyed) (proceeds : s.store.Proceeds store)
    (listed : ∀ sub ∈ store.subscriptions, sub ∈ s.store.subscriptions ∧ (t.Lists sub.id → (f t).Lists sub.id) ∨
      sub.listener.timer = id ∧ (f t).Lists sub.id)
    (lease : (f t).phase ≠ .destroyed → (f t).lease = t.lease)
    (stopped : (f t).phase = .stopped → (f t).valueSubscription = none)
    (dead : (f t).phase = .destroyed →
      (f t).IsDead ∧ (f t).valueSubscription = none ∧ ∀ l, t.lease = some l → l ∉ store.leases) :
    Passes s ({ s with store := store }.updateTimer id f) := by
  refine passes_of_change found going (fun other different => ?_) ?_ proceeds listed lease stopped dead
  · exact timer?_updateTimer_other { s with store := store } different f
  · rw [timer?_updateTimer_self]
    exact congrArg (Option.map f) found

theorem passes_resume (s : Scheduler) (id : Nat) : Passes s (s.resume id) := by
  intro h
  obtain same | ⟨t, found, stopped, resumed⟩ := s.resume_cases id
  · rw [same]
    exact s.passes_refl h
  · rw [resumed]
    have values := h.stopped id t found stopped
    have proceeds : s.store.Proceeds (s.store.subscribe Timer.watchedFields ⟨id, .values⟩).1 :=
      Store.proceeds_of_subset rfl (List.Subset.refl _)
    refine passes_updateTimer_store found (by simp [stopped]) proceeds (fun sub member => ?_) (fun _ => rfl)
      (fun resting => by cases resting) (fun gone => by cases gone) h
    obtain before | new := List.mem_append.mp member
    · refine .inl ⟨before, fun lists => .inr ?_⟩
      exact lists.resolve_left (by simp [values])
    · cases List.mem_singleton.mp new
      exact .inr ⟨rfl, .inl rfl⟩

theorem mem_unsubscribeAll {store : Store Watch} {ids : List (Option Nat)} {sub : Subscription Watch} :
    sub ∈ (unsubscribeAll store ids).subscriptions ↔ sub ∈ store.subscriptions ∧ some sub.id ∉ ids := by
  induction ids generalizing store with
  | nil => simp [unsubscribeAll]
  | cons id ids ih =>
    rw [unsubscribeAll, List.foldl_cons]
    refine ih.trans ?_
    cases id with
    | none => simp
    | some id => simp [Store.unsubscribe, and_assoc]

theorem passes_stop (s : Scheduler) (id : Nat) : Passes s (s.stop id) := by
  obtain same | ⟨t, subscriptions, found, running, left, stopped⟩ := s.stop_cases id
  · rw [same]
    exact s.passes_refl
  · rw [stopped]
    refine passes_updateTimer_store found (by simp [running]) (Store.proceeds_of_subset rfl (List.Subset.refl _))
      (fun sub member => ?_) (fun _ => rfl) (fun _ => rfl) (fun gone => by cases gone)
    obtain ⟨before, other⟩ := mem_unsubscribeAll.mp (left.symm ▸ member)
    refine .inl ⟨before, fun lists => .inr ?_⟩
    exact lists.resolve_left fun mine => other (by simp [mine])

theorem passes_destroy (s : Scheduler) (id : Nat) : Passes s (s.destroy id) := by
  obtain same | ⟨t, subscriptions, found, going, left, destroyed⟩ := s.destroy_cases id
  · rw [same]
    exact s.passes_refl
  · rw [destroyed]
    refine passes_updateTimer_store found going (Store.proceeds_of_subset rfl List.filter_sublist.subset)
      (fun sub member => ?_) (absurd rfl) (fun resting => by cases resting) (fun _ => ?_)
    · obtain ⟨before, unlisted⟩ := mem_unsubscribeAll.mp (left.symm ▸ member)
      refine .inl ⟨before, fun lists => absurd ?_ unlisted⟩
      obtain mine | mine := lists <;> simp [mine]
    · refine ⟨⟨rfl, rfl, rfl, rfl, rfl⟩, rfl, fun l held member => ?_⟩
      simp [held] at member

theorem passes_attachWith {l : Lease} (old : l.token < s.store.nextToken) : Passes s (s.attachWith l).1 := by
  intro h
  have earlier : ∀ id t, s.timer? id = some t → (s.attachWith l).1.timer? id = some t := by
    intro id t found
    obtain ⟨bound, -⟩ := List.getElem?_eq_some_iff.mp found
    exact (List.getElem?_append_left bound).trans found
  have last : (s.attachWith l).1.timer? s.timers.length = some (Timer.new l s.store.nextSubscription) :=
    List.getElem?_concat_length ..
  have either : ∀ id w, (s.attachWith l).1.timer? id = some w →
      w = Timer.new l s.store.nextSubscription ∨ s.timer? id = some w := by
    intro id w found
    by_cases bound : id < s.timers.length
    · exact .inr ((List.getElem?_append_left bound).symm.trans found)
    · have new := List.mem_of_getElem? ((List.getElem?_append_right (by omega)).symm.trans found)
      exact .inl (List.mem_singleton.mp new)
  have proceeds : s.store.Proceeds (s.attachWith l).1.store := Store.proceeds_of_subset rfl (List.Subset.refl _)
  refine ⟨⟨fun sub member => ?_, fun id w k found held => ?_, fun id w found resting => ?_, fun id w found gone => ?_⟩,
    ⟨proceeds, fun id t found => ?_⟩⟩
  · obtain before | new := List.mem_append.mp member
    · obtain ⟨t, found, lists⟩ := h.listed sub before
      exact ⟨t, earlier _ t found, lists⟩
    · cases List.mem_singleton.mp new
      exact ⟨_, last, .inr rfl⟩
  · obtain rfl | before := either id w found
    · cases held
      exact old
    · exact h.issued id w k before held
  · obtain rfl | before := either id w found
    · rfl
    · exact h.stopped id w before resting
  · obtain rfl | before := either id w found
    · cases gone
    · exact h.dead id w before gone
  · exact ⟨t, earlier id t found, fun _ => rfl, fun _ => rfl, fun alive gone => absurd gone alive⟩

theorem passes_write {lease : Option Lease} {f : Field} {v : Option FieldValue} (written : s.write lease f v = .ok u) :
    Passes s u := by
  obtain ⟨next, put, rfl⟩ := write_eq_ok written
  exact passes_perform (.write lease f v) nofun put

theorem Duty.passes (h : Duty id s u) : Passes s u := by
  cases h with
  | note _ _ => exact passes_of_frame rfl rfl
  | seed _ written => exact passes_write written
  | stop => exact s.passes_stop id
  | destroy => exact s.passes_destroy id
  | cancelAlarm => exact passes_updateTimer fun t _ => t.continues_cancelAlarm
  | arm _ _ => exact passes_updateTimer fun t _ => t.continues_armAlarm _
  | schedule _ written => exact (passes_write written).trans (passes_updateTimer fun t _ => t.continues_armAlarm _)

theorem Deed.passes (h : Deed id s u) : Passes s u := by
  cases h with
  | duty done => exact done.passes
  | outage _ _ => exact passes_of_frame rfl rfl
  | edit allowed performed =>
    refine passes_perform _ ?_ performed
    rintro fields listener rfl
    exact allowed
  | take found first =>
    refine passes_updateTimer fun t there => ⟨rfl, rfl, rfl, rfl, fun _ dead => ?_⟩
    rw [found] at there
    cases there
    rw [dead.2.2.1] at first
    cases first
  | listen _ _ | unlisten _ => exact passes_updateTimer fun t _ => ⟨rfl, rfl, rfl, rfl, fun _ _ => rfl⟩
  | resume => exact s.passes_resume id
  | ring =>
    have rung : ∀ t, s.timer? id = some t →
        Passes s (s.updateTimer id fun w => { w with alarm := (t.alarm.fire s.now).1 }) := by
      refine fun t found => passes_updateTimer fun w there => ?_
      rw [found] at there
      cases there
      exact t.continues_fire s.now
    obtain same | ⟨t, found, silent | heard⟩ := s.ring_cases id
    · rw [same]
      exact s.passes_refl
    · rw [silent]
      exact rung t found
    · rw [heard]
      exact (rung t found).trans (passes_updateTimer fun w _ => w.continues_enqueue .fire)

/-- What may happen next on a store: a deed of any of its timers, in the middle of what that does or not, a time on the
clock, another timer, or any operation of somebody else, with or without a lease. Who else subscribes is left out, as
nothing of a timer depends on it. -/
inductive Occurs [Host] (s : Scheduler) : Scheduler → Prop
  | deed {id : Nat} {u : Scheduler} (done : Deed id s u) : Occurs s u
  | setClock (now : Instant) : Occurs s (s.setClock now)
  | attach {result : Scheduler × Nat} (attached : s.attach = .ok result) : Occurs s result.1
  | create (period : Period) (start : Option Instant) : Occurs s (s.create period start).1
  | operate {op : Operation Watch} {next : Store Watch × List Event}
      (silent : ∀ fields listener, op ≠ .subscribe fields listener) (performed : s.store.perform op = .ok next) :
      Occurs s (s.commit next)

def Unfolds [Host] : Scheduler → Scheduler → Prop := Relation.ReflTransGen Occurs

theorem unfolds_move [Host] (s : Scheduler) (id : Nat) (m : Move) : s.Unfolds (s.move id m) := by
  obtain ⟨now, rfl⟩ | done := s.move_deeds id m
  · exact .single (.setClock now)
  · exact Relation.ReflTransGen.mono (fun _ _ done => Occurs.deed done) _ _ done

theorem passes_reserve {f : Field} {l : Lease} (reserved : s.reserve f = .ok (u, l)) :
    Passes s u ∧ l.token < u.store.nextToken := by
  obtain ⟨store, claimed, rfl⟩ := reserve_eq_ok reserved
  have done := Store.does_reserve claimed
  obtain ⟨-, -, handed, next⟩ := Store.reserve_eq_ok claimed
  refine ⟨passes_of_store (done.sublist_subscriptions nofun).subset done.proceeds rfl, ?_⟩
  simp [next, handed]

theorem passes_seed [Host] (s : Scheduler) (l : Lease) (period : Period) (start : Option Instant) :
    Passes s (s.seed l period start).1 := by
  refine seed_keeps period start (fun h written => h.trans ?_) (fun h written => h.trans ?_)
    (fun h turned => h.trans ?_) s.passes_refl
  · obtain ⟨next, put, rfl⟩ := write_eq_ok written
    exact passes_perform (.write (some l) .nextExecution _) nofun put
  · obtain ⟨next, put, rfl⟩ := writeBatch_eq_ok written
    exact passes_perform (.writeBatch _) nofun put
  · obtain ⟨next, set, rfl⟩ := activate_eq_ok turned
    exact passes_perform .activate nofun set

theorem passes_release (s : Scheduler) (l : Lease) : Passes s (s.release l) :=
  passes_of_store (List.Subset.refl _) (Store.Does.release l).proceeds rfl

theorem passes_create [Host] (s : Scheduler) (period : Period) (start : Option Instant) :
    Passes s (s.create period start).1 := by
  obtain ⟨e, failed⟩ | ⟨claimed, l, reserved, made⟩ := s.create_cases period start
  · rw [failed]
    exact s.passes_refl
  · obtain ⟨claim, old⟩ := passes_reserve reserved
    have seeded := claimed.passes_seed l period start
    obtain off | ⟨e, failed⟩ | ⟨id, created⟩ := made
    · rw [off]
      exact claim.trans seeded
    · rw [failed]
      exact (claim.trans seeded).trans (passes_release _ l)
    · rw [created]
      intro h
      -- Filling in the configuration takes no token back, so that the lease is still one that was handed out.
      have recent := Nat.lt_of_lt_of_le old (seeded (claim h).1).2.store.token
      exact (claim.trans seeded).trans (passes_attachWith recent) h

theorem Occurs.passes [Host] (h : Occurs s u) : Passes s u := by
  cases h with
  | deed done => exact done.passes
  | setClock now => exact passes_of_frame rfl rfl
  | attach attached =>
    obtain ⟨claimed, l, reserved, rfl⟩ := attach_eq_ok attached
    obtain ⟨claim, old⟩ := passes_reserve reserved
    exact claim.trans (passes_attachWith old)
  | create period start => exact s.passes_create period start
  | operate silent performed => exact passes_perform _ silent performed

theorem Unfolds.passes [Host] (h : Unfolds s u) : Passes s u := by
  induction h with
  | refl => exact s.passes_refl
  | tail _ last ih => exact ih.trans last.passes

theorem isAccounted_new (settings : Settings) (status : Status) (now : Instant) :
    IsAccounted (.new (.new settings status) now) := by
  have nobody : ∀ id, (new (.new settings status) now).timer? id = none := fun _ => rfl
  refine ⟨fun _ member => absurd member List.not_mem_nil, fun id t l found => ?_, fun id t found => ?_,
    fun id t found => ?_⟩ <;> exact absurd found (by simp [nobody])

end Scheduler

end Cadence
