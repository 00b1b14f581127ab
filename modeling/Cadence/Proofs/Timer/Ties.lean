import Cadence.Proofs.Store.Leasing
import Cadence.Proofs.Timer.Account
import Cadence.Proofs.Timer.Agreement
import Cadence.Proofs.Timer.Creation

/-!
What ties a timer to its store. For as long as it is not destroyed, its alarm calls it, and whatever becomes of the
configuration as a whole it is told once (`Scheduler.IsTied`). The timer may be in any company here: others edit the
store, and with leases of their own they do what these allow (`Scheduler.Leads`). They get neither at the ties nor at
what is under the timer's lease.
-/

namespace Cadence

/-- Somebody asks for it who has no part in a lease that is mine. -/
def Operation.IsForeign {κ : Type} (mine : Option Lease) : Operation κ → Prop
  | .write (some shown) _ _ => mine ≠ some shown
  | .reserve _ => True
  | .release l => mine ≠ some l
  | _ => False

namespace Store

variable {κ : Type} {s t : Store κ} {op : Operation κ} {events : List Event} {l : Lease}

theorem Does.guards_of_foreign (done : Does s op t events) (foreign : op.IsForeign (some l)) : Guards l s t := by
  cases done with
  | nothing _ => exact .of_same rfl rfl rfl
  | @write lease f v settings put present allowed _ =>
    cases lease with
    | none => cases foreign
    | some shown =>
      refine fun _ => ⟨present, fun held => ⟨held, ?_⟩⟩
      have other : .nextExecution ≠ f := by
        rintro rfl
        obtain ⟨e, refused⟩ := checkLease_of_leased held (Ne.symm foreign)
        rw [refused] at allowed
        cases allowed
      exact Settings.nextExecution_of_get (Settings.get_put_other put other)
  | @reserve f present free =>
    refine fun _ => ⟨present, fun held => ⟨?_, rfl⟩⟩
    have other : f ≠ .nextExecution := by
      rintro rfl
      rw [free] at held
      cases held
    exact (List.find?_cons_of_neg (by simpa using other)).trans held
  | release given =>
    refine fun present => ⟨present, fun held => ⟨?_, rfl⟩⟩
    exact (leaseOf?_release_other fun same => foreign (held.symm.trans same)).trans held
  | writeBatch _ _ _ _ | subscribe _ _ | unsubscribe _ | activate _ | deactivate _ | delete _ => cases foreign

theorem Does.same_subscriptions (done : Does s op t events)
    (silent : ∀ fields listener, op ≠ .subscribe fields listener) (stays : ∀ id, op ≠ .unsubscribe id) :
    t.subscriptions = s.subscriptions ∧ t.nextSubscription = s.nextSubscription := by
  cases done with
  | subscribe fields listener => exact absurd rfl (silent fields listener)
  | unsubscribe id => exact absurd rfl (stays id)
  | _ => exact ⟨rfl, rfl⟩

end Store

namespace Timer

variable {id : Nat} {store next : Store Watch} {t w : Timer}

/-- The alarm of a timer calls it, and one of the store's subscriptions brings it the lifecycle. -/
structure IsTied (id : Nat) (store : Store Watch) (t : Timer) : Prop where
  sound : t.alarm.destroyed = false
  called : t.alarm.callback = some ()
  told : ∃ n, t.lifecycleSubscription = some n ∧ t.valueSubscription ≠ some n ∧ n < store.nextSubscription ∧
    store.subscriptions.filter (fun sub => sub.listener = ⟨id, .lifecycle⟩) = [⟨n, [], ⟨id, .lifecycle⟩⟩]

def bonds (t : Timer) : Option Nat × Option Nat × Bool × Option Unit :=
  (t.lifecycleSubscription, t.valueSubscription, t.alarm.destroyed, t.alarm.callback)

theorem enqueue_bonds (t : Timer) (work : Work) : (t.enqueue work).bonds = t.bonds := by
  rw [enqueue]
  split <;> rfl

theorem armAlarm_bonds (t : Timer) (delay : Duration) : (t.armAlarm delay).bonds = t.bonds := by
  rw [armAlarm]
  split
  · split
    · rename_i armed
      rw [ManualAlarm.arm] at armed
      split at armed
      · cases armed
      · cases armed
        rfl
    · rfl
  · rfl

theorem fire_bonds (t : Timer) (now : Instant) :
    ({ t with alarm := (t.alarm.fire now).1 } : Timer).bonds = t.bonds := by
  rw [ManualAlarm.fire]
  split <;> rfl

namespace IsTied

theorem congr (h : t.IsTied id store) (same : w.bonds = t.bonds)
    (subscriptions : next.subscriptions = store.subscriptions)
    (numbers : next.nextSubscription = store.nextSubscription) : w.IsTied id next := by
  simp only [bonds, Prod.mk.injEq] at same
  obtain ⟨lifecycle, values, destroyed, callback⟩ := same
  refine ⟨destroyed.trans h.sound, callback.trans h.called, ?_⟩
  rw [lifecycle, values, subscriptions, numbers]
  exact h.told

theorem subscribe (h : t.IsTied id store) (fields : List Field) :
    ({ t with valueSubscription := some store.nextSubscription } : Timer).IsTied id
      (store.subscribe fields ⟨id, .values⟩).1 := by
  obtain ⟨n, lifecycle, -, old, alone⟩ := h.told
  refine ⟨h.sound, h.called, n, lifecycle, fun same => ?_, Nat.lt_succ_of_lt old, ?_⟩
  · exact Nat.ne_of_gt old (Option.some.inj same)
  · simp [Store.subscribe, List.filter_append, alone]

theorem unsubscribe (h : t.IsTied id store) :
    ({ t with valueSubscription := none } : Timer).IsTied id
      (Scheduler.unsubscribeAll store [t.valueSubscription]) := by
  obtain ⟨n, lifecycle, other, old, alone⟩ := h.told
  refine ⟨h.sound, h.called, n, lifecycle, (Option.some_ne_none n).symm, ?_⟩
  cases watched : t.valueSubscription with
  | none => exact ⟨old, alone⟩
  | some m =>
    have differs : n ≠ m := by
      rintro rfl
      exact other watched
    refine ⟨old, ?_⟩
    simp only [Scheduler.unsubscribeAll, List.foldl_cons, List.foldl_nil, Option.map_some, Option.getD_some,
      Store.unsubscribe]
    rw [List.filter_comm, alone]
    simp [differs]

end IsTied

end Timer

namespace Scheduler

variable {s t u : Scheduler} {id : Nat} {reading : Option Instant}

/-- A timer that is not destroyed is tied to the store. -/
def IsTied (s : Scheduler) (id : Nat) : Prop :=
  ∃ t, s.timer? id = some t ∧ (t.phase ≠ .destroyed → t.IsTied id s.store)

namespace IsTied

theorem commit (h : s.IsTied id) {next : Store Watch × List Event}
    (same : next.1.subscriptions = s.store.subscriptions ∧ next.1.nextSubscription = s.store.nextSubscription) :
    (s.commit next).IsTied id := by
  obtain ⟨t, found, tied⟩ := h
  obtain ⟨queue, there⟩ := timer?_commit next found
  refine ⟨_, there, fun going => ?_⟩
  rw [commit_store]
  exact (tied going).congr rfl same.1 same.2

theorem write (h : s.IsTied id) {lease : Option Lease} {f : Field} {v : Option FieldValue}
    (written : s.write lease f v = .ok u) : u.IsTied id := by
  obtain ⟨next, put, rfl⟩ := write_eq_ok written
  exact h.commit ((Store.does_write put).same_subscriptions nofun nofun)

theorem updateTimer {v : Timer} {store : Store Watch} {f : Timer → Timer} (found : s.timer? id = some v)
    (tied : (f v).phase ≠ .destroyed → (f v).IsTied id store) :
    ({ s with store := store }.updateTimer id f).IsTied id := by
  refine ⟨f v, ?_, tied⟩
  rw [timer?_updateTimer_self]
  exact congrArg (Option.map f) found

theorem change (h : s.IsTied id) {f : Timer → Timer} (phase : ∀ t, (f t).phase = t.phase)
    (same : ∀ t, s.timer? id = some t → (f t).bonds = t.bonds) : (s.updateTimer id f).IsTied id := by
  obtain ⟨t, found, tied⟩ := h
  exact updateTimer found fun going => (tied (phase t ▸ going)).congr (same t found) rfl rfl

theorem resume (h : s.IsTied id) : (s.resume id).IsTied id := by
  obtain ⟨t, found, tied⟩ := h
  rw [Scheduler.resume, found]
  by_cases stopped : t.phase = .stopped
  · simp only [if_pos stopped]
    refine updateTimer found fun _ => ?_
    have going : t.phase ≠ .destroyed := by rw [stopped]; decide
    exact ((tied going).subscribe Timer.watchedFields).congr (Timer.enqueue_bonds _ _) rfl rfl
  · simp only [if_neg stopped]
    exact ⟨t, found, tied⟩

theorem stop (h : s.IsTied id) : (s.stop id).IsTied id := by
  obtain ⟨t, found, tied⟩ := h
  rw [Scheduler.stop, found]
  by_cases running : t.phase = .running
  · simp only [if_pos running]
    refine updateTimer found fun _ => ?_
    have going : t.phase ≠ .destroyed := by rw [running]; decide
    exact (tied going).unsubscribe.congr rfl rfl rfl
  · simp only [if_neg running]
    exact ⟨t, found, tied⟩

theorem destroy (h : s.IsTied id) : (s.destroy id).IsTied id := by
  obtain ⟨t, found, tied⟩ := h
  rw [Scheduler.destroy, found]
  by_cases gone : t.phase = .destroyed
  · simp only [if_pos gone]
    exact ⟨t, found, tied⟩
  · simp only [if_neg gone]
    exact updateTimer found fun alive => absurd rfl alive

theorem ring (h : s.IsTied id) : (s.ring id).1.IsTied id := by
  obtain ⟨t, found, tied⟩ := h
  rw [Scheduler.ring, found]
  have rung : (s.updateTimer id fun w => { w with alarm := (t.alarm.fire s.now).1 }).IsTied id :=
    updateTimer found fun going => (tied going).congr (t.fire_bonds s.now) rfl rfl
  dsimp only
  split
  · exact rung.change (fun w => w.enqueue_phase .fire) fun w _ => w.enqueue_bonds .fire
  · exact rung

theorem arm (h : s.IsTied id) (delay : Duration) : (s.arm id delay).IsTied id :=
  h.change (fun w => (w.armAlarm_phase delay).1) fun w _ => w.armAlarm_bonds delay

theorem duty (h : s.IsTied id) (done : Duty id s u) : u.IsTied id := by
  cases done with
  | note _ _ => exact h
  | seed _ written => exact h.write written
  | stop => exact h.stop
  | destroy => exact h.destroy
  | cancelAlarm => exact h.change (fun _ => rfl) fun _ _ => rfl
  | arm _ _ => exact h.arm _
  | schedule _ written => exact (h.write written).arm _

theorem deed (h : s.IsTied id) (done : Deed id s u) : u.IsTied id := by
  cases done with
  | duty done => exact h.duty done
  | outage _ _ => exact h
  | @edit op _ allowed performed =>
    refine h.commit ((Store.does_of_perform performed).same_subscriptions ?_ ?_)
    · rintro fields listener rfl
      exact allowed
    · rintro n rfl
      exact allowed
  | take _ _ | listen _ _ | unlisten _ => exact h.change (fun _ => rfl) fun _ _ => rfl
  | resume => exact h.resume
  | ring => exact h.ring

theorem deeds (h : s.IsTied id) (done : Deeds id s u) : u.IsTied id := by
  induction done with
  | refl => exact h
  | tail _ last ih => exact ih.deed last

theorem move [Host] (h : s.IsTied id) (m : Move) : (s.move id m).IsTied id := by
  obtain ⟨now, rfl⟩ | done := s.move_deeds id m
  · exact h
  · exact h.deeds done

end IsTied

/-- What may happen next around a timer: something is done for it, or somebody else does what other leases allow. -/
inductive Goes [Host] (id : Nat) (s : Scheduler) : Scheduler → Prop
  | move (m : Move) : Goes id s (s.move id m)
  | operate {op : Operation Watch} {next : Store Watch × List Event}
      (foreign : op.IsForeign ((s.timer? id).bind Timer.lease)) (performed : s.store.perform op = .ok next) :
      Goes id s (s.commit next)

/-- What a run can lead to, with what the clock read when the alarm was armed the last time. -/
inductive Leads [Host] (id : Nat) (t : Scheduler) : Scheduler → Option Instant → Prop
  | start : Leads id t t none
  | next {s u : Scheduler} {reading : Option Instant} (led : Leads id t s reading) (goes : Goes id s u) :
      Leads id t u (if u.armings id = s.armings id then reading else some s.now)

end Scheduler

namespace Record.Kept

variable {r : Record} {s : Scheduler}

theorem operate (h : r.Kept s) {op : Operation Watch} {next : Store Watch × List Event}
    (foreign : op.IsForeign ((s.timer? r.timer).bind Timer.lease)) (performed : s.store.perform op = .ok next) :
    r.Kept (s.commit next) := by
  obtain ⟨t, fits⟩ := h
  by_cases gone : t.phase = .destroyed
  · obtain ⟨queue, found⟩ := Scheduler.timer?_commit next fits.found
    have unarmed : t.alarm.armed = none := fits.idle (.inl (by rw [gone]; decide))
    exact ⟨_, fits.silence found (s.commit_now next) rfl unarmed fun alive => absurd gone alive⟩
  · rw [fits.found, Option.bind_some, (fits.leased gone).1] at foreign
    exact Kept.commit ⟨t, fits⟩ ((Store.does_of_perform performed).guards_of_foreign foreign)

end Record.Kept

namespace Scheduler

variable {s t u : Scheduler} {id : Nat} {lease : Lease} {reading : Option Instant}

theorem IsTied.goes [Host] (h : s.IsTied id) (next : Goes id s u) : u.IsTied id := by
  cases next with
  | move m => exact h.move m
  | @operate op _ foreign performed =>
    refine h.commit ((Store.does_of_perform performed).same_subscriptions ?_ ?_)
    · rintro fields listener rfl
      exact foreign
    · rintro n rfl
      exact foreign

theorem Leads.isTied [Host] (led : Leads id t u reading) (h : t.IsTied id) : u.IsTied id := by
  induction led with
  | start => exact h
  | next _ goes ih => exact ih.goes goes

theorem Leads.kept [Host] (led : Leads id t u reading) (h : (Record.before t id lease none).Kept t) :
    (Record.before u id lease reading).Kept u := by
  induction led with
  | start => exact h
  | next _ goes ih =>
    cases goes with
    | move m => exact ih.move m
    | operate foreign performed => exact (ih.operate foreign performed).again

theorem Leads.follow [Host] (led : Leads id t s reading) (moves : List Move) :
    Leads id t (s.follow id reading moves).1 (s.follow id reading moves).2 := by
  induction moves generalizing s reading with
  | nil => exact led
  | cons m rest ih => exact ih (led.next (.move m))

theorem isTied_attachWith (h : IsAccounted s) (attached : s.attachWith lease = (t, id)) : t.IsTied id := by
  cases attached
  have nobody : s.store.subscriptions.filter (fun sub => sub.listener = ⟨s.timers.length, .lifecycle⟩) = [] := by
    refine List.filter_eq_nil_iff.mpr fun sub member same => ?_
    obtain ⟨w, found, -⟩ := h.listed sub member
    rw [of_decide_eq_true same, timer?, List.getElem?_eq_none (Nat.le_refl _)] at found
    cases found
  refine ⟨Timer.new lease s.store.nextSubscription, List.getElem?_concat_length .., fun _ => ⟨rfl, rfl, ?_⟩⟩
  refine ⟨s.store.nextSubscription, rfl, (Option.some_ne_none _).symm, Nat.lt_succ_self _, ?_⟩
  simp [List.filter_append, nobody]

variable {settings : Settings} {status : Status} {now : Instant}

theorem made_tied [Host] (begun : (new (.new settings status) now).Unfolds s)
    (made : s.attach = .ok (t, id) ∨ ∃ period start, s.create period start = (t, .ok id)) :
    t.IsTied id ∧ ∃ lease, (Record.before t id lease none).Kept t := by
  have accounted := (begun.passes (isAccounted_new settings status now)).1
  obtain attached | ⟨period, start, created⟩ := made
  · obtain ⟨claimed, l, reserved, same⟩ := attach_eq_ok attached
    have claim := (passes_reserve reserved).1 accounted
    exact ⟨isTied_attachWith claim.1 same.symm, kept_attach attached⟩
  · obtain ⟨-, claimed, l, filled, -, reserved, seeded, attached⟩ := create_eq_ok created
    have claim := (passes_reserve reserved).1 accounted
    have filling := claimed.passes_seed l period start claim.1
    rw [seeded] at filling
    exact ⟨isTied_attachWith filling.1 attached, kept_create created⟩

end Scheduler

end Cadence
