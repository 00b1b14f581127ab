import Cadence.Proofs.Timer.Action

/-!
How a situation goes on. Each action is a small function of it, without the store's leases and subscriptions, which
matter to one timer only in what it gets to hear of. That the scheduler does the same is `Linked.act`.
-/

namespace Cadence

def Settings.anchor (settings : Settings) (reanchor : Bool) (now : Instant) : Instant :=
  match reanchor, settings.nextExecution, settings.startTime with
  | false, some next, _ => next
  | _, _, some start => start
  | _, _, none => now

def Settings.isUnanchored (settings : Settings) (reanchor : Bool) : Bool :=
  settings.startTime.isNone && (reanchor || settings.nextExecution.isNone)

def Settings.next? [Host] (settings : Settings) (reanchor : Bool) (now : Instant) : Option (Except Error Instant) :=
  settings.amount?.map fun amount => amount.advancePast settings.zone (settings.anchor reanchor now) now

/-- The scheduled time that listeners hear of when the alarm has gone off. -/
def Settings.due? (settings : Settings) (now : Instant) : Option Instant :=
  if settings.nextExecution.any (now < ·) || settings.hasEnded now || settings.amount?.isNone then none
  else some (settings.nextExecution.getD now)

namespace Situation

/-- Watches its configuration, and that is active. -/
def IsLive (v : Situation) : Prop := v.phase = .running ∧ v.status = .active

instance (v : Situation) : Decidable v.IsLive := inferInstanceAs (Decidable (_ ∧ _))

/-- Could be armed: it is live, and the period is there and valid. -/
def IsSchedulable (v : Situation) : Prop := v.IsLive ∧ v.settings.amount?.isSome

instance (v : Situation) : Decidable v.IsSchedulable := inferInstanceAs (Decidable (_ ∧ _))

def enqueue (works : List Work) (v : Situation) : Situation :=
  if v.phase = .destroyed then v else { v with queue := v.queue ++ works }

def resume (v : Situation) : Situation :=
  if v.phase = .stopped then { v with phase := .running, queue := v.queue ++ [.recompute false] } else v

def stop (v : Situation) : Situation :=
  if v.phase = .running then { v with phase := .stopped, armed := none } else v

def destroy (v : Situation) : Situation :=
  if v.phase = .destroyed then v else { v with phase := .destroyed, queue := [], armed := none, listeners := [] }

def hears (v : Situation) (changed : List Field) : List Work :=
  if v.phase = .running then
    (changed.filter (· ∈ Timer.watchedFields)).filterMap fun f => Timer.route .values (.value f)
  else []

/-- Edits without a lease. A timer that is not destroyed has the lease on the next execution time. -/
def edit (entries : List (Field × Option FieldValue)) (v : Situation) : Situation :=
  match Store.putAll v.settings entries with
  | .error _ => v
  | .ok (settings, changed) =>
    if v.status = .deleted ∨ v.phase ≠ .destroyed ∧ .nextExecution ∈ entries.map Prod.fst then v
    else { v with settings := settings, queue := v.queue ++ v.hears changed }

def turn (status : Status) (event : Lifecycle) (v : Situation) : Situation :=
  if v.status = .deleted ∨ v.status = status then v else { v with status := status }.enqueue [.lifecycle event]

def delete (v : Situation) : Situation :=
  if v.status = .deleted then v
  else { v with settings := .empty, status := .deleted }.enqueue [.lifecycle .deleted]

def ring (v : Situation) : Situation :=
  if v.phase = .destroyed then v else { v with armed := none, queue := v.queue ++ [.fire] }

def arm (delay : Duration) (v : Situation) : Situation := { v with armed := some delay.atLeastZero }

def seed (reanchor : Bool) (v : Situation) : Situation :=
  if v.settings.isUnanchored reanchor then
    { v with settings := { v.settings with startTime := some v.now }, queue := v.queue ++ [.recompute true] }
  else v

def schedule (next : Instant) (v : Situation) : Situation :=
  { v with settings := { v.settings with nextExecution := some next } }.arm (next.since v.now)

def recompute [Host] (reanchor : Bool) (v : Situation) : Situation :=
  if v.IsLive then
    if v.settings.hasEnded v.now then v.destroy
    else match v.settings.next? reanchor v.now with
      | none => { v with armed := none }
      | some (.error _) => v.seed reanchor
      | some (.ok next) => (v.seed reanchor).schedule next
  else v

/-- An alarm that is not early is handled like a recompute, but for the listeners, who hear of it. -/
def fire [Host] (v : Situation) : Situation :=
  if v.IsLive then
    match v.settings.nextExecution.filter fun next => v.now < next with
    | some next => v.arm (next.since v.now)
    | none => v.recompute false
  else v

def handle [Host] (work : Work) (v : Situation) : Situation :=
  match work with
  | .recompute reanchor => v.recompute reanchor
  | .fire => v.fire
  | .lifecycle .deleted => v.destroy
  | .lifecycle .deactivated => v.stop
  | .lifecycle .activated => if v.phase = .running then v.recompute false else v.resume

def workNext [Host] (v : Situation) : Situation :=
  match v.queue with
  | [] => v
  | work :: rest => { v with queue := rest }.handle work

def act [Host] (v : Situation) : Action → Situation
  | .resume => v.resume
  | .stop => v.stop
  | .destroy => v.destroy
  | .listen name =>
    { v with listeners := v.listeners ++ [⟨v.nextListener, name, .record⟩], nextListener := v.nextListener + 1 }
  | .unlisten listener => { v with listeners := v.listeners.filter fun l => l.id != listener }
  | .setEndTime finish => v.edit (if v.phase = .destroyed then [] else [(.endTime, finish.map .instant)])
  | .write f value => v.edit [(f, value)]
  | .writeBatch entries => v.edit entries
  | .activate => v.turn .active .activated
  | .deactivate => v.turn .inactive .deactivated
  | .delete => v.delete
  | .setClock now => { v with now := now }
  | .ring => v.ring
  | .work => v.workNext

/-- The scheduled time that an action makes the listeners hear of. -/
def announces? (v : Situation) : Action → Option Instant
  | .work => match v.queue with
    | .fire :: _ => if v.IsLive then v.settings.due? v.now else none
    | _ => none
  | _ => none

def announcement (id : Nat) (v : Situation) (scheduled : Option Instant) : List Firing :=
  scheduled.toList.flatMap fun i => v.listeners.map fun l => ⟨id, l.name, i⟩

@[simp] theorem announcement_none (id : Nat) (v : Situation) : v.announcement id none = [] := rfl

@[simp] theorem announcement_some (id : Nat) (v : Situation) (scheduled : Instant) :
    v.announcement id (some scheduled) = v.listeners.map fun l => ⟨id, l.name, scheduled⟩ :=
  List.flatMap_singleton _ _

@[simp] theorem edit_nil (v : Situation) : v.edit [] = v := by
  have silent : v.hears [] = [] := by simp [hears]
  simp [edit, Store.putAll, silent]

theorem resume_cases (v : Situation) :
    v.phase = .stopped ∧ v.resume = { v with phase := .running, queue := v.queue ++ [.recompute false] } ∨
      v.phase ≠ .stopped ∧ v.resume = v := by
  unfold resume
  by_cases stopped : v.phase = .stopped
  · exact Or.inl ⟨stopped, if_pos stopped⟩
  · exact Or.inr ⟨stopped, if_neg stopped⟩

theorem stop_cases (v : Situation) :
    v.phase = .running ∧ v.stop = { v with phase := .stopped, armed := none } ∨ v.phase ≠ .running ∧ v.stop = v := by
  unfold stop
  by_cases running : v.phase = .running
  · exact Or.inl ⟨running, if_pos running⟩
  · exact Or.inr ⟨running, if_neg running⟩

theorem destroy_cases (v : Situation) :
    v.phase = .destroyed ∧ v.destroy = v ∨
      v.destroy = { v with phase := .destroyed, queue := [], armed := none, listeners := [] } := by
  unfold destroy
  by_cases gone : v.phase = .destroyed
  · exact Or.inl ⟨gone, if_pos gone⟩
  · exact Or.inr (if_neg gone)

theorem turn_cases (status : Status) (event : Lifecycle) (v : Situation) :
    v.turn status event = v ∨ v.phase = .destroyed ∧ v.turn status event = { v with status := status } ∨
      v.turn status event = { v with status := status, queue := v.queue ++ [.lifecycle event] } := by
  unfold turn enqueue
  by_cases same : v.status = .deleted ∨ v.status = status
  · exact Or.inl (if_pos same)
  rw [if_neg same]
  by_cases gone : v.phase = .destroyed
  · exact Or.inr (Or.inl ⟨gone, if_pos gone⟩)
  · exact Or.inr (Or.inr (if_neg gone))

theorem delete_cases (v : Situation) :
    v.status = .deleted ∧ v.delete = v ∨
      v.phase = .destroyed ∧ v.delete = { v with settings := .empty, status := .deleted } ∨
      v.delete = { v with settings := .empty, status := .deleted, queue := v.queue ++ [.lifecycle .deleted] } := by
  unfold delete enqueue
  by_cases deleted : v.status = .deleted
  · exact Or.inl ⟨deleted, if_pos deleted⟩
  rw [if_neg deleted]
  by_cases gone : v.phase = .destroyed
  · exact Or.inr (Or.inl ⟨gone, if_pos gone⟩)
  · exact Or.inr (Or.inr (if_neg gone))

theorem ring_cases (v : Situation) :
    v.phase = .destroyed ∧ v.ring = v ∨ v.ring = { v with armed := none, queue := v.queue ++ [.fire] } := by
  unfold ring
  by_cases gone : v.phase = .destroyed
  · exact Or.inl ⟨gone, if_pos gone⟩
  · exact Or.inr (if_neg gone)

theorem edit_of_failed {v : Situation} {entries : List (Field × Option FieldValue)} {e : Error}
    (failed : Store.putAll v.settings entries = .error e) : v.edit entries = v := by
  simp only [edit, failed]

theorem edit_of_refused {v : Situation} {entries : List (Field × Option FieldValue)}
    (refused : v.status = .deleted ∨ v.phase ≠ .destroyed ∧ .nextExecution ∈ entries.map Prod.fst) :
    v.edit entries = v := by
  cases put : Store.putAll v.settings entries with
  | error e => exact edit_of_failed put
  | ok result => simp only [edit, put, if_pos refused]

theorem edit_of_put {v : Situation} {entries : List (Field × Option FieldValue)} {settings : Settings}
    {changed : List Field} (put : Store.putAll v.settings entries = .ok (settings, changed))
    (allowed : ¬ (v.status = .deleted ∨ v.phase ≠ .destroyed ∧ .nextExecution ∈ entries.map Prod.fst)) :
    v.edit entries = { v with settings := settings, queue := v.queue ++ v.hears changed } := by
  simp only [edit, put, if_neg allowed]

theorem recompute_of_ended [Host] {v : Situation} (reanchor : Bool) (live : v.IsLive)
    (ended : v.settings.hasEnded v.now = true) : v.recompute reanchor = v.destroy := by
  rw [recompute, if_pos live, if_pos ended]

theorem recompute_of_unusable [Host] {v : Situation} (reanchor : Bool) (live : v.IsLive)
    (goesOn : v.settings.hasEnded v.now = false) (unusable : v.settings.amount? = none) :
    v.recompute reanchor = { v with armed := none } := by
  have nothing : v.settings.next? reanchor v.now = none := by rw [Settings.next?, unusable, Option.map_none]
  rw [recompute, if_pos live, if_neg (by simp [goesOn])]
  simp only [nothing]

theorem recompute_of_failed [Host] {v : Situation} {reanchor : Bool} {e : Error} (live : v.IsLive)
    (goesOn : v.settings.hasEnded v.now = false) (failed : v.settings.next? reanchor v.now = some (.error e)) :
    v.recompute reanchor = v.seed reanchor := by
  rw [recompute, if_pos live, if_neg (by simp [goesOn])]
  simp only [failed]

theorem recompute_of_found [Host] {v : Situation} {reanchor : Bool} {next : Instant} (live : v.IsLive)
    (goesOn : v.settings.hasEnded v.now = false) (found : v.settings.next? reanchor v.now = some (.ok next)) :
    v.recompute reanchor = (v.seed reanchor).schedule next := by
  rw [recompute, if_pos live, if_neg (by simp [goesOn])]
  simp only [found]

theorem seed_of_stored {v : Situation} {next : Instant} (stored : v.settings.nextExecution = some next) :
    v.seed false = v := by
  have anchored : ¬ v.settings.isUnanchored false = true := by simp [Settings.isUnanchored, stored]
  rw [seed, if_neg anchored]

theorem fire_of_early [Host] {v : Situation} (live : v.IsLive) {next : Instant}
    (stored : v.settings.nextExecution = some next) (ahead : v.now < next) : v.fire = v.arm (next.since v.now) := by
  have filtered : v.settings.nextExecution.filter (fun next => v.now < next) = some next := by
    rw [stored, Option.filter_some, if_pos (decide_eq_true ahead)]
  rw [fire, if_pos live]
  simp only [filtered]

theorem fire_of_due [Host] {v : Situation} (due : v.settings.nextExecution.any (v.now < ·) = false) :
    v.fire = v.recompute false := by
  have filtered : v.settings.nextExecution.filter (fun next => v.now < next) = none := by
    cases stored : v.settings.nextExecution with
    | none => rfl
    | some next => simpa [stored] using due
  by_cases live : v.IsLive
  · rw [fire, if_pos live]
    simp only [filtered]
  · rw [fire, if_neg live, recompute, if_neg live]

theorem workNext_nil [Host] {v : Situation} (queued : v.queue = []) : v.workNext = v := by
  simp only [workNext, queued]

theorem workNext_cons [Host] {v : Situation} {work : Work} {rest : List Work} (queued : v.queue = work :: rest) :
    v.workNext = { v with queue := rest }.handle work := by
  simp only [workNext, queued]

@[simp] theorem enqueue_frame (works : List Work) (v : Situation) :
    (v.enqueue works).settings = v.settings ∧ (v.enqueue works).status = v.status ∧ (v.enqueue works).now = v.now ∧
      (v.enqueue works).phase = v.phase ∧ (v.enqueue works).armed = v.armed ∧
      (v.enqueue works).listeners = v.listeners ∧ (v.enqueue works).nextListener = v.nextListener := by
  rw [enqueue]
  split <;> exact ⟨rfl, rfl, rfl, rfl, rfl, rfl, rfl⟩

@[simp] theorem resume_frame (v : Situation) :
    v.resume.settings = v.settings ∧ v.resume.status = v.status ∧ v.resume.now = v.now ∧
      v.resume.armed = v.armed ∧ v.resume.listeners = v.listeners ∧ v.resume.nextListener = v.nextListener := by
  rw [resume]
  split <;> exact ⟨rfl, rfl, rfl, rfl, rfl, rfl⟩

@[simp] theorem stop_frame (v : Situation) :
    v.stop.settings = v.settings ∧ v.stop.status = v.status ∧ v.stop.now = v.now ∧ v.stop.queue = v.queue ∧
      v.stop.listeners = v.listeners ∧ v.stop.nextListener = v.nextListener := by
  rw [stop]
  split <;> exact ⟨rfl, rfl, rfl, rfl, rfl, rfl⟩

@[simp] theorem destroy_frame (v : Situation) :
    v.destroy.settings = v.settings ∧ v.destroy.status = v.status ∧ v.destroy.now = v.now ∧
      v.destroy.phase = .destroyed ∧ v.destroy.nextListener = v.nextListener := by
  rw [destroy]
  split
  · exact ⟨rfl, rfl, rfl, by assumption, rfl⟩
  · exact ⟨rfl, rfl, rfl, rfl, rfl⟩

@[simp] theorem turn_frame (status : Status) (event : Lifecycle) (v : Situation) :
    (v.turn status event).settings = v.settings ∧ (v.turn status event).now = v.now ∧
      (v.turn status event).phase = v.phase ∧ (v.turn status event).armed = v.armed ∧
      (v.turn status event).listeners = v.listeners ∧ (v.turn status event).nextListener = v.nextListener := by
  rw [turn]
  split
  · exact ⟨rfl, rfl, rfl, rfl, rfl, rfl⟩
  · simp

@[simp] theorem delete_frame (v : Situation) :
    v.delete.status = .deleted ∧ v.delete.now = v.now ∧ v.delete.phase = v.phase ∧ v.delete.armed = v.armed ∧
      v.delete.listeners = v.listeners ∧ v.delete.nextListener = v.nextListener := by
  rw [delete]
  split
  · exact ⟨by assumption, rfl, rfl, rfl, rfl, rfl⟩
  · simp

@[simp] theorem ring_frame (v : Situation) :
    v.ring.settings = v.settings ∧ v.ring.status = v.status ∧ v.ring.now = v.now ∧ v.ring.phase = v.phase ∧
      v.ring.listeners = v.listeners ∧ v.ring.nextListener = v.nextListener := by
  rw [ring]
  split <;> exact ⟨rfl, rfl, rfl, rfl, rfl, rfl⟩

@[simp] theorem seed_frame (reanchor : Bool) (v : Situation) :
    (v.seed reanchor).status = v.status ∧ (v.seed reanchor).now = v.now ∧ (v.seed reanchor).phase = v.phase ∧
      (v.seed reanchor).armed = v.armed ∧ (v.seed reanchor).listeners = v.listeners ∧
      (v.seed reanchor).nextListener = v.nextListener := by
  rw [seed]
  split <;> exact ⟨rfl, rfl, rfl, rfl, rfl, rfl⟩

theorem resume_of_destroyed {v : Situation} (gone : v.phase = .destroyed) : v.resume = v := by
  rw [resume, if_neg (by simp [gone])]

theorem stop_of_destroyed {v : Situation} (gone : v.phase = .destroyed) : v.stop = v := by
  rw [stop, if_neg (by simp [gone])]

@[simp] theorem seed_settings_frame (reanchor : Bool) (v : Situation) :
    (v.seed reanchor).settings.amount? = v.settings.amount? ∧
      (v.seed reanchor).settings.nextExecution = v.settings.nextExecution := by
  rw [seed]
  split <;> exact ⟨rfl, rfl⟩

theorem IsLive.seed {v : Situation} (live : v.IsLive) (reanchor : Bool) : (v.seed reanchor).IsLive := by
  obtain ⟨status, _, phase, _⟩ := v.seed_frame reanchor
  exact ⟨phase.trans live.1, status.trans live.2⟩

theorem IsLive.going {v : Situation} (live : v.IsLive) : v.phase ≠ .destroyed := by
  rw [live.1]
  decide

theorem not_isLive_of_destroyed {v : Situation} (gone : v.phase = .destroyed) : ¬ v.IsLive :=
  fun live => live.going gone

theorem not_isLive_destroy (v : Situation) : ¬ v.destroy.IsLive := not_isLive_of_destroyed v.destroy_frame.2.2.2.1

theorem not_isLive_stop (v : Situation) : ¬ v.stop.IsLive := by
  intro live
  obtain ⟨_, stopped⟩ | ⟨resting, stays⟩ := v.stop_cases
  · rw [stopped] at live
    cases live.1
  · rw [stays] at live
    exact resting live.1

theorem not_isLive_delete (v : Situation) : ¬ v.delete.IsLive := by
  intro live
  cases v.delete_frame.1.symm.trans live.2

end Situation

end Cadence
