import Cadence.Proofs.Timer.Account

/-!
What becomes of a timer after its end. It has given back all that it held, so that the store has nothing for it and no
event gets to its queue. Nothing that it is asked for does anything (`IsOver`), and nobody hears of it, whatever the
other timers on its store are asked for. All this goes on through every further step (`destroyed_for_good`).
-/

namespace Cadence

namespace Scheduler

variable {s u v : Scheduler} {id : Nat} {t w : Timer}

def firings (s : Scheduler) (id : Nat) : List Firing := s.journal.filter fun e => e.timer = id

theorem journal_commit (s : Scheduler) (next : Store Watch × List Event) : (s.commit next).journal = s.journal := by
  obtain ⟨timers, same⟩ := s.exists_commit next
  rw [same]

theorem Duty.journal_cases (h : Duty id s u) :
    (∃ listener scheduled, u.journal = s.journal ++ [⟨id, listener, scheduled⟩]) ∨ u.journal = s.journal := by
  cases h with
  | note listener scheduled => exact .inl ⟨listener, scheduled, rfl⟩
  | cancelAlarm | arm _ _ => exact .inr rfl
  | seed _ written =>
    obtain ⟨next, -, rfl⟩ := write_eq_ok written
    exact .inr (s.journal_commit next)
  | schedule _ written =>
    obtain ⟨next, -, rfl⟩ := write_eq_ok written
    exact .inr (s.journal_commit next)
  | stop =>
    obtain same | ⟨t, subscriptions, -, -, -, stopped⟩ := s.stop_cases id
    · exact .inr (by rw [same])
    · exact .inr (by rw [stopped]; rfl)
  | destroy =>
    obtain same | ⟨t, subscriptions, -, -, -, destroyed⟩ := s.destroy_cases id
    · exact .inr (by rw [same])
    · exact .inr (by rw [destroyed]; rfl)

theorem Deed.journal_cases (h : Deed id s u) :
    (∃ listener scheduled, u.journal = s.journal ++ [⟨id, listener, scheduled⟩]) ∨ u.journal = s.journal := by
  cases h with
  | duty done => exact done.journal_cases
  | outage _ _ | listen _ _ | unlisten _ | take _ _ => exact .inr rfl
  | edit _ _ => exact .inr (s.journal_commit _)
  | resume =>
    obtain same | ⟨t, -, -, resumed⟩ := s.resume_cases id
    · exact .inr (by rw [same])
    · exact .inr (by rw [resumed]; rfl)
  | ring =>
    obtain same | ⟨t, -, silent | heard⟩ := s.ring_cases id
    · exact .inr (by rw [same])
    · exact .inr (by rw [silent]; rfl)
    · exact .inr (by rw [heard]; rfl)

theorem Deed.firings (h : Deed id s u) {other : Nat} (different : other ≠ id) :
    u.firings other = s.firings other := by
  obtain ⟨listener, scheduled, noted⟩ | same := h.journal_cases
  · simp [Scheduler.firings, noted, List.filter_append, different.symm]
  · rw [Scheduler.firings, Scheduler.firings, same]

theorem Deeds.firings (h : Deeds id s u) {other : Nat} (different : other ≠ id) :
    u.firings other = s.firings other := by
  induction h with
  | refl => rfl
  | tail _ last ih => exact (last.firings different).trans ih

/-- Whatever the timer is asked for, or finds in its queue, does nothing. -/
structure IsOver [Host] (s : Scheduler) (id : Nat) : Prop where
  handle : ∀ work, s.handle id work = s
  workNext : s.workNext id = s
  recompute : ∀ reanchor, s.recompute id reanchor = s
  fire : s.fire id = s
  resume : s.resume id = s
  stop : s.stop id = s
  destroy : s.destroy id = s
  ring : s.ring id = (s, false)
  period : s.period id = .error .useAfterDestroy
  endTime : s.endTime id = .error .useAfterDestroy
  nextExecution : s.nextExecution id = .error .useAfterDestroy
  setEndTime : ∀ finish, s.setEndTime id finish = .error .useAfterDestroy

theorem updateTimer_eq_self {f : Timer → Timer} (found : s.timer? id = some t) (same : f t = t) :
    s.updateTimer id f = s := by
  have timers : s.timers.modify id f = s.timers := by
    refine List.ext_getElem? fun i => ?_
    rw [List.getElem?_modify]
    by_cases mine : id = i
    · have there : s.timers[i]? = some t := mine ▸ found
      simp [mine, there, same]
    · simp [mine]
  rw [updateTimer, timers]

theorem isOver_of_destroyed [Host] (found : s.timer? id = some t) (gone : t.phase = .destroyed) (dead : t.IsDead) :
    s.IsOver id := by
  have refused : s.checkAlive id = .error .useAfterDestroy := by rw [checkAlive, found]; exact if_pos gone
  refine ⟨fun work => ?_, ?_, fun reanchor => ?_, ?_, ?_, ?_, ?_, ?_, ?_, ?_, ?_, fun finish => ?_⟩
  · simp [handle, found, gone]
  · simp [workNext, found, dead.2.2.1]
  · simp [recompute, found, gone]
  · simp [fire, found, gone]
  · simp [resume, found, gone]
  · simp [stop, found, gone]
  · simp [destroy, found, gone]
  · have silent := ManualAlarm.fire_destroyed dead.2.2.2.1 s.now
    have same : s.updateTimer id (fun w => { w with alarm := t.alarm }) = s := updateTimer_eq_self found rfl
    simp [ring, found, silent, same]
  · rw [period, refused]; rfl
  · rw [endTime, refused]; rfl
  · rw [nextExecution, refused]; rfl
  · rw [setEndTime, refused]; rfl

/-- What happens to a timer that is over concerns its listeners only, or it could happen to any other timer. -/
theorem IsOver.move_cases [Host] (finished : s.IsOver id) (m : Move) :
    s.move id m = s ∨ (∃ f, s.move id m = s.updateTimer id f) ∨ ∀ other, s.move id m = s.move other m := by
  cases m with
  | listen name reaction => exact .inr (.inl ⟨_, rfl⟩)
  | outage call cause => exact .inr (.inr fun _ => rfl)
  | act action =>
    cases action with
    | listen name => exact .inr (.inl ⟨_, rfl⟩)
    | unlisten listener => exact .inr (.inl ⟨_, rfl⟩)
    | resume => exact .inl finished.resume
    | stop => exact .inl finished.stop
    | destroy => exact .inl finished.destroy
    | ring => exact .inl (congrArg Prod.fst finished.ring)
    | work => exact .inl finished.workNext
    | setEndTime finish => exact .inl (congrArg s.ignoreFailure (finished.setEndTime finish))
    | write _ _ | writeBatch _ | activate | deactivate | delete | setClock _ => exact .inr (.inr fun _ => rfl)

theorem IsOver.firings_move [Host] (finished : s.IsOver id) (mover : Nat) (m : Move) :
    (s.move mover m).firings id = s.firings id := by
  have others : ∀ (other : Nat) (m : Move), other ≠ id → (s.move other m).firings id = s.firings id := by
    intro other m different
    obtain ⟨now, rfl⟩ | done := s.move_deeds other m
    · rfl
    · exact done.firings different.symm
  by_cases mine : mover = id
  · rw [mine]
    obtain same | ⟨f, same⟩ | same := finished.move_cases m
    · rw [same]
    · rw [same]
      rfl
    · rw [same (id + 1)]
      exact others (id + 1) m (by omega)
  · exact others mover m mine

theorem IsAccounted.isOver [Host] (h : IsAccounted s) (found : s.timer? id = some t) (gone : t.phase = .destroyed) :
    s.IsOver id := isOver_of_destroyed found gone (h.dead id t found gone).1

theorem Unfolds.sameButListeners [Host] (h : Unfolds s u) (accounted : IsAccounted s) (found : s.timer? id = some t)
    (gone : t.phase = .destroyed) : ∃ w, u.timer? id = some w ∧ t.SameButListeners w ∧ w.phase = .destroyed := by
  obtain ⟨w, there, aged⟩ := (h.passes accounted).2.timer id t found
  have same := aged.ended gone
  exact ⟨w, there, same, by rw [same]; exact gone⟩

variable {settings : Settings} {status : Status} {now : Instant} {b : Scheduler}

/-- However a timer came to be destroyed, it stays so whatever else happens: it is as it was then, but for listeners
that nobody calls, its queue is empty and its alarm is not armed, the store has no subscription for it, and the lease
that it had is not held. Nobody hears of it, and nothing that it is asked for or was asked for does anything. -/
theorem destroyed_for_good [Host] (begun : (new (.new settings status) now).Unfolds b) (made : b.timer? id = some t)
    (led : b.Unfolds u) (found : u.timer? id = some w) (gone : w.phase = .destroyed) (later : u.Unfolds v) :
    (∃ listeners next, v.timer? id = some { w with listeners := listeners, nextListener := next }) ∧
      w.queue = [] ∧ w.alarm.armed = none ∧ w.alarm.destroyed = true ∧
      (∀ sub ∈ v.store.subscriptions, sub.listener.timer ≠ id) ∧ (∀ l, t.lease = some l → l ∉ v.store.leases) ∧
      (∀ mover m, (v.move mover m).firings id = v.firings id) ∧ v.IsOver id := by
  have accounted := (begun.passes (isAccounted_new settings status now)).1
  obtain ⟨accounted_end, follows⟩ := led.passes accounted
  obtain ⟨accounted_later, goes⟩ := later.passes accounted_end
  obtain ⟨x, there, same, still⟩ := later.sameButListeners accounted_end found gone
  obtain ⟨⟨-, -, queue, destroyed, armed⟩, -⟩ := accounted_end.dead id w found gone
  obtain ⟨dead, values⟩ := accounted_later.dead id x there still
  have finished := accounted_later.isOver there still
  refine ⟨⟨x.listeners, x.nextListener, there.trans (congrArg some same)⟩, queue, armed, destroyed, ?_, ?_,
    finished.firings_move, finished⟩
  · rintro sub member rfl
    obtain ⟨y, present, lists⟩ := accounted_later.listed sub member
    rw [there] at present
    cases present
    obtain mine | mine := lists
    · rw [values] at mine
      cases mine
    · rw [dead.1] at mine
      cases mine
  · intro l held
    have old := accounted.issued id t l made held
    have going : t.phase ≠ .destroyed := by
      intro ended
      rw [(accounted.dead id t made ended).1.2.1] at held
      cases held
    obtain ⟨y, present, aged⟩ := follows.timer id t made
    rw [found] at present
    cases present
    exact goes.store.retired l (Nat.lt_of_lt_of_le old follows.store.token) (aged.returned going gone l held old)

def play [Host] (s : Scheduler) (moves : List (Nat × Move)) : Scheduler := moves.foldl (fun s m => s.move m.1 m.2) s

theorem unfolds_play [Host] (s : Scheduler) (moves : List (Nat × Move)) : s.Unfolds (s.play moves) := by
  induction moves generalizing s with
  | nil => exact .refl
  | cons m moves ih => exact (s.unfolds_move m.1 m.2).trans (ih (s.move m.1 m.2))

/-- An hourly timer rings when the first hour is over, and before that is worked off an end is set. Its first listener
destroys it, the second one restarts it. -/
def hourlyDestroyed [Host] (hour finish : Fin 1440) : Scheduler :=
  (periodicTimer ⟨1, .clock .hours⟩).play
    [(0, .listen "first" .destroy), (0, .listen "second" .restart), (0, .act .resume), (0, .act .work),
      (0, .act (.setClock (newYear hour))), (0, .act .ring),
      (0, .act (.write .endTime (some (.instant (newYear finish))))), (0, .act .work)]

def succeeded [Host] (s : Scheduler) : Scheduler :=
  ((s.play
    [(0, .act .ring), (0, .act .work), (0, .act .resume), (0, .listen "late" .record),
      (0, .act (.setEndTime none))]).create ⟨2, .clock .hours⟩ none).1.play
    [(1, .act .resume), (1, .act .work), (0, .act .deactivate), (1, .act .work), (0, .act .work)]

theorem hourly_destroyed_for_good :
    ∃ t w, (periodicTimer ⟨1, .clock .hours⟩).timer? 0 = some t ∧ t.lease = some ⟨.nextExecution, 1⟩ ∧
      (hourlyDestroyed 60 600).timer? 0 = some w ∧ w.phase = .destroyed ∧
      ((hourlyDestroyed 60 600).firings 0).map Firing.listener = ["first", "second"] ∧
      (hourlyDestroyed 60 600).succeeded.store.leases = [⟨.nextExecution, 2⟩] ∧
      (∃ listeners next, (hourlyDestroyed 60 600).succeeded.timer? 0 =
        some { w with listeners := listeners, nextListener := next }) ∧
      (hourlyDestroyed 60 600).succeeded.IsOver 0 := by
  have begun : (periodic ⟨1, .clock .hours⟩).Unfolds (periodicTimer ⟨1, .clock .hours⟩) :=
    .single (.attach (attach_periodic _))
  have led : (periodicTimer ⟨1, .clock .hours⟩).Unfolds (hourlyDestroyed 60 600) := unfolds_play _ _
  have later : (hourlyDestroyed 60 600).Unfolds (hourlyDestroyed 60 600).succeeded :=
    ((unfolds_play _ _).tail (.create _ _)).trans (unfolds_play _ _)
  have ended : ((hourlyDestroyed 60 600).timer? 0).map Timer.phase = some .destroyed := by decide +kernel
  obtain ⟨w, found, gone⟩ := Option.map_eq_some_iff.mp ended
  obtain ⟨same, -, -, -, -, -, -, finished⟩ := destroyed_for_good begun rfl led found gone later
  exact ⟨_, w, rfl, rfl, found, gone, by decide +kernel, by decide +kernel, same, finished⟩

end Scheduler

end Cadence
