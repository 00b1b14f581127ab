import Cadence.Alarm.Deadline

/-!
Alarms as those who use them see them. An `AlarmDesign` says what can be done with an alarm; its story tells, turn by
turn, what could be noticed of it. If two designs stay related whatever is done with both, their stories are the same
(`Simulates.story_eq`). The alarm that is rung by hand and the one that is watched until its deadline are related in
that way, and both call nothing unless they are armed and have not been destroyed (`manual_conforms_to_watched`).
-/

namespace Cadence

structure AlarmDesign (σ : Type) where
  arm : σ → Duration → Except Error σ
  cancel : σ → σ
  destroy : σ → σ
  onFire : σ → Callback → σ
  isArmed : σ → Bool
  lastFired : σ → Option Instant
  /-- Time goes by, and nobody looks at the alarm. -/
  elapse : σ → Nat → σ
  /-- The time that the alarm is armed for has come, so many nanoseconds ago or more: it rings, and the callback that it
  calls acts. -/
  comeDue : σ → Nat → Instant → σ × Option Callback

inductive AlarmTurn
  | arm (delay : Duration)
  | cancel
  | destroy
  | onFire (callback : Callback)
  | setClock (now : Instant)
  | elapse (nanos : Nat)
  | comeDue (late : Nat)

structure Sighting where
  answer : Option (Except Error Unit)
  called : Option Callback
  isArmed : Bool
  lastFired : Option Instant

/-- How often the alarm was armed in a turn. If it has called somebody and is armed after that, it was armed by him,
since an alarm that rings is armed no longer. -/
def Sighting.armings (x : Sighting) : Nat :=
  match x.answer, x.called with
  | some (.ok _), _ => 1
  | some (.error _), _ => 0
  | none, some _ => x.isArmed.toNat
  | none, none => 0

def callbacksOf (story : List (AlarmTurn × Sighting)) : List Callback := story.flatMap fun x => x.2.called.toList

def armingsOf (story : List (AlarmTurn × Sighting)) : Nat := story.foldr (fun x others => x.2.armings + others) 0

/-- A turn with which an alarm ends: it is destroyed, or it calls somebody who destroys it. -/
def IsLast (x : AlarmTurn × Sighting) : Prop := x.1 = .destroy ∨ x.2.called.map Callback.reaction = some .destroy

structure Bench (σ : Type) where
  alarm : σ
  now : Instant

namespace AlarmDesign

variable {σ τ : Type} (k : AlarmDesign σ)

def take (b : Bench σ) : AlarmTurn → Bench σ
  | .arm delay =>
    match k.arm b.alarm delay with
    | .ok armed => { b with alarm := armed }
    | .error _ => b
  | .cancel => { b with alarm := k.cancel b.alarm }
  | .destroy => { b with alarm := k.destroy b.alarm }
  | .onFire callback => { b with alarm := k.onFire b.alarm callback }
  | .setClock now => { b with now := now }
  | .elapse nanos => { b with alarm := k.elapse b.alarm nanos }
  | .comeDue late => { b with alarm := (k.comeDue b.alarm late b.now).1 }

def answer? (b : Bench σ) : AlarmTurn → Option (Except Error Unit)
  | .arm delay => some ((k.arm b.alarm delay).map fun _ => ())
  | _ => none

def called? (b : Bench σ) : AlarmTurn → Option Callback
  | .comeDue late => (k.comeDue b.alarm late b.now).2
  | _ => none

def sight (b : Bench σ) (turn : AlarmTurn) : Sighting where
  answer := k.answer? b turn
  called := k.called? b turn
  isArmed := k.isArmed (k.take b turn).alarm
  lastFired := k.lastFired (k.take b turn).alarm

def run (b : Bench σ) (turns : List AlarmTurn) : Bench σ := turns.foldl k.take b

def story : Bench σ → List AlarmTurn → List (AlarmTurn × Sighting)
  | _, [] => []
  | b, turn :: turns => (turn, k.sight b turn) :: story (k.take b turn) turns

/-- An alarm has not called more often than it was armed, and calls somebody only if it is armed and none of the turns
was its last. -/
structure IsOrderly (start : Bench σ) (turns : List AlarmTurn) : Prop where
  counted : (callbacksOf (k.story start turns)).length ≤ armingsOf (k.story start turns)
  armed : ∀ turn c, k.called? (k.run start turns) turn = some c → k.isArmed (k.run start turns).alarm = true
  alive : ∀ turn c, k.called? (k.run start turns) turn = some c → ∀ x ∈ k.story start turns, ¬ IsLast x

/-- Two alarms stay related whatever is done with both, and related ones cannot be told apart. -/
structure Simulates (k : AlarmDesign σ) (l : AlarmDesign τ) (R : σ → τ → Prop) : Prop where
  arm : ∀ s t delay, R s t → (∃ s' t', k.arm s delay = .ok s' ∧ l.arm t delay = .ok t' ∧ R s' t') ∨
    ∃ e, k.arm s delay = .error e ∧ l.arm t delay = .error e
  cancel : ∀ s t, R s t → R (k.cancel s) (l.cancel t)
  destroy : ∀ s t, R s t → R (k.destroy s) (l.destroy t)
  onFire : ∀ s t callback, R s t → R (k.onFire s callback) (l.onFire t callback)
  elapse : ∀ s t nanos, R s t → R (k.elapse s nanos) (l.elapse t nanos)
  comeDue : ∀ s t late now, R s t → R (k.comeDue s late now).1 (l.comeDue t late now).1 ∧
    (k.comeDue s late now).2 = (l.comeDue t late now).2
  isArmed : ∀ s t, R s t → k.isArmed s = l.isArmed t
  lastFired : ∀ s t, R s t → k.lastFired s = l.lastFired t

namespace Simulates

variable {k : AlarmDesign σ} {l : AlarmDesign τ} {R : σ → τ → Prop} {s : σ} {t : τ} {now : Instant}

theorem take (h : Simulates k l R) (related : R s t) (now : Instant) (turn : AlarmTurn) :
    ∃ s' t' now', k.take ⟨s, now⟩ turn = ⟨s', now'⟩ ∧ l.take ⟨t, now⟩ turn = ⟨t', now'⟩ ∧ R s' t' := by
  cases turn with
  | arm delay =>
    obtain ⟨s', t', armed, armed', related'⟩ | ⟨e, refused, refused'⟩ := h.arm s t delay related
    · exact ⟨s', t', now, by rw [AlarmDesign.take, armed], by rw [AlarmDesign.take, armed'], related'⟩
    · exact ⟨s, t, now, by rw [AlarmDesign.take, refused], by rw [AlarmDesign.take, refused'], related⟩
  | cancel => exact ⟨_, _, now, rfl, rfl, h.cancel s t related⟩
  | destroy => exact ⟨_, _, now, rfl, rfl, h.destroy s t related⟩
  | onFire callback => exact ⟨_, _, now, rfl, rfl, h.onFire s t callback related⟩
  | setClock now' => exact ⟨s, t, now', rfl, rfl, related⟩
  | elapse nanos => exact ⟨_, _, now, rfl, rfl, h.elapse s t nanos related⟩
  | comeDue late => exact ⟨_, _, now, rfl, rfl, (h.comeDue s t late now related).1⟩

theorem answer?_eq (h : Simulates k l R) (related : R s t) (now : Instant) (turn : AlarmTurn) :
    k.answer? ⟨s, now⟩ turn = l.answer? ⟨t, now⟩ turn := by
  cases turn with
  | arm delay =>
    obtain ⟨s', t', armed, armed', -⟩ | ⟨e, refused, refused'⟩ := h.arm s t delay related
    · simp only [answer?, armed, armed', Except.map]
    · simp only [answer?, refused, refused', Except.map]
  | _ => rfl

theorem called?_eq (h : Simulates k l R) (related : R s t) (now : Instant) (turn : AlarmTurn) :
    k.called? ⟨s, now⟩ turn = l.called? ⟨t, now⟩ turn := by
  cases turn with
  | comeDue late => exact (h.comeDue s t late now related).2
  | _ => rfl

theorem sight_eq (h : Simulates k l R) (related : R s t) (now : Instant) (turn : AlarmTurn) :
    k.sight ⟨s, now⟩ turn = l.sight ⟨t, now⟩ turn := by
  obtain ⟨s', t', now', taken, taken', related'⟩ := h.take related now turn
  simp only [sight, taken, taken', h.answer?_eq related, h.called?_eq related, h.isArmed s' t' related',
    h.lastFired s' t' related']

theorem run (h : Simulates k l R) (related : R s t) (now : Instant) (turns : List AlarmTurn) :
    ∃ s' t' now', k.run ⟨s, now⟩ turns = ⟨s', now'⟩ ∧ l.run ⟨t, now⟩ turns = ⟨t', now'⟩ ∧ R s' t' := by
  induction turns generalizing s t now with
  | nil => exact ⟨s, t, now, rfl, rfl, related⟩
  | cons turn turns ih =>
    obtain ⟨s', t', now', taken, taken', related'⟩ := h.take related now turn
    rw [AlarmDesign.run, AlarmDesign.run, List.foldl_cons, List.foldl_cons, taken, taken']
    exact ih related' now'

theorem story_eq (h : Simulates k l R) (related : R s t) (now : Instant) (turns : List AlarmTurn) :
    k.story ⟨s, now⟩ turns = l.story ⟨t, now⟩ turns := by
  induction turns generalizing s t now with
  | nil => rfl
  | cons turn turns ih =>
    obtain ⟨s', t', now', taken, taken', related'⟩ := h.take related now turn
    rw [story, story, h.sight_eq related, taken, taken', ih related']

theorem isOrderly (h : Simulates k l R) (related : R s t) {turns : List AlarmTurn}
    (orderly : k.IsOrderly ⟨s, now⟩ turns) :
    l.IsOrderly ⟨t, now⟩ turns := by
  obtain ⟨s', t', now', ran, ran', related'⟩ := h.run related now turns
  have same := h.story_eq related now turns
  refine ⟨same ▸ orderly.counted, fun turn c called => ?_, fun turn c called => ?_⟩
  · rw [ran', ← h.called?_eq related'] at called
    have armed := orderly.armed turn c (by rwa [ran])
    rw [ran, h.isArmed s' t' related'] at armed
    rwa [ran']
  · rw [ran', ← h.called?_eq related'] at called
    exact same ▸ orderly.alive turn c (by rwa [ran])

end Simulates

end AlarmDesign

def manual : AlarmDesign (ManualAlarm Callback) where
  arm := ManualAlarm.arm
  cancel := ManualAlarm.cancel
  destroy := ManualAlarm.destroy
  onFire := ManualAlarm.onFire
  isArmed a := a.armed.isSome
  lastFired := ManualAlarm.lastFired
  elapse a _ := a
  comeDue a _ now := if a.armed.isSome then a.ring now else (a, none)

structure Watched where
  alarm : DeadlineAlarm Callback
  tick : Int

def Watched.nextLook (w : Watched) (late : Nat) : Int := max w.tick (w.alarm.deadline.getD w.tick) + late

def watched : AlarmDesign Watched where
  arm w delay := (w.alarm.arm w.tick delay).map fun armed => { w with alarm := armed }
  cancel w := { w with alarm := w.alarm.cancel }
  destroy w := { w with alarm := w.alarm.destroy }
  onFire w callback := { w with alarm := w.alarm.onFire callback }
  isArmed w := w.alarm.isArmed
  lastFired w := w.alarm.lastFired
  elapse w nanos := { w with tick := w.tick + nanos }
  comeDue w late now :=
    (⟨(w.alarm.pass (w.nextLook late) now).1, w.nextLook late⟩, (w.alarm.pass (w.nextLook late) now).2)

/-- The one remembers a delay and the other a deadline, but either both have one or neither has. The callback counts as
long as the alarm is not destroyed. -/
structure Matches (m : ManualAlarm Callback) (a : DeadlineAlarm Callback) : Prop where
  destroyed : m.destroyed = a.shutdown
  armed : m.armed.isSome = a.deadline.isSome
  lastFired : m.lastFired = a.lastFired
  callback : m.destroyed = false → m.callback = a.callback
  resting : m.destroyed = true → m.armed = none

namespace Matches

variable {m : ManualAlarm Callback} {a : DeadlineAlarm Callback}

theorem shutdown_of_destroyed (h : Matches m a) (gone : m.destroyed = true) : a.shutdown = true :=
  h.destroyed.symm.trans gone

theorem not_shutdown (h : Matches m a) (alive : ¬ m.destroyed = true) : ¬ a.shutdown = true := h.destroyed ▸ alive

theorem deadline_eq_none (h : Matches m a) (disarmed : m.armed = none) : a.deadline = none := by
  rw [← Option.isNone_iff_eq_none, ← Option.not_isSome, ← h.armed, disarmed]
  rfl

theorem arm (h : Matches m a) (tick : Int) (delay : Duration) :
    (∃ m' a', m.arm delay = .ok m' ∧ a.arm tick delay = .ok a' ∧ Matches m' a') ∨
      ∃ e, m.arm delay = .error e ∧ a.arm tick delay = .error e := by
  by_cases gone : m.destroyed = true
  · exact .inr ⟨_, if_pos gone, if_pos (h.shutdown_of_destroyed gone)⟩
  · exact .inl ⟨_, _, if_neg gone, if_neg (h.not_shutdown gone), h.destroyed, rfl, h.lastFired, h.callback,
      fun dead => absurd dead gone⟩

theorem cancel (h : Matches m a) : Matches m.cancel a.cancel :=
  ⟨h.destroyed, rfl, h.lastFired, h.callback, fun _ => rfl⟩

theorem destroy (h : Matches m a) : Matches m.destroy a.destroy := by
  by_cases gone : m.destroyed = true
  · have shutdown := h.shutdown_of_destroyed gone
    have disarmed := h.deadline_eq_none (h.resting gone)
    rw [DeadlineAlarm.destroy, if_pos shutdown]
    exact ⟨shutdown.symm, (congrArg Option.isSome disarmed).symm, h.lastFired, nofun, fun _ => rfl⟩
  · rw [DeadlineAlarm.destroy, if_neg (h.not_shutdown gone)]
    exact ⟨rfl, rfl, h.lastFired, nofun, fun _ => rfl⟩

theorem onFire (h : Matches m a) (callback : Callback) : Matches (m.onFire callback) (a.onFire callback) := by
  by_cases gone : m.destroyed = true
  · rw [DeadlineAlarm.onFire, if_pos (h.shutdown_of_destroyed gone)]
    refine ⟨h.destroyed, h.armed, h.lastFired, fun alive => ?_, h.resting⟩
    exact absurd (gone.symm.trans alive) nofun
  · rw [DeadlineAlarm.onFire, if_neg (h.not_shutdown gone)]
    exact ⟨h.destroyed, h.armed, h.lastFired, fun _ => rfl, h.resting⟩

theorem react (h : Matches m a) (tick : Int) (reaction : AlarmReaction) :
    Matches (m.react reaction) (a.react tick reaction) := by
  cases reaction with
  | record | panic => exact h
  | destroy => exact h.destroy
  | rearm delay =>
    rw [ManualAlarm.react, DeadlineAlarm.react]
    obtain ⟨m', a', armed, armed', again⟩ | ⟨e, refused, refused'⟩ := h.arm tick delay
    · rw [armed, armed']
      exact again
    · rw [refused, refused']
      exact h

theorem fire (h : Matches m a) {tick deadline : Int} (pending : a.deadline = some deadline) (past : deadline ≤ tick)
    (now : Instant) : Matches (m.fire now).1 (a.fire tick now).1 ∧ (m.fire now).2 = (a.fire tick now).2 := by
  have alive : ¬ m.destroyed = true := by
    intro gone
    have disarmed := h.deadline_eq_none (h.resting gone)
    rw [pending] at disarmed
    cases disarmed
  have rings : ¬ (a.shutdown = true ∨ tick < deadline) := not_or.mpr ⟨h.not_shutdown alive, Int.not_lt.mpr past⟩
  have same := h.callback (Bool.eq_false_iff.mpr alive)
  simp only [ManualAlarm.fire, DeadlineAlarm.fire, pending, if_neg rings, if_neg alive]
  exact ⟨⟨h.destroyed, rfl, rfl, fun _ => same, fun _ => rfl⟩, same⟩

theorem pass (h : Matches m a) {tick deadline : Int} (pending : a.deadline = some deadline) (past : deadline ≤ tick)
    (now : Instant) : Matches (m.ring now).1 (a.pass tick now).1 ∧ (m.ring now).2 = (a.pass tick now).2 := by
  obtain ⟨rung, called⟩ := h.fire pending past now
  rw [ManualAlarm.ring, DeadlineAlarm.pass]
  generalize m.fire now = first at rung called
  generalize a.fire tick now = second at rung called
  obtain ⟨m', c⟩ := first
  obtain ⟨a', c'⟩ := second
  obtain rfl : c = c' := called
  cases c with
  | none => exact ⟨rung, rfl⟩
  | some callback => exact ⟨rung.react tick callback.reaction, rfl⟩

theorem comeDue {w : Watched} (h : Matches m w.alarm) (late : Nat) (now : Instant) :
    Matches (manual.comeDue m late now).1 (watched.comeDue w late now).1.alarm ∧
      (manual.comeDue m late now).2 = (watched.comeDue w late now).2 := by
  simp only [manual, watched]
  cases pending : w.alarm.deadline with
  | none =>
    have disarmed : ¬ m.armed.isSome = true := by simp [h.armed, pending]
    have nothing : w.alarm.pass (w.nextLook late) now = (w.alarm, none) := by
      simp [DeadlineAlarm.pass, DeadlineAlarm.fire, pending]
    rw [if_neg disarmed, nothing]
    exact ⟨h, rfl⟩
  | some deadline =>
    have armed : m.armed.isSome = true := by simp [h.armed, pending]
    have past : deadline ≤ w.nextLook late := by
      simp only [Watched.nextLook, pending, Option.getD_some]
      omega
    rw [if_pos armed]
    exact h.pass pending past now

end Matches

theorem manual_simulates_watched : AlarmDesign.Simulates manual watched fun m w => Matches m w.alarm where
  arm m w delay h := by
    obtain ⟨m', a', armed, armed', again⟩ | ⟨e, refused, refused'⟩ := h.arm w.tick delay
    · exact .inl ⟨m', { w with alarm := a' }, armed, by simp [watched, armed', Except.map], again⟩
    · exact .inr ⟨e, refused, by simp [watched, refused', Except.map]⟩
  cancel _ _ h := h.cancel
  destroy _ _ h := h.destroy
  onFire _ _ callback h := h.onFire callback
  elapse _ _ _ h := h
  comeDue _ _ late now h := h.comeDue late now
  isArmed _ _ h := h.armed
  lastFired _ _ h := h.lastFired

namespace ManualAlarm

variable {a : ManualAlarm Callback} {b : Bench (ManualAlarm Callback)} {turn : AlarmTurn} {c : Callback}

theorem comeDue_cases (a : ManualAlarm Callback) (late : Nat) (now : Instant) :
    manual.comeDue a late now = (a, none) ∨
      a.armed.isSome = true ∧ a.destroyed = false ∧ ∃ rung : ManualAlarm Callback,
        rung = { a with armed := none, lastFired := some now } ∧
        (a.callback = none ∧ manual.comeDue a late now = (rung, none) ∨
          ∃ c, a.callback = some c ∧ manual.comeDue a late now = (rung.react c.reaction, some c)) := by
  by_cases armed : a.armed.isSome = true
  · have due : manual.comeDue a late now = a.ring now := if_pos armed
    rw [due, ring, fire]
    cases gone : a.destroyed with
    | true => exact .inl rfl
    | false =>
      refine .inr ⟨armed, rfl, _, rfl, ?_⟩
      cases callback : a.callback with
      | none => exact .inl ⟨rfl, by simp⟩
      | some c => exact .inr ⟨c, rfl, by simp⟩
  · exact .inl (if_neg armed)

theorem armed_of_called (called : manual.called? b turn = some c) :
    b.alarm.armed.isSome = true ∧ b.alarm.destroyed = false := by
  cases turn with
  | comeDue late =>
    obtain nothing | ⟨armed, alive, -⟩ := comeDue_cases b.alarm late b.now
    · rw [AlarmDesign.called?, nothing] at called
      cases called
    · exact ⟨armed, alive⟩
  | _ => cases called

theorem armCount_react (disarmed : a.armed = none) (reaction : AlarmReaction) :
    (a.react reaction).armCount = a.armCount + (a.react reaction).armed.isSome.toNat := by
  cases reaction with
  | record | panic | destroy => simp [react, destroy, disarmed]
  | rearm delay => by_cases gone : a.destroyed = true <;> simp [react, arm, gone, disarmed]

theorem armCount_take (b : Bench (ManualAlarm Callback)) (turn : AlarmTurn) :
    (manual.take b turn).alarm.armCount = b.alarm.armCount + (manual.sight b turn).armings := by
  cases turn with
  | arm delay =>
    simp only [AlarmDesign.take, Sighting.armings, AlarmDesign.sight, AlarmDesign.answer?]
    by_cases gone : b.alarm.destroyed = true <;> simp [manual, arm, gone, Except.map]
  | cancel | destroy | onFire _ | setClock _ | elapse _ => rfl
  | comeDue late =>
    simp only [AlarmDesign.take, Sighting.armings, AlarmDesign.sight, AlarmDesign.answer?, AlarmDesign.called?]
    obtain nothing | ⟨-, -, rung, rfl, ⟨-, rang⟩ | ⟨c, -, rang⟩⟩ := comeDue_cases b.alarm late b.now
    · simp [nothing]
    · simp [rang]
    · simp only [rang]
      exact armCount_react rfl c.reaction

theorem called_take (b : Bench (ManualAlarm Callback)) (turn : AlarmTurn) :
    (manual.sight b turn).called.toList.length + (manual.take b turn).alarm.armed.isSome.toNat ≤
      (manual.sight b turn).armings + b.alarm.armed.isSome.toNat := by
  cases turn with
  | arm delay =>
    simp only [AlarmDesign.take, Sighting.armings, AlarmDesign.sight, AlarmDesign.answer?, AlarmDesign.called?]
    by_cases gone : b.alarm.destroyed = true <;> simp [manual, arm, gone, Except.map]
  | cancel | destroy | onFire _ | setClock _ | elapse _ =>
    simp [AlarmDesign.take, Sighting.armings, AlarmDesign.sight, AlarmDesign.answer?, AlarmDesign.called?, manual,
      cancel, destroy, onFire]
  | comeDue late =>
    simp only [AlarmDesign.take, Sighting.armings, AlarmDesign.sight, AlarmDesign.answer?, AlarmDesign.called?]
    obtain nothing | ⟨armed, -, rung, rfl, ⟨-, rang⟩ | ⟨c, -, rang⟩⟩ := comeDue_cases b.alarm late b.now
    · simp [nothing]
    · simp [rang]
    · simp only [rang, armed, Option.toList_some, List.length_singleton, Bool.toNat_true]
      exact Nat.le_of_eq (Nat.add_comm _ _)

theorem destroyed_take (gone : b.alarm.destroyed = true) (turn : AlarmTurn) :
    (manual.take b turn).alarm.destroyed = true := by
  cases turn with
  | arm delay => simp [AlarmDesign.take, manual, arm, gone]
  | destroy => rfl
  | cancel | onFire _ | setClock _ | elapse _ => exact gone
  | comeDue late =>
    rw [AlarmDesign.take]
    obtain nothing | ⟨-, alive, -⟩ := comeDue_cases b.alarm late b.now
    · rw [nothing]
      exact gone
    · rw [gone] at alive
      cases alive

theorem destroyed_of_isLast (last : IsLast (turn, manual.sight b turn)) :
    (manual.take b turn).alarm.destroyed = true := by
  obtain rfl | called := last
  · rfl
  · obtain ⟨c, called, acts⟩ := Option.map_eq_some_iff.mp called
    cases turn with
    | comeDue late =>
      simp only [AlarmDesign.sight, AlarmDesign.called?] at called
      rw [AlarmDesign.take]
      obtain nothing | ⟨-, -, rung, -, ⟨-, rang⟩ | ⟨c', -, rang⟩⟩ := comeDue_cases b.alarm late b.now
      · rw [nothing] at called
        cases called
      · rw [rang] at called
        cases called
      · rw [rang] at called ⊢
        obtain rfl : c' = c := Option.some.inj called
        rw [acts]
        rfl
    | _ => cases called

theorem destroyed_run (gone : b.alarm.destroyed = true) (turns : List AlarmTurn) :
    (manual.run b turns).alarm.destroyed = true := by
  induction turns generalizing b with
  | nil => exact gone
  | cons turn turns ih => exact ih (destroyed_take gone turn)

theorem destroyed_of_mem_story {turns : List AlarmTurn} {x : AlarmTurn × Sighting} (member : x ∈ manual.story b turns)
    (last : IsLast x) : (manual.run b turns).alarm.destroyed = true := by
  induction turns generalizing b with
  | nil => cases member
  | cons turn turns ih =>
    obtain rfl | later := List.mem_cons.mp member
    · exact destroyed_run (destroyed_of_isLast last) turns
    · exact ih later

theorem counted_story (b : Bench (ManualAlarm Callback)) (turns : List AlarmTurn) :
    (callbacksOf (manual.story b turns)).length ≤ armingsOf (manual.story b turns) + b.alarm.armed.isSome.toNat := by
  induction turns generalizing b with
  | nil => exact Nat.zero_le _
  | cons turn turns ih =>
    have first := called_take b turn
    have rest := ih (manual.take b turn)
    simp only [callbacksOf, armingsOf, AlarmDesign.story, List.flatMap_cons, List.length_append,
      List.foldr_cons] at rest ⊢
    omega

theorem armCount_run (b : Bench (ManualAlarm Callback)) (turns : List AlarmTurn) :
    (manual.run b turns).alarm.armCount = b.alarm.armCount + armingsOf (manual.story b turns) := by
  induction turns generalizing b with
  | nil => rfl
  | cons turn turns ih =>
    refine (ih (manual.take b turn)).trans ?_
    rw [AlarmDesign.story, armingsOf, armingsOf, List.foldr_cons, armCount_take, Nat.add_assoc]

theorem isOrderly (now : Instant) (turns : List AlarmTurn) : manual.IsOrderly ⟨new, now⟩ turns where
  counted := counted_story ⟨new, now⟩ turns
  armed _ _ called := (armed_of_called called).1
  alive _ _ called x member last := by
    have gone := destroyed_of_mem_story member last
    rw [(armed_of_called called).2] at gone
    cases gone

end ManualAlarm

theorem matches_new : Matches .new .new := ⟨rfl, rfl, rfl, fun _ => rfl, fun _ => rfl⟩

/-- Whatever is done with two new alarms, one that is rung when it is armed and one that is looked at when its
deadline has passed, nobody can tell them apart: arming has the same results, they are armed at the same times, have
rung last at the same time and call the same callbacks. Neither calls more often than it was armed, or when it is not
armed, or after its end. The armings are those that the first alarm counts itself. -/
theorem manual_conforms_to_watched (now : Instant) (tick : Int) (turns : List AlarmTurn) :
    manual.story ⟨.new, now⟩ turns = watched.story ⟨⟨.new, tick⟩, now⟩ turns ∧
      manual.IsOrderly ⟨.new, now⟩ turns ∧ watched.IsOrderly ⟨⟨.new, tick⟩, now⟩ turns ∧
      (manual.run ⟨.new, now⟩ turns).alarm.armCount = armingsOf (manual.story ⟨.new, now⟩ turns) := by
  have orderly := ManualAlarm.isOrderly now turns
  refine ⟨manual_simulates_watched.story_eq matches_new now turns, orderly,
    manual_simulates_watched.isOrderly (t := ⟨.new, tick⟩) matches_new orderly, ?_⟩
  rw [ManualAlarm.armCount_run]
  exact Nat.zero_add _

example :
    ((watched.story ⟨⟨.new, 0⟩, ⟨⟨0, false⟩, by decide⟩⟩
      [.onFire ⟨"again", .rearm ⟨5000000000, by decide⟩⟩, .arm .zero, .comeDue 0, .comeDue 7,
        .onFire ⟨"ends", .destroy⟩,
        .comeDue 0, .arm .zero, .comeDue 0]).map fun x => (x.2.called.map Callback.name, x.2.isArmed)) =
      [(none, false), (none, true), (some "again", true), (some "again", true), (none, true), (some "ends", false),
        (none, false), (none, false)] := by decide

end Cadence
