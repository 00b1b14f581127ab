import Cadence.Proofs.Timer.Outcome

/-!
What listeners hear. As long as the clock does not go back and no recompute stalls, the scheduled times that they hear
of increase strictly (`occasions_increase`), although firings may wait in the queue for any time, several of them at
once, while edits move the schedule in both directions. `IsPast` carries this: after a time has been announced, the next
execution time that is stored lies after it, and the clock does not lie before it. Every step that finds a next
occurrence finds it after the clock.
-/

namespace Cadence

/-- Listeners may hear of the scheduled time in this situation, and every one of them hears of it once. -/
structure Occasion.IsProper (o : Occasion) : Prop where
  reached : o.scheduled ≤ o.situation.now
  schedulable : o.situation.IsSchedulable
  open_now : ∀ finish ∈ o.situation.settings.endTime, o.situation.now < finish
  open_then : ∀ finish ∈ o.situation.settings.endTime, o.scheduled < finish
  ordered : o.situation.listeners.Pairwise fun l m => l.id < m.id

namespace Settings

theorem due?_eq_some {settings : Settings} {now scheduled : Instant} (due : settings.due? now = some scheduled) :
    settings.nextExecution.any (now < ·) = false ∧ settings.hasEnded now = false ∧ settings.amount?.isSome ∧
      settings.nextExecution.getD now = scheduled := by
  rw [due?] at due
  split at due
  · cases due
  · rename_i fine
    simp only [Bool.or_eq_true, not_or, Bool.not_eq_true] at fine
    obtain ⟨⟨due_now, open_now⟩, usable⟩ := fine
    exact ⟨due_now, open_now, by simpa [Option.isSome_iff_ne_none] using usable, Option.some.inj due⟩

end Settings

namespace Situation

def KeepsTime [Host] (v : Situation) (a : Action) : Prop := v.now ≤ (v.act a).now

instance [Host] (v : Situation) (a : Action) : Decidable (v.KeepsTime a) := inferInstanceAs (Decidable (_ ≤ _))

structure IsPast (last : Instant) (v : Situation) : Prop where
  reached : last ≤ v.now
  followed : v.phase ≠ .destroyed → v.status ≠ .deleted → ∃ next, v.settings.nextExecution = some next ∧ last < next

structure KeepsOrder (v : Situation) : Prop where
  ordered : v.listeners.Pairwise fun l m => l.id < m.id
  numbered : ∀ l ∈ v.listeners, l.id < v.nextListener

variable {v : Situation}

theorem announces?_eq_some {a : Action} {scheduled : Instant} (announced : v.announces? a = some scheduled) :
    ∃ rest, a = .work ∧ v.queue = .fire :: rest ∧ v.IsLive ∧ v.settings.due? v.now = some scheduled := by
  cases a with
  | work =>
    simp only [announces?] at announced
    split at announced
    · rename_i rest queued
      by_cases live : v.IsLive
      · rw [if_pos live] at announced
        exact ⟨rest, rfl, queued, live, announced⟩
      · rw [if_neg live] at announced
        cases announced
    · cases announced
  | _ => cases announced

namespace KeepsOrder

theorem of_nil (empty : v.listeners = []) : KeepsOrder v := by
  constructor
  · rw [empty]
    exact .nil
  · rw [empty]
    exact fun l member => absurd member List.not_mem_nil

theorem of_same {w : Situation} (h : KeepsOrder v) (listeners : w.listeners = v.listeners)
    (next : w.nextListener = v.nextListener) : KeepsOrder w := by
  constructor
  · rw [listeners]
    exact h.ordered
  · rw [listeners, next]
    exact h.numbered

theorem destroy (h : KeepsOrder v) : KeepsOrder v.destroy := by
  obtain ⟨_, stays⟩ | destroyed := v.destroy_cases
  · rw [stays]
    exact h
  · rw [destroyed]
    exact of_nil rfl

theorem listen [Host] (h : KeepsOrder v) (name : String) : KeepsOrder (v.act (.listen name)) := by
  constructor
  · refine List.pairwise_append.mpr ⟨h.ordered, List.pairwise_singleton _ _, ?_⟩
    intro l member m added
    rw [List.mem_singleton.mp added]
    exact h.numbered l member
  · intro l member
    obtain old | added := List.mem_append.mp member
    · exact Nat.lt_succ_of_lt (h.numbered l old)
    · rw [List.mem_singleton.mp added]
      exact Nat.lt_succ_self _

theorem unlisten [Host] (h : KeepsOrder v) (listener : Nat) : KeepsOrder (v.act (.unlisten listener)) :=
  ⟨h.ordered.filter _, fun l member => h.numbered l (List.mem_filter.mp member).1⟩

theorem workNext [Host] (h : KeepsOrder v) : KeepsOrder v.workNext := by
  refine workNext_of_handles h fun _ rest w _ handled => ?_
  have popped : KeepsOrder { v with queue := rest } := h.of_same rfl rfl
  cases handled with
  | dormant asleep stays => exact popped
  | finished live ended => exact popped.destroy
  | idle live unusable => exact popped.of_same rfl rfl
  | stalled asked live goesOn failed => exact popped.of_same (by simp) (by simp)
  | scheduled asked live found => exact popped.of_same (by simp [schedule, arm]) (by simp [schedule, arm])
  | early live stored ahead => exact popped.of_same rfl rfl
  | deleted => exact popped.destroy
  | deactivated => exact popped.of_same (by simp) (by simp)
  | resumed resting => exact popped.of_same (by simp) (by simp)

theorem act [Host] (h : KeepsOrder v) (a : Action) : KeepsOrder (v.act a) := by
  cases a with
  | destroy => exact h.destroy
  | listen name => exact h.listen name
  | unlisten listener => exact h.unlisten listener
  | work => exact h.workNext
  | resume | stop | setEndTime | write | writeBatch | activate | deactivate | delete | setClock | ring =>
    exact h.of_same (by simp [Situation.act]) (by simp [Situation.act])

end KeepsOrder

namespace IsPast

variable {last : Instant}

theorem of_same {w : Situation} (h : IsPast last v) (time : v.now ≤ w.now)
    (next : w.settings.nextExecution = v.settings.nextExecution) (phase : v.phase = .destroyed → w.phase = .destroyed)
    (status : v.status = .deleted → w.status = .deleted) : IsPast last w := by
  constructor
  · exact Instant.le_trans h.reached time
  · intro going present
    rw [next]
    exact h.followed (mt phase going) (mt status present)

theorem of_destroyed {w : Situation} (h : IsPast last v) (time : v.now ≤ w.now) (gone : w.phase = .destroyed) :
    IsPast last w :=
  ⟨Instant.le_trans h.reached time, fun going => absurd gone going⟩

theorem resume (h : IsPast last v) : IsPast last v.resume := by
  refine h.of_same (by simp) (by simp) (fun gone => ?_) (by simp)
  rw [resume_of_destroyed gone, gone]

theorem stop (h : IsPast last v) : IsPast last v.stop := by
  refine h.of_same (by simp) (by simp) (fun gone => ?_) (by simp)
  rw [stop_of_destroyed gone, gone]

theorem edit (h : IsPast last v) (entries : List (Field × Option FieldValue)) : IsPast last (v.edit entries) := by
  by_cases gone : v.phase = .destroyed
  · exact h.of_destroyed (by simp) (by simp [gone])
  · exact h.of_same (by simp) (v.edit_nextExecution entries gone) (by simp) (by simp)

theorem turn (h : IsPast last v) (status : Status) (event : Lifecycle) : IsPast last (v.turn status event) := by
  refine h.of_same (by simp) (by simp) (by simp) ?_
  intro deleted
  unfold Situation.turn
  rw [if_pos (Or.inl deleted)]
  exact deleted

theorem workNext [Host] (h : IsPast last v) : IsPast last v.workNext := by
  refine workNext_of_handles h fun _ rest w _ handled => ?_
  have popped : IsPast last { v with queue := rest } := ⟨h.reached, h.followed⟩
  cases handled with
  | dormant asleep stays => exact popped
  | finished live ended => exact popped.of_destroyed (by simp) (by simp)
  | idle live unusable => exact ⟨h.reached, h.followed⟩
  | stalled asked live goesOn failed => exact popped.of_same (by simp) (by simp) (by simp) (by simp)
  | scheduled asked live found =>
    refine ⟨by simpa [schedule, arm] using h.reached, fun _ _ => ⟨_, rfl, ?_⟩⟩
    exact Instant.lt_of_le_of_lt h.reached (after_of_next? found)
  | early live stored ahead => exact ⟨h.reached, h.followed⟩
  | deleted => exact popped.of_destroyed (by simp) (by simp)
  | deactivated => exact popped.stop
  | resumed resting => exact popped.resume

theorem act [Host] (h : IsPast last v) {a : Action} (forward : v.KeepsTime a) : IsPast last (v.act a) := by
  cases a with
  | resume => exact h.resume
  | stop => exact h.stop
  | destroy => exact h.of_destroyed forward (by simp [Situation.act])
  | listen | unlisten => exact ⟨h.reached, h.followed⟩
  | setEndTime | write | writeBatch => exact h.edit _
  | activate | deactivate => exact h.turn _ _
  | delete => exact ⟨Instant.le_trans h.reached forward, fun _ present => absurd (by simp [Situation.act]) present⟩
  | setClock now => exact ⟨Instant.le_trans h.reached forward, h.followed⟩
  | ring => exact h.of_same forward (by simp [Situation.act]) (by simp [Situation.act]) (by simp [Situation.act])
  | work => exact h.workNext

end IsPast

section Announcing

variable {a : Action} {scheduled : Instant}

theorem announces?_le (announced : v.announces? a = some scheduled) : scheduled ≤ v.now := by
  obtain ⟨_, _, _, _, due⟩ := announces?_eq_some announced
  obtain ⟨notEarly, _, _, rfl⟩ := Settings.due?_eq_some due
  cases stored : v.settings.nextExecution with
  | none => exact Instant.le_refl _
  | some next =>
    rw [stored] at notEarly
    exact Instant.not_lt.mp (of_decide_eq_false notEarly)

theorem IsPast.lt_of_announces? {last : Instant} (past : IsPast last v) (announced : v.announces? a = some scheduled) :
    last < scheduled := by
  obtain ⟨_, _, _, live, due⟩ := announces?_eq_some announced
  obtain ⟨_, _, _, rfl⟩ := Settings.due?_eq_some due
  obtain ⟨next, stored, later⟩ := past.followed (by simp [live.1]) (by simp [live.2])
  rw [stored]
  exact later

theorem isPast_of_announces? [Host] (announced : v.announces? a = some scheduled) (calm : ¬ v.Stalls a) :
    IsPast scheduled (v.act a) := by
  have reached := announces?_le announced
  obtain ⟨rest, rfl, queued, live, due⟩ := announces?_eq_some announced
  obtain ⟨notEarly, open_now, usable, _⟩ := Settings.due?_eq_some due
  change IsPast scheduled v.workNext
  rw [workNext_cons queued]
  have handled := handles { v with queue := rest } .fire
  generalize Situation.handle .fire { v with queue := rest } = w at handled ⊢
  cases handled with
  | dormant asleep stays => exact absurd live asleep
  | finished _ ended => exact absurd (open_now.symm.trans ended) (by decide)
  | idle _ unusable =>
    change v.settings.amount? = none at unusable
    rw [unusable] at usable
    cases usable
  | stalled asked _ _ failed =>
    exact absurd (stalls_of_failed queued asked live open_now failed) calm
  | scheduled _ _ found =>
    refine ⟨by simpa [schedule, arm] using reached, fun _ _ => ⟨_, rfl, ?_⟩⟩
    exact Instant.lt_of_le_of_lt reached (after_of_next? found)
  | early _ stored ahead =>
    change v.settings.nextExecution = some _ at stored
    rw [stored] at notEarly
    exact absurd ahead (of_decide_eq_false notEarly)

theorem isProper_of_announces? (order : KeepsOrder v) (announced : v.announces? a = some scheduled) :
    (⟨v, scheduled⟩ : Occasion).IsProper := by
  have reached := announces?_le announced
  obtain ⟨_, _, _, live, due⟩ := announces?_eq_some announced
  obtain ⟨_, open_now, usable, _⟩ := Settings.due?_eq_some due
  have later : ∀ finish ∈ v.settings.endTime, v.now < finish := by
    intro finish set
    rw [Option.mem_def] at set
    simpa [Settings.hasEnded, set, ← Instant.not_lt] using open_now
  exact ⟨reached, ⟨live, usable⟩, later, fun finish set => Instant.lt_of_le_of_lt reached (later finish set),
    order.ordered⟩

end Announcing

variable {actions : List Action}

theorem mem_occasions_cons [Host] {a : Action} {o : Occasion} (member : o ∈ v.occasions (a :: actions)) :
    (v.announces? a = some o.scheduled ∧ o.situation = v) ∨ o ∈ (v.act a).occasions actions := by
  rw [occasions, List.mem_append] at member
  refine member.imp (fun first => ?_) id
  rw [Option.mem_toList, occasion?, Option.map_eq_some_iff] at first
  obtain ⟨scheduled, announced, rfl⟩ := first
  exact ⟨announced, rfl⟩

theorem IsPast.lt_of_mem_occasions [Host] {last : Instant} (past : IsPast last v)
    (along : v.Along (fun v a => v.KeepsTime a ∧ ¬ v.Stalls a) actions) :
    ∀ o ∈ v.occasions actions, last < o.scheduled := by
  induction actions generalizing v with
  | nil => exact fun o member => absurd member List.not_mem_nil
  | cons a rest ih =>
    intro o member
    obtain ⟨announced, _⟩ | later := mem_occasions_cons member
    · exact past.lt_of_announces? announced
    · exact ih (past.act along.1.1) along.2 o later

theorem pairwise_occasions [Host] (along : v.Along (fun v a => v.KeepsTime a ∧ ¬ v.Stalls a) actions) :
    (v.occasions actions).Pairwise fun o p => o.scheduled < p.scheduled := by
  induction actions generalizing v with
  | nil => exact .nil
  | cons a rest ih =>
    rw [occasions]
    cases announced : v.announces? a with
    | none => simpa [occasion?, announced] using ih along.2
    | some scheduled =>
      have past := isPast_of_announces? announced along.1.2
      simpa [occasion?, announced] using ⟨past.lt_of_mem_occasions along.2, ih along.2⟩

theorem isProper_of_mem_occasions [Host] (order : KeepsOrder v) : ∀ o ∈ v.occasions actions, o.IsProper := by
  induction actions generalizing v with
  | nil => exact fun o member => absurd member List.not_mem_nil
  | cons a rest ih =>
    intro o member
    obtain ⟨announced, same⟩ | later := mem_occasions_cons member
    · obtain ⟨situation, scheduled⟩ := o
      subst same
      exact isProper_of_announces? order announced
    · exact ih (order.act a) o later

end Situation

namespace Scheduler

/-- Whatever the order of edits, lifecycle changes, firings and work: no scheduled time is announced twice or after a
later one, each is announced when it has come and the timer may fire, and the journal holds the announcements and
nothing else. -/
theorem occasions_increase [Host] {s t : Scheduler} {id : Nat} (quiet : s.IsQuiet) (attached : s.attach = .ok (t, id))
    (actions : List Action) (along : t.Along id (fun v a => v.KeepsTime a ∧ ¬ v.Stalls a) actions) :
    ((t.occasions id actions).Pairwise fun o p => o.scheduled < p.scheduled) ∧
      (∀ o ∈ t.occasions id actions, o.IsProper) ∧
      (t.run id actions).journal = s.journal ++ (t.occasions id actions).flatMap (Occasion.calls id) := by
  have start := shows_of_attach quiet attached
  have order : (Situation.attached s.store.settings s.store.status s.now).KeepsOrder := .of_nil rfl
  rw [start.occasions actions]
  obtain ⟨_, _, _, journal⟩ := start.run actions
  exact ⟨Situation.pairwise_occasions ((start.along _ _).mp along), Situation.isProper_of_mem_occasions order, journal⟩

theorem hourly_occasions_increase :
    ((periodicTimer ⟨1, .clock .hours⟩).occasions 0
        [.listen "main", .resume, .work, .setClock (newYear 60), .ring, .work, .ring, .work, .setClock (newYear 210),
          .ring, .work]).map Occasion.scheduled = [newYear 60, newYear 120] ∧
      ((periodicTimer ⟨1, .clock .hours⟩).occasions 0
        [.listen "main", .resume, .work, .setClock (newYear 60), .ring, .work, .ring, .work, .setClock (newYear 210),
          .ring, .work]).Pairwise fun o p => o.scheduled < p.scheduled :=
  ⟨by decide +kernel, (occasions_increase (isQuiet_periodic _) (attach_periodic _) _ (by decide +kernel)).1⟩

end Scheduler

end Cadence
