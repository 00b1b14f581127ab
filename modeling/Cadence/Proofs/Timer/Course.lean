import Cadence.Proofs.Timer.Simulation

/-!
The course of a run. `Situation.run` and `Situation.Along` are the run and the conditions on it for a situation alone,
and `Occasion` is a step that calls the listeners. A timer that was attached while nobody else held anything starts out
linked, and so the scheduler's run shows at each step what the situation's run shows. What each action keeps of a
situation holds of that timer from then on (`invariant_of_attach`).
-/

namespace Cadence

/-- A step at which the listeners are called: the situation before it, and the scheduled time that they hear of. -/
structure Occasion where
  situation : Situation
  scheduled : Instant

/-- Every listener is called once, in the order in which they were added. -/
def Occasion.calls (id : Nat) (o : Occasion) : List Firing :=
  o.situation.listeners.map fun l => ⟨id, l.name, o.scheduled⟩

namespace Situation

def attached (settings : Settings) (status : Status) (now : Instant) : Situation where
  settings := settings
  status := status
  now := now
  phase := .stopped
  queue := []
  armed := none
  listeners := []
  nextListener := 1

def run [Host] (v : Situation) (actions : List Action) : Situation := actions.foldl act v

def Along [Host] (condition : Situation → Action → Prop) : Situation → List Action → Prop
  | _, [] => True
  | v, a :: rest => condition v a ∧ Along condition (v.act a) rest

def occasion? (v : Situation) (a : Action) : Option Occasion := (v.announces? a).map (⟨v, ·⟩)

def occasions [Host] : Situation → List Action → List Occasion
  | _, [] => []
  | v, a :: rest => (v.occasion? a).toList ++ occasions (v.act a) rest

theorem calls_occasion? (id : Nat) (v : Situation) (a : Action) :
    (v.occasion? a).toList.flatMap (Occasion.calls id) = v.announcement id (v.announces? a) := by
  cases announced : v.announces? a with
  | none => simp [occasion?, announced]
  | some scheduled => simp [occasion?, announced, Occasion.calls]

/-- What holds at the start and is kept by each action under the condition holds at the end. -/
theorem Along.invariant [Host] {condition : Situation → Action → Prop} (invariant : Situation → Prop)
    (step : ∀ v a, condition v a → invariant v → invariant (v.act a)) {actions : List Action} {v : Situation}
    (along : Along condition v actions) (start : invariant v) : invariant (v.run actions) := by
  induction actions generalizing v with
  | nil => exact start
  | cons a rest ih => exact ih along.2 (step v a along.1 start)

theorem run_append [Host] (v : Situation) (before after : List Action) :
    v.run (before ++ after) = (v.run before).run after := by
  rw [run, List.foldl_append]
  rfl

end Situation

namespace Scheduler

def occasions [Host] (id : Nat) : Scheduler → List Action → List Occasion
  | _, [] => []
  | s, a :: rest => ((s.situation? id).bind (·.occasion? a)).toList ++ occasions id (s.act id a) rest

theorem Along.and [Host] {first second : Situation → Action → Prop} {id : Nat} {actions : List Action} {s : Scheduler}
    (h : s.Along id first actions) (k : s.Along id second actions) :
    s.Along id (fun v a => first v a ∧ second v a) actions := by
  induction actions generalizing s with
  | nil => trivial
  | cons a rest ih => exact ⟨fun v reached => ⟨h.1 v reached, k.1 v reached⟩, ih h.2 k.2⟩

end Scheduler

namespace Shows

variable {s : Scheduler} {id : Nat} {v : Situation} {journal : List Firing}

theorem situation? (shown : Shows s id v journal) : s.situation? id = some v := by
  obtain ⟨t, linked, same, _⟩ := shown
  rw [Scheduler.situation?, linked.found, Option.map_some, same]

theorem act [Host] (shown : Shows s id v journal) (a : Action) :
    Shows (s.act id a) id (v.act a) (journal ++ (v.occasion? a).toList.flatMap (Occasion.calls id)) := by
  obtain ⟨t, linked, same, written⟩ := shown
  have acted := linked.act a
  rw [same, written] at acted
  rw [v.calls_occasion? id a]
  exact acted

theorem run [Host] (shown : Shows s id v journal) (actions : List Action) :
    Shows (s.run id actions) id (v.run actions) (journal ++ (v.occasions actions).flatMap (Occasion.calls id)) := by
  induction actions generalizing s v journal with
  | nil =>
    rw [Situation.occasions, List.flatMap_nil, List.append_nil]
    exact shown
  | cons a rest ih =>
    rw [Situation.occasions, List.flatMap_append, ← List.append_assoc]
    exact ih (shown.act a)

theorem occasions [Host] (shown : Shows s id v journal) (actions : List Action) :
    s.occasions id actions = v.occasions actions := by
  induction actions generalizing s v journal with
  | nil => rfl
  | cons a rest ih =>
    rw [Scheduler.occasions, Situation.occasions, shown.situation?, Option.bind_some, ih (shown.act a)]

theorem along [Host] (shown : Shows s id v journal) (condition : Situation → Action → Prop) (actions : List Action) :
    s.Along id condition actions ↔ v.Along condition actions := by
  induction actions generalizing s v journal with
  | nil => exact Iff.rfl
  | cons a rest ih =>
    have first : (∀ w ∈ s.situation? id, condition w a) ↔ condition v a := by
      simp [shown.situation?]
    exact and_congr first (ih (shown.act a))

end Shows

namespace Scheduler

open Calendar

variable {s t : Scheduler} {id : Nat}

theorem reserve_of_isQuiet (quiet : s.IsQuiet) {lease : Lease} (h : s.reserve .nextExecution = .ok (t, lease)) :
    s.store.status ≠ .deleted ∧ lease = ⟨.nextExecution, s.store.nextToken⟩ ∧
      t = { s with store := { s.store with leases := [lease], nextToken := s.store.nextToken + 1 } } := by
  have called : s.checkCall .reserve = .ok () := by simp [checkCall, quiet.1]
  have free : s.store.leaseOf? .nextExecution = none := by simp [Store.leaseOf?, quiet.2.1]
  by_cases deleted : s.store.status = .deleted
  · simp [reserve, called, Store.reserve, deleted, bind, Except.bind] at h
  · simp only [reserve, called, Store.reserve, if_neg deleted, free, quiet.2.1, Option.isSome_none,
      Bool.false_eq_true, if_false, bind, Except.bind, Except.ok.injEq, Prod.mk.injEq] at h
    obtain ⟨rfl, rfl⟩ := h
    exact ⟨deleted, rfl, rfl⟩

theorem shows_of_attach (quiet : s.IsQuiet) (h : s.attach = .ok (t, id)) :
    Shows t id (.attached s.store.settings s.store.status s.now) s.journal := by
  simp only [attach, bind, Except.bind] at h
  cases reserved : s.reserve .nextExecution with
  | error e => simp [reserved] at h
  | ok claimed =>
    obtain ⟨u, lease⟩ := claimed
    obtain ⟨present, named, rfl⟩ := reserve_of_isQuiet quiet reserved
    simp only [reserved, attachWith, Store.subscribe, Except.ok.injEq, Prod.mk.injEq] at h
    obtain ⟨rfl, rfl⟩ := h
    refine ⟨Timer.new lease s.store.nextSubscription, ?_, rfl, rfl⟩
    refine ⟨?_, quiet.1, ?_, ?_, ?_, ?_, ?_, ?_, ?_⟩
    · simp [timer?]
    · simp [quiet.2.2, Timer.subscriptions, Timer.new]
    · intro n held
      have same : s.store.nextSubscription = n := Option.some.inj held
      simp [Timer.new, same]
    · exact (if_neg present).symm
    · simp [Timer.new]
    · exact fun _ => ⟨⟨_, rfl⟩, ⟨_, congrArg some named⟩, rfl, rfl⟩
    · intro gone
      cases gone
    · intro l member
      cases member

theorem invariant_of_attach [Host] (invariant : Situation → Prop) (quiet : s.IsQuiet)
    (attached : s.attach = .ok (t, id))
    (start : invariant (.attached s.store.settings s.store.status s.now)) {condition : Situation → Action → Prop}
    (step : ∀ v a, condition v a → invariant v → invariant (v.act a)) {actions : List Action}
    (along : t.Along id condition actions) : ∀ v ∈ (t.run id actions).situation? id, invariant v := by
  have shown := shows_of_attach quiet attached
  have course := (shown.along condition actions).mp along
  intro v reached
  rw [(shown.run actions).situation?, Option.mem_some_iff] at reached
  rw [← reached]
  exact course.invariant invariant step start

theorem situation?_run_append [Host] (quiet : s.IsQuiet) (attached : s.attach = .ok (t, id)) {before : List Action}
    {v : Situation} (reached : v ∈ (t.run id before).situation? id) (after : List Action) :
    v.run after ∈ (t.run id (before ++ after)).situation? id := by
  have shown := shows_of_attach quiet attached
  rw [(shown.run before).situation?, Option.mem_some_iff] at reached
  rw [(shown.run (before ++ after)).situation?, Situation.run_append, reached]
  rfl

def newYear (minute : Fin 1440) : Instant :=
  ⟨⟨(28401120 + minute) * 60000000000, false⟩, by simp only [InRange, firstNanos, lastNanos]; omega⟩

def periodic (period : Period) : Scheduler :=
  .new (.new ⟨some period, some (newYear 0), none, none, none⟩ .active) (newYear 0)

def periodicTimer (period : Period) : Scheduler :=
  match (periodic period).attach with
  | .ok (t, _) => t
  | .error _ => periodic period

theorem isQuiet_periodic (period : Period) : (periodic period).IsQuiet := ⟨rfl, rfl, rfl⟩

theorem attach_periodic (period : Period) : (periodic period).attach = .ok (periodicTimer period, 0) := rfl

end Scheduler

end Cadence
