import Cadence.Schedule.Shift
import Cadence.Schedule.Truncate

/-!
Boundaries of the intervals that a period divides time into. Where the factor divides the coarser unit evenly the
intervals are counted from the start of that unit (quarters of an hour from the full hour), else an interval begins
where its unit begins. `alignedStart` gives the boundary at or before a moment, or the one at or after it. The last
boundary that is reached is known only by the next one, so a next boundary outside the calendar is an error even where
it is not the answer.
-/

namespace Cadence

inductive Direction
  | previous | next
deriving DecidableEq

def TimeUnit.coarser? : TimeUnit → Option TimeUnit
  | clock .seconds => some (clock .minutes)
  | clock .minutes => some (clock .hours)
  | clock .hours => some (calendar .days)
  | calendar .months => some (calendar .years)
  | _ => none

/-- The unit from whose start the intervals are counted. -/
def Period.outer? (p : Period) : Option TimeUnit :=
  if TimeUnit.isAligned p.factor p.unit then p.unit.coarser? else none

/-- Walks from `current` by whole steps to the last boundary that is not after `base`. -/
def Instant.lastBoundary? (base : Instant) (step : Duration) (positive : 0 < step.nanos) (current : Instant) :
    Option Instant :=
  match _found : current.add? step with
  | none => none
  | some next => if _past : base < next then some current else base.lastBoundary? step positive next
termination_by (base.rank + 1 - current.rank).toNat
decreasing_by
  change ¬ base.rank < next.rank at _past
  have : current.rank < next.rank := Instant.lt_of_add? positive _found
  omega

def CivilTime.lastBoundary? (civil : CivilTime) (step : CalendarStep) (current : CivilTime) : Option CivilTime :=
  match _found : current.move? (step.move true) with
  | none => none
  | some next => if _past : civil < next then some current else civil.lastBoundary? step next
termination_by (civil.rank + 1 - current.rank).toNat
decreasing_by
  change ¬ civil.rank < next.rank at _past
  have : current.rank < next.rank := CivilTime.lt_of_move? step.move_isForward _found
  omega

private def orOutside {α : Type} (base : Instant) (period : Period) : Option α → Except Error α
  | some a => .ok a
  | none => .error (.overflow (.align base period))

private theorem orOutside_eq_ok {α : Type} {base : Instant} {period : Period} {found : Option α} {a : α} :
    orOutside base period found = .ok a ↔ found = some a := by
  cases found <;> simp [orOutside]

private theorem orOutside_eq_error {α : Type} {base : Instant} {period : Period} {found : Option α} {e : Error} :
    orOutside base period found = .error e ↔ found = none ∧ e = .overflow (.align base period) := by
  cases found <;> simp [orOutside, eq_comm]

namespace Period

def clockBoundary (p : Period) (step : Duration) (positive : 0 < step.nanos) (base : Instant) : Except Error Instant :=
  match p.outer? with
  | some outer => do
    let start ← base.truncate outer
    orOutside base p (base.lastBoundary? step positive start)
  | none => base.truncate p.unit

def calendarBoundary (p : Period) (step : CalendarStep) (base : Instant) (civil : CivilTime) : Except Error CivilTime :=
  match p.outer? with
  | some outer => do
    let start ← civil.truncate outer
    orOutside base p (civil.lastBoundary? step start)
  | none => civil.truncate p.unit

/-- The boundary next to a moment in a direction; a moment that is a boundary itself is its own neighbour. -/
def alignedStart [Host] (p : Period) (zone : Zone) (direction : Direction) (base : Instant) : Except Error Instant :=
  match found : p.amount with
  | .error e => .error e
  | .ok (.duration step) => do
    let start ← p.clockBoundary step (amount_duration_pos found) base
    if direction = .next ∧ start ≠ base then orOutside base p (start.add? step) else .ok start
  | .ok (.calendar step) => do
    let civil ← zone.toCivil base
    let start ← p.calendarBoundary step base civil
    let boundary ←
      if direction = .next ∧ start ≠ civil then orOutside base p (start.move? (step.move true)) else .ok start
    zone.fromCivil boundary

variable {p : Period} {d : Duration} {step : CalendarStep} {zone : Zone} {direction : Direction} {base i j : Instant}
  {c s : CivilTime}
  {e : Error}

theorem clockBoundary_of_outer {outer : TimeUnit} {positive : 0 < d.nanos} (counted : p.outer? = some outer) :
    p.clockBoundary d positive base = .ok i ↔
      ∃ start, base.truncate outer = .ok start ∧ base.lastBoundary? d positive start = some i := by
  rw [clockBoundary, counted]
  simp only [bind_eq_ok_iff, orOutside_eq_ok]

theorem clockBoundary_of_not_outer {positive : 0 < d.nanos} (uncounted : p.outer? = none) :
    p.clockBoundary d positive base = base.truncate p.unit := by
  rw [clockBoundary, uncounted]

private theorem alignedStart_duration [Host] (usable : p.amount = .ok (.duration d))
    (last : p.clockBoundary d (amount_duration_pos usable) base = .ok i) : p.alignedStart zone direction base =
      if direction = .next ∧ i ≠ base then orOutside base p (i.add? d) else .ok i := by
  simp only [alignedStart]
  split
  · rename_i found
    cases usable.symm.trans found
  · rename_i found
    cases usable.symm.trans found
    rw [last]
    rfl
  · rename_i found
    cases usable.symm.trans found

theorem alignedStart_duration_eq_ok_iff [Host] (usable : p.amount = .ok (.duration d))
    (last : p.clockBoundary d (amount_duration_pos usable) base = .ok i) : p.alignedStart zone direction base = .ok j ↔
      if direction = .next ∧ i ≠ base then i.add? d = some j else i = j := by
  rw [alignedStart_duration usable last]
  split
  · exact orOutside_eq_ok
  · rw [Except.ok.injEq]

theorem alignedStart_duration_eq_error_iff [Host] (usable : p.amount = .ok (.duration d))
    (last : p.clockBoundary d (amount_duration_pos usable) base = .ok i) :
    p.alignedStart zone direction base = .error e ↔
      (direction = .next ∧ i ≠ base) ∧ i.add? d = none ∧ e = .overflow (.align base p) := by
  rw [alignedStart_duration usable last]
  split
  · rename_i moves
    rw [orOutside_eq_error, and_iff_right moves]
  · rename_i rests
    simp only [reduceCtorEq, rests, false_and]

theorem calendarBoundary_of_outer {outer : TimeUnit} (counted : p.outer? = some outer) :
    p.calendarBoundary step base c = .ok s ↔
      ∃ start, c.truncate outer = .ok start ∧ c.lastBoundary? step start = some s := by
  rw [calendarBoundary, counted]
  simp only [bind_eq_ok_iff, orOutside_eq_ok]

theorem calendarBoundary_of_not_outer (uncounted : p.outer? = none) :
    p.calendarBoundary step base c = c.truncate p.unit := by
  rw [calendarBoundary, uncounted]

private theorem alignedStart_calendar [Host] (usable : p.amount = .ok (.calendar step)) :
    p.alignedStart zone direction base = (do
      let civil ← zone.toCivil base
      let start ← p.calendarBoundary step base civil
      let boundary ←
        if direction = .next ∧ start ≠ civil then orOutside base p (start.move? (step.move true)) else .ok start
      zone.fromCivil boundary) := by
  simp only [alignedStart]
  split
  · rename_i found
    cases usable.symm.trans found
  · rename_i found
    cases usable.symm.trans found
  · rename_i found
    cases usable.symm.trans found
    rfl

theorem alignedStart_calendar_eq_ok_iff [Host] (usable : p.amount = .ok (.calendar step)) :
    p.alignedStart zone direction base = .ok i ↔ ∃ c s b, zone.toCivil base = .ok c ∧
      p.calendarBoundary step base c = .ok s ∧
      (if direction = .next ∧ s ≠ c then s.move? (step.move true) = some b else b = s) ∧ zone.fromCivil b = .ok i := by
  simp only [alignedStart_calendar usable, bind_eq_ok_iff, exists_and_left]
  refine exists_congr fun c => and_congr_right fun _ => exists_congr fun s => and_congr_right fun _ => ?_
  by_cases moves : direction = .next ∧ s ≠ c
  · simp only [if_pos moves, bind_eq_ok_iff, orOutside_eq_ok]
  · simp only [if_neg moves, bind_eq_ok_iff, Except.ok.injEq, exists_eq_left', exists_eq_left]

theorem calendarBoundary_eq_error {unit : CalendarUnit} (counts : p.unit = .calendar unit)
    (failed : p.calendarBoundary step base c = .error e) : ∃ cause, e = .overflow cause := by
  have truncated : ∀ u, c.truncate (.calendar u) = .error e → ∃ cause, e = .overflow cause := by
    intro u failed
    simp only [CivilTime.truncate] at failed
    split at failed
    · cases failed
    · exact ⟨_, (Except.error.inj failed).symm⟩
  simp only [calendarBoundary] at failed
  split at failed
  · rename_i outer counted
    obtain ⟨coarse, rfl⟩ : ∃ coarse, outer = .calendar coarse := by
      simp only [outer?, counts] at counted
      split at counted
      · cases unit <;> simp only [TimeUnit.coarser?, reduceCtorEq, Option.some.injEq] at counted
        exact ⟨_, counted.symm⟩
      · cases counted
    obtain first | ⟨start, -, walked⟩ := bind_eq_error_iff.mp failed
    · exact truncated coarse first
    · exact ⟨_, (orOutside_eq_error.mp walked).2⟩
  · rw [counts] at failed
    exact truncated unit failed

theorem alignedStart_calendar_eq_error [Host] (usable : p.amount = .ok (.calendar step))
    (counts : p.unit = .calendar step.unit) (failed : p.alignedStart zone direction base = .error e) :
    zone.toCivil base = .error e ∨ (∃ cause, e = .overflow cause) ∨ ∃ b, zone.fromCivil b = .error e := by
  rw [alignedStart_calendar usable] at failed
  obtain first | ⟨c, -, failed⟩ := bind_eq_error_iff.mp failed
  · exact .inl first
  obtain second | ⟨s, -, failed⟩ := bind_eq_error_iff.mp failed
  · exact .inr (.inl (calendarBoundary_eq_error counts second))
  split at failed
  · obtain third | ⟨b, -, back⟩ := bind_eq_error_iff.mp failed
    · exact .inr (.inl ⟨_, (orOutside_eq_error.mp third).2⟩)
    · exact .inr (.inr ⟨b, back⟩)
  · exact .inr (.inr ⟨s, failed⟩)

end Period

end Cadence
