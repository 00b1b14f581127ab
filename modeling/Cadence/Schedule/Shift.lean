import Cadence.Calendar.Order
import Cadence.Zone.Basic

/-!
One period later or earlier. A duration is added to absolute time. A calendar amount moves the local date, a number of
days or of months, at the same local time of day, and the result is read back in the zone. Moving forward makes local
time greater (`CivilTime.lt_of_move?`) whatever the amount.
-/

namespace Cadence

open Calendar

inductive DateMove
  | days (count : Int)
  | months (count : Int)

namespace DateMove

def scale (factor : Int) : DateMove → DateMove
  | days n => days (factor * n)
  | months n => months (factor * n)

def IsForward : DateMove → Prop
  | days n => 0 < n
  | months n => 0 < n

end DateMove

def CalendarUnit.move : CalendarUnit → DateMove
  | .days => .days 1
  | .weeks => .days 7
  | .months => .months 1
  | .years => .months 12
  | .decades => .months 120
  | .centuries => .months 1200
  | .millennia => .months 12000

def CalendarStep.move (step : CalendarStep) (forward : Bool) : DateMove :=
  step.unit.move.scale (if forward then step.factor else -step.factor)

theorem CalendarStep.move_isForward (step : CalendarStep) : (step.move true).IsForward := by
  obtain ⟨factor, unit, factor_pos⟩ := step
  cases unit <;> simp only [move, CalendarUnit.move, DateMove.scale, DateMove.IsForward, if_true] <;> omega

namespace CivilTime

def move? (c : CivilTime) : DateMove → Option CivilTime
  | .days n => c.addDays? n
  | .months n => c.addMonths? n

theorem move?_eq_onDay {c next : CivilTime} {move : DateMove} (h : c.move? move = some next) :
    ∃ day, next.toMoment = c.onDay day := by
  cases move with
  | days n => exact ⟨_, ofMoment?_eq_some.mp h⟩
  | months n => exact ⟨_, ofMoment?_eq_some.mp h⟩

theorem lt_of_move? {c next : CivilTime} {move : DateMove} (forward : move.IsForward) (h : c.move? move = some next) :
    c < next := by
  change c.rank < next.rank
  cases move with
  | days n =>
      simp only [DateMove.IsForward] at forward
      rw [ofMoment?_eq_some.mp h]
      exact c.rank_lt_onDay (by omega)
  | months n =>
      have valid := Date.ofDayNumber_valid c.dayNumber
      have later := Date.dayNumber_lt_of_monthIndex_lt valid (Date.addMonths_valid valid n)
        (by rw [Date.addMonths_monthIndex]; simp only [DateMove.IsForward] at forward; omega)
      rw [Date.dayNumber_ofDayNumber] at later
      rw [ofMoment?_eq_some.mp h]
      exact c.rank_lt_onDay later

end CivilTime

namespace Amount

def shift [Host] (zone : Zone) (forward : Bool) (amount : Amount) (i : Instant) : Except Error Instant :=
  match amount with
  | duration d =>
    match i.add? (if forward then d else d.neg) with
    | some shifted => .ok shifted
    | none => .error (.overflow (.shift i forward amount))
  | calendar step => do
    let civil ← zone.toCivil i
    match civil.move? (step.move forward) with
    | some shifted => zone.fromCivil shifted
    | none => .error (.overflow (.shift i forward amount))

def after [Host] (zone : Zone) : Amount → Instant → Except Error Instant := shift zone true

def before [Host] (zone : Zone) : Amount → Instant → Except Error Instant := shift zone false

theorem shift_duration [Host] {zone : Zone} {forward : Bool} {d : Duration} {i j : Instant}
    (h : shift zone forward (duration d) i = .ok j) :
    j.toMoment = i.toMoment.shift (if forward then d.nanos else -d.nanos) := by
  simp only [shift] at h
  split at h
  · rename_i found
    cases h
    rw [Instant.add?_eq_some] at found
    cases forward
    · exact found
    · exact found
  · cases h

theorem shift_calendar_eq_ok_iff [Host] {zone : Zone} {forward : Bool} {step : CalendarStep} {i j : Instant} :
    shift zone forward (calendar step) i = .ok j ↔
      ∃ c d, zone.toCivil i = .ok c ∧ c.move? (step.move forward) = some d ∧ zone.fromCivil d = .ok j := by
  simp only [shift, bind, Except.bind]
  cases zone.toCivil i with
  | error e => simp
  | ok c => cases moved : c.move? (step.move forward) <;> simp [moved]

end Amount

end Cadence
