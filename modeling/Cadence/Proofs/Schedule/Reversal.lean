import Cadence.Proofs.Schedule.Boundary
import Cadence.Proofs.Schedule.Progress

/-!
There and back by one amount, where the clock is never turned. Days and weeks lead back to where they came from. Months
lead back to the month and the time of day, and to the day as well unless the month between was too short for it
(`Date.addMonths_addMonths_neg`): that it was cut there is not forgotten on the way back. A duration leads back exactly,
except that a leap second is not entered again once it has been left (`Moment.shift_shift_neg`).
-/

namespace Cadence

open Calendar

namespace Date

variable {d : Date}

theorem monthIndex_div (valid : d.Valid) : d.monthIndex / 12 = d.year ∧ d.monthIndex % 12 + 1 = d.month := by
  obtain ⟨low, high, -⟩ := valid
  simp only [monthIndex]
  omega

theorem dayNumber_le_of_day_le {year month day later : Int} (le : day ≤ later) :
    dayNumber ⟨year, month, day⟩ ≤ dayNumber ⟨year, month, later⟩ := by
  simp only [dayNumber]
  omega

theorem addMonths_addMonths_neg (valid : d.Valid) (months : Int) : (d.addMonths months).addMonths (-months) =
    ⟨d.year, d.month, min d.day (monthLength (d.addMonths months).year (d.addMonths months).month)⟩ := by
  obtain ⟨year, month⟩ := monthIndex_div valid
  have back : (d.addMonths months).monthIndex + -months = d.monthIndex := by
    rw [addMonths_monthIndex]
    omega
  have cut : (d.addMonths months).day =
    min d.day (monthLength (d.addMonths months).year (d.addMonths months).month) := rfl
  have fits : d.day ≤ monthLength d.year d.month := valid.2.2.2
  rw [addMonths, back, year, month, cut]
  simp only [Date.mk.injEq, true_and]
  omega

end Date

namespace Moment

/-- So many nanoseconds further is the end of the leap second or later. -/
def LeavesLeapSecond (m : Moment) (nanos : Int) : Prop :=
  m.leap = true ∧ nanosPerSecond ≤ m.nanosOfSecond + nanos

instance (m : Moment) (nanos : Int) : Decidable (m.LeavesLeapSecond nanos) := inferInstanceAs (Decidable (_ ∧ _))

variable {m : Moment} {a : Int}

theorem shift_shift_neg (forward : 0 ≤ a) (stays : ¬ m.LeavesLeapSecond a) : (m.shift a).shift (-a) = m := by
  obtain ⟨n, p⟩ := m
  cases p with
  | false =>
    rw [shift_of_ordinary rfl, shift_of_ordinary rfl]
    simp only [mk.injEq, and_true]
    omega
  | true =>
    have within : n % nanosPerSecond + a < nanosPerSecond := Int.not_le.mp fun leaves => stays ⟨rfl, leaves⟩
    have kept : (n + a) % nanosPerSecond = n % nanosPerSecond + a := by
      simp only [nanosPerSecond] at within ⊢
      omega
    have begun : ¬ (n % nanosPerSecond + a + -a < 0) := by
      simp only [nanosPerSecond]
      omega
    have ends : n % nanosPerSecond + a + -a < nanosPerSecond := by
      simp only [nanosPerSecond]
      omega
    rw [shift_of_leap n forward, decide_eq_true within, shift, nanosOfSecond, kept, if_neg fun back => begun back.2,
      decide_eq_true ends]
    simp only [mk.injEq, Bool.and_true, and_true]
    omega

theorem shift_shift_neg_of_leaves (forward : 0 ≤ a) (leaves : m.LeavesLeapSecond a) :
    (m.shift a).shift (-a) = ⟨m.nanos, false⟩ := by
  obtain ⟨n, p⟩ := m
  obtain ⟨rfl, far⟩ := leaves
  have out : ¬ (n % nanosPerSecond + a < nanosPerSecond) := Int.not_lt.mpr far
  rw [shift_of_leap n forward, decide_eq_false out, shift_of_ordinary rfl]
  simp only [mk.injEq, and_true]
  omega

end Moment

namespace CivilTime

variable {c d e : CivilTime} {n : Int}

theorem addDays?_addDays?_neg (there : c.addDays? n = some d) (back : d.addDays? (-n) = some e) : e = c := by
  have out := ofMoment?_eq_some.mp there
  refine ext ?_
  rw [ofMoment?_eq_some.mp back, out, Moment.dayNumber_onDay, Moment.onDay_onDay, Int.add_neg_cancel_right,
    Moment.onDay_dayNumber]

theorem date_of_addMonths? (there : c.addMonths? n = some d) :
    d.date = c.date.addMonths n ∧ d.timeOfDay = c.timeOfDay ∧ d.leap = c.leap := by
  have out := ofMoment?_eq_some.mp there
  have valid := Date.addMonths_valid (Date.ofDayNumber_valid c.dayNumber) n
  refine ⟨?_, by rw [out, Moment.timeOfDay_onDay], by rw [out, Moment.onDay]⟩
  rw [Moment.date, out, Moment.dayNumber_onDay]
  exact Date.ofDayNumber_dayNumber valid

theorem date_of_addMonths?_neg (there : c.addMonths? n = some d) (back : d.addMonths? (-n) = some e) :
    e.date = ⟨c.date.year, c.date.month, min c.date.day (monthLength d.date.year d.date.month)⟩ ∧
      e.timeOfDay = c.timeOfDay ∧ e.leap = c.leap := by
  obtain ⟨date, time, leap⟩ := date_of_addMonths? there
  obtain ⟨date', time', leap'⟩ := date_of_addMonths? back
  have valid : c.date.Valid := Date.ofDayNumber_valid c.dayNumber
  refine ⟨?_, time'.trans time, leap'.trans leap⟩
  rw [date', date, Date.addMonths_addMonths_neg valid]

theorem dayNumber_date (c : CivilTime) : c.date.dayNumber = c.dayNumber := Date.dayNumber_ofDayNumber c.dayNumber

theorem eq_of_date_eq (date : e.date = c.date) (time : e.timeOfDay = c.timeOfDay) (leap : e.leap = c.leap) : e = c := by
  have day : e.dayNumber = c.dayNumber := by rw [← dayNumber_date, ← dayNumber_date, date]
  have split := e.toMoment.day_add_timeOfDay
  have split' := c.toMoment.day_add_timeOfDay
  refine ext ?_
  obtain ⟨⟨nanos, mark⟩, _⟩ := e
  obtain ⟨⟨nanos', mark'⟩, _⟩ := c
  rw [day, time] at split
  simp only [Moment.mk.injEq]
  exact ⟨split.symm.trans split', leap⟩

end CivilTime

namespace CalendarStep

variable {step : CalendarStep} {n : Int}

theorem move_false (step : CalendarStep) : step.move false = (step.move true).scale (-1) := by
  simp only [move, Bool.false_eq_true, if_false, if_true]
  cases step.unit.move <;> simp only [DateMove.scale] <;> congr 1 <;> simp only [Int.neg_mul, Int.one_mul]

theorem exists_months (counts : step.days? = none) : ∃ n, step.move true = .months n := by
  obtain ⟨factor, unit, positive⟩ := step
  cases unit with
  | days | weeks => cases counts
  | _ => exact ⟨_, rfl⟩

end CalendarStep

namespace Amount

variable {zone : Zone} {amount : Amount} {p : Period} {step : CalendarStep} {d : Duration} {i j k : Instant} {n : Int}

theorem before_after_duration [Host] (positive : 0 < d.nanos) (there : after zone (.duration d) i = .ok j)
    (back : before zone (.duration d) j = .ok k) :
    k ≤ i ∧ (¬ i.LeavesLeapSecond d.nanos → k = i) ∧ (i.LeavesLeapSecond d.nanos → k.toMoment = ⟨i.nanos, false⟩) := by
  have forward : 0 ≤ d.nanos := Int.le_of_lt positive
  have way : k.toMoment = (i.toMoment.shift d.nanos).shift (-d.nanos) := by
    rw [shift_duration back, shift_duration there, if_pos rfl, if_neg Bool.false_ne_true]
  by_cases leaves : i.LeavesLeapSecond d.nanos
  · rw [Moment.shift_shift_neg_of_leaves forward leaves] at way
    refine ⟨?_, fun stays => absurd leaves stays, fun _ => way⟩
    change k.rank ≤ i.rank
    rw [way]
    simp only [Moment.rank, Moment.leapNanos, Moment.seconds, leaves.1, Bool.false_eq_true, if_false, if_true,
      nanosPerSecond]
    omega
  · rw [Moment.shift_shift_neg forward leaves] at way
    have same : k = i := Instant.ext way
    exact ⟨same ▸ Instant.le_refl k, fun _ => same, fun leaves' => absurd leaves' leaves⟩

section Plain

variable [Host] (plain : zone.IsPlain)
include plain

theorem exists_toCivil_of_before_after (there : after zone (.calendar step) i = .ok j)
    (back : before zone (.calendar step) j = .ok k) : ∃ c d e, zone.toCivil i = .ok c ∧ zone.toCivil j = .ok d ∧
      zone.toCivil k = .ok e ∧ c.move? (step.move true) = some d ∧ d.move? ((step.move true).scale (-1)) = some e := by
  obtain ⟨c, d, shows, moved, led⟩ := shift_calendar_eq_ok_iff.mp there
  obtain ⟨d', e, shows', moved', led'⟩ := shift_calendar_eq_ok_iff.mp back
  have middle := plain.toCivil_of_fromCivil led
  cases middle.symm.trans shows'
  rw [step.move_false] at moved'
  exact ⟨c, d, e, shows, middle, plain.toCivil_of_fromCivil led', moved, moved'⟩

theorem before_after_days (days : step.days? = some n) (there : after zone (.calendar step) i = .ok j)
    (back : before zone (.calendar step) j = .ok k) : k = i := by
  obtain ⟨c, d, e, shows, -, shows', moved, moved'⟩ := exists_toCivil_of_before_after plain there back
  rw [CalendarStep.move_of_days? days] at moved moved'
  rw [DateMove.scale, Int.neg_mul, Int.one_mul] at moved'
  cases CivilTime.addDays?_addDays?_neg moved moved'
  exact plain.eq_of_toCivil shows' shows

theorem before_after_months (months : step.days? = none) (there : after zone (.calendar step) i = .ok j)
    (back : before zone (.calendar step) j = .ok k) : k ≤ i ∧
    ∃ c d e, zone.toCivil i = .ok c ∧ zone.toCivil j = .ok d ∧ zone.toCivil k = .ok e ∧
      e.date = ⟨c.date.year, c.date.month, min c.date.day (monthLength d.date.year d.date.month)⟩ ∧
      e.timeOfDay = c.timeOfDay ∧ e.leap = c.leap ∧ (k = i ↔ c.date.day ≤ monthLength d.date.year d.date.month) := by
  obtain ⟨c, d, e, shows, middle, shows', moved, moved'⟩ := exists_toCivil_of_before_after plain there back
  obtain ⟨n, counts⟩ := CalendarStep.exists_months months
  rw [counts] at moved moved'
  rw [DateMove.scale, Int.neg_mul, Int.one_mul] at moved'
  obtain ⟨date, time, leap⟩ := CivilTime.date_of_addMonths?_neg moved moved'
  refine ⟨?_, c, d, e, shows, middle, shows', date, time, leap, ?_, ?_⟩
  · have day : e.dayNumber ≤ c.dayNumber := by
      rw [← CivilTime.dayNumber_date, ← CivilTime.dayNumber_date, date]
      exact Date.dayNumber_le_of_day_le (Int.min_le_left _ _)
    refine plain.le_of_toCivil shows shows' leap ?_
    have split := e.toMoment.day_add_timeOfDay
    have split' := c.toMoment.day_add_timeOfDay
    simp only [nanosPerDay] at split split'
    omega
  · rintro rfl
    cases shows.symm.trans shows'
    have day := congrArg Date.day date
    simp only at day
    omega
  · intro fits
    rw [Int.min_eq_left fits] at date
    cases CivilTime.eq_of_date_eq date time leap
    exact plain.eq_of_toCivil shows' shows

end Plain

/-- One amount later and one amount earlier is never later, where the clock is never turned. Days and weeks lead back
to where they came from. So do durations, but from a leap second that was left they lead to the second before it.
Months lead back to the same month and time of day, and to the same day if the month between has that day, else to the
number of the last day that it has. -/
theorem before_after [Host] (plain : zone.IsPlain) (usable : p.amount = .ok amount)
    (there : after zone amount i = .ok j) (back : before zone amount j = .ok k) :
    k ≤ i ∧
    (∀ d, amount = .duration d →
      (¬ i.LeavesLeapSecond d.nanos → k = i) ∧ (i.LeavesLeapSecond d.nanos → k.toMoment = ⟨i.nanos, false⟩)) ∧
    ∀ step, amount = .calendar step →
      (∀ n, step.days? = some n → k = i) ∧
      (step.days? = none → ∃ c d e, zone.toCivil i = .ok c ∧ zone.toCivil j = .ok d ∧ zone.toCivil k = .ok e ∧
        e.date = ⟨c.date.year, c.date.month, min c.date.day (monthLength d.date.year d.date.month)⟩ ∧
        e.timeOfDay = c.timeOfDay ∧ e.leap = c.leap ∧
        (k = i ↔ c.date.day ≤ monthLength d.date.year d.date.month)) := by
  cases amount with
  | duration d =>
    obtain ⟨le, exactly⟩ := before_after_duration (Period.amount_duration_pos usable) there back
    refine ⟨le, ?_, by rintro _ ⟨⟩⟩
    rintro _ ⟨⟩
    exact exactly
  | calendar step =>
    refine ⟨?_, by rintro _ ⟨⟩, ?_⟩
    · cases counts : step.days? with
      | some n => exact before_after_days plain counts there back ▸ Instant.le_refl k
      | none => exact (before_after_months plain counts there back).1
    · rintro _ ⟨⟩
      exact ⟨fun n days => before_after_days plain days there back,
        fun months => (before_after_months plain months there back).2⟩

def endOfJanuary : Instant := ⟨⟨1612049400000000000, false⟩, by decide⟩

theorem month_end_two_hours_east : Period.twoHoursEast.IsPlain ∧
    (⟨1, .calendar .months⟩ : Period).amount = .ok (.calendar monthly) ∧
    after Period.twoHoursEast (.calendar monthly) endOfJanuary = .ok ⟨⟨1614468600000000000, false⟩, by decide⟩ ∧
    before Period.twoHoursEast (.calendar monthly) ⟨⟨1614468600000000000, false⟩, by decide⟩ =
      .ok ⟨⟨1611790200000000000, false⟩, by decide⟩ ∧
    (⟨⟨1611790200000000000, false⟩, by decide⟩ : Instant) ≤ endOfJanuary ∧
    ∃ c d e, Period.twoHoursEast.toCivil endOfJanuary = .ok c ∧
      Period.twoHoursEast.toCivil ⟨⟨1614468600000000000, false⟩, by decide⟩ = .ok d ∧
      Period.twoHoursEast.toCivil ⟨⟨1611790200000000000, false⟩, by decide⟩ = .ok e ∧
      e.date = ⟨c.date.year, c.date.month, min c.date.day (monthLength d.date.year d.date.month)⟩ ∧
      ¬ c.date.day ≤ monthLength d.date.year d.date.month := by
  have plain : Period.twoHoursEast.IsPlain := Zone.isPlain_fixed _
  have there : after Period.twoHoursEast (.calendar monthly) endOfJanuary =
      .ok ⟨⟨1614468600000000000, false⟩, by decide⟩ := by decide +kernel
  have back : before Period.twoHoursEast (.calendar monthly) ⟨⟨1614468600000000000, false⟩, by decide⟩ =
      .ok ⟨⟨1611790200000000000, false⟩, by decide⟩ := by decide +kernel
  have cut : (⟨⟨1611790200000000000, false⟩, by decide⟩ : Instant) ≠ endOfJanuary := by decide +kernel
  obtain ⟨le, -, calendar⟩ := before_after (p := ⟨1, .calendar .months⟩) plain rfl there back
  obtain ⟨c, d, e, shows, middle, shows', date, -, -, restored⟩ := (calendar monthly rfl).2 rfl
  exact ⟨plain, rfl, there, back, le, c, d, e, shows, middle, shows', date, fun fits => cut (restored.mpr fits)⟩

theorem leap_second_is_not_entered_again :
    (⟨1, .clock .seconds⟩ : Period).amount = .ok (.duration ⟨1000000000, by decide⟩) ∧
      after .utc (.duration ⟨1000000000, by decide⟩) (lastMinuteOf2016 59000 true) = .ok (newYear2017 0) ∧
      before .utc (.duration ⟨1000000000, by decide⟩) (newYear2017 0) = .ok (lastMinuteOf2016 59000 false) ∧
      lastMinuteOf2016 59000 false ≠ lastMinuteOf2016 59000 true :=
  ⟨rfl, by decide +kernel⟩

end Amount

end Cadence
