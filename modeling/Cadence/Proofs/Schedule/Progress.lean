import Cadence.Proofs.Zone.Resolve
import Cadence.Proofs.Schedule.WallClock
import Cadence.Proofs.Schedule.Walk

/-!
Calendar amounts always lead forward. In a steady zone local time passes at least a day between the two ends of a
step, and no turn of the clock takes a whole day back before the clock is a day further (`Amount.lt_after`). So a walk
by a calendar amount is never stuck. It arrives at the first occurrence after its end, or it comes to an occurrence
from which there is no next one (`Amount.advancePast_calendar`): the calendar ends, in UTC or in local time, or else
the clock on the wall shows a leap second and the step leads to the end of a day that was skipped.
-/

namespace Cadence

open Calendar

namespace CivilTime

variable {c d : CivilTime} {move : DateMove}

/-- The reading to which a move leads, in the calendar or not. -/
def moved (c : CivilTime) : DateMove → Moment
  | .days n => c.onDay (c.dayNumber + n)
  | .months n => c.onDay (c.date.addMonths n).dayNumber

theorem move?_eq (c : CivilTime) (move : DateMove) : c.move? move = ofMoment? (c.moved move) := by
  cases move <;> rfl

theorem seconds_of_move? (forward : move.IsForward) (h : c.move? move = some d) :
    d.leap = c.leap ∧ c.seconds + 86400 ≤ d.seconds := by
  have later : c.rank < d.rank := lt_of_move? forward h
  obtain ⟨day, place⟩ := move?_eq_onDay h
  have marks : d.leap = c.leap := by rw [place, Moment.onDay]
  have split := c.toMoment.day_add_timeOfDay
  have nanos : d.nanos = day * nanosPerDay + c.timeOfDay := by rw [place, Moment.onDay]
  refine ⟨marks, ?_⟩
  rw [Moment.rank_lt_iff_of_leap_eq marks.symm] at later
  simp only [Moment.seconds, nanosPerSecond, nanosPerDay] at *
  omega

end CivilTime

namespace Amount

variable {zone : Zone} {amount : Amount} {step : CalendarStep} {base now i j m next : Instant} {e : Error}

theorem after_calendar_eq_ok_iff [Host] : after zone (.calendar step) i = .ok j ↔
    ∃ c d, zone.toCivil i = .ok c ∧ c.move? (step.move true) = some d ∧ zone.fromCivil d = .ok j :=
  shift_calendar_eq_ok_iff

theorem lt_after [Host] (steady : zone.IsSteady) (h : after zone (.calendar step) i = .ok j) : i < j := by
  obtain ⟨c, d, shows, moved, back⟩ := after_calendar_eq_ok_iff.mp h
  have day := (CivilTime.seconds_of_move? step.move_isForward moved).2
  have here := Zone.seconds_of_toCivil shows
  apply Moment.rank_lt_of_seconds_lt
  obtain there | ⟨second, before, after, turn, begun, ends, place⟩ := steady.fromCivil_cases back
  · -- The clock shows a day more at `j`, and it can do so only later.
    have there := Zone.seconds_of_toCivil there
    have bounds := steady.isRegular.offsetAt_bounds i.seconds
    have bounds' := steady.isRegular.offsetAt_bounds j.seconds
    apply Int.not_le.mp
    intro backward
    have near := steady.offsetAt_near backward (by omega)
    have same : i.seconds = j.seconds := by omega
    rw [same] at here
    omega
  · -- The clock is set forward between the two: a day before the gap is before the turn, and `j` is not.
    have size := turn.size
    have earlier : i.seconds < second := by
      apply Int.not_le.mp
      intro later
      have := turn.after_le steady later
      omega
    have later := (d.seconds_shift_neg before).1
    rw [← place] at later
    omega

theorem leap_of_after [Host] (steady : zone.IsSteady) (h : after zone (.calendar step) i = .ok j)
    (marked : j.leap = true) : i.leap = true := by
  obtain ⟨c, d, shows, moved, back⟩ := after_calendar_eq_ok_iff.mp h
  rw [← (Zone.nanos_of_toCivil shows).2, ← (CivilTime.seconds_of_move? step.move_isForward moved).1]
  obtain there | ⟨second, before, after, turn, begun, ends, place⟩ := steady.fromCivil_cases back
  · rw [(Zone.nanos_of_toCivil there).2, marked]
  · rw [place] at marked
    exact Moment.leap_of_leap_shift marked

/-- No next occurrence is in the calendar: the clock shows no time of the calendar, or the date to which a step moves is
not in it, or the time on that date is shown at no instant of it. -/
inductive LeavesCalendar [Host] (zone : Zone) (step : CalendarStep) (i : Instant) : Prop
  | reading (out : ¬ InRange (i.ahead (zone.offsetAt i.seconds)).nanos)
  | date (c : CivilTime) (shows : zone.toCivil i = .ok c) (out : ¬ InRange (c.moved (step.move true)).nanos)
  | instant (c d : CivilTime) (shows : zone.toCivil i = .ok c) (moved : c.move? (step.move true) = some d)
      (unskipped : ¬ zone.Skips d.seconds) (out : ¬ zone.Shows d.toMoment)

/-- A step leads to a time that was skipped, and so was the same time of the day before. -/
def EndsSkippedDay [Host] (zone : Zone) (step : CalendarStep) (i : Instant) : Prop :=
  ∃ c d, zone.toCivil i = .ok c ∧ c.move? (step.move true) = some d ∧ zone.Skips d.seconds ∧
    zone.Skips (d.shift (-nanosPerDay)).seconds

theorem EndsSkippedDay.leap [Host] (steady : zone.IsSteady) (h : EndsSkippedDay zone step i) : i.leap = true := by
  obtain ⟨c, d, shows, moved, skipped, also⟩ := h
  rw [← (Zone.nanos_of_toCivil shows).2, ← (CivilTime.seconds_of_move? step.move_isForward moved).1]
  exact steady.leap_of_skips_dayBefore skipped also

theorem after_fails_iff [Host] (steady : zone.IsSteady) : (∃ e, after zone (.calendar step) i = .error e) ↔
    LeavesCalendar zone step i ∨ EndsSkippedDay zone step i := by
  constructor
  · rintro ⟨e, failed⟩
    cases shows : zone.toCivil i with
    | error f => exact .inl (.reading (Zone.toCivil_eq_error shows).2)
    | ok c =>
      cases moved : c.move? (step.move true) with
      | none =>
        rw [CivilTime.move?_eq] at moved
        exact .inl (.date c shows (CivilTime.ofMoment?_eq_none.mp moved))
      | some d =>
        simp only [after, shift, shows, moved, bind, Except.bind] at failed
        obtain ⟨unskipped, out⟩ | ⟨skipped, also⟩ := steady.fromCivil_fails_iff.mp ⟨e, failed⟩
        · exact .inl (.instant c d shows moved unskipped out)
        · exact .inr ⟨c, d, shows, moved, skipped, also⟩
  · intro leaves
    cases led : after zone (.calendar step) i with
    | error e => exact ⟨e, rfl⟩
    | ok j =>
      exfalso
      obtain ⟨c, d, shows, moved, back⟩ := after_calendar_eq_ok_iff.mp led
      have unfailing : ¬ ∃ e, zone.fromCivil d = .error e := by rw [back]; simp
      rw [steady.fromCivil_fails_iff, not_or] at unfailing
      obtain (out | ⟨c', shows', out⟩ | ⟨c', d', shows', moved', unskipped, out⟩) |
        ⟨c', d', shows', moved', both⟩ := leaves
      · rw [← Zone.toCivil_moment shows] at out
        exact out c.inRange
      · cases shows.symm.trans shows'
        rw [CivilTime.move?_eq, CivilTime.ofMoment?_eq_some] at moved
        rw [← moved] at out
        exact out d.inRange
      · cases shows.symm.trans shows'
        cases moved.symm.trans moved'
        exact unfailing.1 ⟨unskipped, out⟩
      · cases shows.symm.trans shows'
        cases moved.symm.trans moved'
        exact unfailing.2 both

theorem afterMany_succ [Host] (zone : Zone) (amount : Amount) (count : Nat) (base : Instant) :
    afterMany zone amount (count + 1) base = after zone amount base >>= afterMany zone amount count := by
  induction count with
  | zero => exact (bind_pure (after zone amount base)).symm
  | succ count ih =>
    rw [afterMany, ih, bind_assoc]
    rfl

/-- So many occurrences have passed, the first of which is the start itself. -/
def HavePassed [Host] (zone : Zone) (amount : Amount) (base now : Instant) (count : Nat) : Prop :=
  ∀ k < count, ∃ i, afterMany zone amount k base = .ok i ∧ i ≤ now

theorem havePassed_succ_iff [Host] {count : Nat} (led : after zone amount base = .ok next) :
    HavePassed zone amount base now (count + 1) ↔ base ≤ now ∧ HavePassed zone amount next now count := by
  have shifted : ∀ k, afterMany zone amount (k + 1) base = afterMany zone amount k next := by
    intro k
    rw [afterMany_succ, led]
    rfl
  constructor
  · intro passed
    obtain ⟨i, start, reached⟩ := passed 0 (Nat.succ_pos count)
    cases start
    refine ⟨reached, fun k less => ?_⟩
    rw [← shifted]
    exact passed (k + 1) (Nat.succ_lt_succ less)
  · rintro ⟨reached, passed⟩ (_ | k) less
    · exact ⟨base, rfl, reached⟩
    · rw [shifted]
      exact passed k (Nat.lt_of_succ_lt_succ less)

theorem stepPast_eq_iff [Host] (progress : ∀ i j, after zone amount i = .ok j → i < j) {result : Except Error Instant} :
    stepPast zone amount now base = result ↔ ∃ count, HavePassed zone amount base now count ∧
      afterMany zone amount count base = result ∧ ∀ m, result = .ok m → now < m := by
  induction base using stepPast.induct zone amount now with
  | case1 base past =>
    rw [stepPast_of_past past]
    constructor
    · rintro rfl
      refine ⟨0, fun k less => absurd less (Nat.not_lt_zero k), rfl, ?_⟩
      rintro m ⟨⟩
      exact past
    · rintro ⟨count, passed, led, -⟩
      cases count with
      | zero => exact led
      | succ count =>
        obtain ⟨i, start, reached⟩ := passed 0 (Nat.succ_pos count)
        cases start
        exact absurd past (Instant.not_lt.mpr reached)
  | case2 base reached e failed =>
    rw [stepPast, dif_neg reached, failed]
    constructor
    · rintro rfl
      refine ⟨1, fun k less => ?_, failed, by rintro m ⟨⟩⟩
      obtain rfl := Nat.lt_one_iff.mp less
      exact ⟨base, rfl, Instant.not_lt.mp reached⟩
    · rintro ⟨count, -, led, past⟩
      cases count with
      | zero => exact absurd (past base led.symm) reached
      | succ count =>
        rw [afterMany_succ, failed] at led
        exact led
  | case3 base reached next found stuck => exact absurd (progress base next found) (Int.not_lt.mpr stuck)
  | case4 base reached next found forward ih =>
    -- The occurrences from `next` on are those from `base` on but the first, which has passed.
    rw [stepPast_of_after (Instant.not_lt.mp reached) found (progress base next found), ih]
    constructor
    · rintro ⟨count, passed, led, past⟩
      refine ⟨count + 1, (havePassed_succ_iff found).mpr ⟨Instant.not_lt.mp reached, passed⟩, ?_, past⟩
      rw [afterMany_succ, found]
      exact led
    · rintro ⟨count, passed, led, past⟩
      cases count with
      | zero => exact absurd (past base led.symm) reached
      | succ count =>
        rw [afterMany_succ, found] at led
        exact ⟨count, ((havePassed_succ_iff found).mp passed).2, led, past⟩

theorem stepPast_eq_ok_iff [Host] (progress : ∀ i j, after zone amount i = .ok j → i < j) (reached : base ≤ now) :
    stepPast zone amount now base = .ok m ↔ ∃ count, HavePassed zone amount base now (count + 1) ∧
      afterMany zone amount (count + 1) base = .ok m ∧ now < m := by
  rw [stepPast_eq_iff progress]
  constructor
  · rintro ⟨count, passed, led, past⟩
    cases count with
    | zero =>
      cases led
      exact absurd (past base rfl) (Instant.not_lt.mpr reached)
    | succ count => exact ⟨count, passed, led, past m rfl⟩
  · rintro ⟨count, passed, led, past⟩
    refine ⟨count + 1, passed, led, ?_⟩
    rintro _ ⟨⟩
    exact past

theorem stepPast_fails_iff [Host] (progress : ∀ i j, after zone amount i = .ok j → i < j) :
    (∃ e, stepPast zone amount now base = .error e) ↔ ∃ count i, HavePassed zone amount base now (count + 1) ∧
      afterMany zone amount count base = .ok i ∧ ∃ e, after zone amount i = .error e := by
  simp only [stepPast_eq_iff progress]
  constructor
  · rintro ⟨e, count, passed, failed, -⟩
    cases count with
    | zero => cases failed
    | succ count =>
      obtain ⟨i, led, -⟩ := passed count (Nat.lt_succ_self count)
      refine ⟨count, i, passed, led, e, ?_⟩
      rw [afterMany, led] at failed
      exact failed
  · rintro ⟨count, i, passed, led, e, failed⟩
    refine ⟨e, count + 1, passed, ?_, by rintro m ⟨⟩⟩
    rw [afterMany, led]
    exact failed

theorem exists_after_of_afterMany [Host] {count : Nat} (failed : afterMany zone amount count base = .error e) :
    ∃ i, after zone amount i = .error e := by
  induction count with
  | zero => cases failed
  | succ count ih =>
    rw [afterMany] at failed
    cases before : afterMany zone amount count base with
    | error f =>
      rw [before] at failed
      cases failed
      exact ih before
    | ok i =>
      rw [before] at failed
      exact ⟨i, failed⟩

theorem after_ne_stuck [Host] (zone : Zone) (step : CalendarStep) (amount : Amount) (i current : Instant) :
    after zone (.calendar step) i ≠ .error (.overflow (.stuck amount current)) := by
  intro failed
  simp only [after, shift, bind, Except.bind] at failed
  cases shows : zone.toCivil i with
  | error e =>
    obtain ⟨rfl, -⟩ := Zone.toCivil_eq_error shows
    rw [shows] at failed
    cases failed
  | ok c =>
    cases moved : c.move? (step.move true) with
    | none => simp [shows, moved] at failed
    | some d =>
      simp only [shows, moved] at failed
      obtain other | other := Zone.fromCivil_eq_error failed
      · cases other
      · cases other

theorem leap_of_afterMany [Host] (steady : zone.IsSteady) {count : Nat}
    (led : afterMany zone (.calendar step) count base = .ok i) (marked : i.leap = true) : base.leap = true := by
  induction count generalizing i with
  | zero =>
    cases led
    exact marked
  | succ count ih =>
    obtain ⟨previous, before, step⟩ := afterMany_succ_eq_ok_iff.mp led
    exact ih before (leap_of_after steady step marked)

/-- A calendar amount always leads forward, so that to catch up from a moment that has passed is never stuck: it leads
to the first occurrence after now, or fails at an occurrence that has passed because there is no next one in the
calendar. It also fails where the clock on the wall shows a leap second and the end of a skipped day comes next, which
it does not on the way from a base in no leap second. -/
theorem advancePast_calendar [Host] (steady : zone.IsSteady) (step : CalendarStep) :
    (∀ i j, after zone (.calendar step) i = .ok j → i < j) ∧
    ∀ base now, base ≤ now →
      (∀ m, advancePast zone (.calendar step) base now = .ok m ↔
        ∃ count, HavePassed zone (.calendar step) base now (count + 1) ∧
          afterMany zone (.calendar step) (count + 1) base = .ok m ∧ now < m) ∧
      ((∃ e, advancePast zone (.calendar step) base now = .error e) ↔
        ∃ count i, HavePassed zone (.calendar step) base now (count + 1) ∧
          afterMany zone (.calendar step) count base = .ok i ∧
          (LeavesCalendar zone step i ∨ EndsSkippedDay zone step i)) ∧
      (∀ amount current, advancePast zone (.calendar step) base now ≠ .error (.overflow (.stuck amount current))) ∧
      (base.leap = false → ∀ count i, afterMany zone (.calendar step) count base = .ok i →
        ¬ EndsSkippedDay zone step i) := by
  have progress : ∀ i j, after zone (.calendar step) i = .ok j → i < j := fun i j => lt_after steady
  refine ⟨progress, fun base now reached => ?_⟩
  have walk : advancePast zone (.calendar step) base now = stepPast zone (.calendar step) now base := by
    rw [advancePast, if_neg (Instant.not_lt.mpr reached)]
    rfl
  rw [walk]
  refine ⟨fun m => stepPast_eq_ok_iff progress reached, ?_, fun amount current stuck => ?_, ?_⟩
  · simp only [stepPast_fails_iff progress, after_fails_iff steady]
  · obtain ⟨count, -, failed, -⟩ := (stepPast_eq_iff progress).mp stuck
    obtain ⟨i, failed⟩ := exists_after_of_afterMany failed
    exact after_ne_stuck zone step amount i current failed
  · intro ordinary count i led ends
    have marked := leap_of_afterMany steady led (ends.leap steady)
    rw [ordinary] at marked
    cases marked

def monthly : CalendarStep := ⟨1, .months, Nat.one_pos⟩

def halfPastTwo : Instant := ⟨⟨1611797400000000000, false⟩, by decide⟩

theorem monthly_in_berlin : Zone.IsSteady (.region .berlin) ∧ halfPastTwo ≤ march2021 28 0 45 ∧
    ∃ count, HavePassed (.region .berlin) (.calendar monthly) halfPastTwo (march2021 28 0 45) (count + 1) ∧
      afterMany (.region .berlin) (.calendar monthly) (count + 1) halfPastTwo = .ok (march2021 28 1 30) ∧
      march2021 28 0 45 < march2021 28 1 30 := by
  have steady : Zone.IsSteady (.region .berlin) := Zone.isSteady_of_mem_all .berlin (by simp [Region.all])
  have reached : halfPastTwo ≤ march2021 28 0 45 := by decide
  have arrived : (advancePast (.region .berlin) (.calendar monthly) halfPastTwo (march2021 28 0 45)).toOption =
      some (march2021 28 1 30) := by decide +kernel
  exact ⟨steady, reached, (((advancePast_calendar steady monthly).2 _ _ reached).1 _).mp (toOption_eq_some.mp arrived)⟩

/-- 2011-12-29 23:59:60 in Apia, where the next date on the wall was 2011-12-31. -/
def lastLeapSecond : Instant := ⟨⟨1325239199000000000, true⟩, by decide⟩

/-- 2011-12-30 23:59:60 in Apia, which the clock did not show. -/
def skippedLeapSecond : CivilTime := ⟨⟨1325289599000000000, true⟩, by decide⟩

theorem skipped_day_is_not_passed :
    lastLeapSecond ≤ ⟨⟨1325246400000000000, false⟩, by decide⟩ ∧
      advancePast (.region .apia) (.calendar daily) lastLeapSecond ⟨⟨1325246400000000000, false⟩, by decide⟩ =
        .error (.overflow (.civilOffset skippedLeapSecond)) ∧
      ∀ count i, afterMany (.region .apia) (.calendar daily) count lastLeapSecond = .ok i →
        ¬ LeavesCalendar (.region .apia) daily i := by
  have steady : Zone.IsSteady (.region .apia) := Zone.isSteady_of_mem_all .apia (by simp [Region.all])
  have shows : Zone.toCivil (.region .apia) lastLeapSecond = .ok ⟨⟨1325203199000000000, true⟩, by decide⟩ := rfl
  have moved : CivilTime.move? ⟨⟨1325203199000000000, true⟩, by decide⟩ (daily.move true) =
      some skippedLeapSecond := rfl
  have skipped : Zone.Skips (.region .apia) skippedLeapSecond.seconds :=
    steady.isRegular.localOffset?_eq_none_iff.mp rfl
  have failed : after (.region .apia) (.calendar daily) lastLeapSecond =
      .error (.overflow (.civilOffset skippedLeapSecond)) := rfl
  refine ⟨by decide, by decide +kernel, fun count i led => ?_⟩
  cases count with
  | zero =>
    cases led
    rintro (out | ⟨c, shows', out⟩ | ⟨c, d, shows', moved', unskipped, -⟩)
    · exact out (by decide)
    · cases shows.symm.trans shows'
      exact out (by decide)
    · cases shows.symm.trans shows'
      cases moved.symm.trans moved'
      exact unskipped skipped
  | succ count =>
    rw [afterMany_succ, failed] at led
    cases led

end Amount

end Cadence
